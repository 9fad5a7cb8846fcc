import TiledPlacement.Proofs.Graph.Valid
import TiledPlacement.Proofs.Placement.Arrangement
import TiledPlacement.Proofs.Schedule.Pipeline

/-!
Schedules in which no task waits for another one at its point. If the edges form no cycle either,
every block fires, each one once. Whatever the executor answers, a run that returns has found every
block without inputs at its place.
-/

namespace TiledPlacement

open Execution

namespace Placement

variable {placement : Placement}

/-- No unit that is in use runs after another one of its point. -/
def Unobstructed (placement : Placement) : Prop :=
  ∀ {cell unit task}, placement.grid.Sits cell unit task → unit = .axon ∨ unit = .memory

theorem Arranged.unobstructed (harranged : placement.Arranged) (hagrees : placement.Agrees) :
    placement.Unobstructed := by
  intro cell unit task hsits
  obtain ⟨place, hplaced, hresolve⟩ := hagrees.recorded hsits
  obtain ⟨listed, used, hlisted, hused, rfl⟩ := harranged.listed hplaced
  have hsame := Except.ok.inj (hresolve.symm.trans (Grid.resolve_unitPlace hlisted used))
  exact (Address.unit.inj (Option.some.inj hsame)).2 ▸ hused

namespace Unobstructed

theorem not_runsBefore (hfree : placement.Unobstructed) (first second : TaskId) :
    ¬placement.RunsBefore first second := by
  intro hruns
  obtain ⟨cell, unit, earlier, hwaits, hsits, hearlier, -⟩ := hruns
  rcases hfree hsits with rfl | rfl
  · exact Nat.not_lt_zero _ hearlier
  · exact absurd hwaits (by decide)

theorem not_heldUp (hfree : placement.Unobstructed) (hgraph : placement.graph.WellFormed)
    (hvalid : placement.graph.Valid) (task : TaskId) : ¬placement.HeldUp task := by
  intro hheld
  obtain ⟨origin, hcycle, -⟩ := hheld
  obtain ⟨rank, hranked⟩ := hvalid.ranked
  have hless := hcycle.lift rank fun first second hprecedes => by
    rcases hprecedes with hfeeds | hruns
    · obtain ⟨id, edge, hedge, rfl, rfl⟩ := hfeeds
      obtain rfl := hgraph.edge_id hedge
      exact hranked edge hedge
    · exact absurd hruns (hfree.not_runsBefore first second)
  rw [Relation.transGen_eq_self] at hless
  exact Nat.lt_irrefl _ hless

end Unobstructed

end Placement

namespace Schedule

variable {placement : Placement}

/-- Nothing holds up a task of a complete placement in which no unit waits. -/
theorem exists_drained (hcomplete : placement.Complete) (hvalid : placement.graph.Valid)
    (hfree : placement.Unobstructed) :
    ∃ last, run placement Executor.pipeline (start placement.graph ∅) = .ok last.fired last ∧
      last.fired.Nodup ∧ ∀ task, task ∈ last.fired ↔ placement.graph.hasBlock task = true := by
  obtain ⟨last, hsettled, hrun⟩ := exists_settled hcomplete
  have hfired : ∀ task, task ∈ last.fired ↔ placement.graph.hasBlock task = true := fun task =>
    (hsettled.fired_iff hcomplete).trans
      (and_iff_left (hfree.not_heldUp hcomplete.wellFormed hvalid task))
  have hqueue : last.queue = [] := by
    refine List.eq_nil_iff_forall_not_mem.mpr fun task htask => ?_
    obtain ⟨other, hruns, -⟩ := hsettled.blocked task htask
    exact hfree.not_runsBefore other task hruns
  rw [if_pos hqueue] at hrun
  exact ⟨last, hrun, hsettled.pipelined.accounts.fired_nodup, hfired⟩

variable {execute : Executor σ} {schedule : Schedule σ} {task : TaskId}

/-- Every block is accounted for, and what has fired is placed. -/
structure InPlace (placement : Placement) (schedule : Schedule σ) : Prop where
  accounts : Accounts placement.graph [] [] schedule
  placed : ∀ task ∈ schedule.fired, ∃ place, placement.coordinate? task = some place

/-- Only a task that is placed can fire. -/
theorem ends_step_placed (execute : Executor σ)
    (hplaced : ∀ task ∈ schedule.fired, ∃ place, placement.coordinate? task = some place) :
    Ends (step placement execute) schedule
      (fun _ next => ∀ task ∈ next.fired, ∃ place, placement.coordinate? task = some place)
      (fun _ _ => True) := by
  unfold Ends step
  cases schedule.queue with
  | nil => exact hplaced
  | cons head rest =>
      dsimp only
      cases hplace : placement.coordinate? head with
      | none => trivial
      | some place =>
          dsimp only
          cases execute placement.grid place head schedule.executor with
          | error error executor => trivial
          | ok progress executor =>
              cases progress with
              | busy => exact hplaced
              | done =>
                  dsimp only
                  rw [fired_fire]
                  intro task htask
                  rcases List.mem_append.mp htask with hbefore | hlast
                  · exact hplaced task hbefore
                  · exact ⟨place, List.mem_singleton.mp hlast ▸ hplace⟩

theorem InPlace.ends_step (hgraph : placement.graph.WellFormed)
    (hschedule : InPlace placement schedule) :
    Ends (step placement execute) schedule (fun _ => InPlace placement) (fun _ _ => True) := by
  have hplaced := ends_step_placed execute hschedule.placed
  have haccounts : Accounts placement.graph [] ((schedule.lost? placement execute).toList ++ [])
      (after (step placement execute) schedule) := hschedule.accounts.after_step hgraph
  unfold Ends at hplaced ⊢
  unfold lost? after fails at haccounts
  cases hstep : step placement execute schedule with
  | error error next => trivial
  | ok outcome next =>
      rw [hstep] at hplaced haccounts
      exact ⟨haccounts, hplaced⟩

/-- A block without inputs stays queued until it has fired. -/
theorem placed_of_run (hgraph : placement.graph.WellFormed) {executor : σ} {fired : List TaskId}
    {last : Schedule σ}
    (hrun : run placement execute (start placement.graph executor) = .ok fired last)
    {block : Block} (hblock : placement.graph.block? task = some block)
    (hinputs : placement.graph.inputEdges task = []) :
    ∃ place, placement.coordinate? task = some place := by
  obtain ⟨hlast, hqueue, -⟩ := (ends_runFrom (fun schedule hschedule =>
    InPlace.ends_step hgraph hschedule) (fun _ _ => trivial) 0 (start placement.graph executor)
      ⟨accounts_start placement.graph executor, List.forall_mem_nil _⟩).of_ok hrun
  apply hlast.placed
  by_contra hwaiting
  have hactivated : last.state? task = some .activated := by
    rw [hlast.accounts.state_eq, hblock, TaskGraph.outstanding_eq_zero_iff.mpr]
    · simp [stateAt, hwaiting]
    · rw [hinputs]
      exact List.forall_mem_nil _
  rw [hlast.accounts.activated, hqueue] at hactivated
  simp at hactivated

end Schedule

end TiledPlacement

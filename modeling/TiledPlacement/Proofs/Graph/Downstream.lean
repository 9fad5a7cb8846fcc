import TiledPlacement.Proofs.Graph.Topological

/-!
What follows a block. While the queue is emptied, all that has been seen or waits has been reached
along edges, and whatever an edge leads to from the block itself or from one that has been seen, has
been seen or waits. When the queue is empty the blocks seen are therefore those that can be reached.
-/

namespace TiledPlacement

open Execution

namespace TaskGraph

/-- Blocks seen and blocks waiting while those that follow `origin` are looked for. -/
structure Explores (graph : TaskGraph) (origin : TaskId) (seen : TaskSet) (queue : List TaskId) :
    Prop where
  reached : ∀ task, task ∈ seen ∨ task ∈ queue → Relation.TransGen graph.Leads origin task
  started : ∀ consumer, graph.Leads origin consumer → consumer ∈ seen ∨ consumer ∈ queue
  closed : ∀ task ∈ seen, ∀ consumer, graph.Leads task consumer →
    consumer ∈ seen ∨ consumer ∈ queue

variable {graph : TaskGraph} {origin task : TaskId} {seen : TaskSet} {queue : List TaskId}

theorem WellFormed.mem_consumers_iff_leads (hgraph : graph.WellFormed) {consumer : TaskId} :
    consumer ∈ (graph.consumers task).toList ↔ graph.Leads task consumer := by
  rw [hgraph.mem_consumers_iff]
  constructor
  · rintro ⟨edge, hedge, hproducer, hconsumer⟩
    exact ⟨edge.id, edge, hedge, hproducer, hconsumer⟩
  · rintro ⟨id, edge, hedge, hproducer, hconsumer⟩
    obtain rfl := hgraph.edge_id hedge
    exact ⟨edge, hedge, hproducer, hconsumer⟩

theorem mem_insert_iff {other : TaskId} :
    other ∈ seen.insert task ↔ other = task ∨ other ∈ seen := by
  rw [Std.ExtTreeSet.mem_insert, Std.LawfulEqCmp.compare_eq_iff_eq, eq_comm]

namespace Explores

theorem start (hgraph : graph.WellFormed) (origin : TaskId) :
    Explores graph origin ∅ (graph.consumers origin).toList where
  reached task htask := by
    rcases htask with hnone | hwaits
    · exact absurd hnone Std.ExtTreeSet.not_mem_empty
    · exact .single (hgraph.mem_consumers_iff_leads.mp hwaits)
  started _ hleads := .inr (hgraph.mem_consumers_iff_leads.mpr hleads)
  closed _ hnone := absurd hnone Std.ExtTreeSet.not_mem_empty

/-- A block that has been seen leaves the queue. -/
theorem skip (hexplores : Explores graph origin seen (task :: queue)) (hseen : task ∈ seen) :
    Explores graph origin seen queue := by
  have hstill : ∀ {other}, other ∈ seen ∨ other ∈ task :: queue → other ∈ seen ∨ other ∈ queue := by
    intro other hother
    rcases hother with hbefore | hwaits
    · exact .inl hbefore
    · rcases List.mem_cons.mp hwaits with rfl | hlater
      · exact .inl hseen
      · exact .inr hlater
  refine ⟨fun other hother => ?_, fun consumer hleads => hstill (hexplores.started _ hleads),
    fun other hother consumer hleads => hstill (hexplores.closed other hother _ hleads)⟩
  exact hexplores.reached other (hother.imp_right (List.mem_cons_of_mem _))

/-- A block is seen, and its consumers join the queue. -/
theorem visit (hgraph : graph.WellFormed)
    (hexplores : Explores graph origin seen (task :: queue)) :
    Explores graph origin (seen.insert task) (queue ++ (graph.consumers task).toList) := by
  have hreached := hexplores.reached task (.inr List.mem_cons_self)
  have hstill : ∀ {other}, other ∈ seen ∨ other ∈ task :: queue →
      other ∈ seen.insert task ∨ other ∈ queue ++ (graph.consumers task).toList := by
    intro other hother
    rcases hother with hbefore | hwaits
    · exact .inl (mem_insert_iff.mpr (.inr hbefore))
    · rcases List.mem_cons.mp hwaits with rfl | hlater
      · exact .inl (mem_insert_iff.mpr (.inl rfl))
      · exact .inr (List.mem_append_left _ hlater)
  refine ⟨fun other hother => ?_, fun consumer hleads => hstill (hexplores.started _ hleads),
    fun other hother consumer hleads => ?_⟩
  · rcases hother with hmember | hwaits
    · rcases mem_insert_iff.mp hmember with rfl | hbefore
      · exact hreached
      · exact hexplores.reached other (.inl hbefore)
    · rcases List.mem_append.mp hwaits with hearlier | hconsumer
      · exact hexplores.reached other (.inr (List.mem_cons_of_mem _ hearlier))
      · exact hreached.tail (hgraph.mem_consumers_iff_leads.mp hconsumer)
  · rcases mem_insert_iff.mp hother with rfl | hbefore
    · exact .inr (List.mem_append_right _ (hgraph.mem_consumers_iff_leads.mpr hleads))
    · exact hstill (hexplores.closed other hbefore _ hleads)

theorem drain (hgraph : graph.WellFormed) (hexplores : Explores graph origin seen queue) :
    Explores graph origin (graph.drain seen queue) [] := by
  fun_induction graph.drain seen queue with
  | case1 => exact hexplores
  | case2 seen task queue hseen induction => exact induction (hexplores.skip hseen)
  | case3 seen task queue hunseen induction => exact induction (hexplores.visit hgraph)

/-- With an empty queue all that can be reached has been seen. -/
theorem mem_iff (hexplores : Explores graph origin seen []) :
    task ∈ seen ↔ Relation.TransGen graph.Leads origin task := by
  have hnothing : ∀ {other}, other ∈ seen ∨ other ∈ [] → other ∈ seen :=
    fun hother => hother.resolve_right List.not_mem_nil
  refine ⟨fun hseen => hexplores.reached task (.inl hseen), fun hreaches => ?_⟩
  induction hreaches with
  | single hleads => exact hnothing (hexplores.started _ hleads)
  | tail _ hleads induction => exact hnothing (hexplores.closed _ induction _ hleads)

end Explores

/-- After any history that leaves ids over, failed commands included: the queue runs empty, and
the blocks found are those at the end of one or more edges from the given one on, which is among
them exactly when it is on a cycle. A task that is no block has none. -/
theorem Reachable.downstream_exact (hreachable : graph.ReachableWithin largestId) (task : TaskId) :
    (∀ other, other ∈ graph.downstream task ↔
        (∃ block, graph.block? other = some block) ∧
          Relation.TransGen graph.Leads task other) ∧
      (task ∈ graph.downstream task ↔ Relation.TransGen graph.Leads task task) ∧
      (graph.block? task = none → graph.downstream task = ∅) := by
  have hgraph := (Reachable.wellFormed hreachable).2
  have hmember : ∀ {other}, other ∈ graph.downstream task ↔
      Relation.TransGen graph.Leads task other :=
    ((Explores.start hgraph task).drain hgraph).mem_iff
  refine ⟨fun other => ?_, hmember, fun hunknown => ?_⟩
  · rw [hmember]
    refine (and_iff_right_of_imp fun hreaches => ?_).symm
    obtain ⟨producer, -, hleads⟩ := Relation.TransGen.tail'_iff.mp hreaches
    exact (hgraph.leads_known hleads).2
  · refine Std.ExtTreeSet.eq_empty_iff_forall_not_mem.mpr fun other hother => ?_
    obtain ⟨consumer, hleads, -⟩ := Relation.TransGen.head'_iff.mp (hmember.mp hother)
    obtain ⟨block, hblock⟩ := (hgraph.leads_known hleads).1
    cases hunknown.symm.trans hblock

/-- Behind the second of the shifts that read one another's results come both of them and the
output, but not the input of the product; nothing comes behind a task that is no block. -/
theorem downstream_exact_productAndLoop :
    (⟨3⟩ ∈ productAndLoop.downstream ⟨3⟩ ∧ ⟨4⟩ ∈ productAndLoop.downstream ⟨3⟩ ∧
        ⟨0⟩ ∉ productAndLoop.downstream ⟨3⟩) ∧
      productAndLoop.block? ⟨7⟩ = none ∧ productAndLoop.downstream ⟨7⟩ = ∅ := by
  have hreachable : productAndLoop.Reachable :=
    (Reachable.empty (Nat.zero_le _)).runAll (by simp [Command.Admits]) (by decide +kernel)
  have hgraph := hreachable.wellFormed.2
  obtain ⟨hmember, hcycle, -⟩ := Reachable.downstream_exact hreachable ⟨3⟩
  obtain ⟨-, -, hunknown⟩ := Reachable.downstream_exact hreachable ⟨7⟩
  have hback : productAndLoop.Leads ⟨3⟩ ⟨2⟩ :=
    hgraph.mem_consumers_iff_leads.mp (by decide +kernel)
  have hforth : productAndLoop.Leads ⟨2⟩ ⟨3⟩ :=
    hgraph.mem_consumers_iff_leads.mp (by decide +kernel)
  have hleaves : productAndLoop.Leads ⟨3⟩ ⟨4⟩ :=
    hgraph.mem_consumers_iff_leads.mp (by decide +kernel)
  have hnone : productAndLoop.block? ⟨7⟩ = none := by decide +kernel
  refine ⟨⟨hcycle.mpr (.tail (.single hback) hforth), ?_, fun hfound => ?_⟩, hnone,
    hunknown hnone⟩
  · exact (hmember _).mpr ⟨(hgraph.leads_known hleaves).2, .single hleaves⟩
  · obtain ⟨-, hreaches⟩ := (hmember _).mp hfound
    obtain ⟨producer, -, hleads⟩ := Relation.TransGen.tail'_iff.mp hreaches
    have hinputs : productAndLoop.inputEdges ⟨0⟩ = [] := by decide +kernel
    obtain ⟨edge, hedge, -⟩ := hgraph.leads_iff.mp hleads
    rw [hinputs] at hedge
    cases hedge

end TaskGraph

end TiledPlacement

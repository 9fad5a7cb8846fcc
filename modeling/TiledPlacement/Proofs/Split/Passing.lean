import TiledPlacement.Proofs.Split.Outcome
import TiledPlacement.Proofs.Split.Wiring

/-!
Outputs after a split. Blocks that stay are fed as before by each other, and with each element of
the output of the cut block by the accumulator, or by the copy that yields the element.
-/

namespace TiledPlacement

open Execution

namespace TaskGraph

/-- One edge alone brings the element, unchanged, and takes it from an element that a block
yields. -/
def FedFrom (graph : TaskGraph) (source : TaskId) (sent : Datum) (task : TaskId) (index : Nat)
    (element : Datum) : Prop :=
  ∃ edge, graph.Feeds edge task index element ∧
    (∀ other, graph.Feeds other task index element → other = edge) ∧
      edge.isIdentity = true ∧ edge.src.Names source 0 ∧ edge.origin element = sent

theorem FedBy.fedFrom {graph : TaskGraph} {connection : Connection} {task source : TaskId}
    {index : Nat} {element : Datum} (hfed : graph.FedBy connection task index element)
    (hidentity : connection.isIdentity = true) (hnames : connection.src.Names source 0) :
    graph.FedFrom source (connection.dst.window.send connection.src.window element) task index
      element := by
  obtain ⟨edge, rfl, hfeeds, honly⟩ := hfed
  exact ⟨edge, hfeeds, honly, hidentity, hnames, rfl⟩

theorem FedBy.covers {graph : TaskGraph} {connection : Connection} {task : TaskId} {index : Nat}
    {element : Datum} (hfed : graph.FedBy connection task index element) :
    connection.dst.window.Covers element := by
  obtain ⟨edge, rfl, hfeeds, -⟩ := hfed
  exact hfeeds.covers

/-- The block sends the element unchanged to a block that is neither it nor one of its operands. -/
structure Sends (graph : TaskGraph) (task : TaskId) (edge : Edge) (other : TaskId) (index : Nat)
    (element : Datum) : Prop extends graph.Feeds edge other index element where
  sender : edge.src.task = task
  identity : edge.isIdentity = true
  apart : other ≠ task
  stays : other ∉ graph.operands task

end TaskGraph

namespace Split.Enacts

variable {split : Split} {graph left : TaskGraph} {task : TaskId} {vector : SplitVector}
  {plan : SplitPlan} {layout : SplitLayout} {after : IdSource} {edge : Edge} {other : TaskId}
  {index : Nat} {element : Datum}

theorem exists_accumulator (henacts : split.Enacts graph task vector plan layout after left)
    (hcut : 1 < split.factors.r) (hreduction : split.computation.operation.isReduction = true) :
    ∃ block, layout.accumulator = some block ∧ block.id ∈ plan.created ∧
      left.payload? block.id = some (.computation split.accumulation) := by
  have hreduces : split.reduces = true :=
    Bool.and_eq_true_iff.mpr ⟨decide_eq_true hcut, hreduction⟩
  obtain ⟨block, hblock⟩ :=
    Option.isSome_iff_exists.mp (henacts.plans.planned.reduces.trans hreduces)
  exact ⟨block, hblock, henacts.role_mem_created (SplitLayout.accumulator_mem_roles hblock),
    henacts.payload_sum hblock⟩

theorem fedFrom_sum (henacts : split.Enacts graph task vector plan layout after left)
    (hvalid : graph.Valid) {block : Block} (hblock : layout.accumulator = some block)
    (hsends : graph.Sends task edge other index element) :
    left.FedFrom block.id (edge.origin element) other index element :=
  (henacts.fedBy_sum hvalid hblock hsends.toFeeds hsends.sender).fedFrom hsends.identity ⟨rfl, rfl⟩

theorem fedFrom_copy (henacts : split.Enacts graph task vector plan layout after left)
    (hvalid : graph.Valid) (hone : split.factors.r = 1)
    (hsends : graph.Sends task edge other index element) :
    ∃ copy ∈ layout.copies, (split.yield copy.part).Covers (edge.origin element) ∧
      (∀ twin ∈ layout.copies,
        (split.yield twin.part).Covers (edge.origin element) → twin = copy) ∧
        left.FedFrom copy.block.id ((split.yield copy.part).lower (edge.origin element)) other
          index element := by
  have hcuts := henacts.cuts
  have hplanned := henacts.plans.planned
  have hknown := hsends.known
  obtain ⟨copy, hcopy, piece, received, hpiece, hreceived, hfed⟩ :=
    henacts.fedBy_output hvalid hone hsends.toFeeds hsends.sender
  have hsame := hcuts.yield_sameAxes hsends.known hsends.sender (hplanned.part_mem hcopy)
  have hcommon := (Split.overlap?_eq_some hpiece).1
  obtain rfl := Split.carry_of_identity hsends.identity hreceived
  have hedge := hcuts.mem_outputEdges_iff.mpr ⟨hknown, hsends.sender⟩
  have hsize := henacts.output_sameSize hvalid.bounded (henacts.accumulator_eq_none hone) hedge
    hsends.identity
  have hreceives : edge.dst.window.Bounded := hvalid.bounded.edge hknown .input
  obtain ⟨hyields, hlower⟩ := Window.lower_send hreceives hsize
    (hcommon.inside_left hsame) (hcommon.inside_right (.of_sameAxes hsame)) hfed.covers
  obtain ⟨only, -, honly⟩ := hplanned.existsUnique_copy hcuts
    (hyields.of_within (hcuts.yield_bounded hvalid.bounded (hplanned.part_mem hcopy))
      (Split.yield_liesIn (hplanned.part_mem hcopy)).within)
    (SplitPart.length_intervals_pos (Computation.divides_of_effectiveFactors hcuts.factors) .r)
  have hunique : ∀ twin ∈ layout.copies,
      (split.yield twin.part).Covers (edge.origin element) → twin = only :=
    fun twin htwin hcovers => honly twin ⟨htwin, hplanned.addend_eq_zero hone htwin, hcovers⟩
  refine ⟨copy, hcopy, hyields, fun twin htwin hcovers => ?_, ?_⟩
  · exact (hunique twin htwin hcovers).trans (hunique copy hcopy hyields).symm
  · rw [Edge.origin, ← hlower]
    exact hfed.fedFrom hsends.identity ⟨rfl, rfl⟩

end Split.Enacts

namespace TaskGraph

/-- Where the numbers of the graph are words, every block that stays after a split is fed as before,
where the cut block fed it by the accumulator or by the copy that yields the element. -/
theorem split_passes_output {graph left : TaskGraph} {task : TaskId} {vector factors : SplitVector}
    {created : List TaskId} {computation : Computation} (hgraph : graph.Reachable)
    (hbounded : graph.Bounded) (hvalid : graph.validate = .ok ())
    (hpayload : graph.payload? task = some (.computation computation))
    (hfactors : computation.effectiveFactors task vector = .ok factors)
    (hsum : factors.r = 1 ∨ computation.operation.isReduction = true)
    (hsplit : split task vector graph = .ok created left) (hcreated : created ≠ [])
    (hids : left.ids.next ≤ largestId) :
    ∃ copies : List (SplitPart × TaskId), left.CutInto computation factors created copies ∧
      (∀ edge other index element, other ≠ task → other ∉ graph.operands task →
        graph.Feeds edge other index element → edge.src.task ≠ task →
          left.Feeds edge other index element ∧
            ∀ found, left.Feeds found other index element → found = edge) ∧
      (1 < factors.r → ∃ sum ∈ created,
        (∃ total shift, left.payload? sum = some (.computation total) ∧
          total.operation = .accumulate shift) ∧
          ∀ edge other index element, graph.Sends task edge other index element →
            left.FedFrom sum (edge.origin element) other index element) ∧
      (factors.r = 1 → ∀ edge other index element, graph.Sends task edge other index element →
        ∃ copy ∈ copies,
          (Computation.output.window (copy.1.window computation factors)).Covers
              (edge.origin element) ∧
            (∀ twin ∈ copies,
              (Computation.output.window (twin.1.window computation factors)).Covers
                (edge.origin element) → twin = copy) ∧
              left.FedFrom copy.2
                ((Computation.output.window (copy.1.window computation factors)).lower
                  (edge.origin element)) other index element) := by
  obtain ⟨split, rfl, hsame, hdone⟩ :=
    split_cases hgraph hvalid hpayload hsplit hids
  obtain rfl := Except.ok.inj (hsame.symm.trans hfactors)
  have hpassed := (hgraph.wellFormed.2.validate_ok_iff hbounded).mp hvalid
  obtain ⟨-, rfl, -⟩ | ⟨plan, layout, after, henacts, rfl⟩ := hdone
  · exact absurd rfl hcreated
  refine ⟨layout.roster, henacts.cutInto, ?_, fun hcut => ?_, fun hone => ?_⟩
  · intro edge other index element hother hshared hfeeds hsrc
    refine henacts.feeds_kept hpassed (fun hgone => ?_) hfeeds hsrc
    exact (henacts.cuts.mem_gone_iff.mp hgone).elim hshared hother
  · have hreduction := hsum.resolve_left (Nat.ne_of_gt hcut)
    obtain ⟨block, hblock, hmember, hpayload⟩ := henacts.exists_accumulator hcut hreduction
    refine ⟨block.id, hmember, ⟨_, _, hpayload, rfl⟩, fun edge other index element hsends => ?_⟩
    exact henacts.fedFrom_sum hpassed hblock hsends
  · intro edge other index element hsends
    obtain ⟨copy, hcopy, hcovers, honly, hfed⟩ := henacts.fedFrom_copy hpassed hone hsends
    refine ⟨(copy.part, copy.block.id), List.mem_map_of_mem hcopy, hcovers, ?_, hfed⟩
    intro entry hentry hcovered
    obtain ⟨twin, htwin, rfl⟩ := List.mem_map.mp hentry
    rw [honly twin htwin hcovered]

/-- Halves of a computation on stored channels send each channel where it went before. -/
theorem split_passes_output_storedChannels :
    ∃ left, split ⟨2⟩ ⟨1, 1, 2, 1⟩ storedChannels = .ok [⟨7⟩, ⟨8⟩, ⟨9⟩, ⟨10⟩] left ∧
      ∃ copies, left.CutInto ⟨.vectorShift 0, .vector 4, .int8, .absent⟩ ⟨1, 1, 2, 1⟩
          [⟨7⟩, ⟨8⟩, ⟨9⟩, ⟨10⟩] copies ∧
        ∀ element, (Window.full (.vector 4)).Covers element → ∃ copy ∈ copies, ∃ sent,
          left.FedFrom copy.2 sent ⟨3⟩ 0 element := by
  have hsplit := @run_eq_ok_of_returned _ _ _ (split ⟨2⟩ ⟨1, 1, 2, 1⟩) storedChannels
    [⟨7⟩, ⟨8⟩, ⟨9⟩, ⟨10⟩] (by decide +kernel)
  have hpayload : storedChannels.payload? ⟨2⟩ =
      some (.computation ⟨.vectorShift 0, .vector 4, .int8, .absent⟩) := by decide +kernel
  obtain ⟨copies, hcut, -, -, hpasses⟩ := split_passes_output reachable_storedChannels
    (by decide +kernel) (by decide +kernel) hpayload rfl (Or.inl rfl) hsplit
    (List.cons_ne_nil _ _) (by decide +kernel)
  refine ⟨_, hsplit, copies, hcut, fun element hcovers => ?_⟩
  have hsends : storedChannels.Sends ⟨2⟩
      ⟨⟨6⟩, ⟨⟨2⟩, 0, .full (.vector 4)⟩, ⟨⟨3⟩, 0, .full (.vector 4)⟩, []⟩ ⟨3⟩ 0 element :=
    ⟨⟨by decide +kernel, ⟨rfl, rfl⟩, hcovers⟩, rfl, rfl, by decide, by decide +kernel⟩
  obtain ⟨copy, hcopy, -, -, hfed⟩ := hpasses rfl _ _ _ _ hsends
  exact ⟨copy, hcopy, _, hfed⟩

/-- A computation on two channels that is said to send on the last of as many channels as there are
words. -/
def sendsPastTheEnd : TaskGraph :=
  (empty 0).runAll [
    .addStorage ⟨.input, .vector 2, .int8⟩,
    .addComputation ⟨.vectorShift 0, .vector 2, .int8, .absent⟩,
    .addStorage ⟨.output, .vector 1, .int8⟩,
    .connectWhole ⟨0⟩ ⟨1⟩ 0,
    .connect ⟨⟨⟨1⟩, 0, ⟨.vector (2 ^ 64 - 1), .vector 1⟩⟩, ⟨⟨2⟩, 0, .full (.vector 1)⟩, []⟩]

/-- Where the end of a window is no word, a block that stays may lose what it was fed. -/
theorem split_loses_output :
    ∃ created left, sendsPastTheEnd.Reachable ∧ sendsPastTheEnd.validate = .ok () ∧
      sendsPastTheEnd.payload? ⟨1⟩ =
        some (.computation ⟨.vectorShift 0, .vector 2, .int8, .absent⟩) ∧
      split ⟨1⟩ ⟨1, 1, 2, 1⟩ sendsPastTheEnd = .ok created left ∧ created ≠ [] ∧
      left.ids.next ≤ largestId ∧ ∃ edge element,
        sendsPastTheEnd.Sends ⟨1⟩ edge ⟨2⟩ 0 element ∧
          edge.src.window.size.SameAxes edge.dst.window.size ∧
            ∀ other, ¬left.Feeds other ⟨2⟩ 0 element := by
  have hsplit := @run_eq_ok_of_returned _ _ _ (split ⟨1⟩ ⟨1, 1, 2, 1⟩) sendsPastTheEnd
    [⟨5⟩, ⟨6⟩, ⟨7⟩, ⟨8⟩] (by decide +kernel)
  have hreachable : sendsPastTheEnd.Reachable :=
    (Reachable.empty (Nat.zero_le _)).runAll (by simp [Command.Admits]) (by decide +kernel)
  have hsends : sendsPastTheEnd.Sends ⟨1⟩ ⟨⟨4⟩,
      ⟨⟨1⟩, 0, ⟨.vector (2 ^ 64 - 1), .vector 1⟩⟩, ⟨⟨2⟩, 0, .full (.vector 1)⟩, []⟩ ⟨2⟩ 0
        (fun _ => 0) :=
    ⟨⟨by decide +kernel, ⟨rfl, rfl⟩, by decide⟩, rfl, rfl, by decide, by decide +kernel⟩
  refine ⟨_, _, hreachable, by decide +kernel, by decide +kernel, hsplit, List.cons_ne_nil _ _,
    by decide +kernel, _, _, hsends, by decide, fun edge hfeeds => ?_⟩
  have hnone : ∀ edge ∈ (after (split ⟨1⟩ ⟨1, 1, 2, 1⟩) sendsPastTheEnd).edges.values,
      edge.dst.task ≠ ⟨2⟩ := by decide +kernel
  exact hnone edge (mem_values_iff.mpr ⟨_, hfeeds.known⟩) hfeeds.names.1

end TaskGraph

end TiledPlacement

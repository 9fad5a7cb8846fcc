import TiledPlacement.Proofs.Split.Placing

/-!
Splits that fail. One that fails while it is planned leaves the graph as it was; one that fails
later does not, and that happens exactly when the plan has a connection without a place.
-/

namespace TiledPlacement

open Execution

namespace SplitPlan

/-- What stands under a number once the blocks of the plan have come and others have gone. -/
def payload? (plan : SplitPlan) (graph : TaskGraph) (gone : List TaskId) (task : TaskId) :
    Option Payload :=
  match plan.blocks.find? fun block => decide (block.id = task) with
  | some block => some block.payload
  | none => if task ∈ gone then none else graph.payload? task

/-- An end of the connection names a block that goes, or a port that does not suit its window. -/
def Misplaces (plan : SplitPlan) (graph : TaskGraph) (gone : List TaskId)
    (suits : Window → Shape → Prop) (connection : Connection) : Prop :=
  ∃ side, ∀ payload extent,
    plan.payload? graph gone (connection.endAt side).task = some payload →
      (payload.shapes side)[(connection.endAt side).port]? = some extent →
        ¬suits (connection.endAt side).window extent

theorem payload?_of_replaced {graph left : TaskGraph} {gone : List TaskId} {plan : SplitPlan}
    (hleft : graph.Replaced gone plan left) (task : TaskId) :
    left.payload? task = plan.payload? graph gone task := by
  unfold payload?
  cases hfound : plan.blocks.find? fun block => decide (block.id = task) with
  | some block =>
      have hid := List.find?_some hfound
      obtain rfl : block.id = task := of_decide_eq_true hid
      exact hleft.made block (List.mem_of_find?_eq_some hfound)
  | none =>
      refine hleft.others task fun block hblock => ?_
      exact of_decide_eq_false (Bool.not_eq_true _ ▸ List.find?_eq_none.mp hfound block hblock)

theorem misplaces_iff {graph left : TaskGraph} {gone : List TaskId} {plan : SplitPlan}
    (hleft : graph.Replaced gone plan left) (suits : Window → Shape → Prop)
    (connection : Connection) :
    plan.Misplaces graph gone suits connection ↔ ¬left.Places suits connection := by
  unfold Misplaces TaskGraph.Places
  rw [Classical.not_forall]
  refine exists_congr fun side => ?_
  rw [hleft.wellFormed.extent?_eq, payload?_of_replaced hleft]
  cases plan.payload? graph gone (connection.endAt side).task with
  | none => simp
  | some payload =>
      constructor
      · intro hmisplaced hplaced
        obtain ⟨extent, hextent, hsame⟩ := hplaced
        exact hmisplaced payload extent rfl hextent hsame
      · intro hunplaced other extent hpayload hextent hsame
        obtain rfl := Option.some.inj hpayload
        exact hunplaced ⟨extent, hextent, hsame⟩

end SplitPlan

namespace TaskGraph

/-- The graphs are the same, but for the source of ids, which may have counted on. -/
structure OnlyIdsDiffer (graph left : TaskGraph) : Prop where
  blocks : left.blocks = graph.blocks
  edges : left.edges = graph.edges
  groups : left.groups = graph.groups
  ids : graph.ids.next ≤ left.ids.next

private theorem onlyIdsDiffer_of_eq {graph left : TaskGraph}
    (hsame : left = { graph with ids := left.ids }) (hlater : graph.ids.next ≤ left.ids.next) :
    graph.OnlyIdsDiffer left := by
  have hgroups : left.groups = graph.groups := by
    rw [hsame]
    rfl
  refine ⟨?_, ?_, hgroups, hlater⟩
  all_goals rw [hsame]

/-- The request is planned in full, but some connection of the plan has no place. -/
def Misplaces (graph : TaskGraph) (suits : Window → Shape → Prop) (task : TaskId)
    (vector : SplitVector) : Prop :=
  ∃ (split : Split) (plan : SplitPlan) (after : IdSource),
    split.Cuts graph task vector ∧ split.plan graph graph.ids = .ok plan after ∧
      ∃ connection ∈ plan.edges, plan.Misplaces graph (split.gone task) suits connection

private theorem onlyIdsDiffer_iff_of_joins {graph left : TaskGraph} {task : TaskId}
    {vector : SplitVector} {error : GraphError} (hgraph : graph.Reachable)
    (hsplit : split task vector graph = .error error left) (hids : left.ids.next ≤ largestId)
    {suits : Window → Shape → Prop}
    (hjoins : ∀ {split : Split} {plan : SplitPlan} {layout : SplitLayout} {after : IdSource}
      {replaced : TaskGraph}, split.Cuts graph task vector →
        split.Plans graph plan layout after → graph.Replaced (split.gone task) plan replaced →
          ∀ connection ∈ plan.edges,
            (replaced.Joins connection ↔ replaced.Places suits connection)) :
    graph.OnlyIdsDiffer left ↔ ¬graph.Misplaces suits task vector := by
  obtain ⟨-, hwellFormed⟩ := hgraph.wellFormed
  have hlater := ((ends_split_evolves (fun _ => hwellFormed) task vector).of_error hsplit).later
  rcases (ends_split hwellFormed hgraph.grouped task vector).of_error hsplit hids with
    ⟨hsame, hunplanned⟩ | ⟨split, hcuts, plan, layout, after, hplans, hleft, hrefused⟩
  · refine ⟨fun _ hmisplaces => ?_, fun _ => onlyIdsDiffer_of_eq hsame hlater⟩
    obtain ⟨split, plan, after, hcuts, hrun, -⟩ := hmisplaces
    exact hunplanned split hcuts plan after hrun
  · obtain ⟨connection, hmember, hrefused⟩ := hrefused
    have hmisplaced : plan.Misplaces graph (split.gone task) suits connection := by
      rw [SplitPlan.misplaces_iff hleft, ← hjoins hcuts hplans hleft connection hmember]
      exact hrefused
    refine ⟨fun hsame => ?_, fun hplaced => ?_⟩
    · -- The cut block is gone, so that something else than the source of ids differs.
      have hself : task ∈ split.gone task := List.mem_append_right _ (List.mem_singleton_self task)
      have hpayload : graph.payload? task = some split.block.payload :=
        payload?_eq_some_iff.mpr ⟨split.block, hcuts.block, rfl⟩
      have hgone : left.payload? task = none := by
        refine (hleft.others task fun block hblock hid => ?_).trans (if_pos hself)
        have hunused := unused_block (hplans.unused hwellFormed hblock)
        change graph.block? block.id = none at hunused
        rw [hid, hcuts.block] at hunused
        cases hunused
      have hblock : left.block? task = graph.block? task := by
        rw [block?, hsame.blocks, block?]
      rw [payload?, hblock, ← payload?, hpayload] at hgone
      cases hgone
    · exact absurd ⟨split, plan, after, hcuts, hplans.run, connection, hmember, hmisplaced⟩ hplaced

/-- A split that fails leaves the graph as it was, unless it was planned in full and a connection of
the plan had no place: a port had no room for its window, which means, as long as volumes and ends
are words, that the port did not have its axes. Then the blocks that were to give way are gone. -/
theorem split_error_onlyIdsDiffer_iff {graph left : TaskGraph} {task : TaskId}
    {vector : SplitVector} {error : GraphError} (hgraph : graph.Reachable)
    (hsplit : split task vector graph = .error error left)
    (hids : left.ids.next ≤ largestId) :
    (graph.OnlyIdsDiffer left ↔ ¬graph.Misplaces Window.HasRoom task vector) ∧
      (graph.Bounded →
        (graph.OnlyIdsDiffer left ↔ ¬graph.Misplaces Window.HasAxes task vector)) := by
  constructor
  · exact onlyIdsDiffer_iff_of_joins hgraph hsplit hids fun hcuts hplans _ _ hmember =>
      hplans.joins_iff_hasRoom hcuts hmember
  · intro hbounded
    exact onlyIdsDiffer_iff_of_joins hgraph hsplit hids fun hcuts hplans hleft _ hmember =>
      hplans.joins_iff hcuts hbounded hleft hmember

/-- Whatever is wrong with the request, a separable block and its operands stay. -/
theorem split_separable_onlyIdsDiffer {graph left : TaskGraph} {task : TaskId}
    {vector : SplitVector} {error : GraphError} (hgraph : graph.Reachable)
    (hbounded : graph.Bounded) (hseparable : Split.Separable graph task)
    (hsplit : split task vector graph = .error error left) (hids : left.ids.next ≤ largestId) :
    graph.OnlyIdsDiffer left := by
  obtain ⟨-, hwellFormed⟩ := hgraph.wellFormed
  have hlater := ((ends_split_evolves (fun _ => hwellFormed) task vector).of_error hsplit).later
  rcases (ends_split hwellFormed hgraph.grouped task vector).of_error hsplit hids with
    ⟨hsame, -⟩ | ⟨split, hcuts, plan, layout, after, hplans, hleft, hrefused⟩
  · exact onlyIdsDiffer_of_eq hsame hlater
  · obtain ⟨connection, hmember, hrefused⟩ := hrefused
    have hplaced := hplans.places hcuts hbounded hleft hseparable hmember
    exact absurd ((hplans.joins_iff hcuts hbounded hleft hmember).mpr hplaced) hrefused

/-- A computation of four channels that nothing is connected to. -/
def fourChannels : TaskGraph :=
  (empty 0).runAll [.addComputation ⟨.vectorShift 0, .vector 4, .int8, .absent⟩]

/-- Four channels cannot be cut into eight pieces, and nothing changes. -/
theorem split_error_onlyIdsDiffer_iff_eight :
    ∃ left error, split ⟨0⟩ ⟨1, 1, 8, 1⟩ fourChannels = .error error left ∧
      ¬fourChannels.Misplaces Window.HasAxes ⟨0⟩ ⟨1, 1, 8, 1⟩ ∧
        fourChannels.OnlyIdsDiffer left := by
  have hgraph : fourChannels.Reachable :=
    (Reachable.empty (Nat.zero_le _)).runAll (by simp [Command.Admits]) (by decide +kernel)
  have hfails : fails (split ⟨0⟩ ⟨1, 1, 8, 1⟩) fourChannels = true := by decide +kernel
  obtain ⟨error, hsplit⟩ := run_eq_error hfails
  have hids : (after (split ⟨0⟩ ⟨1, 1, 8, 1⟩) fourChannels).ids.next ≤ largestId := by
    decide +kernel
  have hplaced : ¬fourChannels.Misplaces Window.HasAxes ⟨0⟩ ⟨1, 1, 8, 1⟩ := by
    intro hmisplaces
    obtain ⟨split, plan, later, hcuts, -⟩ := hmisplaces
    have hpayload : fourChannels.payload? ⟨0⟩ =
        some (.computation ⟨.vectorShift 0, .vector 4, .int8, .absent⟩) := by decide +kernel
    rw [payload?, hcuts.block, Option.map_some, hcuts.payload] at hpayload
    have hfactors := hcuts.factors
    rw [Payload.computation.inj (Option.some.inj hpayload)] at hfactors
    have hallowed := Computation.of_effectiveFactors hfactors .f (by decide)
    cases hallowed
  exact ⟨_, error, hsplit, hplaced, ((split_error_onlyIdsDiffer_iff hgraph hsplit hids).2
    (by decide +kernel)).mpr hplaced⟩

/-- A computation whose four channels are received along another axis. -/
def renamedOutput : TaskGraph :=
  (empty 0).runAll [
    .addStorage ⟨.input, .vector 4, .int8⟩,
    .addComputation ⟨.vectorShift 0, .vector 4, .int8, .absent⟩,
    .addStorage ⟨.output, { r := 4 }, .int8⟩,
    .connectWhole ⟨0⟩ ⟨1⟩ 0,
    .connect ⟨⟨⟨1⟩, 0, .full (.vector 4)⟩, ⟨⟨2⟩, 0, .full { r := 4 }⟩, []⟩]

/-- Halves of what leaves under another axis are refused when the computation is gone already. -/
theorem split_error_loses_block :
    ∃ left error, renamedOutput.Reachable ∧ renamedOutput.validate = .ok () ∧
      split ⟨1⟩ ⟨1, 1, 2, 1⟩ renamedOutput = .error error left ∧ left.ids.next ≤ largestId ∧
        (∃ block, renamedOutput.block? ⟨1⟩ = some block) ∧ left.block? ⟨1⟩ = none ∧
          ¬renamedOutput.OnlyIdsDiffer left := by
  have hgraph : renamedOutput.Reachable :=
    (Reachable.empty (Nat.zero_le _)).runAll (by simp [Command.Admits]) (by decide +kernel)
  have hfails : fails (split ⟨1⟩ ⟨1, 1, 2, 1⟩) renamedOutput = true := by decide +kernel
  obtain ⟨error, hsplit⟩ := run_eq_error hfails
  have hblock : (renamedOutput.block? ⟨1⟩).isSome = true := by decide +kernel
  obtain ⟨block, hblock⟩ := Option.isSome_iff_exists.mp hblock
  have hgone : (after (split ⟨1⟩ ⟨1, 1, 2, 1⟩) renamedOutput).block? ⟨1⟩ = none := by
    decide +kernel
  refine ⟨_, error, hgraph, by decide +kernel, hsplit, by decide +kernel, ⟨block, hblock⟩, hgone,
    fun hsame => ?_⟩
  rw [block?, hsame.blocks, ← block?, hblock] at hgone
  cases hgone

end TaskGraph

end TiledPlacement

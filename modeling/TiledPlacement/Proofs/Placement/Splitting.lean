import TiledPlacement.Proofs.Placement.Clearing
import TiledPlacement.Proofs.Placement.Merging
import TiledPlacement.Proofs.Split.Run

/-!
Splits under a placement. The computation and its operands leave the placement with the graph, and
so do the routes of the edges that go; nothing else is touched, and what the split creates has
numbers that the placement has not used.
-/

namespace TiledPlacement

open Execution

/-- A plan creates a copy at least. -/
theorem Split.Plans.created_ne_nil {split : Split} {graph : TaskGraph} {plan : SplitPlan}
    {layout : SplitLayout} {after : IdSource} {task : TaskId} {vector : SplitVector}
    (hplans : split.Plans graph plan layout after) (hcuts : split.Cuts graph task vector) :
    plan.created ≠ [] := by
  have hparts : split.parts ≠ [] :=
    SplitPart.all_ne_nil (Computation.divides_of_effectiveFactors hcuts.factors)
  rw [← hplans.planned.parts, ne_eq, List.map_eq_nil_iff] at hparts
  obtain ⟨copy, hcopy⟩ := List.exists_mem_of_ne_nil _ hparts
  have hblock := hplans.block_mem (SplitLayout.copy_mem_roles hcopy)
  exact List.ne_nil_of_mem (hplans.numbered.blocks.mem_iff.mp (List.mem_map_of_mem hblock))

theorem TaskGraph.hasBlock_iff {graph : TaskGraph} {task : TaskId} :
    graph.hasBlock task = true ↔ ∃ payload, graph.payload? task = some payload := by
  rw [hasBlock, Std.ExtTreeMap.contains_eq_isSome_getElem?, Option.isSome_iff_exists]
  constructor
  · rintro ⟨block, hblock⟩
    exact ⟨_, payload?_eq_some_iff.mpr ⟨block, hblock, rfl⟩⟩
  · rintro ⟨payload, hpayload⟩
    obtain ⟨block, hblock, -⟩ := payload?_eq_some_iff.mp hpayload
    exact ⟨block, hblock⟩

namespace TaskGraph.SplitDone

variable {graph left : TaskGraph} {task : TaskId} {vector : SplitVector} {created : List TaskId}
  (hdone : graph.SplitDone task vector created left)
include hdone

theorem group? (hgrouped : graph.Grouped) :
    graph.group? task = some (graph.operands task) := by
  obtain ⟨split, hcuts, -⟩ := hdone
  exact hcuts.group? hgrouped

theorem known {other : TaskId} (hother : other ∈ task :: graph.operands task) :
    ∃ payload, graph.payload? other = some payload := by
  obtain ⟨split, hcuts, -⟩ := hdone
  exact hcuts.known_gone (hcuts.mem_gone_iff.mpr (List.mem_cons.mp hother).symm)

theorem unchanged (hnone : created = []) : left = graph := by
  obtain ⟨split, hcuts, ⟨-, -, hsame⟩ | ⟨plan, layout, after, hplans, hcreated, -⟩⟩ := hdone
  · exact hsame
  · exact absurd (hcreated.symm.trans hnone) (hplans.created_ne_nil hcuts)

theorem removed (hsome : created ≠ []) {other : TaskId}
    (hother : other ∈ task :: graph.operands task) : left.payload? other = none := by
  obtain ⟨payload, hknown⟩ := hdone.known hother
  obtain ⟨split, hcuts, ⟨-, hnone, -⟩ | ⟨plan, layout, after, hplans, -, hcommitted⟩⟩ := hdone
  · exact absurd hnone hsome
  · have hgone : other ∈ split.gone task :=
      hcuts.mem_gone_iff.mpr (List.mem_cons.mp hother).symm
    rw [hcommitted.others other (hplans.ne_of_known hcuts.wellFormed hknown), if_pos hgone]

theorem made {id : TaskId} (hid : id ∈ created) :
    graph.payload? id = none ∧ ∃ payload, left.payload? id = some payload := by
  obtain ⟨split, hcuts, ⟨-, rfl, -⟩ | ⟨plan, layout, after, hplans, rfl, hcommitted⟩⟩ := hdone
  · cases hid
  · obtain ⟨block, hblock, rfl⟩ := List.mem_map.mp (hplans.numbered.blocks.mem_iff.mpr hid)
    exact ⟨hplans.payload?_block hcuts.wellFormed hblock, _, hcommitted.made block hblock⟩

end TaskGraph.SplitDone

namespace Placement

variable {origin left later : Placement} {task : TaskId} {taken : List TaskId}

/-! Tasks that have left the graph leave the placement. -/

theorem ends_evict_staying
    (hstays : left.graph.hasBlock task = true ∨ left.coordinate? task = none) :
    Ends (evict task) left (fun _ later => later = left) (fun _ _ => False) := by
  unfold evict
  rw [ends_bind, ends_get]
  rcases hstays with hknown | hunplaced
  · rw [hknown]
    cases left.coordinate? task <;> exact rfl
  · rw [hunplaced]
    cases left.graph.hasBlock task <;> exact rfl

theorem ends_evict_gone (hleft : left.Agrees) (hgone : left.graph.hasBlock task = false) :
    Ends (evict task) left (fun _ later => Reassigned left task none later) (fun _ _ => False) := by
  unfold evict
  rw [ends_bind, ends_get, hgone]
  cases hplaced : left.coordinate? task with
  | some place => exact ends_remove_placed hleft hplaced
  | none =>
      refine ⟨.refl hleft, rfl, fun other => ?_⟩
      split
      case isTrue hsame => rw [hsame, hplaced]
      case isFalse => rfl

theorem ends_evicts_staying {tasks : List TaskId}
    (hstay : ∀ task ∈ tasks, left.graph.hasBlock task = true ∨ left.coordinate? task = none) :
    Ends (tasks.forM evict) left (fun _ later => later = left) (fun _ _ => False) := by
  induction tasks with
  | nil => exact rfl
  | cons first rest induction =>
      rw [ends_forM_cons]
      refine (ends_evict_staying (hstay first List.mem_cons_self)).mono (fun _ middle hmiddle => ?_)
        (fun _ _ hfalse => hfalse)
      rw [hmiddle]
      exact induction fun task hmember => hstay task (List.mem_cons_of_mem _ hmember)

theorem TakenOut.ends_evicts (hleft : TakenOut origin taken left) (tasks : List TaskId) :
    Ends (tasks.forM evict) left
      (fun _ later => TakenOut origin
        (taken ++ tasks.filter fun task => !origin.graph.hasBlock task) later)
      (fun _ _ => False) := by
  induction tasks generalizing taken left with
  | nil =>
      rw [List.filter_nil, List.append_nil]
      exact hleft
  | cons first rest induction =>
      rw [ends_forM_cons]
      cases hknown : origin.graph.hasBlock first with
      | true =>
          rw [← hleft.reseated.graph] at hknown
          refine (ends_evict_staying (Or.inl hknown)).mono (fun _ middle hmiddle => ?_)
            (fun _ _ hfalse => hfalse)
          rw [hleft.reseated.graph] at hknown
          rw [hmiddle, List.filter_cons_of_neg (by simp [hknown])]
          exact induction hleft
      | false =>
          have hgone := hknown
          rw [← hleft.reseated.graph] at hgone
          refine (ends_evict_gone hleft.reseated.agrees hgone).mono (fun _ middle hmiddle => ?_)
            (fun _ _ hfalse => hfalse)
          rw [List.filter_cons_of_pos (by simp [hknown]), List.append_cons]
          exact induction (hleft.append hmiddle)

/-! Routes of edges that have left the graph are dropped. -/

theorem route?_dropStaleRoutes_iff {placement : Placement}
    (halike : placement.grid.routes = placement.whereabouts.routes) {id : EdgeId}
    {path : List Coordinate} :
    placement.dropStaleRoutes.route? id = some path ↔ placement.route? id = some path ∧
      ∃ edge, placement.graph.edge? id = some edge := by
  unfold dropStaleRoutes
  rw [route?_dropRoutes halike]
  cases placement.graph.edge? id <;> simp

/-- Every route is the route of an edge. -/
def RoutesKnown (placement : Placement) : Prop :=
  ∀ id path, placement.route? id = some path → ∃ edge, placement.graph.edge? id = some edge

theorem dropStaleRoutes_eq_self_iff {placement : Placement}
    (halike : placement.grid.routes = placement.whereabouts.routes) :
    placement.dropStaleRoutes = placement ↔ placement.RoutesKnown := by
  constructor
  · intro hsame id path hroute
    rw [← hsame] at hroute
    exact ((route?_dropStaleRoutes_iff halike).mp hroute).2
  · intro hknown
    have hnone : (placement.grid.routes.keys.filter fun id =>
        (placement.graph.edge? id).isNone) = [] := by
      refine List.filter_eq_nil_iff.mpr fun id hid => ?_
      rw [Std.ExtTreeMap.mem_keys, halike] at hid
      obtain ⟨edge, hedge⟩ := hknown id _ (Std.ExtTreeMap.getElem?_eq_some_getElem hid)
      rw [hedge]
      exact Bool.false_ne_true
    rw [dropStaleRoutes, dropRoutes, hnone, List.foldl_nil]

/-! Splits. -/

/-- A number that names a placed task or a routed edge. -/
def Uses (placement : Placement) (raw : Nat) : Prop :=
  (∃ place, placement.coordinate? ⟨raw⟩ = some place) ∨ ∃ path, placement.route? ⟨raw⟩ = some path

/-- What a split that creates blocks is to leave of the placement. -/
structure Replaces (origin : Placement) (task : TaskId) (created : List TaskId)
    (left : Placement) : Prop where
  removed : ∀ other ∈ task :: origin.graph.operands task,
    left.graph.block? other = none ∧ left.coordinate? other = none
  made : ∀ id ∈ created, (∃ block, left.graph.block? id = some block) ∧
    origin.graph.block? id = none ∧ left.coordinate? id = none
  stays : ∀ other, other ∉ task :: origin.graph.operands task →
    left.coordinate? other = origin.coordinate? other
  route : ∀ {id path}, left.route? id = some path ↔
    origin.route? id = some path ∧ ∃ edge, left.graph.edge? id = some edge
  newBlock : ∀ {id block}, left.graph.block? id = some block →
    origin.graph.block? id = none → ¬origin.Uses id.raw
  newEdge : ∀ {id edge}, left.graph.edge? id = some edge →
    origin.graph.edge? id = none → ¬origin.Uses id.raw
  alike : left.grid.routes = left.whereabouts.routes
  mirrors : left.Mirrors

theorem Uses.covers {raw : Nat} (huses : origin.Uses raw) (hagrees : origin.Agrees)
    (hcovered : origin.RoutesCovered) (hids : origin.graph.ids.next ≤ largestId) :
    origin.graph.ids.Covers raw := by
  rcases huses with ⟨place, hplaced⟩ | ⟨path, hroute⟩
  · exact hagrees.covered hids hplaced
  · exact hcovered hids _ path hroute

/-- The graph is split first; then the placement follows. -/
theorem ends_splitTask (hagrees : origin.Agrees) (task : TaskId) (vector : SplitVector) :
    Ends (splitTask task vector) origin
      (fun created left => ∃ graph later,
        TaskGraph.split task vector origin.graph = .ok created graph ∧
          TakenOut { origin with graph } ((task :: (origin.graph.group? task).getD []).filter
            fun task => !graph.hasBlock task) later ∧
          ((∀ other ∈ task :: (origin.graph.group? task).getD [], graph.hasBlock other = true) →
            later = { origin with graph }) ∧
          left = later.dropStaleRoutes)
      (fun _ _ => True) := by
  unfold splitTask
  rw [ends_bind, ends_get]
  dsimp only
  rw [ends_bind, ends_changeGraph, ends_iff]
  refine ⟨fun created graph hsplit => ?_, fun _ _ _ => trivial⟩
  have hevolves := (TaskGraph.ends_split_evolves hagrees.wellFormed task vector).of_ok hsplit
  have hchanged : Agrees { origin with graph } := hagrees.withGraph hevolves
    ((TaskGraph.Grouped.keeps_split task vector _ hagrees.grouped).of_ok hsplit)
    ((TaskGraph.Keyed.keeps_split task vector _ hagrees.keyed).of_ok hsplit)
  have htaken := (TakenOut.refl hchanged).ends_evicts
    (task :: (origin.graph.group? task).getD [])
  have hsame : Ends ((task :: (origin.graph.group? task).getD []).forM evict)
      { origin with graph }
      (fun _ later => (∀ other ∈ task :: (origin.graph.group? task).getD [],
        graph.hasBlock other = true) → later = { origin with graph })
      (fun _ _ => False) := by
    by_cases hknown : ∀ other ∈ task :: (origin.graph.group? task).getD [],
        graph.hasBlock other = true
    · exact (ends_evicts_staying fun other hother => Or.inl (hknown other hother)).mono
        (fun _ _ hlater _ => hlater) (fun _ _ hfalse => hfalse)
    · exact htaken.mono (fun _ _ _ hall => absurd hall hknown) (fun _ _ hfalse => hfalse)
  rw [ends_bind]
  refine (htaken.and hsame).mono (fun _ later hlater => ?_) (fun _ _ hfalse => hfalse.1.elim)
  rw [List.nil_append] at hlater
  exact ⟨graph, later, hsplit, hlater.1, hlater.2, rfl⟩

/-- Where nothing is placed, only the graph changes. -/
theorem splitTask_onHardware {graph left : TaskGraph} (hleft : left.Reachable)
    {vector : SplitVector} {created : List TaskId}
    (hsplit : TaskGraph.split task vector graph = .ok created left) (hardware : Hardware) :
    splitTask task vector (.onHardware graph hardware) =
      .ok created (.onHardware left hardware) := by
  have hinitial : (onHardware left hardware).Initial := .onHardware hleft hardware
  have hsame : (onHardware left hardware).dropStaleRoutes = onHardware left hardware :=
    (dropStaleRoutes_eq_self_iff hinitial.agrees.routes).mpr fun id path hroute =>
      absurd hroute (hinitial.not_routed id path)
  refine Ends.eq_ok ?_
  unfold splitTask
  rw [ends_bind, ends_get]
  dsimp only
  rw [ends_bind, ends_changeGraph]
  refine (ends_of_ok_iff hsplit).mpr ?_
  rw [ends_bind]
  refine (ends_evicts_staying fun _ _ => Or.inr rfl).mono (fun _ later hlater => ?_)
    (fun _ _ hfalse => hfalse)
  rw [hlater]
  exact ⟨rfl, hsame⟩

theorem replaces_of_taken (hagrees : origin.Agrees) (hcovered : origin.RoutesCovered)
    {task : TaskId} {vector : SplitVector} {created : List TaskId} {graph : TaskGraph}
    (hdone : origin.graph.SplitDone task vector created graph) (hsome : created ≠ [])
    (hevolves : TaskGraph.Evolves origin.graph origin.graph.ids.next graph)
    (hids : graph.ids.next ≤ largestId)
    (htaken : TakenOut { origin with graph }
      ((task :: origin.graph.operands task).filter fun task => !graph.hasBlock task) later) :
    Replaces origin task created later.dropStaleRoutes := by
  have hbefore := Nat.le_trans hevolves.later hids
  have hlater := htaken.reseated.agrees
  have hgraph : later.dropStaleRoutes.graph = graph :=
    (graph_dropRoutes later _).trans htaken.reseated.graph
  have hcoordinate : ∀ other, later.dropStaleRoutes.coordinate? other =
      if other ∈ (task :: origin.graph.operands task).filter fun task => !graph.hasBlock task
      then none else origin.coordinate? other := fun other =>
    (coordinate?_dropRoutes later _ other).trans (htaken.coordinate other)
  have hfresh : ∀ {id block}, graph.block? id = some block → origin.graph.block? id = none →
      ¬origin.Uses id.raw := by
    intro id block hblock hnew huses
    have hpayload := hevolves.payload hids (huses.covers hagrees hcovered hbefore)
      (TaskGraph.payload?_eq_some_iff.mpr ⟨block, hblock, rfl⟩)
    rw [TaskGraph.payload?, hnew] at hpayload
    cases hpayload
  constructor
  case removed =>
    intro other hother
    have hnone := hdone.removed hsome hother
    have hgone : graph.hasBlock other = false := by
      rw [← Bool.not_eq_true, TaskGraph.hasBlock_iff, hnone]
      simp
    rw [hgraph, hcoordinate, if_pos (List.mem_filter.mpr ⟨hother, by rw [hgone]; rfl⟩)]
    exact ⟨Option.map_eq_none_iff.mp hnone, rfl⟩
  case made =>
    intro id hid
    obtain ⟨hnew, payload, hpayload⟩ := hdone.made hid
    obtain ⟨block, hblock, -⟩ := TaskGraph.payload?_eq_some_iff.mp hpayload
    have hnew := Option.map_eq_none_iff.mp hnew
    rw [hgraph, hcoordinate]
    refine ⟨⟨block, hblock⟩, hnew, ?_⟩
    split
    case isTrue => rfl
    case isFalse =>
      -- A placed number is covered by the source of numbers, which gives out none twice.
      refine Option.eq_none_iff_forall_ne_some.mpr fun place hplaced => ?_
      exact hfresh hblock hnew (Or.inl ⟨place, hplaced⟩)
  case stays =>
    intro other hother
    rw [hcoordinate, if_neg fun hmember => hother (List.mem_filter.mp hmember).1]
  case route =>
    intro id path
    rw [route?_dropStaleRoutes_iff hlater.routes, hgraph, htaken.reseated.graph, route?,
      htaken.routes]
    exact Iff.rfl
  case newBlock =>
    rw [hgraph]
    exact hfresh
  case newEdge =>
    rw [hgraph]
    intro id edge hedge hnew huses
    have hold := hevolves.edge hids (huses.covers hagrees hcovered hbefore) hedge
    rw [hnew] at hold
    cases hold
  case alike => exact (hlater.dropRoutes _).routes
  case mirrors => exact (hlater.dropRoutes _).mirrors

/-- A split that returns has either created blocks in the place of the computation and its operands,
or changed nothing; then it still drops routes of edges that were not in the graph before. -/
theorem Reachable.splitTask_replaces {origin left : Placement} (hreachable : origin.Reachable)
    {task : TaskId} {vector : SplitVector} {created : List TaskId}
    (hsplit : splitTask task vector origin = .ok created left)
    (hids : left.graph.ids.next ≤ largestId) :
    (created = [] → left = origin.dropStaleRoutes ∧ (left = origin ↔ origin.RoutesKnown)) ∧
      (created ≠ [] → Replaces origin task created left) := by
  have hagrees := hreachable.agrees
  obtain ⟨graph, later, hrun, htaken, hsame, rfl⟩ :=
    (ends_splitTask hagrees task vector).of_ok hsplit
  have hgraph : later.dropStaleRoutes.graph = graph :=
    (graph_dropRoutes later _).trans htaken.reseated.graph
  rw [hgraph] at hids
  have hevolves := (TaskGraph.ends_split_evolves hagrees.wellFormed task vector).of_ok hrun
  have hbefore := Nat.le_trans hevolves.later hids
  have hdone := (TaskGraph.ends_split (hagrees.wellFormed hbefore) hagrees.grouped task
    vector).of_ok hrun hids
  rw [hdone.group? hagrees.grouped, Option.getD_some] at htaken hsame
  refine ⟨fun hnone => ?_, fun hsome =>
    replaces_of_taken hagrees hreachable.routesCovered hdone hsome hevolves hids htaken⟩
  obtain rfl := hdone.unchanged hnone
  -- The graph is as before and knows all of them, so nothing leaves the placement.
  obtain rfl := hsame fun other hother => TaskGraph.hasBlock_iff.mpr (hdone.known hother)
  exact ⟨rfl, dropStaleRoutes_eq_self_iff hagrees.routes⟩

/-- A computation between an input and an output, placed and routed to the input. -/
def placedShift : Placement :=
  (onHardware ((TaskGraph.empty 0).runAll [
    .addStorage ⟨.input, .vector 4, .int8⟩,
    .addComputation ⟨.vectorShift 0, .vector 4, .int8, .absent⟩,
    .addStorage ⟨.output, .vector 4, .int8⟩,
    .connectWhole ⟨0⟩ ⟨1⟩ 0,
    .connectWhole ⟨1⟩ ⟨2⟩ 0]) (.singleChip 1 3)).runAll [
      .putIn (bank 0) ⟨0⟩, .putIn (.atTime ⟨[⟨[0, 0]⟩, ⟨[0, 1]⟩]⟩ 0 1 .soma1) ⟨1⟩,
      .putIn (bank 2) ⟨2⟩, .routeEdge ⟨3⟩]

theorem splitTask_replaces_placedShift :
    ∃ created left, splitTask ⟨1⟩ ⟨1, 1, 2, 1⟩ placedShift = .ok created left ∧ created ≠ [] ∧
      (placedShift.route? ⟨3⟩).isSome = true ∧ left.route? ⟨3⟩ = none ∧
        left.coordinate? ⟨0⟩ = none ∧ left.coordinate? ⟨1⟩ = none ∧
          left.coordinate? ⟨2⟩ = some (bank 2) := by
  have hreachable : placedShift.Reachable :=
    ⟨_, _, .onHardware (TaskGraph.Reachable.runAll (.empty (Nat.zero_le _))
      (by simp [TaskGraph.Command.Admits]) (by decide +kernel)) _, rfl⟩
  have hreturns : returned? (splitTask ⟨1⟩ ⟨1, 1, 2, 1⟩) placedShift =
      some [⟨5⟩, ⟨6⟩, ⟨7⟩, ⟨8⟩] := by decide +kernel
  have hrun := run_eq_ok_of_returned hreturns
  have hreplaces := (hreachable.splitTask_replaces hrun (by decide +kernel)).2 (by decide)
  have hgone : ((after (splitTask ⟨1⟩ ⟨1, 1, 2, 1⟩) placedShift).graph.edge? ⟨3⟩).isSome =
      false := by decide +kernel
  refine ⟨_, _, hrun, by decide, by decide +kernel, ?_, (hreplaces.removed ⟨0⟩ ?_).2,
    (hreplaces.removed ⟨1⟩ ?_).2, (hreplaces.stays ⟨2⟩ ?_).trans ?_⟩
  · refine Option.eq_none_iff_forall_ne_some.mpr fun path hpath => ?_
    obtain ⟨-, edge, hedge⟩ := hreplaces.route.mp hpath
    rw [hedge] at hgone
    cases hgone
  all_goals decide +kernel

/-- Nothing is split, and the route of an edge that an earlier split has removed is dropped. -/
theorem splitTask_drops_route :
    ∃ left, halfReplaced.Reachable ∧ splitTask ⟨5⟩ .one halfReplaced = .ok [] left ∧
      left.graph.ids.next ≤ largestId ∧ (halfReplaced.route? ⟨3⟩).isSome = true ∧
        left.route? ⟨3⟩ = none := by
  have hreturns : returned? (splitTask ⟨5⟩ .one) halfReplaced = some [] := by decide +kernel
  exact ⟨_, reachable_halfReplaced, run_eq_ok_of_returned hreturns, by decide +kernel,
    by decide +kernel, by decide +kernel⟩

end Placement

end TiledPlacement

import TiledPlacement.Proofs.Graph.Neighbours
import TiledPlacement.Proofs.Graph.Reachable

/-!
The record of groups. A command that has changed the structure of a graph renews the record before
it ends, a split that fails halfway included, so that the groups are those that the edges make.
-/

namespace TiledPlacement

open Execution

namespace TaskGraph

/-- What is recorded is what regrouping would record. -/
def Grouped (graph : TaskGraph) : Prop := graph.recorded = graph.regrouped.recorded

/-! What regrouping records. -/

section Regrouped

variable {graph : TaskGraph}

private theorem getElem?_enter (graph : TaskGraph) (groups : TaskMap TaskSet)
    (task owner : TaskId) :
    (graph.enter groups task)[owner]? = groups[owner]?.map fun members =>
      if (graph.consumers task).toList = [owner] then members.insert task else members := by
  unfold enter
  split
  case h_1 only honly =>
    rw [Std.ExtTreeMap.getElem?_modify, honly]
    by_cases hsame : only = owner
    · subst hsame
      simp only [Std.ReflCmp.compare_self, if_true]
    · have hother : ¬[only] = [owner] := fun hequal => hsame (List.head_eq_of_cons_eq hequal)
      simp only [Std.LawfulEqCmp.compare_eq_iff_eq, hsame, hother, if_false, Option.map_id']
  case h_2 hnot =>
    have hother : ¬(graph.consumers task).toList = [owner] := hnot owner
    simp only [hother, if_false, Option.map_id']

private theorem isSome_foldl_enter (groups : TaskMap TaskSet) (tasks : List TaskId)
    (owner : TaskId) :
    ((tasks.foldl graph.enter groups)[owner]?).isSome = (groups[owner]?).isSome := by
  induction tasks generalizing groups with
  | nil => rfl
  | cons first rest induction => rw [List.foldl_cons, induction, getElem?_enter, Option.isSome_map]

private theorem mem_foldl_enter_iff {groups : TaskMap TaskSet} {tasks : List TaskId}
    {owner : TaskId} {before members : TaskSet} (hbefore : groups[owner]? = some before)
    (hmembers : (tasks.foldl graph.enter groups)[owner]? = some members) (task : TaskId) :
    task ∈ members ↔
      task ∈ before ∨ task ∈ tasks ∧ (graph.consumers task).toList = [owner] := by
  induction tasks generalizing groups before with
  | nil =>
      obtain rfl := Option.some.inj (hbefore.symm.trans hmembers)
      simp
  | cons first rest induction =>
      have hentered := getElem?_enter graph groups first owner
      rw [hbefore, Option.map_some] at hentered
      rw [induction hentered hmembers]
      by_cases hfirst : (graph.consumers first).toList = [owner]
      · rw [if_pos hfirst, Std.ExtTreeSet.mem_insert, Std.LawfulEqCmp.compare_eq_iff_eq,
          List.mem_cons]
        constructor
        · rintro ((rfl | hbefore) | hrest)
          · exact Or.inr ⟨Or.inl rfl, hfirst⟩
          · exact Or.inl hbefore
          · exact Or.inr ⟨Or.inr hrest.1, hrest.2⟩
        · rintro (hbefore | ⟨rfl | hrest, honly⟩)
          · exact Or.inl (Or.inr hbefore)
          · exact Or.inl (Or.inl rfl)
          · exact Or.inr ⟨hrest, honly⟩
      · rw [if_neg hfirst, List.mem_cons]
        refine or_congr_right (and_congr_left fun honly => ?_)
        refine ⟨Or.inr, fun hmember => hmember.resolve_left fun hsame => ?_⟩
        exact hfirst (hsame ▸ honly)

private theorem mem_computations_iff {task : TaskId} :
    task ∈ graph.taskIds.filter graph.isComputation ↔ graph.isComputation task = true := by
  rw [List.mem_filter]
  refine ⟨fun hboth => hboth.2, fun hcomputation => ⟨mem_taskIds_iff.mpr ?_, hcomputation⟩⟩
  rw [isComputation, Option.any_eq_true] at hcomputation
  obtain ⟨block, hblock, -⟩ := hcomputation
  exact ⟨block, hblock⟩

private theorem getElem?_bare (owner : TaskId) :
    (Std.ExtTreeMap.ofList ((graph.taskIds.filter graph.isComputation).map fun task =>
      (task, (∅ : TaskSet))) compare)[owner]? =
        if graph.isComputation owner = true then some ∅ else none := by
  simp only [getElem?_ofList_map ((nodup_taskIds graph).filter _), mem_computations_iff]

theorem isSome_recorded_regrouped (owner : TaskId) :
    (graph.regrouped.recorded[owner]?).isSome = graph.isComputation owner := by
  unfold regrouped
  dsimp only
  rw [isSome_foldl_enter, getElem?_bare]
  cases graph.isComputation owner <;> rfl

theorem mem_recorded_regrouped_iff {owner : TaskId} {members : TaskSet}
    (hmembers : graph.regrouped.recorded[owner]? = some members) (task : TaskId) :
    task ∈ members ↔ graph.feedsOnly task owner = true := by
  have hcomputation : graph.isComputation owner = true := by
    rw [← isSome_recorded_regrouped, hmembers, Option.isSome_some]
  unfold regrouped at hmembers
  dsimp only at hmembers
  have hbare := @getElem?_bare graph owner
  rw [if_pos hcomputation] at hbare
  rw [mem_foldl_enter_iff hbare hmembers, List.mem_filter, feedsOnly, Bool.and_eq_true,
    decide_eq_true_eq, mem_taskIds_iff]
  constructor
  · rintro (hnone | ⟨⟨-, hstorage⟩, honly⟩)
    · exact absurd hnone Std.ExtTreeSet.not_mem_empty
    · exact ⟨hstorage, honly⟩
  · rintro ⟨hstorage, honly⟩
    refine Or.inr ⟨⟨?_, hstorage⟩, honly⟩
    rw [isStorage, Option.any_eq_true] at hstorage
    obtain ⟨block, hblock, -⟩ := hstorage
    exact ⟨block, hblock⟩

end Regrouped

theorem WellFormed.feedsOnly_iff {graph : TaskGraph} (hgraph : graph.WellFormed)
    {task operand : TaskId} :
    graph.feedsOnly operand task = true ↔ operand ∈ graph.operands task := by
  rw [operands, List.mem_filter]
  refine ⟨fun hfeeds => ⟨?_, hfeeds⟩, fun hboth => hboth.2⟩
  have honly := of_decide_eq_true (Bool.and_eq_true_iff.mp hfeeds).2
  have hconsumer : task ∈ (graph.consumers operand).toList := by
    rw [honly]
    exact List.mem_singleton_self task
  exact hgraph.mem_producers_iff.mpr (hgraph.mem_consumers_iff.mp hconsumer)

namespace Grouped

variable {graph : TaskGraph}

/-- The recorded group of a computation consists of its operands. -/
theorem group?_eq (hgrouped : graph.Grouped) (hgraph : graph.WellFormed) (task : TaskId) :
    graph.group? task =
      if graph.isComputation task = true then some (graph.operands task) else none := by
  have hsome := @isSome_recorded_regrouped graph task
  rw [← hgrouped] at hsome
  unfold group?
  cases hmembers : graph.recorded[task]? with
  | none =>
      rw [hmembers, Option.isSome_none] at hsome
      rw [← hsome, if_neg Bool.false_ne_true, Option.map_none]
  | some members =>
      rw [hmembers, Option.isSome_some] at hsome
      rw [← hsome, if_pos rfl, Option.map_some, operands, ← Std.ExtTreeSet.toList_filter]
      refine congrArg some (congrArg _ (Std.ExtTreeSet.ext_mem fun other => ?_))
      rw [hgrouped] at hmembers
      rw [mem_recorded_regrouped_iff hmembers, hgraph.feedsOnly_iff, operands,
        ← Std.ExtTreeSet.toList_filter, Std.ExtTreeSet.mem_toList]

theorem getD_group?_eq (hgrouped : graph.Grouped) (hgraph : graph.WellFormed) {task : TaskId}
    (hcomputation : graph.isComputation task = true) :
    (graph.group? task).getD [] = graph.operands task := by
  rw [hgrouped.group?_eq hgraph, if_pos hcomputation, Option.getD_some]

/-! Commands renew the record. -/

theorem of_regrouped (graph : TaskGraph) : graph.regrouped.Grouped := rfl

theorem withIds (hgrouped : graph.Grouped) (ids : IdSource) : Grouped { graph with ids } :=
  hgrouped

theorem empty (first : Nat) : (TaskGraph.empty first).Grouped := by
  have hnone : (TaskGraph.empty first).taskIds = [] := Std.ExtTreeMap.keys_eq_nil_iff.mpr rfl
  rw [Grouped, regrouped, hnone]
  rfl

theorem ends_andRegroup {action : GraphAction α}
    (haction : Ends action graph (fun _ _ => True) (fun _ left => left = graph))
    (hgrouped : graph.Grouped) :
    Ends (do
      let value ← action
      regroup
      return value) graph (fun _ => Grouped) (fun _ => Grouped) := by
  rw [ends_bind]
  refine haction.mono (fun _ left _ => of_regrouped left) fun _ left hleft => ?_
  rw [hleft]
  exact hgrouped

theorem keeps_connect (connection : Connection) : Keeps Grouped (connect connection) := by
  intro graph hgrouped
  refine ends_andRegroup ((ends_connectDeferred graph connection).mono ?_ ?_) hgrouped
  · exact fun _ _ _ => trivial
  · exact fun _ _ hleft => hleft.2

theorem keeps_insertBlock (block : Block) : Keeps Grouped (insertBlock block) := by
  intro graph hgrouped
  unfold insertBlock
  rw [ends_bind]
  refine (ends_insertBlockDeferred graph block).mono ?_ fun _ left hleft => ?_
  · exact fun _ left _ => of_regrouped left
  · rw [hleft.2]
    exact hgrouped

private theorem keeps_addBlock (made : TaskId → Except GraphError Block) :
    Keeps Grouped (do
      let task ← takeTaskId
      insertBlock (← GraphAction.ofExcept (made task))
      return task) := by
  intro graph hgrouped
  rw [ends_bind]
  unfold takeTaskId
  rw [ends_modifyGet, ends_bind, ends_ofExcept]
  refine ⟨fun block _ => ?_, fun _ _ => hgrouped.withIds _⟩
  exact (keeps_insertBlock block).bind (fun _ => Keeps.pure _) _ (hgrouped.withIds _)

theorem keeps_connectWhole (src dst : TaskId) (port : Nat) :
    Keeps Grouped (connectWhole src dst port) := by
  intro graph hgrouped
  unfold connectWhole
  rw [ends_bind, ends_get, ends_bind, ends_ofExcept]
  refine ⟨fun sent _ => ?_, fun _ _ => hgrouped⟩
  rw [ends_bind, ends_ofExcept]
  exact ⟨fun received _ => keeps_connect _ graph hgrouped, fun _ _ => hgrouped⟩

theorem keeps_removeEdge (id : EdgeId) : Keeps Grouped (removeEdge id) := by
  intro graph hgrouped
  unfold removeEdge
  rw [ends_bind, ends_get, ends_bind, ends_ofExcept]
  exact ⟨fun edge _ => of_regrouped (graph.withoutEdge id), fun _ _ => hgrouped⟩

/-- A split regroups whether or not its plan could be carried out. -/
theorem keeps_split (task : TaskId) (vector : SplitVector) :
    Keeps Grouped (split task vector) := by
  intro graph hgrouped
  unfold split
  rw [ends_bind, ends_get, ends_bind, ends_ofExcept]
  refine ⟨fun block _ => ?_, fun _ _ => hgrouped⟩
  cases block.computation? with
  | none => exact hgrouped
  | some computation =>
      dsimp only
      rw [ends_bind, ends_ofExcept]
      refine ⟨fun factors _ => ?_, fun _ _ => hgrouped⟩
      by_cases hidentity : factors.isIdentity = true
      · rw [if_pos hidentity]
        exact hgrouped
      · rw [if_neg hidentity, ends_bind, ends_runPlanner, ends_iff]
        refine ⟨fun plan ids _ => ?_, fun _ ids _ => hgrouped.withIds ids⟩
        rw [ends_bind, ends_regroupAfter, ends_iff]
        exact ⟨fun _ left _ => of_regrouped left, fun _ left _ => of_regrouped left⟩

/-- Every command ends with a record that is up to date, provided that it starts with one. -/
theorem ends_run (hgrouped : graph.Grouped) (hgraph : graph.WellFormed) (command : Command) :
    Ends command.run graph (fun _ => Grouped) (fun _ => Grouped) := by
  cases command with
  | addStorage storage =>
      exact (keeps_addBlock fun task => Block.ofStorage task storage).discard graph hgrouped
  | addComputation computation =>
      exact (keeps_addBlock fun task => Block.ofComputation task computation).discard graph hgrouped
  | insertBlock block => exact keeps_insertBlock block graph hgrouped
  | removeBlock task =>
      refine ends_discard.mpr (ends_andRegroup ?_ hgrouped)
      exact (ends_removeBlockDeferred hgraph task).mono (fun _ _ _ => trivial)
        (fun _ _ hleft => hleft.2.2)
  | connect connection => exact (keeps_connect connection).discard graph hgrouped
  | connectWhole src dst port => exact (keeps_connectWhole src dst port).discard graph hgrouped
  | removeEdge id => exact (keeps_removeEdge id).discard graph hgrouped
  | reseed => exact hgrouped
  | regroup => exact of_regrouped graph
  | split task vector => exact (keeps_split task vector).discard graph hgrouped

end Grouped

theorem Reachable.grouped {graph : TaskGraph} (hreachable : Reachable graph) : graph.Grouped := by
  induction hreachable with
  | empty hfirst => exact Grouped.empty _
  | step command hgraph _ _ induction =>
      exact (induction.ends_run (Reachable.wellFormed hgraph).2 command).after

/-! What the record says. -/

/-- The storage block sends data, and all of it to the computation `owner`. -/
structure Serves (graph : TaskGraph) (operand owner : TaskId) : Prop where
  stored : ∃ storage, graph.payload? operand = some (.storage storage)
  computes : ∃ computation, graph.payload? owner = some (.computation computation)
  sends : ∃ id edge, graph.edge? id = some edge ∧ edge.src.task = operand
  only : ∀ {id edge}, graph.edge? id = some edge → edge.src.task = operand →
    edge.dst.task = owner

theorem Serves.exists_edge {graph : TaskGraph} {operand owner : TaskId}
    (hserves : graph.Serves operand owner) (hgraph : graph.WellFormed) :
    ∃ edge, graph.edge? edge.id = some edge ∧ edge.src.task = operand ∧
      edge.dst.task = owner := by
  obtain ⟨id, edge, hedge, hsrc⟩ := hserves.sends
  obtain rfl := hgraph.edge_id hedge
  exact ⟨edge, hedge, hsrc, hserves.only hedge hsrc⟩

theorem Serves.unique {graph : TaskGraph} {operand owner other : TaskId}
    (howner : graph.Serves operand owner) (hother : graph.Serves operand other) :
    owner = other := by
  obtain ⟨id, edge, hedge, hsrc⟩ := howner.sends
  exact (howner.only hedge hsrc).symm.trans (hother.only hedge hsrc)

theorem WellFormed.serves_iff {graph : TaskGraph} (hgraph : graph.WellFormed)
    {operand owner : TaskId} :
    graph.Serves operand owner ↔
      graph.isComputation owner = true ∧ operand ∈ graph.operands owner := by
  rw [isComputation_iff, hgraph.mem_operands_iff]
  constructor
  · intro hserves
    obtain ⟨id, edge, hedge, hsrc⟩ := hserves.sends
    refine ⟨hserves.computes, hserves.stored, ⟨edge, ?_, hsrc, hserves.only hedge hsrc⟩,
      fun edge hedge => hserves.only hedge⟩
    rw [hgraph.edge_id hedge]
    exact hedge
  · rintro ⟨hcomputes, hstored, ⟨edge, hedge, hsrc, -⟩, honly⟩
    refine ⟨hstored, hcomputes, ⟨edge.id, edge, hedge, hsrc⟩, fun {id other} hother => ?_⟩
    obtain rfl := hgraph.edge_id hother
    exact honly other hother

theorem mem_groups_iff {graph : TaskGraph} {owner : TaskId} {group : List TaskId} :
    (owner, group) ∈ graph.groups ↔ graph.group? owner = some group := by
  rw [groups, List.mem_map, group?, Option.map_eq_some_iff]
  constructor
  · rintro ⟨⟨key, members⟩, hentry, hequal⟩
    obtain ⟨rfl, rfl⟩ := Prod.mk.inj hequal
    exact ⟨members, Std.ExtTreeMap.mem_toList_iff_getElem?_eq_some.mp hentry, rfl⟩
  · rintro ⟨members, hmembers, rfl⟩
    exact ⟨(owner, members), Std.ExtTreeMap.mem_toList_iff_getElem?_eq_some.mpr hmembers, rfl⟩

private theorem map_fst_groups (graph : TaskGraph) :
    graph.groups.map Prod.fst = graph.recorded.keys := by
  rw [groups, List.map_map]
  exact Std.ExtTreeMap.map_fst_toList_eq_keys

theorem nodup_owners (graph : TaskGraph) : (graph.groups.map Prod.fst).Nodup := by
  rw [map_fst_groups]
  exact Std.ExtTreeMap.nodup_keys

namespace Grouped

variable {graph : TaskGraph}

theorem mem_group_iff (hgrouped : graph.Grouped) (hgraph : graph.WellFormed)
    {owner operand : TaskId} {group : List TaskId} (hgroup : graph.group? owner = some group) :
    operand ∈ group ↔ graph.Serves operand owner := by
  rw [hgrouped.group?_eq hgraph, Option.ite_none_right_eq_some] at hgroup
  obtain ⟨hcomputation, hgroup⟩ := hgroup
  rw [hgraph.serves_iff, ← Option.some.inj hgroup]
  exact (and_iff_right hcomputation).symm

theorem mem_owners_iff (hgrouped : graph.Grouped) {task : TaskId} :
    task ∈ graph.groups.map Prod.fst ↔ graph.isComputation task = true := by
  rw [← isSome_recorded_regrouped, ← hgrouped, map_fst_groups, Std.ExtTreeMap.mem_keys,
    Std.ExtTreeMap.isSome_getElem?_iff_mem]

theorem owner?_eq_some_iff (hgrouped : graph.Grouped) (hgraph : graph.WellFormed)
    {operand owner : TaskId} :
    graph.owner? operand = some owner ↔ graph.Serves operand owner := by
  rw [owner?, Option.map_eq_some_iff]
  constructor
  · rintro ⟨⟨key, group⟩, hfound, rfl⟩
    have hmember := List.find?_some hfound
    exact (hgrouped.mem_group_iff hgraph
      (mem_groups_iff.mp (List.mem_of_find?_eq_some hfound))).mp (of_decide_eq_true hmember)
  · intro hserves
    have hcomputation := (hgraph.serves_iff.mp hserves).1
    have hgroup := hgrouped.group?_eq hgraph owner
    rw [if_pos hcomputation] at hgroup
    cases hfound : graph.groups.find? fun entry => decide (operand ∈ entry.2) with
    | none =>
        have hnone := List.find?_eq_none.mp hfound _ (mem_groups_iff.mpr hgroup)
        exact absurd (decide_eq_true ((hgrouped.mem_group_iff hgraph hgroup).mpr hserves)) hnone
    | some entry =>
        have hmember := List.find?_some hfound
        have hentry := (hgrouped.mem_group_iff hgraph
          (mem_groups_iff.mp (List.mem_of_find?_eq_some hfound))).mp (of_decide_eq_true hmember)
        exact ⟨entry, rfl, hentry.unique hserves⟩

end Grouped

/-- After any history that leaves ids over, failed commands included, there is one group for each
computation, and in it the storage blocks that serve the computation; the owner of a storage block
is found by it. -/
theorem Reachable.groups_agree {graph : TaskGraph}
    (hreachable : graph.ReachableWithin largestId) :
    (graph.groups.map Prod.fst).Nodup ∧
      (∀ task, task ∈ graph.groups.map Prod.fst ↔
        ∃ computation, graph.payload? task = some (.computation computation)) ∧
      (∀ owner group, (owner, group) ∈ graph.groups ↔ graph.group? owner = some group) ∧
      (∀ owner group, (owner, group) ∈ graph.groups →
        ∀ operand, operand ∈ group ↔ graph.Serves operand owner) ∧
      (∀ operand, ∀ entry ∈ graph.groups, ∀ other ∈ graph.groups,
        operand ∈ entry.2 → operand ∈ other.2 → entry = other) ∧
      ∀ operand owner, graph.owner? operand = some owner ↔ graph.Serves operand owner := by
  have hgraph := (Reachable.wellFormed hreachable).2
  have hgrouped := Reachable.grouped hreachable
  have hmember : ∀ owner group, (owner, group) ∈ graph.groups →
      ∀ operand, operand ∈ group ↔ graph.Serves operand owner := fun owner group hgroup operand =>
    hgrouped.mem_group_iff hgraph (mem_groups_iff.mp hgroup)
  refine ⟨graph.nodup_owners, fun task => hgrouped.mem_owners_iff.trans isComputation_iff,
    fun _ _ => mem_groups_iff, hmember, ?_, fun _ _ => hgrouped.owner?_eq_some_iff hgraph⟩
  rintro operand ⟨owner, group⟩ hentry ⟨other, members⟩ hother hmine htheirs
  have hserves := (hmember owner group hentry operand).mp hmine
  obtain rfl := hserves.unique ((hmember other members hother operand).mp htheirs)
  rw [mem_groups_iff] at hentry hother
  rw [Option.some.inj (hentry.symm.trans hother)]

/-- A split has stopped halfway, at an edge that renames an axis: storage block 6 feeds copy 5, and
block 8, made for copy 7, feeds nothing yet. -/
def halfSplit : TaskGraph :=
  (empty 0).runAll [
    .addStorage ⟨.input, .vector 4, .int8⟩,
    .addComputation ⟨.vectorShift 0, .vector 4, .int8, .absent⟩,
    .addStorage ⟨.output, { r := 4 }, .int8⟩,
    .connectWhole ⟨0⟩ ⟨1⟩ 0,
    .connect ⟨⟨⟨1⟩, 0, .full (.vector 4)⟩, ⟨⟨2⟩, 0, .full { r := 4 }⟩, []⟩,
    .split ⟨1⟩ ⟨1, 1, 2, 1⟩]

theorem groups_agree_halfSplit :
    halfSplit.Reachable ∧ halfSplit.taskIds = [⟨2⟩, ⟨5⟩, ⟨6⟩, ⟨7⟩, ⟨8⟩] ∧
      halfSplit.Serves ⟨6⟩ ⟨5⟩ ∧ ∀ owner, ¬halfSplit.Serves ⟨8⟩ owner := by
  have hreachable : halfSplit.Reachable :=
    (Reachable.empty (Nat.zero_le _)).runAll (by simp [Command.Admits]) (by decide +kernel)
  obtain ⟨-, -, -, -, -, howner⟩ := Reachable.groups_agree hreachable
  refine ⟨hreachable, by decide +kernel, (howner ⟨6⟩ ⟨5⟩).mp (by decide +kernel), ?_⟩
  intro owner hserves
  have hnone : halfSplit.owner? ⟨8⟩ = none := by decide +kernel
  rw [(howner ⟨8⟩ owner).mpr hserves] at hnone
  cases hnone

end TaskGraph

end TiledPlacement

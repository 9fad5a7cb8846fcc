import TiledPlacement.Proofs.Split.Summation

/-!
What a split puts in the place of a block. New blocks are listed copy by copy, each before the
copies of operands that make up its group; the block and its own group are gone, and what touched
neither is as it was.
-/

namespace TiledPlacement

open Execution

/-- A copy of a computation, with the copies of operands that are made for it. -/
structure SplitEntry where
  part : SplitPart
  copy : TaskId
  operands : List TaskId

namespace SplitEntry

def roster (entry : SplitEntry) : SplitPart × TaskId := (entry.part, entry.copy)

def tasks (entry : SplitEntry) : List TaskId := entry.copy :: entry.operands

end SplitEntry

/-! The list. -/

namespace SplitCopy

def operands (copy : SplitCopy) : List TaskId :=
  copy.feeds.filterMap fun feed => feed.operand.map fun operand => operand.block.id

def entry (copy : SplitCopy) : SplitEntry := ⟨copy.part, copy.block.id, copy.operands⟩

theorem mem_operands_iff {copy : SplitCopy} {task : TaskId} :
    task ∈ copy.operands ↔
      ∃ feed ∈ copy.feeds, ∃ operand, feed.operand = some operand ∧ operand.block.id = task := by
  rw [operands, List.mem_filterMap]
  simp only [Option.map_eq_some_iff]

theorem created_plan (copy : SplitCopy) : copy.plan.created = copy.entry.tasks := by
  have hfeed : ∀ feed : Feed, (feed.plan copy.block.id).created =
      (feed.operand.map fun operand => operand.block.id).toList := by
    intro feed
    unfold Feed.plan
    cases feed.operand <;> rfl
  change copy.block.id :: (SplitPlan.concat (copy.feeds.map (Feed.plan copy.block.id))).created =
    copy.block.id :: copy.operands
  rw [SplitPlan.created_concat, List.flatMap_map, operands, List.filterMap_eq_flatMap_toList]
  simp only [hfeed]

end SplitCopy

namespace SplitLayout

variable {split : Split} {graph : TaskGraph} {layout : SplitLayout}

def entries (layout : SplitLayout) : List SplitEntry := layout.copies.map SplitCopy.entry

theorem map_roster_entries : layout.entries.map SplitEntry.roster = layout.roster := by
  rw [entries, List.map_map]
  rfl

theorem created_plan : (layout.plan split graph).created =
    layout.entries.flatMap SplitEntry.tasks ++ (layout.accumulator.map Block.id).toList := by
  have hsums : (layout.sums split graph).created = (layout.accumulator.map Block.id).toList := by
    unfold sums
    cases layout.accumulator <;> rfl
  change (SplitPlan.concat (layout.copies.map SplitCopy.plan)).created ++
    (layout.sums split graph).created = _
  rw [hsums, SplitPlan.created_concat, entries, List.flatMap_map, List.flatMap_map]
  simp only [SplitCopy.created_plan]

end SplitLayout

namespace TaskGraph

/-- The blocks in `created` are those that only `left` has, and they have later numbers. -/
structure Adds (graph left : TaskGraph) (created : List TaskId) : Prop where
  nodup : created.Nodup
  mem_iff : ∀ {task}, task ∈ created ↔
    graph.payload? task = none ∧ ∃ payload, left.payload? task = some payload
  later : ∀ task ∈ created, graph.ids.next ≤ task.raw

/-- The blocks in `gone` are not in `left`; whatever touches none of them is, unchanged. -/
structure Spares (graph left : TaskGraph) (gone : List TaskId) : Prop where
  removed : ∀ task ∈ gone, left.payload? task = none
  block : ∀ {task payload}, task ∉ gone → graph.payload? task = some payload →
    left.payload? task = some payload
  edge : ∀ {id edge}, (∀ task ∈ gone, ¬edge.Meets task) → graph.edge? id = some edge →
    left.edge? id = some edge

/-- Out of the blocks in `created`, the group of the computation has those in `members`. -/
def Gathers (graph : TaskGraph) (created : List TaskId) (owner : TaskId)
    (members : List TaskId) : Prop :=
  ∃ group, graph.group? owner = some group ∧ ∀ task ∈ created, task ∈ group ↔ task ∈ members

/-- The new block stores in `left` what the operand stored, in another shape. -/
def Resembles (graph left : TaskGraph) (operand copy : TaskId) : Prop :=
  ∃ storage shape, graph.payload? operand = some (.storage storage) ∧
    left.payload? copy = some (.storage { storage with shape })

theorem Grouped.gathers {graph : TaskGraph} (hgrouped : graph.Grouped) (hgraph : graph.WellFormed)
    {created members : List TaskId} {owner : TaskId} {computation : Computation}
    (howner : graph.payload? owner = some (.computation computation))
    (hmembers : ∀ task ∈ created, graph.Serves task owner ↔ task ∈ members) :
    graph.Gathers created owner members := by
  have hgroup := hgrouped.group?_eq hgraph owner
  rw [if_pos (isComputation_iff.mpr ⟨computation, howner⟩)] at hgroup
  refine ⟨_, hgroup, fun task htask => ?_⟩
  exact (hgrouped.mem_group_iff hgraph hgroup).trans (hmembers task htask)

end TaskGraph

namespace Split

variable {split : Split} {graph left : TaskGraph} {task : TaskId} {vector : SplitVector}
  {plan : SplitPlan} {layout : SplitLayout} {after : IdSource}

namespace Enacts

theorem adds (henacts : split.Enacts graph task vector plan layout after left) :
    graph.Adds left plan.created where
  nodup := henacts.plans.numbered.created.nodup_iff.mpr (TaskId.nodup_range _ _)
  mem_iff := by
    intro other
    constructor
    · intro hother
      obtain ⟨role, hrole, rfl⟩ := henacts.plans.mem_created_iff.mp hother
      exact ⟨henacts.plans.payload?_new henacts.cuts.wellFormed hrole, _,
        henacts.payload_role hrole⟩
    · rintro ⟨hnew, payload, hpayload⟩
      rcases henacts.payload_cases hpayload with hrole | ⟨-, hknown⟩
      · exact henacts.plans.mem_created_iff.mpr hrole
      · cases hnew.symm.trans hknown
  later other hother :=
    (TaskId.mem_range_iff.mp (henacts.plans.numbered.created.mem_iff.mp hother)).1

theorem spares (henacts : split.Enacts graph task vector plan layout after left) :
    graph.Spares left (task :: graph.operands task) := by
  have hgraph := henacts.cuts.wellFormed
  have hgone : ∀ {other}, other ∈ task :: graph.operands task ↔ other ∈ split.gone task :=
    fun {other} => (List.mem_cons.trans or_comm).trans henacts.cuts.mem_gone_iff.symm
  have hothers : ∀ {other payload}, graph.payload? other = some payload →
      left.payload? other = if other ∈ split.gone task then none else some payload := by
    intro other payload hknown
    rw [← hknown]
    exact henacts.replaced.others other (henacts.plans.ne_of_known hgraph hknown)
  refine ⟨fun other hother => ?_, fun hother hknown => ?_, fun {id edge} hapart hknown => ?_⟩
  · obtain ⟨payload, hknown⟩ := henacts.cuts.known_gone (hgone.mp hother)
    rw [hothers hknown, if_pos (hgone.mp hother)]
  · rw [hothers hknown, if_neg (mt hgone.mpr hother)]
  · obtain rfl := hgraph.edge_id hknown
    exact henacts.edge_kept hknown fun other hother => hapart other (hgone.mpr hother)

/-! Groups. -/

theorem resembles (henacts : split.Enacts graph task vector plan layout after left)
    {copy : SplitCopy} (hcopy : copy ∈ layout.copies) {operand : TaskId}
    (hoperand : operand ∈ copy.operands) :
    ∃ original ∈ graph.operands task, graph.Resembles left original operand := by
  have hcuts := henacts.cuts
  obtain ⟨feed, hfeed, made, hmade, rfl⟩ := SplitCopy.mem_operands_iff.mp hoperand
  have hplanned := (henacts.plans.planned.copies copy hcopy).feeds feed hfeed
  obtain ⟨storage, hstorage, hpayload, -⟩ :=
    henacts.plans.planned.operand_storage hcuts hcopy hfeed hmade
  refine ⟨feed.edge.src.task, ?_, storage, feed.sent.size, hstorage, ?_⟩
  · exact hcuts.operands ▸ (hplanned.operand made hmade).1
  · exact (henacts.payload_role (SplitLayout.operand_mem_roles hcopy hfeed hmade)).trans
      (congrArg some hpayload)

theorem serves_copy (henacts : split.Enacts graph task vector plan layout after left)
    {copy : SplitCopy} (hcopy : copy ∈ layout.copies) {operand : TaskId}
    (hoperand : operand ∈ copy.operands) : left.Serves operand copy.block.id := by
  obtain ⟨-, -, storage, shape, -, hstored⟩ := henacts.resembles hcopy hoperand
  obtain ⟨feed, hfeed, made, hmade, rfl⟩ := SplitCopy.mem_operands_iff.mp hoperand
  obtain ⟨edge, ⟨hknown, hdelivery⟩, -⟩ :=
    henacts.existsUnique_edge (henacts.mem_edges_iff.mpr (.delivery hcopy hfeed))
  refine ⟨⟨_, hstored⟩, ⟨_, henacts.payload_copy hcopy⟩, ⟨edge.id, edge, hknown, ?_⟩,
    fun {id other} hother hsrc => ?_⟩
  · rw [Edge.src, hdelivery]
    unfold Feed.delivery Feed.src
    rw [hmade]
  -- Whatever leaves a copy of an operand is the one delivery that it was made for.
  · obtain rfl := henacts.replaced.wellFormed.edge_id hother
    rw [Edge.dst, henacts.out_of_operand hcopy hfeed hmade hother hsrc]
    rfl

theorem serves_iff (henacts : split.Enacts graph task vector plan layout after left)
    {other owner : TaskId} (hother : other ∈ plan.created) :
    left.Serves other owner ↔
      ∃ copy ∈ layout.copies, copy.block.id = owner ∧ other ∈ copy.operands := by
  constructor
  · intro hserves
    obtain ⟨storage, hstored⟩ := hserves.stored
    obtain ⟨role, hrole, rfl⟩ := henacts.plans.mem_created_iff.mp hother
    obtain ⟨copy, feed, operand, rfl⟩ := henacts.operand_of_stored hrole hstored
    obtain ⟨hcopy, hfeed, hoperand⟩ := SplitLayout.mem_roles_iff.mp hrole
    have hmember : operand.block.id ∈ copy.operands :=
      SplitCopy.mem_operands_iff.mpr ⟨feed, hfeed, operand, hoperand, rfl⟩
    exact ⟨copy, hcopy, (henacts.serves_copy hcopy hmember).unique hserves, hmember⟩
  · rintro ⟨copy, hcopy, rfl, hoperand⟩
    exact henacts.serves_copy hcopy hoperand

theorem gathers_copy (henacts : split.Enacts graph task vector plan layout after left)
    (hgrouped : left.Grouped) {copy : SplitCopy} (hcopy : copy ∈ layout.copies) :
    left.Gathers plan.created copy.block.id copy.operands := by
  refine hgrouped.gathers henacts.replaced.wellFormed (henacts.payload_copy hcopy)
    fun other hother => (henacts.serves_iff hother).trans ⟨?_, fun hoperand => ?_⟩
  · rintro ⟨twin, htwin, hid, hoperand⟩
    obtain rfl := SplitRole.copy.inj (henacts.plans.role_unique
      (SplitLayout.copy_mem_roles htwin) (SplitLayout.copy_mem_roles hcopy) hid)
    exact hoperand
  · exact ⟨copy, hcopy, rfl, hoperand⟩

theorem gathers_sum (henacts : split.Enacts graph task vector plan layout after left)
    (hgrouped : left.Grouped) {block : Block} (hblock : layout.accumulator = some block) :
    left.Gathers plan.created block.id [] := by
  refine hgrouped.gathers henacts.replaced.wellFormed (henacts.payload_sum hblock)
    fun other hother => (henacts.serves_iff hother).trans
      ⟨?_, fun hnone => absurd hnone List.not_mem_nil⟩
  rintro ⟨copy, hcopy, hid, -⟩
  cases henacts.plans.role_unique (SplitLayout.copy_mem_roles hcopy)
    (SplitLayout.accumulator_mem_roles hblock) hid

end Enacts

end Split

namespace TaskGraph

/-- A split that creates blocks lists what is new, each block once: the copies of the computation,
each before the copies of operands that are in its group, and last the accumulator, in whose group
there are none. Only the computation and its group are removed. -/
theorem split_creates {graph left : TaskGraph} {task : TaskId} {vector : SplitVector}
    {created : List TaskId} (hgraph : graph.Reachable) (hvalid : graph.validate = .ok ())
    (hsplit : split task vector graph = .ok created left) (hcreated : created ≠ [])
    (hids : left.ids.next ≤ largestId) :
    graph.Adds left created ∧
      ∃ group, graph.group? task = some group ∧ graph.Spares left (task :: group) ∧
        ∃ computation factors, graph.payload? task = some (.computation computation) ∧
          computation.effectiveFactors task vector = .ok factors ∧
            ∃ (entries : List SplitEntry) (sum : Option TaskId),
              created = entries.flatMap SplitEntry.tasks ++ sum.toList ∧
                left.CutInto computation factors created (entries.map SplitEntry.roster) ∧
                (∀ entry ∈ entries, left.Gathers created entry.copy entry.operands ∧
                  ∀ operand ∈ entry.operands, ∃ original ∈ group,
                    graph.Resembles left original operand) ∧
                (sum.isSome = true ↔
                  1 < factors.r ∧ computation.operation.isReduction = true) ∧
                ∀ adder ∈ sum, left.Gathers created adder [] ∧
                  ∃ total shift, left.payload? adder = some (.computation total) ∧
                    total.operation = .accumulate shift := by
  obtain ⟨split, hcuts, hdone⟩ := split_done hgraph hvalid hsplit hids
  obtain ⟨-, rfl, -⟩ | ⟨plan, layout, after, henacts, rfl⟩ := hdone
  · exact absurd rfl hcreated
  have hgrouped : left.Grouped :=
    (Grouped.keeps_split task vector graph hgraph.grouped).of_ok hsplit
  refine ⟨henacts.adds, _, hcuts.group? hgraph.grouped, henacts.spares, _, _, hcuts.computes,
    hcuts.factors, layout.entries, layout.accumulator.map Block.id, ?_, ?_, ?_, ?_, ?_⟩
  · exact henacts.plans.created.trans SplitLayout.created_plan
  · rw [SplitLayout.map_roster_entries]
    exact henacts.cutInto
  · intro entry hentry
    obtain ⟨copy, hcopy, rfl⟩ := List.mem_map.mp hentry
    exact ⟨henacts.gathers_copy hgrouped hcopy, fun operand => henacts.resembles hcopy⟩
  · rw [Option.isSome_map, henacts.plans.planned.reduces, Split.reduces, Bool.and_eq_true,
      decide_eq_true_eq]
  · intro adder hadder
    obtain ⟨block, hblock, rfl⟩ := Option.map_eq_some_iff.mp hadder
    exact ⟨henacts.gathers_sum hgrouped hblock, _, _, henacts.payload_sum hblock, rfl⟩

theorem split_creates_paddedColumn :
    ∃ left, split ⟨3⟩ ⟨2, 1, 1, 2⟩ paddedColumn = .ok (TaskId.range 10 14 ++ [⟨9⟩]) left ∧
      paddedColumn.Adds left (TaskId.range 10 14 ++ [⟨9⟩]) ∧
      paddedColumn.Spares left [⟨3⟩, ⟨0⟩, ⟨1⟩, ⟨2⟩] ∧
      ∃ entries : List SplitEntry, ∃ sum,
        entries.length = 4 ∧
        TaskId.range 10 14 ++ [⟨9⟩] = entries.flatMap SplitEntry.tasks ++ [sum] ∧
        (∀ entry ∈ entries,
          left.Gathers (TaskId.range 10 14 ++ [⟨9⟩]) entry.copy entry.operands) ∧
        left.Gathers (TaskId.range 10 14 ++ [⟨9⟩]) sum [] := by
  have hreachable : paddedColumn.Reachable :=
    (Reachable.empty (Nat.zero_le _)).runAll (by simp [Command.Admits]) (by decide +kernel)
  have hsplit := @run_eq_ok_of_returned _ _ _ (split ⟨3⟩ ⟨2, 1, 1, 2⟩) paddedColumn
    (TaskId.range 10 14 ++ [⟨9⟩]) (by decide +kernel)
  obtain ⟨hadds, group, hgroup, hspares, computation, factors, hpayload, hfactors, entries, sum,
    hlist, hcut, hentries, hreduces, hsum⟩ := split_creates hreachable (by decide +kernel) hsplit
      (List.append_ne_nil_of_right_ne_nil _ (List.cons_ne_nil _ _)) (by decide +kernel)
  have hmembers : paddedColumn.group? ⟨3⟩ = some [⟨0⟩, ⟨1⟩, ⟨2⟩] := by decide +kernel
  have hknown : paddedColumn.payload? ⟨3⟩ = some (.computation columnConvolution) := by
    decide +kernel
  obtain rfl := Option.some.inj (hgroup.symm.trans hmembers)
  obtain rfl := Payload.computation.inj (Option.some.inj (hpayload.symm.trans hknown))
  obtain rfl : factors = ⟨2, 1, 1, 2⟩ := (Except.ok.inj hfactors).symm
  obtain ⟨adder, rfl⟩ := Option.isSome_iff_exists.mp (hreduces.mpr ⟨by decide, rfl⟩)
  refine ⟨_, hsplit, hadds, hspares, entries, adder, ?_, hlist, fun entry hentry =>
    (hentries entry hentry).1, (hsum adder rfl).1⟩
  have hparts := congrArg List.length hcut.parts
  rw [List.length_map, List.length_map] at hparts
  exact hparts.trans rfl

end TaskGraph

end TiledPlacement

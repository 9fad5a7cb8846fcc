import TiledPlacement.Proofs.Graph.Grouping
import TiledPlacement.Proofs.Split.Commit

/-!
Runs of a split. One that returns has carried out a plan or had nothing to cut; one that fails has
left the graph alone or has met a connection that was refused.
-/

namespace TiledPlacement

open Execution

/-- A list in weak order has its members in strict order once repetitions are dropped. -/
theorem pairwise_eraseDups {α : Type} [BEq α] [LawfulBEq α] {less : α → α → Prop} :
    (list : List α) → (list.Pairwise fun earlier later => earlier = later ∨ less earlier later) →
      list.eraseDups.Pairwise less
  | [], _ => List.Pairwise.nil
  | first :: rest, hweak => by
      rw [List.pairwise_cons] at hweak
      rw [List.eraseDups_cons, List.pairwise_cons]
      refine ⟨fun other hother => ?_, pairwise_eraseDups _ (hweak.2.filter _)⟩
      rw [List.mem_eraseDups, List.mem_filter] at hother
      obtain ⟨hmember, hdiffers⟩ := hother
      refine (hweak.1 other hmember).resolve_left fun hsame => ?_
      simp [hsame] at hdiffers
termination_by list => list.length
decreasing_by exact Nat.lt_succ_of_le (List.length_filter_le _ _)

namespace Split

def gone (split : Split) (task : TaskId) : List TaskId := split.operands ++ [task]

/-- Planning a split has led to a plan with the given layout. -/
structure Plans (split : Split) (graph : TaskGraph) (plan : SplitPlan) (layout : SplitLayout)
    (after : IdSource) : Prop where
  run : split.plan graph graph.ids = .ok plan after
  planned : layout.Planned split graph
  created : plan.created = (layout.plan split graph).created
  edges : plan.edges = (layout.plan split graph).edges.eraseDups
  blocks : plan.blocks = layout.roles.map SplitRole.block
  numbered : plan.Numbered graph.ids after
  word : after.next ≤ largestId

section Plans

variable {split : Split} {graph : TaskGraph} {plan : SplitPlan} {layout : SplitLayout}
  {after : IdSource}

theorem plans_of_run (hrun : split.plan graph graph.ids = .ok plan after)
    (hword : after.next ≤ largestId) : ∃ layout, split.Plans graph plan layout after := by
  obtain ⟨layout, hplanned, hmade⟩ := (ends_plan_layout graph.ids).of_ok hrun
  refine ⟨layout, hrun, hplanned, ?_, ?_, ?_, (ends_plan graph.ids).of_ok hrun, hword⟩
  · rw [hmade]
  · rw [hmade]
  · rw [hmade]
    exact SplitLayout.blocks_plan

theorem Plans.mem_edges_iff (hplans : split.Plans graph plan layout after)
    (hgraph : graph.WellFormed) {connection : Connection} :
    connection ∈ plan.edges ↔ layout.Makes split graph connection := by
  rw [hplans.edges, List.mem_eraseDups]
  exact hplans.planned.mem_edges_iff hgraph

theorem Plans.nodup_edges (hplans : split.Plans graph plan layout after) :
    plan.edges.Nodup := by
  rw [hplans.edges]
  exact pairwise_eraseDups _ (List.pairwise_of_forall fun _ _ => em _)

theorem Plans.block_mem (hplans : split.Plans graph plan layout after) {role : SplitRole}
    (hrole : role ∈ layout.roles) : role.block ∈ plan.blocks := by
  rw [hplans.blocks]
  exact List.mem_map_of_mem hrole

theorem Plans.mem_created_iff (hplans : split.Plans graph plan layout after) {task : TaskId} :
    task ∈ plan.created ↔ ∃ role ∈ layout.roles, role.block.id = task := by
  rw [← hplans.numbered.blocks.mem_iff, hplans.blocks, List.map_map, List.mem_map]
  rfl

theorem Plans.role_unique (hplans : split.Plans graph plan layout after) {left right : SplitRole}
    (hleft : left ∈ layout.roles) (hright : right ∈ layout.roles)
    (hid : left.block.id = right.block.id) : left = right := by
  have hnodup := hplans.numbered.nodup
  rw [hplans.blocks, List.map_map] at hnodup
  exact List.inj_on_of_nodup_map hnodup hleft hright hid

theorem Plans.unused (hplans : split.Plans graph plan layout after) (hgraph : graph.WellFormed)
    {block : Block} (hblock : block ∈ plan.blocks) : ¬graph.usesId block.id.raw = true := by
  obtain ⟨hfirst, hlast⟩ := hplans.numbered.id_mem_range hblock
  have hword := hplans.word
  exact hgraph.unused_of_next_le hfirst (by omega)

theorem Plans.payload?_block (hplans : split.Plans graph plan layout after)
    (hgraph : graph.WellFormed) {block : Block} (hblock : block ∈ plan.blocks) :
    graph.payload? block.id = none := by
  rw [TaskGraph.payload?, TaskGraph.unused_block (hplans.unused hgraph hblock), Option.map_none]

theorem Plans.payload?_new (hplans : split.Plans graph plan layout after)
    (hgraph : graph.WellFormed) {role : SplitRole} (hrole : role ∈ layout.roles) :
    graph.payload? role.block.id = none :=
  hplans.payload?_block hgraph (hplans.block_mem hrole)

theorem Plans.ne_of_known (hplans : split.Plans graph plan layout after)
    (hgraph : graph.WellFormed) {task : TaskId} {payload : Payload}
    (hknown : graph.payload? task = some payload) : ∀ block ∈ plan.blocks, block.id ≠ task := by
  intro block hblock hsame
  rw [← hsame, hplans.payload?_block hgraph hblock] at hknown
  cases hknown

theorem Plans.extent_new (hplans : split.Plans graph plan layout after) {gone : List TaskId}
    {left : TaskGraph} (hleft : graph.Replaced gone plan left) {role : SplitRole}
    (hrole : role ∈ layout.roles) (side : PortSide) (index : Nat) :
    left.extent? side role.block.id index = (role.block.payload.shapes side)[index]? := by
  rw [hleft.wellFormed.extent?_eq, hleft.made _ (hplans.block_mem hrole), Option.bind_some]

theorem Plans.extent_old (hplans : split.Plans graph plan layout after)
    (hgraph : graph.WellFormed) {gone : List TaskId} {left : TaskGraph}
    (hleft : graph.Replaced gone plan left) {task : TaskId} {payload : Payload}
    (hknown : graph.payload? task = some payload) (side : PortSide) (index : Nat) :
    left.extent? side task index =
      if task ∈ gone then none else graph.extent? side task index := by
  rw [hleft.wellFormed.extent?_eq, hleft.others task (hplans.ne_of_known hgraph hknown),
    hgraph.extent?_eq]
  split <;> rfl

end Plans

theorem Cuts.unique {first second : Split} {graph : TaskGraph} {task : TaskId}
    {vector : SplitVector} (hfirst : first.Cuts graph task vector)
    (hsecond : second.Cuts graph task vector) : first = second := by
  obtain ⟨block, computation, factors, operands⟩ := first
  obtain ⟨otherBlock, otherComputation, otherFactors, otherOperands⟩ := second
  obtain rfl : block = otherBlock := Option.some.inj (hfirst.block.symm.trans hsecond.block)
  obtain rfl : computation = otherComputation :=
    Payload.computation.inj (hfirst.payload.symm.trans hsecond.payload)
  obtain rfl : factors = otherFactors :=
    Except.ok.inj (hfirst.factors.symm.trans hsecond.factors)
  obtain rfl : operands = otherOperands := hfirst.operands.trans hsecond.operands.symm
  rfl

theorem Cuts.computes {split : Split} {graph : TaskGraph} {task : TaskId} {vector : SplitVector}
    (hcuts : split.Cuts graph task vector) :
    graph.payload? task = some (.computation split.computation) :=
  TaskGraph.payload?_eq_some_iff.mpr ⟨_, hcuts.block, hcuts.payload⟩

theorem Cuts.group? {split : Split} {graph : TaskGraph} {task : TaskId} {vector : SplitVector}
    (hcuts : split.Cuts graph task vector) (hgrouped : graph.Grouped) :
    graph.group? task = some (graph.operands task) := by
  rw [hgrouped.group?_eq hcuts.wellFormed, if_pos]
  exact TaskGraph.isComputation_iff.mpr ⟨_, hcuts.computes⟩

theorem Cuts.nodup_gone {split : Split} {graph : TaskGraph} {task : TaskId} {vector : SplitVector}
    (hcuts : split.Cuts graph task vector) : (split.gone task).Nodup := by
  rw [gone, hcuts.operands, List.nodup_append]
  refine ⟨TaskGraph.WellFormed.nodup_operands graph task, List.nodup_singleton task, ?_⟩
  intro operand hoperand other hother hsame
  obtain ⟨⟨storage, hstorage⟩, -, -⟩ := hcuts.wellFormed.mem_operands_iff.mp hoperand
  rw [hsame, List.mem_singleton.mp hother, TaskGraph.payload?, hcuts.block, Option.map_some,
    hcuts.payload] at hstorage
  cases hstorage

theorem Cuts.known_gone {split : Split} {graph : TaskGraph} {task : TaskId} {vector : SplitVector}
    (hcuts : split.Cuts graph task vector) {other : TaskId} (hother : other ∈ split.gone task) :
    ∃ payload, graph.payload? other = some payload := by
  rcases List.mem_append.mp hother with hoperand | hself
  · rw [hcuts.operands] at hoperand
    obtain ⟨⟨storage, hstorage⟩, -, -⟩ := hcuts.wellFormed.mem_operands_iff.mp hoperand
    exact ⟨_, hstorage⟩
  · rw [List.mem_singleton.mp hself]
    exact ⟨_, TaskGraph.payload?_eq_some_iff.mpr ⟨_, hcuts.block, rfl⟩⟩

end Split

namespace TaskGraph

/-- What a split has done when it returns. -/
def SplitDone (graph : TaskGraph) (task : TaskId) (vector : SplitVector) (created : List TaskId)
    (left : TaskGraph) : Prop :=
  ∃ split : Split, split.Cuts graph task vector ∧
    (split.factors.isIdentity = true ∧ created = [] ∧ left = graph ∨
      ∃ plan layout after, split.Plans graph plan layout after ∧ created = plan.created ∧
        graph.Committed (split.gone task) plan after.next left)

/-- What a split has done when it fails. -/
def SplitFailed (graph : TaskGraph) (task : TaskId) (vector : SplitVector)
    (left : TaskGraph) : Prop :=
  (left = { graph with ids := left.ids } ∧
    ∀ split : Split, split.Cuts graph task vector →
      ∀ plan after, split.plan graph graph.ids ≠ .ok plan after) ∨
  ∃ split : Split, split.Cuts graph task vector ∧
    ∃ plan layout after, split.Plans graph plan layout after ∧
      graph.Replaced (split.gone task) plan left ∧
        ∃ connection ∈ plan.edges, ¬left.Joins connection

private theorem block?_of_ok {graph : TaskGraph} {task : TaskId} {block : Block}
    (hblock : graph.block task = .ok block) : graph.block? task = some block := by
  unfold TaskGraph.block at hblock
  cases hfound : graph.block? task with
  | none =>
      rw [hfound] at hblock
      cases hblock
  | some found =>
      rw [hfound] at hblock
      exact congrArg some (Except.ok.inj hblock)

private theorem block_of_block? {graph : TaskGraph} {task : TaskId} {block : Block}
    (hblock : graph.block? task = some block) : graph.block task = .ok block := by
  unfold TaskGraph.block
  rw [hblock]

private theorem ends_commit_plans {graph : TaskGraph} {task : TaskId} {vector : SplitVector}
    {split : Split} (hcuts : split.Cuts graph task vector) {plan : SplitPlan} {after : IdSource}
    (hrun : split.plan graph graph.ids = .ok plan after) :
    Ends (commit task split.operands plan) { graph with ids := after }
      (fun _ left => left.ids.next ≤ largestId → ∃ layout, split.Plans graph plan layout after ∧
        graph.Committed (split.gone task) plan after.next left)
      (fun _ left => left.ids.next ≤ largestId → ∃ layout, split.Plans graph plan layout after ∧
        graph.Replaced (split.gone task) plan left ∧
          ∃ connection ∈ plan.edges, ¬left.Joins connection) := by
  have hgraph := hcuts.wellFormed
  have hnumbered : plan.Numbered graph.ids after := (Split.ends_plan graph.ids).of_ok hrun
  have hlater : graph.ids.next ≤ after.next := by
    rw [hnumbered.next]
    exact Nat.le_add_right _ _
  have hevolves := @Evolves.keeps_commit graph task split.operands plan graph.ids after hnumbered
    (Nat.le_refl graph.ids.next) { graph with ids := after }
    ((Evolves.refl fun _ => hgraph).withIds hlater)
  by_cases hword : after.next ≤ largestId
  · obtain ⟨layout, hplans⟩ := Split.plans_of_run hrun hword
    have hcommit := @ends_commit { graph with ids := after } (hgraph.withLaterIds hlater) task
      split.operands plan hcuts.nodup_gone (fun other hother => hcuts.known_gone hother)
      hnumbered.nodup (fun block hblock => ⟨hplans.unused hgraph hblock,
        (hnumbered.made block hblock).edgeIds_eq_nil⟩)
    rw [ends_iff] at hcommit hevolves ⊢
    refine ⟨fun value left hleft hids => ⟨layout, hplans, ?_⟩,
      fun error left hleft hids => ⟨layout, hplans, ?_⟩⟩
    · obtain ⟨hjoins, hequal⟩ := hcommit.1 value left hleft
      have hcommitted := committed_of_staged (hgraph.withLaterIds hlater) hnumbered.nodup
        (fun block hblock => (hnumbered.id_mem_range hblock).2)
        ((hevolves.1 value left hleft).wellFormed hids) hjoins hequal
      exact ⟨⟨hcommitted.wellFormed, hcommitted.made, hcommitted.others⟩, hcommitted.next,
        hcommitted.joins, hcommitted.edge⟩
    · obtain ⟨hrefused, hpayload⟩ := hcommit.2 error left hleft
      have hreplaced := replaced_of_staged (hgraph.withLaterIds hlater) hnumbered.nodup
        ((hevolves.2 error left hleft).wellFormed hids) hpayload
      exact ⟨⟨hreplaced.wellFormed, hreplaced.made, hreplaced.others⟩, hrefused⟩
  · rw [ends_iff] at hevolves ⊢
    exact ⟨fun value left hleft hids =>
        absurd (Nat.le_trans (hevolves.1 value left hleft).later hids) hword,
      fun error left hleft hids =>
        absurd (Nat.le_trans (hevolves.2 error left hleft).later hids) hword⟩

theorem ends_split {graph : TaskGraph} (hgraph : graph.WellFormed) (hgrouped : graph.Grouped)
    (task : TaskId) (vector : SplitVector) :
    Ends (split task vector) graph
      (fun created left => left.ids.next ≤ largestId → graph.SplitDone task vector created left)
      (fun _ left => left.ids.next ≤ largestId → graph.SplitFailed task vector left) := by
  unfold split
  rw [ends_bind, ends_get, ends_bind, ends_ofExcept]
  constructor
  case right =>
    intro error herror _
    refine Or.inl ⟨rfl, fun split hcuts => ?_⟩
    rw [block_of_block? hcuts.block] at herror
    cases herror
  case left =>
    intro block hblock
    have hknown := block?_of_ok hblock
    cases hpayload : block.payload with
    | storage storage =>
        have hnone : block.computation? = none := by rw [Block.computation?, hpayload]
        rw [hnone]
        intro _
        refine Or.inl ⟨rfl, fun split hcuts => ?_⟩
        have hother := hcuts.payload
        rw [Option.some.inj (hcuts.block.symm.trans hknown), hpayload] at hother
        cases hother
    | computation computation =>
        have hsome : block.computation? = some computation := by
          rw [Block.computation?, hpayload]
        rw [hsome]
        dsimp only
        rw [ends_bind, ends_ofExcept]
        constructor
        case right =>
          intro error herror _
          refine Or.inl ⟨rfl, fun split hcuts => ?_⟩
          have hother := hcuts.payload
          rw [Option.some.inj (hcuts.block.symm.trans hknown), hpayload] at hother
          have hfactors := hcuts.factors
          rw [← Payload.computation.inj hother, herror] at hfactors
          cases hfactors
        case left =>
          intro factors hfactors
          have hoperands : (graph.group? task).getD [] = graph.operands task :=
            hgrouped.getD_group?_eq hgraph
              (isComputation_iff.mpr ⟨computation, payload?_eq_some_iff.mpr ⟨_, hknown, hpayload⟩⟩)
          rw [hoperands]
          have hcuts : Split.Cuts ⟨block, computation, factors, graph.operands task⟩ graph task
              vector := ⟨hgraph, hknown, hpayload, hfactors, rfl⟩
          by_cases hidentity : factors.isIdentity = true
          · rw [if_pos hidentity]
            exact fun _ => ⟨_, hcuts, Or.inl ⟨hidentity, rfl, rfl⟩⟩
          · rw [if_neg hidentity, ends_bind, ends_runPlanner, ends_iff]
            refine ⟨fun plan ids hrun => ?_, fun error ids hrun _ => ?_⟩
            · rw [ends_bind, ends_regroupAfter]
              refine (ends_commit_plans hcuts hrun).mono (fun _ left hleft hids => ?_)
                (fun _ left hleft hids => ?_)
              · obtain ⟨layout, hplans, hcommitted⟩ := hleft hids
                exact ⟨_, hcuts, Or.inr ⟨plan, layout, ids, hplans, rfl, hcommitted.regrouped⟩⟩
              · obtain ⟨layout, hplans, hreplaced, connection, hmember, hrefused⟩ := hleft hids
                exact Or.inr ⟨_, hcuts, plan, layout, ids, hplans, hreplaced.regrouped, connection,
                  hmember, mt joins_regrouped.mp hrefused⟩
            · refine Or.inl ⟨rfl, fun split hother plan after => ?_⟩
              rw [hother.unique hcuts, hrun]
              intro hok
              cases hok

end TaskGraph

end TiledPlacement

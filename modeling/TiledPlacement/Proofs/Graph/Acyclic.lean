import Mathlib.Data.Set.Card
import TiledPlacement.Graph.Integrity
import TiledPlacement.Proofs.Cycle
import TiledPlacement.Proofs.Graph.Sorting

/-!
Acyclic graphs. The blocks that a topological order leaves out are those on a cycle or behind one.
There is an order of all blocks exactly when no edges form a cycle, or when blocks can be ranked so
that every edge leads to a higher rank.
-/

namespace TiledPlacement

namespace TaskGraph

/-- Every edge leads from a lower to a higher rank. -/
def Ranked (graph : TaskGraph) (rank : TaskId → Nat) : Prop :=
  ∀ edge, graph.edge? edge.id = some edge → rank edge.src.task < rank edge.dst.task

/-- Some edge leads from one block to the other. -/
def Leads (graph : TaskGraph) (producer consumer : TaskId) : Prop :=
  ∃ id edge, graph.edge? id = some edge ∧ edge.src.task = producer ∧ edge.dst.task = consumer

/-- All blocks, once each, every one after its producers. -/
structure Topological (graph : TaskGraph) (order : List TaskId) : Prop where
  nodup : order.Nodup
  mem_iff : ∀ task, task ∈ order ↔ ∃ block, graph.block? task = some block
  ascends : ∀ id edge, graph.edge? id = some edge →
    order.idxOf edge.src.task < order.idxOf edge.dst.task

variable {graph : TaskGraph} {placed order : List TaskId}

theorem WellFormed.leads_iff (hgraph : graph.WellFormed) {producer consumer : TaskId} :
    graph.Leads producer consumer ↔
      ∃ edge ∈ graph.inputEdges consumer, edge.src.task = producer := by
  constructor
  · rintro ⟨id, edge, hedge, rfl, rfl⟩
    obtain rfl := hgraph.edge_id hedge
    exact ⟨edge, hgraph.mem_inputEdges_iff.mpr ⟨hedge, rfl⟩, rfl⟩
  · rintro ⟨edge, hmember, rfl⟩
    obtain ⟨hedge, hconsumer⟩ := hgraph.mem_inputEdges_iff.mp hmember
    exact ⟨edge.id, edge, hedge, rfl, hconsumer⟩

theorem WellFormed.leads_known (hgraph : graph.WellFormed) {producer consumer : TaskId}
    (hleads : graph.Leads producer consumer) :
    (∃ block, graph.block? producer = some block) ∧
      ∃ block, graph.block? consumer = some block := by
  obtain ⟨id, edge, hedge, rfl, rfl⟩ := hleads
  obtain rfl := hgraph.edge_id hedge
  exact ⟨hgraph.end_known hedge .output, hgraph.end_known hedge .input⟩

namespace Arranges

theorem fresh (harranges : graph.Arranges placed order) : ∀ task ∈ order, task ∉ placed := by
  induction harranges with
  | stop => exact List.forall_mem_nil _
  | place havailable _ _ induction =>
      intro task htask
      rcases List.mem_cons.mp htask with rfl | hlater
      · exact havailable.fresh
      · exact fun hplaced => induction task hlater (List.mem_append_left _ hplaced)

theorem known (harranges : graph.Arranges placed order) :
    ∀ task ∈ order, ∃ block, graph.block? task = some block := by
  induction harranges with
  | stop => exact List.forall_mem_nil _
  | place havailable _ _ induction =>
      intro task htask
      rcases List.mem_cons.mp htask with rfl | hlater
      · exact havailable.known
      · exact induction task hlater

theorem nodup (harranges : graph.Arranges placed order) : order.Nodup := by
  induction harranges with
  | stop => exact List.nodup_nil
  | place _ _ hrest induction =>
      refine List.nodup_cons.mpr ⟨fun hlater => ?_, induction⟩
      exact hrest.fresh _ hlater (List.mem_append_right _ (List.mem_singleton_self _))

/-- Producers come first. -/
theorem met (harranges : graph.Arranges placed order) {task : TaskId} (htask : task ∈ order)
    {edge : Edge} (hedge : edge ∈ graph.inputEdges task) :
    edge.src.task ∈ placed ∨
      edge.src.task ∈ order ∧ order.idxOf edge.src.task < order.idxOf task := by
  induction harranges with
  | stop => cases htask
  | @place placed first rest havailable _ hrest induction =>
      rcases List.mem_cons.mp htask with rfl | hlater
      · exact Or.inl (havailable.met edge hedge)
      · have hother : ∀ {other}, other ∉ placed ++ [first] → first ≠ other := by
          rintro other hfresh rfl
          exact hfresh (List.mem_append_right _ (List.mem_singleton_self _))
        have htaskLater := hother (hrest.fresh task hlater)
        rcases induction hlater with hplaced | ⟨hproducer, hless⟩
        · rcases List.mem_append.mp hplaced with hearlier | hfirst
          · exact Or.inl hearlier
          · rw [List.mem_singleton.mp hfirst, List.idxOf_cons_self,
              List.idxOf_cons_ne _ htaskLater]
            exact Or.inr ⟨List.mem_cons_self, Nat.succ_pos _⟩
        · rw [List.idxOf_cons_ne _ htaskLater,
            List.idxOf_cons_ne _ (hother (hrest.fresh _ hproducer))]
          exact Or.inr ⟨List.mem_cons_of_mem _ hproducer, Nat.succ_lt_succ hless⟩

theorem acc (hgraph : graph.WellFormed) (harranges : graph.Arranges placed order)
    (hplaced : ∀ task ∈ placed, Acc graph.Leads task) : ∀ task ∈ order, Acc graph.Leads task := by
  induction harranges with
  | stop => exact List.forall_mem_nil _
  | @place placed first rest havailable _ _ induction =>
      have hfirst : Acc graph.Leads first := by
        refine Acc.intro first fun producer hleads => ?_
        obtain ⟨edge, hedge, rfl⟩ := hgraph.leads_iff.mp hleads
        exact hplaced _ (havailable.met edge hedge)
      intro task htask
      rcases List.mem_cons.mp htask with rfl | hlater
      · exact hfirst
      · refine induction (fun other hother => ?_) task hlater
        rcases List.mem_append.mp hother with hearlier | hlast
        · exact hplaced other hearlier
        · rwa [List.mem_singleton.mp hlast]

/-- What is left out waits for more that is left out. -/
theorem exists_left_out (harranges : graph.Arranges placed order) {task : TaskId} {block : Block}
    (hblock : graph.block? task = some block) (hout : task ∉ placed ++ order) :
    ∃ edge ∈ graph.inputEdges task, edge.src.task ∉ placed ++ order := by
  induction harranges with
  | stop hnone =>
      rw [List.append_nil] at hout ⊢
      by_contra hmet
      push Not at hmet
      exact hnone task ⟨⟨block, hblock⟩, hout, hmet⟩
  | place _ _ _ induction =>
      rw [List.append_cons] at hout ⊢
      exact induction hout

/-- The blocks left out are those on a cycle or behind one. -/
theorem followsCycle_iff (hgraph : graph.WellFormed) (harranges : graph.Arranges [] order)
    {task : TaskId} :
    FollowsCycle graph.Leads task ↔
      (∃ block, graph.block? task = some block) ∧ task ∉ order := by
  constructor
  · intro hfollows
    obtain ⟨producer, hleads⟩ := hfollows.exists_before
    refine ⟨(hgraph.leads_known hleads).2, fun hplaced => ?_⟩
    have hacc := harranges.acc hgraph (List.forall_mem_nil _) task hplaced
    exact not_followsCycle_of_acc hacc hfollows
  · intro hleft
    refine followsCycle_of_waiting (fun task => (∃ block, graph.block? task = some block) ∧
      task ∉ order) ?_ (fun other hother => ?_) hleft
    · exact graph.taskIds.finite_toSet.subset fun other hother => mem_taskIds_iff.mpr hother.1
    · obtain ⟨⟨block, hblock⟩, hout⟩ := hother
      obtain ⟨edge, hedge, hsource⟩ := harranges.exists_left_out hblock hout
      have hleads := hgraph.leads_iff.mpr ⟨edge, hedge, rfl⟩
      exact ⟨_, hleads, (hgraph.leads_known hleads).1, hsource⟩

theorem length_add_ncard (hgraph : graph.WellFormed) (harranges : graph.Arranges [] order) :
    order.length + {task | FollowsCycle graph.Leads task}.ncard = graph.blocks.size := by
  have hset : {task | FollowsCycle graph.Leads task} =
      ((graph.taskIds.filter fun task => !decide (task ∈ order)).toFinset : Set TaskId) := by
    ext task
    rw [List.coe_toFinset]
    change FollowsCycle graph.Leads task ↔ task ∈ List.filter _ _
    rw [harranges.followsCycle_iff hgraph, List.mem_filter, mem_taskIds_iff, Bool.not_eq_true',
      decide_eq_false_iff_not]
  have horder : (graph.taskIds.filter fun task => decide (task ∈ order)).length = order.length := by
    apply List.Perm.length_eq
    apply (List.perm_ext_iff_of_nodup (graph.nodup_taskIds.filter _) harranges.nodup).mpr
    intro task
    rw [List.mem_filter, decide_eq_true_eq]
    exact and_iff_right_of_imp fun hplaced => mem_taskIds_iff.mpr (harranges.known task hplaced)
  rw [hset, Set.ncard_coe_finset, List.toFinset_card_of_nodup (graph.nodup_taskIds.filter _),
    ← horder, ← List.length_eq_length_filter_add, taskIds, Std.ExtTreeMap.length_keys]

/-- All blocks have been placed if there is no cycle, and only then. -/
theorem length_eq_iff (hgraph : graph.WellFormed) (harranges : graph.Arranges [] order) :
    order.length = graph.blocks.size ↔ ∀ task, ¬FollowsCycle graph.Leads task := by
  have hfinite : {task | FollowsCycle graph.Leads task}.Finite :=
    graph.taskIds.finite_toSet.subset fun task hfollows =>
      mem_taskIds_iff.mpr ((harranges.followsCycle_iff hgraph).mp hfollows).1
  rw [← harranges.length_add_ncard hgraph, left_eq_add, Set.ncard_eq_zero hfinite,
    Set.eq_empty_iff_forall_notMem]
  exact Iff.rfl

theorem topological (hgraph : graph.WellFormed) (harranges : graph.Arranges [] order)
    (hall : order.length = graph.blocks.size) : graph.Topological order := by
  have hmember : ∀ {task}, (∃ block, graph.block? task = some block) → task ∈ order := by
    intro task hknown
    by_contra hout
    exact (harranges.length_eq_iff hgraph).mp hall task
      ((harranges.followsCycle_iff hgraph).mpr ⟨hknown, hout⟩)
  refine ⟨harranges.nodup, fun task => ⟨harranges.known task, hmember⟩, fun id edge hedge => ?_⟩
  obtain rfl := hgraph.edge_id hedge
  have hinput := hgraph.mem_inputEdges_iff.mpr ⟨hedge, rfl⟩
  rcases harranges.met (hmember (hgraph.end_known hedge .input)) hinput with hnone | ⟨-, hless⟩
  · cases hnone
  · exact hless

end Arranges

/-- The order is that of the blocks placed if these are all, and what is left out is counted if
they are not. -/
theorem topologicalOrder_eq (hgraph : graph.WellFormed) :
    ∃ order, graph.Arranges [] order ∧ graph.topologicalOrder =
      if order.length = graph.blocks.size then .ok order
      else .error (.cycle (graph.blocks.size - order.length)) := by
  refine ⟨Id.run (graph.placeReady lessOne graph.blocks.size graph.sorting),
    arranges_placeReady hgraph (tracks_sorting hgraph) (Nat.le_add_left _ _), ?_⟩
  unfold topologicalOrder topologicalOrderBy
  dsimp only [bind, Id.run]
  split <;> rfl

theorem topologicalOrder_ok_iff_acyclic (hgraph : graph.WellFormed) :
    (∃ order, graph.topologicalOrder = .ok order) ↔
      ∀ task, ¬Relation.TransGen graph.Leads task task := by
  obtain ⟨order, harranges, horder⟩ := topologicalOrder_eq hgraph
  have hlength : (∃ found, graph.topologicalOrder = .ok found) ↔
      order.length = graph.blocks.size := by
    rw [horder]
    split
    case isTrue hall => exact iff_of_true ⟨order, rfl⟩ hall
    case isFalse hsome => exact iff_of_false (fun hok => by cases hok.choose_spec) hsome
  rw [hlength, harranges.length_eq_iff hgraph]
  constructor
  · exact fun hnone task hcycle => hnone task ⟨task, hcycle, .refl⟩
  · exact fun hacyclic task hfollows => hacyclic _ hfollows.choose_spec.1

theorem topological_of_ok (hgraph : graph.WellFormed)
    (hok : graph.topologicalOrder = .ok order) : graph.Topological order := by
  obtain ⟨found, harranges, hfound⟩ := topologicalOrder_eq hgraph
  rw [hfound] at hok
  split at hok
  case isTrue hall =>
    cases hok
    exact harranges.topological hgraph hall
  case isFalse => cases hok

/-- A graph has a topological order exactly when it can be ranked. -/
theorem topologicalOrder_ok_iff (hgraph : graph.WellFormed) :
    (∃ order, graph.topologicalOrder = .ok order) ↔ ∃ rank, graph.Ranked rank := by
  constructor
  · rintro ⟨order, hok⟩
    exact ⟨order.idxOf, fun edge => (topological_of_ok hgraph hok).ascends edge.id edge⟩
  · rintro ⟨rank, hranked⟩
    refine (topologicalOrder_ok_iff_acyclic hgraph).mpr fun task hcycle => ?_
    have hascends : ∀ {producer consumer}, graph.Leads producer consumer →
        rank producer < rank consumer := by
      rintro _ _ ⟨id, edge, hedge, rfl, rfl⟩
      obtain rfl := hgraph.edge_id hedge
      exact hranked edge hedge
    have hcycles : ∀ other, Relation.TransGen graph.Leads task other → rank task < rank other := by
      intro other hreaches
      induction hreaches with
      | single hleads => exact hascends hleads
      | tail _ hleads induction => exact induction.trans (hascends hleads)
    exact Nat.lt_irrefl _ (hcycles task hcycle)

end TaskGraph

end TiledPlacement

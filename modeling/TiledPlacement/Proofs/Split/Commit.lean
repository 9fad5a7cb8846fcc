import TiledPlacement.Proofs.Graph.Reachable
import TiledPlacement.Proofs.Split.Connection

/-!
Carrying out a plan. Blocks go and come without fail; what can be refused is a connection, and
then the blocks that were to be replaced are gone already.
-/

namespace TiledPlacement

open Execution

namespace TaskGraph

theorem joins_congr {first second : TaskGraph} {connection : Connection}
    (hextent : ∀ side task index, first.extent? side task index = second.extent? side task index) :
    first.Joins connection ↔ second.Joins connection := by
  constructor
  · intro hjoins
    refine ⟨hjoins.apart, fun side => ?_, hjoins.fits⟩
    rw [← hextent]
    exact hjoins.room side
  · intro hjoins
    refine ⟨hjoins.apart, fun side => ?_, hjoins.fits⟩
    rw [hextent]
    exact hjoins.room side

/-! Removing blocks. -/

def clearedAll (graph : TaskGraph) (gone : List TaskId) : TaskGraph := gone.foldl cleared graph

theorem ids_clearedAll (graph : TaskGraph) (gone : List TaskId) :
    (graph.clearedAll gone).ids = graph.ids := by
  induction gone generalizing graph with
  | nil => rfl
  | cons first rest induction =>
      exact (induction (graph.cleared first)).trans (WellFormed.ids_cleared graph first)

namespace WellFormed

variable {graph : TaskGraph}

theorem clearedAll (hgraph : graph.WellFormed) (gone : List TaskId) :
    (graph.clearedAll gone).WellFormed := by
  induction gone generalizing graph with
  | nil => exact hgraph
  | cons first rest induction => exact induction (hgraph.cleared first)

theorem payload?_clearedAll (hgraph : graph.WellFormed) (gone : List TaskId) (task : TaskId) :
    (graph.clearedAll gone).payload? task = if task ∈ gone then none else graph.payload? task := by
  induction gone generalizing graph with
  | nil => rfl
  | cons first rest induction =>
      refine (induction (hgraph.cleared first)).trans ?_
      rw [hgraph.payload?_cleared]
      by_cases hrest : task ∈ rest
      · rw [if_pos hrest, if_pos (List.mem_cons_of_mem _ hrest)]
      · simp only [List.mem_cons, hrest, if_false, or_false]

theorem mem_cleared_iff (hgraph : graph.WellFormed) {task : TaskId} {edge : Edge} :
    (graph.cleared task).edge? edge.id = some edge ↔
      graph.edge? edge.id = some edge ∧ ¬edge.Meets task := by
  cases hblock : graph.block? task with
  | some block =>
      rw [hgraph.edge?_cleared hblock, Option.filter_eq_some_iff, decide_eq_true_eq]
  | none =>
      rw [TaskGraph.cleared, hblock]
      refine ⟨fun hedge => ⟨hedge, fun hmeets => ?_⟩, fun hboth => hboth.1⟩
      obtain ⟨side, rfl⟩ := Edge.meets_iff.mp hmeets
      obtain ⟨port, hport, -⟩ := hgraph.edge_listed hedge side
      obtain ⟨block, hknown, -⟩ := port?_eq_some_iff.mp hport
      rw [hblock] at hknown
      cases hknown

theorem mem_clearedAll_iff (hgraph : graph.WellFormed) {gone : List TaskId} {edge : Edge} :
    (graph.clearedAll gone).edge? edge.id = some edge ↔
      graph.edge? edge.id = some edge ∧ ∀ task ∈ gone, ¬edge.Meets task := by
  induction gone generalizing graph with
  | nil => exact ⟨fun hedge => ⟨hedge, fun _ hmember => (nomatch hmember)⟩, fun hboth => hboth.1⟩
  | cons first rest induction =>
      refine (induction (hgraph.cleared first)).trans ?_
      rw [hgraph.mem_cleared_iff, List.forall_mem_cons, and_assoc]

theorem ends_removeAll (hgraph : graph.WellFormed) {gone : List TaskId} (hnodup : gone.Nodup)
    (hknown : ∀ task ∈ gone, ∃ payload, graph.payload? task = some payload) :
    Ends (gone.forM fun task => discard (removeBlockDeferred task)) graph
      (fun _ left => left = graph.clearedAll gone) (fun _ _ => False) := by
  induction gone generalizing graph with
  | nil => rfl
  | cons first rest induction =>
      obtain ⟨hfirst, hrest⟩ := List.nodup_cons.mp hnodup
      rw [ends_forM_cons, ends_discard]
      refine (ends_removeBlockDeferred hgraph first).mono (fun _ left hleft => ?_)
        (fun _ _ hfailed => ?_)
      · obtain ⟨-, rfl⟩ := hleft
        refine induction (hgraph.cleared first) hrest fun task htask => ?_
        rw [hgraph.payload?_cleared, if_neg]
        · exact hknown task (List.mem_cons_of_mem _ htask)
        · intro hsame
          exact hfirst (hsame ▸ htask)
      · obtain ⟨payload, hpayload⟩ := hknown first List.mem_cons_self
        rw [payload?, hfailed.1] at hpayload
        cases hpayload

end WellFormed

/-! Inserting blocks. -/

def withBlocks (graph : TaskGraph) (blocks : List Block) : TaskGraph :=
  blocks.foldl withBlock graph

theorem edge?_withBlocks (graph : TaskGraph) (blocks : List Block) (id : EdgeId) :
    (graph.withBlocks blocks).edge? id = graph.edge? id := by
  induction blocks generalizing graph with
  | nil => rfl
  | cons first rest induction => exact induction (graph.withBlock first)

theorem block?_withBlocks_of_not_mem {graph : TaskGraph} {blocks : List Block} {task : TaskId}
    (htask : ∀ block ∈ blocks, block.id ≠ task) :
    (graph.withBlocks blocks).block? task = graph.block? task := by
  induction blocks generalizing graph with
  | nil => rfl
  | cons first rest induction =>
      have hfirst : task ≠ first.id := (htask first List.mem_cons_self).symm
      refine (induction fun block hblock => htask block (List.mem_cons_of_mem _ hblock)).trans ?_
      rw [block?_withBlock, if_neg hfirst]

theorem block?_withBlocks_of_mem {graph : TaskGraph} {blocks : List Block}
    (hnodup : (blocks.map Block.id).Nodup) {block : Block} (hblock : block ∈ blocks) :
    (graph.withBlocks blocks).block? block.id = some block := by
  induction blocks generalizing graph with
  | nil => cases hblock
  | cons first rest induction =>
      obtain ⟨hfirst, hrest⟩ := List.nodup_cons.mp hnodup
      rcases List.mem_cons.mp hblock with rfl | hmember
      · have hkept : ((graph.withBlock block).withBlocks rest).block? block.id =
            (graph.withBlock block).block? block.id :=
          block?_withBlocks_of_not_mem fun other hother hsame =>
            hfirst (hsame ▸ List.mem_map_of_mem hother)
        refine hkept.trans ?_
        rw [block?_withBlock, if_pos rfl]
      · exact induction hrest hmember

theorem ids_withBlocks {graph : TaskGraph} {blocks : List Block}
    (hbelow : ∀ block ∈ blocks, block.id.raw < graph.ids.next) :
    (graph.withBlocks blocks).ids = graph.ids := by
  have hobserve : ∀ {raw : Nat}, raw < graph.ids.next → graph.ids.observe raw = graph.ids := by
    intro raw hraw
    have hnext : Nat.max graph.ids.next (Nat.min (raw + 1) largestId) = graph.ids.next :=
      Nat.max_eq_left (Nat.le_trans (Nat.min_le_left _ _) hraw)
    rw [IdSource.observe, hnext]
  induction blocks generalizing graph with
  | nil => rfl
  | cons first rest induction =>
      have hfirst : (graph.withBlock first).ids = graph.ids :=
        hobserve (hbelow first List.mem_cons_self)
      refine (@induction (graph.withBlock first) (fun block hblock => ?_) ?_).trans hfirst
      · rw [hfirst]
        exact hbelow block (List.mem_cons_of_mem _ hblock)
      · rw [hfirst]
        exact hobserve

theorem ends_insertAll {graph : TaskGraph} {blocks : List Block}
    (hnodup : (blocks.map Block.id).Nodup)
    (hnew : ∀ block ∈ blocks, ¬graph.usesId block.id.raw = true ∧ block.edgeIds = []) :
    Ends (blocks.forM insertBlockDeferred) graph (fun _ left => left = graph.withBlocks blocks)
      (fun _ _ => False) := by
  induction blocks generalizing graph with
  | nil => rfl
  | cons first rest induction =>
      obtain ⟨hfirst, hrest⟩ := List.nodup_cons.mp hnodup
      obtain ⟨hunused, hbare⟩ := hnew first List.mem_cons_self
      rw [ends_forM_cons]
      refine (ends_insertBlockDeferred graph first).mono (fun _ left hleft => ?_)
        (fun _ _ hfailed => ?_)
      · obtain ⟨-, -, rfl⟩ := hleft
        refine induction hrest fun block hblock => ?_
        obtain ⟨hother, hempty⟩ := hnew block (List.mem_cons_of_mem _ hblock)
        refine ⟨fun huses => hother ?_, hempty⟩
        rw [usesId_iff] at huses ⊢
        refine huses.imp (fun hknown => ?_) id
        obtain ⟨found, hfound⟩ := hknown
        rw [block?_withBlock, if_neg] at hfound
        · exact ⟨found, hfound⟩
        · intro hsame
          exact hfirst (hsame ▸ List.mem_map_of_mem hblock)
      · rcases hfailed.1 with huses | hedges
        · exact hunused huses
        · exact hedges hbare

/-! Connecting. -/

def connectedAll (graph : TaskGraph) (connections : List Connection) : TaskGraph :=
  connections.foldl connected graph

theorem extent?_connected (graph : TaskGraph) (connection : Connection) (side : PortSide)
    (task : TaskId) (index : Nat) :
    (graph.connected connection).extent? side task index = graph.extent? side task index :=
  extent?_withEdge _ _ _ _ _ _

theorem payload?_connectedAll (graph : TaskGraph) (connections : List Connection) (task : TaskId) :
    (graph.connectedAll connections).payload? task = graph.payload? task := by
  induction connections generalizing graph with
  | nil => rfl
  | cons first rest induction =>
      exact (induction (graph.connected first)).trans (payload?_withEdge _ _ _ _)

theorem extent?_connectedAll (graph : TaskGraph) (connections : List Connection) (side : PortSide)
    (task : TaskId) (index : Nat) :
    (graph.connectedAll connections).extent? side task index = graph.extent? side task index := by
  induction connections generalizing graph with
  | nil => rfl
  | cons first rest induction =>
      exact (induction (graph.connected first)).trans (extent?_connected _ _ _ _ _)

theorem ids_connectedAll (graph : TaskGraph) (connections : List Connection) :
    (graph.connectedAll connections).ids.next = graph.ids.next + connections.length := by
  induction connections generalizing graph with
  | nil => rfl
  | cons first rest induction =>
      refine (induction (graph.connected first)).trans ?_
      rw [List.length_cons, Nat.add_comm rest.length 1, ← Nat.add_assoc]
      rfl

theorem edge?_connectedAll (graph : TaskGraph) (connections : List Connection) (id : EdgeId) :
    (graph.connectedAll connections).edge? id =
      if graph.ids.next ≤ id.raw ∧ id.raw < graph.ids.next + connections.length then
        (connections[id.raw - graph.ids.next]?).map (Edge.mk id)
      else graph.edge? id := by
  induction connections generalizing graph with
  | nil => exact (if_neg (by rw [List.length_nil]; omega)).symm
  | cons first rest induction =>
      refine (induction (graph.connected first)).trans ?_
      have hnext : (graph.connected first).ids.next = graph.ids.next + 1 := rfl
      have hedge : (graph.connected first).edge? id =
          if id = ⟨graph.ids.next⟩ then some ⟨⟨graph.ids.next⟩, first⟩ else graph.edge? id :=
        edge?_withEdge _ _ _ _
      rw [hnext, List.length_cons]
      by_cases hfirst : id = ⟨graph.ids.next⟩
      · subst hfirst
        rw [if_neg (by dsimp only; omega), if_pos (by dsimp only; omega), hedge, if_pos rfl,
          Nat.sub_self]
        rfl
      · have hraw : id.raw ≠ graph.ids.next := fun hsame => hfirst (congrArg EdgeId.mk hsame)
        rw [hedge, if_neg hfirst]
        by_cases hrange : graph.ids.next ≤ id.raw ∧ id.raw < graph.ids.next + (rest.length + 1)
        · have hindex : id.raw - graph.ids.next = id.raw - (graph.ids.next + 1) + 1 := by omega
          rw [if_pos (by omega), if_pos hrange, hindex, List.getElem?_cons_succ]
        · rw [if_neg (by omega), if_neg hrange]

theorem ends_connectAll (graph : TaskGraph) (connections : List Connection) :
    Ends (connections.forM fun connection => discard (connectDeferred connection)) graph
      (fun _ left => (∀ connection ∈ connections, left.Joins connection) ∧
        left = graph.connectedAll connections)
      (fun _ left => (∃ connection ∈ connections, ¬left.Joins connection) ∧
        ∀ task, left.payload? task = graph.payload? task) := by
  induction connections generalizing graph with
  | nil => exact ⟨fun _ hmember => (nomatch hmember), rfl⟩
  | cons first rest induction =>
      rw [ends_forM_cons, ends_discard]
      refine (ends_connectDeferred graph first).mono (fun _ left hleft => ?_)
        (fun error left hleft => ?_)
      · obtain ⟨hfirst, -, rfl⟩ := hleft
        refine (induction (graph.connected first)).mono (fun _ left hleft => ?_)
          (fun _ left hleft => ?_)
        · obtain ⟨hrest, rfl⟩ := hleft
          refine ⟨fun connection hmember => ?_, rfl⟩
          rcases List.mem_cons.mp hmember with rfl | hlater
          · exact (joins_congr (extent?_connectedAll graph (connection :: rest))).mpr hfirst
          · exact hrest connection hlater
        · obtain ⟨⟨connection, hmember, hrefused⟩, hpayload⟩ := hleft
          refine ⟨⟨connection, List.mem_cons_of_mem _ hmember, hrefused⟩, fun task => ?_⟩
          exact (hpayload task).trans (payload?_withEdge _ _ _ _)
      · obtain ⟨hrefused, rfl⟩ := hleft
        refine ⟨⟨first, List.mem_cons_self, fun hjoined => ?_⟩, fun _ => rfl⟩
        rw [checkConnection_eq_ok_iff.mpr hjoined] at hrefused
        cases hrefused

/-! The whole. -/

/-- The graph once the blocks of a plan have taken the place of others. -/
def staged (graph : TaskGraph) (gone : List TaskId) (plan : SplitPlan) : TaskGraph :=
  (graph.clearedAll gone).withBlocks plan.blocks

theorem usesId_clearedAll {graph : TaskGraph} (hgraph : graph.WellFormed) {gone : List TaskId}
    {raw : Nat} (huses : (graph.clearedAll gone).usesId raw = true) : graph.usesId raw = true := by
  rw [usesId_iff] at huses ⊢
  refine huses.imp (fun hblock => ?_) (fun hedge => ?_)
  · obtain ⟨block, hblock⟩ := hblock
    have hpayload := hgraph.payload?_clearedAll gone ⟨raw⟩
    rw [payload?, hblock] at hpayload
    split at hpayload
    case isTrue => cases hpayload
    case isFalse =>
      obtain ⟨found, hfound, -⟩ := payload?_eq_some_iff.mp hpayload.symm
      exact ⟨found, hfound⟩
  · obtain ⟨edge, hedge⟩ := hedge
    obtain hid := (hgraph.clearedAll gone).edge_id hedge
    rw [← hid] at hedge ⊢
    exact ⟨edge, (hgraph.mem_clearedAll_iff.mp hedge).1⟩

/-- Carrying out a plan fails only for a connection that is refused. -/
theorem ends_commit {graph : TaskGraph} (hgraph : graph.WellFormed) {task : TaskId}
    {operands : List TaskId} {plan : SplitPlan} (hnodup : (operands ++ [task]).Nodup)
    (hknown : ∀ other ∈ operands ++ [task], ∃ payload, graph.payload? other = some payload)
    (hblocks : (plan.blocks.map Block.id).Nodup)
    (hnew : ∀ block ∈ plan.blocks, ¬graph.usesId block.id.raw = true ∧ block.edgeIds = []) :
    Ends (commit task operands plan) graph
      (fun _ left => (∀ connection ∈ plan.edges, left.Joins connection) ∧
        left = (graph.staged (operands ++ [task]) plan).connectedAll plan.edges)
      (fun _ left => (∃ connection ∈ plan.edges, ¬left.Joins connection) ∧
        ∀ other, left.payload? other =
          (graph.staged (operands ++ [task]) plan).payload? other) := by
  obtain ⟨hoperands, -, hapart⟩ := List.nodup_append.mp hnodup
  unfold commit
  rw [ends_bind]
  refine (hgraph.ends_removeAll hoperands fun other hother =>
    hknown other (List.mem_append_left _ hother)).mono (fun _ left hleft => ?_)
    (fun _ _ hfailed => hfailed.elim)
  subst hleft
  have hcleared := hgraph.clearedAll operands
  rw [ends_bind, ends_discard]
  refine (ends_removeBlockDeferred hcleared task).mono (fun _ left hleft => ?_)
    (fun _ _ hfailed => ?_)
  · obtain ⟨-, rfl⟩ := hleft
    have hboth : ((graph.clearedAll operands).cleared task) =
        graph.clearedAll (operands ++ [task]) := by
      rw [clearedAll, clearedAll, List.foldl_append]
      rfl
    rw [hboth, ends_bind]
    have hinsert := @ends_insertAll (graph.clearedAll (operands ++ [task])) plan.blocks hblocks
      (fun block hblock => ⟨fun huses => (hnew block hblock).1 (usesId_clearedAll hgraph huses),
        (hnew block hblock).2⟩)
    refine hinsert.mono (fun _ left hleft => ?_) (fun _ _ hfailed => hfailed.elim)
    subst hleft
    exact ends_connectAll _ _
  · obtain ⟨payload, hpayload⟩ := hknown task (List.mem_append_right _ (List.mem_singleton_self _))
    have hgone := hgraph.payload?_clearedAll operands task
    rw [if_neg fun hmember => hapart task hmember task (List.mem_singleton_self _) rfl, hpayload,
      payload?, hfailed.1] at hgone
    cases hgone

/-- The blocks of a plan stand in the place of others. -/
structure Replaced (graph : TaskGraph) (gone : List TaskId) (plan : SplitPlan)
    (left : TaskGraph) : Prop where
  wellFormed : left.WellFormed
  made : ∀ block ∈ plan.blocks, left.payload? block.id = some block.payload
  others : ∀ task, (∀ block ∈ plan.blocks, block.id ≠ task) →
    left.payload? task = if task ∈ gone then none else graph.payload? task

theorem replaced_of_staged {graph left : TaskGraph} (hgraph : graph.WellFormed)
    {gone : List TaskId} {plan : SplitPlan} (hblocks : (plan.blocks.map Block.id).Nodup)
    (hwellFormed : left.WellFormed)
    (hleft : ∀ task, left.payload? task = (graph.staged gone plan).payload? task) :
    graph.Replaced gone plan left := by
  refine ⟨hwellFormed, fun block hblock => ?_, fun task htask => ?_⟩
  · rw [hleft, payload?, staged, block?_withBlocks_of_mem hblocks hblock, Option.map_some]
  · rw [hleft, payload?, staged, block?_withBlocks_of_not_mem htask]
    exact hgraph.payload?_clearedAll gone task

/-- All connections of a plan, numbered from `first` on, have been made as well. -/
structure Committed (graph : TaskGraph) (gone : List TaskId) (plan : SplitPlan) (first : Nat)
    (left : TaskGraph) : Prop extends Replaced graph gone plan left where
  next : left.ids.next = first + plan.edges.length
  joins : ∀ connection ∈ plan.edges, left.Joins connection
  edge : ∀ edge : Edge, left.edge? edge.id = some edge ↔
    if first ≤ edge.id.raw ∧ edge.id.raw < first + plan.edges.length then
      plan.edges[edge.id.raw - first]? = some edge.connection
    else graph.edge? edge.id = some edge ∧ ∀ task ∈ gone, ¬edge.Meets task

theorem Replaced.regrouped {graph left : TaskGraph} {gone : List TaskId} {plan : SplitPlan}
    (hleft : graph.Replaced gone plan left) : graph.Replaced gone plan left.regrouped :=
  ⟨hleft.wellFormed.regrouped, hleft.made, hleft.others⟩

theorem Committed.regrouped {graph left : TaskGraph} {gone : List TaskId} {plan : SplitPlan}
    {first : Nat} (hleft : graph.Committed gone plan first left) :
    graph.Committed gone plan first left.regrouped :=
  ⟨hleft.toReplaced.regrouped, hleft.next,
    fun connection hmember => joins_regrouped.mpr (hleft.joins connection hmember), hleft.edge⟩

theorem committed_of_staged {graph left : TaskGraph} (hgraph : graph.WellFormed)
    {gone : List TaskId} {plan : SplitPlan} (hblocks : (plan.blocks.map Block.id).Nodup)
    (hbelow : ∀ block ∈ plan.blocks, block.id.raw < graph.ids.next)
    (hwellFormed : left.WellFormed) (hjoins : ∀ connection ∈ plan.edges, left.Joins connection)
    (hleft : left = (graph.staged gone plan).connectedAll plan.edges) :
    graph.Committed gone plan graph.ids.next left := by
  have hids : (graph.staged gone plan).ids.next = graph.ids.next := by
    have hcleared := ids_clearedAll graph gone
    rw [staged, ids_withBlocks fun block hblock => ?_, hcleared]
    rw [hcleared]
    exact hbelow block hblock
  have hreplaced : graph.Replaced gone plan left := by
    refine replaced_of_staged hgraph hblocks hwellFormed fun task => ?_
    rw [hleft]
    exact payload?_connectedAll _ _ _
  refine { hreplaced with next := ?_, joins := hjoins, edge := fun edge => ?_ }
  · rw [hleft, ids_connectedAll, hids]
  · rw [hleft, edge?_connectedAll, hids]
    split
    case isTrue =>
      rw [Option.map_eq_some_iff]
      constructor
      · intro hfound
        obtain ⟨connection, hconnection, hequal⟩ := hfound
        rw [hconnection, ← hequal]
      · exact fun hfound => ⟨edge.connection, hfound, rfl⟩
    case isFalse =>
      rw [staged, edge?_withBlocks]
      exact hgraph.mem_clearedAll_iff

end TaskGraph

end TiledPlacement

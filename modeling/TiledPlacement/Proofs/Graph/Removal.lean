import TiledPlacement.Proofs.Graph.WellFormed

/-!
Taking a block away with every edge attached to it. Of a well-formed graph, exactly the edges that
meet the block go with it.
-/

namespace TiledPlacement

namespace Edge

def Meets (edge : Edge) (task : TaskId) : Prop := edge.src.task = task ∨ edge.dst.task = task

instance (edge : Edge) (task : TaskId) : Decidable (edge.Meets task) :=
  inferInstanceAs (Decidable (_ ∨ _))

theorem meets_iff {edge : Edge} {task : TaskId} :
    edge.Meets task ↔ ∃ side, (edge.endAt side).task = task := by
  constructor
  · rintro (hsrc | hdst)
    · exact ⟨.output, hsrc⟩
    · exact ⟨.input, hdst⟩
  · rintro ⟨side, hend⟩
    cases side
    · exact Or.inr hend
    · exact Or.inl hend

end Edge

namespace Block

theorem mem_edgeIds_iff {block : Block} {id : EdgeId} :
    id ∈ block.edgeIds ↔
      ∃ (side : PortSide) (index : Nat) (port : Port),
        (block.ports side)[index]? = some port ∧ id ∈ port.edges := by
  simp only [edgeIds, inputEdges, outputEdges, List.mem_append, List.mem_flatMap]
  constructor
  · rintro (⟨port, hport, hmember⟩ | ⟨port, hport, hmember⟩)
    · obtain ⟨index, hindex⟩ := List.mem_iff_getElem?.mp hport
      exact ⟨.input, index, port, hindex, hmember⟩
    · obtain ⟨index, hindex⟩ := List.mem_iff_getElem?.mp hport
      exact ⟨.output, index, port, hindex, hmember⟩
  · rintro ⟨side, index, port, hport, hmember⟩
    cases side
    · exact Or.inl ⟨port, List.mem_of_getElem? hport, hmember⟩
    · exact Or.inr ⟨port, List.mem_of_getElem? hport, hmember⟩

end Block

namespace TaskGraph

/-- The graph without a block and without the edges that the block lists. -/
def cleared (graph : TaskGraph) (task : TaskId) : TaskGraph :=
  match graph.block? task with
  | none => graph
  | some block => (block.edgeIds.foldl withoutEdge graph).withoutBlock task

theorem edge?_foldl_withoutEdge (graph : TaskGraph) (gone : List EdgeId) (id : EdgeId) :
    (gone.foldl withoutEdge graph).edge? id = if id ∈ gone then none else graph.edge? id := by
  induction gone generalizing graph with
  | nil => rw [if_neg List.not_mem_nil, List.foldl_nil]
  | cons first rest induction =>
      rw [List.foldl_cons, induction, edge?_withoutEdge]
      by_cases hrest : id ∈ rest
      · rw [if_pos hrest, if_pos (List.mem_cons_of_mem _ hrest)]
      · simp only [List.mem_cons, hrest, if_false, or_false]

theorem edge?_of_cleared {graph : TaskGraph} {task : TaskId} {id : EdgeId} {edge : Edge}
    (hedge : (graph.cleared task).edge? id = some edge) : graph.edge? id = some edge := by
  unfold cleared at hedge
  cases hblock : graph.block? task with
  | none =>
      rw [hblock] at hedge
      exact hedge
  | some block =>
      rw [hblock] at hedge
      change (block.edgeIds.foldl withoutEdge graph).edge? id = some edge at hedge
      rw [edge?_foldl_withoutEdge] at hedge
      split at hedge
      case isTrue => cases hedge
      case isFalse => exact hedge

theorem ids_foldl_withoutEdge (graph : TaskGraph) (gone : List EdgeId) :
    (gone.foldl withoutEdge graph).ids = graph.ids := by
  induction gone generalizing graph with
  | nil => rfl
  | cons first rest induction => rw [List.foldl_cons, induction, ids_withoutEdge]

namespace WellFormed

variable {graph : TaskGraph}

theorem foldl_withoutEdge (hgraph : graph.WellFormed) (gone : List EdgeId) :
    (gone.foldl TaskGraph.withoutEdge graph).WellFormed := by
  induction gone generalizing graph with
  | nil => exact hgraph
  | cons first rest induction => exact induction (hgraph.withoutEdge first)

theorem payload?_foldl_withoutEdge (hgraph : graph.WellFormed) (gone : List EdgeId)
    (task : TaskId) :
    (gone.foldl TaskGraph.withoutEdge graph).payload? task = graph.payload? task := by
  induction gone generalizing graph with
  | nil => rfl
  | cons first rest induction =>
      rw [List.foldl_cons, induction (hgraph.withoutEdge first)]
      exact payload?_withoutEdge graph first task fun _ => hgraph.edge_id

theorem mem_edgeIds_iff (hgraph : graph.WellFormed) {task : TaskId} {block : Block}
    (hblock : graph.block? task = some block) {id : EdgeId} :
    id ∈ block.edgeIds ↔ ∃ edge, graph.edge? id = some edge ∧ edge.Meets task := by
  rw [Block.mem_edgeIds_iff]
  constructor
  · rintro ⟨side, index, port, hport, hmember⟩
    have hnamed : graph.port? side task index = some port :=
      port?_eq_some_iff.mpr ⟨block, hblock, hport⟩
    obtain ⟨edge, hedge, hnames⟩ := hgraph.listing hnamed hmember
    exact ⟨edge, hedge, Edge.meets_iff.mpr ⟨side, hnames.1⟩⟩
  · rintro ⟨edge, hedge, hmeets⟩
    obtain ⟨side, rfl⟩ := Edge.meets_iff.mp hmeets
    obtain ⟨port, hport, hmember, -⟩ := hgraph.edge_listed hedge side
    obtain ⟨other, hother, hindex⟩ := port?_eq_some_iff.mp hport
    obtain rfl := Option.some.inj (hother.symm.trans hblock)
    exact ⟨side, (edge.endAt side).port, port, hindex, hmember⟩

theorem withoutBlock (hgraph : graph.WellFormed) {task : TaskId}
    (hbare : ∀ id edge, graph.edge? id = some edge → ¬edge.Meets task) :
    (graph.withoutBlock task).WellFormed := by
  have hcases : ∀ {other block}, (graph.withoutBlock task).block? other = some block →
      other ≠ task ∧ graph.block? other = some block := by
    intro other block hblock
    rw [block?_withoutBlock] at hblock
    split at hblock
    case isTrue => cases hblock
    case isFalse hother => exact ⟨hother, hblock⟩
  have hports : ∀ {side other index port},
      (graph.withoutBlock task).port? side other index = some port →
        graph.port? side other index = some port := by
    intro side other index port hport
    obtain ⟨block, hblock, hindex⟩ := port?_eq_some_iff.mp hport
    exact port?_eq_some_iff.mpr ⟨block, (hcases hblock).2, hindex⟩
  constructor
  case block_id => exact fun hblock => hgraph.block_id (hcases hblock).2
  case block_word => exact fun hblock => hgraph.block_word (hcases hblock).2
  case block_covered => exact fun hblock => hgraph.block_covered (hcases hblock).2
  case block_shaped => exact fun hblock => hgraph.block_shaped (hcases hblock).2
  case edge_id => exact hgraph.edge_id
  case edge_word => exact hgraph.edge_word
  case edge_covered => exact hgraph.edge_covered
  case edge_fits => exact hgraph.edge_fits
  case edge_apart => exact hgraph.edge_apart
  case edge_listed =>
    intro id edge hedge side
    obtain ⟨port, hport, hlisted⟩ := hgraph.edge_listed hedge side
    obtain ⟨block, hblock, hindex⟩ := port?_eq_some_iff.mp hport
    have hother : (edge.endAt side).task ≠ task := fun hend =>
      hbare id edge hedge (Edge.meets_iff.mpr ⟨side, hend⟩)
    refine ⟨port, port?_eq_some_iff.mpr ⟨block, ?_, hindex⟩, hlisted⟩
    rw [block?_withoutBlock, if_neg hother]
    exact hblock
  case ids_apart => exact fun hblock hedge => hgraph.ids_apart (hcases hblock).2 hedge
  case listing => exact fun hport hmember => hgraph.listing (hports hport) hmember
  case nodup => exact fun hport => hgraph.nodup (hports hport)

/-- Removing a block takes away the edges that meet it and no others. -/
theorem edge?_cleared (hgraph : graph.WellFormed) {task : TaskId} {block : Block}
    (hblock : graph.block? task = some block) (id : EdgeId) :
    (graph.cleared task).edge? id =
      (graph.edge? id).filter fun edge => decide ¬edge.Meets task := by
  have hgone : id ∈ block.edgeIds ↔ _ := hgraph.mem_edgeIds_iff hblock
  have hcleared : (graph.cleared task).edge? id =
      (block.edgeIds.foldl TaskGraph.withoutEdge graph).edge? id := by
    rw [cleared, hblock]
    rfl
  rw [hcleared, edge?_foldl_withoutEdge]
  cases hedge : graph.edge? id with
  | none => rw [ite_self, Option.filter_none]
  | some edge =>
      simp only [hedge, Option.some.injEq, exists_eq_left'] at hgone
      by_cases hmeets : edge.Meets task
      · rw [if_pos (hgone.mpr hmeets), Option.filter_some, if_neg (by simp [hmeets])]
      · rw [if_neg (mt hgone.mp hmeets), Option.filter_some, if_pos (by simp [hmeets])]

theorem payload?_cleared (hgraph : graph.WellFormed) (task other : TaskId) :
    (graph.cleared task).payload? other = if other = task then none else graph.payload? other := by
  cases hblock : graph.block? task with
  | none =>
      rw [cleared, hblock]
      by_cases hsame : other = task
      · rw [if_pos hsame, hsame, payload?, hblock, Option.map_none]
      · rw [if_neg hsame]
  | some block =>
      rw [cleared, hblock]
      change ((TaskGraph.withoutBlock _ task).block? other).map Block.payload = _
      rw [block?_withoutBlock]
      split
      case isTrue => rfl
      case isFalse => exact hgraph.payload?_foldl_withoutEdge _ other

theorem ids_cleared (graph : TaskGraph) (task : TaskId) : (graph.cleared task).ids = graph.ids := by
  unfold cleared
  split
  case h_1 => rfl
  case h_2 => exact ids_foldl_withoutEdge graph _

theorem cleared (hgraph : graph.WellFormed) (task : TaskId) : (graph.cleared task).WellFormed := by
  cases hblock : graph.block? task with
  | none =>
      rw [TaskGraph.cleared, hblock]
      exact hgraph
  | some block =>
      rw [TaskGraph.cleared, hblock]
      refine (hgraph.foldl_withoutEdge _).withoutBlock fun id edge hedge hmeets => ?_
      rw [edge?_foldl_withoutEdge] at hedge
      split at hedge
      case isTrue => cases hedge
      case isFalse hkept =>
        exact hkept ((hgraph.mem_edgeIds_iff hblock).mpr ⟨edge, hedge, hmeets⟩)

end WellFormed

end TaskGraph

end TiledPlacement

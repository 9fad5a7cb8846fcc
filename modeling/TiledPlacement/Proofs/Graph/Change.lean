import TiledPlacement.Proofs.Graph.Port

/-!
What each elementary change of a graph does to its payloads, ports and edges. Attaching and
detaching edges never changes a payload or the extent of a port.
-/

namespace TiledPlacement

private theorem getElem?_modifyAt (blocks : TaskMap Block) (key task : TaskId)
    (change : Block → Block) :
    (blocks.modify key change)[task]? =
      blocks[task]?.map fun block => if task = key then change block else block := by
  rw [Std.ExtTreeMap.getElem?_modify]
  by_cases hkey : key = task
  · subst hkey
    simp only [Std.ReflCmp.compare_self, if_true]
  · have hother : task ≠ key := fun hequal => hkey hequal.symm
    simp only [Std.LawfulEqCmp.compare_eq_iff_eq, hkey, hother, if_false, Option.map_id']

namespace Block

theorem ports_detach (block : Block) (edge : EdgeId) (side : PortSide) :
    (block.detach edge).ports side = (block.ports side).map (·.detach edge) := by
  cases side <;> rfl

end Block

/-- Nothing but the lists of edges at the ports differs. -/
structure Block.SameFrame (before after : Block) : Prop where
  id : after.id = before.id
  payload : after.payload = before.payload
  shapes : ∀ side, (after.ports side).map Port.shape = (before.ports side).map Port.shape

theorem Block.SameFrame.shaped {before after : Block} (hframe : Block.SameFrame before after)
    (hshaped : before.Shaped) : after.Shaped := by
  refine ⟨?_, fun side => ?_⟩
  · rw [hframe.payload]
    exact hshaped.valid
  · rw [hframe.shapes, hframe.payload]
    exact hshaped.shapes side

@[simp] theorem Port.shape_attach (port : Port) (edge : EdgeId) :
    (port.attach edge).shape = port.shape := by
  unfold Port.attach
  split <;> rfl

theorem Port.mem_attach {port : Port} {edge other : EdgeId} :
    other ∈ (port.attach edge).edges ↔ other ∈ port.edges ∨ other = edge := by
  unfold Port.attach
  split
  case isTrue hmember =>
    refine ⟨Or.inl, fun hor => hor.elim id fun hsame => ?_⟩
    rw [hsame]
    exact hmember
  case isFalse => simp only [List.mem_append, List.mem_singleton]

theorem Port.mem_detach {port : Port} {edge other : EdgeId} :
    other ∈ (port.detach edge).edges ↔ other ∈ port.edges ∧ other ≠ edge := by
  simp only [Port.detach, List.mem_filter, decide_eq_true_eq]

theorem Port.nodup_attach {port : Port} (edge : EdgeId) (hnodup : port.edges.Nodup) :
    (port.attach edge).edges.Nodup := by
  unfold Port.attach
  split
  case isTrue => exact hnodup
  case isFalse hnew =>
    refine List.nodup_append.mpr
      ⟨hnodup, List.nodup_cons.mpr ⟨List.not_mem_nil, List.nodup_nil⟩, ?_⟩
    rintro first hfirst last hlast rfl
    rw [List.mem_singleton] at hlast
    exact hnew (hlast ▸ hfirst)

theorem Port.nodup_detach {port : Port} (edge : EdgeId) (hnodup : port.edges.Nodup) :
    (port.detach edge).edges.Nodup :=
  hnodup.filter _

private theorem map_shape_attach (ports : List Port) (index : Nat) (edge : EdgeId) :
    (ports.modify index (·.attach edge)).map Port.shape = ports.map Port.shape := by
  apply List.ext_getElem?
  intro other
  rw [List.getElem?_map, List.getElem?_modify, List.getElem?_map]
  cases ports[other]? with
  | none => rfl
  | some port =>
      simp only [Option.map_eq_map, Option.map_some]
      split
      case isTrue => rw [Port.shape_attach]
      case isFalse => rfl

namespace TaskGraph

theorem edge?_withEdge (graph : TaskGraph) (id other : EdgeId) (connection : Connection) :
    (graph.withEdge id connection).edge? other =
      if other = id then some ⟨id, connection⟩ else graph.edge? other := by
  simp only [edge?, withEdge, Std.ExtTreeMap.getElem?_insert, Std.LawfulEqCmp.compare_eq_iff_eq,
    @eq_comm _ id other]

/-- A block once an edge is listed at those of its ports that the connection names. -/
private def joined (connection : Connection) (id : EdgeId) (task : TaskId) (block : Block) :
    Block :=
  let sent :=
    if task = connection.src.task then block.attachOutput connection.src.port id else block
  if task = connection.dst.task then sent.attachInput connection.dst.port id else sent

private theorem block?_withEdge (graph : TaskGraph) (id : EdgeId) (connection : Connection)
    (task : TaskId) :
    (graph.withEdge id connection).block? task =
      (graph.block? task).map (joined connection id task) := by
  simp only [block?, withEdge, getElem?_modifyAt, Option.map_map]
  rfl

private theorem ports_joined (connection : Connection) (id : EdgeId) (task : TaskId)
    (block : Block) (side : PortSide) :
    (joined connection id task block).ports side =
      if (connection.endAt side).task = task then
        (block.ports side).modify (connection.endAt side).port (·.attach id)
      else block.ports side := by
  simp only [@eq_comm _ _ task, joined]
  cases side <;> split <;> split <;> simp_all [Connection.endAt, Block.ports, Block.attachInput,
    Block.attachOutput]

theorem port?_withEdge (graph : TaskGraph) (id : EdgeId) (connection : Connection)
    (side : PortSide) (task : TaskId) (index : Nat) :
    (graph.withEdge id connection).port? side task index =
      (graph.port? side task index).map fun port =>
        if (connection.endAt side).Names task index then port.attach id else port := by
  rw [port?, block?_withEdge, port?]
  cases graph.block? task with
  | none => rfl
  | some block =>
      simp only [Option.map_some, Option.bind_some, ports_joined, Endpoint.Names]
      by_cases htask : (connection.endAt side).task = task
      · simp only [htask, if_true, List.getElem?_modify, true_and]
        rfl
      · simp only [htask, if_false, false_and, Option.map_id']

theorem sameFrame_withEdge {graph : TaskGraph} {id : EdgeId} {connection : Connection}
    {task : TaskId} {block : Block}
    (hblock : (graph.withEdge id connection).block? task = some block) :
    ∃ before, graph.block? task = some before ∧ Block.SameFrame before block := by
  rw [block?_withEdge] at hblock
  obtain ⟨before, hbefore, rfl⟩ := Option.map_eq_some_iff.mp hblock
  refine ⟨before, hbefore, ?_, ?_, fun side => ?_⟩
  · simp only [joined]
    split <;> split <;> rfl
  · simp only [joined]
    split <;> split <;> rfl
  · rw [ports_joined]
    split
    case isTrue => exact map_shape_attach _ _ _
    case isFalse => rfl

theorem extent?_withEdge (graph : TaskGraph) (id : EdgeId) (connection : Connection)
    (side : PortSide) (task : TaskId) (index : Nat) :
    (graph.withEdge id connection).extent? side task index = graph.extent? side task index := by
  rw [extent?, port?_withEdge, Option.map_map, extent?]
  congr 1
  funext port
  simp only [Function.comp]
  split
  case isTrue => exact Port.shape_attach port id
  case isFalse => rfl

theorem payload?_withEdge (graph : TaskGraph) (id : EdgeId) (connection : Connection)
    (task : TaskId) : (graph.withEdge id connection).payload? task = graph.payload? task := by
  rw [payload?, block?_withEdge, Option.map_map, payload?]
  congr 1
  funext block
  simp only [Function.comp, joined]
  split <;> split <;> rfl

/-! Taking an edge away. -/

theorem withoutEdge_of_unknown {graph : TaskGraph} {id : EdgeId}
    (hunknown : graph.edge? id = none) :
    graph.withoutEdge id = graph := by
  simp only [withoutEdge, hunknown]

theorem edge?_withoutEdge (graph : TaskGraph) (id other : EdgeId) :
    (graph.withoutEdge id).edge? other = if other = id then none else graph.edge? other := by
  unfold withoutEdge
  split
  case h_1 hunknown =>
    by_cases hother : other = id
    · rw [if_pos hother, hother, hunknown]
    · rw [if_neg hother]
  case h_2 =>
    simp only [edge?, Std.ExtTreeMap.getElem?_erase, Std.LawfulEqCmp.compare_eq_iff_eq,
      @eq_comm _ id other]

theorem ids_withoutEdge (graph : TaskGraph) (id : EdgeId) :
    (graph.withoutEdge id).ids = graph.ids := by
  unfold withoutEdge
  split <;> rfl

private def parted (edge : Edge) (task : TaskId) (block : Block) : Block :=
  let sent := if task = edge.src.task then block.detach edge.id else block
  if task = edge.dst.task then sent.detach edge.id else sent

private theorem block?_withoutEdge {graph : TaskGraph} {edge : Edge}
    (hedge : graph.edge? edge.id = some edge) (task : TaskId) :
    (graph.withoutEdge edge.id).block? task =
      (graph.block? task).map (parted edge task) := by
  simp only [withoutEdge, hedge, block?, getElem?_modifyAt, Option.map_map]
  rfl

private theorem ports_parted (edge : Edge) (task : TaskId) (block : Block) (side : PortSide) :
    (parted edge task block).ports side =
      if task = edge.src.task ∨ task = edge.dst.task then
        (block.ports side).map (·.detach edge.id)
      else block.ports side := by
  have htwice : ((block.detach edge.id).detach edge.id).ports side =
      (block.ports side).map (·.detach edge.id) := by
    rw [Block.ports_detach, Block.ports_detach, List.map_map]
    congr 1
    funext port
    simp only [Function.comp, Port.detach, List.filter_filter, Bool.and_self]
  unfold parted
  by_cases hsrc : task = edge.src.task
  · rw [if_pos hsrc, if_pos (Or.inl hsrc)]
    split
    case isTrue => exact htwice
    case isFalse => exact Block.ports_detach block edge.id side
  · rw [if_neg hsrc]
    by_cases hdst : task = edge.dst.task
    · rw [if_pos hdst, if_pos (Or.inr hdst), Block.ports_detach]
    · rw [if_neg hdst, if_neg (not_or.mpr ⟨hsrc, hdst⟩)]

theorem sameFrame_withoutEdge {graph : TaskGraph} {edge : Edge}
    (hedge : graph.edge? edge.id = some edge) {task : TaskId} {block : Block}
    (hblock : (graph.withoutEdge edge.id).block? task = some block) :
    ∃ before, graph.block? task = some before ∧ Block.SameFrame before block := by
  rw [block?_withoutEdge hedge] at hblock
  obtain ⟨before, hbefore, rfl⟩ := Option.map_eq_some_iff.mp hblock
  refine ⟨before, hbefore, ?_, ?_, fun side => ?_⟩
  · simp only [parted]
    split <;> split <;> rfl
  · simp only [parted]
    split <;> split <;> rfl
  · rw [ports_parted]
    split
    case isTrue =>
      rw [List.map_map]
      rfl
    case isFalse => rfl

theorem port?_withoutEdge {graph : TaskGraph} {edge : Edge}
    (hedge : graph.edge? edge.id = some edge) (side : PortSide) (task : TaskId) (index : Nat) :
    (graph.withoutEdge edge.id).port? side task index =
      (graph.port? side task index).map fun port =>
        if task = edge.src.task ∨ task = edge.dst.task then port.detach edge.id else port := by
  rw [port?, block?_withoutEdge hedge, port?]
  cases graph.block? task with
  | none => rfl
  | some block =>
      simp only [Option.map_some, Option.bind_some, ports_parted]
      split
      case isTrue => rw [List.getElem?_map]
      case isFalse => rw [Option.map_id']

theorem payload?_withoutEdge (graph : TaskGraph) (id : EdgeId) (task : TaskId)
    (hid : ∀ edge, graph.edge? id = some edge → edge.id = id) :
    (graph.withoutEdge id).payload? task = graph.payload? task := by
  cases hedge : graph.edge? id with
  | none => rw [withoutEdge_of_unknown hedge]
  | some edge =>
      obtain rfl := hid edge hedge
      rw [payload?, block?_withoutEdge hedge, Option.map_map, payload?]
      congr 1
      funext block
      simp only [Function.comp, parted]
      split <;> split <;> rfl

/-! Inserting and erasing a block. -/

/-- The graph with a further block, the source of ids kept ahead of it. -/
def withBlock (graph : TaskGraph) (block : Block) : TaskGraph :=
  { graph with
    blocks := graph.blocks.insert block.id block
    ids := graph.ids.observe block.id.raw }

def withoutBlock (graph : TaskGraph) (task : TaskId) : TaskGraph :=
  { graph with blocks := graph.blocks.erase task }

theorem block?_withBlock (graph : TaskGraph) (block : Block) (task : TaskId) :
    (graph.withBlock block).block? task =
      if task = block.id then some block else graph.block? task := by
  simp only [block?, withBlock, Std.ExtTreeMap.getElem?_insert,
    Std.LawfulEqCmp.compare_eq_iff_eq, @eq_comm _ block.id task]

theorem block?_withoutBlock (graph : TaskGraph) (removed task : TaskId) :
    (graph.withoutBlock removed).block? task =
      if task = removed then none else graph.block? task := by
  simp only [block?, withoutBlock, Std.ExtTreeMap.getElem?_erase,
    Std.LawfulEqCmp.compare_eq_iff_eq, @eq_comm _ removed task]

end TaskGraph

end TiledPlacement

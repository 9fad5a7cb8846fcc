import TiledPlacement.Proofs.Graph.Change

/-!
Well-formed graphs: ids are unique and known to the source of ids, blocks have the ports that their
payload asks for, and an edge is listed, once, by exactly the two ports that it names. Every
elementary change keeps a graph well formed.
-/

namespace TiledPlacement

/-- The id will not be handed out again, as long as there are ids left. -/
def IdSource.Covers (source : IdSource) (raw : Nat) : Prop :=
  raw < source.next ∨ largestId ≤ source.next

namespace IdSource

theorem Covers.mono {source later : IdSource} {raw : Nat} (hcovers : source.Covers raw)
    (hlater : source.next ≤ later.next) : later.Covers raw := by
  rcases hcovers with hbelow | hspent
  · exact Or.inl (Nat.lt_of_lt_of_le hbelow hlater)
  · exact Or.inr (Nat.le_trans hspent hlater)

theorem next_le_observe (source : IdSource) (raw : Nat) :
    source.next ≤ (source.observe raw).next :=
  Nat.le_max_left _ _

theorem covers_observe {source : IdSource} {raw : Nat} (hword : raw ≤ largestId) :
    (source.observe raw).Covers raw := by
  have hobserved : min (raw + 1) largestId ≤ (source.observe raw).next := Nat.le_max_right _ _
  unfold Covers
  omega

theorem covers_foldl_observe {source : IdSource} {numbers : List Nat} {raw : Nat}
    (hword : raw ≤ largestId) (hraw : raw ∈ numbers) :
    (numbers.foldl observe source).Covers raw := by
  have hgrows : ∀ (rest : List Nat) (start : IdSource),
      start.next ≤ (rest.foldl observe start).next := by
    intro rest
    induction rest with
    | nil => exact fun start => Nat.le_refl _
    | cons first rest induction =>
        exact fun start => Nat.le_trans (next_le_observe start first) (induction _)
  induction numbers generalizing source with
  | nil => cases hraw
  | cons first rest induction =>
      rcases List.mem_cons.mp hraw with rfl | hrest
      · exact (covers_observe hword).mono (hgrows rest _)
      · exact induction hrest

end IdSource

namespace TaskGraph

/-- The port that an end of an edge names lists the edge and has room for its window. -/
def Lists (graph : TaskGraph) (id : EdgeId) (side : PortSide) (point : Endpoint) : Prop :=
  ∃ port, graph.port? side point.task point.port = some port ∧ id ∈ port.edges ∧
    point.window.within port.shape = true

structure WellFormed (graph : TaskGraph) : Prop where
  block_id : ∀ {task block}, graph.block? task = some block → block.id = task
  block_word : ∀ {task block}, graph.block? task = some block → task.raw ≤ largestId
  block_covered : ∀ {task block}, graph.block? task = some block → graph.ids.Covers task.raw
  block_shaped : ∀ {task block}, graph.block? task = some block → block.Shaped
  edge_id : ∀ {id edge}, graph.edge? id = some edge → edge.id = id
  edge_word : ∀ {id edge}, graph.edge? id = some edge → id.raw ≤ largestId
  edge_covered : ∀ {id edge}, graph.edge? id = some edge → graph.ids.Covers id.raw
  edge_fits : ∀ {id edge}, graph.edge? id = some edge → edge.connection.Fits
  edge_apart : ∀ {id edge}, graph.edge? id = some edge → edge.src.task ≠ edge.dst.task
  edge_listed : ∀ {id edge}, graph.edge? id = some edge → ∀ side,
    graph.Lists id side (edge.endAt side)
  ids_apart : ∀ {raw block edge}, graph.block? ⟨raw⟩ = some block →
    graph.edge? ⟨raw⟩ = some edge → False
  listing : ∀ {side task index port id}, graph.port? side task index = some port →
    id ∈ port.edges → ∃ edge, graph.edge? id = some edge ∧ (edge.endAt side).Names task index
  nodup : ∀ {side task index port}, graph.port? side task index = some port → port.edges.Nodup

theorem wellFormed_empty (first : Nat) : (TaskGraph.empty first).WellFormed := by
  have hblock : ∀ {task block}, ¬(TaskGraph.empty first).block? task = some block := by
    intro task block hsome
    rw [block?, TaskGraph.empty, Std.ExtTreeMap.getElem?_empty] at hsome
    cases hsome
  have hedge : ∀ {id edge}, ¬(TaskGraph.empty first).edge? id = some edge := by
    intro id edge hsome
    rw [edge?, TaskGraph.empty, Std.ExtTreeMap.getElem?_empty] at hsome
    cases hsome
  have hport : ∀ {side task index port},
      ¬(TaskGraph.empty first).port? side task index = some port := by
    intro side task index port hsome
    obtain ⟨block, hknown, -⟩ := port?_eq_some_iff.mp hsome
    exact hblock hknown
  constructor
  case ids_apart => exact fun hsome => absurd hsome hblock
  case listing => exact fun hsome => absurd hsome hport
  case nodup => exact fun hsome => absurd hsome hport
  case block_id => exact fun hsome => absurd hsome hblock
  case block_word => exact fun hsome => absurd hsome hblock
  case block_covered => exact fun hsome => absurd hsome hblock
  case block_shaped => exact fun hsome => absurd hsome hblock
  all_goals exact fun hsome => absurd hsome hedge

theorem usesId_iff {graph : TaskGraph} {raw : Nat} :
    graph.usesId raw = true ↔
      (∃ block, graph.block? ⟨raw⟩ = some block) ∨ ∃ edge, graph.edge? ⟨raw⟩ = some edge := by
  simp only [usesId, hasBlock, Bool.or_eq_true, Std.ExtTreeMap.contains_eq_isSome_getElem?,
    Option.isSome_iff_exists]
  exact Iff.rfl

theorem unused_block {graph : TaskGraph} {raw : Nat} (hunused : ¬graph.usesId raw = true) :
    graph.block? ⟨raw⟩ = none :=
  Option.eq_none_iff_forall_not_mem.mpr fun block hblock =>
    hunused (usesId_iff.mpr (Or.inl ⟨block, hblock⟩))

theorem unused_edge {graph : TaskGraph} {raw : Nat} (hunused : ¬graph.usesId raw = true) :
    graph.edge? ⟨raw⟩ = none :=
  Option.eq_none_iff_forall_not_mem.mpr fun edge hedge =>
    hunused (usesId_iff.mpr (Or.inr ⟨edge, hedge⟩))

/-- What a new edge asks of the graph: two blocks, and at the ports it names room for its windows,
which may be joined. -/
structure Joins (graph : TaskGraph) (connection : Connection) : Prop where
  apart : connection.src.task ≠ connection.dst.task
  room : ∀ side, ∃ extent,
    graph.extent? side (connection.endAt side).task (connection.endAt side).port = some extent ∧
      (connection.endAt side).window.within extent = true
  fits : connection.Fits

theorem joins_regrouped {graph : TaskGraph} {connection : Connection} :
    graph.regrouped.Joins connection ↔ graph.Joins connection :=
  ⟨fun hjoins => ⟨hjoins.apart, hjoins.room, hjoins.fits⟩,
    fun hjoins => ⟨hjoins.apart, hjoins.room, hjoins.fits⟩⟩

namespace WellFormed

variable {graph : TaskGraph}

theorem withIds (hgraph : graph.WellFormed) {ids : IdSource}
    (hcovers : ∀ raw, graph.usesId raw = true → raw ≤ largestId → graph.ids.Covers raw →
      ids.Covers raw) :
    WellFormed { graph with ids } :=
  { hgraph with
    block_covered := fun hblock => hcovers _ (usesId_iff.mpr (Or.inl ⟨_, hblock⟩))
      (hgraph.block_word hblock) (hgraph.block_covered hblock)
    edge_covered := fun hedge => hcovers _ (usesId_iff.mpr (Or.inr ⟨_, hedge⟩))
      (hgraph.edge_word hedge) (hgraph.edge_covered hedge) }

theorem extent?_eq (hgraph : graph.WellFormed) (side : PortSide) (task : TaskId) (index : Nat) :
    graph.extent? side task index =
      (graph.payload? task).bind fun payload => (payload.shapes side)[index]? := by
  rw [extent?, port?, payload?]
  cases hblock : graph.block? task with
  | none => rfl
  | some block =>
      rw [Option.bind_some, Option.map_some, Option.bind_some,
        ← (hgraph.block_shaped hblock).shapes side, List.getElem?_map]

theorem window_within (hgraph : graph.WellFormed) {edge : Edge}
    (hedge : graph.edge? edge.id = some edge) (side : PortSide) :
    ∃ extent, graph.extent? side (edge.endAt side).task (edge.endAt side).port = some extent ∧
      (edge.endAt side).window.within extent = true := by
  obtain ⟨port, hport, -, hwithin⟩ := hgraph.edge_listed hedge side
  exact ⟨port.shape, Option.map_eq_some_iff.mpr ⟨port, hport, rfl⟩, hwithin⟩

theorem extent?_storage (hgraph : graph.WellFormed) {side : PortSide} {task : TaskId} {index : Nat}
    {storage : Storage} (hpayload : graph.payload? task = some (.storage storage))
    {extent : Shape} (hextent : graph.extent? side task index = some extent) :
    extent = storage.shape := by
  rw [hgraph.extent?_eq, hpayload, Option.bind_some] at hextent
  have hmember := List.mem_of_getElem? hextent
  cases side <;> exact List.eq_of_mem_replicate hmember

theorem withLaterIds (hgraph : graph.WellFormed) {ids : IdSource}
    (hlater : graph.ids.next ≤ ids.next) : WellFormed { graph with ids } :=
  hgraph.withIds fun _ _ _ hcovers => hcovers.mono hlater

theorem unused_of_next_le (hgraph : graph.WellFormed) {raw : Nat} (hnext : graph.ids.next ≤ raw)
    (hfree : graph.ids.next < largestId) : ¬graph.usesId raw = true := by
  intro huses
  have hcovers : graph.ids.Covers raw := by
    rcases usesId_iff.mp huses with ⟨block, hblock⟩ | ⟨edge, hedge⟩
    · exact hgraph.block_covered hblock
    · exact hgraph.edge_covered hedge
  rcases hcovers with hbelow | hspent
  · exact absurd hbelow (Nat.not_lt.mpr hnext)
  · exact absurd hfree (Nat.not_lt.mpr hspent)

theorem reseeded (hgraph : graph.WellFormed) : graph.reseeded.WellFormed := by
  refine hgraph.withIds fun raw huses hword _ => ?_
  refine IdSource.covers_foldl_observe hword (List.mem_append.mpr ?_)
  rcases usesId_iff.mp huses with ⟨block, hblock⟩ | ⟨edge, hedge⟩
  · refine Or.inl (List.mem_map.mpr ⟨⟨raw⟩, ?_, rfl⟩)
    rw [taskIds, Std.ExtTreeMap.mem_keys, ← Std.ExtTreeMap.isSome_getElem?_iff_mem]
    exact Option.isSome_of_eq_some hblock
  · refine Or.inr (List.mem_map.mpr ⟨⟨raw⟩, ?_, rfl⟩)
    rw [edgeIds, Std.ExtTreeMap.mem_keys, ← Std.ExtTreeMap.isSome_getElem?_iff_mem]
    exact Option.isSome_of_eq_some hedge

theorem regrouped (hgraph : graph.WellFormed) : graph.regrouped.WellFormed := { hgraph with }

theorem withBlock (hgraph : graph.WellFormed) {block : Block} (hmade : block.Made)
    (hword : block.id.raw ≤ largestId) (hunused : ¬graph.usesId block.id.raw = true) :
    (graph.withBlock block).WellFormed := by
  have hnone : graph.block? block.id = none := unused_block hunused
  have hkept : ∀ {task other}, graph.block? task = some other → task ≠ block.id := by
    rintro task other hother rfl
    rw [hnone] at hother
    cases hother
  have hlater : graph.ids.next ≤ (graph.withBlock block).ids.next :=
    IdSource.next_le_observe _ _
  have hcases : ∀ {task other}, (graph.withBlock block).block? task = some other →
      (task = block.id ∧ other = block) ∨ graph.block? task = some other := by
    intro task other hother
    rw [block?_withBlock] at hother
    split at hother
    case isTrue hsame => exact Or.inl ⟨hsame, (Option.some.inj hother).symm⟩
    case isFalse => exact Or.inr hother
  have hports : ∀ {side task index port},
      (graph.withBlock block).port? side task index = some port →
        port.edges = [] ∨ graph.port? side task index = some port := by
    intro side task index port hport
    obtain ⟨other, hother, hlist⟩ := port?_eq_some_iff.mp hport
    rcases hcases hother with ⟨rfl, rfl⟩ | hold
    · exact Or.inl (hmade.unconnected side port (List.mem_of_getElem? hlist))
    · exact Or.inr (port?_eq_some_iff.mpr ⟨other, hold, hlist⟩)
  constructor
  case block_id =>
    intro task other hother
    rcases hcases hother with ⟨rfl, rfl⟩ | hold
    · rfl
    · exact hgraph.block_id hold
  case block_word =>
    intro task other hother
    rcases hcases hother with ⟨rfl, rfl⟩ | hold
    · exact hword
    · exact hgraph.block_word hold
  case block_covered =>
    intro task other hother
    rcases hcases hother with ⟨rfl, rfl⟩ | hold
    · exact IdSource.covers_observe hword
    · exact (hgraph.block_covered hold).mono hlater
  case block_shaped =>
    intro task other hother
    rcases hcases hother with ⟨rfl, rfl⟩ | hold
    · exact hmade.shaped
    · exact hgraph.block_shaped hold
  case edge_covered => exact fun hedge => (hgraph.edge_covered hedge).mono hlater
  case edge_listed =>
    intro id edge hedge side
    obtain ⟨port, hport, hlisted⟩ := hgraph.edge_listed hedge side
    obtain ⟨other, hother, hlist⟩ := port?_eq_some_iff.mp hport
    refine ⟨port, port?_eq_some_iff.mpr ⟨other, ?_, hlist⟩, hlisted⟩
    rw [block?_withBlock, if_neg (hkept hother)]
    exact hother
  case ids_apart =>
    intro raw other edge hother hedge
    rcases hcases hother with ⟨hid, rfl⟩ | hold
    · have hraw : raw = other.id.raw := congrArg TaskId.raw hid
      subst hraw
      have hnot := unused_edge hunused
      rw [show graph.edge? ⟨other.id.raw⟩ = some edge from hedge] at hnot
      cases hnot
    · exact hgraph.ids_apart hold hedge
  case listing =>
    intro side task index port id hport hmember
    rcases hports hport with hempty | hold
    · rw [hempty] at hmember
      cases hmember
    · exact hgraph.listing hold hmember
  case nodup =>
    intro side task index port hport
    rcases hports hport with hempty | hold
    · rw [hempty]
      exact List.nodup_nil
    · exact hgraph.nodup hold
  case edge_id => exact hgraph.edge_id
  case edge_word => exact hgraph.edge_word
  case edge_fits => exact hgraph.edge_fits
  case edge_apart => exact hgraph.edge_apart

/-- A block whose ports list other edges is still what blocks of a well-formed graph are. -/
private theorem of_sameFrame (hgraph : graph.WellFormed) {task : TaskId} {block : Block}
    (hframe : ∃ before, graph.block? task = some before ∧ Block.SameFrame before block) :
    block.id = task ∧ task.raw ≤ largestId ∧ graph.ids.Covers task.raw ∧ block.Shaped := by
  obtain ⟨before, hbefore, hframe⟩ := hframe
  exact ⟨hframe.id.trans (hgraph.block_id hbefore), hgraph.block_word hbefore,
    hgraph.block_covered hbefore, hframe.shaped (hgraph.block_shaped hbefore)⟩

private theorem lists_withEdge {id other : EdgeId} {connection : Connection} {side : PortSide}
    {point : Endpoint} (hlists : graph.Lists other side point) :
    (graph.withEdge id connection).Lists other side point := by
  obtain ⟨port, hport, hlisted, hwithin⟩ := hlists
  rw [Lists, port?_withEdge, hport]
  refine ⟨_, rfl, ?_, ?_⟩
  · dsimp only
    split
    case isTrue => exact Port.mem_attach.mpr (Or.inl hlisted)
    case isFalse => exact hlisted
  · dsimp only
    split
    case isTrue => rwa [Port.shape_attach]
    case isFalse => exact hwithin

private theorem lists_withEdge_self {id : EdgeId} {connection : Connection}
    (hjoins : graph.Joins connection) (side : PortSide) :
    (graph.withEdge id connection).Lists id side (connection.endAt side) := by
  obtain ⟨extent, hextent, hwithin⟩ := hjoins.room side
  obtain ⟨port, hport, rfl⟩ := Option.map_eq_some_iff.mp hextent
  refine ⟨port.attach id, ?_, Port.mem_attach.mpr (Or.inr rfl), ?_⟩
  · rw [port?_withEdge, hport, Option.map_some]
    exact congrArg some (if_pos ⟨rfl, rfl⟩)
  · rw [Port.shape_attach]
    exact hwithin

private theorem listing_withEdge (hgraph : graph.WellFormed) {id other : EdgeId}
    {connection : Connection} (hnone : graph.edge? id = none) {side : PortSide} {task : TaskId}
    {index : Nat} {port : Port}
    (hport : (graph.withEdge id connection).port? side task index = some port)
    (hmember : other ∈ port.edges) :
    ∃ edge, (graph.withEdge id connection).edge? other = some edge ∧
      (edge.endAt side).Names task index := by
  rw [port?_withEdge] at hport
  obtain ⟨before, hbefore, rfl⟩ := Option.map_eq_some_iff.mp hport
  rw [edge?_withEdge]
  by_cases hother : other = id
  · subst hother
    split at hmember
    case isTrue hnames => exact ⟨_, if_pos rfl, hnames⟩
    case isFalse =>
      obtain ⟨edge, hedge, -⟩ := hgraph.listing hbefore hmember
      rw [hnone] at hedge
      cases hedge
  · rw [if_neg hother]
    refine hgraph.listing hbefore ?_
    split at hmember
    case isTrue => exact (Port.mem_attach.mp hmember).resolve_right hother
    case isFalse => exact hmember

/-- A new edge between two ports that can take it. -/
theorem withEdge (hgraph : graph.WellFormed) {id : EdgeId} {connection : Connection}
    (hjoins : graph.Joins connection) (hword : id.raw ≤ largestId)
    (hcovered : graph.ids.Covers id.raw) (hunused : ¬graph.usesId id.raw = true) :
    (graph.withEdge id connection).WellFormed := by
  have hcases : ∀ {other edge}, (graph.withEdge id connection).edge? other = some edge →
      (other = id ∧ edge = ⟨id, connection⟩) ∨ (other ≠ id ∧ graph.edge? other = some edge) := by
    intro other edge hedge
    rw [edge?_withEdge] at hedge
    split at hedge
    case isTrue hsame => exact Or.inl ⟨hsame, (Option.some.inj hedge).symm⟩
    case isFalse hother => exact Or.inr ⟨hother, hedge⟩
  constructor
  case block_id => exact fun hblock => (hgraph.of_sameFrame (sameFrame_withEdge hblock)).1
  case block_word => exact fun hblock => (hgraph.of_sameFrame (sameFrame_withEdge hblock)).2.1
  case block_covered => exact fun hblock => (hgraph.of_sameFrame (sameFrame_withEdge hblock)).2.2.1
  case block_shaped => exact fun hblock => (hgraph.of_sameFrame (sameFrame_withEdge hblock)).2.2.2
  case edge_id =>
    intro other edge hedge
    rcases hcases hedge with ⟨rfl, rfl⟩ | ⟨-, hold⟩
    · rfl
    · exact hgraph.edge_id hold
  case edge_word =>
    intro other edge hedge
    rcases hcases hedge with ⟨rfl, -⟩ | ⟨-, hold⟩
    · exact hword
    · exact hgraph.edge_word hold
  case edge_covered =>
    intro other edge hedge
    rcases hcases hedge with ⟨rfl, -⟩ | ⟨-, hold⟩
    · exact hcovered
    · exact hgraph.edge_covered hold
  case edge_fits =>
    intro other edge hedge
    rcases hcases hedge with ⟨-, rfl⟩ | ⟨-, hold⟩
    · exact hjoins.fits
    · exact hgraph.edge_fits hold
  case edge_apart =>
    intro other edge hedge
    rcases hcases hedge with ⟨-, rfl⟩ | ⟨-, hold⟩
    · exact hjoins.apart
    · exact hgraph.edge_apart hold
  case edge_listed =>
    intro other edge hedge side
    rcases hcases hedge with ⟨rfl, rfl⟩ | ⟨-, hold⟩
    · exact lists_withEdge_self hjoins side
    · exact lists_withEdge (hgraph.edge_listed hold side)
  case ids_apart =>
    intro raw block edge hblock hedge
    obtain ⟨before, hbefore, -⟩ := sameFrame_withEdge hblock
    rcases hcases hedge with ⟨hid, -⟩ | ⟨-, hold⟩
    · obtain rfl : raw = id.raw := congrArg EdgeId.raw hid
      rw [unused_block hunused] at hbefore
      cases hbefore
    · exact hgraph.ids_apart hbefore hold
  case listing => exact hgraph.listing_withEdge (unused_edge hunused)
  case nodup =>
    intro side task index port hport
    rw [port?_withEdge] at hport
    obtain ⟨before, hbefore, rfl⟩ := Option.map_eq_some_iff.mp hport
    have hnodup := hgraph.nodup hbefore
    split
    case isTrue => exact Port.nodup_attach id hnodup
    case isFalse => exact hnodup

private theorem lists_withoutEdge {gone : Edge} (hfound : graph.edge? gone.id = some gone)
    {other : EdgeId} (hother : other ≠ gone.id) {side : PortSide} {point : Endpoint}
    (hlists : graph.Lists other side point) :
    (graph.withoutEdge gone.id).Lists other side point := by
  obtain ⟨port, hport, hlisted, hwithin⟩ := hlists
  rw [Lists, port?_withoutEdge hfound, hport]
  refine ⟨_, rfl, ?_, ?_⟩
  · dsimp only
    split
    case isTrue => exact Port.mem_detach.mpr ⟨hlisted, hother⟩
    case isFalse => exact hlisted
  · dsimp only
    split
    case isTrue => exact hwithin
    case isFalse => exact hwithin

private theorem listing_withoutEdge (hgraph : graph.WellFormed) {gone : Edge}
    (hfound : graph.edge? gone.id = some gone) {other : EdgeId} {side : PortSide} {task : TaskId}
    {index : Nat} {port : Port}
    (hport : (graph.withoutEdge gone.id).port? side task index = some port)
    (hmember : other ∈ port.edges) :
    ∃ edge, (graph.withoutEdge gone.id).edge? other = some edge ∧
      (edge.endAt side).Names task index := by
  rw [port?_withoutEdge hfound] at hport
  obtain ⟨before, hbefore, rfl⟩ := Option.map_eq_some_iff.mp hport
  have hlisted : other ∈ before.edges := by
    split at hmember
    case isTrue => exact (Port.mem_detach.mp hmember).1
    case isFalse => exact hmember
  obtain ⟨edge, hedge, hnames⟩ := hgraph.listing hbefore hlisted
  -- The edge that went is listed only at its two ends, which do not list it any more.
  have hother : other ≠ gone.id := by
    rintro rfl
    obtain rfl := Option.some.inj (hedge.symm.trans hfound)
    have hend : task = edge.src.task ∨ task = edge.dst.task := by
      cases side
      · exact Or.inr hnames.1.symm
      · exact Or.inl hnames.1.symm
    rw [if_pos hend] at hmember
    exact (Port.mem_detach.mp hmember).2 rfl
  refine ⟨edge, ?_, hnames⟩
  rw [edge?_withoutEdge, if_neg hother]
  exact hedge

/-- An edge taken away from both of its ports. -/
theorem withoutEdge (hgraph : graph.WellFormed) (id : EdgeId) :
    (graph.withoutEdge id).WellFormed := by
  cases hfound : graph.edge? id with
  | none =>
      rw [withoutEdge_of_unknown hfound]
      exact hgraph
  | some gone =>
      obtain rfl := hgraph.edge_id hfound
      have hcases : ∀ {other edge}, (graph.withoutEdge gone.id).edge? other = some edge →
          other ≠ gone.id ∧ graph.edge? other = some edge := by
        intro other edge hedge
        rw [edge?_withoutEdge] at hedge
        split at hedge
        case isTrue => cases hedge
        case isFalse hother => exact ⟨hother, hedge⟩
      constructor
      case block_id =>
        exact fun hblock => (hgraph.of_sameFrame (sameFrame_withoutEdge hfound hblock)).1
      case block_word =>
        exact fun hblock => (hgraph.of_sameFrame (sameFrame_withoutEdge hfound hblock)).2.1
      case block_covered =>
        rw [ids_withoutEdge]
        exact fun hblock => (hgraph.of_sameFrame (sameFrame_withoutEdge hfound hblock)).2.2.1
      case block_shaped =>
        exact fun hblock => (hgraph.of_sameFrame (sameFrame_withoutEdge hfound hblock)).2.2.2
      case edge_covered =>
        intro other edge hedge
        rw [ids_withoutEdge]
        exact hgraph.edge_covered (hcases hedge).2
      case edge_listed =>
        intro other edge hedge side
        obtain ⟨hother, hold⟩ := hcases hedge
        exact lists_withoutEdge hfound hother (hgraph.edge_listed hold side)
      case ids_apart =>
        intro raw block edge hblock hedge
        obtain ⟨before, hbefore, -⟩ := sameFrame_withoutEdge hfound hblock
        exact hgraph.ids_apart hbefore (hcases hedge).2
      case listing => exact hgraph.listing_withoutEdge hfound
      case nodup =>
        intro side task index port hport
        rw [port?_withoutEdge hfound] at hport
        obtain ⟨before, hbefore, rfl⟩ := Option.map_eq_some_iff.mp hport
        have hnodup := hgraph.nodup hbefore
        split
        case isTrue => exact Port.nodup_detach gone.id hnodup
        case isFalse => exact hnodup
      case edge_id => exact fun hedge => hgraph.edge_id (hcases hedge).2
      case edge_word => exact fun hedge => hgraph.edge_word (hcases hedge).2
      case edge_fits => exact fun hedge => hgraph.edge_fits (hcases hedge).2
      case edge_apart => exact fun hedge => hgraph.edge_apart (hcases hedge).2

end WellFormed

end TaskGraph

end TiledPlacement

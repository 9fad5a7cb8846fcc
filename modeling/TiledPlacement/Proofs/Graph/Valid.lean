import TiledPlacement.Proofs.Action
import TiledPlacement.Proofs.Graph.Acyclic
import TiledPlacement.Proofs.Graph.Neighbours
import TiledPlacement.Proofs.Graph.Operand
import TiledPlacement.Proofs.Graph.WellFormed
import TiledPlacement.Proofs.Window.Tiling

/-!
What the integrity checks say about a well-formed graph: ids are below the next one, every element
of every input is fed by exactly one edge, and blocks can be ranked along the edges.
-/

namespace TiledPlacement

/-!
Graphs whose numbers are words. What a graph computes of its ports and of the windows at them,
volumes and ends, is exact as long as it is small enough for a word.
-/

/-- The elements at each port can be counted in a word. -/
def Payload.Bounded (payload : Payload) : Prop :=
  ∀ side, ∀ extent ∈ payload.shapes side, extent.elements < wordCount

instance (payload : Payload) : Decidable payload.Bounded :=
  decidable_of_iff (∀ side ∈ [PortSide.input, .output], ∀ extent ∈ payload.shapes side,
      extent.elements < wordCount)
    ⟨fun hall side => hall side (by cases side <;> decide), fun hbounded side _ => hbounded side⟩

namespace TaskGraph

/-- The elements at each port can be counted in a word, and so can the ends of each window. -/
structure Bounded (graph : TaskGraph) : Prop where
  block : ∀ {task block}, graph.block? task = some block → block.payload.Bounded
  edge : ∀ {id edge}, graph.edge? id = some edge → ∀ side, (edge.endAt side).window.Bounded

instance (graph : TaskGraph) : Decidable graph.Bounded :=
  decidable_of_iff ((∀ block ∈ graph.blocks.values, block.payload.Bounded) ∧
      ∀ edge ∈ graph.edges.values, edge.src.window.Bounded ∧ edge.dst.window.Bounded)
    ⟨fun hboth => ⟨fun hblock => hboth.1 _ (mem_values_iff.mpr ⟨_, hblock⟩), fun hedge side => by
        obtain ⟨hsrc, hdst⟩ := hboth.2 _ (mem_values_iff.mpr ⟨_, hedge⟩)
        cases side
        · exact hdst
        · exact hsrc⟩,
      fun hbounded => ⟨fun _ hmember => by
        obtain ⟨task, hblock⟩ := mem_values_iff.mp hmember
        exact hbounded.block hblock, fun _ hmember => by
        obtain ⟨id, hedge⟩ := mem_values_iff.mp hmember
        exact ⟨hbounded.edge hedge .output, hbounded.edge hedge .input⟩⟩⟩

namespace Bounded

variable {graph : TaskGraph} (hbounded : graph.Bounded)
include hbounded

theorem payload {task : TaskId} {payload : Payload}
    (hpayload : graph.payload? task = some payload) : payload.Bounded := by
  obtain ⟨block, hblock, rfl⟩ := payload?_eq_some_iff.mp hpayload
  exact hbounded.block hblock

theorem elements_lt (hgraph : graph.WellFormed) {side : PortSide} {task : TaskId} {index : Nat}
    {extent : Shape} (hextent : graph.extent? side task index = some extent) :
    extent.elements < wordCount := by
  rw [hgraph.extent?_eq] at hextent
  obtain ⟨payload, hpayload, hindex⟩ := Option.bind_eq_some_iff.mp hextent
  exact hbounded.payload hpayload side extent (List.mem_of_getElem? hindex)

theorem port_elements_lt (hgraph : graph.WellFormed) {side : PortSide} {task : TaskId}
    {index : Nat} {port : Port} (hport : graph.port? side task index = some port) :
    port.shape.elements < wordCount :=
  hbounded.elements_lt hgraph (Option.map_eq_some_iff.mpr ⟨port, hport, rfl⟩)

theorem window_elements_lt (hgraph : graph.WellFormed) {edge : Edge}
    (hedge : graph.edge? edge.id = some edge) (side : PortSide) :
    (edge.endAt side).window.size.elements < wordCount := by
  obtain ⟨extent, hextent, hwithin⟩ := hgraph.window_within hedge side
  exact Nat.lt_of_le_of_lt ((hbounded.edge hedge side).elements_le hwithin)
    (hbounded.elements_lt hgraph hextent)

end Bounded

end TaskGraph

/-! Checks. -/

theorem forM_eq_ok_iff {α ε : Type} {list : List α} {check : α → Except ε Unit} :
    list.forM check = .ok () ↔ ∀ element ∈ list, check element = .ok () := by
  induction list with
  | nil => exact ⟨fun _ _ hmember => (nomatch hmember), fun _ => rfl⟩
  | cons first rest induction =>
      change (check first >>= fun _ => rest.forM check) = .ok () ↔ _
      rw [bind_eq_ok_iff, List.forall_mem_cons, ← induction]
      constructor
      · intro hboth
        obtain ⟨_, hfirst, hrest⟩ := hboth
        exact ⟨hfirst, hrest⟩
      · exact fun hboth => ⟨(), hboth⟩

namespace TaskGraph

/-- The edge brings the element to an input port. -/
structure Feeds (graph : TaskGraph) (edge : Edge) (task : TaskId) (index : Nat)
    (element : Datum) : Prop where
  known : graph.edge? edge.id = some edge
  names : edge.dst.Names task index
  covers : edge.dst.window.Covers element

/-- One edge alone brings the element to an input port, and makes the connection. -/
def FedBy (graph : TaskGraph) (connection : Connection) (task : TaskId) (index : Nat)
    (element : Datum) : Prop :=
  ∃ edge, edge.connection = connection ∧ graph.Feeds edge task index element ∧
    ∀ other, graph.Feeds other task index element → other = edge

theorem FedBy.existsUnique {graph : TaskGraph} {connection : Connection} {task : TaskId}
    {index : Nat} {element : Datum} (hfed : graph.FedBy connection task index element) :
    ∃! edge, graph.Feeds edge task index element := by
  obtain ⟨edge, -, hfeeds, honly⟩ := hfed
  exact ⟨edge, hfeeds, honly⟩

/-- An edge that is listed at a port brings the element. -/
structure Supplies (graph : TaskGraph) (port : Port) (id : EdgeId) (element : Datum) : Prop where
  listed : id ∈ port.edges
  covers : ∃ edge, graph.edge? id = some edge ∧ edge.dst.window.Covers element

theorem mem_windowsAt_iff {graph : TaskGraph} {port : Port} {window : Window} :
    window ∈ graph.windowsAt port ↔
      ∃ id ∈ port.edges, ∃ edge, graph.edge? id = some edge ∧ edge.dst.window = window := by
  simp only [windowsAt, edgesAt, List.mem_map, List.mem_filterMap]
  constructor
  · rintro ⟨edge, ⟨id, hid, hedge⟩, hsame⟩
    exact ⟨id, hid, edge, hedge, hsame⟩
  · rintro ⟨id, hid, edge, hedge, hsame⟩
    exact ⟨edge, ⟨id, hid, hedge⟩, hsame⟩

theorem Bounded.windowsAt {graph : TaskGraph} (hbounded : graph.Bounded) (port : Port) :
    ∀ window ∈ graph.windowsAt port, window.Bounded := by
  intro window hmember
  obtain ⟨_, -, edge, hedge, rfl⟩ := mem_windowsAt_iff.mp hmember
  exact hbounded.edge hedge .input

/-- A port that lists no edge twice and has room for the windows of its edges is tiled when each of
its elements is supplied once. -/
theorem tiles_iff_supplies {graph : TaskGraph} (hbounded : graph.Bounded) {port : Port}
    (hnodup : port.edges.Nodup)
    (hwithin : ∀ {id edge}, id ∈ port.edges → graph.edge? id = some edge →
      edge.dst.window.within port.shape = true) :
    Tiles (graph.windowsAt port) port.shape ↔
      ∀ element, (Window.full port.shape).Covers element →
        ∃! id, graph.Supplies port id element := by
  have hapart : (graph.windowsAt port).Pairwise (fun left right =>
        ∀ element, ¬(left.Covers element ∧ right.Covers element)) ↔
      ∀ id ∈ port.edges, ∀ other ∈ port.edges, id ≠ other →
        ∀ element, ¬(graph.Supplies port id element ∧ graph.Supplies port other element) := by
    have hsymm : Std.Symm fun id other =>
        ∀ element, ¬(graph.Supplies port id element ∧ graph.Supplies port other element) :=
      ⟨fun _ _ hnever element hboth => hnever element hboth.symm⟩
    rw [windowsAt, edgesAt, List.pairwise_map, List.pairwise_filterMap]
    refine (List.Pairwise.iff_of_mem fun hid hother => ?_).trans
      ⟨fun hpairs id hid other hother hdiffer => hpairs.forall hid hother hdiffer,
        fun hpairs => hnodup.pairwise_of_forall_ne hpairs⟩
    constructor
    · rintro hedges element ⟨⟨-, edge, hedge, hcovers⟩, ⟨-, next, hnext, hcoversNext⟩⟩
      exact hedges edge hedge next hnext element ⟨hcovers, hcoversNext⟩
    · intro hnever edge hedge next hnext element hboth
      exact hnever element ⟨⟨hid, edge, hedge, hboth.1⟩, ⟨hother, next, hnext, hboth.2⟩⟩
  constructor
  · intro htiles element hcovers
    obtain ⟨window, hmember, hcovered⟩ := htiles.covered element hcovers
    obtain ⟨id, hid, edge, hedge, rfl⟩ := mem_windowsAt_iff.mp hmember
    have hsupplies : graph.Supplies port id element := ⟨hid, edge, hedge, hcovered⟩
    refine ⟨id, hsupplies, fun other hother => Classical.byContradiction fun hdiffer => ?_⟩
    exact hapart.mp htiles.apart other hother.listed id hid hdiffer element ⟨hother, hsupplies⟩
  · intro honce
    refine ⟨fun window hmember => ?_, hapart.mpr ?_, fun element hcovers => ?_⟩
    · obtain ⟨id, hid, edge, hedge, rfl⟩ := mem_windowsAt_iff.mp hmember
      exact hwithin hid hedge
    · intro id hid other hother hdiffer element hboth
      obtain ⟨edge, hedge, hcovers⟩ := hboth.1.covers
      obtain ⟨only, -, honly⟩ := honce element
        (hcovers.of_within (hbounded.edge hedge .input) (hwithin hid hedge))
      exact hdiffer ((honly id hboth.1).trans (honly other hboth.2).symm)
    · obtain ⟨id, hsupplies, -⟩ := honce element hcovers
      obtain ⟨edge, hedge, hcovered⟩ := hsupplies.covers
      exact ⟨edge.dst.window,
        mem_windowsAt_iff.mpr ⟨id, hsupplies.listed, edge, hedge, rfl⟩, hcovered⟩

theorem checkTiling_ok_iff_portFault? {graph : TaskGraph} :
    graph.checkTiling = .ok () ↔
      ∀ block ∈ graph.blocks.values, ∀ port ∈ block.inputs, graph.portFault? port = none := by
  unfold checkTiling
  rw [forM_eq_ok_iff]
  refine forall_congr' fun block => forall_congr' fun _ => ?_
  rw [forM_eq_ok_iff]
  constructor
  · intro hok port hport
    obtain ⟨index, hindex⟩ := List.mem_iff_getElem?.mp hport
    have hentry := hok (port, index) (List.mem_zipIdx_iff_getElem?.mpr hindex)
    dsimp only at hentry
    split at hentry
    case h_1 => cases hentry
    case h_2 hnone => exact hnone
  · rintro hnone ⟨port, index⟩ hentry
    dsimp only
    rw [hnone port (List.mem_of_getElem? (List.mem_zipIdx_iff_getElem?.mp hentry))]
    rfl

structure Valid (graph : TaskGraph) : Prop where
  bounded : graph.Bounded
  block_below : ∀ {task block}, graph.block? task = some block → task.raw < graph.ids.next
  edge_below : ∀ {id edge}, graph.edge? id = some edge → id.raw < graph.ids.next
  tiled : ∀ {task index extent}, graph.extent? .input task index = some extent →
    ∀ element, (Window.full extent).Covers element → ∃! edge, graph.Feeds edge task index element
  ranked : ∃ rank, graph.Ranked rank

namespace WellFormed

variable {graph : TaskGraph}

theorem mem_blocks_iff (hgraph : graph.WellFormed) {block : Block} :
    block ∈ graph.blocks.values ↔ graph.block? block.id = some block := by
  rw [mem_values_iff]
  constructor
  · intro hblock
    obtain ⟨task, hblock⟩ := hblock
    rw [hgraph.block_id hblock]
    exact hblock
  · exact fun hblock => ⟨block.id, hblock⟩

theorem port_elements_pos (hgraph : graph.WellFormed) {side : PortSide} {task : TaskId}
    {index : Nat} {port : Port} (hport : graph.port? side task index = some port) :
    0 < port.shape.elements := by
  obtain ⟨block, hblock, hindex⟩ := port?_eq_some_iff.mp hport
  have hshaped := hgraph.block_shaped hblock
  have hshape : port.shape ∈ block.payload.shapes side := by
    rw [← hshaped.shapes side]
    exact List.mem_map_of_mem (List.mem_of_getElem? hindex)
  exact hshaped.valid.elements_pos hshape

theorem window_elements_pos (hgraph : graph.WellFormed) {edge : Edge}
    (hedge : graph.edge? edge.id = some edge) (side : PortSide) :
    0 < (edge.endAt side).window.size.elements := by
  obtain ⟨port, hport, -, hwithin⟩ := hgraph.edge_listed hedge side
  exact (Window.within_sameAxes hwithin).symm.elements_pos (hgraph.port_elements_pos hport)

theorem feeds_unique (hgraph : graph.WellFormed) (hvalid : graph.Valid) {left right : Edge}
    {task : TaskId} {index : Nat} {element : Datum}
    (hleft : graph.Feeds left task index element) (hright : graph.Feeds right task index element) :
    left = right := by
  obtain ⟨extent, hextent, hwithin⟩ := hgraph.window_within hleft.known .input
  rw [Edge.endAt_input, hleft.names.1, hleft.names.2] at hextent
  obtain ⟨edge, -, honly⟩ := hvalid.tiled hextent element
    (hleft.covers.of_within (hvalid.bounded.edge hleft.known .input) hwithin)
  exact (honly left hleft).trans (honly right hright).symm

theorem checkIds_ok_iff (hgraph : graph.WellFormed) :
    graph.checkIds = .ok () ↔
      (∀ task block, graph.block? task = some block → task.raw < graph.ids.next) ∧
        ∀ id edge, graph.edge? id = some edge → id.raw < graph.ids.next := by
  have hblock : ∀ block : Block, graph.block? block.id = some block →
      ((do
        if graph.edges.contains ⟨block.id.raw⟩ then
          throw (.duplicateId block.id.raw .blockAndEdge)
        if graph.ids.next ≤ block.id.raw then
          throw (.duplicateId block.id.raw (.blockNotBelow graph.ids.next)) :
            Except GraphError Unit) = .ok () ↔ block.id.raw < graph.ids.next) := by
    intro block hblock
    have hapart : graph.edges.contains ⟨block.id.raw⟩ = false := by
      rw [Std.ExtTreeMap.contains_eq_isSome_getElem?, Option.isSome_eq_false_iff,
        Option.isNone_iff_eq_none]
      exact Option.eq_none_iff_forall_not_mem.mpr fun edge hedge =>
        hgraph.ids_apart hblock hedge
    rw [hapart, if_neg Bool.false_ne_true]
    by_cases hnext : graph.ids.next ≤ block.id.raw
    · simp [hnext, throw, throwThe, MonadExceptOf.throw]
    · simp [hnext, Nat.not_le.mp hnext, pure, Except.pure]
  have hedge : ∀ edge : Edge,
      ((do
        if graph.ids.next ≤ edge.id.raw then
          throw (.duplicateId edge.id.raw (.edgeNotBelow graph.ids.next)) :
            Except GraphError Unit) = .ok () ↔ edge.id.raw < graph.ids.next) := by
    intro edge
    by_cases hnext : graph.ids.next ≤ edge.id.raw
    · simp [hnext, throw, throwThe, MonadExceptOf.throw]
    · simp [hnext, Nat.not_le.mp hnext, pure, Except.pure]
  unfold checkIds
  dsimp only
  rw [bind_eq_ok_iff]
  constructor
  · intro hboth
    obtain ⟨_, hblocks, hedges⟩ := hboth
    refine ⟨fun task block hknown => ?_, fun id edge hknown => ?_⟩
    · obtain rfl := hgraph.block_id hknown
      exact (hblock block hknown).mp
        (forM_eq_ok_iff.mp hblocks block (hgraph.mem_blocks_iff.mpr hknown))
    · obtain rfl := hgraph.edge_id hknown
      exact (hedge edge).mp (forM_eq_ok_iff.mp hedges edge (hgraph.mem_edges_iff.mpr hknown))
  · intro hboth
    refine ⟨(), forM_eq_ok_iff.mpr fun block hmember => ?_,
      forM_eq_ok_iff.mpr fun edge hmember => ?_⟩
    · have hknown := hgraph.mem_blocks_iff.mp hmember
      exact (hblock block hknown).mpr (hboth.1 block.id block hknown)
    · exact (hedge edge).mpr (hboth.2 edge.id edge (hgraph.mem_edges_iff.mp hmember))

private theorem checkListing_ok (hgraph : graph.WellFormed) {block : Block}
    (hblock : graph.block? block.id = some block) (side : PortSide) :
    graph.checkListing block.id (Edge.endAt · side) (block.ports side) = .ok () := by
  refine forM_eq_ok_iff.mpr fun entry hentry => forM_eq_ok_iff.mpr fun id hid => ?_
  obtain ⟨port, index⟩ := entry
  have hport : graph.port? side block.id index = some port :=
    port?_eq_some_iff.mpr ⟨block, hblock, List.mem_zipIdx_iff_getElem?.mp hentry⟩
  obtain ⟨edge, hedge, hnames⟩ := hgraph.listing hport hid
  rw [hedge]
  exact if_pos hnames

/-- Connections of a well-formed graph always pass. -/
theorem checkConnections_ok (hgraph : graph.WellFormed) : graph.checkConnections = .ok () := by
  unfold checkConnections
  rw [bind_eq_ok_iff]
  refine ⟨(), forM_eq_ok_iff.mpr fun edge hmember => ?_, forM_eq_ok_iff.mpr fun block hmember => ?_⟩
  · have hknown := hgraph.mem_edges_iff.mp hmember
    obtain ⟨sent, hsent, hsentListed, hsentWithin⟩ := hgraph.edge_listed hknown .output
    obtain ⟨received, hreceived, hreceivedListed, hreceivedWithin⟩ :=
      hgraph.edge_listed hknown .input
    obtain ⟨source, hsource, hsentPort⟩ := port?_eq_some_iff.mp hsent
    obtain ⟨target, htarget, hreceivedPort⟩ := port?_eq_some_iff.mp hreceived
    have hfault : graph.edgeFault? edge = none := by
      unfold edgeFault?
      rw [Edge.endAt_output] at hsource hsentPort hsentWithin
      rw [Edge.endAt_input] at htarget hreceivedPort hreceivedWithin
      rw [hsource, htarget]
      dsimp only [Block.ports] at hsentPort hreceivedPort ⊢
      rw [hsentPort, hreceivedPort]
      dsimp only
      rw [if_neg (not_not_intro hsentListed), if_neg (not_not_intro hreceivedListed), hsentWithin,
        hreceivedWithin]
      rfl
    rw [hfault]
    rfl
  · have hknown := hgraph.mem_blocks_iff.mp hmember
    exact bind_eq_ok_iff.mpr
      ⟨(), hgraph.checkListing_ok hknown .input, hgraph.checkListing_ok hknown .output⟩

theorem supplies_iff (hgraph : graph.WellFormed) {task : TaskId} {index : Nat} {port : Port}
    (hport : graph.port? .input task index = some port) {id : EdgeId} {element : Datum} :
    graph.Supplies port id element ↔
      ∃ edge, edge.id = id ∧ graph.Feeds edge task index element := by
  constructor
  · rintro ⟨hid, edge, hedge, hcovers⟩
    obtain ⟨listed, hlisted, hnames⟩ := hgraph.listing hport hid
    obtain rfl := Option.some.inj (hedge.symm.trans hlisted)
    obtain rfl := hgraph.edge_id hedge
    exact ⟨edge, rfl, hedge, hnames, hcovers⟩
  · rintro ⟨edge, rfl, hfeeds⟩
    have hmember := (hgraph.mem_edgesAt_iff hport).mpr ⟨hfeeds.known, hfeeds.names⟩
    obtain ⟨id, hid, hedge⟩ := List.mem_filterMap.mp hmember
    rw [hgraph.edge_id hedge]
    exact ⟨hid, edge, hedge, hfeeds.covers⟩

/-- A port is tiled when each of its elements is fed once. -/
theorem tiles_iff (hgraph : graph.WellFormed) (hbounded : graph.Bounded) {task : TaskId}
    {index : Nat} {port : Port} (hport : graph.port? .input task index = some port) :
    Tiles (graph.windowsAt port) port.shape ↔
      ∀ element, (Window.full port.shape).Covers element →
        ∃! edge, graph.Feeds edge task index element := by
  have hwithin : ∀ {id edge}, id ∈ port.edges → graph.edge? id = some edge →
      edge.dst.window.within port.shape = true := by
    intro id edge hid hedge
    obtain ⟨listed, hlisted, htask, hindex⟩ := hgraph.listing hport hid
    obtain rfl := Option.some.inj (hedge.symm.trans hlisted)
    obtain ⟨found, hfound, -, hroom⟩ := hgraph.edge_listed hedge .input
    rw [htask, hindex] at hfound
    obtain rfl := Option.some.inj (hfound.symm.trans hport)
    exact hroom
  rw [tiles_iff_supplies hbounded (hgraph.nodup hport) hwithin]
  refine forall_congr' fun element => forall_congr' fun _ => ?_
  constructor
  · rintro ⟨id, hsupplies, honly⟩
    obtain ⟨edge, rfl, hfeeds⟩ := (hgraph.supplies_iff hport).mp hsupplies
    refine ⟨edge, hfeeds, fun other hother => ?_⟩
    have hsame := honly other.id ((hgraph.supplies_iff hport).mpr ⟨other, rfl, hother⟩)
    exact Option.some.inj (hother.known.symm.trans (hsame ▸ hfeeds.known))
  · rintro ⟨edge, hfeeds, honly⟩
    refine ⟨edge.id, (hgraph.supplies_iff hport).mpr ⟨edge, rfl, hfeeds⟩, fun id hsupplies => ?_⟩
    obtain ⟨other, rfl, hother⟩ := (hgraph.supplies_iff hport).mp hsupplies
    rw [honly other hother]

theorem checkTiling_ok_iff (hgraph : graph.WellFormed) (hbounded : graph.Bounded) :
    graph.checkTiling = .ok () ↔ ∀ task index extent,
      graph.extent? .input task index = some extent →
        ∀ element, (Window.full extent).Covers element →
          ∃! edge, graph.Feeds edge task index element := by
  have hfault : ∀ {task : TaskId} {index : Nat} {port : Port},
      graph.port? .input task index = some port →
        (graph.portFault? port = none ↔ ∀ element, (Window.full port.shape).Covers element →
          ∃! edge, graph.Feeds edge task index element) :=
    fun hport => (portFault?_eq_none_iff (hgraph.port_elements_pos hport)
      (hbounded.port_elements_lt hgraph hport) (hbounded.windowsAt _)).trans
      (hgraph.tiles_iff hbounded hport)
  rw [checkTiling_ok_iff_portFault?]
  constructor
  · intro hnone task index extent hextent
    obtain ⟨port, hport, rfl⟩ := Option.map_eq_some_iff.mp hextent
    obtain ⟨block, hblock, hindex⟩ := port?_eq_some_iff.mp hport
    obtain rfl := hgraph.block_id hblock
    exact (hfault hport).mp
      (hnone block (hgraph.mem_blocks_iff.mpr hblock) port (List.mem_of_getElem? hindex))
  · intro honce block hmember port hinput
    obtain ⟨index, hindex⟩ := List.mem_iff_getElem?.mp hinput
    have hport : graph.port? .input block.id index = some port :=
      port?_eq_some_iff.mpr ⟨block, hgraph.mem_blocks_iff.mp hmember, hindex⟩
    exact (hfault hport).mpr (honce _ _ _ (Option.map_eq_some_iff.mpr ⟨port, hport, rfl⟩))

theorem id_below (hgraph : graph.WellFormed) (hvalid : graph.validate = .ok ()) {id : EdgeId}
    {edge : Edge} (hedge : graph.edge? id = some edge) : id.raw < graph.ids.next := by
  unfold validate at hvalid
  obtain ⟨_, hids, -⟩ := bind_eq_ok_iff.mp hvalid
  exact (hgraph.checkIds_ok_iff.mp hids).2 id edge hedge

theorem validate_ok_iff (hgraph : graph.WellFormed) (hbounded : graph.Bounded) :
    graph.validate = .ok () ↔ graph.Valid := by
  have hchecks : graph.validate = .ok () ↔ graph.checkIds = .ok () ∧
      graph.checkConnections = .ok () ∧ graph.checkTiling = .ok () ∧
        ∃ order, graph.topologicalOrder = .ok order := by
    unfold validate
    rw [bind_eq_ok_iff]
    simp only [bind_eq_ok_iff]
    constructor
    · intro hall
      obtain ⟨_, hids, _, hconnections, _, htiling, order, horder, -⟩ := hall
      exact ⟨hids, hconnections, htiling, order, horder⟩
    · intro hall
      obtain ⟨hids, hconnections, htiling, order, horder⟩ := hall
      exact ⟨(), hids, (), hconnections, (), htiling, order, horder, rfl⟩
  rw [hchecks, hgraph.checkIds_ok_iff, hgraph.checkTiling_ok_iff hbounded,
    topologicalOrder_ok_iff hgraph]
  constructor
  · intro hall
    obtain ⟨⟨hblocks, hedges⟩, -, htiled, hranked⟩ := hall
    exact ⟨hbounded, fun hblock => hblocks _ _ hblock, fun hedge => hedges _ _ hedge,
      fun hextent => htiled _ _ _ hextent, hranked⟩
  · intro hvalid
    exact ⟨⟨fun _ _ hblock => hvalid.block_below hblock, fun _ _ hedge => hvalid.edge_below hedge⟩,
      hgraph.checkConnections_ok, fun _ _ _ hextent => hvalid.tiled hextent, hvalid.ranked⟩

end WellFormed

end TaskGraph

end TiledPlacement

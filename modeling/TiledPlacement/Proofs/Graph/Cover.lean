import TiledPlacement.Proofs.Graph.Reachable
import TiledPlacement.Proofs.Graph.Valid

/-!
The tiling check as a decision. It compares bounds, pairs of windows and volumes only; where the
connections are in order and no volume or end is too large for a word, this decides whether each
element of each input is supplied exactly once.
-/

namespace TiledPlacement

namespace TaskGraph

/-- What making blocks and attaching edges ensures by itself, wherever the edges lead: a block is
kept under its number, its ports are those of its payload, and an input lists no edge twice. -/
structure Assembled (graph : TaskGraph) : Prop where
  block_id : ∀ {task block}, graph.block? task = some block → block.id = task
  block_shaped : ∀ {task block}, graph.block? task = some block → block.Shaped
  nodup : ∀ {task block}, graph.block? task = some block → ∀ port ∈ block.inputs,
    port.edges.Nodup

theorem WellFormed.assembled {graph : TaskGraph} (hgraph : graph.WellFormed) :
    graph.Assembled where
  block_id := hgraph.block_id
  block_shaped := hgraph.block_shaped
  nodup {_ _} hblock port hport := by
    obtain ⟨index, hindex⟩ := List.mem_iff_getElem?.mp hport
    have hlisted : graph.port? .input _ index = some port :=
      port?_eq_some_iff.mpr ⟨_, hblock, hindex⟩
    exact hgraph.nodup hlisted

/-! What the check of connections says about an input. -/

theorem destination_of_edgeFault? {graph : TaskGraph} {edge : Edge}
    (hfault : graph.edgeFault? edge = none) :
    ∃ block port, graph.block? edge.dst.task = some block ∧
      block.inputs[edge.dst.port]? = some port ∧ edge.dst.window.within port.shape = true := by
  unfold edgeFault? at hfault
  split at hfault
  case h_1 => cases hfault
  case h_2 => cases hfault
  case h_3 source target hsource htarget =>
    split at hfault
    case h_1 => cases hfault
    case h_2 => cases hfault
    case h_3 sent received hsent hreceived =>
      refine ⟨target, received, htarget, hreceived, ?_⟩
      cases hwithin : edge.dst.window.within received.shape with
      | true => rfl
      | false =>
          rw [hwithin, Bool.not_false, if_pos rfl] at hfault
          repeat' split at hfault
          all_goals cases hfault

theorem listed_of_checkListing {graph : TaskGraph} {task : TaskId} {ends : Edge → Endpoint}
    {ports : List Port} (hlisting : graph.checkListing task ends ports = .ok ()) {index : Nat}
    {port : Port} (hport : ports[index]? = some port) {id : EdgeId} (hid : id ∈ port.edges) :
    ∃ edge, graph.edge? id = some edge ∧ (ends edge).task = task ∧ (ends edge).port = index := by
  have hports := forM_eq_ok_iff.mp hlisting (port, index) (List.mem_zipIdx_iff_getElem?.mpr hport)
  have hlisted := forM_eq_ok_iff.mp hports id hid
  split at hlisted
  case h_1 => cases hlisted
  case h_2 edge hedge =>
    split at hlisted
    case isTrue hnames => exact ⟨edge, hedge, hnames⟩
    case isFalse => cases hlisted

namespace Assembled

variable {graph : TaskGraph} (hgraph : graph.Assembled)
include hgraph

theorem mem_blocks_iff {block : Block} :
    block ∈ graph.blocks.values ↔ graph.block? block.id = some block := by
  rw [mem_values_iff]
  constructor
  · intro hblock
    obtain ⟨task, hblock⟩ := hblock
    rw [hgraph.block_id hblock]
    exact hblock
  · exact fun hblock => ⟨block.id, hblock⟩

theorem input_shape {task : TaskId} {block : Block} (hblock : graph.block? task = some block)
    {port : Port} (hport : port ∈ block.inputs) : port.shape ∈ block.payload.shapes .input := by
  rw [← (hgraph.block_shaped hblock).shapes .input]
  exact List.mem_map_of_mem hport

theorem within_of_checkConnections (hconnections : graph.checkConnections = .ok ())
    {task : TaskId} {block : Block} (hblock : graph.block? task = some block) {port : Port}
    (hport : port ∈ block.inputs) {id : EdgeId} {edge : Edge} (hid : id ∈ port.edges)
    (hedge : graph.edge? id = some edge) : edge.dst.window.within port.shape = true := by
  obtain rfl := hgraph.block_id hblock
  obtain ⟨index, hindex⟩ := List.mem_iff_getElem?.mp hport
  unfold checkConnections at hconnections
  obtain ⟨_, hedges, hblocks⟩ := bind_eq_ok_iff.mp hconnections
  obtain ⟨_, hinputs, -⟩ := bind_eq_ok_iff.mp
    (forM_eq_ok_iff.mp hblocks block (hgraph.mem_blocks_iff.mpr hblock))
  obtain ⟨listed, hlisted, htask, hplace⟩ := listed_of_checkListing hinputs hindex hid
  obtain rfl := Option.some.inj (hedge.symm.trans hlisted)
  have hfault : graph.edgeFault? edge = none := by
    have hchecked := forM_eq_ok_iff.mp hedges edge (mem_values_iff.mpr ⟨id, hedge⟩)
    split at hchecked
    case h_1 => cases hchecked
    case h_2 hnone => exact hnone
  -- The edge points back at the input that lists it, whose extent it was held against.
  obtain ⟨target, received, htarget, hreceived, hwithin⟩ := destination_of_edgeFault? hfault
  rw [htask, hblock] at htarget
  obtain rfl := Option.some.inj htarget
  rw [hplace, hindex] at hreceived
  obtain rfl := Option.some.inj hreceived
  exact hwithin

/-- Where the connections are in order and volumes and ends are words, the tiling check passes
exactly when, for each input of each block, each tuple of indices within its extents lies in the
window of exactly one edge there. -/
theorem checkTiling_ok_iff_existsUnique (hbounded : graph.Bounded)
    (hconnections : graph.checkConnections = .ok ()) :
    graph.checkTiling = .ok () ↔
      ∀ task block, graph.block? task = some block → ∀ port ∈ block.inputs,
        ∀ element, (Window.full port.shape).Covers element →
          ∃! id, graph.Supplies port id element := by
  have hport : ∀ {task : TaskId} {block : Block}, graph.block? task = some block →
      ∀ port ∈ block.inputs, (graph.portFault? port = none ↔
        ∀ element, (Window.full port.shape).Covers element →
          ∃! id, graph.Supplies port id element) := by
    intro task block hblock port hinput
    have hshape := hgraph.input_shape hblock hinput
    have hchecked : graph.portFault? port = none ↔ Tiles (graph.windowsAt port) port.shape :=
      portFault?_eq_none_iff ((hgraph.block_shaped hblock).valid.elements_pos hshape)
        (hbounded.block hblock .input port.shape hshape) (hbounded.windowsAt port)
    exact hchecked.trans (tiles_iff_supplies hbounded (hgraph.nodup hblock port hinput)
      (hgraph.within_of_checkConnections hconnections hblock hinput))
  rw [checkTiling_ok_iff_portFault?]
  constructor
  · intro hnone task block hblock port hinput
    obtain rfl := hgraph.block_id hblock
    exact (hport hblock port hinput).mp
      (hnone block (hgraph.mem_blocks_iff.mpr hblock) port hinput)
  · intro honce block hmember port hinput
    have hblock := hgraph.mem_blocks_iff.mp hmember
    exact (hport hblock port hinput).mpr (honce block.id block hblock port hinput)

end Assembled

/-- Four channels sent on to an output in pieces. -/
def sentInPieces (pieces : List Window) : TaskGraph :=
  (empty 0).runAll ([.addStorage ⟨.input, .vector 4, .int8⟩,
    .addStorage ⟨.output, .vector 4, .int8⟩] ++
      pieces.map fun piece => .connect ⟨⟨⟨0⟩, 0, piece⟩, ⟨⟨1⟩, 0, piece⟩, []⟩)

/-- One channel and the other three cover the output; two channels leave a gap. -/
theorem checkTiling_ok_iff_existsUnique_sentInPieces :
    (∃ port, (sentInPieces [⟨.zero, .vector 1⟩, ⟨.vector 1, .vector 3⟩]).port? .input ⟨1⟩ 0 =
        some port ∧ ∀ element, (Window.full port.shape).Covers element →
          ∃! id, (sentInPieces [⟨.zero, .vector 1⟩, ⟨.vector 1, .vector 3⟩]).Supplies
            port id element) ∧
      ¬∀ task block, (sentInPieces [⟨.zero, .vector 2⟩]).block? task = some block →
        ∀ port ∈ block.inputs, ∀ element, (Window.full port.shape).Covers element →
          ∃! id, (sentInPieces [⟨.zero, .vector 2⟩]).Supplies port id element := by
  have hcovered : (sentInPieces [⟨.zero, .vector 1⟩, ⟨.vector 1, .vector 3⟩]).Reachable :=
    (Reachable.empty (Nat.zero_le _)).runAll (by simp [Command.Admits]) (by decide +kernel)
  have hgap : (sentInPieces [⟨.zero, .vector 2⟩]).Reachable :=
    (Reachable.empty (Nat.zero_le _)).runAll (by simp [Command.Admits]) (by decide +kernel)
  constructor
  · obtain ⟨port, hport⟩ := Option.isSome_iff_exists.mp (show ((sentInPieces
      [⟨.zero, .vector 1⟩, ⟨.vector 1, .vector 3⟩]).port? .input ⟨1⟩ 0).isSome by decide +kernel)
    obtain ⟨block, hblock, hindex⟩ := port?_eq_some_iff.mp hport
    refine ⟨port, hport, ?_⟩
    exact (hcovered.wellFormed.2.assembled.checkTiling_ok_iff_existsUnique (by decide +kernel)
      (by decide +kernel)).mp (by decide +kernel) ⟨1⟩ block hblock port
        (List.mem_of_getElem? hindex)
  · rw [← hgap.wellFormed.2.assembled.checkTiling_ok_iff_existsUnique (by decide +kernel)
      (by decide +kernel)]
    decide +kernel

/-- Half of the words as channels, sent to the first of three rows of an output. -/
def oneRowOfThree : TaskGraph :=
  (empty 0).runAll [
    .addStorage ⟨.input, { y := 1, f := 2 ^ 63 }, .int8⟩,
    .addStorage ⟨.output, { y := 3, f := 2 ^ 63 }, .int8⟩,
    .connect ⟨⟨⟨0⟩, 0, ⟨.zero, { y := 1, f := 2 ^ 63 }⟩⟩,
      ⟨⟨1⟩, 0, ⟨.zero, { y := 1, f := 2 ^ 63 }⟩⟩, []⟩]

/-- Three rows have as many elements as one row, counted in a word. The check takes the output for
covered, though nothing arrives in the second row. -/
theorem checkTiling_misses_rows :
    oneRowOfThree.checkConnections = .ok () ∧ oneRowOfThree.checkTiling = .ok () ∧
      ¬∀ task block, oneRowOfThree.block? task = some block → ∀ port ∈ block.inputs,
        ∀ element, (Window.full port.shape).Covers element →
          ∃! id, oneRowOfThree.Supplies port id element := by
  refine ⟨by decide +kernel, by decide +kernel, fun hall => ?_⟩
  have hport : oneRowOfThree.port? .input ⟨1⟩ 0 = some ⟨{ y := 3, f := 2 ^ 63 }, [⟨2⟩]⟩ := by
    decide +kernel
  have hwindow : (oneRowOfThree.edge? ⟨2⟩).map (·.dst.window) =
      some ⟨.zero, { y := 1, f := 2 ^ 63 }⟩ := by decide +kernel
  obtain ⟨block, hblock, hindex⟩ := port?_eq_some_iff.mp hport
  obtain ⟨id, hsupplies, -⟩ := hall ⟨1⟩ block hblock _ (List.mem_of_getElem? hindex)
    (fun axis => if axis = .y then 1 else 0) (by decide)
  obtain ⟨edge, hedge, hcovers⟩ := hsupplies.covers
  obtain rfl := List.mem_singleton.mp hsupplies.listed
  rw [hedge, Option.map_some, Option.some.injEq] at hwindow
  rw [hwindow] at hcovers
  revert hcovers
  decide

end TaskGraph

end TiledPlacement

import TiledPlacement.Graph.Basic

/-!
Ports of either side, and the shapes that a block gives to its ports. What is said of the inputs
of a graph and of its outputs is one statement about a side.
-/

namespace TiledPlacement

namespace Payload

def inputShapes : Payload → List Shape
  | .storage tensor => List.replicate tensor.kind.inputPorts tensor.shape
  | .computation primitive => primitive.inputs.map fun input =>
      input.2.shape primitive.shape

def outputShapes : Payload → List Shape
  | .storage tensor => List.replicate tensor.kind.outputPorts tensor.shape
  | .computation primitive => [Computation.output.shape primitive.shape]

def shapes (payload : Payload) : PortSide → List Shape
  | .input => payload.inputShapes
  | .output => payload.outputShapes

/-- Whether a block can be made of the payload. -/
def Valid : Payload → Prop
  | .storage tensor => tensor.shape.volume ≠ 0
  | .computation primitive => primitive.shapeFault? = none ∧
      ¬(primitive.bias = .vector ∧ primitive.operation.takesVectorBias = false)

end Payload

theorem Computation.check_eq_ok_iff {computation : Computation} {id : TaskId} :
    computation.check id = .ok () ↔ (Payload.computation computation).Valid := by
  unfold Computation.check Payload.Valid
  dsimp only
  cases computation.shapeFault? with
  | some fault => simp
  | none =>
      by_cases hbias : computation.bias = .vector ∧ computation.operation.takesVectorBias = false
      · rw [if_pos hbias]
        simp [hbias]
      · rw [if_neg hbias]
        exact iff_of_true rfl ⟨rfl, hbias⟩

namespace Block

def ports (block : Block) : PortSide → List Port
  | .input => block.inputs
  | .output => block.outputs

/-- The ports have the extents that the payload asks for. -/
structure Shaped (block : Block) : Prop where
  valid : block.payload.Valid
  shapes : ∀ side, (block.ports side).map Port.shape = block.payload.shapes side

/-- The block is as it was made, without edges. -/
structure Made (block : Block) : Prop where
  shaped : block.Shaped
  unconnected : ∀ side, ∀ port ∈ block.ports side, port.edges = []

end Block

namespace Endpoint

def Names (point : Endpoint) (task : TaskId) (index : Nat) : Prop :=
  point.task = task ∧ point.port = index

instance (point : Endpoint) (task : TaskId) (index : Nat) :
    Decidable (point.Names task index) :=
  inferInstanceAs (Decidable (_ ∧ _))

end Endpoint

namespace Connection

/-- The end of a connection on one side: it arrives at an input and leaves an output. -/
def endAt (connection : Connection) : PortSide → Endpoint
  | .input => connection.dst
  | .output => connection.src

/-- Whether the windows at both ends may be joined. -/
def Fits (connection : Connection) : Prop :=
  connection.src.window.volume = connection.dst.window.volume ∧
    (connection.isIdentity = true →
      connection.src.window.size.agreesWith connection.dst.window.size = true)

end Connection

namespace Edge

def endAt (edge : Edge) (side : PortSide) : Endpoint := edge.connection.endAt side

@[simp] theorem endAt_input (edge : Edge) : edge.endAt .input = edge.dst := rfl

@[simp] theorem endAt_output (edge : Edge) : edge.endAt .output = edge.src := rfl

end Edge

namespace Block

theorem ofStorage_ok {id : TaskId} {storage : Storage} {block : Block}
    (hblock : ofStorage id storage = .ok block) :
    block.id = id ∧ block.payload = .storage storage ∧ block.Made := by
  unfold ofStorage at hblock
  split at hblock
  case isTrue => cases hblock
  case isFalse hvolume =>
    cases hblock
    refine ⟨rfl, rfl, ⟨hvolume, fun side => ?_⟩, fun side port hport => ?_⟩
    · cases side <;> exact List.map_replicate
    · cases side <;> rw [List.eq_of_mem_replicate hport] <;> rfl

theorem ofComputation_ok {id : TaskId} {computation : Computation} {block : Block}
    (hblock : ofComputation id computation = .ok block) :
    block.id = id ∧ block.payload = .computation computation ∧ block.Made := by
  unfold ofComputation at hblock
  split at hblock
  case h_1 => cases hblock
  case h_2 hcheck =>
    cases hblock
    have hvalid : (Payload.computation computation).Valid :=
      Computation.check_eq_ok_iff.mp hcheck
    refine ⟨rfl, rfl, ⟨hvalid, fun side => ?_⟩, fun side port hport => ?_⟩
    · cases side
      · simp only [ports, Payload.shapes, Payload.inputShapes, List.map_map]
        rfl
      · rfl
    · cases side
      · obtain ⟨input, -, rfl⟩ := List.mem_map.mp hport
        rfl
      · rw [List.mem_singleton.mp hport]
        rfl

theorem copyLike_ok {block copy : Block} {id : TaskId} {shape : Shape}
    (hcopy : block.copyLike id shape = .ok copy) :
    copy.id = id ∧ copy.Made ∧ copy.payload = match block.payload with
      | .storage storage => .storage { storage with shape }
      | .computation computation => .computation { computation with shape } := by
  unfold copyLike at hcopy
  cases hpayload : block.payload with
  | storage storage =>
      rw [hpayload] at hcopy
      obtain ⟨hid, hstorage, hmade⟩ := ofStorage_ok hcopy
      exact ⟨hid, hmade, hstorage⟩
  | computation computation =>
      rw [hpayload] at hcopy
      obtain ⟨hid, hcomputation, hmade⟩ := ofComputation_ok hcopy
      exact ⟨hid, hmade, hcomputation⟩

theorem Made.edgeIds_eq_nil {block : Block} (hmade : block.Made) : block.edgeIds = [] := by
  simp only [edgeIds, inputEdges, outputEdges, List.append_eq_nil_iff, List.flatMap_eq_nil_iff]
  exact ⟨hmade.unconnected .input, hmade.unconnected .output⟩

theorem Shaped.made {block : Block} (hshaped : block.Shaped) (hedges : block.edgeIds = []) :
    block.Made := by
  simp only [edgeIds, inputEdges, outputEdges, List.append_eq_nil_iff,
    List.flatMap_eq_nil_iff] at hedges
  refine ⟨hshaped, fun side => ?_⟩
  cases side
  · exact hedges.1
  · exact hedges.2

end Block

namespace TaskGraph

def payload? (graph : TaskGraph) (task : TaskId) : Option Payload :=
  (graph.block? task).map Block.payload

def port? (graph : TaskGraph) (side : PortSide) (task : TaskId) (index : Nat) : Option Port :=
  (graph.block? task).bind fun block => (block.ports side)[index]?

def extent? (graph : TaskGraph) (side : PortSide) (task : TaskId) (index : Nat) : Option Shape :=
  (graph.port? side task index).map Port.shape

theorem payload?_eq_some_iff {graph : TaskGraph} {task : TaskId} {payload : Payload} :
    graph.payload? task = some payload ↔
      ∃ block, graph.block? task = some block ∧ block.payload = payload :=
  Option.map_eq_some_iff

theorem port?_eq_some_iff {graph : TaskGraph} {side : PortSide} {task : TaskId} {index : Nat}
    {port : Port} :
    graph.port? side task index = some port ↔
      ∃ block, graph.block? task = some block ∧ (block.ports side)[index]? = some port :=
  Option.bind_eq_some_iff

end TaskGraph

end TiledPlacement

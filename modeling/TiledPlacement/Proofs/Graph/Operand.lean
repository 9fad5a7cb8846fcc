import TiledPlacement.Proofs.Graph.Port
import TiledPlacement.Proofs.Window.Region

/-!
Extents of the data at the ports of a block. Along each axis the data extends as the axis of the
computation that lies there does, and no port is without elements.
-/

namespace TiledPlacement

namespace AxisMap

/-- The axis of the computation that lies along an axis of the data. -/
def source? (map : AxisMap) (axis : Axis) : Option Axis :=
  (map.pairs.reverse.find? fun pair => decide (pair.1 = axis)).map (·.2)

theorem get_shape (map : AxisMap) (block : Shape) (axis : Axis) :
    (map.shape block).get axis = ((map.source? axis).map block.get).getD 0 := by
  have hfold : ∀ (pairs : List (Axis × Axis)) (start : Shape),
      (pairs.foldl (fun data pair => data.set pair.1 (block.get pair.2)) start).get axis =
        (((pairs.reverse.find? fun pair => decide (pair.1 = axis)).map (·.2)).map
          block.get).getD (start.get axis) := by
    intro pairs
    induction pairs with
    | nil => exact fun _ => rfl
    | cons pair rest induction =>
        intro start
        rw [List.foldl_cons, induction, Shape.get_set, List.reverse_cons, List.find?_append]
        cases rest.reverse.find? fun pair => decide (pair.1 = axis) with
        | some found => rfl
        | none =>
            by_cases hsame : axis = pair.1
            · simp [hsame]
            · simp [hsame, Ne.symm hsame]
  have hwhole := hfold map.pairs Shape.zero
  rw [Shape.get_zero] at hwhole
  exact hwhole

theorem has_shape (map : AxisMap) (block : Shape) (axis : Axis) :
    (map.shape block).has axis = ((map.source? axis).map block.has).getD false := by
  rw [Shape.has, get_shape]
  cases map.source? axis <;> rfl

theorem elements_shape_pos {map : AxisMap} {block : Shape} {axis along : Axis}
    (hlogical : axis.isLogical = true) (hsource : map.source? axis = some along)
    (hhas : block.has along = true) : 0 < (map.shape block).elements := by
  refine Shape.elements_pos_iff.mpr ⟨axis, hlogical, ?_⟩
  rw [has_shape, hsource]
  exact hhas

end AxisMap

namespace Computation

variable {computation : Computation}

/-- The axes that are asked for are there, and the output has the extents that the sliding window
makes of the input. -/
theorem shapeFault?_eq_none_iff :
    computation.shapeFault? = none ↔
      (∀ axis ∈ computation.operation.requiredAxes, computation.shape.has axis = true) ∧
        ∀ window, computation.operation.window? = some window →
          window.outputExtent? .iy computation.shape.iy computation.shape.ky =
              some computation.shape.y ∧
            window.outputExtent? .ix computation.shape.ix computation.shape.kx =
              some computation.shape.x := by
  have hfault : ∀ window outputAxis inputAxis kernelAxis,
      computation.windowFault? window outputAxis inputAxis kernelAxis = none ↔
        window.outputExtent? inputAxis (computation.shape.get inputAxis)
          (computation.shape.get kernelAxis) = some (computation.shape.get outputAxis) := by
    intro window outputAxis inputAxis kernelAxis
    unfold windowFault?
    dsimp only
    split
    case isTrue hequal => exact iff_of_true rfl hequal
    case isFalse hdiffer => exact iff_of_false (fun hnone => Option.some_ne_none _ hnone) hdiffer
  have hpresent : (computation.operation.requiredAxes.find? fun axis =>
      !computation.shape.has axis) = none ↔
        ∀ axis ∈ computation.operation.requiredAxes, computation.shape.has axis = true := by
    simp only [List.find?_eq_none, Bool.not_eq_true', Bool.not_eq_false]
  unfold shapeFault?
  dsimp only
  rw [← hpresent]
  cases computation.operation.requiredAxes.find? fun axis => !computation.shape.has axis with
  | some axis => exact ⟨fun hnone => (Option.some_ne_none _ hnone).elim,
      fun hboth => (Option.some_ne_none _ hboth.1).elim⟩
  | none =>
      cases computation.operation.window? with
      | none => simp
      | some window =>
          simp only [true_and, Option.some.injEq, forall_eq']
          refine Iff.trans ?_ (and_congr (hfault window .y .iy .ky) (hfault window .x .ix .kx))
          cases computation.windowFault? window .y .iy .ky <;> simp

theorem has_of_required (hfault : computation.shapeFault? = none) {axis : Axis}
    (hrequired : axis ∈ computation.operation.requiredAxes) :
    computation.shape.has axis = true :=
  (shapeFault?_eq_none_iff.mp hfault).1 axis hrequired

theorem has_f (hfault : computation.shapeFault? = none) : computation.shape.has .f = true := by
  apply has_of_required hfault
  cases computation.operation <;> simp [Operation.requiredAxes]

def operands (computation : Computation) : List (OperandRole × AxisMap) :=
  match computation.operation with
  | .convolution .. => [(.activation, .convolutionInput), (.weight, .convolutionWeight)]
  | .convolution2d .. => [(.activation, .convolutionInput), (.weight, .convolutionWeight)]
  | .vectorMatrix .. => [(.activation, .vectorInput), (.weight, .matrixWeight)]
  | .accumulate .. =>
      List.replicate (Nat.max computation.shape.r 1) (.activation, .elementwise)
  | .averagePool .. => [(.activation, .poolInput)]
  | .binaryCompare .. => [(.activation, .poolInput)]
  | .signedCompare .. => [(.activation, .poolInput)]
  | .vectorProduct .. => [(.activation, .elementwise), (.activation, .elementwise)]
  | .channelScale .. => [(.activation, .elementwise), (.weight, .channel)]
  | .lookup => [(.activation, .elementwise), (.table, .table)]
  | .vectorShift .. => [(.activation, .elementwise)]
  | .integrateAndFire .. => [(.activation, .elementwise)]

theorem inputs_eq (computation : Computation) :
    computation.inputs = computation.operands ++
      if computation.hasBiasPort then [(.bias, .channel)] else [] := by
  have hinputs : computation.inputs =
      if computation.hasBiasPort then computation.operands ++ [(.bias, .channel)]
      else computation.operands := rfl
  rw [hinputs]
  split
  case isTrue => rfl
  case isFalse => rw [List.append_nil]

theorem exists_source (hfault : computation.shapeFault? = none)
    {input : OperandRole × AxisMap} (hinput : input ∈ computation.inputs) :
    ∃ axis along, axis.isLogical = true ∧ input.2.source? axis = some along ∧
      computation.shape.has along = true := by
  have hf := has_f hfault
  rw [inputs_eq, List.mem_append] at hinput
  rcases hinput with hoperand | hbias
  · have hrequired : ∀ axis, axis ∈ computation.operation.requiredAxes →
        computation.shape.has axis = true := fun _ => has_of_required hfault
    unfold operands at hoperand
    cases hoperation : computation.operation <;> rw [hoperation] at hoperand hrequired <;>
      simp only [List.mem_cons, List.not_mem_nil, or_false, List.mem_replicate] at hoperand
    case accumulate =>
      obtain ⟨-, rfl⟩ := hoperand
      exact ⟨.f, .f, rfl, rfl, hf⟩
    case convolution | convolution2d | vectorMatrix =>
      rcases hoperand with rfl | rfl
      · exact ⟨.f, .r, rfl, rfl, hrequired .r (by simp [Operation.requiredAxes])⟩
      · exact ⟨.f, .f, rfl, rfl, hf⟩
    case lookup =>
      rcases hoperand with rfl | rfl
      · exact ⟨.f, .f, rfl, rfl, hf⟩
      · exact ⟨.r, .r, rfl, rfl, hrequired .r (by simp [Operation.requiredAxes])⟩
    case vectorProduct | channelScale =>
      rcases hoperand with rfl | rfl <;> exact ⟨.f, .f, rfl, rfl, hf⟩
    all_goals
      obtain rfl := hoperand
      exact ⟨.f, .f, rfl, rfl, hf⟩
  · split at hbias
    case isTrue =>
      obtain rfl := List.mem_singleton.mp hbias
      exact ⟨.f, .f, rfl, rfl, hf⟩
    case isFalse => cases hbias

end Computation

/-- A block that could be made has no port without elements. -/
theorem Payload.Valid.elements_pos {payload : Payload} (hvalid : payload.Valid)
    {side : PortSide} {shape : Shape} (hshape : shape ∈ payload.shapes side) :
    0 < shape.elements := by
  cases payload with
  | storage tensor =>
      have helements : 0 < tensor.shape.elements :=
        Nat.lt_of_lt_of_le (Nat.pos_of_ne_zero hvalid) (word_le _)
      cases side <;> rwa [List.eq_of_mem_replicate hshape]
  | computation primitive =>
      cases side
      · obtain ⟨input, hinput, rfl⟩ := List.mem_map.mp hshape
        obtain ⟨axis, along, hlogical, hsource, hhas⟩ :=
          Computation.exists_source hvalid.1 hinput
        exact AxisMap.elements_shape_pos hlogical hsource hhas
      · obtain rfl := List.mem_singleton.mp hshape
        exact @AxisMap.elements_shape_pos .elementwise _ .f .f rfl rfl (Computation.has_f hvalid.1)

end TiledPlacement

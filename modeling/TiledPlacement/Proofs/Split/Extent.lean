import TiledPlacement.Proofs.Graph.Operand
import TiledPlacement.Proofs.Split.Division

/-!
The window of the whole that a part covers, and the ports of the copy that runs on it. What a copy
reads and writes lies in what the whole reads and writes, along the same axes.
-/

namespace TiledPlacement

namespace AxisMap

theorem liesIn_window {map : AxisMap} {region : Window} {shape : Shape}
    (hregion : ∀ axis along, map.source? axis = some along →
      region.size.has along = shape.has along ∧ region.stop along ≤ shape.get along) :
    (map.window region).LiesIn (map.shape shape) := by
  have hstop : ∀ axis, (map.window region).stop axis =
      ((map.source? axis).map region.stop).getD 0 := by
    intro axis
    rw [Window.stop, window, get_shape, get_shape]
    cases map.source? axis <;> rfl
  intro axis _
  rw [hstop, window, has_shape, has_shape, get_shape]
  cases hsource : map.source? axis with
  | none => exact ⟨rfl, Nat.le_refl 0⟩
  | some along => exact hregion axis along hsource

end AxisMap

namespace Operation

variable (operation : Operation) (window : KernelWindow) (shift : UInt8)

@[simp] theorem requiredAxes_withWindow :
    (operation.withWindow window).requiredAxes = operation.requiredAxes := by
  cases operation <;> rfl

@[simp] theorem requiredAxes_withShift :
    (operation.withShift shift).requiredAxes = operation.requiredAxes := by
  cases operation <;> rfl

@[simp] theorem takesVectorBias_withWindow :
    (operation.withWindow window).takesVectorBias = operation.takesVectorBias := by
  cases operation <;> rfl

@[simp] theorem takesVectorBias_withShift :
    (operation.withShift shift).takesVectorBias = operation.takesVectorBias := by
  cases operation <;> rfl

@[simp] theorem engine_withWindow : (operation.withWindow window).engine = operation.engine := by
  cases operation <;> rfl

@[simp] theorem engine_withShift : (operation.withShift shift).engine = operation.engine := by
  cases operation <;> rfl

theorem inputs_required {operation : Operation} {window : KernelWindow}
    (hwindow : operation.window? = some window) :
    Axis.iy ∈ operation.requiredAxes ∧ Axis.ix ∈ operation.requiredAxes := by
  cases operation <;> first | cases hwindow; done | simp [requiredAxes]

end Operation

namespace SplitPart

variable {part : SplitPart} {whole : Computation} {factors : SplitVector} {reduce : Bool}

@[simp] theorem shape_computation :
    (part.computation whole factors reduce).shape = (part.window whole factors).size := by
  unfold computation
  cases reduce <;> rfl

section Feature

/-! What neither the window of an operation nor its shift decides is the same for a part. -/

variable {α : Type} {feature : Operation → α}
  (hwindow : ∀ operation window, feature (operation.withWindow window) = feature operation)
include hwindow

theorem feature_operation : feature (part.operation whole factors) = feature whole.operation := by
  unfold operation
  split
  case h_1 => exact hwindow _ _
  case h_2 => rfl

theorem feature_computation
    (hshift : ∀ operation shift, feature (operation.withShift shift) = feature operation) :
    feature (part.computation whole factors reduce).operation = feature whole.operation := by
  unfold computation
  cases reduce
  · exact feature_operation hwindow
  · exact (hshift _ _).trans (feature_operation hwindow)

end Feature

theorem requiredAxes_computation :
    (part.computation whole factors reduce).operation.requiredAxes =
      whole.operation.requiredAxes :=
  feature_computation Operation.requiredAxes_withWindow Operation.requiredAxes_withShift

theorem takesVectorBias_computation :
    (part.computation whole factors reduce).operation.takesVectorBias =
      whole.operation.takesVectorBias :=
  feature_computation Operation.takesVectorBias_withWindow Operation.takesVectorBias_withShift

theorem engine_computation :
    (part.computation whole factors reduce).operation.engine = whole.operation.engine :=
  feature_computation Operation.engine_withWindow Operation.engine_withShift

theorem position_window (axis : Axis) :
    (part.window whole factors).position.get axis = (part.interval whole factors axis).start :=
  Shape.get_ofFunction _ axis

theorem size_window (axis : Axis) :
    (part.window whole factors).size.get axis = (part.interval whole factors axis).length :=
  Shape.get_ofFunction _ axis

theorem of_mem_intervals {shape : Shape} {axis : Axis} {interval : Interval}
    (hmember : interval ∈ intervals shape factors axis) :
    (0 < interval.length ↔ shape.has axis = true) ∧ interval.start ≤ interval.stop ∧
      interval.stop ≤ shape.get axis := by
  unfold intervals at hmember
  by_cases hhas : shape.has axis = true
  · rw [if_pos hhas] at hmember
    obtain ⟨hless, hle⟩ := Interval.of_mem_averageSplit hmember
    refine ⟨⟨fun _ => hhas, fun _ => ?_⟩, Nat.le_of_lt hless, hle⟩
    exact Nat.sub_pos_of_lt hless
  · rw [if_neg hhas] at hmember
    obtain rfl := List.mem_singleton.mp hmember
    exact ⟨⟨fun hpositive => absurd hpositive (Nat.lt_irrefl 0), fun htrue => absurd htrue hhas⟩,
      Nat.le_refl 0, Nat.zero_le _⟩

theorem interval_mem (hpart : part ∈ all whole.shape factors) :
    ∀ axis ∈ Axis.splittable,
      part.interval whole factors axis ∈ intervals whole.shape factors axis := by
  obtain ⟨hy, hx, hf, hr⟩ := mem_all_iff.mp hpart
  exact Axis.forall_splittable.mpr ⟨hy, hx, hf, List.fst_mem_of_mem_zipIdx hr⟩

theorem window_splittable (hpart : part ∈ all whole.shape factors) {axis : Axis}
    (hsplittable : axis ∈ Axis.splittable) :
    (part.window whole factors).size.has axis = whole.shape.has axis ∧
      (part.window whole factors).stop axis ≤ whole.shape.get axis := by
  obtain ⟨hlength, hstart, hstop⟩ := of_mem_intervals (interval_mem hpart axis hsplittable)
  refine ⟨?_, ?_⟩
  · rw [Bool.eq_iff_iff, Shape.has_iff, size_window]
    exact hlength
  · rw [Window.stop, position_window, size_window, Interval.length]
    omega

/-- A part whose computation could be made has the axes of the whole and lies in it. -/
theorem window_region (hpart : part ∈ all whole.shape factors)
    (hwhole : whole.shapeFault? = none)
    (hcopy : (part.computation whole factors reduce).shapeFault? = none) (axis : Axis) :
    (part.window whole factors).size.has axis = whole.shape.has axis ∧
      (part.window whole factors).stop axis ≤ whole.shape.get axis := by
  have hrequired : ∀ other, other ∈ whole.operation.requiredAxes →
      (part.window whole factors).size.has other = whole.shape.has other := by
    intro other hother
    rw [Computation.has_of_required hwhole hother]
    have hhas := @Computation.has_of_required _ hcopy other
    rw [requiredAxes_computation, shape_computation] at hhas
    exact hhas hother
  have hwholeAxis : ∀ other, part.interval whole factors other = .upTo (whole.shape.get other) →
      (part.window whole factors).size.has other = whole.shape.has other ∧
        (part.window whole factors).stop other ≤ whole.shape.get other := by
    intro other hother
    rw [Window.stop, Shape.has, Shape.has, position_window, size_window, hother]
    exact ⟨rfl, Nat.le_of_eq (Nat.zero_add _)⟩
  have hclipped : ∀ {start stop : Nat} {other : Axis},
      part.interval whole factors other =
        ⟨Nat.min start (whole.shape.get other), Nat.min stop (whole.shape.get other)⟩ →
      (part.window whole factors).stop other ≤ whole.shape.get other := by
    intro start stop other hother
    rw [Window.stop, position_window, size_window, hother, Interval.length]
    dsimp only
    have hstart : Nat.min start (whole.shape.get other) ≤ whole.shape.get other :=
      Nat.min_le_right _ _
    have hstop : Nat.min stop (whole.shape.get other) ≤ whole.shape.get other :=
      Nat.min_le_right _ _
    omega
  cases axis
  case y | x | f | r => exact window_splittable hpart (by decide)
  case ky | kx => exact hwholeAxis _ rfl
  case iy =>
    cases hfield : part.fieldY? whole factors with
    | none => exact hwholeAxis .iy (by rw [interval, hfield]; rfl)
    | some field =>
        have hinterval : part.interval whole factors .iy = field.input := by
          rw [interval, hfield]
          rfl
        unfold fieldY? at hfield
        split at hfield
        case isTrue => cases hfield
        case isFalse =>
          obtain ⟨window, hwindow, rfl⟩ := Option.map_eq_some_iff.mp hfield
          exact ⟨hrequired .iy (Operation.inputs_required hwindow).1, hclipped hinterval⟩
  case ix =>
    cases hfield : part.fieldX? whole factors with
    | none => exact hwholeAxis .ix (by rw [interval, hfield]; rfl)
    | some field =>
        have hinterval : part.interval whole factors .ix = field.input := by
          rw [interval, hfield]
          rfl
        unfold fieldX? at hfield
        split at hfield
        case isTrue => cases hfield
        case isFalse =>
          obtain ⟨window, hwindow, rfl⟩ := Option.map_eq_some_iff.mp hfield
          exact ⟨hrequired .ix (Operation.inputs_required hwindow).2, hclipped hinterval⟩

/-! Inputs. -/

theorem operands_computation
    (haddends : ∀ shift, whole.operation = .accumulate shift →
      (part.window whole factors).size.r = whole.shape.r) :
    (part.computation whole factors reduce).operands = whole.operands := by
  have hshape := @shape_computation part whole factors reduce
  unfold Computation.operands
  rw [hshape]
  cases hoperation : whole.operation <;>
    simp only [computation, operation, hoperation, Operation.window?, Operation.withWindow] <;>
    cases reduce <;> simp only [Operation.withShift, if_true, Bool.false_eq_true, if_false]
  case accumulate.false shift => rw [haddends shift hoperation]
  case accumulate.true shift => rw [haddends shift hoperation]

private theorem hasBiasPort_computation
    (hbias : (part.computation whole factors reduce).hasBiasPort = true) :
    whole.hasBiasPort = true := by
  simp only [Computation.hasBiasPort, Bool.and_eq_true, beq_iff_eq] at hbias ⊢
  obtain ⟨hvector, htaken⟩ := hbias
  refine ⟨?_, takesVectorBias_computation.symm.trans htaken⟩
  unfold computation at hvector
  cases reduce
  · exact hvector
  · rw [if_pos rfl] at hvector
    dsimp only at hvector
    split at hvector
    case isTrue => cases hvector
    case isFalse => exact hvector

/-- A copy has the inputs of the whole, but for a bias that only the first addend reads. -/
theorem inputs_computation
    (haddends : ∀ shift, whole.operation = .accumulate shift →
      (part.window whole factors).size.r = whole.shape.r) :
    (part.computation whole factors reduce).inputs <+: whole.inputs := by
  rw [Computation.inputs_eq, Computation.inputs_eq, operands_computation haddends]
  refine (List.prefix_append_right_inj _).mpr ?_
  by_cases hbias : (part.computation whole factors reduce).hasBiasPort = true
  · simp only [hbias, hasBiasPort_computation hbias, if_true, List.prefix_rfl]
  · rw [if_neg hbias]
    exact List.nil_prefix

theorem addends_uncut {task : TaskId} {vector : SplitVector}
    (hfactors : whole.effectiveFactors task vector = .ok factors)
    (hpart : part ∈ all whole.shape factors) {shift : UInt8}
    (haccumulate : whole.operation = .accumulate shift) :
    (part.window whole factors).size.r = whole.shape.r := by
  have hrefuses : whole.refusesCut .r = true := by
    unfold Computation.refusesCut
    rw [haccumulate]
  have hone : factors.along .r = 1 := by
    rcases Computation.of_allowedParts
      (Computation.of_effectiveFactors hfactors .r (by decide)) with hone | ⟨-, hallows, -⟩
    · exact hone
    · rw [hrefuses] at hallows
      cases hallows
  obtain ⟨-, -, -, hr⟩ := mem_all_iff.mp hpart
  have hinterval := List.fst_mem_of_mem_zipIdx hr
  rw [intervals_of_one hone] at hinterval
  have hwhole : part.r = .upTo whole.shape.r := List.mem_singleton.mp hinterval
  have hsize : (part.window whole factors).size.r = part.r.length := rfl
  rw [hsize, hwhole]
  rfl

/-! Outputs. -/

private theorem covers_output_along_iff (hpart : part ∈ all whole.shape factors) {element : Datum}
    (helement : (Window.full (Computation.output.shape whole.shape)).Covers element) {axis : Axis}
    {interval : Interval} (hmember : axis ∈ [Axis.y, .x, .f])
    (hinterval : part.interval whole factors axis = interval)
    (hsource : Computation.output.source? axis = some axis) :
    (if (Computation.output.window (part.window whole factors)).spans axis then
        (Computation.output.window (part.window whole factors)).position.get axis ≤ element axis ∧
          element axis < (Computation.output.window (part.window whole factors)).stop axis
      else element axis = 0) ↔ Within whole.shape axis interval (element axis) := by
  have hlogical : axis.isLogical = true := by
    simp only [List.mem_cons, List.not_mem_nil, or_false] at hmember
    obtain rfl | rfl | rfl := hmember <;> rfl
  have hsplittable : axis ∈ Axis.splittable := by
    simp only [List.mem_cons, List.not_mem_nil, or_false] at hmember
    obtain rfl | rfl | rfl := hmember <;> decide
  have hspans : (Computation.output.window (part.window whole factors)).spans axis =
      whole.shape.has axis := by
    rw [Window.spans, hlogical, Bool.true_and, AxisMap.window, AxisMap.has_shape, hsource]
    exact (window_splittable hpart hsplittable).1
  have hzero : ¬whole.shape.has axis = true → element axis = 0 := by
    intro hnot
    refine helement.of_not_spans ?_
    rw [Window.spans, hlogical, Bool.true_and, Window.full, AxisMap.has_shape, hsource]
    exact hnot
  rw [hspans, Within, Interval.Contains]
  split
  case isFalse hnot => exact ⟨fun _ htrue => absurd htrue hnot, fun _ => hzero hnot⟩
  case isTrue hhas =>
    have hlength := (window_splittable hpart hsplittable).1
    rw [hhas, Shape.has_iff, size_window, hinterval, Interval.length] at hlength
    rw [Window.stop, AxisMap.window, AxisMap.get_shape, AxisMap.get_shape, hsource]
    simp only [Option.map_some, Option.getD_some, position_window, size_window, hinterval,
      Interval.length]
    have hless : interval.start < interval.stop := Nat.lt_of_sub_pos hlength
    rw [Nat.add_sub_cancel' (Nat.le_of_lt hless)]
    exact ⟨fun hboth _ => hboth, fun hboth => hboth hhas⟩

/-- Of the elements of the output, the part has those at its own indices. -/
theorem covers_output_iff (hpart : part ∈ all whole.shape factors) {element : Datum}
    (helement : (Window.full (Computation.output.shape whole.shape)).Covers element) :
    (Computation.output.window (part.window whole factors)).Covers element ↔
      Within whole.shape .y part.y (element .y) ∧ Within whole.shape .x part.x (element .x) ∧
        Within whole.shape .f part.f (element .f) := by
  have hother : ∀ {axis : Axis}, Computation.output.source? axis = none →
      (if (Computation.output.window (part.window whole factors)).spans axis then
          (Computation.output.window (part.window whole factors)).position.get axis ≤
              element axis ∧
            element axis < (Computation.output.window (part.window whole factors)).stop axis
        else element axis = 0) := by
    intro axis hsource
    have hnone : ∀ block : Shape, (Computation.output.shape block).has axis = false := by
      intro block
      rw [AxisMap.has_shape, hsource]
      rfl
    rw [if_neg]
    · refine helement.of_not_spans ?_
      rw [Window.spans, Window.full, hnone, Bool.and_false]
      exact Bool.false_ne_true
    · rw [Window.spans, AxisMap.window, hnone, Bool.and_false]
      exact Bool.false_ne_true
  constructor
  · intro hcovers
    exact ⟨(covers_output_along_iff hpart helement (by decide) rfl rfl).mp (hcovers .y),
      (covers_output_along_iff hpart helement (by decide) rfl rfl).mp (hcovers .x),
      (covers_output_along_iff hpart helement (by decide) rfl rfl).mp (hcovers .f)⟩
  · intro hwithin
    obtain ⟨hy, hx, hf⟩ := hwithin
    intro axis
    cases axis
    case y => exact (covers_output_along_iff hpart helement (by decide) rfl rfl).mpr hy
    case x => exact (covers_output_along_iff hpart helement (by decide) rfl rfl).mpr hx
    case f => exact (covers_output_along_iff hpart helement (by decide) rfl rfl).mpr hf
    all_goals exact hother rfl

/-- Each element of the output belongs to one part for each interval of the `r` axis. -/
theorem existsUnique_covers (hdivides : factors.Divides whole.shape) {element : Datum}
    (helement : (Window.full (Computation.output.shape whole.shape)).Covers element) {addend : Nat}
    (haddend : addend < (intervals whole.shape factors .r).length) :
    ∃! part, part ∈ all whole.shape factors ∧ part.addend = addend ∧
      (Computation.output.window (part.window whole factors)).Covers element := by
  have hbelow : ∀ axis, axis ∈ [Axis.y, .x, .f] →
      whole.shape.has axis = true → element axis < whole.shape.get axis := by
    intro axis hmember hhas
    have hfull := Window.covers_full_iff.mp helement axis
    rw [AxisMap.has_shape, AxisMap.get_shape] at hfull
    simp only [List.mem_cons, List.not_mem_nil, or_false] at hmember
    obtain rfl | rfl | rfl := hmember <;> exact (if_pos hhas).mp hfull
  obtain ⟨part, ⟨hpart, haddendPart, hwithin⟩, honly⟩ :=
    existsUnique_part hdivides hbelow haddend
  refine ⟨part, ⟨hpart, haddendPart, (covers_output_iff hpart helement).mpr hwithin⟩, ?_⟩
  intro other hother
  obtain ⟨hmember, hotherAddend, hcovers⟩ := hother
  exact honly other ⟨hmember, hotherAddend, (covers_output_iff hmember helement).mp hcovers⟩

end SplitPart

end TiledPlacement

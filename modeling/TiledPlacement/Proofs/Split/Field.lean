import TiledPlacement.Proofs.Split.Taps

/-!
Receptive fields. A window that is given the field of some outputs for its input, and the padding
that the field leaves, reads for these outputs what it read before and yields no others; so the
parts of a computation that can be run can be run as well. All this as long as the way of the kernel
is computed in words without loss.
-/

namespace TiledPlacement

namespace Padding

@[simp] theorem before_setAlong (padding : Padding) (axis : Axis) (before after : Nat) :
    (padding.setAlong axis before after).before axis = before := by
  cases axis <;> rfl

@[simp] theorem after_setAlong (padding : Padding) (axis : Axis) (before after : Nat) :
    (padding.setAlong axis before after).after axis = after := by
  cases axis <;> rfl

end Padding

namespace KernelWindow

variable {window : KernelWindow} {axis : Axis} {extent taps : Nat} {output : Interval}

/-- The window with the padding that a field has left. -/
def onto (window : KernelWindow) (axis : Axis) (field : ReceptiveField) : KernelWindow :=
  { window with padding := window.padding.setAlong axis field.before field.after }

theorem FieldBounded.follows_onto (hbounded : window.FieldBounded axis extent taps output) :
    window.Follows (window.onto axis (window.field axis extent taps output)) axis extent taps output
      (window.field axis extent taps output).input :=
  .field hbounded rfl (Padding.before_setAlong _ _ _ _) (Padding.after_setAlong _ _ _ _)

theorem FieldBounded.tap?_onto (hbounded : window.FieldBounded axis extent taps output)
    {place tap : Nat} (hplace : output.Contains place) (htap : tap < taps) :
    window.tap? axis extent place tap =
      ((window.onto axis (window.field axis extent taps output)).tap? axis
        (window.field axis extent taps output).input.length (place - output.start) tap).map
          ((window.field axis extent taps output).input.start + ·) := by
  have hindex : place - output.start < output.length :=
    Nat.sub_lt_sub_right hplace.1 hplace.2
  have htapped := hbounded.follows_onto.tap rfl rfl hindex htap
  rwa [Nat.add_sub_cancel' hplace.1] at htapped

theorem FieldBounded.outputExtent?_onto
    (hbounded : window.FieldBounded axis extent taps output)
    (hpositive : 0 < window.stride axis) (htaps : 0 < taps) (houtput : 0 < output.length)
    (hinput : 0 < (window.field axis extent taps output).input.length) :
    (window.onto axis (window.field axis extent taps output)).outputExtent? axis
      (window.field axis extent taps output).input.length taps = some output.length :=
  hbounded.follows_onto.outputExtent? rfl rfl hpositive htaps houtput hinput

theorem pos_of_outputExtent? {input count : Nat}
    (hextent : window.outputExtent? axis input taps = some count) :
    0 < window.stride axis ∧ 0 < taps := by
  unfold outputExtent? at hextent
  dsimp only at hextent
  split at hextent
  case isTrue => cases hextent
  case isFalse hfits =>
    obtain ⟨hreach, hstride, -⟩ := not_or.mp hfits |>.imp_right not_or.mp
    refine ⟨Nat.pos_of_ne_zero hstride, Nat.pos_of_ne_zero fun hzero => hreach ?_⟩
    rw [reach, if_pos hzero]

end KernelWindow

namespace SplitPart

variable {part : SplitPart} {whole : Computation} {factors : SplitVector} {reduce : Bool}

/-- What the part reads along the axes of the sliding window is not padding only. -/
structure MeetsInput (part : SplitPart) (whole : Computation) (factors : SplitVector) : Prop where
  alongY : ∀ field, part.fieldY? whole factors = some field → 0 < field.input.length
  alongX : ∀ field, part.fieldX? whole factors = some field → 0 < field.input.length

theorem MeetsInput.interval_pos (hmeets : part.MeetsInput whole factors)
    (hpart : part ∈ all whole.shape factors) {axis : Axis} (hhas : whole.shape.has axis = true) :
    0 < (part.interval whole factors axis).length := by
  have hextent := Shape.has_iff.mp hhas
  cases axis
  case y | x | f | r => exact (of_mem_intervals (interval_mem hpart _ (by decide))).1.mpr hhas
  case ky | kx => exact hextent
  case iy =>
    rw [interval]
    cases hfield : part.fieldY? whole factors with
    | none => exact hextent
    | some field => exact hmeets.alongY field hfield
  case ix =>
    rw [interval]
    cases hfield : part.fieldX? whole factors with
    | none => exact hextent
    | some field => exact hmeets.alongX field hfield

theorem MeetsInput.shapeFault? (hmeets : part.MeetsInput whole factors)
    (hkernel : whole.KernelBounded)
    (hpart : part ∈ all whole.shape factors) (hwhole : whole.shapeFault? = none) :
    (part.computation whole factors reduce).shapeFault? = none := by
  have hpositive : ∀ axis ∈ whole.operation.requiredAxes,
      0 < (part.interval whole factors axis).length := fun axis hrequired =>
    hmeets.interval_pos hpart (Computation.has_of_required hwhole hrequired)
  rw [Computation.shapeFault?_eq_none_iff, requiredAxes_computation, shape_computation]
  refine ⟨fun axis hrequired => ?_, fun cut hcut => ?_⟩
  · rw [Shape.has_iff, size_window]
    exact hpositive axis hrequired
  · rw [window_computation] at hcut
    obtain ⟨window, hwindow, rfl⟩ := Option.map_eq_some_iff.mp hcut
    obtain ⟨hextentY, hextentX⟩ :=
      (Computation.shapeFault?_eq_none_iff.mp hwhole).2 window hwindow
    obtain ⟨hstrideY, htapsY⟩ := KernelWindow.pos_of_outputExtent? hextentY
    obtain ⟨hstrideX, htapsX⟩ := KernelWindow.pos_of_outputExtent? hextentX
    obtain ⟨hinputY, hinputX⟩ := Operation.inputs_required hwindow
    have houtput : ∀ axis, axis ∈ [Axis.y, .x] → 0 < (part.interval whole factors axis).length :=
      fun axis haxis => hpositive axis (Operation.outputs_required hwindow haxis)
    exact ⟨(follows_y hkernel hpart hwhole hwindow).outputExtent? rfl rfl hstrideY htapsY
        (houtput .y (by decide)) (hpositive .iy hinputY),
      (follows_x hkernel hpart hwhole hwindow).outputExtent? rfl rfl hstrideX htapsX
        (houtput .x (by decide)) (hpositive .ix hinputX)⟩

theorem meetsInput_of_shapeFault?
    (hcopy : (part.computation whole factors reduce).shapeFault? = none) :
    part.MeetsInput whole factors := by
  have hrequired : ∀ {axis}, axis ∈ whole.operation.requiredAxes →
      0 < (part.interval whole factors axis).length := by
    intro axis haxis
    have hhas := @Computation.has_of_required _ hcopy axis
    rw [requiredAxes_computation, shape_computation, Shape.has_iff, size_window] at hhas
    exact hhas haxis
  have hwindowed : ∀ {one : Prop} [Decidable one] {read : KernelWindow → ReceptiveField} {field},
      (if one then none else whole.operation.window?.map read) = some field →
        ∃ window, whole.operation.window? = some window := by
    intro one _ read field hfield
    rw [Option.ite_none_left_eq_some] at hfield
    obtain ⟨window, hwindow, -⟩ := Option.map_eq_some_iff.mp hfield.2
    exact ⟨window, hwindow⟩
  constructor
  · intro field hfield
    obtain ⟨window, hwindow⟩ := hwindowed hfield
    have hpositive := hrequired (Operation.inputs_required hwindow).1
    rwa [interval, hfield] at hpositive
  · intro field hfield
    obtain ⟨window, hwindow⟩ := hwindowed hfield
    have hpositive := hrequired (Operation.inputs_required hwindow).2
    rwa [interval, hfield] at hpositive

private theorem bias_computation
    (hbias : (part.computation whole factors reduce).bias = .vector) : whole.bias = .vector := by
  unfold computation at hbias
  cases reduce with
  | false => exact hbias
  | true =>
      rw [if_pos rfl] at hbias
      dsimp only at hbias
      split at hbias
      case isTrue => cases hbias
      case isFalse => exact hbias

/-- Whether the copy of a part can be run depends on whether it meets the input. -/
theorem check_computation_iff {task copy : TaskId} (hkernel : whole.KernelBounded)
    (hwhole : whole.check task = .ok ())
    (hpart : part ∈ all whole.shape factors) :
    (part.computation whole factors reduce).check copy = .ok () ↔
      part.MeetsInput whole factors := by
  obtain ⟨hfault, hbias⟩ := Computation.check_eq_ok_iff.mp hwhole
  rw [Computation.check_eq_ok_iff]
  refine ⟨fun hcopy => meetsInput_of_shapeFault? hcopy.1, fun hmeets =>
    ⟨hmeets.shapeFault? hkernel hpart hfault, fun hboth => hbias ⟨bias_computation hboth.1, ?_⟩⟩⟩
  exact takesVectorBias_computation.symm.trans hboth.2

end SplitPart

/-- As long as the way of the kernel is computed in words without loss, receptive fields are exact.
A tap of a window that runs on the field of an interval of outputs meets the element of the input
that it met in the whole, or the padding where it met the padding; the window yields as many outputs
as the interval has, if the field is not empty; and so the copies of a computation that passes its
check pass it as well, unless they meet nothing but padding. -/
theorem ReceptiveField.exact :
    (∀ (window : KernelWindow) (axis : Axis) (extent taps : Nat) (output : Interval),
      0 < window.stride axis → 0 < taps → output.start < output.stop →
      window.FieldBounded axis extent taps output →
        let field := ofOutput output (window.stride axis) (window.reach axis taps)
          (window.padding.before axis) extent
        (∀ place tap, output.Contains place → tap < taps →
          window.tap? axis extent place tap =
            ((window.onto axis field).tap? axis field.input.length (place - output.start) tap).map
              (field.input.start + ·)) ∧
          (0 < field.input.length →
            (window.onto axis field).outputExtent? axis field.input.length taps =
              some (output.stop - output.start))) ∧
      ∀ (whole : Computation) (task copy : TaskId) (factors : SplitVector) (part : SplitPart)
        (reduce : Bool), whole.KernelBounded → whole.check task = .ok () →
        part ∈ SplitPart.all whole.shape factors →
          ((part.computation whole factors reduce).check copy = .ok () ↔
            part.MeetsInput whole factors) := by
  refine ⟨fun window axis extent taps output hstride htaps houtput hbounded => ⟨?_, ?_⟩, ?_⟩
  · exact fun place tap hplace htap => hbounded.tap?_onto hplace htap
  · exact hbounded.outputExtent?_onto hstride htaps (Nat.sub_pos_of_lt houtput)
  · exact fun whole task copy factors part reduce hkernel hwhole hpart =>
      SplitPart.check_computation_iff hkernel hwhole hpart

/-- Taps two rows apart that advance by two rows over six rows and a row of padding on each side. -/
def everyOtherRow : KernelWindow :=
  { strideY := 2, dilationY := 2, padding := { top := 1, bottom := 1 } }

def pooledRows : Computation :=
  ⟨.averagePool everyOtherRow 0, { y := 3, x := 1, f := 1, ky := 2, kx := 1, iy := 6, ix := 1 },
    .int8, .absent⟩

/-- The first of three rows reads two rows of the input below a row of padding. -/
theorem ReceptiveField.exact_everyOtherRow :
    everyOtherRow.tap? .iy 6 0 1 =
        ((everyOtherRow.onto .iy ⟨⟨0, 2⟩, 1, 0⟩).tap? .iy 2 0 1).map (0 + ·) ∧
      (everyOtherRow.onto .iy ⟨⟨0, 2⟩, 1, 0⟩).outputExtent? .iy 2 2 = some 1 ∧
        (SplitPart.computation ⟨⟨0, 1⟩, .upTo 1, .upTo 1, .upTo 0, 0⟩ pooledRows ⟨3, 1, 1, 1⟩
          false).check ⟨0⟩ = .ok () := by
  obtain ⟨hfield, hcheck⟩ := ReceptiveField.exact
  obtain ⟨htap, hextent⟩ := hfield everyOtherRow .iy 6 2 ⟨0, 1⟩ (by decide) (by decide) (by decide)
    ⟨by decide, by decide⟩
  refine ⟨htap 0 1 ⟨Nat.le_refl 0, Nat.one_pos⟩ (by decide), hextent (by decide), ?_⟩
  refine (hcheck pooledRows ⟨0⟩ ⟨0⟩ _ _ false (by decide) (by decide) (by decide)).mpr
    ⟨fun field hfield => ?_, fun field hfield => ?_⟩
  · obtain rfl := Option.some.inj hfield
    decide
  · cases hfield

/-- Two steps of half of the words lead back to the first of four rows, which the third output did
not read. -/
theorem ReceptiveField.misses_overflow :
    let window : KernelWindow := { strideY := 2 ^ 63 }
    let field := ofOutput ⟨2, 3⟩ (window.stride .iy) (window.reach .iy 1)
      (window.padding.before .iy) 4
    field.input = ⟨0, 1⟩ ∧ window.tap? .iy 4 2 0 = none ∧
      ((window.onto .iy field).tap? .iy field.input.length (2 - 2) 0).map
        (field.input.start + ·) = some 0 := by
  decide

end TiledPlacement

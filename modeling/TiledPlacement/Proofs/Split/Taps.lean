import TiledPlacement.Proofs.Graph.Arithmetic
import TiledPlacement.Proofs.Split.Extent

/-!
What a part of a reduction computes. The padding that a part keeps and the interval of the input
that it reads let every tap meet the element that it met in the whole, as long as they are computed
in words without loss, so that the result of the part is the share of its interval of the `r` axis
in the result of the whole.
-/

namespace TiledPlacement

open Finset

/-- Counted from the part of the padded input that some outputs read, a position meets the input
where it did, or the padding where it did. -/
theorem KernelWindow.unpad_add {before extent start stop first last position : Nat}
    (hfirst : first = min (start - before) extent) (hlast : last = min (stop - before) extent)
    (hreach : start + position < stop) :
    unpad? before extent (start + position) =
      (unpad? (before - start) (last - first) position).map (first + ·) := by
  unfold unpad?
  by_cases hinside : before ≤ start + position ∧ start + position - before < extent
  · rw [if_pos hinside, if_pos (by omega), Option.map_some]
    congr 1
    omega
  · rw [if_neg hinside, if_neg (by omega)]
    rfl

namespace KernelWindow

variable {window cut : KernelWindow} {axis : Axis} {extent taps index place : Nat}
  {output input : Interval}

/-- What an interval of outputs reads along an axis. -/
def field (window : KernelWindow) (axis : Axis) (extent taps : Nat) (output : Interval) :
    ReceptiveField :=
  .ofOutput output (window.stride axis) (window.reach axis taps) (window.padding.before axis)
    extent

/-- Where the kernel ends that yields the last of some outputs, and the input that it is held
against, are words. -/
structure FieldBounded (window : KernelWindow) (axis : Axis) (extent taps : Nat)
    (output : Interval) : Prop where
  stop : (output.stop - 1) * window.stride axis + ((taps - 1) * window.dilation axis + 1) <
    wordCount
  input : window.padding.before axis + extent < wordCount

/-- The reach of the kernel and the padded input are words. -/
structure Bounded (window : KernelWindow) (axis : Axis) (extent taps : Nat) : Prop where
  reach : (taps - 1) * window.dilation axis + 1 < wordCount
  padded : extent + window.padding.before axis + window.padding.after axis < wordCount

instance (window : KernelWindow) (axis : Axis) (extent taps : Nat) :
    Decidable (window.Bounded axis extent taps) :=
  decidable_of_iff (_ ∧ _) ⟨fun hboth => ⟨hboth.1, hboth.2⟩, fun hbounded =>
    ⟨hbounded.reach, hbounded.padded⟩⟩

theorem reach_eq (htaps : 0 < taps) (hfits : (taps - 1) * window.dilation axis + 1 < wordCount) :
    window.reach axis taps = (taps - 1) * window.dilation axis + 1 := by
  rw [reach, if_neg (Nat.ne_of_gt htaps), word_of_lt hfits]

/-- The kernel ends within the padded input wherever it yields an output. -/
theorem last_le_padded {count : Nat}
    (hextent : window.outputExtent? axis extent taps = some count) :
    (count - 1) * window.stride axis + window.reach axis taps ≤ window.padded axis extent := by
  unfold outputExtent? at hextent
  dsimp only at hextent
  split at hextent
  case isTrue => cases hextent
  case isFalse hfits =>
    obtain rfl := Option.some.inj hextent
    have hroom : window.reach axis taps ≤ window.padded axis extent :=
      Nat.not_lt.mp fun hless => hfits (Or.inr (Or.inr hless))
    have hsteps := Nat.div_mul_le_self (window.padded axis extent - window.reach axis taps)
      (window.stride axis)
    rw [Nat.add_sub_cancel]
    omega

theorem Bounded.field {count : Nat} (hbounded : window.Bounded axis extent taps)
    (htaps : 0 < taps) (hextent : window.outputExtent? axis extent taps = some count)
    (hstop : output.stop ≤ count) : window.FieldBounded axis extent taps output := by
  have hlast := last_le_padded hextent
  have hsteps : (output.stop - 1) * window.stride axis ≤ (count - 1) * window.stride axis :=
    Nat.mul_le_mul_right _ (Nat.sub_le_sub_right hstop 1)
  have hpadded : window.padded axis extent < wordCount := word_lt _
  rw [reach_eq htaps hbounded.reach] at hlast
  exact ⟨by omega, by have hsum := hbounded.padded; omega⟩

theorem FieldBounded.ofOutput (hbounded : window.FieldBounded axis extent taps output)
    (htaps : 0 < taps) (houtput : 0 < output.length) :
    word (output.start * window.stride axis) = output.start * window.stride axis ∧
      word ((output.stop - 1) * window.stride axis + window.reach axis taps) =
        (output.stop - 1) * window.stride axis + ((taps - 1) * window.dilation axis + 1) ∧
      word (window.padding.before axis + extent) = window.padding.before axis + extent := by
  have hstop := hbounded.stop
  have hsteps : output.start * window.stride axis ≤ (output.stop - 1) * window.stride axis := by
    apply Nat.mul_le_mul_right
    unfold Interval.length at houtput
    omega
  refine ⟨word_of_lt (by omega), ?_, word_of_lt hbounded.input⟩
  rw [reach_eq htaps (by omega), word_of_lt hstop]

/-- A window that reads, along one axis, what the outputs of an interval need. -/
inductive Follows (window cut : KernelWindow) (axis : Axis) (extent taps : Nat)
    (output input : Interval) : Prop
  | whole (houtput : output.start = 0)
      (hextent : window.outputExtent? axis extent taps = some output.length)
      (hinput : input = .upTo extent)
      (hbefore : cut.padding.before axis = window.padding.before axis)
      (hafter : cut.padding.after axis = window.padding.after axis)
  | field (hbounded : window.FieldBounded axis extent taps output)
      (hinput : input = (window.field axis extent taps output).input)
      (hbefore : cut.padding.before axis = (window.field axis extent taps output).before)
      (hafter : cut.padding.after axis = (window.field axis extent taps output).after)

theorem Follows.tap (hfollows : window.Follows cut axis extent taps output input)
    (hstride : cut.stride axis = window.stride axis)
    (hdilation : cut.dilation axis = window.dilation axis)
    (hindex : index < output.length) (hplace : place < taps) :
    window.tap? axis extent (output.start + index) place =
      (cut.tap? axis input.length index place).map (input.start + ·) := by
  unfold tap?
  rw [hstride, hdilation]
  cases hfollows with
  | whole houtput _ hwhole hbefore =>
      subst input
      rw [houtput, hbefore, Nat.zero_add]
      simp only [Interval.upTo, Interval.length, Nat.sub_zero, Nat.zero_add, Option.map_id']
  | field hbounded hfield hbefore =>
      subst input
      have houtput : 0 < output.length := Nat.zero_lt_of_lt hindex
      obtain ⟨hstart, hstop, -⟩ :=
        hbounded.ofOutput (Nat.zero_lt_of_lt hplace) houtput
      rw [hbefore, Nat.add_mul, Nat.add_assoc]
      simp only [KernelWindow.field, ReceptiveField.ofOutput, hstart, hstop]
      refine unpad_add rfl rfl ?_
      have hlast : (output.start + index) * window.stride axis ≤
          (output.stop - 1) * window.stride axis := by
        apply Nat.mul_le_mul_right
        unfold Interval.length at hindex
        omega
      have hlastTap : place * window.dilation axis ≤ (taps - 1) * window.dilation axis :=
        Nat.mul_le_mul_right _ (Nat.le_sub_one_of_lt hplace)
      rw [Nat.add_mul] at hlast
      omega

theorem outputExtent?_of_padded {input count : Nat} (hpositive : 0 < window.stride axis)
    (hreach : window.reach axis taps ≠ 0) (hcount : 0 < count)
    (hpadded : window.padded axis input =
      (count - 1) * window.stride axis + window.reach axis taps) :
    window.outputExtent? axis input taps = some count := by
  unfold outputExtent?
  dsimp only
  rw [hpadded, if_neg, Nat.add_sub_cancel, Nat.mul_div_cancel _ hpositive,
    Nat.sub_add_cancel hcount]
  rintro (hzero | hzero | hless)
  · exact hreach hzero
  · exact Nat.ne_of_gt hpositive hzero
  · exact Nat.not_lt.mpr (Nat.le_add_left _ _) hless

/-- What is left of the padding makes up for what was clipped. -/
private theorem padded_eq {before extent start stop first last : Nat}
    (hfirst : first = min (start - before) extent) (hlast : last = min (stop - before) extent)
    (hinput : first < last) :
    last - first + (before - start) + (stop - (before + extent)) = stop - start := by
  omega

theorem FieldBounded.padded_field (hbounded : window.FieldBounded axis extent taps output)
    (htaps : 0 < taps) (houtput : 0 < output.length)
    (hinput : 0 < (window.field axis extent taps output).input.length) :
    (window.field axis extent taps output).input.length +
        (window.field axis extent taps output).before +
          (window.field axis extent taps output).after =
      (output.length - 1) * window.stride axis + ((taps - 1) * window.dilation axis + 1) := by
  obtain ⟨hfirst, hlast, hroom⟩ := hbounded.ofOutput htaps houtput
  simp only [field, ReceptiveField.ofOutput, hfirst, hlast, hroom, Interval.length] at hinput ⊢
  have hstop : output.stop - 1 = output.start + (output.length - 1) := by
    unfold Interval.length at houtput ⊢
    omega
  refine (padded_eq rfl rfl (Nat.lt_of_sub_pos hinput)).trans ?_
  rw [hstop, Nat.add_mul, Nat.add_assoc, Nat.add_sub_cancel_left]
  rfl

theorem Follows.outputExtent? (hfollows : window.Follows cut axis extent taps output input)
    (hstride : cut.stride axis = window.stride axis)
    (hdilation : cut.dilation axis = window.dilation axis) (hpositive : 0 < window.stride axis)
    (htaps : 0 < taps) (houtput : 0 < output.length) (hinput : 0 < input.length) :
    cut.outputExtent? axis input.length taps = some output.length := by
  have hreach : cut.reach axis taps = window.reach axis taps := by
    rw [reach, reach, hdilation]
  cases hfollows with
  | whole _ hextent hwhole hbefore hafter =>
      subst input
      unfold KernelWindow.outputExtent? padded
      rw [hstride, hreach, hbefore, hafter]
      exact hextent
  | field hbounded hfield hbefore hafter =>
      subst input
      have hpadded := hbounded.padded_field htaps houtput hinput
      have hstop := hbounded.stop
      have hsteps : (output.length - 1) * window.stride axis ≤
          (output.stop - 1) * window.stride axis :=
        Nat.mul_le_mul_right _ (Nat.sub_le_sub_right (Nat.sub_le _ _) 1)
      have hexact : window.reach axis taps = (taps - 1) * window.dilation axis + 1 :=
        reach_eq htaps (by omega)
      refine outputExtent?_of_padded (hstride ▸ hpositive) (by omega) houtput ?_
      rw [padded, hbefore, hafter, hstride, hreach, hexact, hpadded, word_of_lt (by omega)]

end KernelWindow

namespace Operation

variable {operation : Operation}

theorem window_withWindow (window : KernelWindow) :
    (operation.withWindow window).window? = operation.window?.map fun _ => window := by
  cases operation <;> rfl

theorem outputs_required {window : KernelWindow} (hwindow : operation.window? = some window)
    {axis : Axis} (haxis : axis ∈ [Axis.y, .x]) : axis ∈ operation.requiredAxes := by
  simp only [List.mem_cons, List.not_mem_nil, or_false] at haxis
  cases operation <;> first
    | cases hwindow; done
    | rcases haxis with rfl | rfl <;> simp [requiredAxes]

theorem kernels_required {window : KernelWindow} (hwindow : operation.window? = some window) :
    Axis.ky ∈ operation.requiredAxes ∧ Axis.kx ∈ operation.requiredAxes := by
  cases operation <;> first | cases hwindow; done | simp [requiredAxes]

theorem required_of_no_window (hwindow : operation.window? = none) {axis : Axis}
    (hrequired : axis ∈ operation.requiredAxes) : axis = .f ∨ axis = .r := by
  cases operation <;> first | cases hwindow; done | simpa [requiredAxes] using hrequired |
    exact Or.inl (by simpa [requiredAxes] using hrequired)

theorem window_withShift (shift : UInt8) :
    (operation.withShift shift).window? = operation.window? := by
  cases operation <;> rfl

end Operation

/-- The way of the kernel over the input is computed in words without loss. -/
def Computation.KernelBounded (computation : Computation) : Prop :=
  ∀ window ∈ computation.operation.window?,
    window.Bounded .iy computation.shape.iy computation.shape.ky ∧
      window.Bounded .ix computation.shape.ix computation.shape.kx

instance (computation : Computation) : Decidable computation.KernelBounded :=
  inferInstanceAs (Decidable (∀ window ∈ computation.operation.window?, _))

/-- A point of a part, as a point of the whole. -/
def Window.shift (region : Window) (point : Datum) : Datum := fun axis =>
  region.position.get axis + point axis

namespace SplitPart

variable {part : SplitPart} {whole : Computation} {factors : SplitVector}

theorem window_computation (reduce : Bool) :
    (part.computation whole factors reduce).operation.window? =
      whole.operation.window?.map fun window =>
        { window with padding := part.padding whole factors window.padding } := by
  have hoperation : (part.operation whole factors).window? =
      whole.operation.window?.map fun window =>
        { window with padding := part.padding whole factors window.padding } := by
    unfold operation
    cases hwindow : whole.operation.window? with
    | none => exact hwindow
    | some window =>
        dsimp only
        rw [Operation.window_withWindow, hwindow]
        rfl
  unfold computation
  cases reduce
  · exact hoperation
  · exact (Operation.window_withShift 0).trans hoperation

theorem eq_upTo_of_one {shape : Shape} (axis : Axis) {interval : Interval}
    (hone : factors.along axis = 1) (hmember : interval ∈ intervals shape factors axis) :
    interval = .upTo (shape.get axis) := by
  rw [intervals_of_one hone] at hmember
  exact List.mem_singleton.mp hmember

theorem follows_of_field {window cut : KernelWindow} {output input : Interval}
    {inputAxis kernelAxis : Axis} {field? : Option ReceptiveField}
    (hfield : field? = none ∧ output.start = 0 ∧
        window.outputExtent? inputAxis (whole.shape.get inputAxis) (whole.shape.get kernelAxis) =
          some output.length ∨
      field? = some (field whole window output inputAxis kernelAxis) ∧
        window.FieldBounded inputAxis (whole.shape.get inputAxis) (whole.shape.get kernelAxis)
          output)
    (hinput : input = (field?.map (·.input)).getD (.upTo (whole.shape.get inputAxis)))
    (hbefore : cut.padding.before inputAxis =
      (field?.map (·.before)).getD (window.padding.before inputAxis))
    (hafter : cut.padding.after inputAxis =
      (field?.map (·.after)).getD (window.padding.after inputAxis)) :
    window.Follows cut inputAxis (whole.shape.get inputAxis) (whole.shape.get kernelAxis) output
      input := by
  rcases hfield with ⟨rfl, hstart, hextent⟩ | ⟨rfl, hbounded⟩
  · exact .whole hstart hextent hinput hbefore hafter
  · exact .field hbounded hinput hbefore hafter

theorem follows_y (hkernel : whole.KernelBounded) (hpart : part ∈ all whole.shape factors)
    (hwhole : whole.shapeFault? = none) {window : KernelWindow}
    (hwindow : whole.operation.window? = some window) :
    window.Follows { window with padding := part.padding whole factors window.padding } .iy
      whole.shape.iy whole.shape.ky part.y (part.interval whole factors .iy) := by
  obtain ⟨hy, -⟩ := mem_all_iff.mp hpart
  have hextent := (Computation.shapeFault?_eq_none_iff.mp hwhole).2 window hwindow
  apply @follows_of_field whole window _ part.y _ .iy .ky (part.fieldY? whole factors)
  · by_cases hone : factors.y = 1
    · have hall : part.y = .upTo whole.shape.y := eq_upTo_of_one .y hone hy
      rw [hall]
      exact Or.inl ⟨if_pos hone, rfl, hextent.1⟩
    · rw [fieldY?, if_neg hone, hwindow]
      have htaps := Shape.has_iff.mp (Computation.has_of_required hwhole
        (Operation.kernels_required hwindow).1)
      exact Or.inr ⟨rfl, (hkernel window hwindow).1.field htaps hextent.1
        (of_mem_intervals hy).2.2⟩
  · rfl
  all_goals
    rw [padding]
    cases part.fieldY? whole factors <;> cases part.fieldX? whole factors <;> rfl

theorem follows_x (hkernel : whole.KernelBounded) (hpart : part ∈ all whole.shape factors)
    (hwhole : whole.shapeFault? = none) {window : KernelWindow}
    (hwindow : whole.operation.window? = some window) :
    window.Follows { window with padding := part.padding whole factors window.padding } .ix
      whole.shape.ix whole.shape.kx part.x (part.interval whole factors .ix) := by
  obtain ⟨-, hx, -⟩ := mem_all_iff.mp hpart
  have hextent := (Computation.shapeFault?_eq_none_iff.mp hwhole).2 window hwindow
  apply @follows_of_field whole window _ part.x _ .ix .kx (part.fieldX? whole factors)
  · by_cases hone : factors.x = 1
    · have hall : part.x = .upTo whole.shape.x := eq_upTo_of_one .x hone hx
      rw [hall]
      exact Or.inl ⟨if_pos hone, rfl, hextent.2⟩
    · rw [fieldX?, if_neg hone, hwindow]
      have htaps := Shape.has_iff.mp (Computation.has_of_required hwhole
        (Operation.kernels_required hwindow).2)
      exact Or.inr ⟨rfl, (hkernel window hwindow).2.field htaps hextent.2
        (of_mem_intervals hx).2.2⟩
  · rfl
  all_goals
    rw [padding]
    cases part.fieldY? whole factors <;> cases part.fieldX? whole factors <;> rfl

/-- The axes along which a part and its points are counted from where the part begins. -/
structure Local (part : SplitPart) (whole : Computation) (factors : SplitVector)
    (element inner : Datum) : Prop where
  place : ∀ axis, axis ∈ [Axis.y, .x, .f] →
    element axis = (part.interval whole factors axis).start + inner axis
  inside : ∀ axis, axis ∈ [Axis.y, .x, .f] → whole.shape.has axis = true →
    inner axis < (part.interval whole factors axis).length

private theorem get_output {axis : Axis} (haxis : axis ∈ [Axis.y, .x, .f]) :
    (Computation.output.window (part.window whole factors)).position.get axis =
        (part.interval whole factors axis).start ∧
      (Computation.output.window (part.window whole factors)).size.get axis =
        (part.interval whole factors axis).length := by
  rw [AxisMap.window, AxisMap.get_shape, AxisMap.get_shape, ← position_window, ← size_window]
  simp only [List.mem_cons, List.not_mem_nil, or_false] at haxis
  obtain rfl | rfl | rfl := haxis <;> exact ⟨rfl, rfl⟩

private theorem interval_of_covers (hpart : part ∈ all whole.shape factors) {element : Datum}
    (hcovers : (Computation.output.window (part.window whole factors)).Covers element)
    {axis : Axis} (haxis : axis ∈ [Axis.y, .x, .f]) :
    (part.interval whole factors axis).start ≤ element axis ∧
      (whole.shape.has axis = true → element axis <
        (part.interval whole factors axis).start + (part.interval whole factors axis).length) := by
  have hsplittable : ∀ axis, axis ∈ [Axis.y, .x, .f] →
      axis ∈ Axis.splittable ∧ axis.isLogical = true := by decide
  obtain ⟨hsplit, hlogical⟩ := hsplittable axis haxis
  obtain ⟨hposition, hsize⟩ := @get_output part whole factors axis haxis
  obtain ⟨hlength, hordered, hstop⟩ := of_mem_intervals (interval_mem hpart axis hsplit)
  rw [← hsize, ← Shape.has_iff] at hlength
  rw [← hposition, ← hsize]
  -- Along an axis that applies the element lies in the interval; along others all is zero.
  cases hhas : whole.shape.has axis with
  | true =>
      have hspan : (Computation.output.window (part.window whole factors)).spans axis = true :=
        Window.spans_iff.mpr ⟨hlogical, hlength.mpr hhas⟩
      have hinside := hcovers.of_spans hspan
      exact ⟨hinside.1, fun _ => hinside.2⟩
  | false =>
      have hzero := Shape.get_eq_zero_iff.mp hhas
      exact ⟨by omega, fun hfalse => absurd hfalse Bool.false_ne_true⟩

theorem local_lower (hpart : part ∈ all whole.shape factors) {element : Datum}
    (hcovers : (Computation.output.window (part.window whole factors)).Covers element) :
    part.Local whole factors element
      ((Computation.output.window (part.window whole factors)).lower element) := by
  constructor
  · intro axis haxis
    have hstart := (interval_of_covers hpart hcovers haxis).1
    rw [Window.lower, (@get_output part whole factors axis haxis).1]
    omega
  · intro axis haxis hhas
    have hinside := interval_of_covers hpart hcovers haxis
    have hstop := hinside.2 hhas
    rw [Window.lower, (@get_output part whole factors axis haxis).1]
    omega

theorem Local.point_eq {element inner : Datum} (hlocal : part.Local whole factors element inner)
    {iyStart ixStart : Nat} (hiy : (part.interval whole factors .iy).start = iyStart)
    (hix : (part.interval whole factors .ix).start = ixStart) (r ky kx iy ix : Nat) :
    element.point (part.r.start + r) ky kx (iyStart + iy) (ixStart + ix) =
      (part.window whole factors).shift (inner.point r ky kx iy ix) := by
  subst hiy hix
  funext axis
  rw [Window.shift, position_window]
  cases axis
  case y => exact hlocal.place .y (by decide)
  case x => exact hlocal.place .x (by decide)
  case f => exact hlocal.place .f (by decide)
  case ky | kx => exact (Nat.zero_add _).symm
  all_goals rfl

theorem start_of_no_window (hwindow : whole.operation.window? = none) :
    (part.interval whole factors .iy).start = 0 ∧ (part.interval whole factors .ix).start = 0 := by
  constructor
  · have hfield : part.fieldY? whole factors = none := by
      rw [fieldY?, hwindow]
      exact ite_self _
    rw [interval, hfield]
    rfl
  · have hfield : part.fieldX? whole factors = none := by
      rw [fieldX?, hwindow]
      exact ite_self _
    rw [interval, hfield]
    rfl

/-- A tap of a part meets the element that it met in the whole. -/
theorem point_computation (hkernel : whole.KernelBounded)
    (hpart : part ∈ all whole.shape factors) (hwhole : whole.shapeFault? = none)
    {element inner : Datum} (hlocal : part.Local whole factors element inner) {r ky kx : Nat}
    (hky : ky < whole.taps .ky) (hkx : kx < whole.taps .kx) :
    whole.point? element (part.r.start + r) ky kx =
      ((part.computation whole factors true).point? inner r ky kx).map
        (part.window whole factors).shift := by
  unfold Computation.point?
  rw [window_computation, shape_computation]
  cases hwindow : whole.operation.window? with
  | none =>
      obtain ⟨hiy, hix⟩ := @start_of_no_window part whole factors hwindow
      exact congrArg some (hlocal.point_eq hiy hix r ky kx 0 0)
  | some window =>
      have htaps : ∀ axis, whole.taps axis = whole.shape.get axis := by
        intro axis
        rw [Computation.taps, hwindow]
        rfl
      rw [htaps] at hky hkx
      have hhas : ∀ axis, axis ∈ [Axis.y, .x] → whole.shape.has axis = true := by
        intro axis haxis
        apply Computation.has_of_required hwhole
        exact Operation.outputs_required hwindow haxis
      have hy := (follows_y hkernel hpart hwhole hwindow).tap rfl rfl
        (hlocal.inside .y (by decide) (hhas .y (by decide))) hky
      have hx := (follows_x hkernel hpart hwhole hwindow).tap rfl rfl
        (hlocal.inside .x (by decide) (hhas .x (by decide))) hkx
      rw [← show _ = part.y.start + inner .y from hlocal.place .y (by decide)] at hy
      rw [← show _ = part.x.start + inner .x from hlocal.place .x (by decide)] at hx
      have hsizeY : (part.window whole factors).size.iy =
          (part.interval whole factors .iy).length := rfl
      have hsizeX : (part.window whole factors).size.ix =
          (part.interval whole factors .ix).length := rfl
      dsimp only [Option.map_some]
      rw [hy, hx, hsizeY, hsizeX]
      simp only [Option.bind_map, Option.map_bind, Option.map_map, Function.comp_def,
        hlocal.point_eq rfl rfl]

section Readings

variable {inputs given : Nat → Datum → ℤ} {element inner : Datum} {r ky kx : Nat}

/-- Of what the whole reads, the part reads what lies in its windows. -/
def Agrees (part : SplitPart) (whole : Computation) (factors : SplitVector)
    (inputs given : Nat → Datum → ℤ) : Prop :=
  ∀ port operand element, (part.computation whole factors true).inputs[port]? = some operand →
    (Window.full (operand.2.window (part.window whole factors)).size).Covers element →
      given port element =
        inputs port ((operand.2.window (part.window whole factors)).lift element)

theorem point_inside (hwhole : whole.shapeFault? = none)
    (hlocal : part.Local whole factors element inner) (hr : r < part.r.length)
    (hky : ky < whole.taps .ky) (hkx : kx < whole.taps .kx) {point : Datum}
    (hpoint : (part.computation whole factors true).point? inner r ky kx = some point)
    {axis : Axis} (hrequired : axis ∈ whole.operation.requiredAxes) :
    point axis < (part.window whole factors).size.get axis := by
  have hhas := Computation.has_of_required hwhole hrequired
  rw [size_window]
  unfold Computation.point? at hpoint
  rw [window_computation, shape_computation] at hpoint
  cases hwindow : whole.operation.window? with
  | none =>
      rw [hwindow] at hpoint
      obtain rfl := Option.some.inj hpoint
      rcases Operation.required_of_no_window hwindow hrequired with rfl | rfl
      · exact hlocal.inside .f (by decide) hhas
      · exact hr
  | some window =>
      rw [Computation.taps, hwindow] at hky hkx
      rw [hwindow] at hpoint
      obtain ⟨iy, hiy, hpoint⟩ := Option.bind_eq_some_iff.mp hpoint
      obtain ⟨ix, hix, rfl⟩ := Option.map_eq_some_iff.mp hpoint
      cases axis
      case y => exact hlocal.inside .y (by decide) hhas
      case x => exact hlocal.inside .x (by decide) hhas
      case f => exact hlocal.inside .f (by decide) hhas
      case r => exact hr
      case ky => exact hky
      case kx => exact hkx
      case iy => exact KernelWindow.tap_lt hiy
      case ix => exact KernelWindow.tap_lt hix

/-- A part of a reduction at an element that it yields, with what both read. -/
structure Share (part : SplitPart) (whole : Computation) (factors : SplitVector)
    (inputs given : Nat → Datum → ℤ) (element inner : Datum) : Prop
    extends part.Local whole factors element inner where
  kernel : whole.KernelBounded
  part_mem : part ∈ all whole.shape factors
  valid : whole.shapeFault? = none
  reduction : whole.operation.isReduction = true
  agrees : part.Agrees whole factors inputs given

namespace Share

theorem not_accumulate (hshare : part.Share whole factors inputs given element inner)
    {shift : UInt8} (haccumulate : whole.operation = .accumulate shift) :
    (part.window whole factors).size.r = whole.shape.r := by
  have hreduction := hshare.reduction
  rw [haccumulate] at hreduction
  cases hreduction

theorem operands_eq (hshare : part.Share whole factors inputs given element inner) :
    (part.computation whole factors true).operands = whole.operands :=
  operands_computation fun _ => hshare.not_accumulate

theorem inputs_prefix (hshare : part.Share whole factors inputs given element inner) :
    (part.computation whole factors true).inputs <+: whole.inputs :=
  inputs_computation fun _ => hshare.not_accumulate

theorem port_whole (hshare : part.Share whole factors inputs given element inner) {port : Nat}
    {operand : OperandRole × AxisMap}
    (hoperand : (part.computation whole factors true).inputs[port]? = some operand) :
    whole.inputs[port]? = some operand := by
  obtain ⟨hless, rfl⟩ := List.getElem?_eq_some_iff.mp hoperand
  exact List.prefix_iff_getElem?.mp hshare.inputs_prefix port hless

theorem reading_eq (hshare : part.Share whole factors inputs given element inner) {port : Nat}
    {operand : OperandRole × AxisMap} {point : Datum}
    (hoperand : (part.computation whole factors true).inputs[port]? = some operand)
    (hinside : ∀ axis along, operand.2.source? axis = some along →
      axis.isLogical = true ∧ point along < (part.window whole factors).size.get along) :
    (part.computation whole factors true).reading given port point =
      whole.reading inputs port ((part.window whole factors).shift point) := by
  rw [Computation.reading, Computation.reading, hoperand, hshare.port_whole hoperand]
  have hsame := hshare.agrees port operand _ hoperand (AxisMap.covers_locate hinside)
  rw [AxisMap.lift_locate hinside] at hsame
  exact hsame

theorem reading_operand (hshare : part.Share whole factors inputs given element inner)
    (hr : r < part.r.length) (hky : ky < whole.taps .ky) (hkx : kx < whole.taps .kx)
    {point : Datum}
    (hpoint : (part.computation whole factors true).point? inner r ky kx = some point)
    (port : Nat) (hport : port < 2) :
    (part.computation whole factors true).reading given port point =
      whole.reading inputs port ((part.window whole factors).shift point) := by
  rw [← Computation.length_operands hshare.reduction] at hport
  have hoperand : (part.computation whole factors true).inputs[port]? =
      some whole.operands[port] := by
    rw [Computation.inputs_eq, hshare.operands_eq, List.getElem?_append_left hport]
    exact List.getElem?_eq_getElem hport
  apply hshare.reading_eq hoperand
  intro axis along hsource
  obtain ⟨hlogical, hrequired⟩ := Computation.source_required hshare.reduction
    (List.getElem_mem hport) hsource
  exact ⟨hlogical, point_inside hshare.valid hshare.toLocal hr hky hkx hpoint hrequired⟩

theorem product_eq (hshare : part.Share whole factors inputs given element inner)
    (hr : r < part.r.length) (hky : ky < whole.taps .ky) (hkx : kx < whole.taps .kx) :
    (part.computation whole factors true).product given inner r ky kx =
      whole.product inputs element (part.r.start + r) ky kx := by
  rw [Computation.product, Computation.product, point_computation hshare.kernel hshare.part_mem
    hshare.valid hshare.toLocal hky hkx, Option.map_map]
  cases hpoint : (part.computation whole factors true).point? inner r ky kx with
  | none => rfl
  | some point =>
      have hweight := hshare.reading_operand hr hky hkx hpoint 1 (by decide)
      have hactivation := hshare.reading_operand hr hky hkx hpoint 0 (by decide)
      rw [Option.map_some, Option.map_some, hweight, hactivation]
      rfl

theorem weighted_eq (hshare : part.Share whole factors inputs given element inner)
    (hr : r < part.r.length) :
    (part.computation whole factors true).weighted given inner r =
      whole.weighted inputs element (part.r.start + r) := by
  have htaps : ∀ axis, axis ∈ [Axis.ky, .kx] →
      (part.computation whole factors true).taps axis = whole.taps axis := by
    intro axis haxis
    rw [Computation.taps, Computation.taps, window_computation, Option.isSome_map,
      shape_computation, size_window]
    simp only [List.mem_cons, List.not_mem_nil, or_false] at haxis
    rcases haxis with rfl | rfl <;> rfl
  rw [Computation.weighted, Computation.weighted, htaps .ky (by decide), htaps .kx (by decide)]
  apply sum_congr rfl
  intro ky hky
  apply sum_congr rfl
  intro kx hkx
  exact hshare.product_eq hr (mem_range.mp hky) (mem_range.mp hkx)

theorem bias_port (hshare : part.Share whole factors inputs given element inner)
    (hbias : (part.computation whole factors true).bias = .vector) :
    (part.computation whole factors true).inputs[2]? = some (.bias, .channel) := by
  have htakes : whole.operation.takesVectorBias = true := by
    have hreduction := hshare.reduction
    cases hoperation : whole.operation <;> rw [hoperation] at hreduction <;>
      first | rfl | cases hreduction
  have hport : (part.computation whole factors true).hasBiasPort = true := by
    rw [Computation.hasBiasPort, hbias, takesVectorBias_computation, htakes]
    rfl
  rw [Computation.inputs_eq, if_pos hport, hshare.operands_eq,
    List.getElem?_append_right (Nat.le_of_eq (Computation.length_operands hshare.reduction)),
    Computation.length_operands hshare.reduction]
  rfl

theorem offset_eq (hshare : part.Share whole factors inputs given element inner) :
    (part.computation whole factors true).offset given inner =
      if part.r.start = 0 then whole.offset inputs element else 0 := by
  have hbias : (part.computation whole factors true).bias =
      if 0 < part.r.start then .absent else whole.bias := rfl
  by_cases hstart : part.r.start = 0
  · rw [hstart, if_neg (Nat.lt_irrefl 0)] at hbias
    rw [if_pos hstart, Computation.offset, Computation.offset, hbias]
    cases hwhole : whole.bias with
    | absent | constant => rfl
    | vector =>
        dsimp only
        rw [hwhole] at hbias
        have hport := hshare.bias_port hbias
        have hinside : ∀ axis along, AxisMap.channel.source? axis = some along →
            axis.isLogical = true ∧
              inner.point 0 0 0 0 0 along < (part.window whole factors).size.get along := by
          intro axis along hsource
          obtain ⟨rfl, rfl⟩ := AxisMap.channel_source hsource
          rw [size_window]
          exact ⟨rfl, hshare.inside .f (by decide) (Computation.has_f hshare.valid)⟩
        rw [hshare.reading_eq hport hinside, Computation.reading, Computation.reading,
          hshare.port_whole hport]
        apply congrArg (inputs 2)
        apply AxisMap.locate_congr
        intro axis along hsource
        obtain ⟨-, rfl⟩ := AxisMap.channel_source hsource
        rw [Window.shift, position_window]
        exact (hshare.place .f (by decide)).symm
  · rw [if_pos (Nat.pos_of_ne_zero hstart)] at hbias
    rw [if_neg hstart, Computation.offset, hbias]

/-- A part adds its interval of the `r` axis to the result, and the first part the bias. -/
theorem unshifted_eq (hshare : part.Share whole factors inputs given element inner) :
    (part.computation whole factors true).unshifted given inner =
      (if part.r.start = 0 then whole.offset inputs element else 0) +
        ∑ r ∈ range part.r.length, whole.weighted inputs element (part.r.start + r) := by
  have hextent : (part.computation whole factors true).shape.r = part.r.length := by
    rw [shape_computation]
    rfl
  rw [Computation.unshifted, hshare.offset_eq, hextent]
  congr 1
  apply sum_congr rfl
  intro r hr
  exact hshare.weighted_eq (mem_range.mp hr)

end Share

end Readings

end SplitPart

end TiledPlacement

import Mathlib.Algebra.BigOperators.Group.Finset.Basic
import TiledPlacement.Proofs.Graph.Operand
import TiledPlacement.Proofs.Window.Translation

/-!
What a reduction computes, before its result is shifted to the precision of the output: the bias
and the weighted sum of the activations under the sliding window, which reads zero in the padding.
-/

namespace TiledPlacement

open Finset

namespace KernelWindow

/-- The index of the input at a position of the padded input, none in the padding. -/
def unpad? (before extent position : Nat) : Option Nat :=
  if before ≤ position ∧ position - before < extent then some (position - before) else none

/-- What a tap of the kernel reads for an output along one axis. -/
def tap? (window : KernelWindow) (axis : Axis) (extent output tap : Nat) : Option Nat :=
  unpad? (window.padding.before axis) extent
    (output * window.stride axis + tap * window.dilation axis)

theorem tap_lt {window : KernelWindow} {axis : Axis} {extent output tap index : Nat}
    (htap : window.tap? axis extent output tap = some index) : index < extent := by
  unfold tap? unpad? at htap
  split at htap
  case isTrue hinside =>
    obtain rfl := Option.some.inj htap
    exact hinside.2
  case isFalse => cases htap

end KernelWindow

/-- A point of a computation: an index of its output, and one along each of its other axes. -/
def Datum.point (element : Datum) (r ky kx iy ix : Nat) : Datum
  | .r => r
  | .ky => ky
  | .kx => kx
  | .iy => iy
  | .ix => ix
  | axis => element axis

namespace AxisMap

/-- Where the data at a port has what a point of the computation reads there. -/
def locate (map : AxisMap) (point : Datum) : Datum := fun axis =>
  ((map.source? axis).map point).getD 0

theorem covers_locate {map : AxisMap} {region : Window} {point : Datum}
    (hinside : ∀ axis along, map.source? axis = some along →
      axis.isLogical = true ∧ point along < region.size.get along) :
    (Window.full (map.window region).size).Covers (map.locate point) := by
  refine Window.covers_full_iff.mpr fun axis => ?_
  rw [AxisMap.window, has_shape, get_shape, locate]
  cases hsource : map.source? axis with
  | none =>
      simp only [Option.map_none, Option.getD_none, Bool.and_false, Bool.false_eq_true, if_false]
  | some along =>
      obtain ⟨hlogical, hless⟩ := hinside axis along hsource
      have hhas := Shape.has_iff.mpr (Nat.lt_of_le_of_lt (Nat.zero_le _) hless)
      simp only [Option.map_some, Option.getD_some, hlogical, hhas, Bool.and_self, if_true]
      exact hless

theorem lift_locate {map : AxisMap} {region : Window} {point : Datum}
    (hinside : ∀ axis along, map.source? axis = some along →
      axis.isLogical = true ∧ point along < region.size.get along) :
    (map.window region).lift (map.locate point) =
      map.locate fun axis => region.position.get axis + point axis := by
  funext axis
  rw [Window.lift, Window.spans, AxisMap.window, has_shape, get_shape, locate, locate]
  cases hsource : map.source? axis with
  | none =>
      simp only [Option.map_none, Option.getD_none, Bool.and_false, Bool.false_eq_true, if_false]
  | some along =>
      obtain ⟨hlogical, hless⟩ := hinside axis along hsource
      have hhas := Shape.has_iff.mpr (Nat.lt_of_le_of_lt (Nat.zero_le _) hless)
      simp only [Option.map_some, Option.getD_some, hlogical, hhas, Bool.and_self, if_true]

theorem locate_congr {map : AxisMap} {left right : Datum}
    (hsame : ∀ axis along, map.source? axis = some along → left along = right along) :
    map.locate left = map.locate right := by
  funext axis
  rw [locate, locate]
  cases hsource : map.source? axis with
  | none => rfl
  | some along => exact hsame axis along hsource

theorem channel_source {axis along : Axis} (hsource : channel.source? axis = some along) :
    axis = .f ∧ along = .f := by
  cases axis
  case f => exact ⟨rfl, (Option.some.inj hsource).symm⟩
  all_goals cases hsource

end AxisMap

namespace Computation

section Operands

variable {computation : Computation}

theorem length_operands (hreduction : computation.operation.isReduction = true) :
    computation.operands.length = 2 := by
  unfold operands
  cases hoperation : computation.operation <;> rw [hoperation] at hreduction <;>
    first | rfl | cases hreduction

theorem source_required (hreduction : computation.operation.isReduction = true)
    {operand : OperandRole × AxisMap} (hoperand : operand ∈ computation.operands)
    {axis along : Axis} (hsource : operand.2.source? axis = some along) :
    axis.isLogical = true ∧ along ∈ computation.operation.requiredAxes := by
  have hall : ∀ map ∈ [AxisMap.convolutionInput, .convolutionWeight],
      ∀ axis ∈ Axis.all, ∀ along ∈ (map.source? axis).toList,
        axis.isLogical = true ∧ along ∈ [Axis.y, .x, .f, .r, .ky, .kx, .iy, .ix] := by decide
  have hvector : ∀ map ∈ [AxisMap.vectorInput, .matrixWeight],
      ∀ axis ∈ Axis.all, ∀ along ∈ (map.source? axis).toList,
        axis.isLogical = true ∧ along ∈ [Axis.f, .r] := by decide
  have haxis : axis ∈ Axis.all := by cases axis <;> decide
  have halong : along ∈ (operand.2.source? axis).toList := by
    rw [hsource]
    exact List.mem_singleton_self along
  unfold operands at hoperand
  cases hoperation : computation.operation <;> rw [hoperation] at hoperand hreduction <;>
    simp only [List.mem_cons, List.not_mem_nil, or_false] at hoperand
  case convolution | convolution2d =>
    rcases hoperand with rfl | rfl <;> exact hall _ (by decide) axis haxis along halong
  case vectorMatrix =>
    rcases hoperand with rfl | rfl <;> exact hvector _ (by decide) axis haxis along halong
  all_goals cases hreduction

end Operands

variable (computation : Computation) (inputs : Nat → Datum → ℤ)

/-- What a point of the computation reads at a port. -/
def reading (port : Nat) (point : Datum) : ℤ :=
  ((computation.inputs[port]?).map fun operand => inputs port (operand.2.locate point)).getD 0

/-- The point at which a tap meets the input, none in the padding. -/
def point? (element : Datum) (r ky kx : Nat) : Option Datum :=
  match computation.operation.window? with
  | none => some (element.point r ky kx 0 0)
  | some window =>
      (window.tap? .iy computation.shape.iy (element .y) ky).bind fun iy =>
        (window.tap? .ix computation.shape.ix (element .x) kx).map fun ix =>
          element.point r ky kx iy ix

def taps (axis : Axis) : Nat :=
  if computation.operation.window?.isSome then computation.shape.get axis else 1

def product (element : Datum) (r ky kx : Nat) : ℤ :=
  ((computation.point? element r ky kx).map fun point =>
    computation.reading inputs 1 point * computation.reading inputs 0 point).getD 0

def weighted (element : Datum) (r : Nat) : ℤ :=
  ∑ ky ∈ range (computation.taps .ky), ∑ kx ∈ range (computation.taps .kx),
    computation.product inputs element r ky kx

def offset (element : Datum) : ℤ :=
  match computation.bias with
  | .absent => 0
  | .constant value => value.toInt
  | .vector => computation.reading inputs 2 (element.point 0 0 0 0 0)

/-- The result of a reduction for an element of its output. -/
def unshifted (element : Datum) : ℤ :=
  computation.offset inputs element +
    ∑ r ∈ range computation.shape.r, computation.weighted inputs element r

end Computation

end TiledPlacement

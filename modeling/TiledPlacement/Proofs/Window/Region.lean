import TiledPlacement.Split.Plan

/-!
The elements that a window covers. An element has an index along each axis, zero along axes that
do not apply; intersecting, localizing and projecting windows is said element by element.
-/

namespace TiledPlacement

/-- An element of a tensor, by its index along each axis. -/
abbrev Datum := Axis → Nat

namespace Shape

def SameAxes (left right : Shape) : Prop :=
  ∀ axis, axis.isLogical = true → left.has axis = right.has axis

instance (left right : Shape) : Decidable (left.SameAxes right) :=
  decidable_of_iff (∀ axis ∈ Axis.logical, left.has axis = right.has axis)
    (forall_congr' fun axis => by rw [Axis.mem_logical_iff])

theorem SameAxes.refl (shape : Shape) : shape.SameAxes shape := fun _ _ => rfl

theorem SameAxes.symm {left right : Shape} (hsame : left.SameAxes right) :
    right.SameAxes left :=
  fun axis hlogical => (hsame axis hlogical).symm

theorem SameAxes.trans {left middle right : Shape} (hleft : left.SameAxes middle)
    (hright : middle.SameAxes right) : left.SameAxes right :=
  fun axis hlogical => (hleft axis hlogical).trans (hright axis hlogical)

theorem has_iff {shape : Shape} {axis : Axis} : shape.has axis = true ↔ 0 < shape.get axis := by
  rw [has, decide_eq_true_eq]

theorem get_eq_zero_iff {shape : Shape} {axis : Axis} :
    shape.has axis = false ↔ shape.get axis = 0 := by
  rw [has, decide_eq_false_iff_not, Nat.pos_iff_ne_zero, Ne, Decidable.not_not]

theorem get_offsetFrom (shape origin : Shape) (axis : Axis) :
    (shape.offsetFrom origin).get axis = shape.get axis - origin.get axis :=
  get_ofFunction _ axis

theorem get_add (left right : Shape) (axis : Axis) :
    (left + right).get axis = word (left.get axis + right.get axis) :=
  get_ofFunction _ axis

theorem get_zero (axis : Axis) : zero.get axis = 0 := by cases axis <;> rfl

private theorem product_pos {extents : List Nat} (hpositive : ∀ extent ∈ extents, 0 < extent) :
    0 < product extents := by
  induction extents with
  | nil => exact Nat.one_pos
  | cons extent rest induction =>
      rw [product]
      exact Nat.mul_pos (hpositive extent List.mem_cons_self)
        (induction fun other hother => hpositive other (List.mem_cons_of_mem _ hother))

theorem elements_pos_iff {shape : Shape} :
    0 < shape.elements ↔ ∃ axis, axis.isLogical = true ∧ shape.has axis = true := by
  have hextents : ∀ extent, extent ∈ (Axis.logical.map shape.get).filter
      (fun extent => decide (0 < extent)) ↔
        ∃ axis, axis.isLogical = true ∧ shape.get axis = extent ∧ 0 < extent := by
    intro extent
    simp only [List.mem_filter, List.mem_map, decide_eq_true_eq, Axis.mem_logical_iff]
    constructor
    · rintro ⟨⟨axis, hlogical, hget⟩, hpositive⟩
      exact ⟨axis, hlogical, hget, hpositive⟩
    · rintro ⟨axis, hlogical, hget, hpositive⟩
      exact ⟨⟨axis, hlogical, hget⟩, hpositive⟩
  unfold elements
  split
  case h_1 hnone =>
    rw [hnone] at hextents
    refine ⟨fun hzero => absurd hzero (Nat.lt_irrefl 0), ?_⟩
    rintro ⟨axis, hlogical, hhas⟩
    exact nomatch (hextents _).mpr ⟨axis, hlogical, rfl, has_iff.mp hhas⟩
  case h_2 hsome =>
    constructor
    · intro _
      obtain ⟨extent, hextent⟩ := List.exists_mem_of_ne_nil _ hsome
      obtain ⟨axis, hlogical, hget, hpositive⟩ := (hextents extent).mp hextent
      exact ⟨axis, hlogical, has_iff.mpr (hget ▸ hpositive)⟩
    · intro _
      refine product_pos fun extent hextent => ?_
      obtain ⟨-, -, -, hpositive⟩ := (hextents extent).mp hextent
      exact hpositive

theorem SameAxes.elements_pos {left right : Shape} (hsame : left.SameAxes right)
    (hleft : 0 < left.elements) : 0 < right.elements := by
  obtain ⟨axis, hlogical, hhas⟩ := elements_pos_iff.mp hleft
  exact elements_pos_iff.mpr ⟨axis, hlogical, (hsame axis hlogical).symm.trans hhas⟩

private theorem product_le {left right : Shape} {axes : List Axis}
    (hle : ∀ axis ∈ axes, left.get axis ≤ right.get axis) :
    product ((axes.map left.get).filter fun extent => decide (0 < extent)) ≤
      product ((axes.map right.get).filter fun extent => decide (0 < extent)) := by
  induction axes with
  | nil => exact Nat.le_refl _
  | cons axis rest induction =>
      rw [List.forall_mem_cons] at hle
      have hrest := induction hle.2
      rw [List.map_cons, List.map_cons, List.filter_cons, List.filter_cons]
      by_cases hleft : 0 < left.get axis
      · have hright := Nat.lt_of_lt_of_le hleft hle.1
        rw [if_pos (decide_eq_true hleft), if_pos (decide_eq_true hright)]
        exact Nat.mul_le_mul hle.1 hrest
      · rw [if_neg (mt of_decide_eq_true hleft)]
        split
        case isTrue hright =>
          exact Nat.le_trans hrest (Nat.le_mul_of_pos_left _ (of_decide_eq_true hright))
        case isFalse => exact hrest

/-- A shape that is nowhere larger has no more elements. -/
theorem elements_le {left right : Shape}
    (hle : ∀ axis, axis.isLogical = true → left.get axis ≤ right.get axis) :
    left.elements ≤ right.elements := by
  have hproduct : product _ ≤ product _ :=
    product_le fun axis hmember => hle axis ((Axis.mem_logical_iff axis).mp hmember)
  rcases Nat.eq_zero_or_pos left.elements with hzero | hleft
  · rw [hzero]
    exact Nat.zero_le _
  · obtain ⟨axis, hlogical, hhas⟩ := elements_pos_iff.mp hleft
    have hextent := Nat.lt_of_lt_of_le (has_iff.mp hhas) (hle axis hlogical)
    have hright : 0 < right.elements := elements_pos_iff.mpr ⟨axis, hlogical, has_iff.mpr hextent⟩
    unfold elements at hleft hright ⊢
    split at hleft
    case h_1 => exact absurd hleft (Nat.lt_irrefl 0)
    case h_2 =>
      split at hright
      case h_1 => exact absurd hright (Nat.lt_irrefl 0)
      case h_2 => exact hproduct

private theorem get_le_product {shape : Shape} {axis : Axis} (hhas : shape.has axis = true)
    {axes : List Axis} (hmember : axis ∈ axes) :
    shape.get axis ≤ product ((axes.map shape.get).filter fun extent => decide (0 < extent)) := by
  induction axes with
  | nil => cases hmember
  | cons first rest induction =>
      rw [List.map_cons, List.filter_cons]
      rcases List.mem_cons.mp hmember with rfl | hrest
      · have hpositive : decide (0 < shape.get axis) = true := hhas
        rw [if_pos hpositive, product]
        refine Nat.le_mul_of_pos_right _ (product_pos fun extent hextent => ?_)
        exact of_decide_eq_true (List.mem_filter.mp hextent).2
      · split
        case isTrue hpositive =>
          rw [product]
          exact Nat.le_trans (induction hrest)
            (Nat.le_mul_of_pos_left _ (of_decide_eq_true hpositive))
        case isFalse => exact induction hrest

theorem get_le_elements {shape : Shape} {axis : Axis} (hlogical : axis.isLogical = true) :
    shape.get axis ≤ shape.elements := by
  cases hhas : shape.has axis with
  | false =>
      rw [get_eq_zero_iff.mp hhas]
      exact Nat.zero_le _
  | true =>
      have helements : 0 < shape.elements := elements_pos_iff.mpr ⟨axis, hlogical, hhas⟩
      have hle := get_le_product hhas ((Axis.mem_logical_iff axis).mpr hlogical)
      unfold elements at helements ⊢
      split at helements
      case h_1 => exact absurd helements (Nat.lt_irrefl 0)
      case h_2 => exact hle

end Shape

namespace Window

def spans (window : Window) (axis : Axis) : Bool := axis.isLogical && window.size.has axis

/-- Whether the element lies in the window. -/
def Covers (window : Window) (element : Datum) : Prop :=
  ∀ axis, if window.spans axis then
      window.position.get axis ≤ element axis ∧ element axis < window.stop axis
    else element axis = 0

instance (window : Window) (element : Datum) : Decidable (window.Covers element) :=
  decidable_of_iff (∀ axis ∈ Axis.all, if window.spans axis then
      window.position.get axis ≤ element axis ∧ element axis < window.stop axis
    else element axis = 0)
    ⟨fun hall axis => hall axis (by cases axis <;> decide), fun hall axis _ => hall axis⟩

theorem spans_iff {window : Window} {axis : Axis} :
    window.spans axis = true ↔ axis.isLogical = true ∧ window.size.has axis = true :=
  Bool.and_eq_true_iff

theorem spans_eq_of_sameAxes {left right : Window} (hsame : left.size.SameAxes right.size)
    (axis : Axis) : left.spans axis = right.spans axis := by
  unfold spans
  cases hlogical : axis.isLogical with
  | false => rfl
  | true => rw [hsame axis hlogical]

theorem Covers.of_spans {window : Window} {element : Datum} (hcovers : window.Covers element)
    {axis : Axis} (hspans : window.spans axis = true) :
    window.position.get axis ≤ element axis ∧ element axis < window.stop axis := by
  have haxis := hcovers axis
  rwa [if_pos hspans] at haxis

theorem Covers.of_not_spans {window : Window} {element : Datum}
    (hcovers : window.Covers element) {axis : Axis} (hspans : ¬window.spans axis = true) :
    element axis = 0 := by
  have haxis := hcovers axis
  rwa [if_neg hspans] at haxis

/-- Along no axis is the end of the window too large for a word. -/
def Bounded (window : Window) : Prop :=
  ∀ axis, axis.isLogical = true → window.stop axis < wordCount

instance (window : Window) : Decidable window.Bounded :=
  decidable_of_iff (∀ axis ∈ Axis.logical, window.stop axis < wordCount)
    (forall_congr' fun axis => by rw [Axis.mem_logical_iff])

theorem Bounded.limit {window : Window} (hbounded : window.Bounded) {axis : Axis}
    (hspans : window.spans axis = true) : window.limit axis = window.stop axis :=
  limit_eq_stop (hbounded axis (spans_iff.mp hspans).1)

theorem within_iff {window : Window} {shape : Shape} :
    window.within shape = true ↔ ∀ axis, axis.isLogical = true →
      (shape.has axis = true → window.size.has axis = true ∧ window.limit axis ≤ shape.get axis) ∧
        (shape.has axis = false →
          window.position.get axis = 0 ∧ window.size.get axis = 0) := by
  simp only [within, List.all_eq_true, Axis.mem_logical_iff]
  refine forall_congr' fun axis => forall_congr' fun _ => ?_
  cases shape.has axis <;> simp

theorem within_sameAxes {window : Window} {shape : Shape} (hwithin : window.within shape = true) :
    window.size.SameAxes shape := by
  intro axis hlogical
  obtain ⟨hinside, houtside⟩ := within_iff.mp hwithin axis hlogical
  cases hhas : shape.has axis with
  | true => exact (hinside hhas).1
  | false => exact Shape.get_eq_zero_iff.mpr (houtside hhas).2

theorem position_eq_zero {window : Window} {shape : Shape} (hwithin : window.within shape = true)
    {axis : Axis} (hlogical : axis.isLogical = true) (hspans : ¬window.spans axis = true) :
    window.position.get axis = 0 := by
  have hhas : shape.has axis = false := by
    rw [← within_sameAxes hwithin axis hlogical]
    rwa [spans, hlogical, Bool.true_and, Bool.not_eq_true] at hspans
  exact ((within_iff.mp hwithin axis hlogical).2 hhas).1

theorem Bounded.stop_le {window : Window} {shape : Shape} (hbounded : window.Bounded)
    (hwithin : window.within shape = true) {axis : Axis} (hspans : window.spans axis = true) :
    window.stop axis ≤ shape.get axis := by
  obtain ⟨hlogical, hhas⟩ := spans_iff.mp hspans
  rw [within_sameAxes hwithin axis hlogical] at hhas
  rw [← hbounded.limit hspans]
  exact ((within_iff.mp hwithin axis hlogical).1 hhas).2

theorem Bounded.elements_le {window : Window} {shape : Shape} (hbounded : window.Bounded)
    (hwithin : window.within shape = true) : window.size.elements ≤ shape.elements := by
  refine Shape.elements_le fun axis hlogical => ?_
  by_cases hspans : window.spans axis = true
  · have hstop := hbounded.stop_le hwithin hspans
    rw [Window.stop] at hstop
    omega
  · rw [spans, hlogical, Bool.true_and, Bool.not_eq_true] at hspans
    rw [Shape.get_eq_zero_iff.mp hspans]
    exact Nat.zero_le _

/-- The window has the axes of the tensor and ends within it along each of them. -/
def LiesIn (window : Window) (shape : Shape) : Prop :=
  ∀ axis, axis.isLogical = true →
    window.size.has axis = shape.has axis ∧ window.stop axis ≤ shape.get axis

instance (window : Window) (shape : Shape) : Decidable (window.LiesIn shape) :=
  decidable_of_iff (∀ axis ∈ Axis.logical,
      window.size.has axis = shape.has axis ∧ window.stop axis ≤ shape.get axis)
    (forall_congr' fun axis => by rw [Axis.mem_logical_iff])

theorem Bounded.liesIn {window : Window} {shape : Shape} (hbounded : window.Bounded)
    (hwithin : window.within shape = true) : window.LiesIn shape := by
  intro axis hlogical
  refine ⟨within_sameAxes hwithin axis hlogical, ?_⟩
  by_cases hspans : window.spans axis = true
  · exact hbounded.stop_le hwithin hspans
  · have hposition := position_eq_zero hwithin hlogical hspans
    rw [spans, hlogical, Bool.true_and, Bool.not_eq_true] at hspans
    rw [Window.stop, hposition, Shape.get_eq_zero_iff.mp hspans]
    exact Nat.zero_le _

theorem LiesIn.within {window : Window} {shape : Shape} (hlies : window.LiesIn shape) :
    window.within shape = true := by
  refine within_iff.mpr fun axis hlogical => ?_
  obtain ⟨hhas, hstop⟩ := hlies axis hlogical
  constructor
  · exact fun hspans => ⟨hhas.trans hspans, Nat.le_trans (limit_le_stop window axis) hstop⟩
  · intro habsent
    rw [Shape.get_eq_zero_iff.mp habsent, Window.stop] at hstop
    omega

theorem LiesIn.bounded {window : Window} {shape : Shape} (hlies : window.LiesIn shape)
    (hfits : shape.elements < wordCount) : window.Bounded := by
  intro axis hlogical
  have hextent : shape.get axis ≤ shape.elements := Shape.get_le_elements hlogical
  exact Nat.lt_of_le_of_lt (Nat.le_trans (hlies axis hlogical).2 hextent) hfits

theorem stop_full (shape : Shape) (axis : Axis) : (full shape).stop axis = shape.get axis := by
  rw [stop, full, Shape.get_zero, Nat.zero_add]

theorem covers_full_iff {shape : Shape} {element : Datum} :
    (full shape).Covers element ↔ ∀ axis,
      if axis.isLogical && shape.has axis then element axis < shape.get axis
      else element axis = 0 := by
  refine forall_congr' fun axis => ?_
  rw [spans, stop_full, full]
  split
  case isTrue => simp [Shape.get_zero]
  case isFalse => exact Iff.rfl

theorem Covers.of_within {window : Window} {shape : Shape} {element : Datum}
    (hcovers : window.Covers element) (hbounded : window.Bounded)
    (hwithin : window.within shape = true) : (full shape).Covers element := by
  have hspans : ∀ axis, window.spans axis = (full shape).spans axis :=
    spans_eq_of_sameAxes (within_sameAxes hwithin)
  intro axis
  have haxis := hcovers axis
  rw [hspans] at haxis
  split
  case isFalse hnot => rwa [if_neg hnot] at haxis
  case isTrue hspan =>
    rw [if_pos hspan] at haxis
    have hstop := hbounded.stop_le hwithin ((hspans axis).trans hspan)
    rw [stop_full]
    refine ⟨?_, Nat.lt_of_lt_of_le haxis.2 hstop⟩
    rw [full, Shape.get_zero]
    exact Nat.zero_le _

theorem liesIn_full (shape : Shape) : (full shape).LiesIn shape :=
  fun axis _ => ⟨rfl, Nat.le_of_eq (stop_full shape axis)⟩

theorem within_full (shape : Shape) : (full shape).within shape = true :=
  (liesIn_full shape).within

theorem exists_covers (window : Window) : ∃ element, window.Covers element := by
  refine ⟨fun axis => if window.spans axis then window.position.get axis else 0, fun axis => ?_⟩
  dsimp only
  split
  case isFalse => rfl
  case isTrue hspans =>
    have hpositive := Shape.has_iff.mp (spans_iff.mp hspans).2
    rw [stop]
    exact ⟨Nat.le_refl _, Nat.lt_add_of_pos_right hpositive⟩

/-! Intersections. -/

theorem shares_eq (left right : Window) (axis : Axis) :
    shares left right axis = (left.spans axis && right.spans axis) := by
  unfold shares spans
  cases axis.isLogical <;> simp

/-- The common part of two windows along each axis, as far as their ends are words. -/
structure Common (left right common : Window) : Prop where
  spans : ∀ axis, common.spans axis = (left.spans axis && right.spans axis)
  start : ∀ axis, common.spans axis = true →
    common.position.get axis = max (left.position.get axis) (right.position.get axis)
  stop : ∀ axis, common.spans axis = true →
    common.stop axis = min (left.limit axis) (right.limit axis)
  outside : ∀ axis, ¬common.spans axis = true →
    common.position.get axis = 0 ∧ common.size.get axis = 0

theorem intersect?_eq_none_iff {left right : Window} :
    left.intersect? right = none ↔ ∃ axis, (left.spans axis && right.spans axis) = true ∧
      min (left.limit axis) (right.limit axis) ≤
        max (left.position.get axis) (right.position.get axis) := by
  unfold intersect?
  split
  case isTrue hall =>
    refine ⟨fun hnone => (nomatch hnone), fun hapart => ?_⟩
    obtain ⟨axis, hboth, hle⟩ := hapart
    have hlogical := (spans_iff.mp (Bool.and_eq_true_iff.mp hboth).1).1
    have haxis := List.all_eq_true.mp hall axis ((Axis.mem_logical_iff axis).mpr hlogical)
    rw [shares_eq, hboth, Bool.not_true, Bool.false_or, decide_eq_true_eq] at haxis
    exact absurd hle (Nat.not_le.mpr haxis)
  case isFalse hall =>
    refine ⟨fun _ => ?_, fun _ => rfl⟩
    rw [Bool.not_eq_true, List.all_eq_false] at hall
    obtain ⟨axis, -, haxis⟩ := hall
    rw [shares_eq, Bool.or_eq_true, not_or, Bool.not_eq_true', Bool.not_eq_false,
      decide_eq_true_eq] at haxis
    exact ⟨axis, haxis.1, Nat.not_lt.mp haxis.2⟩

section Meeting

variable {left right common : Window} (hcommon : left.intersect? right = some common)
include hcommon

/-- Windows that meet have an index in common along each axis that both have. -/
theorem lt_of_intersect? {axis : Axis} (hboth : (left.spans axis && right.spans axis) = true) :
    max (left.position.get axis) (right.position.get axis) <
      min (left.limit axis) (right.limit axis) := by
  apply Nat.not_le.mp
  intro hle
  have hnone := intersect?_eq_none_iff.mpr ⟨axis, hboth, hle⟩
  rw [hcommon] at hnone
  cases hnone

theorem position_of_intersect? (axis : Axis) :
    common.position.get axis = if (left.spans axis && right.spans axis) = true then
      max (left.position.get axis) (right.position.get axis) else 0 := by
  obtain ⟨-, hfound⟩ := Option.ite_none_right_eq_some.mp hcommon
  cases hfound
  rw [Shape.get_ofFunction, shares_eq]
  rfl

theorem size_of_intersect? (axis : Axis) :
    common.size.get axis = if (left.spans axis && right.spans axis) = true then
      min (left.limit axis) (right.limit axis) -
        max (left.position.get axis) (right.position.get axis) else 0 := by
  obtain ⟨-, hfound⟩ := Option.ite_none_right_eq_some.mp hcommon
  cases hfound
  rw [Shape.get_ofFunction, shares_eq]
  rfl

theorem spans_of_intersect? (axis : Axis) :
    common.spans axis = (left.spans axis && right.spans axis) := by
  rw [spans, Shape.has, size_of_intersect? hcommon]
  cases hboth : (left.spans axis && right.spans axis) with
  | false => simp
  | true =>
      have hlogical := (spans_iff.mp (Bool.and_eq_true_iff.mp hboth).1).1
      have hless := lt_of_intersect? hcommon hboth
      rw [if_pos rfl, hlogical, Bool.true_and, decide_eq_true_eq]
      omega

theorem common_of_intersect? : Common left right common where
  spans := spans_of_intersect? hcommon
  start axis haxis := by
    rw [spans_of_intersect? hcommon] at haxis
    rw [position_of_intersect? hcommon, if_pos haxis]
  stop axis haxis := by
    rw [spans_of_intersect? hcommon] at haxis
    have hless := lt_of_intersect? hcommon haxis
    rw [Window.stop, position_of_intersect? hcommon, size_of_intersect? hcommon, if_pos haxis,
      if_pos haxis]
    omega
  outside axis haxis := by
    rw [spans_of_intersect? hcommon] at haxis
    rw [position_of_intersect? hcommon, size_of_intersect? hcommon, if_neg haxis, if_neg haxis]
    exact ⟨rfl, rfl⟩

end Meeting

/-- The window has the axes of the other one, and along any further axis it starts at the first
element. -/
structure Extends (window other : Window) : Prop where
  spans : ∀ axis, other.spans axis = true → window.spans axis = true
  start : ∀ axis, window.spans axis = true → ¬other.spans axis = true →
    window.position.get axis = 0

theorem Extends.of_sameAxes {left right : Window} (hsame : left.size.SameAxes right.size) :
    left.Extends right where
  spans axis hspan := (spans_eq_of_sameAxes hsame axis).trans hspan
  start axis hspan hnot := absurd ((spans_eq_of_sameAxes hsame axis).symm.trans hspan) hnot

theorem Common.spans_right {left right common : Window} (hcommon : Common left right common)
    (hextends : left.Extends right) (axis : Axis) : common.spans axis = right.spans axis := by
  rw [hcommon.spans]
  cases hspan : right.spans axis with
  | true => rw [hextends.spans axis hspan, Bool.and_self]
  | false => exact Bool.and_false _

/-- Windows have in common what both cover, if one of them has the axes of the other. -/
theorem Common.covers_iff {left right common : Window} (hcommon : Common left right common)
    (hleft : left.Bounded) (hright : right.Bounded) (hextends : left.Extends right)
    (element : Datum) :
    common.Covers element ↔ left.Covers element ∧ right.Covers element := by
  unfold Covers
  rw [← forall_and]
  refine forall_congr' fun axis => ?_
  have hcommonSpans := hcommon.spans_right hextends axis
  rw [hcommonSpans]
  by_cases hspan : right.spans axis = true
  · have hspanLeft := hextends.spans axis hspan
    rw [if_pos hspan, if_pos hspan, if_pos hspanLeft, hcommon.start axis (hcommonSpans.trans hspan),
      hcommon.stop axis (hcommonSpans.trans hspan), hleft.limit hspanLeft, hright.limit hspan]
    omega
  · rw [if_neg hspan, if_neg hspan]
    refine ⟨fun hzero => ⟨?_, hzero⟩, fun hboth => hboth.2⟩
    split
    case isFalse => exact hzero
    case isTrue hspanLeft =>
      have hpositive := Shape.has_iff.mp (spans_iff.mp hspanLeft).2
      rw [Window.stop, hextends.start axis hspanLeft hspan]
      omega

theorem Common.sameAxes {left right common : Window} (hcommon : Common left right common)
    (hextends : left.Extends right) : common.size.SameAxes right.size := by
  intro axis hlogical
  have hspans := hcommon.spans_right hextends axis
  rwa [Window.spans, Window.spans, hlogical, Bool.true_and, Bool.true_and] at hspans

theorem Common.size_le {left right common : Window} (hcommon : Common left right common)
    (axis : Axis) (hlogical : axis.isLogical = true) :
    common.size.get axis ≤ right.size.get axis := by
  by_cases hspan : common.spans axis = true
  · have hstart := hcommon.start axis hspan
    have hstop := hcommon.stop axis hspan
    have hlimit := limit_le_stop right axis
    rw [Window.stop] at hstop hlimit
    omega
  · have hzero : common.size.has axis = false := by
      rwa [Window.spans, hlogical, Bool.true_and, Bool.not_eq_true] at hspan
    rw [Shape.get_eq_zero_iff.mp hzero]
    exact Nat.zero_le _

/-- Windows, of which one has the axes of the other, have no intersection exactly when no element
lies in both. -/
theorem intersect?_eq_none_iff_covers {left right : Window} (hleft : left.Bounded)
    (hright : right.Bounded) (hextends : left.Extends right) :
    left.intersect? right = none ↔
      ∀ element, ¬(left.Covers element ∧ right.Covers element) := by
  constructor
  · rintro hnone element ⟨hleftCovers, hrightCovers⟩
    obtain ⟨axis, hspans, hapart⟩ := intersect?_eq_none_iff.mp hnone
    obtain ⟨hleftSpans, hrightSpans⟩ := Bool.and_eq_true_iff.mp hspans
    rw [hleft.limit hleftSpans, hright.limit hrightSpans] at hapart
    have hleftAxis := hleftCovers.of_spans hleftSpans
    have hrightAxis := hrightCovers.of_spans hrightSpans
    omega
  · intro hapart
    cases hintersect : left.intersect? right with
    | none => rfl
    | some common =>
        obtain ⟨element, helement⟩ := common.exists_covers
        have hboth := ((common_of_intersect? hintersect).covers_iff hleft hright hextends
          element).mp helement
        exact absurd hboth (hapart element)

end Window

namespace Split

theorem overlap?_eq_some {left right common : Window}
    (hoverlap : overlap? left right = some common) :
    Window.Common left right common ∧ 0 < common.volume := by
  obtain ⟨hintersect, hvolume⟩ := Option.filter_eq_some_iff.mp hoverlap
  exact ⟨Window.common_of_intersect? hintersect, of_decide_eq_true hvolume⟩

/-- Windows that share an axis overlap in what they have in common. -/
theorem overlap?_of_intersect? {left right common : Window}
    (hintersect : left.intersect? right = some common) {axis : Axis}
    (hshared : (left.spans axis && right.spans axis) = true)
    (hfits : right.size.elements < wordCount) : overlap? left right = some common := by
  have hcommon := Window.common_of_intersect? hintersect
  refine Option.filter_eq_some_iff.mpr ⟨hintersect, decide_eq_true ?_⟩
  have hfewer := Nat.lt_of_le_of_lt (Shape.elements_le hcommon.size_le) hfits
  rw [Window.volume, Shape.volume_eq_elements hfewer]
  have hspans := Window.spans_iff.mp ((hcommon.spans axis).trans hshared)
  exact Shape.elements_pos_iff.mpr ⟨axis, hspans⟩

/-- Two windows, of which one has the axes of the other, overlap when both cover some element. -/
theorem exists_overlap?_iff {left right : Window} (hleft : left.Bounded) (hright : right.Bounded)
    (hextends : left.Extends right) (hpositive : 0 < right.size.elements)
    (hfits : right.size.elements < wordCount) :
    (∃ common, overlap? left right = some common) ↔
      ∃ element, left.Covers element ∧ right.Covers element := by
  constructor
  · intro hoverlap
    obtain ⟨common, hcommon⟩ := hoverlap
    obtain ⟨element, helement⟩ := common.exists_covers
    have hboth := (overlap?_eq_some hcommon).1.covers_iff hleft hright hextends element
    exact ⟨element, hboth.mp helement⟩
  · intro hboth
    obtain ⟨element, helement⟩ := hboth
    cases hintersect : left.intersect? right with
    | none =>
        have hapart := (Window.intersect?_eq_none_iff_covers hleft hright hextends).mp hintersect
        exact absurd helement (hapart element)
    | some common =>
        obtain ⟨axis, haxis⟩ := Shape.elements_pos_iff.mp hpositive
        have hspan := Window.spans_iff.mpr haxis
        have hshared := Bool.and_eq_true_iff.mpr ⟨hextends.spans axis hspan, hspan⟩
        exact ⟨common, overlap?_of_intersect? hintersect hshared hfits⟩

end Split

end TiledPlacement

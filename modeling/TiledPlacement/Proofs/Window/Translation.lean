import TiledPlacement.Proofs.Window.Region

/-!
Moving windows and elements from one tensor to another: into the coordinates of a part, and along
an edge whose two windows have the same size. A piece of a window moves as its elements do.
-/

namespace TiledPlacement

namespace Window

/-- The inner window has the axes of the outer one and lies inside it. -/
structure Inside (inner outer : Window) : Prop where
  spans : ∀ axis, inner.spans axis = outer.spans axis
  start : ∀ axis, inner.spans axis = true → outer.position.get axis ≤ inner.position.get axis
  stop : ∀ axis, inner.spans axis = true → inner.stop axis ≤ outer.stop axis

/-- The inner window lies inside the outer one along each axis that it has. -/
structure PartOf (inner outer : Window) : Prop where
  spans : ∀ axis, inner.spans axis = true → outer.spans axis = true
  start : ∀ axis, inner.spans axis = true → outer.position.get axis ≤ inner.position.get axis
  stop : ∀ axis, inner.spans axis = true → inner.stop axis ≤ outer.stop axis

theorem Inside.partOf {inner outer : Window} (hinside : inner.Inside outer) :
    inner.PartOf outer :=
  ⟨fun axis hspan => (hinside.spans axis).symm.trans hspan, hinside.start, hinside.stop⟩

theorem PartOf.inside {inner outer : Window} (hpart : inner.PartOf outer)
    (hsame : inner.size.SameAxes outer.size) : inner.Inside outer :=
  ⟨spans_eq_of_sameAxes hsame, hpart.start, hpart.stop⟩

theorem PartOf.trans {inner middle outer : Window} (hinner : inner.PartOf middle)
    (houter : middle.PartOf outer) : inner.PartOf outer where
  spans axis hspan := houter.spans axis (hinner.spans axis hspan)
  start axis hspan :=
    Nat.le_trans (houter.start axis (hinner.spans axis hspan)) (hinner.start axis hspan)
  stop axis hspan :=
    Nat.le_trans (hinner.stop axis hspan) (houter.stop axis (hinner.spans axis hspan))

theorem PartOf.limit {inner outer : Window} (hpart : inner.PartOf outer)
    (houter : outer.Bounded) {axis : Axis} (hspan : inner.spans axis = true) :
    inner.limit axis = inner.stop axis := by
  have hend := houter axis (spans_iff.mp hspan).1
  exact limit_eq_stop (Nat.lt_of_le_of_lt (hpart.stop axis hspan) hend)

theorem Inside.refl (window : Window) : window.Inside window :=
  ⟨fun _ => rfl, fun _ _ => Nat.le_refl _, fun _ _ => Nat.le_refl _⟩

theorem Inside.covers {inner outer : Window} (hinside : inner.Inside outer) {element : Datum}
    (hcovers : inner.Covers element) : outer.Covers element := by
  intro axis
  have haxis := hcovers axis
  rw [← hinside.spans axis]
  split
  case isFalse hspan => rwa [if_neg hspan] at haxis
  case isTrue hspan =>
    rw [if_pos hspan] at haxis
    have hstart := hinside.start axis hspan
    have hstop := hinside.stop axis hspan
    omega

theorem Common.inside_right_of_sameAxes {left right common : Window}
    (hcommon : Common left right common) (hsame : common.size.SameAxes right.size) :
    common.Inside right := by
  refine ⟨spans_eq_of_sameAxes hsame, fun axis hspan => ?_, fun axis hspan => ?_⟩
  · rw [hcommon.start axis hspan]
    exact Nat.le_max_right _ _
  · rw [hcommon.stop axis hspan]
    exact Nat.le_trans (Nat.min_le_right _ _) (limit_le_stop right axis)

theorem Common.partOf_left {left right common : Window} (hcommon : Common left right common) :
    common.PartOf left := by
  refine ⟨fun axis hspan => ?_, fun axis hspan => ?_, fun axis hspan => ?_⟩
  · exact (Bool.and_eq_true_iff.mp ((hcommon.spans axis).symm.trans hspan)).1
  · rw [hcommon.start axis hspan]
    exact Nat.le_max_left _ _
  · rw [hcommon.stop axis hspan]
    exact Nat.le_trans (Nat.min_le_left _ _) (limit_le_stop left axis)

theorem Common.inside_left {left right common : Window} (hcommon : Common left right common)
    (hsame : left.size.SameAxes right.size) : common.Inside left :=
  hcommon.partOf_left.inside ((hcommon.sameAxes (.of_sameAxes hsame)).trans hsame.symm)

theorem Common.inside_right {left right common : Window} (hcommon : Common left right common)
    (hextends : left.Extends right) : common.Inside right :=
  hcommon.inside_right_of_sameAxes (hcommon.sameAxes hextends)

/-- Windows whose sizes are equal along each axis that they extend along. -/
def SameSize (left right : Window) : Prop :=
  ∀ axis, axis.isLogical = true → left.size.get axis = right.size.get axis

theorem SameSize.symm {left right : Window} (hsize : left.SameSize right) : right.SameSize left :=
  fun axis hlogical => (hsize axis hlogical).symm

theorem SameSize.sameAxes {left right : Window} (hsize : left.SameSize right) :
    left.size.SameAxes right.size := by
  intro axis hlogical
  rw [Shape.has, Shape.has, hsize axis hlogical]

theorem SameSize.spans {left right : Window} (hsize : left.SameSize right) (axis : Axis) :
    left.spans axis = right.spans axis :=
  spans_eq_of_sameAxes hsize.sameAxes axis

theorem SameSize.get {left right : Window} (hsize : left.SameSize right) {axis : Axis}
    (hspan : left.spans axis = true) : left.size.get axis = right.size.get axis :=
  hsize axis (spans_iff.mp hspan).1

theorem get_eq_of_agreesWith {left right : Shape} (hagrees : left.agreesWith right = true)
    {axis : Axis} (hlogical : axis.isLogical = true) (hleft : left.has axis = true)
    (hright : right.has axis = true) : left.get axis = right.get axis := by
  have haxis := List.all_eq_true.mp hagrees axis ((Axis.mem_logical_iff axis).mpr hlogical)
  rw [hleft, hright] at haxis
  exact of_decide_eq_true haxis

theorem sameSize_of_agreesWith {left right : Window}
    (hagrees : left.size.agreesWith right.size = true)
    (hsame : left.size.SameAxes right.size) : left.SameSize right := by
  intro axis hlogical
  cases hhas : left.size.has axis with
  | true =>
      exact get_eq_of_agreesWith hagrees hlogical hhas ((hsame axis hlogical).symm.trans hhas)
  | false =>
      have hother := (hsame axis hlogical).symm.trans hhas
      rw [Shape.get_eq_zero_iff.mp hhas, Shape.get_eq_zero_iff.mp hother]

theorem position_localize (window inner : Window) (axis : Axis) :
    (window.localize inner).position.get axis =
      inner.position.get axis - window.position.get axis :=
  Shape.get_offsetFrom _ _ axis

theorem stop_localize (window inner : Window) (axis : Axis) :
    (window.localize inner).stop axis =
      inner.position.get axis - window.position.get axis + inner.size.get axis :=
  congrArg (· + _) (position_localize window inner axis)

theorem get_position_project (window inner target : Window) (axis : Axis) :
    (window.project inner target).position.get axis =
      word (target.position.get axis +
        (inner.position.get axis - window.position.get axis)) :=
  (Shape.get_add _ _ axis).trans
    (congrArg (fun offset => word (_ + offset)) (Shape.get_offsetFrom _ _ axis))

theorem position_project_of_le (window inner : Window) {target : Window}
    (hbounded : target.Bounded) {axis : Axis} (hlogical : axis.isLogical = true)
    (hoffset : inner.position.get axis - window.position.get axis ≤ target.size.get axis) :
    (window.project inner target).position.get axis =
      target.position.get axis + (inner.position.get axis - window.position.get axis) := by
  have hstop := hbounded axis hlogical
  rw [stop] at hstop
  rw [get_position_project, word_of_lt (by omega)]

/-- A part of a window is carried to where it is in the target, which has the same size. -/
theorem position_project {window inner target : Window} (hbounded : target.Bounded)
    (hsize : window.SameSize target) (hpart : inner.PartOf window) {axis : Axis}
    (hspan : inner.spans axis = true) :
    (window.project inner target).position.get axis =
      target.position.get axis + (inner.position.get axis - window.position.get axis) := by
  have hstart := hpart.start axis hspan
  have hstop := hpart.stop axis hspan
  have hextent := hsize.get (hpart.spans axis hspan)
  rw [stop, stop] at hstop
  exact position_project_of_le window inner hbounded (spans_iff.mp hspan).1 (by omega)

theorem stop_project {window inner target : Window} (hbounded : target.Bounded)
    (hsize : window.SameSize target) (hpart : inner.PartOf window) {axis : Axis}
    (hspan : inner.spans axis = true) :
    (window.project inner target).stop axis =
      target.position.get axis + (inner.position.get axis - window.position.get axis) +
        inner.size.get axis :=
  congrArg (· + _) (position_project hbounded hsize hpart hspan)

theorem Common.bounded_localize {left right common : Window}
    (hcommon : Common left right common) : (right.localize common).Bounded := by
  intro axis _
  rw [stop_localize]
  by_cases hspan : common.spans axis = true
  · have hstop := hcommon.stop axis hspan
    have hlimit : left.limit axis < wordCount := word_lt _
    rw [Window.stop] at hstop
    omega
  · obtain ⟨hposition, hsize⟩ := hcommon.outside axis hspan
    rw [hposition, hsize, Nat.zero_sub]
    decide

/-! Elements. -/

/-- The element of the whole tensor at an index that counts from the origin of the window. -/
def lift (window : Window) (element : Datum) : Datum := fun axis =>
  if window.spans axis then window.position.get axis + element axis else 0

/-- The index from the origin of the window of an element of the whole tensor. -/
def lower (window : Window) (element : Datum) : Datum := fun axis =>
  element axis - window.position.get axis

/-- The element of `there` at the same distance from its origin as an element of `here`. -/
def send (here there : Window) (element : Datum) : Datum := fun axis =>
  if there.spans axis then there.position.get axis + (element axis - here.position.get axis) else 0

/-- The first element of the window along the axes of some tensor. -/
def corner (window : Window) (shape : Shape) : Datum := fun axis =>
  if window.spans axis && shape.has axis then window.position.get axis else 0

theorem covers_lift_iff {window : Window} {element : Datum} :
    (full window.size).Covers element ↔
      window.Covers (window.lift element) ∧
        ∀ axis, ¬window.spans axis = true → element axis = 0 := by
  rw [covers_full_iff]
  unfold Covers
  constructor
  · intro hcovers
    refine ⟨fun axis => ?_, fun axis hspan => ?_⟩
    · have haxis : if window.spans axis then element axis < window.size.get axis
          else element axis = 0 := hcovers axis
      rw [lift]
      split
      case isFalse => rfl
      case isTrue hspan =>
        rw [if_pos hspan] at haxis
        rw [stop]
        omega
    · have haxis : if window.spans axis then element axis < window.size.get axis
          else element axis = 0 := hcovers axis
      rwa [if_neg hspan] at haxis
  · intro hboth axis
    obtain ⟨hcovers, hzero⟩ := hboth
    have haxis := hcovers axis
    change if window.spans axis = true then _ else _
    split
    case isFalse hspan => exact hzero axis hspan
    case isTrue hspan =>
      rw [if_pos hspan, lift, if_pos hspan, stop] at haxis
      omega

theorem lower_lift {window : Window} {element : Datum}
    (hcovers : (full window.size).Covers element) :
    window.lower (window.lift element) = element := by
  funext axis
  rw [lower, lift]
  split
  case isTrue => exact Nat.add_sub_cancel_left _ _
  case isFalse hspan => rw [(covers_lift_iff.mp hcovers).2 axis hspan, Nat.zero_sub]

theorem lift_lift_full (window : Window) (element : Datum) :
    window.lift ((full window.size).lift element) = window.lift element := by
  funext axis
  have hfull : (full window.size).spans axis = window.spans axis := rfl
  rw [lift, lift, lift, hfull]
  split
  case isTrue => rw [full, Shape.get_zero, Nat.zero_add]
  case isFalse => rfl

theorem covers_send {here there : Window} (hsize : here.SameSize there) {element : Datum}
    (hcovers : here.Covers element) : there.Covers (here.send there element) := by
  intro axis
  rw [send]
  split
  case isFalse => rfl
  case isTrue hspan =>
    have hspanHere := (hsize.spans axis).trans hspan
    have haxis := hcovers.of_spans hspanHere
    have hextent := hsize.get hspanHere
    rw [stop] at haxis ⊢
    omega

/-- To send into the origin of a window and to place it there is to send into the window. -/
theorem lift_send (here there : Window) (element : Datum) :
    there.lift (here.send (full there.size) element) = here.send there element := by
  funext axis
  have hfull : (full there.size).spans axis = there.spans axis := rfl
  rw [lift, send, send, hfull]
  split
  case isTrue => rw [full, Shape.get_zero, Nat.zero_add]
  case isFalse => rfl

theorem send_full {window : Window} {element : Datum} (hcovers : window.Covers element) :
    window.send (full window.size) element = window.lower element := by
  funext axis
  have hfull : (full window.size).spans axis = window.spans axis := rfl
  rw [send, lower, hfull]
  split
  case isTrue => rw [full, Shape.get_zero, Nat.zero_add]
  case isFalse hspan => rw [hcovers.of_not_spans hspan, Nat.zero_sub]

/-! Pieces. -/

theorem sameAxes_of_spans {left right : Window}
    (hspans : ∀ axis, left.spans axis = right.spans axis) :
    left.size.SameAxes right.size := by
  intro axis hlogical
  have haxis := hspans axis
  rwa [spans, spans, hlogical, Bool.true_and, Bool.true_and] at haxis

theorem covers_localize_iff {required piece : Window} (hinside : piece.Inside required)
    {element : Datum} :
    (required.localize piece).Covers element ↔
      piece.Covers (required.lift element) ∧
        ∀ axis, ¬required.spans axis = true → element axis = 0 := by
  have hspans : ∀ axis, (required.localize piece).spans axis = required.spans axis :=
    hinside.spans
  unfold Covers
  rw [← forall_and]
  refine forall_congr' fun axis => ?_
  have hstart := hinside.start axis
  rw [hinside.spans] at hstart ⊢
  rw [hspans, lift]
  split
  case isFalse hspan => simp [hspan]
  case isTrue hspan =>
    have hle := hstart hspan
    rw [stop_localize, position_localize, stop]
    simp only [hspan, not_true, false_implies, and_true]
    omega

theorem lower_localize {required piece : Window} (hinside : piece.Inside required)
    {element : Datum} (hcovers : (required.localize piece).Covers element) :
    (required.localize piece).lower element = piece.lower (required.lift element) := by
  funext axis
  rw [lower, lower, lift, position_localize]
  split
  case isTrue hspan =>
    have hstart := hinside.start axis ((hinside.spans axis).trans hspan)
    omega
  case isFalse hspan =>
    obtain ⟨-, houtside⟩ := (covers_localize_iff hinside).mp hcovers
    rw [houtside axis hspan, Nat.zero_sub, Nat.zero_sub]

theorem within_localize {required piece : Window} (hinside : piece.Inside required)
    (houtside : ∀ axis, ¬piece.spans axis = true →
      piece.position.get axis = 0 ∧ piece.size.get axis = 0) :
    (required.localize piece).within required.size = true := by
  refine within_iff.mpr fun axis hlogical => ?_
  have hspans := hinside.spans axis
  have hrequired : required.spans axis = required.size.has axis := by
    rw [spans, hlogical, Bool.true_and]
  have hpiece : piece.spans axis = piece.size.has axis := by
    rw [spans, hlogical, Bool.true_and]
  constructor
  · intro hhas
    have hspan : piece.spans axis = true := (hspans.trans hrequired).trans hhas
    have hstart := hinside.start axis hspan
    have hstop := hinside.stop axis hspan
    refine ⟨hpiece.symm.trans hspan, Nat.le_trans (limit_le_stop _ axis) ?_⟩
    rw [stop, stop] at hstop
    rw [stop_localize]
    omega
  · intro hhas
    have hspan : ¬piece.spans axis = true := by
      rw [hspans, hrequired, hhas]
      exact Bool.false_ne_true
    rw [position_localize, (houtside axis hspan).1, Nat.zero_sub]
    exact ⟨rfl, (houtside axis hspan).2⟩

section Project

variable {here there piece : Window} (hbounded : there.Bounded)
include hbounded

theorem covers_project_iff (hsize : here.SameSize there) (hinside : piece.Inside here)
    {element : Datum} (hcovers : there.Covers element) :
    (here.project piece there).Covers element ↔ piece.Covers (there.send here element) := by
  have hspans : ∀ axis, (here.project piece there).spans axis = here.spans axis := hinside.spans
  unfold Covers
  refine forall_congr' fun axis => ?_
  rw [hspans, hinside.spans, send]
  split
  case isFalse hspan =>
    rw [hcovers.of_not_spans (mt (hsize.spans axis).trans hspan)]
  case isTrue hspan =>
    have hpiece := (hinside.spans axis).trans hspan
    have hstart := hinside.start axis hpiece
    have haxis := hcovers.of_spans ((hsize.spans axis).symm.trans hspan)
    rw [stop_project hbounded hsize hinside.partOf hpiece,
      position_project hbounded hsize hinside.partOf hpiece, stop]
    rw [stop] at haxis
    omega

/-- Along an axis that the target has with the extent that the window has, a part is carried inside
the target. -/
theorem PartOf.project_at (hpart : piece.PartOf here) {axis : Axis}
    (hspan : piece.spans axis = true) (hextent : here.size.get axis = there.size.get axis) :
    there.position.get axis ≤ (here.project piece there).position.get axis ∧
      (here.project piece there).stop axis ≤ there.stop axis := by
  have hlogical := (spans_iff.mp hspan).1
  have hstart := hpart.start axis hspan
  have hstop := hpart.stop axis hspan
  rw [Window.stop, Window.stop] at hstop
  have hposition := position_project_of_le here piece hbounded hlogical (by omega)
  change _ ∧ (here.project piece there).position.get axis + piece.size.get axis ≤ _
  rw [hposition, Window.stop]
  omega

/-- A part of a window is carried to a part of the target, if the target extends as the window does
along its axes. -/
theorem PartOf.project_along (halong : ∀ axis, here.spans axis = true →
      there.spans axis = true ∧ here.size.get axis = there.size.get axis)
    (hpart : piece.PartOf here) : (here.project piece there).PartOf there where
  spans axis hspan := (halong axis (hpart.spans axis hspan)).1
  start axis hspan :=
    (hpart.project_at hbounded hspan (halong axis (hpart.spans axis hspan)).2).1
  stop axis hspan :=
    (hpart.project_at hbounded hspan (halong axis (hpart.spans axis hspan)).2).2

theorem PartOf.project (hsize : here.SameSize there) (hpart : piece.PartOf here) :
    (here.project piece there).PartOf there :=
  hpart.project_along hbounded fun axis hspan =>
    ⟨(hsize.spans axis).symm.trans hspan, hsize.get hspan⟩

theorem inside_project (hsize : here.SameSize there) (hinside : piece.Inside here) :
    (here.project piece there).Inside there := by
  have hsame : piece.size.SameAxes here.size := sameAxes_of_spans hinside.spans
  exact (hinside.partOf.project hbounded hsize).inside (hsame.trans hsize.sameAxes)

theorem within_project {extent : Shape} {other : Window}
    (hcommon : Common here other piece) (hagrees : here.size.agreesWith there.size = true)
    (hsame : piece.size.SameAxes there.size) (hwithin : there.within extent = true) :
    (here.project piece there).within extent = true := by
  have hspans : ∀ axis, piece.spans axis = there.spans axis := spans_eq_of_sameAxes hsame
  refine within_iff.mpr fun axis hlogical => ⟨fun hhas => ?_, fun hhas => ?_⟩
  · have hthere : there.size.has axis = true :=
      (within_sameAxes hwithin axis hlogical).trans hhas
    have hstop := hbounded.stop_le hwithin (spans_iff.mpr ⟨hlogical, hthere⟩)
    have hpiece : piece.spans axis = true :=
      (hspans axis).trans (spans_iff.mpr ⟨hlogical, hthere⟩)
    have hhere : here.spans axis = true :=
      (Bool.and_eq_true_iff.mp ((hcommon.spans axis).symm.trans hpiece)).1
    have hextent := get_eq_of_agreesWith hagrees hlogical (spans_iff.mp hhere).2 hthere
    have hstart := hcommon.partOf_left.start axis hpiece
    have hend := hcommon.partOf_left.stop axis hpiece
    rw [stop] at hstop
    rw [stop, stop] at hend
    have hposition := position_project_of_le here piece hbounded hlogical (by omega)
    refine ⟨(spans_iff.mp hpiece).2, Nat.le_trans (limit_le_stop _ axis) ?_⟩
    change (here.project piece there).position.get axis + piece.size.get axis ≤ _
    rw [hposition]
    omega
  · have hthere : ¬there.spans axis = true := by
      rw [spans, hlogical, Bool.true_and, within_sameAxes hwithin axis hlogical, hhas]
      exact Bool.false_ne_true
    have hpiece : ¬piece.spans axis = true := by
      rw [hspans]
      exact hthere
    obtain ⟨hposition, hzero⟩ := hcommon.outside axis hpiece
    rw [get_position_project, hposition, position_eq_zero hwithin hlogical hthere,
      Nat.zero_sub]
    exact ⟨word_zero, hzero⟩

/-- An element of a part is fed from where the element of the whole that it stands for was. -/
theorem send_localize_project {required : Window} (hsize : here.SameSize there)
    (hhere : piece.Inside here) (hrequired : piece.Inside required) {element : Datum}
    (hcovers : (required.localize piece).Covers element) :
    (required.localize piece).send (here.project piece there) element =
      here.send there (required.lift element) := by
  obtain ⟨hpiece, -⟩ := (covers_localize_iff hrequired).mp hcovers
  funext axis
  have hspans : (here.project piece there).spans axis = there.spans axis :=
    (hhere.spans axis).trans (hsize.spans axis)
  rw [send, send, hspans]
  split
  case isFalse => rfl
  case isTrue hspan =>
    have hspanHere := (hsize.spans axis).trans hspan
    have hspanPiece := (hhere.spans axis).trans hspanHere
    have hspanRequired := (hrequired.spans axis).symm.trans hspanPiece
    have haxis := hpiece.of_spans hspanPiece
    have hstart := hhere.start axis hspanPiece
    have hrequiredStart := hrequired.start axis hspanPiece
    rw [lift, if_pos hspanRequired] at haxis ⊢
    rw [position_project hbounded hsize hhere.partOf hspanPiece, position_localize]
    omega

theorem lift_send_full {required : Window} (hsize : here.SameSize there)
    (hhere : piece.Inside here) (hrequired : piece.Inside required) {element : Datum}
    (hcovers : (required.localize piece).Covers element) :
    (here.project piece there).lift
        ((required.localize piece).send (full (here.project piece there).size) element) =
      here.send there (required.lift element) := by
  rw [lift_send]
  exact send_localize_project hbounded hsize hhere hrequired hcovers

/-- An element that a part sends is the one that the whole sent there. -/
theorem lift_send_localize {required : Window} (hsize : here.SameSize there)
    (hhere : piece.Inside here) (hrequired : piece.Inside required) {element : Datum}
    (hcovers : (here.project piece there).Covers element) :
    required.lift ((here.project piece there).send (required.localize piece) element) =
      there.send here element := by
  funext axis
  have hlocal : (required.localize piece).spans axis = here.spans axis := hhere.spans axis
  have hrequiredSpans : required.spans axis = here.spans axis :=
    (hrequired.spans axis).symm.trans (hhere.spans axis)
  have hprojected : (here.project piece there).spans axis = here.spans axis := hhere.spans axis
  rw [lift, send, send, hlocal, hrequiredSpans]
  split
  case isFalse => rfl
  case isTrue hspan =>
    have hspanPiece := (hhere.spans axis).trans hspan
    have haxis := hcovers.of_spans (hprojected.trans hspan)
    have hstart := hhere.start axis hspanPiece
    have hrequiredStart := hrequired.start axis hspanPiece
    rw [position_project hbounded hsize hhere.partOf hspanPiece] at haxis ⊢
    rw [position_localize]
    omega

theorem lower_send {required : Window} (hsize : here.SameSize there)
    (hhere : piece.Inside here) (hrequired : piece.Inside required) {element : Datum}
    (hcovers : (here.project piece there).Covers element) :
    required.Covers (there.send here element) ∧
      (here.project piece there).send (required.localize piece) element =
        required.lower (there.send here element) := by
  have hpieces : (here.project piece there).SameSize (required.localize piece) := fun _ _ => rfl
  have hlocal := covers_send hpieces hcovers
  obtain ⟨hpiece, houtside⟩ := (covers_localize_iff hrequired).mp hlocal
  have hlower := lower_lift (covers_lift_iff.mpr ⟨hrequired.covers hpiece, houtside⟩)
  have hlift := lift_send_localize hbounded hsize hhere hrequired hcovers
  rw [hlift] at hpiece hlower
  exact ⟨hrequired.covers hpiece, hlower.symm⟩

end Project

end Window

end TiledPlacement

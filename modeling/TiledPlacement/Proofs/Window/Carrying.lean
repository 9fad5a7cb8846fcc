import TiledPlacement.Proofs.Window.Translation

/-!
Carrying pieces of a window over to another window of the same size. Elements move by the distance
between the two origins, so that carrying can be undone, keeps volumes and commutes with
intersecting. A window may record a position along an axis that it does not have. Such a position
says nothing of what the window covers, but carrying takes it along while intersecting drops it;
the laws hold up to it, and it is said when they hold to the letter. They are laws of windows whose
ends are words: an end that wraps around comes before the window's own start.
-/

namespace TiledPlacement

namespace Window

theorem ext_get {left right : Window}
    (hposition : ∀ axis, left.position.get axis = right.position.get axis)
    (hsize : ∀ axis, left.size.get axis = right.size.get axis) : left = right := by
  obtain ⟨leftPosition, leftSize⟩ := left
  obtain ⟨rightPosition, rightSize⟩ := right
  rw [Window.mk.injEq]
  exact ⟨Shape.ext_get hposition, Shape.ext_get hsize⟩

/-- One region: the same axes, with the same position and extent along each. -/
def SameRegion (left right : Window) : Prop :=
  ∀ axis, left.spans axis = right.spans axis ∧ (left.spans axis = true →
    left.position.get axis = right.position.get axis ∧ left.size.get axis = right.size.get axis)

/-- Nothing is recorded along the axes that the window does not have. -/
def Trimmed (window : Window) : Prop :=
  ∀ axis, ¬window.spans axis = true → window.position.get axis = 0 ∧ window.size.get axis = 0

theorem SameRegion.eq_iff {left right : Window} (hregion : left.SameRegion right)
    (hright : right.Trimmed) : left = right ↔ left.Trimmed := by
  constructor
  · intro hequal
    rwa [hequal]
  · intro hleft
    have hboth : ∀ axis, left.position.get axis = right.position.get axis ∧
        left.size.get axis = right.size.get axis := by
      intro axis
      obtain ⟨hspans, hsame⟩ := hregion axis
      by_cases hspan : left.spans axis = true
      · exact hsame hspan
      · have hzero := hleft axis hspan
        have hother := hright axis (hspans ▸ hspan)
        exact ⟨hzero.1.trans hother.1.symm, hzero.2.trans hother.2.symm⟩
    exact ext_get (fun axis => (hboth axis).1) fun axis => (hboth axis).2

/-! Intersections. -/

theorem Common.trimmed {left right common : Window} (hcommon : Common left right common) :
    common.Trimmed :=
  hcommon.outside

theorem Common.unique {left right first second : Window} (hfirst : Common left right first)
    (hsecond : Common left right second) : first = second := by
  have hregion : first.SameRegion second := by
    intro axis
    have hspans := (hfirst.spans axis).trans (hsecond.spans axis).symm
    refine ⟨hspans, fun hspan => ?_⟩
    have hspanSecond := hspans.symm.trans hspan
    have hstart := (hfirst.start axis hspan).trans (hsecond.start axis hspanSecond).symm
    have hstop := (hfirst.stop axis hspan).trans (hsecond.stop axis hspanSecond).symm
    rw [Window.stop, Window.stop] at hstop
    exact ⟨hstart, by omega⟩
  exact (hregion.eq_iff hsecond.trimmed).mpr hfirst.trimmed

theorem intersect?_eq_some_iff {left right common : Window} :
    left.intersect? right = some common ↔ Common left right common := by
  refine ⟨common_of_intersect?, fun hcommon => ?_⟩
  cases hintersect : left.intersect? right with
  | none =>
      obtain ⟨axis, hboth, hapart⟩ := intersect?_eq_none_iff.mp hintersect
      have hspan := (hcommon.spans axis).trans hboth
      have hpositive := Shape.has_iff.mp (spans_iff.mp hspan).2
      rw [← hcommon.start axis hspan, ← hcommon.stop axis hspan, stop] at hapart
      omega
  | some other => rw [hcommon.unique (common_of_intersect? hintersect)]

/-! Parts of a window. -/

theorem exists_covers_at {window : Window} {axis : Axis} (hspan : window.spans axis = true)
    {index : Nat} (hstart : window.position.get axis ≤ index) (hstop : index < window.stop axis) :
    ∃ element, window.Covers element ∧ element axis = index := by
  obtain ⟨element, hcovers⟩ := window.exists_covers
  refine ⟨fun other => if other = axis then index else element other, fun other => ?_,
    if_pos rfl⟩
  dsimp only
  by_cases hother : other = axis
  · rw [hother, if_pos hspan, if_pos rfl]
    exact ⟨hstart, hstop⟩
  · rw [if_neg hother]
    exact hcovers other

/-- A window with the same axes is a part exactly when all that it covers is covered. -/
theorem partOf_iff_covers {inner outer : Window} (hsame : inner.size.SameAxes outer.size) :
    inner.PartOf outer ↔ ∀ element, inner.Covers element → outer.Covers element := by
  have hspans : ∀ axis, inner.spans axis = outer.spans axis := spans_eq_of_sameAxes hsame
  constructor
  · intro hpart element
    exact (hpart.inside hsame).covers
  · intro hcovers
    -- Each index that the inner window has along an axis is the index of an element that it covers.
    have hinside : ∀ axis, inner.spans axis = true →
        ∀ index, inner.position.get axis ≤ index → index < inner.stop axis →
          outer.position.get axis ≤ index ∧ index < outer.stop axis := by
      intro axis hspan index hstart hstop
      obtain ⟨element, helement, hindex⟩ := exists_covers_at hspan hstart hstop
      rw [← hindex]
      exact (hcovers element helement).of_spans ((hspans axis).symm.trans hspan)
    have hextent : ∀ axis, inner.spans axis = true →
        inner.position.get axis < inner.stop axis := by
      intro axis hspan
      exact Nat.lt_add_of_pos_right (Shape.has_iff.mp (spans_iff.mp hspan).2)
    refine ⟨fun axis hspan => (hspans axis).symm.trans hspan, fun axis hspan => ?_,
      fun axis hspan => ?_⟩
    · exact (hinside axis hspan _ (Nat.le_refl _) (hextent axis hspan)).1
    · have hpositive := hextent axis hspan
      have hlast := hinside axis hspan (inner.stop axis - 1) (by omega) (by omega)
      omega

/-- The containment test accepts the parts along whose missing axes nothing is recorded. -/
theorem contains_iff {window inner : Window} (hwindow : window.Bounded) :
    window.contains inner = true ↔ inner.PartOf window ∧ inner.Trimmed := by
  rw [contains, decide_eq_true_eq, intersect?_eq_some_iff]
  refine ⟨fun hcommon => ⟨hcommon.partOf_left, hcommon.trimmed⟩, ?_⟩
  rintro ⟨hpart, htrimmed⟩
  refine ⟨fun axis => ?_, fun axis hspan => ?_, fun axis hspan => ?_, htrimmed⟩
  · cases hspan : inner.spans axis with
    | false => rw [Bool.and_false]
    | true => rw [hpart.spans axis hspan, Bool.and_self]
  · exact (Nat.max_eq_right (hpart.start axis hspan)).symm
  · rw [hwindow.limit (hpart.spans axis hspan), hpart.limit hwindow hspan]
    exact (Nat.min_eq_right (hpart.stop axis hspan)).symm

/-! Carrying a part over. -/

/-- Whether carrying the piece over stays in words, positions along missing axes included. -/
structure Room (here there piece : Window) : Prop where
  source : here.Bounded
  target : there.Bounded
  size : here.SameSize there
  origin : ∀ axis, here.position.get axis < wordCount
  start : ∀ axis, piece.position.get axis < wordCount
  carried : ∀ axis,
    there.position.get axis + (piece.position.get axis - here.position.get axis) < wordCount

section Project

variable {here there piece first second : Window}

theorem trimmed_project_iff (hthere : ∀ axis, there.position.get axis < wordCount)
    (hpiece : piece.Trimmed) :
    (here.project piece there).Trimmed ↔
      ∀ axis, ¬piece.spans axis = true → there.position.get axis = 0 := by
  refine forall_congr' fun axis => imp_congr_right fun hspan => ?_
  obtain ⟨hposition, hzero⟩ := hpiece axis hspan
  rw [get_position_project, hposition, Nat.zero_sub, Nat.add_zero,
    word_of_lt (hthere axis)]
  exact and_iff_left hzero

/-- The target is the source, moved by the distance between the origins of the two windows along
the axes of the piece. -/
def Moves (here there piece : Window) (source target : Datum) : Prop :=
  ∀ axis, (target axis : Int) = source axis +
    if piece.spans axis then (there.position.get axis : Int) - here.position.get axis else 0

/-- A carried part covers what the part covers, moved from the one origin to the other. -/
theorem covers_project_iff_moves (hthere : there.Bounded) (hsize : here.SameSize there)
    (hpart : piece.PartOf here) {target : Datum} :
    (here.project piece there).Covers target ↔
      ∃ source, piece.Covers source ∧ Moves here there piece source target := by
  have hspans : ∀ axis, (here.project piece there).spans axis = piece.spans axis := fun _ => rfl
  constructor
  · intro hcovers
    -- The source is as far from the start of the part as the target from where that is carried.
    have hequal : (here.project piece there).SameSize piece := fun _ _ => rfl
    refine ⟨(here.project piece there).send piece target, covers_send hequal hcovers,
      fun axis => ?_⟩
    rw [send]
    split
    case isTrue hspan =>
      have haxis := hcovers.of_spans ((hspans axis).trans hspan)
      have hstart := hpart.start axis hspan
      rw [position_project hthere hsize hpart hspan] at haxis ⊢
      omega
    case isFalse hspan => rw [hcovers.of_not_spans hspan]; rfl
  · rintro ⟨source, hsource, hmoves⟩ axis
    have hmove := hmoves axis
    rw [hspans]
    split
    case isTrue hspan =>
      have haxis := hsource.of_spans hspan
      have hstart := hpart.start axis hspan
      rw [if_pos hspan] at hmove
      rw [stop] at haxis
      rw [stop_project hthere hsize hpart hspan, position_project hthere hsize hpart hspan]
      omega
    case isFalse hspan =>
      rw [if_neg hspan, hsource.of_not_spans hspan] at hmove
      omega

theorem Room.position_lt (hroom : Room here there piece) (axis : Axis) :
    there.position.get axis < wordCount :=
  Nat.lt_of_le_of_lt (Nat.le_add_right _ _) (hroom.carried axis)

theorem Room.position_project (hroom : Room here there piece) (axis : Axis) :
    (here.project piece there).position.get axis =
      there.position.get axis + (piece.position.get axis - here.position.get axis) :=
  (get_position_project here piece there axis).trans (word_of_lt (hroom.carried axis))

theorem Room.position_project_project (hroom : Room here there piece) (axis : Axis) :
    (there.project (here.project piece there) here).position.get axis =
      here.position.get axis + (piece.position.get axis - here.position.get axis) := by
  have hhere := hroom.origin axis
  have hstart := hroom.start axis
  rw [get_position_project, hroom.position_project, Nat.add_sub_cancel_left]
  exact word_of_lt (by omega)

theorem Room.sameRegion_project_project (hroom : Room here there piece)
    (hpart : piece.PartOf here) :
    (there.project (here.project piece there) here).SameRegion piece := by
  refine fun axis => ⟨rfl, fun hspan => ⟨?_, rfl⟩⟩
  rw [hroom.position_project_project]
  exact Nat.add_sub_cancel' (hpart.start axis hspan)

theorem Room.project_project_eq_iff (hroom : Room here there piece) :
    there.project (here.project piece there) here = piece ↔
      ∀ axis, here.position.get axis ≤ piece.position.get axis := by
  constructor
  · intro hequal axis
    have hposition : (there.project (here.project piece there) here).position.get axis =
        piece.position.get axis := by rw [hequal]
    rw [hroom.position_project_project] at hposition
    omega
  · intro hle
    refine ext_get (fun axis => ?_) fun _ => rfl
    rw [hroom.position_project_project]
    exact Nat.add_sub_cancel' (hle axis)

theorem localize_eq_project (window : Window) {inner : Window}
    (hinner : ∀ axis, inner.position.get axis < wordCount) :
    window.localize inner = window.project inner (full window.size) := by
  refine ext_get (fun axis => ?_) fun _ => rfl
  rw [position_localize, get_position_project, full, Shape.get_zero, Nat.zero_add,
    word_of_lt (Nat.lt_of_le_of_lt (Nat.sub_le _ _) (hinner axis))]

/-! Carrying two parts over. -/

variable (hhere : here.Bounded) (hthere : there.Bounded) (hsize : here.SameSize there)
  (hfirst : first.PartOf here) (hsecond : second.PartOf here)
include hhere hthere hsize hfirst hsecond

theorem intersect?_project_eq_none_iff :
    (here.project first there).intersect? (here.project second there) = none ↔
      first.intersect? second = none := by
  rw [intersect?_eq_none_iff, intersect?_eq_none_iff]
  refine exists_congr fun axis => and_congr_right fun hboth => ?_
  obtain ⟨hspanFirst, hspanSecond⟩ := Bool.and_eq_true_iff.mp hboth
  have hstartFirst := hfirst.start axis hspanFirst
  have hstartSecond := hsecond.start axis hspanSecond
  rw [(hfirst.project hthere hsize).limit hthere hspanFirst,
    (hsecond.project hthere hsize).limit hthere hspanSecond,
    hfirst.limit hhere hspanFirst, hsecond.limit hhere hspanSecond,
    stop_project hthere hsize hfirst hspanFirst, stop_project hthere hsize hsecond hspanSecond,
    position_project hthere hsize hfirst hspanFirst,
    position_project hthere hsize hsecond hspanSecond, stop, stop]
  omega

theorem Common.sameRegion_project {common carried : Window}
    (hcommon : Common first second common)
    (hcarried : Common (here.project first there) (here.project second there) carried) :
    (here.project common there).SameRegion carried := by
  intro axis
  have hspans : common.spans axis = carried.spans axis :=
    (hcommon.spans axis).trans (hcarried.spans axis).symm
  refine ⟨hspans, fun hspan => ?_⟩
  obtain ⟨hspanFirst, hspanSecond⟩ :=
    Bool.and_eq_true_iff.mp ((hcommon.spans axis).symm.trans hspan)
  have hpart : common.PartOf here := hcommon.partOf_left.trans hfirst
  have hstartFirst := hfirst.start axis hspanFirst
  have hstartSecond := hsecond.start axis hspanSecond
  have hstart := hcommon.start axis hspan
  have hstop := hcommon.stop axis hspan
  have hcarriedStart := hcarried.start axis (hspans.symm.trans hspan)
  have hcarriedStop := hcarried.stop axis (hspans.symm.trans hspan)
  rw [position_project hthere hsize hfirst hspanFirst,
    position_project hthere hsize hsecond hspanSecond] at hcarriedStart
  rw [(hfirst.project hthere hsize).limit hthere hspanFirst,
    (hsecond.project hthere hsize).limit hthere hspanSecond,
    stop_project hthere hsize hfirst hspanFirst,
    stop_project hthere hsize hsecond hspanSecond, Window.stop] at hcarriedStop
  rw [hfirst.limit hhere hspanFirst, hsecond.limit hhere hspanSecond, Window.stop, Window.stop,
    Window.stop] at hstop
  rw [position_project hthere hsize hpart hspan]
  refine ⟨by omega, ?_⟩
  change common.size.get axis = carried.size.get axis
  omega

theorem exists_intersect?_project {common : Window}
    (hcommon : first.intersect? second = some common) :
    ∃ carried,
      (here.project first there).intersect? (here.project second there) = some carried ∧
        (here.project common there).SameRegion carried ∧ carried.Trimmed := by
  cases hcarried : (here.project first there).intersect? (here.project second there) with
  | none =>
      have hnone :=
        (intersect?_project_eq_none_iff hhere hthere hsize hfirst hsecond).mp hcarried
      cases hcommon.symm.trans hnone
  | some carried =>
      have hboth := common_of_intersect? hcarried
      exact ⟨carried, rfl, (common_of_intersect? hcommon).sameRegion_project hhere hthere hsize
        hfirst hsecond hboth, hboth.trimmed⟩

/-- Carrying the common part of two parts gives the common part of what they are carried to. -/
theorem intersect?_project :
    Option.Rel SameRegion ((first.intersect? second).map (here.project · there))
      ((here.project first there).intersect? (here.project second there)) := by
  cases hcommon : first.intersect? second with
  | none =>
      rw [(intersect?_project_eq_none_iff hhere hthere hsize hfirst hsecond).mpr hcommon]
      exact .none
  | some common =>
      obtain ⟨carried, hcarried, hregion, -⟩ :=
        exists_intersect?_project hhere hthere hsize hfirst hsecond hcommon
      rw [hcarried]
      exact .some hregion

theorem intersect?_project_eq_iff (hwords : ∀ axis, there.position.get axis < wordCount) :
    (first.intersect? second).map (here.project · there) =
        (here.project first there).intersect? (here.project second there) ↔
      ∀ common, first.intersect? second = some common →
        ∀ axis, ¬common.spans axis = true → there.position.get axis = 0 := by
  cases hcommon : first.intersect? second with
  | none =>
      rw [(intersect?_project_eq_none_iff hhere hthere hsize hfirst hsecond).mpr hcommon]
      exact ⟨fun _ _ hsome => (nomatch hsome), fun _ => rfl⟩
  | some common =>
      obtain ⟨carried, hcarried, hregion, htrimmed⟩ :=
        exists_intersect?_project hhere hthere hsize hfirst hsecond hcommon
      rw [hcarried, Option.map_some, Option.some.injEq, hregion.eq_iff htrimmed,
        trimmed_project_iff hwords (common_of_intersect? hcommon).trimmed]
      simp only [Option.some.injEq, forall_eq']

end Project

/-- What becomes of a part of the window `here` that is carried over to `there`. The two
equivalences say when nothing that is recorded along a missing axis gets in the way. -/
structure Carries (here there piece : Window) : Prop where
  part : (here.project piece there).PartOf there
  covered : piece.size.SameAxes here.size →
    ∀ element, (here.project piece there).Covers element → there.Covers element
  contained_iff : here.contains piece = true →
    (there.contains (here.project piece there) = true ↔
      ∀ axis, ¬piece.spans axis = true → there.position.get axis = 0)
  moved : ∀ target, (here.project piece there).Covers target ↔
    ∃ source, piece.Covers source ∧ Moves here there piece source target
  undone : (there.project (here.project piece there) here).SameRegion piece
  undone_iff : there.project (here.project piece there) here = piece ↔
    ∀ axis, here.position.get axis ≤ piece.position.get axis
  volume : (here.project piece there).volume = piece.volume
  localized : here.localize piece = here.project piece (full here.size)

theorem Room.carries {here there piece : Window} (hroom : Room here there piece)
    (hpart : piece.PartOf here) : Carries here there piece where
  part := hpart.project hroom.target hroom.size
  covered := fun hsame => by
    have hthere : (here.project piece there).size.SameAxes there.size :=
      hsame.trans hroom.size.sameAxes
    exact (partOf_iff_covers hthere).mp (hpart.project hroom.target hroom.size)
  contained_iff := fun hcontains => by
    rw [contains_iff hroom.target, and_iff_right (hpart.project hroom.target hroom.size)]
    exact trimmed_project_iff hroom.position_lt ((contains_iff hroom.source).mp hcontains).2
  moved := fun _ => covers_project_iff_moves hroom.target hroom.size hpart
  undone := hroom.sameRegion_project_project hpart
  undone_iff := hroom.project_project_eq_iff
  volume := rfl
  localized := localize_eq_project here hroom.start

/-- As long as positions and ends stay in words, intersecting windows with the same axes intersects
what they cover. Carrying a part of a window over to a window of the same size then moves what it
covers, can be undone, keeps volumes and commutes with intersecting, up to positions along missing
axes, and to the letter exactly where such positions do not count. -/
theorem intersect_project_exact :
    (∀ left right : Window, left.Bounded → right.Bounded → left.size.SameAxes right.size →
      (left.intersect? right = none ↔
          ∀ element, ¬(left.Covers element ∧ right.Covers element)) ∧
        ∀ common, left.intersect? right = some common →
          ∀ element, common.Covers element ↔ left.Covers element ∧ right.Covers element) ∧
    (∀ here there piece : Window, Room here there piece → piece.PartOf here →
      Carries here there piece) ∧
    ∀ here there first second : Window, Room here there first → Room here there second →
      first.PartOf here → second.PartOf here →
      Option.Rel SameRegion ((first.intersect? second).map (here.project · there))
          ((here.project first there).intersect? (here.project second there)) ∧
        ((first.intersect? second).map (here.project · there) =
            (here.project first there).intersect? (here.project second there) ↔
          ∀ common, first.intersect? second = some common →
            ∀ axis, ¬common.spans axis = true → there.position.get axis = 0) := by
  refine ⟨fun left right hleft hright hsame => ⟨?_, fun common hcommon => ?_⟩,
    fun here there piece hroom hpart => ?_,
    fun here there first second hroom _ hfirst hsecond => ⟨?_, ?_⟩⟩
  · exact intersect?_eq_none_iff_covers hleft hright (.of_sameAxes hsame)
  · exact (common_of_intersect? hcommon).covers_iff hleft hright (.of_sameAxes hsame)
  · exact hroom.carries hpart
  · exact intersect?_project hroom.source hroom.target hroom.size hfirst hsecond
  · exact intersect?_project_eq_iff hroom.source hroom.target hroom.size hfirst hsecond
      hroom.position_lt

/-- Two overlapping parts of four rows, carried over to other rows and channels and back. -/
theorem intersect_project_exact_rows :
    let here : Window := ⟨{ y := 2 }, { y := 4, x := 4, f := 8 }⟩
    let there : Window := ⟨{ f := 8 }, { y := 4, x := 4, f := 8 }⟩
    let upper : Window := ⟨{ y := 2 }, { y := 3, x := 4, f := 8 }⟩
    let lower : Window := ⟨{ y := 4 }, { y := 2, x := 4, f := 8 }⟩
    (upper.Bounded ∧ lower.Bounded ∧ upper.size.SameAxes lower.size ∧
        Room here there upper ∧ Room here there lower ∧ upper.PartOf here ∧
        lower.PartOf here) ∧
      (¬∀ element, ¬(upper.Covers element ∧ lower.Covers element)) ∧
      there.contains (here.project lower there) = true ∧
      there.project (here.project lower there) here = lower ∧
      (upper.intersect? lower).map (here.project · there) =
        (here.project upper there).intersect? (here.project lower there) := by
  intro here there upper lower
  have hhere : here.Bounded := by decide
  have hthere : there.Bounded := by decide
  have hupperBounded : upper.Bounded := by decide
  have hlowerBounded : lower.Bounded := by decide
  have horigin : ∀ axis, here.position.get axis < wordCount := fun axis => by
    cases axis <;> decide
  have hsame : upper.size.SameAxes lower.size := by decide
  have hsize : here.SameSize there := fun _ _ => rfl
  have hupper : upper.PartOf here := ((contains_iff hhere).mp (by decide)).1
  have hlower : lower.PartOf here := ((contains_iff hhere).mp (by decide)).1
  have hupperRoom : Room here there upper := ⟨hhere, hthere, hsize, horigin,
    fun axis => by cases axis <;> decide, fun axis => by cases axis <;> decide⟩
  have hroom : Room here there lower := ⟨hhere, hthere, hsize, horigin,
    fun axis => by cases axis <;> decide, fun axis => by cases axis <;> decide⟩
  obtain ⟨hintersect, hcarry, hcommute⟩ := intersect_project_exact
  have hcarries := hcarry here there lower hroom hlower
  refine ⟨⟨hupperBounded, hlowerBounded, hsame, hupperRoom, hroom, hupper, hlower⟩, ?_, ?_, ?_, ?_⟩
  · exact mt (hintersect upper lower hupperBounded hlowerBounded hsame).1.mpr (by decide)
  · refine (hcarries.contained_iff (by decide)).mpr fun axis hspan => ?_
    revert hspan
    cases axis <;> decide
  · exact hcarries.undone_iff.mpr fun axis => by cases axis <;> decide
  · have hmeet : upper.intersect? lower = some ⟨{ y := 4 }, { y := 1, x := 4, f := 8 }⟩ := by
      decide
    refine (hcommute here there upper lower hupperRoom hroom hupper hlower).2.mpr
      fun common hcommon axis => ?_
    rw [← Option.some.inj (hmeet.symm.trans hcommon)]
    cases axis <;> decide

/-- A position along a missing axis, such as one that no tensor counts, is taken along by carrying
and dropped by intersecting. Carried over to the very window that it is contained in, a part then
is not contained in it, does not come back and meets itself somewhere else. A window whose end
wraps around is apart from itself. -/
theorem project_strays :
    ((⟨{ iy := 1 }, { y := 4 }⟩ : Window).within { y := 4 } = true ∧
      ∀ stray ∈ [({ iy := 1 } : Shape), { x := 3 }],
        let window : Window := ⟨stray, { y := 4 }⟩
        let piece : Window := ⟨Shape.zero, { y := 2 }⟩
        (piece.size.SameAxes window.size ∧ window.contains piece = true ∧ 0 < piece.volume) ∧
          window.contains (window.project piece window) = false ∧
          window.project (window.project piece window) window ≠ piece ∧
          (piece.intersect? piece).map (window.project · window) ≠
            (window.project piece window).intersect? (window.project piece window)) ∧
      let last : Window := ⟨{ f := wordCount - 1 }, { f := 1 }⟩
      (last.position.f < wordCount ∧ last.Covers fun axis => last.position.get axis) ∧
        last.intersect? last = none := by
  decide

end Window

end TiledPlacement

import TiledPlacement.Proofs.Split.Extent

/-!
Copies as a partition. The windows of the copies of a computation divide the indices along its
axes among them, one window for each combination of pieces, in row-major order.
-/

namespace TiledPlacement

namespace Interval

/-- Longer pieces come first, by one at most. -/
theorem pairwise_averageSplit (extent parts : Nat) :
    (averageSplit extent parts).Pairwise fun earlier later =>
      later.length ≤ earlier.length ∧ earlier.length ≤ later.length + 1 := by
  by_cases hsplit : parts = 0 ∨ extent < parts
  · rw [averageSplit, if_pos hsplit]
    exact .nil
  · have hlength : ∀ piece, length ⟨cut extent parts piece, cut extent parts (piece + 1)⟩ =
        extent / parts + if piece < extent % parts then 1 else 0 := by
      intro piece
      rw [length, cut_succ, Nat.add_sub_cancel_left]
    rw [averageSplit_eq_map_cut (by omega) (by omega), List.pairwise_map]
    refine List.pairwise_lt_range.imp fun {first last} hless => ?_
    rw [hlength, hlength]
    split <;> split <;> omega

end Interval

private theorem getElem?_flatMap {α β : Type} {list : List α} {next : α → List β} {width : Nat}
    (hwidth : ∀ element, (next element).length = width) {place inner : Nat} {element : α}
    (hplace : list[place]? = some element) (hinner : inner < width) :
    (list.flatMap next)[place * width + inner]? = (next element)[inner]? := by
  induction list generalizing place with
  | nil => cases hplace
  | cons first rest induction =>
      rw [List.flatMap_cons]
      cases place with
      | zero =>
          obtain rfl := Option.some.inj hplace
          rw [Nat.zero_mul, Nat.zero_add, List.getElem?_append_left (by rwa [hwidth])]
      | succ place =>
          have hbeyond : (place + 1) * width + inner =
              (next first).length + (place * width + inner) := by
            rw [hwidth, Nat.succ_mul]
            omega
          rw [hbeyond, List.getElem?_append_right (Nat.le_add_right _ _), Nat.add_sub_cancel_left]
          exact induction hplace

private theorem length_flatMap {α β : Type} {list : List α} {next : α → List β} {width : Nat}
    (hwidth : ∀ element, (next element).length = width) :
    (list.flatMap next).length = list.length * width := by
  simp only [List.length_flatMap, hwidth, List.map_const', List.sum_replicate_nat]

private theorem add_lt_mul {place inner count width : Nat} (hinner : inner < width)
    (hplace : place < count) : place * width + inner < count * width := by
  have hwhole : (place + 1) * width ≤ count * width := Nat.mul_le_mul_right width hplace
  rw [Nat.succ_mul] at hwhole
  omega

private theorem existsUnique_place {α : Type} {list : List α} (hnodup : list.Nodup)
    {property : α → Prop} (hunique : ∃! element, element ∈ list ∧ property element) :
    ∃! place : Nat, ∃ element, list[place]? = some element ∧ property element := by
  obtain ⟨element, ⟨hmember, hproperty⟩, honly⟩ := hunique
  obtain ⟨place, hplace⟩ := List.mem_iff_getElem?.mp hmember
  refine ⟨place, ⟨element, hplace, hproperty⟩, ?_⟩
  rintro other ⟨found, hfound, hholds⟩
  obtain rfl := honly found ⟨List.mem_of_getElem? hfound, hholds⟩
  exact (List.getElem?_inj (List.getElem?_eq_some_iff.mp hfound).1 hnodup).mp
    (hfound.trans hplace.symm)

namespace SplitPart

variable {shape : Shape} {factors : SplitVector}

section Order

variable (shape factors) (y x f : Interval)

private def alongR : List SplitPart :=
  (intervals shape factors .r).zipIdx.map fun (r, addend) => { y, x, f, r, addend }

private def alongF : List SplitPart :=
  (intervals shape factors .f).flatMap fun f => alongR shape factors y x f

private def alongX : List SplitPart :=
  (intervals shape factors .x).flatMap fun x => alongF shape factors y x

private theorem all_eq : all shape factors =
    (intervals shape factors .y).flatMap fun y => alongX shape factors y := rfl

variable {shape factors} (hdivides : factors.Divides shape)
include hdivides

private theorem length_alongR : (alongR shape factors y x f).length = factors.r := by
  rw [alongR, List.length_map, List.length_zipIdx, length_intervals hdivides]
  rfl

private theorem length_alongF : (alongF shape factors y x).length = factors.f * factors.r := by
  rw [alongF, length_flatMap fun f => length_alongR y x f hdivides, length_intervals hdivides]
  rfl

private theorem length_alongX :
    (alongX shape factors y).length = factors.x * (factors.f * factors.r) := by
  rw [alongX, length_flatMap fun x => length_alongF y x hdivides, length_intervals hdivides]
  rfl

theorem length_all : (all shape factors).length = factors.combinations := by
  rw [all_eq, length_flatMap fun y => length_alongX y hdivides, length_intervals hdivides]
  simp only [SplitVector.along, SplitVector.combinations, Nat.mul_assoc]

variable {y x f}

/-- Parts are in row-major order. -/
theorem getElem?_all {r : Interval} {i j k l : Nat}
    (hy : (intervals shape factors .y)[i]? = some y)
    (hx : (intervals shape factors .x)[j]? = some x)
    (hf : (intervals shape factors .f)[k]? = some f)
    (hr : (intervals shape factors .r)[l]? = some r) :
    (all shape factors)[((i * factors.x + j) * factors.f + k) * factors.r + l]? =
      some ⟨y, x, f, r, l⟩ := by
  have hplace : ((i * factors.x + j) * factors.f + k) * factors.r + l =
      i * (factors.x * (factors.f * factors.r)) +
        (j * (factors.f * factors.r) + (k * factors.r + l)) := by
    simp only [Nat.add_mul, Nat.mul_assoc, Nat.add_assoc]
  have hbelow : ∀ {axis place interval}, (intervals shape factors axis)[place]? = some interval →
      place < factors.along axis := by
    intro axis place interval hinterval
    rw [← length_intervals hdivides]
    exact (List.getElem?_eq_some_iff.mp hinterval).1
  have hinnermost : l < factors.r := hbelow hr
  have hinner : k * factors.r + l < factors.f * factors.r := add_lt_mul hinnermost (hbelow hf)
  have houter : j * (factors.f * factors.r) + (k * factors.r + l) <
      factors.x * (factors.f * factors.r) := add_lt_mul hinner (hbelow hx)
  rw [hplace, all_eq, getElem?_flatMap (fun y => length_alongX y hdivides) hy houter, alongX,
    getElem?_flatMap (fun x => length_alongF y x hdivides) hx hinner, alongF,
    getElem?_flatMap (fun f => length_alongR y x f hdivides) hf hinnermost, alongR,
    List.getElem?_map, List.getElem?_zipIdx, hr, Option.map_some, Option.map_some, Nat.zero_add]

end Order

end SplitPart

/-- The window has the index of the element along each axis that may be cut and applies. -/
def Window.Holds (window : Window) (shape : Shape) (element : Datum) : Prop :=
  ∀ axis ∈ Axis.splittable, shape.has axis = true →
    window.position.get axis ≤ element axis ∧ element axis < window.stop axis

namespace SplitPart

variable {part : SplitPart} {whole : Computation} {factors : SplitVector} {element : Datum}

theorem holds_window_iff (hpart : part ∈ all whole.shape factors) :
    (part.window whole factors).Holds whole.shape element ↔
      ∀ axis ∈ Axis.splittable,
        Within whole.shape axis (part.interval whole factors axis) (element axis) := by
  refine forall_congr' fun axis => forall_congr' fun hsplittable => imp_congr_right fun _ => ?_
  have hordered := (of_mem_intervals (interval_mem hpart axis hsplittable)).2.1
  rw [Window.stop, position_window, size_window, Interval.length, Nat.add_sub_cancel' hordered]
  exact Iff.rfl

theorem existsUnique_holds (hdivides : factors.Divides whole.shape)
    (helement : ∀ axis ∈ Axis.splittable, whole.shape.has axis = true →
      element axis < whole.shape.get axis) :
    ∃! part, part ∈ all whole.shape factors ∧
      (part.window whole factors).Holds whole.shape element := by
  obtain ⟨r, ⟨hr, hrWithin⟩, hrOnly⟩ := existsUnique_interval hdivides (helement .r (by decide))
  obtain ⟨addend, haddend⟩ := List.mem_iff_getElem?.mp hr
  have hless := (List.getElem?_eq_some_iff.mp haddend).1
  have hbelow : ∀ axis, axis ∈ [Axis.y, .x, .f] → whole.shape.has axis = true →
      element axis < whole.shape.get axis := by
    intro axis haxis
    refine helement axis ?_
    simp only [List.mem_cons, List.not_mem_nil, or_false] at haxis
    obtain rfl | rfl | rfl := haxis <;> decide
  obtain ⟨part, ⟨hpart, rfl, hy, hx, hf⟩, honly⟩ := existsUnique_part hdivides hbelow hless
  have haddends : ∀ {other}, other ∈ all whole.shape factors →
      (intervals whole.shape factors .r)[other.addend]? = some other.r := fun hother =>
    List.mem_zipIdx_iff_getElem?.mp (mem_all_iff.mp hother).2.2.2
  have hsame : part.r = r := Option.some.inj ((haddends hpart).symm.trans haddend)
  rw [← hsame] at hrWithin
  refine ⟨part, ⟨hpart, (holds_window_iff hpart).mpr ?_⟩, ?_⟩
  · exact Axis.forall_splittable.mpr ⟨hy, hx, hf, hrWithin⟩
  · rintro other ⟨hother, hholds⟩
    have hwithin := (holds_window_iff hother).mp hholds
    -- The interval of the `r` axis is the same, and so is its place among those of the axis.
    have hinterval : other.r = r :=
      hrOnly other.r ⟨interval_mem hother .r (by decide), hwithin .r (by decide)⟩
    have hplace : other.addend = part.addend := by
      refine (List.getElem?_inj (List.getElem?_eq_some_iff.mp (haddends hother)).1
        (nodup_intervals .r)).mp ?_
      rw [haddends hother, haddends hpart, hinterval, hsame]
    exact honly other ⟨hother, hplace, hwithin .y (by decide), hwithin .x (by decide),
      hwithin .f (by decide)⟩

theorem pairwise_intervals (shape : Shape) (factors : SplitVector) (axis : Axis) :
    (intervals shape factors axis).Pairwise fun earlier later =>
      later.length ≤ earlier.length ∧ earlier.length ≤ later.length + 1 := by
  unfold intervals
  split
  case isTrue => exact Interval.pairwise_averageSplit _ _
  case isFalse => exact List.pairwise_singleton _ _

/-- A part has the logical axes of the whole. -/
theorem sameAxes_window (hpart : part ∈ all whole.shape factors) :
    (part.window whole factors).size.SameAxes whole.shape := by
  intro axis hlogical
  cases axis
  case y | x | f | r => exact (window_splittable hpart (by decide)).1
  case ky | kx =>
    rw [Shape.has, size_window]
    rfl
  all_goals cases hlogical

end SplitPart

/-- The copies of a split partition the computation. There are as many as the product of the
factors; each index tuple lies in the window of exactly one; no window is empty; along each axis the
pieces are as many as the factor says, longer ones first and by one element at most; and copies are
in row-major order of their pieces. -/
theorem Split.parts_partition {split : Split} {task : TaskId} {vector : SplitVector}
    (hfactors : split.computation.effectiveFactors task vector = .ok split.factors) :
    split.parts.length = split.factors.combinations ∧
      (∀ element : Datum, (∀ axis ∈ Axis.splittable, split.computation.shape.has axis = true →
          element axis < split.computation.shape.get axis) →
        ∃! place : Nat, ∃ part, split.parts[place]? = some part ∧
          (split.window part).Holds split.computation.shape element) ∧
      (∀ part ∈ split.parts,
        (∀ axis ∈ Axis.splittable, split.computation.shape.has axis = true →
          0 < (split.window part).size.get axis) ∧
        (0 < split.computation.shape.elements → 0 < (split.window part).size.elements)) ∧
      (∀ axis ∈ Axis.splittable,
        (SplitPart.intervals split.computation.shape split.factors axis).length =
            split.factors.along axis ∧
          (SplitPart.intervals split.computation.shape split.factors axis).Pairwise
            fun earlier later =>
              later.length ≤ earlier.length ∧ earlier.length ≤ later.length + 1) ∧
      ∀ i j k l y x f r,
        (SplitPart.intervals split.computation.shape split.factors .y)[i]? = some y →
          (SplitPart.intervals split.computation.shape split.factors .x)[j]? = some x →
            (SplitPart.intervals split.computation.shape split.factors .f)[k]? = some f →
              (SplitPart.intervals split.computation.shape split.factors .r)[l]? = some r →
                split.parts[((i * split.factors.x + j) * split.factors.f + k) *
                  split.factors.r + l]? = some ⟨y, x, f, r, l⟩ := by
  have hdivides := Computation.divides_of_effectiveFactors hfactors
  refine ⟨SplitPart.length_all hdivides, fun element helement => ?_, fun part hpart => ⟨?_, ?_⟩,
    fun axis _ => ⟨SplitPart.length_intervals hdivides axis, SplitPart.pairwise_intervals _ _ axis⟩,
    fun i j k l y x f r => SplitPart.getElem?_all hdivides⟩
  · exact existsUnique_place SplitPart.nodup_all (SplitPart.existsUnique_holds hdivides helement)
  · intro axis hsplittable hhas
    rw [← Shape.has_iff]
    exact (SplitPart.window_splittable hpart hsplittable).1.trans hhas
  · exact (SplitPart.sameAxes_window hpart).symm.elements_pos

/-- Two rows of seven channels, cut into two and three. -/
def channelsInThree : Split where
  block := ⟨⟨0⟩, .computation ⟨.vectorShift 0, { y := 2, f := 7 }, .int8, .absent⟩, [], []⟩
  computation := ⟨.vectorShift 0, { y := 2, f := 7 }, .int8, .absent⟩
  factors := ⟨2, 1, 3, 1⟩
  operands := []

/-- The fifth of six copies has the fourth and fifth channels of the second row. -/
theorem Split.parts_partition_channels :
    channelsInThree.parts.length = 6 ∧
      (∃! place : Nat, ∃ part, channelsInThree.parts[place]? = some part ∧
        (channelsInThree.window part).Holds { y := 2, f := 7 } fun axis =>
          if axis = .y then 1 else if axis = .f then 4 else 0) ∧
        channelsInThree.parts[4]? = some ⟨⟨1, 2⟩, .upTo 0, ⟨3, 5⟩, .upTo 0, 0⟩ := by
  have hfactors : channelsInThree.computation.effectiveFactors ⟨0⟩ ⟨2, 1, 3, 1⟩ =
      .ok channelsInThree.factors := by decide
  obtain ⟨hlength, hunique, -, -, hplace⟩ := Split.parts_partition hfactors
  exact ⟨hlength, hunique _ (by decide),
    hplace 1 0 1 0 _ _ _ _ (by decide) (by decide) (by decide) (by decide)⟩

end TiledPlacement

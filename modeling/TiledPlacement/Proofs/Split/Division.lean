import Mathlib.Data.List.Nodup
import TiledPlacement.Proofs.Action
import TiledPlacement.Proofs.Window.Region
import TiledPlacement.Split.Part

/-!
Dividing the axes of a computation. The pieces of an axis cover each of its indices once, so that
each combination of indices along the splittable axes belongs to one part.
-/

namespace TiledPlacement

namespace Interval

def Contains (interval : Interval) (index : Nat) : Prop :=
  interval.start ≤ index ∧ index < interval.stop

/-- Where piece `index` starts when `extent` is divided into `parts` pieces; the first
`extent % parts` pieces are longer by one. -/
def cut (extent parts index : Nat) : Nat :=
  index * (extent / parts) + Nat.min index (extent % parts)

theorem cut_zero (extent parts : Nat) : cut extent parts 0 = 0 := by
  simp only [cut, Nat.zero_mul, Nat.zero_add]
  exact Nat.zero_min _

theorem cut_parts {extent parts : Nat} (hpositive : 0 < parts) :
    cut extent parts parts = extent := by
  have hrest := Nat.mod_lt extent hpositive
  have hsmaller : Nat.min parts (extent % parts) = extent % parts :=
    Nat.min_eq_right (Nat.le_of_lt hrest)
  rw [cut, hsmaller]
  exact Nat.div_add_mod extent parts

theorem cut_succ (extent parts index : Nat) :
    cut extent parts (index + 1) =
      cut extent parts index + (extent / parts + if index < extent % parts then 1 else 0) := by
  have hmul : (index + 1) * (extent / parts) = index * (extent / parts) + extent / parts :=
    Nat.succ_mul _ _
  have hmin : min (index + 1) (extent % parts) =
      min index (extent % parts) + if index < extent % parts then 1 else 0 := by
    split <;> omega
  change (index + 1) * (extent / parts) + min (index + 1) (extent % parts) =
    index * (extent / parts) + min index (extent % parts) + _
  omega

/-- The start of a piece accumulates the lengths of those before it. -/
theorem pieces_eq_map_cut (extent parts index count : Nat) :
    pieces (extent / parts) (extent % parts) index (cut extent parts index) count =
      (List.range' index count).map fun piece =>
        ⟨cut extent parts piece, cut extent parts (piece + 1)⟩ := by
  induction count generalizing index with
  | zero => rfl
  | succ count induction =>
      rw [pieces, List.range'_succ, List.map_cons, ← cut_succ, induction]

theorem averageSplit_eq_map_cut {extent parts : Nat} (hparts : 0 < parts)
    (hextent : parts ≤ extent) :
    averageSplit extent parts = (List.range parts).map fun piece =>
      ⟨cut extent parts piece, cut extent parts (piece + 1)⟩ := by
  have hpieces := pieces_eq_map_cut extent parts 0 parts
  rw [cut_zero] at hpieces
  rw [averageSplit, if_neg (by omega), hpieces, List.range_eq_range']

theorem cut_mono {extent parts : Nat} {first last : Nat} (hle : first ≤ last) :
    cut extent parts first ≤ cut extent parts last := by
  have hmul : first * (extent / parts) ≤ last * (extent / parts) := Nat.mul_le_mul_right _ hle
  have hmin : min first (extent % parts) ≤ min last (extent % parts) := by omega
  exact Nat.add_le_add hmul hmin

theorem cut_lt {extent parts : Nat} (hparts : 0 < parts) (hextent : parts ≤ extent)
    {first last : Nat} (hlt : first < last) :
    cut extent parts first < cut extent parts last := by
  refine Nat.lt_of_lt_of_le ?_ (cut_mono (Nat.succ_le_of_lt hlt))
  have hquotient : 0 < extent / parts := Nat.div_pos hextent hparts
  have hmin : min first (extent % parts) ≤ min (first + 1) (extent % parts) := by omega
  have hmul : first * (extent / parts) < (first + 1) * (extent / parts) :=
    Nat.mul_lt_mul_of_pos_right (Nat.lt_succ_self first) hquotient
  exact Nat.add_lt_add_of_lt_of_le hmul hmin

section AverageSplit

variable {extent parts : Nat}

theorem mem_averageSplit_iff (hparts : 0 < parts) (hextent : parts ≤ extent)
    {interval : Interval} :
    interval ∈ averageSplit extent parts ↔
      ∃ index, index < parts ∧
        interval = ⟨cut extent parts index, cut extent parts (index + 1)⟩ := by
  rw [averageSplit_eq_map_cut hparts hextent, List.mem_map]
  constructor
  · intro hmember
    obtain ⟨index, hindex, hinterval⟩ := hmember
    exact ⟨index, List.mem_range.mp hindex, hinterval.symm⟩
  · intro hindex
    obtain ⟨index, hless, hinterval⟩ := hindex
    exact ⟨index, List.mem_range.mpr hless, hinterval.symm⟩

theorem getElem?_averageSplit (hparts : 0 < parts) (hextent : parts ≤ extent) {index : Nat}
    {interval : Interval} (hplace : (averageSplit extent parts)[index]? = some interval) :
    index < parts ∧ interval = ⟨cut extent parts index, cut extent parts (index + 1)⟩ := by
  rw [averageSplit_eq_map_cut hparts hextent, List.getElem?_map] at hplace
  obtain ⟨piece, hpiece, rfl⟩ := Option.map_eq_some_iff.mp hplace
  obtain ⟨hless, rfl⟩ := List.getElem?_eq_some_iff.mp hpiece
  rw [List.length_range] at hless
  rw [List.getElem_range]
  exact ⟨hless, rfl⟩

theorem of_mem_averageSplit {interval : Interval} (hmember : interval ∈ averageSplit extent parts) :
    interval.start < interval.stop ∧ interval.stop ≤ extent := by
  by_cases hsplit : parts = 0 ∨ extent < parts
  · rw [averageSplit, if_pos hsplit] at hmember
    cases hmember
  · obtain ⟨index, hindex, rfl⟩ :=
      (mem_averageSplit_iff (by omega) (by omega)).mp hmember
    refine ⟨cut_lt (by omega) (by omega) (Nat.lt_succ_self index), ?_⟩
    have hlast := @cut_mono extent parts (index + 1) parts (by omega)
    rwa [cut_parts (by omega)] at hlast

theorem nodup_averageSplit : (averageSplit extent parts).Nodup := by
  by_cases hsplit : parts = 0 ∨ extent < parts
  · rw [averageSplit, if_pos hsplit]
    exact List.nodup_nil
  · rw [averageSplit_eq_map_cut (by omega) (by omega)]
    refine List.Nodup.map (fun first last hequal => ?_) List.nodup_range
    have hstart : cut extent parts first = cut extent parts last := congrArg Interval.start hequal
    rcases Nat.lt_trichotomy first last with hless | hsame | hmore
    · exact absurd hstart (Nat.ne_of_lt (cut_lt (by omega) (by omega) hless))
    · exact hsame
    · exact absurd hstart.symm (Nat.ne_of_lt (cut_lt (by omega) (by omega) hmore))

theorem length_averageSplit (hparts : 0 < parts) (hextent : parts ≤ extent) :
    (averageSplit extent parts).length = parts := by
  rw [averageSplit_eq_map_cut hparts hextent, List.length_map, List.length_range]

theorem averageSplit_one (hextent : 0 < extent) : averageSplit extent 1 = [.upTo extent] := by
  have hwhole : cut extent 1 1 = extent := cut_parts Nat.one_pos
  rw [averageSplit_eq_map_cut Nat.one_pos hextent, List.range_one, List.map_singleton, cut_zero,
    Nat.zero_add, hwhole]
  rfl

private theorem exists_between_cuts {index count : Nat} (hindex : index < cut extent parts count) :
    ∃ piece, piece < count ∧ cut extent parts piece ≤ index ∧
      index < cut extent parts (piece + 1) := by
  induction count with
  | zero =>
      rw [cut_zero] at hindex
      exact absurd hindex (Nat.not_lt_zero index)
  | succ count induction =>
      by_cases hbelow : index < cut extent parts count
      · obtain ⟨piece, hpiece, hbetween⟩ := induction hbelow
        exact ⟨piece, Nat.lt_succ_of_lt hpiece, hbetween⟩
      · exact ⟨count, Nat.lt_succ_self count, Nat.not_lt.mp hbelow, hindex⟩

/-- Each index lies in one piece. -/
theorem existsUnique_piece (hparts : 0 < parts) {index : Nat} (hindex : index < extent) :
    ∃! piece, piece < parts ∧
      Contains ⟨cut extent parts piece, cut extent parts (piece + 1)⟩ index := by
  have hlast : index < cut extent parts parts := by rwa [cut_parts hparts]
  obtain ⟨piece, hpiece, hstart, hstop⟩ := exists_between_cuts hlast
  refine ⟨piece, ⟨hpiece, hstart, hstop⟩, fun second hsecond => ?_⟩
  obtain ⟨-, hsecondStart, hsecondStop⟩ := hsecond
  dsimp only at hsecondStart hsecondStop
  -- Of two pieces, the later starts where the earlier has stopped.
  rcases Nat.lt_trichotomy second piece with hless | hsame | hmore
  · have hmono := @cut_mono extent parts (second + 1) piece hless
    omega
  · exact hsame
  · have hmono := @cut_mono extent parts (piece + 1) second hmore
    omega

theorem existsUnique_mem_averageSplit (hparts : 0 < parts) (hextent : parts ≤ extent)
    {index : Nat} (hindex : index < extent) :
    ∃! interval, interval ∈ averageSplit extent parts ∧ interval.Contains index := by
  obtain ⟨piece, ⟨hpiece, hinside⟩, honly⟩ := existsUnique_piece hparts hindex
  refine ⟨_, ⟨(mem_averageSplit_iff hparts hextent).mpr ⟨piece, hpiece, rfl⟩, hinside⟩, ?_⟩
  intro other hother
  obtain ⟨hmember, hcontains⟩ := hother
  obtain ⟨second, hsecond, rfl⟩ := (mem_averageSplit_iff hparts hextent).mp hmember
  rw [honly second ⟨hsecond, hcontains⟩]

theorem existsUnique_of_cuts {piece : Nat → Interval} (hparts : 0 < parts)
    (hpiece : ∀ index < parts, piece index =
      ⟨cut extent parts index, cut extent parts (index + 1)⟩) {index : Nat}
    (hindex : index < extent) : ∃! number, number < parts ∧ (piece number).Contains index := by
  obtain ⟨number, ⟨hless, hinside⟩, honly⟩ := existsUnique_piece hparts hindex
  refine ⟨number, ⟨hless, ?_⟩, fun other hother => ?_⟩
  · rwa [hpiece number hless]
  · obtain ⟨hotherLess, hcontains⟩ := hother
    rw [hpiece other hotherLess] at hcontains
    exact honly other ⟨hotherLess, hcontains⟩

end AverageSplit

end Interval

namespace SplitVector

def Divides (factors : SplitVector) (shape : Shape) : Prop :=
  ∀ axis, factors.along axis = 1 ∨ 0 < factors.along axis ∧ factors.along axis ≤ shape.get axis

theorem Divides.pos {factors : SplitVector} {shape : Shape} (hdivides : factors.Divides shape)
    (axis : Axis) : 0 < factors.along axis := by
  rcases hdivides axis with hone | hboth
  · rw [hone]
    exact Nat.one_pos
  · exact hboth.1

theorem Divides.le {factors : SplitVector} {shape : Shape} (hdivides : factors.Divides shape)
    {axis : Axis} (hhas : shape.has axis = true) : factors.along axis ≤ shape.get axis := by
  rcases hdivides axis with hone | hboth
  · rw [hone]
    exact Shape.has_iff.mp hhas
  · exact hboth.2

end SplitVector

namespace Computation

variable {computation : Computation} {axis : Axis} {parts allowed : Nat}

theorem of_allowedParts (hallowed : computation.allowedParts axis parts = .ok allowed) :
    allowed = 1 ∨ allowed = parts ∧ computation.refusesCut axis = false ∧ 0 < allowed ∧
      allowed ≤ computation.shape.get axis := by
  unfold allowedParts at hallowed
  dsimp only at hallowed
  split at hallowed
  case isTrue => cases hallowed
  case isFalse hpositive =>
    split at hallowed
    case isTrue => exact Or.inl (Except.ok.inj hallowed).symm
    case isFalse =>
      split at hallowed
      case isTrue => exact Or.inl (Except.ok.inj hallowed).symm
      case isFalse hrefuses =>
        split at hallowed
        case isTrue => cases hallowed
        case isFalse =>
          split at hallowed
          case isTrue => cases hallowed
          case isFalse hfits =>
            obtain rfl := Except.ok.inj hallowed
            exact Or.inr ⟨rfl, Bool.not_eq_true _ ▸ hrefuses, Nat.pos_of_ne_zero hpositive,
              Nat.not_lt.mp hfits⟩

theorem of_effectiveFactors {task : TaskId} {vector factors : SplitVector}
    (hfactors : computation.effectiveFactors task vector = .ok factors) :
    ∀ axis ∈ Axis.splittable,
      computation.allowedParts axis (vector.along axis) = .ok (factors.along axis) := by
  unfold effectiveFactors at hfactors
  dsimp only at hfactors
  obtain ⟨y, hy, hfactors⟩ := bind_eq_ok_iff.mp hfactors
  obtain ⟨x, hx, hfactors⟩ := bind_eq_ok_iff.mp hfactors
  obtain ⟨f, hf, hfactors⟩ := bind_eq_ok_iff.mp hfactors
  obtain ⟨r, hr, hfactors⟩ := bind_eq_ok_iff.mp hfactors
  obtain rfl := Except.ok.inj hfactors
  rw [mapError_eq_ok_iff] at hy hx hf hr
  exact Axis.forall_splittable.mpr ⟨hy, hx, hf, hr⟩

theorem allowedParts_eq_ok (hcut : computation.refusesCut axis = false)
    (hparts : parts = 1 ∨ 0 < parts ∧ parts ≤ computation.shape.get axis) :
    computation.allowedParts axis parts = .ok parts := by
  unfold allowedParts
  dsimp only
  rw [hcut]
  rcases hparts with rfl | hparts
  · rfl
  · rw [if_neg (Nat.ne_of_gt hparts.1)]
    split
    case isTrue hone => rw [hone]
    case isFalse =>
      rw [if_neg Bool.false_ne_true, if_neg (Nat.ne_of_gt (Nat.lt_of_lt_of_le hparts.1 hparts.2)),
        if_neg (Nat.not_lt.mpr hparts.2)]

/-- A request that divides a computation without a cut that is never made is met. -/
theorem effectiveFactors_eq_ok {vector : SplitVector} (hdivides : vector.Divides computation.shape)
    (hcut : ∀ axis, computation.refusesCut axis = false) (task : TaskId) :
    computation.effectiveFactors task vector = .ok vector := by
  have hparts : ∀ axis,
      (computation.allowedParts axis (vector.along axis)).mapError (GraphError.shape task) =
        .ok (vector.along axis) := fun axis =>
    mapError_eq_ok_iff.mpr (allowedParts_eq_ok (hcut axis) (hdivides axis))
  unfold effectiveFactors
  dsimp only
  rw [hparts .y, hparts .x, hparts .f, hparts .r]
  rfl

theorem divides_of_effectiveFactors {task : TaskId} {vector factors : SplitVector}
    (hfactors : computation.effectiveFactors task vector = .ok factors) :
    factors.Divides computation.shape := by
  intro axis
  by_cases hsplittable : axis ∈ Axis.splittable
  · rcases of_allowedParts (of_effectiveFactors hfactors axis hsplittable) with hone | hcut
    · exact Or.inl hone
    · exact Or.inr hcut.2.2
  · refine Or.inl ?_
    cases axis <;> first | rfl | exact absurd (by decide) hsplittable

end Computation

namespace SplitPart

/-- Whether the index along an axis of the shape lies in the interval; along an axis that does not
apply there is nothing to lie in. -/
def Within (shape : Shape) (axis : Axis) (interval : Interval) (index : Nat) : Prop :=
  shape.has axis = true → interval.Contains index

variable {shape : Shape} {factors : SplitVector}

theorem mem_all_iff {part : SplitPart} :
    part ∈ all shape factors ↔
      part.y ∈ intervals shape factors .y ∧ part.x ∈ intervals shape factors .x ∧
        part.f ∈ intervals shape factors .f ∧
          (part.r, part.addend) ∈ (intervals shape factors .r).zipIdx := by
  simp only [all, List.mem_flatMap, List.mem_map]
  constructor
  · intro hmember
    obtain ⟨y, hy, x, hx, f, hf, ⟨r, addend⟩, hr, rfl⟩ := hmember
    exact ⟨hy, hx, hf, hr⟩
  · intro hmember
    obtain ⟨hy, hx, hf, hr⟩ := hmember
    exact ⟨part.y, hy, part.x, hx, part.f, hf, (part.r, part.addend), hr, rfl⟩

theorem nodup_intervals (axis : Axis) : (intervals shape factors axis).Nodup := by
  unfold intervals
  split
  case isTrue => exact Interval.nodup_averageSplit
  case isFalse => exact List.nodup_singleton _

private theorem nodup_flatMap {α β : Type} {list : List α} {next : α → List β}
    (hlist : list.Nodup) (hnext : ∀ element, (next element).Nodup)
    (hapart : ∀ left right element, element ∈ next left → element ∈ next right → left = right) :
    (list.flatMap next).Nodup := by
  refine List.nodup_flatMap.mpr ⟨fun element _ => hnext element, ?_⟩
  exact hlist.imp fun hdiffer element hleft hright => hdiffer (hapart _ _ element hleft hright)

theorem nodup_all : (all shape factors).Nodup := by
  have hzip : (intervals shape factors .r).zipIdx.Nodup := by
    refine List.Nodup.of_map Prod.snd ?_
    rw [List.zipIdx_map_snd]
    exact List.nodup_range' _
  unfold all
  refine nodup_flatMap (nodup_intervals .y) (fun y => ?_) ?_
  · refine nodup_flatMap (nodup_intervals .x) (fun x => ?_) ?_
    · refine nodup_flatMap (nodup_intervals .f) (fun f => ?_) ?_
      · refine hzip.map fun left right hequal => ?_
        exact Prod.ext (congrArg SplitPart.r hequal) (congrArg SplitPart.addend hequal)
      · intro left right part hleft hright
        obtain ⟨_, -, rfl⟩ := List.mem_map.mp hleft
        obtain ⟨_, -, hequal⟩ := List.mem_map.mp hright
        exact (congrArg SplitPart.f hequal).symm
    · intro left right part hleft hright
      simp only [List.mem_flatMap, List.mem_map] at hleft hright
      obtain ⟨_, -, _, -, rfl⟩ := hleft
      obtain ⟨_, -, _, -, hequal⟩ := hright
      exact (congrArg SplitPart.x hequal).symm
  · intro left right part hleft hright
    simp only [List.mem_flatMap, List.mem_map] at hleft hright
    obtain ⟨_, -, _, -, _, -, rfl⟩ := hleft
    obtain ⟨_, -, _, -, _, -, hequal⟩ := hright
    exact (congrArg SplitPart.y hequal).symm

theorem existsUnique_interval (hdivides : factors.Divides shape) {axis : Axis} {index : Nat}
    (hindex : shape.has axis = true → index < shape.get axis) :
    ∃! interval, interval ∈ intervals shape factors axis ∧ Within shape axis interval index := by
  unfold intervals Within
  by_cases hhas : shape.has axis = true
  · simp only [hhas, if_true, true_implies]
    exact Interval.existsUnique_mem_averageSplit (hdivides.pos axis) (hdivides.le hhas)
      (hindex hhas)
  · rw [if_neg hhas]
    refine ⟨.upTo 0, ⟨List.mem_singleton_self _, fun htrue => absurd htrue hhas⟩, ?_⟩
    exact fun other hother => List.mem_singleton.mp hother.1

theorem length_intervals (hdivides : factors.Divides shape) (axis : Axis) :
    (intervals shape factors axis).length = factors.along axis := by
  unfold intervals
  split
  case isTrue hhas =>
    exact Interval.length_averageSplit (hdivides.pos axis) (hdivides.le hhas)
  case isFalse hhas =>
    rw [Bool.not_eq_true, Shape.get_eq_zero_iff] at hhas
    rcases hdivides axis with hone | ⟨hpositive, hle⟩
    · exact hone.symm
    · omega

theorem length_intervals_pos (hdivides : factors.Divides shape) (axis : Axis) :
    0 < (intervals shape factors axis).length := by
  rw [length_intervals hdivides]
  exact hdivides.pos axis

theorem all_ne_nil (hdivides : factors.Divides shape) : all shape factors ≠ [] := by
  obtain ⟨y, hy⟩ := List.exists_mem_of_length_pos (length_intervals_pos hdivides .y)
  obtain ⟨x, hx⟩ := List.exists_mem_of_length_pos (length_intervals_pos hdivides .x)
  obtain ⟨f, hf⟩ := List.exists_mem_of_length_pos (length_intervals_pos hdivides .f)
  have haddends : 0 < (intervals shape factors .r).zipIdx.length := by
    rw [List.length_zipIdx]
    exact length_intervals_pos hdivides .r
  obtain ⟨r, hr⟩ := List.exists_mem_of_length_pos haddends
  exact List.ne_nil_of_mem (List.mem_flatMap.mpr ⟨y, hy, List.mem_flatMap.mpr ⟨x, hx,
    List.mem_flatMap.mpr ⟨f, hf, List.mem_map_of_mem hr⟩⟩⟩)

theorem intervals_of_one {axis : Axis} (hone : factors.along axis = 1) :
    intervals shape factors axis = [.upTo (shape.get axis)] := by
  unfold intervals
  split
  case isTrue hhas => rw [hone, Interval.averageSplit_one (Shape.has_iff.mp hhas)]
  case isFalse hhas =>
    rw [Bool.not_eq_true, Shape.get_eq_zero_iff] at hhas
    rw [hhas]

/-- Each combination of output indices belongs to one part for each interval of the `r` axis. -/
theorem existsUnique_part (hdivides : factors.Divides shape) {element : Datum}
    (helement : ∀ axis, axis ∈ [Axis.y, .x, .f] →
      shape.has axis = true → element axis < shape.get axis)
    {addend : Nat} (haddend : addend < (intervals shape factors .r).length) :
    ∃! part, part ∈ all shape factors ∧ part.addend = addend ∧
      Within shape .y part.y (element .y) ∧ Within shape .x part.x (element .x) ∧
        Within shape .f part.f (element .f) := by
  obtain ⟨y, ⟨hy, hyWithin⟩, hyOnly⟩ :=
    existsUnique_interval hdivides (helement .y (by decide))
  obtain ⟨x, ⟨hx, hxWithin⟩, hxOnly⟩ :=
    existsUnique_interval hdivides (helement .x (by decide))
  obtain ⟨f, ⟨hf, hfWithin⟩, hfOnly⟩ :=
    existsUnique_interval hdivides (helement .f (by decide))
  have hr : (intervals shape factors .r)[addend]? =
      some (intervals shape factors .r)[addend] := List.getElem?_eq_getElem haddend
  refine ⟨⟨y, x, f, (intervals shape factors .r)[addend], addend⟩, ?_, ?_⟩
  · exact ⟨mem_all_iff.mpr ⟨hy, hx, hf, List.mem_zipIdx_iff_getElem?.mpr hr⟩, rfl, hyWithin,
      hxWithin, hfWithin⟩
  · intro other hother
    obtain ⟨hmember, rfl, hotherY, hotherX, hotherF⟩ := hother
    obtain ⟨hmemberY, hmemberX, hmemberF, hmemberR⟩ := mem_all_iff.mp hmember
    have hsameR : (intervals shape factors .r)[other.addend]? = some other.r :=
      List.mem_zipIdx_iff_getElem?.mp hmemberR
    obtain ⟨otherY, otherX, otherF, otherR, otherAddend⟩ := other
    obtain rfl := hyOnly otherY ⟨hmemberY, hotherY⟩
    obtain rfl := hxOnly otherX ⟨hmemberX, hotherX⟩
    obtain rfl := hfOnly otherF ⟨hmemberF, hotherF⟩
    have hsame := Option.some.inj (hsameR.symm.trans hr)
    dsimp only at hsame ⊢
    rw [← hsame]

end SplitPart

end TiledPlacement

import Mathlib.Algebra.BigOperators.Group.List.Basic
import Mathlib.Data.Fintype.BigOperators
import Mathlib.Order.Interval.Finset.Nat
import TiledPlacement.Graph.Integrity
import TiledPlacement.Proofs.Window.Region

/-!
Exact tilings. Windows that stay inside a tensor, are apart and have the tensor's volume together
cover every element of it exactly once, and the other way round, as long as the number of its
elements and the ends of the windows are words.
-/

namespace TiledPlacement

namespace Axis

instance : Fintype Axis := ⟨⟨↑all, by decide⟩, fun axis => by cases axis <;> decide⟩

theorem prod_univ (count : Axis → Nat) : ∏ axis, count axis = (all.map count).prod := rfl

end Axis

namespace Shape

private theorem product_filter (extents : List Nat) :
    product (extents.filter fun extent => decide (0 < extent)) =
      (extents.map fun extent => if 0 < extent then extent else 1).prod := by
  induction extents with
  | nil => rfl
  | cons extent rest induction =>
      rw [List.filter_cons, List.map_cons, List.prod_cons, ← induction]
      by_cases hpositive : 0 < extent
      · rw [if_pos (decide_eq_true hpositive), if_pos hpositive, product]
      · rw [if_neg (by simpa using hpositive), if_neg hpositive, Nat.one_mul]

theorem elements_eq_prod {shape : Shape} (helements : 0 < shape.elements) :
    shape.elements =
      (Axis.logical.map fun axis => if 0 < shape.get axis then shape.get axis else 1).prod := by
  have hproduct := product_filter (Axis.logical.map shape.get)
  rw [List.map_map] at hproduct
  refine Eq.trans ?_ hproduct
  unfold elements at helements ⊢
  split
  case h_1 hnone =>
    rw [hnone] at helements
    exact absurd helements (Nat.lt_irrefl 0)
  case h_2 => rfl

end Shape

namespace Window

def cells (window : Window) : Finset Datum :=
  Fintype.piFinset fun axis =>
    if window.spans axis then Finset.Ico (window.position.get axis) (window.stop axis) else {0}

theorem mem_cells {window : Window} {element : Datum} :
    element ∈ window.cells ↔ window.Covers element := by
  rw [cells, Fintype.mem_piFinset]
  refine forall_congr' fun axis => ?_
  split
  case isTrue => exact Finset.mem_Ico
  case isFalse => exact Finset.mem_singleton

theorem card_cells {window : Window} (helements : 0 < window.size.elements) :
    window.cells.card = window.size.elements := by
  have hcount : ∀ axis, (if window.spans axis then
        Finset.Ico (window.position.get axis) (window.stop axis) else {0}).card =
      if window.spans axis then window.size.get axis else 1 := by
    intro axis
    split
    case isTrue => rw [Nat.card_Ico, stop, Nat.add_sub_cancel_left]
    case isFalse => exact Finset.card_singleton 0
  have haxis : ∀ axis : Axis, axis.isLogical = true →
      (if window.spans axis then window.size.get axis else 1) =
        if 0 < window.size.get axis then window.size.get axis else 1 := by
    intro axis hlogical
    by_cases hpositive : 0 < window.size.get axis
    · rw [if_pos hpositive, if_pos (spans_iff.mpr ⟨hlogical, Shape.has_iff.mpr hpositive⟩)]
    · rw [if_neg hpositive, if_neg fun hspan =>
        hpositive (Shape.has_iff.mp (spans_iff.mp hspan).2)]
  rw [cells, Fintype.card_piFinset, Axis.prod_univ, Shape.elements_eq_prod helements]
  simp only [hcount]
  -- The two input extents count for nothing.
  change (List.map _ (Axis.logical ++ [.iy, .ix])).prod = _
  rw [List.map_append, List.prod_append]
  have hrest : ([Axis.iy, Axis.ix].map fun axis =>
      if window.spans axis then window.size.get axis else 1).prod = 1 := rfl
  rw [hrest, Nat.mul_one]
  refine congrArg List.prod (List.map_congr_left fun axis hmember => ?_)
  exact haxis axis ((Axis.mem_logical_iff axis).mp hmember)

end Window

namespace TaskGraph

/-- The windows lie in the tensor and cover each of its elements exactly once. -/
structure Tiles (windows : List Window) (shape : Shape) : Prop where
  within : ∀ window ∈ windows, window.within shape = true
  apart : windows.Pairwise fun left right =>
    ∀ element, ¬(left.Covers element ∧ right.Covers element)
  covered : ∀ element, (Window.full shape).Covers element →
    ∃ window ∈ windows, window.Covers element

section Check

variable {shape : Shape} {windows : List Window}

private theorem any_overlap_iff {left right : Window} (hshape : 0 < shape.elements)
    (hfits : shape.elements < wordCount) (hleft : left.Bounded) (hright : right.Bounded)
    (hleftWithin : left.within shape = true) (hrightWithin : right.within shape = true) :
    (left.intersect? right).any (fun common => decide (0 < common.volume)) = true ↔
      ∃ element, left.Covers element ∧ right.Covers element := by
  have hsameRight := Window.within_sameAxes hrightWithin
  have hsame := (Window.within_sameAxes hleftWithin).trans hsameRight.symm
  have hfewer := Nat.lt_of_le_of_lt (hright.elements_le hrightWithin) hfits
  rw [← Split.exists_overlap?_iff hleft hright (.of_sameAxes hsame)
    (hsameRight.symm.elements_pos hshape) hfewer, Option.any_eq_true]
  unfold Split.overlap?
  simp only [Option.filter_eq_some_iff]

variable (hshape : 0 < shape.elements) (hfits : shape.elements < wordCount)
include hshape hfits

theorem tilingFault?_eq_none_iff (hwindows : ∀ window ∈ windows, window.Bounded) :
    tilingFault? shape windows = none ↔
      (∀ window ∈ windows, window.within shape = true) ∧
        windows.Pairwise fun left right =>
          ∀ element, ¬(left.Covers element ∧ right.Covers element) := by
  induction windows with
  | nil => exact ⟨fun _ => ⟨fun _ hmember => (nomatch hmember), .nil⟩, fun _ => rfl⟩
  | cons window rest induction =>
      have hwindow := hwindows window List.mem_cons_self
      have hrestWindows := fun other hother => hwindows other (List.mem_cons_of_mem _ hother)
      rw [tilingFault?]
      by_cases hwithin : window.within shape = true
      · rw [hwithin, Bool.not_true, if_neg Bool.false_ne_true]
        cases hfound : rest.find? fun other =>
            (window.intersect? other).any fun common => decide (0 < common.volume) with
        | some other =>
            refine ⟨fun hnone => (nomatch hnone), fun hboth => ?_⟩
            have hmember := List.mem_of_find?_eq_some hfound
            have hoverlap := List.find?_some hfound
            have hother := hboth.1 other (List.mem_cons_of_mem _ hmember)
            obtain ⟨element, helement⟩ := (any_overlap_iff hshape hfits hwindow
              (hrestWindows other hmember) hwithin hother).mp hoverlap
            exact absurd helement ((List.pairwise_cons.mp hboth.2).1 other hmember element)
        | none =>
            rw [List.find?_eq_none] at hfound
            dsimp only
            rw [induction hrestWindows, List.pairwise_cons]
            constructor
            · intro hrest
              refine ⟨fun other hother => ?_, fun other hother element hboth => ?_, hrest.2⟩
              · rcases List.mem_cons.mp hother with hsame | hmember
                · rw [hsame]
                  exact hwithin
                · exact hrest.1 other hmember
              · exact hfound other hother ((any_overlap_iff hshape hfits hwindow
                  (hrestWindows other hother) hwithin (hrest.1 other hother)).mpr
                  ⟨element, hboth⟩)
            · intro hall
              exact ⟨fun other hother => hall.1 other (List.mem_cons_of_mem _ hother), hall.2.2⟩
      · rw [Bool.not_eq_true] at hwithin
        rw [hwithin, Bool.not_false, if_pos rfl]
        refine ⟨fun hnone => (nomatch hnone), fun hboth => ?_⟩
        have hfirst := hboth.1 window List.mem_cons_self
        rw [hwithin] at hfirst
        cases hfirst

private theorem coveredVolume_eq (hwindows : ∀ window ∈ windows, window.Bounded)
    (hwithin : ∀ window ∈ windows, window.within shape = true)
    (hapart : windows.Pairwise fun left right =>
      ∀ element, ¬(left.Covers element ∧ right.Covers element)) :
    ∃ union : Finset Datum, union.card = coveredVolume windows ∧
      union ⊆ (Window.full shape).cells ∧
      ∀ element, element ∈ union ↔ ∃ window ∈ windows, window.Covers element := by
  induction windows with
  | nil => exact ⟨∅, rfl, Finset.empty_subset _, fun element => by simp⟩
  | cons window rest induction =>
      obtain ⟨hfirst, hrest⟩ := List.pairwise_cons.mp hapart
      obtain ⟨union, hcard, hsubset, hunion⟩ := induction
        (fun other hother => hwindows other (List.mem_cons_of_mem _ hother))
        (fun other hother => hwithin other (List.mem_cons_of_mem _ hother)) hrest
      have hwindow := hwindows window List.mem_cons_self
      have hinside := hwithin window List.mem_cons_self
      have helements : 0 < window.size.elements :=
        (Window.within_sameAxes hinside).symm.elements_pos hshape
      have hdisjoint : Disjoint window.cells union := by
        rw [Finset.disjoint_left]
        intro element hcell hother
        obtain ⟨other, hmember, hcovers⟩ := (hunion element).mp hother
        exact hfirst other hmember element ⟨Window.mem_cells.mp hcell, hcovers⟩
      have hboth : window.cells ∪ union ⊆ (Window.full shape).cells := by
        refine Finset.union_subset (fun element hcell => ?_) hsubset
        exact Window.mem_cells.mpr ((Window.mem_cells.mp hcell).of_within hwindow hinside)
      -- All windows lie in the tensor, so that no sum of their volumes exceeds its own.
      have hsum : window.size.elements + coveredVolume rest = (window.cells ∪ union).card := by
        rw [Finset.card_union_of_disjoint hdisjoint, Window.card_cells helements, hcard]
      have hbelow : (window.cells ∪ union).card < wordCount := by
        have hle := Finset.card_le_card hboth
        rw [Window.card_cells hshape] at hle
        exact Nat.lt_of_le_of_lt hle hfits
      have hvolume : window.volume = window.size.elements :=
        Shape.volume_eq_elements (Nat.lt_of_le_of_lt (hwindow.elements_le hinside) hfits)
      refine ⟨window.cells ∪ union, ?_, hboth, fun element => ?_⟩
      · rw [coveredVolume, hvolume, hsum, word_of_lt hbelow]
      · rw [Finset.mem_union, Window.mem_cells, hunion, List.exists_mem_cons_iff]

end Check

/-- A port passes the check exactly when its windows tile it. -/
theorem portFault?_eq_none_iff {graph : TaskGraph} {port : Port}
    (hshape : 0 < port.shape.elements) (hfits : port.shape.elements < wordCount)
    (hwindows : ∀ window ∈ graph.windowsAt port, window.Bounded) :
    graph.portFault? port = none ↔ Tiles (graph.windowsAt port) port.shape := by
  have hfull : (Window.full port.shape).cells.card = port.shape.volume :=
    (Window.card_cells hshape).trans (Shape.volume_eq_elements hfits).symm
  unfold portFault?
  dsimp only
  cases hfault : tilingFault? port.shape (graph.windowsAt port) with
  | some fault =>
      refine ⟨fun hnone => (nomatch hnone), fun htiles => ?_⟩
      have hnone := (tilingFault?_eq_none_iff hshape hfits hwindows).mpr
        ⟨htiles.within, htiles.apart⟩
      rw [hfault] at hnone
      cases hnone
  | none =>
      obtain ⟨hwithin, hapart⟩ := (tilingFault?_eq_none_iff hshape hfits hwindows).mp hfault
      obtain ⟨union, hcard, hsubset, hunion⟩ :=
        coveredVolume_eq hshape hfits hwindows hwithin hapart
      constructor
      · intro hvolume
        dsimp only at hvolume
        split at hvolume
        case isFalse => cases hvolume
        case isTrue hequal =>
          refine ⟨hwithin, hapart, fun element hcovers => (hunion element).mp ?_⟩
          have hall : union = (Window.full port.shape).cells :=
            Finset.eq_of_subset_of_card_le hsubset (by rw [hfull, hcard, hequal])
          rw [hall]
          exact Window.mem_cells.mpr hcovers
      · intro htiles
        have hall : union = (Window.full port.shape).cells := by
          refine Finset.Subset.antisymm hsubset fun element hcell => ?_
          exact (hunion element).mpr (htiles.covered element (Window.mem_cells.mp hcell))
        dsimp only
        rw [if_pos]
        rw [← hcard, hall, hfull]

end TaskGraph

end TiledPlacement

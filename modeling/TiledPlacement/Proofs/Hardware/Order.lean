import Mathlib.Data.List.Forall2
import TiledPlacement.Proofs.Hardware.Column

/-!
The order of columns. Columns are numbered in the order of their coordinates, and a column has one
number only.
-/

namespace TiledPlacement

/-- Of two numbers the lesser has the lesser leading digit, or the same and the lesser rest. -/
theorem div_lt_or_mod_lt {left right : Nat} (radix : Nat) (hless : left < right) :
    left / radix < right / radix ∨
      left / radix = right / radix ∧ left % radix < right % radix := by
  rcases Nat.lt_or_eq_of_le (Nat.div_le_div_right (c := radix) (Nat.le_of_lt hless)) with
    hleading | hsame
  · exact Or.inl hleading
  · refine Or.inr ⟨hsame, ?_⟩
    have hleft := Nat.div_add_mod left radix
    have hright := Nat.div_add_mod right radix
    rw [← hsame] at hright
    omega

/-! Lists in the order of dictionaries. -/

section Lexicographic

variable {α : Type} {cmp : α → α → Ordering}

theorem compareLex_append_of_lt {left right : List α} (hlength : left.length = right.length)
    (hless : List.compareLex cmp left right = .lt) (rest others : List α) :
    List.compareLex cmp (left ++ rest) (right ++ others) = .lt := by
  induction left generalizing right with
  | nil =>
      cases right with
      | nil => cases hless
      | cons => cases hlength
  | cons first left induction =>
      cases right with
      | nil => cases hlength
      | cons second right =>
          simp only [List.cons_append, List.compareLex_cons_cons, Ordering.then_eq_lt] at hless ⊢
          exact hless.imp_right (And.imp_right (induction (Nat.succ.inj hlength)))

theorem compareLex_append_left [Std.ReflCmp cmp] (front rest others : List α) :
    List.compareLex cmp (front ++ rest) (front ++ others) = List.compareLex cmp rest others := by
  induction front with
  | nil => rfl
  | cons first front induction =>
      rw [List.cons_append, List.cons_append, List.compareLex_cons_cons,
        @Std.ReflCmp.compare_self _ cmp,
        Ordering.eq_then, induction]

end Lexicographic

namespace MixedRadix

theorem compare_decode {radices : List Nat} {left right : Nat} (hless : left < right)
    (hbound : right < volume radices) :
    List.compareLex compare (decode radices left) (decode radices right) = .lt := by
  induction radices generalizing left right with
  | nil =>
      have hzero : right = 0 := Nat.lt_one_iff.mp hbound
      exact absurd (hzero ▸ hless) (Nat.not_lt_zero left)
  | cons radix rest induction =>
      have hpositive : 0 < volume rest := Nat.pos_of_mul_pos_left (Nat.zero_lt_of_lt hbound)
      rw [decode_cons_of_lt (Nat.lt_trans hless hbound), decode_cons_of_lt hbound,
        List.compareLex_cons_cons, Ordering.then_eq_lt, Nat.compare_eq_lt, Nat.compare_eq_eq]
      exact (div_lt_or_mod_lt (volume rest) hless).imp_right fun hmod =>
        ⟨hmod.1, induction hmod.2 (Nat.mod_lt right hpositive)⟩

end MixedRadix

instance : Std.ReflCmp Position.compare where
  compare_self := fun {position} =>
    @Std.ReflCmp.compare_self (List Nat) (List.compareLex compare) _ position.components

instance : Std.ReflCmp Coordinate.compare where
  compare_self := fun {coordinate} =>
    @Std.ReflCmp.compare_self (List Position) (List.compareLex Position.compare) _
      coordinate.levels

namespace Hardware

theorem compare_positionsAt {levels : List Level} {left right : Nat} (hless : left < right)
    (hbound : right < count levels) :
    List.compareLex Position.compare (positionsAt levels left) (positionsAt levels right) =
      .lt := by
  induction levels generalizing left right with
  | nil =>
      have hzero : right = 0 := Nat.lt_one_iff.mp hbound
      exact absurd (hzero ▸ hless) (Nat.not_lt_zero left)
  | cons level rest induction =>
      have hpositive : 0 < count rest := Nat.pos_of_mul_pos_left (Nat.zero_lt_of_lt hbound)
      rw [positionsAt_cons, positionsAt_cons, List.compareLex_cons_cons, Ordering.then_eq_lt]
      rcases div_lt_or_mod_lt (count rest) hless with houter | ⟨hsame, hinner⟩
      · left
        exact MixedRadix.compare_decode houter ((Nat.div_lt_iff_lt_mul hpositive).mpr hbound)
      · right
        rw [hsame]
        exact ⟨Std.ReflCmp.compare_self, induction hinner (Nat.mod_lt right hpositive)⟩

/-- Whether a coordinate has one position on each level of space and no more. -/
def IsColumn (hardware : Hardware) (column : Coordinate) : Prop :=
  List.Forall₂ (fun level position => level.contains position = true) hardware.levels column.levels

instance (hardware : Hardware) (column : Coordinate) : Decidable (hardware.IsColumn column) :=
  inferInstanceAs (Decidable (List.Forall₂ _ _ _))

theorem indexIn?_isSome_iff {levels : List Level} {positions : List Position} :
    (indexIn? levels positions).isSome = true ↔
      List.Forall₂ (fun level position => level.contains position = true) levels
        (positions.take levels.length) := by
  induction levels generalizing positions with
  | nil => simp [indexIn?]
  | cons level rest induction =>
      cases positions with
      | nil => simp [indexIn?]
      | cons position positions =>
          rw [indexIn?]
          split
          case isTrue hcontains => simp [hcontains, induction]
          case isFalse hcontains => simp [hcontains]

theorem positionsAt_of_indexIn? {levels : List Level} {positions : List Position} {number : Nat}
    (hnumber : indexIn? levels positions = some number) :
    positionsAt levels number = positions.take levels.length := by
  induction levels generalizing positions number with
  | nil => rfl
  | cons level rest induction =>
      cases positions with
      | nil => cases hnumber
      | cons position positions =>
          rw [indexIn?] at hnumber
          split at hnumber
          case isFalse => cases hnumber
          case isTrue hcontains =>
            obtain ⟨inner, hinner, rfl⟩ := Option.map_eq_some_iff.mp hnumber
            have hbound := indexIn?_lt_count hinner
            have hpositive : 0 < count rest := Nat.zero_lt_of_lt hbound
            simp only [positionsAt_cons, List.length_cons, List.take_succ_cons]
            rw [Nat.mul_comm, Nat.mul_add_div hpositive, Nat.div_eq_of_lt hbound, Nat.add_zero,
              Nat.mul_add_mod, Nat.mod_eq_of_lt hbound, induction hinner,
              MixedRadix.decode_encode hcontains]

theorem ColumnsBounded.positionsAt_of_columnIndex? {hardware : Hardware}
    (hbounded : hardware.ColumnsBounded) {place : Coordinate} {number : Nat}
    (hnumber : hardware.columnIndex? place = some number) :
    positionsAt hardware.levels number = place.levels.take hardware.spaceDepth := by
  rw [hbounded.columnIndex?_eq] at hnumber
  exact positionsAt_of_indexIn? hnumber

end Hardware

end TiledPlacement

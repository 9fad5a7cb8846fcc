import Mathlib.Data.List.Basic
import TiledPlacement.Hardware.Basic

/-!
The numbering of columns. The positions of a number below the number of columns lead back to it,
whatever levels follow them. The number of a column is below the number of columns if these fit into
a word.
-/

namespace TiledPlacement

namespace Hardware

/-- Place, among all that the levels make, of the column that the first positions name, if each
lies on its level. It is counted without a bound. -/
def indexIn? : List Level → List Position → Option Nat
  | [], _ => some 0
  | _ :: _, [] => none
  | level :: rest, position :: positions =>
      if level.contains position then
        (indexIn? rest positions).map fun inner =>
          MixedRadix.encode level.dims position.components * count rest + inner
      else
        none

/-! To append digits in words is to append them all and to take the word at the end. -/

theorem appendDigits_eq (number : Nat) (radices digits : List Nat) :
    appendDigits (word number) radices digits = word (MixedRadix.append number radices digits) := by
  induction radices generalizing number digits with
  | nil => rfl
  | cons radix rest induction =>
      cases digits with
      | nil => rfl
      | cons digit digits =>
          rw [appendDigits, MixedRadix.append, ← word_word_add, word_word_mul, word_word_add,
            induction]

theorem indexFrom?_eq (number : Nat) (levels : List Level) (positions : List Position) :
    indexFrom? (word number) levels positions =
      (indexIn? levels positions).map fun inner => word (number * count levels + inner) := by
  induction levels generalizing number positions with
  | nil => rw [indexFrom?, indexIn?, Option.map_some, count, Nat.mul_one, Nat.add_zero]
  | cons level rest induction =>
      cases positions with
      | nil => rfl
      | cons position positions =>
          rw [indexFrom?, indexIn?]
          split
          case isFalse => rfl
          case isTrue hcontains =>
            rw [appendDigits_eq, induction,
              MixedRadix.append_eq (MixedRadix.length_of_fits hcontains), Option.map_map]
            refine Option.map_congr fun inner _ => ?_
            rw [Function.comp_apply, count, Nat.add_mul, Nat.mul_assoc, Nat.add_assoc]

theorem columnIndex?_eq_word (hardware : Hardware) (place : Coordinate) :
    hardware.columnIndex? place = (indexIn? hardware.levels place.levels).map word := by
  have hall := indexFrom?_eq 0 hardware.levels place.levels
  simp only [word_zero, Nat.zero_mul, Nat.zero_add] at hall
  exact hall

theorem left_takePositions (levels : List Level) (number : Nat) :
    (Id.run (takePositions MixedRadix.divide levels number)).2 = number / count levels := by
  induction levels with
  | nil => exact (Nat.div_one number).symm
  | cons level rest induction =>
      change (Id.run (MixedRadix.takeDigits MixedRadix.divide level.dims
        (Id.run (takePositions MixedRadix.divide rest number)).2)).2 = _
      rw [MixedRadix.left_takeDigits, induction, Nat.div_div_eq_div_mul, count, Nat.mul_comm]

private theorem positionsAt_cons_whole (level : Level) (rest : List Level) (number : Nat) :
    positionsAt (level :: rest) number =
      ⟨MixedRadix.decode level.dims (number / count rest)⟩ :: positionsAt rest number := by
  change ⟨MixedRadix.decode level.dims
    (Id.run (takePositions MixedRadix.divide rest number)).2⟩ :: positionsAt rest number = _
  rw [left_takePositions]

/-- Only what is left within the levels shows in their positions. -/
theorem positionsAt_mod (levels : List Level) (number : Nat) :
    positionsAt levels (number % count levels) = positionsAt levels number := by
  induction levels generalizing number with
  | nil => rfl
  | cons level rest induction =>
      have hdigits := MixedRadix.decode_mod level.dims (number / count rest)
      rw [positionsAt_cons_whole, positionsAt_cons_whole, count,
        Nat.mod_mul_left_div_self, hdigits, ← induction (number % _), Nat.mod_mul_left_mod,
        induction]

theorem positionsAt_cons (level : Level) (rest : List Level) (number : Nat) :
    positionsAt (level :: rest) number =
      ⟨MixedRadix.decode level.dims (number / count rest)⟩ ::
        positionsAt rest (number % count rest) := by
  rw [positionsAt_cons_whole, positionsAt_mod]

theorem column?_eq (hardware : Hardware) (index : Nat) :
    hardware.column? index =
      if index < hardware.columnCount then some ⟨positionsAt hardware.levels index⟩ else none := by
  rw [column?, columnBy?]
  split <;> rfl

theorem columns_eq (hardware : Hardware) :
    hardware.columns = (List.range hardware.columnCount).map fun index =>
      ⟨positionsAt hardware.levels index⟩ := by
  refine List.filterMap_eq_map_iff_forall_eq_some.mpr fun index hindex => ?_
  rw [column?_eq, if_pos (List.mem_range.mp hindex)]

theorem indexIn?_lt_count {levels : List Level} {positions : List Position} {number : Nat}
    (hnumber : indexIn? levels positions = some number) : number < count levels := by
  induction levels generalizing positions number with
  | nil =>
      cases hnumber
      exact Nat.one_pos
  | cons level rest induction =>
      cases positions with
      | nil => cases hnumber
      | cons position positions =>
          rw [indexIn?] at hnumber
          split at hnumber
          case isFalse => cases hnumber
          case isTrue hcontains =>
            obtain ⟨inner, hinner, rfl⟩ := Option.map_eq_some_iff.mp hnumber
            have hbound := induction hinner
            have houter := MixedRadix.encode_lt_volume hcontains
            calc
              MixedRadix.encode level.dims position.components * count rest + inner
                  < (MixedRadix.encode level.dims position.components + 1) * count rest := by
                    rw [Nat.succ_mul]
                    exact Nat.add_lt_add_left hbound _
              _ ≤ MixedRadix.volume level.dims * count rest := Nat.mul_le_mul_right _ houter

/-- Only the positions of the space levels count. -/
theorem indexIn?_take {levels : List Level} {depth : Nat} (hdepth : levels.length ≤ depth)
    (positions : List Position) :
    indexIn? levels (positions.take depth) = indexIn? levels positions := by
  induction levels generalizing positions depth with
  | nil => rfl
  | cons level rest induction =>
      cases depth with
      | zero => cases hdepth
      | succ depth =>
          cases positions with
          | nil => rfl
          | cons position positions =>
              simp only [List.take_succ_cons, indexIn?,
                induction (Nat.le_of_succ_le_succ hdepth)]

theorem columnIndex?_take_of_le {hardware : Hardware} {depth : Nat}
    (hdepth : hardware.spaceDepth ≤ depth) (place : Coordinate) :
    hardware.columnIndex? (place.take depth) = hardware.columnIndex? place := by
  rw [columnIndex?_eq_word, columnIndex?_eq_word]
  exact congrArg (Option.map word) (indexIn?_take hdepth place.levels)

theorem columnIndex?_take (hardware : Hardware) (place : Coordinate) :
    hardware.columnIndex? (place.take hardware.spaceDepth) = hardware.columnIndex? place :=
  columnIndex?_take_of_le (Nat.le_refl _) place

theorem length_positionsAt (levels : List Level) (number : Nat) :
    (positionsAt levels number).length = levels.length := by
  induction levels generalizing number with
  | nil => rfl
  | cons level rest induction => simp only [positionsAt_cons, List.length_cons, induction]

/-- The positions of a number name the column of that number, with whatever follows them. -/
theorem indexIn?_positionsAt {levels : List Level} {number : Nat} (following : List Position)
    (hbound : number < count levels) :
    indexIn? levels (positionsAt levels number ++ following) = some number := by
  induction levels generalizing number with
  | nil =>
      have hzero : number = 0 := Nat.lt_one_iff.mp hbound
      rw [hzero]
      rfl
  | cons level rest induction =>
      have hpositive : 0 < count rest := by
        rcases Nat.eq_zero_or_pos (count rest) with hzero | hpositive
        · rw [count, hzero, Nat.mul_zero] at hbound
          exact absurd hbound (Nat.not_lt_zero number)
        · exact hpositive
      have houter : number / count rest < MixedRadix.volume level.dims :=
        (Nat.div_lt_iff_lt_mul hpositive).mpr hbound
      have hcontains : level.contains ⟨MixedRadix.decode level.dims (number / count rest)⟩ = true :=
        MixedRadix.fits_decode houter
      simp only [positionsAt_cons, List.cons_append, indexIn?, hcontains, if_true,
        induction (Nat.mod_lt number hpositive), Option.map_some, Option.some.injEq]
      rw [MixedRadix.encode_decode houter, Nat.mul_comm]
      exact Nat.div_add_mod number (count rest)

/-! Words. -/

theorem columnIndex?_isSome (hardware : Hardware) (place : Coordinate) :
    (hardware.columnIndex? place).isSome = (indexIn? hardware.levels place.levels).isSome := by
  rw [columnIndex?_eq_word]
  exact Option.isSome_map

theorem columnIndex?_positionsAt {hardware : Hardware} {number : Nat}
    (hnumber : number < hardware.columnCount) (following : List Position) :
    hardware.columnIndex? ⟨positionsAt hardware.levels number ++ following⟩ = some number := by
  have hfits : number < wordCount := Nat.lt_trans hnumber (word_lt _)
  have hbound : number < count hardware.levels := Nat.lt_of_lt_of_le hnumber (word_le _)
  rw [columnIndex?_eq_word, indexIn?_positionsAt following hbound, Option.map_some,
    word_of_lt hfits]

/-- The columns can be counted in words. -/
def ColumnsBounded (hardware : Hardware) : Prop := count hardware.levels < wordCount

instance (hardware : Hardware) : Decidable hardware.ColumnsBounded :=
  inferInstanceAs (Decidable (_ < _))

namespace ColumnsBounded

variable {hardware : Hardware} (hbounded : hardware.ColumnsBounded)
include hbounded

theorem columnCount_eq : hardware.columnCount = count hardware.levels := word_of_lt hbounded

theorem columnIndex?_eq (place : Coordinate) :
    hardware.columnIndex? place = indexIn? hardware.levels place.levels := by
  rw [columnIndex?_eq_word]
  cases hnumber : indexIn? hardware.levels place.levels with
  | none => rfl
  | some number =>
      have hfits := Nat.lt_trans (indexIn?_lt_count hnumber) hbounded
      rw [Option.map_some, word_of_lt hfits]

theorem columnIndex?_lt {place : Coordinate} {number : Nat}
    (hnumber : hardware.columnIndex? place = some number) : number < hardware.columnCount := by
  rw [hbounded.columnIndex?_eq] at hnumber
  rw [hbounded.columnCount_eq]
  exact indexIn?_lt_count hnumber

end ColumnsBounded

/-- The columns, the points of a column and the points of all columns can be counted in words. -/
structure Bounded (hardware : Hardware) : Prop where
  columns : hardware.ColumnsBounded
  points : hardware.steps * hardware.phases < wordCount
  cells : count hardware.levels * (hardware.steps * hardware.phases) < wordCount

instance (hardware : Hardware) : Decidable hardware.Bounded :=
  decidable_of_iff
    (hardware.ColumnsBounded ∧ hardware.steps * hardware.phases < wordCount ∧
      count hardware.levels * (hardware.steps * hardware.phases) < wordCount)
    ⟨fun ⟨columns, points, cells⟩ => ⟨columns, points, cells⟩,
      fun ⟨columns, points, cells⟩ => ⟨columns, points, cells⟩⟩

theorem Bounded.pointsPerColumn_eq {hardware : Hardware} (hbounded : hardware.Bounded) :
    hardware.pointsPerColumn = hardware.steps * hardware.phases :=
  word_of_lt hbounded.points

end Hardware

end TiledPlacement

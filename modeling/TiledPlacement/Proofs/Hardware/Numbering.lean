import Mathlib.Algebra.Group.Nat.Defs
import TiledPlacement.Hardware.Basic
import TiledPlacement.Proofs.Hardware.Order

/-!
Columns and their numbers. The columns of a hierarchy that can be counted in words and the numbers
below their count are in one-to-one correspondence, in the order of the coordinates. Extents of zero
leave no column, so that no number is ever divided by them.
-/

namespace TiledPlacement

instance : Std.OrientedCmp Position.compare where
  eq_swap := fun {left right} =>
    @Std.OrientedCmp.eq_swap (List Nat) (List.compareLex compare) _ left.components
      right.components

instance : Std.OrientedCmp Coordinate.compare where
  eq_swap := fun {left right} =>
    @Std.OrientedCmp.eq_swap (List Position) (List.compareLex Position.compare) _ left.levels
      right.levels

namespace Hardware

variable {hardware : Hardware} {place column : Coordinate}

theorem isDisabled_iff : hardware.isDisabled place = true ↔
    place.take hardware.spaceDepth ∈ hardware.disabled :=
  decide_eq_true_iff

def number (hardware : Hardware) (column : Coordinate) : Nat :=
  (hardware.columnIndex? column).getD 0

theorem IsColumn.length (hcolumn : hardware.IsColumn column) :
    column.levels.length = hardware.levels.length :=
  (List.Forall₂.length_eq hcolumn).symm

theorem IsColumn.take (hcolumn : hardware.IsColumn column) :
    column.take hardware.spaceDepth = column :=
  congrArg Coordinate.mk (List.take_of_length_le (Nat.le_of_eq hcolumn.length))

theorem IsColumn.columnIndex? (hcolumn : hardware.IsColumn column) :
    hardware.columnIndex? column = some (hardware.number column) := by
  have hsome : (hardware.columnIndex? column).isSome = true := by
    rw [columnIndex?_isSome, indexIn?_isSome_iff, ← hcolumn.length, List.take_length]
    exact hcolumn
  obtain ⟨found, hfound⟩ := Option.isSome_iff_exists.mp hsome
  rw [hfound, number, hfound, Option.getD_some]

theorem IsColumn.hasColumn (hcolumn : hardware.IsColumn column) :
    hardware.hasColumn column = true :=
  Option.isSome_of_eq_some hcolumn.columnIndex?

theorem IsColumn.positionsAt (hcolumn : hardware.IsColumn column)
    (hbounded : hardware.ColumnsBounded) :
    column = ⟨Hardware.positionsAt hardware.levels (hardware.number column)⟩ := by
  have hpositions := hbounded.positionsAt_of_columnIndex? hcolumn.columnIndex?
  rw [spaceDepth, ← hcolumn.length, List.take_length] at hpositions
  rw [hpositions]

theorem ColumnsBounded.number_lt (hbounded : hardware.ColumnsBounded)
    (hcolumn : hardware.IsColumn column) : hardware.number column < hardware.columnCount :=
  hbounded.columnIndex?_lt hcolumn.columnIndex?

theorem isColumn_positionsAt {number : Nat} (hnumber : number < hardware.columnCount) :
    hardware.IsColumn ⟨Hardware.positionsAt hardware.levels number⟩ := by
  have hindex := indexIn?_positionsAt [] (Nat.lt_of_lt_of_le hnumber (word_le _))
  have hsome := indexIn?_isSome_iff.mp (Option.isSome_of_eq_some hindex)
  rwa [List.append_nil, ← length_positionsAt hardware.levels number, List.take_length] at hsome

theorem number_positionsAt {number : Nat} (hnumber : number < hardware.columnCount) :
    hardware.number ⟨Hardware.positionsAt hardware.levels number⟩ = number := by
  have hindex := columnIndex?_positionsAt hnumber []
  rw [List.append_nil] at hindex
  rw [Hardware.number, hindex, Option.getD_some]

/-! Coordinates to numbers and back. -/

theorem columnIndex?_isSome_iff :
    (hardware.columnIndex? place).isSome = true ↔
      hardware.IsColumn (place.take hardware.spaceDepth) := by
  rw [columnIndex?_isSome]
  exact indexIn?_isSome_iff

theorem isColumn_take (hplace : hardware.hasColumn place = true) :
    hardware.IsColumn (place.take hardware.spaceDepth) :=
  columnIndex?_isSome_iff.mp hplace

theorem ColumnsBounded.column?_eq_some_iff (hbounded : hardware.ColumnsBounded) {index : Nat} :
    hardware.column? index = some column ↔
      hardware.IsColumn column ∧ hardware.columnIndex? column = some index := by
  rw [column?_eq]
  constructor
  · intro hfound
    split at hfound
    case isFalse => cases hfound
    case isTrue hbound =>
      obtain rfl := Option.some.inj hfound
      have hcolumn := isColumn_positionsAt hbound
      exact ⟨hcolumn, hcolumn.columnIndex?.trans (congrArg some (number_positionsAt hbound))⟩
  · intro hboth
    obtain ⟨hcolumn, hindex⟩ := hboth
    have hnumber : hardware.number column = index := by rw [number, hindex, Option.getD_some]
    rw [if_pos (hbounded.columnIndex?_lt hindex), ← hnumber, ← hcolumn.positionsAt hbounded]

theorem column?_isSome_iff {index : Nat} :
    (hardware.column? index).isSome = true ↔ index < hardware.columnCount := by
  rw [column?_eq]
  split
  case isTrue hbound => exact iff_of_true rfl hbound
  case isFalse hbound => exact iff_of_false Bool.false_ne_true hbound

/-- Columns are numbered in the order of their coordinates. -/
theorem ColumnsBounded.number_lt_iff (hbounded : hardware.ColumnsBounded)
    {left right : Coordinate} (hleft : hardware.IsColumn left)
    (hright : hardware.IsColumn right) :
    hardware.number left < hardware.number right ↔ left.compare right = .lt := by
  have hascends : ∀ {left right : Coordinate}, hardware.IsColumn left → hardware.IsColumn right →
      hardware.number left < hardware.number right → left.compare right = .lt := by
    intro left right hleft hright hless
    rw [hleft.positionsAt hbounded, hright.positionsAt hbounded]
    exact compare_positionsAt hless (Nat.lt_of_lt_of_le (hbounded.number_lt hright) (word_le _))
  refine ⟨hascends hleft hright, fun hless => ?_⟩
  rcases Nat.lt_trichotomy (hardware.number left) (hardware.number right) with
    hbelow | hsame | habove
  · exact hbelow
  · rw [hleft.positionsAt hbounded, hright.positionsAt hbounded, hsame,
      @Std.ReflCmp.compare_self _ Coordinate.compare] at hless
    cases hless
  · rw [@Std.OrientedCmp.eq_swap _ Coordinate.compare, hascends hright hleft habove] at hless
    cases hless

/-! The list of columns. -/

theorem getElem?_columns (index : Nat) : hardware.columns[index]? = hardware.column? index := by
  rw [columns_eq, List.getElem?_map, column?_eq]
  split
  case isTrue hbound =>
    rw [List.getElem?_range hbound]
    rfl
  case isFalse hbound =>
    rw [List.getElem?_eq_none (by rwa [List.length_range, ← Nat.not_lt])]
    rfl

theorem ColumnsBounded.mem_columns_iff (hbounded : hardware.ColumnsBounded) :
    column ∈ hardware.columns ↔ hardware.IsColumn column := by
  rw [List.mem_iff_getElem?]
  constructor
  · rintro ⟨index, hindex⟩
    rw [getElem?_columns] at hindex
    exact (hbounded.column?_eq_some_iff.mp hindex).1
  · intro hcolumn
    refine ⟨hardware.number column, ?_⟩
    rw [getElem?_columns]
    exact hbounded.column?_eq_some_iff.mpr ⟨hcolumn, hcolumn.columnIndex?⟩

theorem columns_ascending :
    hardware.columns.Pairwise fun earlier later => earlier.compare later = .lt := by
  rw [columns_eq, List.pairwise_map]
  refine List.pairwise_lt_range.imp_of_mem fun _ hlater hless => ?_
  exact compare_positionsAt hless (Nat.lt_of_lt_of_le (List.mem_range.mp hlater) (word_le _))

/-! Divisions. -/

theorem takePositions_divide? {levels : List Level} (hpositive : 0 < count levels) (number : Nat) :
    takePositions MixedRadix.divide? levels number =
      some (positionsAt levels number, number / count levels) := by
  induction levels with
  | nil => rw [takePositions, count, Nat.div_one]; rfl
  | cons level rest induction =>
      have hextent : 0 < MixedRadix.volume level.dims := Nat.pos_of_mul_pos_right hpositive
      rw [takePositions, induction (Nat.pos_of_mul_pos_left hpositive), positionsAt_cons,
        positionsAt_mod, count, Nat.mul_comm (MixedRadix.volume level.dims),
        ← Nat.div_div_eq_div_mul, Option.bind_eq_bind, Option.bind_some]
      dsimp only
      rw [MixedRadix.takeDigits_divide? hextent]
      rfl

/-- Looking up a number refuses no division. -/
theorem columnBy?_divide? (hardware : Hardware) (index : Nat) :
    hardware.columnBy? MixedRadix.divide? index = some (hardware.column? index) := by
  rw [columnBy?, column?_eq]
  split
  case isTrue hbound =>
    rw [takePositions_divide? (Nat.zero_lt_of_lt (Nat.lt_of_lt_of_le hbound (word_le _)))]
    rfl
  case isFalse => rfl

/-- Numbers below the count of columns and columns correspond, whatever the levels, if the columns
can be counted in words: each is found from the other, what follows a column in a coordinate does
not count, nothing is divided by zero, and the columns are listed once each, in ascending order. -/
theorem columns_correspond (hardware : Hardware) (hbounded : hardware.ColumnsBounded) :
    (∀ index, (hardware.column? index).isSome = true ↔ index < hardware.columnCount) ∧
      (∀ index column, hardware.column? index = some column ↔
        hardware.IsColumn column ∧ hardware.columnIndex? column = some index) ∧
      (∀ column, hardware.IsColumn column → ∃ index < hardware.columnCount,
        hardware.columnIndex? column = some index ∧ hardware.column? index = some column) ∧
      (∀ place, hardware.columnIndex? place =
          hardware.columnIndex? (place.take hardware.spaceDepth) ∧
        ((hardware.columnIndex? place).isSome = true ↔
          hardware.IsColumn (place.take hardware.spaceDepth))) ∧
      (∀ index, hardware.columnBy? MixedRadix.divide? index = some (hardware.column? index)) ∧
      (∀ left right, hardware.IsColumn left → hardware.IsColumn right →
        (hardware.number left < hardware.number right ↔ left.compare right = .lt)) ∧
      (∀ column, column ∈ hardware.columns ↔ hardware.IsColumn column) ∧
      (∀ index, hardware.columns[index]? = hardware.column? index) ∧
      hardware.columns.Nodup ∧
      hardware.columns.Pairwise fun earlier later => earlier.compare later = .lt := by
  refine ⟨fun index => column?_isSome_iff, fun index column => hbounded.column?_eq_some_iff,
    fun column hcolumn => ?_, fun place => ?_, hardware.columnBy?_divide?,
    fun left right hleft hright => hbounded.number_lt_iff hleft hright,
    fun column => hbounded.mem_columns_iff, getElem?_columns, ?_, columns_ascending⟩
  · have hindex := hcolumn.columnIndex?
    exact ⟨_, hbounded.columnIndex?_lt hindex, hindex,
      hbounded.column?_eq_some_iff.mpr ⟨hcolumn, hindex⟩⟩
  · exact ⟨(columnIndex?_take hardware place).symm, columnIndex?_isSome_iff⟩
  · refine columns_ascending.imp fun {earlier later} hless hsame => ?_
    rw [hsame, @Std.ReflCmp.compare_self _ Coordinate.compare] at hless
    cases hless

theorem columns_correspond_multiChip :
    (multiChip 2 3 4 2).ColumnsBounded ∧ (multiChip 2 3 4 2).columns.Nodup ∧
      ∀ index, ((multiChip 2 3 4 2).column? index).isSome = true ↔ index < 48 := by
  have hbounded : (multiChip 2 3 4 2).ColumnsBounded := by decide
  obtain ⟨hsome, -, -, -, -, -, -, -, hnodup, -⟩ := columns_correspond _ hbounded
  exact ⟨hbounded, hnodup, hsome⟩

/-- A square of `2 ^ 32` by `2 ^ 32` cores has too many columns to be counted. The first one has a
number, from which it is not found again. -/
theorem columns_uncountable :
    (singleChip (2 ^ 32) (2 ^ 32)).validate = .ok () ∧
      (singleChip (2 ^ 32) (2 ^ 32)).IsColumn ⟨[⟨[0, 0]⟩, ⟨[0, 0]⟩]⟩ ∧
        (singleChip (2 ^ 32) (2 ^ 32)).columnIndex? ⟨[⟨[0, 0]⟩, ⟨[0, 0]⟩]⟩ = some 0 ∧
          (singleChip (2 ^ 32) (2 ^ 32)).column? 0 = none := by
  decide +kernel

end Hardware

end TiledPlacement

import TiledPlacement.Proofs.Grid.Correspondence

/-!
Filling of a grid with empty points, column by column. Whatever the hardware, points are put only
where there was none or an empty one. If words hold the number of cells, every column has its cells
in the grid, so that the filling ends, and exactly the columns that are not disabled are filled.
-/

namespace TiledPlacement

namespace Grid

variable {grid filled : Grid} {start stop : Nat}

theorem SameFrame.refl (grid : Grid) : SameFrame grid grid := ⟨rfl, rfl⟩

theorem SameFrame.trans {before middle after : Grid} (hfirst : SameFrame before middle)
    (hrest : SameFrame middle after) : SameFrame before after :=
  ⟨hrest.hardware.trans hfirst.hardware, hrest.routes.trans hfirst.routes⟩

private theorem foldl_setCell {places : List Nat} {grid : Grid}
    (hinside : ∀ place ∈ places, place < grid.cells.size) (cell : Cell) :
    SameFrame grid (places.foldl (fun grid place => grid.setCell ⟨place⟩ (some .empty)) grid) ∧
      (places.foldl (fun grid place => grid.setCell ⟨place⟩ (some .empty)) grid).pointAt? cell =
        if cell.place ∈ places then some .empty else grid.pointAt? cell := by
  induction places generalizing grid with
  | nil => exact ⟨.refl grid, rfl⟩
  | cons first rest induction =>
      have hfirst : (⟨first⟩ : Cell).place < grid.cells.size := hinside first List.mem_cons_self
      have hrest : ∀ place ∈ rest,
          place < (grid.setCell ⟨first⟩ (some .empty)).cells.size := by
        intro place hplace
        change place < (grid.cells.setIfInBounds _ _).size
        rw [Array.size_setIfInBounds]
        exact hinside place (List.mem_cons_of_mem _ hplace)
      obtain ⟨hframe, hpoint⟩ := induction hrest
      refine ⟨⟨hframe.hardware, hframe.routes⟩, ?_⟩
      rw [List.foldl_cons, hpoint, pointAt?_setCell_of_lt hfirst]
      by_cases hlater : cell.place ∈ rest
      · simp [hlater]
      · by_cases hsame : cell = ⟨first⟩
        · simp [hsame]
        · have hplace : cell.place ≠ first := fun hequal => hsame (congrArg Cell.mk hequal)
          simp [hlater, hsame, hplace]

theorem of_fillRange? (hfilled : grid.fillRange? start stop = some filled) :
    SameFrame grid filled ∧ ∀ cell, filled.pointAt? cell =
      if start ≤ cell.place ∧ cell.place < stop then some .empty else grid.pointAt? cell := by
  obtain ⟨⟨hstart, hstop⟩, hfold⟩ := Option.ite_none_right_eq_some.mp hfilled
  have hrange : ∀ place, place ∈ List.range' start (stop - start) ↔
      start ≤ place ∧ place < stop := by
    intro place
    rw [List.mem_range'_1]
    omega
  have hinside : ∀ place ∈ List.range' start (stop - start), place < grid.cells.size :=
    fun place hplace => Nat.lt_of_lt_of_le ((hrange place).mp hplace).2 hstop
  cases hfold
  refine ⟨(foldl_setCell hinside ⟨0⟩).1, fun cell => ?_⟩
  rw [(foldl_setCell hinside cell).2]
  simp only [hrange]

theorem of_fillColumns? {left index number : Nat}
    (hfilled : fillColumns? left index number grid = some filled) :
    SameFrame grid filled ∧ ∀ cell point, filled.pointAt? cell = some point →
      point = .empty ∨ grid.pointAt? cell = some point := by
  induction left generalizing index number grid with
  | zero =>
      cases hfilled
      exact ⟨.refl _, fun _ _ => Or.inr⟩
  | succ left induction =>
      rw [fillColumns?] at hfilled
      split at hfilled
      case h_1 => exact induction hfilled
      case h_2 column hcolumn =>
        split at hfilled
        case isTrue => exact induction hfilled
        case isFalse =>
          obtain ⟨middle, hmiddle, hfilled⟩ := Option.bind_eq_some_iff.mp hfilled
          obtain ⟨hframe, hrange⟩ := of_fillRange? hmiddle
          obtain ⟨hrest, hpoints⟩ := induction hfilled
          refine ⟨hframe.trans hrest, fun cell point hpoint => ?_⟩
          rcases hpoints cell point hpoint with hempty | hmiddlePoint
          · exact Or.inl hempty
          · rw [hrange] at hmiddlePoint
            split at hmiddlePoint
            case isTrue => exact Or.inl (Option.some.inj hmiddlePoint).symm
            case isFalse => exact Or.inr hmiddlePoint

/-- Whatever can be filled of an accelerator, its grid has empty points only, and no routes. -/
theorem ofHardware_points (hardware : Hardware) :
    (ofHardware hardware).hardware = hardware ∧ (ofHardware hardware).routes = ∅ ∧
      ∀ cell point, (ofHardware hardware).pointAt? cell = some point → point = .empty := by
  have hnone : ∀ cell, (empty hardware).pointAt? cell = none := by
    intro cell
    change ((Array.replicate _ none)[_]?).join = none
    rw [Array.getElem?_replicate]
    split <;> rfl
  unfold ofHardware
  cases hfilled : ofHardware? hardware with
  | none =>
      refine ⟨rfl, rfl, fun cell point hpoint => ?_⟩
      cases (hnone cell).symm.trans hpoint
  | some filled =>
      obtain ⟨hframe, hpoints⟩ := of_fillColumns? hfilled
      refine ⟨hframe.hardware, hframe.routes, fun cell point hpoint => ?_⟩
      refine (hpoints cell point hpoint).resolve_right fun hbefore => ?_
      cases (hnone cell).symm.trans hbefore

@[simp] theorem hardware_ofHardware (hardware : Hardware) :
    (ofHardware hardware).hardware = hardware :=
  (ofHardware_points hardware).1

/-! Hardware whose cells can be counted in words. -/

theorem exists_fillRange? (hbounded : grid.hardware.Bounded) {column : Nat}
    (hcolumn : column < grid.hardware.columnCount) :
    ∃ filled, grid.fillRange? (grid.hardware.columnStart column)
      (grid.hardware.columnStart (column + 1)) = some filled := by
  have hend := hbounded.columnEnd_le hcolumn
  rw [hbounded.columnStart_eq hcolumn.le, hbounded.columnStart_eq hcolumn, fillRange?,
    grid.size_cells]
  exact ⟨_, if_pos ⟨Nat.mul_le_mul_right _ (Nat.le_succ column), hend⟩⟩

/-- Each of the next columns is filled, unless it is disabled, and no other one is. -/
theorem exists_fillColumns? {left index : Nat} (hbounded : grid.hardware.Bounded)
    (hcolumns : index + left ≤ grid.hardware.columnCount) :
    ∃ filled, fillColumns? left index index grid = some filled ∧ SameFrame grid filled ∧
      ∀ cell, grid.hardware.HasCell cell → filled.pointAt? cell =
        if (index ≤ grid.hardware.columnOf cell ∧ grid.hardware.columnOf cell < index + left) ∧
            (grid.hardware.siteAt cell).column ∉ grid.hardware.disabled then some .empty
        else grid.pointAt? cell := by
  induction left generalizing index grid with
  | zero =>
      refine ⟨grid, rfl, .refl grid, fun cell hcell => ?_⟩
      rw [if_neg (by omega)]
  | succ left induction =>
      have hnext : index < grid.hardware.columnCount := by omega
      have hcolumn : grid.hardware.column? index =
          some ⟨Hardware.positionsAt grid.hardware.levels index⟩ := by
        rw [Hardware.column?_eq, if_pos hnext]
      have hdisabled : grid.hardware.isDisabled
            ⟨Hardware.positionsAt grid.hardware.levels index⟩ = true ↔
          (⟨Hardware.positionsAt grid.hardware.levels index⟩ : Coordinate) ∈
            grid.hardware.disabled := by
        rw [Hardware.isDisabled_iff, (Hardware.isColumn_positionsAt hnext).take]
      have hsite : ∀ {cell}, grid.hardware.columnOf cell = index →
          (grid.hardware.siteAt cell).column =
            ⟨Hardware.positionsAt grid.hardware.levels index⟩ := by
        rintro cell rfl
        rfl
      rw [fillColumns?, hcolumn]
      dsimp only
      split
      case isTrue hoff =>
        obtain ⟨filled, hfilled, hframe, hpoints⟩ :=
          @induction grid (index + 1) hbounded (by omega)
        refine ⟨filled, hfilled, hframe, fun cell hcell => ?_⟩
        rw [hpoints cell hcell]
        by_cases hhere : grid.hardware.columnOf cell = index
        · rw [if_neg (by omega), if_neg]
          rw [hsite hhere]
          exact fun hon => hon.2 (hdisabled.mp hoff)
        · exact if_congr (and_congr_left fun _ => by omega) rfl rfl
      case isFalse hon =>
        obtain ⟨middle, hmiddle⟩ := exists_fillRange? hbounded hnext
        obtain ⟨hframe, hrange⟩ := of_fillRange? hmiddle
        have hhardware : middle.hardware = grid.hardware := hframe.hardware
        obtain ⟨filled, hfilled, hrest, hpoints⟩ :=
          @induction middle (index + 1) (hhardware ▸ hbounded) (by rw [hhardware]; omega)
        rw [hhardware] at hpoints
        refine ⟨filled, ?_, hframe.trans hrest, fun cell hcell => ?_⟩
        · rw [hmiddle]
          exact hfilled
        · have hcolumnOf := hbounded.columnOf_eq_iff hnext hcell
          rw [hpoints cell hcell, hrange]
          by_cases hhere : grid.hardware.columnOf cell = index
          · have henabled : (grid.hardware.siteAt cell).column ∉ grid.hardware.disabled := by
              rw [hsite hhere]
              exact fun hoff => hon (hdisabled.mpr hoff)
            rw [if_neg (by omega), if_pos (hcolumnOf.mp hhere), if_pos ⟨by omega, henabled⟩]
          · rw [if_neg (hcolumnOf.not.mp hhere)]
            exact if_congr (and_congr_left fun _ => by omega) rfl rfl

end Grid

end TiledPlacement

import Mathlib.Data.Set.Card
import TiledPlacement.Command
import TiledPlacement.Proofs.Grid.Listing
import TiledPlacement.Proofs.Grid.Refinement
import TiledPlacement.Proofs.Hardware.Usable

/-!
Disabled columns. The grid of an accelerator leaves out the columns that are listed themselves, and
so does the test for a disabled place. An entry that goes on below its column disables nothing, and
an entry that is repeated is counted twice; the count of functional columns is that of the columns
in the grid just when there is neither, or when no column is left.
-/

namespace TiledPlacement

namespace Grid

/-- Whether the grid has points in the column of a place. -/
def HasColumn (grid : Grid) (place : Coordinate) : Prop :=
  ∃ points, grid.column? place = .ok (some points)

variable {hardware : Hardware} {place column : Coordinate}

theorem pointAt?_ofHardware (hbounded : hardware.Bounded) {cell : Cell}
    (hcell : hardware.HasCell cell) :
    (ofHardware hardware).pointAt? cell =
      if (hardware.siteAt cell).column ∈ hardware.disabled then none else some {} := by
  have hhardware := hardware_ofHardware hardware
  have hpoint := (charts_ofHardware hbounded).point (hardware.siteAt cell)
  rw [hhardware] at hpoint
  rw [← hcell.cellOf_siteAt, hpoint hcell.hasSite, hcell.cellOf_siteAt, Occupancy.functional]
  by_cases hdisabled : (hardware.siteAt cell).column ∈ hardware.disabled
  · simp [hdisabled]
  · simp [hdisabled, hcell.hasSite]

theorem hasColumn_ofHardware_iff (hbounded : hardware.Bounded) (hsteps : hardware.steps ≠ 0)
    (hphases : hardware.phases ≠ 0) (hplace : hardware.hasColumn place = true) :
    (ofHardware hardware).HasColumn place ↔
      place.take hardware.spaceDepth ∉ hardware.disabled := by
  have hhardware := hardware_ofHardware hardware
  have hgrid : (ofHardware hardware).hardware.Bounded := by rwa [hhardware]
  obtain ⟨number, hnumber⟩ := Option.isSome_iff_exists.mp hplace
  have hpositions : place.take hardware.spaceDepth =
      ⟨Hardware.positionsAt hardware.levels number⟩ :=
    congrArg Coordinate.mk (hbounded.columns.positionsAt_of_columnIndex? hnumber).symm
  have hbound := hbounded.columns.columnIndex?_lt hnumber
  rw [hpositions]
  constructor
  · intro hcolumn
    obtain ⟨points, hpoints⟩ := hcolumn
    obtain ⟨rfl, hsome, -⟩ := columnPoints_of_column? hpoints
    obtain ⟨entry, hentry⟩ := List.exists_mem_of_ne_nil _ hsome
    obtain ⟨cell, hcell, hcolumn, hpoint, -⟩ := (mem_columnPoints hgrid).mp hentry
    rw [hhardware] at hcell hcolumn
    obtain rfl := Option.some.inj (hnumber.symm.trans hcolumn)
    have habsent := pointAt?_ofHardware hbounded hcell
    intro hdisabled
    rw [Hardware.siteAt, if_pos hdisabled, hpoint] at habsent
    cases habsent
  · intro henabled
    have hsteps := Nat.pos_of_ne_zero hsteps
    have hphases := Nat.pos_of_ne_zero hphases
    have hcell := hbounded.hasCell_cell hbound hsteps hphases
    have hcolumnOf := hbounded.columnOf_cell hbound hsteps hphases
    have hpoint := pointAt?_ofHardware hbounded hcell
    rw [Hardware.siteAt, hcolumnOf, if_neg henabled] at hpoint
    have hentry : ((ofHardware hardware).coordinateAt (hardware.cell number 0 0).place,
        Point.empty) ∈ (ofHardware hardware).columnPoints place := by
      refine (mem_columnPoints hgrid).mpr ⟨_, ?_, ?_, hpoint, rfl⟩
      · rwa [hhardware]
      · rw [hhardware, hnumber, hcolumnOf]
    have hdepth : ¬place.depth < (ofHardware hardware).spaceDepth := by
      rw [spaceDepth, hhardware]
      exact Nat.not_lt.mpr (depth_of_columnIndex? hnumber)
    refine ⟨(ofHardware hardware).columnPoints place, ?_⟩
    rw [column?_eq, if_neg hdepth, if_neg]
    rw [List.isEmpty_iff]
    exact List.ne_nil_of_mem hentry

theorem point?_ofHardware (hbounded : hardware.Bounded) {site : Site}
    (hsite : hardware.HasSite site) :
    (ofHardware hardware).point? site.place =
      .ok (if site.column ∈ hardware.disabled then none else some {}) := by
  have hlength : site.column.levels.length = hardware.spaceDepth := hsite.1.length
  have hdepth : site.place.depth = hardware.spaceDepth + 2 := by
    rw [Coordinate.depth, Site.place, List.length_append, hlength]
    rfl
  have htake : site.place.take (hardware.spaceDepth + 2) = site.place :=
    congrArg Coordinate.mk (List.take_of_length_le (Nat.le_of_eq hdepth))
  have hreference : hardware.reference? site.place = some (.point site) := by
    have hspace : site.place.take hardware.spaceDepth = site.column :=
      congrArg Coordinate.mk (List.take_left' hlength)
    have htime : site.place.levels.drop hardware.spaceDepth =
        [.scalar site.step, .scalar site.phase] := List.drop_left' hlength
    have hstep : Hardware.timeAt? hardware.steps (.scalar site.step) = some site.step :=
      Hardware.timeAt?_eq_some_iff.mpr ⟨rfl, hsite.2.1⟩
    have hphase : Hardware.timeAt? hardware.phases (.scalar site.phase) = some site.phase :=
      Hardware.timeAt?_eq_some_iff.mpr ⟨rfl, hsite.2.2⟩
    rw [Hardware.reference?, hspace, htime, if_pos hsite.1, Hardware.within?, hstep, hphase]
    rfl
  have hhardware := hardware_ofHardware hardware
  rw [(charts_ofHardware hbounded).point?_eq, spaceDepth, hhardware, hdepth,
    if_neg (Nat.lt_irrefl _), htake, hreference, Option.bind_some]
  change Except.ok (Occupancy.functional hardware site) = _
  rw [Occupancy.functional]
  by_cases hdisabled : site.column ∈ hardware.disabled
  · simp [hdisabled]
  · simp [hdisabled, hsite]

end Grid

namespace Hardware

variable {hardware : Hardware} {place column : Coordinate}

theorem nodup_columns (hardware : Hardware) : hardware.columns.Nodup := by
  refine hardware.columns_ascending.imp fun {earlier later} hless hsame => ?_
  rw [hsame, @Std.ReflCmp.compare_self _ Coordinate.compare] at hless
  cases hless

theorem length_columns (hardware : Hardware) : hardware.columns.length = hardware.columnCount := by
  rw [columns_eq, List.length_map, List.length_range]

/-- As many entries as columns among them: all are columns, and none is there twice. -/
theorem ColumnsBounded.length_disabled_eq_iff (hbounded : hardware.ColumnsBounded) :
    hardware.disabled.length = (hardware.disabled.toFinset ∩ hardware.columns.toFinset).card ↔
      hardware.disabled.Nodup ∧ ∀ entry ∈ hardware.disabled, hardware.IsColumn entry := by
  have hentries : hardware.disabled.toFinset.card ≤ hardware.disabled.length :=
    List.toFinset_card_le _
  constructor
  · intro hlength
    have hcommon := Finset.card_le_card
      (@Finset.inter_subset_left _ _ hardware.disabled.toFinset hardware.columns.toFinset)
    have hsame := Nat.le_antisymm hentries (hlength ▸ hcommon)
    have hinside := Finset.inter_eq_left.mp
      (Finset.eq_of_subset_of_card_le Finset.inter_subset_left (hlength ▸ hentries))
    refine ⟨Multiset.toFinset_card_eq_card_iff_nodup.mp hsame, fun entry hentry => ?_⟩
    have hcolumn := hinside (List.mem_toFinset.mpr hentry)
    exact hbounded.mem_columns_iff.mp (List.mem_toFinset.mp hcolumn)
  · intro hboth
    obtain ⟨hnodup, hinside⟩ := hboth
    have hsubset : hardware.disabled.toFinset ⊆ hardware.columns.toFinset := by
      intro entry hentry
      have hcolumn := hinside entry (List.mem_toFinset.mp hentry)
      exact List.mem_toFinset.mpr (hbounded.mem_columns_iff.mpr hcolumn)
    rw [Finset.inter_eq_left.mpr hsubset, List.toFinset_card_of_nodup hnodup]

/-- As many columns as columns among the entries: every column is there. -/
theorem ColumnsBounded.card_columns_eq_iff (hbounded : hardware.ColumnsBounded) :
    hardware.columns.toFinset.card =
        (hardware.disabled.toFinset ∩ hardware.columns.toFinset).card ↔
      ∀ column, hardware.IsColumn column → column ∈ hardware.disabled := by
  constructor
  · intro hcard column hcolumn
    have hinside := Finset.inter_eq_right.mp
      (Finset.eq_of_subset_of_card_le Finset.inter_subset_right (Nat.le_of_eq hcard))
    have hlisted := List.mem_toFinset.mpr (hbounded.mem_columns_iff.mpr hcolumn)
    exact List.mem_toFinset.mp (hinside hlisted)
  · intro hinside
    have hsubset : hardware.columns.toFinset ⊆ hardware.disabled.toFinset := by
      intro column hlisted
      have hcolumn := hbounded.mem_columns_iff.mp (List.mem_toFinset.mp hlisted)
      exact List.mem_toFinset.mpr (hinside column hcolumn)
    rw [Finset.inter_eq_right.mpr hsubset]

/-- One column less for each entry of a list is right just when the entries are columns, none of
them twice, or when they leave no column. -/
theorem ColumnsBounded.functionalCount_eq_iff (hbounded : hardware.ColumnsBounded) :
    hardware.functionalCount =
        {column | hardware.IsColumn column ∧ column ∉ hardware.disabled}.ncard ↔
      (hardware.disabled.Nodup ∧ ∀ entry ∈ hardware.disabled, hardware.IsColumn entry) ∨
        ∀ column, hardware.IsColumn column → column ∈ hardware.disabled := by
  have hset : {column | hardware.IsColumn column ∧ column ∉ hardware.disabled} =
      ((hardware.columns.toFinset \ hardware.disabled.toFinset : Finset Coordinate) :
        Set Coordinate) := by
    ext column
    simp [hbounded.mem_columns_iff]
  have hcolumns : hardware.columns.toFinset.card = hardware.columnCount := by
    rw [List.toFinset_card_of_nodup hardware.nodup_columns, length_columns]
  have hentries : hardware.disabled.toFinset.card ≤ hardware.disabled.length :=
    List.toFinset_card_le _
  have hcommon := Finset.card_le_card
    (@Finset.inter_subset_left _ _ hardware.disabled.toFinset hardware.columns.toFinset)
  have hbound := Finset.card_le_card
    (@Finset.inter_subset_right _ _ hardware.disabled.toFinset hardware.columns.toFinset)
  rw [hset, Set.ncard_coe_finset, Finset.card_sdiff, ← hbounded.length_disabled_eq_iff,
    ← hbounded.card_columns_eq_iff, functionalCount, ← hcolumns]
  omega

theorem Bounded.setOf_hasColumn (hbounded : hardware.Bounded) (hsteps : hardware.steps ≠ 0)
    (hphases : hardware.phases ≠ 0) :
    {column | hardware.IsColumn column ∧ (Grid.ofHardware hardware).HasColumn column} =
      {column | hardware.IsColumn column ∧ column ∉ hardware.disabled} := by
  ext column
  refine and_congr_right fun (hcolumn : hardware.IsColumn column) => ?_
  rw [Grid.hasColumn_ofHardware_iff hbounded hsteps hphases hcolumn.hasColumn, hcolumn.take]

theorem ColumnsBounded.ncard_enabled (hbounded : hardware.ColumnsBounded) :
    {column | hardware.IsColumn column ∧ column ∉ hardware.disabled}.ncard =
      hardware.functionalColumns.length := by
  have hset : {column | hardware.IsColumn column ∧ column ∉ hardware.disabled} =
      (hardware.functionalColumns.toFinset : Set Coordinate) := by
    ext column
    rw [List.coe_toFinset]
    change _ ↔ column ∈ List.filter _ _
    rw [List.mem_filter, hbounded.mem_columns_iff, Bool.not_eq_true', ← Bool.not_eq_true,
      isDisabled_iff]
    exact and_congr_right fun hcolumn => by rw [hcolumn.take]
  have hnodup : hardware.functionalColumns.Nodup := hardware.nodup_columns.filter _
  rw [hset, Set.ncard_coe_finset, List.toFinset_card_of_nodup hnodup]

/-- On usable hardware whose cells can be counted in words, a column has all its points in the grid
unless the column itself is listed as disabled, and the test for a disabled place agrees. So a
column is without points whenever an entry names it or something in it just when each entry has its
column in the list as well, and the columns with points are as many as the report of the hardware
says just when the entries are columns, none of them twice, or no column is left. -/
theorem disabled_honoured_iff (hvalid : hardware.validate = .ok ())
    (hbounded : hardware.Bounded) :
    (∀ site, hardware.HasSite site → (Grid.ofHardware hardware).point? site.place =
        .ok (if site.column ∈ hardware.disabled then none else some {})) ∧
      (∀ place, hardware.hasColumn place = true →
        (hardware.isDisabled place = true ↔ ¬(Grid.ofHardware hardware).HasColumn place)) ∧
      ((∀ column, hardware.IsColumn column → ((Grid.ofHardware hardware).HasColumn column ↔
          ¬∃ entry ∈ hardware.disabled, entry.take hardware.spaceDepth = column)) ↔
        ∀ entry ∈ hardware.disabled, entry.take hardware.spaceDepth ∈ hardware.disabled) ∧
      (hardware.functionalCount = {column | hardware.IsColumn column ∧
          (Grid.ofHardware hardware).HasColumn column}.ncard ↔
        (hardware.disabled.Nodup ∧ ∀ entry ∈ hardware.disabled, hardware.IsColumn entry) ∨
          ∀ column, hardware.IsColumn column → column ∈ hardware.disabled) := by
  have husable := validate_ok_iff.mp hvalid
  have hpoints : ∀ {place}, hardware.hasColumn place = true →
      ((Grid.ofHardware hardware).HasColumn place ↔
        place.take hardware.spaceDepth ∉ hardware.disabled) :=
    Grid.hasColumn_ofHardware_iff hbounded husable.steps husable.phases
  refine ⟨fun site => Grid.point?_ofHardware hbounded, fun place hplace => ?_,
    ⟨fun hnamed entry hentry => ?_, fun hlisted column hcolumn => ?_⟩, ?_⟩
  · rw [isDisabled_iff, hpoints hplace, not_not]
  · have hcolumn := isColumn_take (husable.disabled entry hentry)
    have hnone := (hnamed _ hcolumn).not.mpr (not_not.mpr ⟨entry, hentry, rfl⟩)
    rwa [hpoints hcolumn.hasColumn, hcolumn.take, not_not] at hnone
  · rw [hpoints hcolumn.hasColumn, hcolumn.take, not_iff_not]
    constructor
    · exact fun hmember => ⟨column, hmember, hcolumn.take⟩
    · intro hnamed
      obtain ⟨entry, hentry, rfl⟩ := hnamed
      exact hlisted entry hentry
  · rw [hbounded.setOf_hasColumn husable.steps husable.phases]
    exact hbounded.columns.functionalCount_eq_iff

/-- The core at an end of a row of cores. -/
def coreAt (index : Nat) : Coordinate := ⟨[⟨[0, 0]⟩, ⟨[0, index]⟩]⟩

def withDisabled (hardware : Hardware) (disabled : List Coordinate) : Hardware :=
  { hardware with disabled }

theorem disabled_honoured_iff_lastCore :
    let hardware := (singleChip 1 2).withDisabled [coreAt 1]
    hardware.validate = .ok () ∧ (Grid.ofHardware hardware).HasColumn (coreAt 0) ∧
      ¬(Grid.ofHardware hardware).HasColumn (coreAt 1) ∧
        hardware.functionalCount = {column | hardware.IsColumn column ∧
          (Grid.ofHardware hardware).HasColumn column}.ncard := by
  intro hardware
  have hvalid : hardware.validate = .ok () := by decide +kernel
  obtain ⟨-, hdisabled, -, hcount⟩ := disabled_honoured_iff hvalid (by decide)
  refine ⟨hvalid, ?_, (hdisabled _ (by decide)).mp (by decide), hcount.mpr (.inl ?_)⟩
  · exact not_not.mp ((hdisabled _ (by decide)).not.mp (by decide))
  · exact ⟨by decide, by decide⟩

/-- An entry with a level below its column leaves the column in the grid, although it is counted
among those that are off; an entry that is repeated is counted twice. -/
theorem disabled_below_and_twice :
    let below := (singleChip 1 2).withDisabled [(coreAt 0).push (.scalar 0)]
    let twice := (singleChip 1 2).withDisabled [coreAt 0, coreAt 0]
    (below.validate = .ok () ∧ below.IsColumn (coreAt 0) ∧
        (∃ entry ∈ below.disabled, entry.take below.spaceDepth = coreAt 0) ∧
          (Grid.ofHardware below).HasColumn (coreAt 0) ∧ below.isDisabled (coreAt 0) = false ∧
            Info.columnsLine below = "Columns      : 2 (1 functional, 1 disabled)" ∧
              {column | below.IsColumn column ∧
                (Grid.ofHardware below).HasColumn column}.ncard = 2) ∧
      twice.validate = .ok () ∧
        Info.columnsLine twice = "Columns      : 2 (0 functional, 2 disabled)" ∧
          {column | twice.IsColumn column ∧
            (Grid.ofHardware twice).HasColumn column}.ncard = 1 := by
  intro below twice
  refine ⟨⟨by decide +kernel, by decide, by decide, ?_, by decide, by decide +kernel, ?_⟩,
    by decide +kernel, by decide +kernel, ?_⟩
  · exact (Grid.hasColumn_ofHardware_iff (by decide) (by decide) (by decide) (by decide)).mpr
      (by decide)
  · have hbounded : below.Bounded := by decide
    rw [hbounded.setOf_hasColumn (by decide) (by decide), hbounded.columns.ncard_enabled]
    decide
  · have hbounded : twice.Bounded := by decide
    rw [hbounded.setOf_hasColumn (by decide) (by decide), hbounded.columns.ncard_enabled]
    decide

end Hardware

end TiledPlacement

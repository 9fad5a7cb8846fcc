import Mathlib.Data.Set.Card
import TiledPlacement.Proofs.Grid.Correspondence

/-!
Reading a grid is reading the map of its points. Cells stand in the order of the coordinates of
their sites, so the cells of a region list its points in that order.
-/

namespace TiledPlacement

theorem Position.compare_scalar (left right : Nat) :
    (Position.scalar left).compare (Position.scalar right) = Ord.compare left right := by
  change List.compareLex Ord.compare [left] [right] = _
  rw [List.compareLex_cons_cons, List.compareLex_nil_nil, Ordering.then_eq]

namespace Coordinate

theorem compare_push_of_lt {left right : Coordinate} (hdepth : left.depth = right.depth)
    (hless : left.compare right = .lt) (position other : Position) :
    (left.push position).compare (right.push other) = .lt :=
  compareLex_append_of_lt hdepth hless _ _

theorem compare_push (coordinate : Coordinate) (left right : Nat) :
    (coordinate.push (.scalar left)).compare (coordinate.push (.scalar right)) =
      Ord.compare left right := by
  change List.compareLex Position.compare (_ ++ [_]) (_ ++ [_]) = _
  rw [compareLex_append_left, List.compareLex_cons_cons, List.compareLex_nil_nil,
    Ordering.then_eq, Position.compare_scalar]

end Coordinate

namespace Point

/-- Residents are listed by units, and within a unit in the order of tasks. -/
theorem residents_ascending (point : Point) :
    point.residents.Pairwise fun earlier later =>
      earlier.1.index < later.1.index ∨
        earlier.1 = later.1 ∧ compare earlier.2 later.2 = .lt := by
  unfold residents
  rw [List.pairwise_flatMap]
  constructor
  · intro unit _
    rw [List.pairwise_map]
    have hascending : (point.residentsOf unit).Pairwise
        fun earlier later => compare earlier later = .lt := by
      unfold residentsOf
      split
      · cases point.occupant? unit with
        | none => exact List.Pairwise.nil
        | some task => exact List.pairwise_singleton _ _
      · exact Std.ExtTreeSet.ordered_toList
    exact hascending.imp fun hless => Or.inr ⟨rfl, hless⟩
  · have hunits : FunctionalUnit.all.Pairwise fun earlier later => earlier.index < later.index := by
      decide
    refine hunits.imp fun {earlier later} hless first hfirst second hsecond => Or.inl ?_
    obtain ⟨task, -, rfl⟩ := List.mem_map.mp hfirst
    obtain ⟨other, -, rfl⟩ := List.mem_map.mp hsecond
    exact hless

theorem isUnitEmpty_iff {point : Point} {unit : FunctionalUnit} :
    point.isUnitEmpty unit = true ↔ ∀ task, ¬point.holds unit task = true := by
  unfold isUnitEmpty holds
  split
  · simp only [Option.isNone_iff_eq_none, decide_eq_true_eq, Option.eq_none_iff_forall_ne_some,
      Ne]
  · rw [Std.ExtTreeSet.isEmpty_iff, Std.ExtTreeSet.eq_empty_iff_forall_not_mem]
    exact Iff.rfl

theorem isEmpty_iff {point : Point} :
    point.isEmpty = true ↔ ∀ unit task, ¬point.holds unit task = true := by
  have hall : ∀ unit : FunctionalUnit, unit ∈ FunctionalUnit.all := by
    intro unit
    cases unit <;> decide
  simp only [isEmpty, List.all_eq_true, isUnitEmpty_iff, hall, forall_const]

end Point

/-- Points in the order of their coordinates list their residents in that order. -/
theorem Grid.residentsOf_ascending {entries : List (Coordinate × Point)} {depth : Nat}
    (hascending : entries.Pairwise fun earlier later => earlier.1.compare later.1 = .lt)
    (hdepth : ∀ entry ∈ entries, entry.1.depth = depth) :
    (Grid.residentsOf entries).Pairwise fun earlier later =>
      earlier.1.compare later.1 = .lt ∨
        earlier.1 = later.1 ∧ compare earlier.2 later.2 = .lt := by
  rw [Grid.residentsOf, List.pairwise_flatMap]
  constructor
  · rintro ⟨place, point⟩ _
    rw [List.pairwise_map]
    refine point.residents_ascending.imp fun {earlier later} hless => ?_
    rw [Coordinate.compare_push, Nat.compare_eq_lt]
    exact hless.imp_right fun ⟨hunit, htask⟩ =>
      ⟨congrArg (fun unit => place.push (.scalar (FunctionalUnit.index unit))) hunit, htask⟩
  · refine hascending.imp_of_mem ?_
    intro earlier later hearlier hlater hless first hfirst second hsecond
    obtain ⟨⟨unit, task⟩, -, rfl⟩ := List.mem_map.mp hfirst
    obtain ⟨⟨other, otherTask⟩, -, rfl⟩ := List.mem_map.mp hsecond
    exact Or.inl (Coordinate.compare_push_of_lt
      ((hdepth _ hearlier).trans (hdepth _ hlater).symm) hless _ _)

namespace Site

theorem place_injective : Function.Injective place := by
  rintro ⟨⟨column⟩, step, phase⟩ ⟨⟨otherColumn⟩, otherStep, otherPhase⟩ hplace
  obtain ⟨hcolumn, htime⟩ := List.append_inj' (Coordinate.mk.inj hplace) rfl
  simp only [List.cons.injEq, Position.scalar, Position.mk.injEq, and_true] at htime
  dsimp only at hcolumn
  rw [hcolumn, htime.1, htime.2]

end Site

namespace Occupancy

variable {occupancy : Occupancy}

theorem has_iff {site : Site} {unit : FunctionalUnit} {task : TaskId} :
    occupancy.Has site unit task ↔
      ∃ point, occupancy site = some point ∧ point.holds unit task = true := by
  refine exists_congr fun point => and_congr_right fun _ => ?_
  cases unit
  case memory => exact Iff.rfl
  all_goals exact decide_eq_true_iff.symm

theorem Lists.nil_iff {region : Site → Prop} :
    occupancy.Lists region [] ↔ ¬occupancy.HasPoint region := by
  constructor
  · rintro hlists ⟨site, hsite, hsome⟩
    obtain ⟨point, hpoint⟩ := Option.isSome_iff_exists.mp hsome
    exact absurd ((hlists.mem_iff _ _).mpr ⟨site, hsite, hpoint, rfl⟩) List.not_mem_nil
  · intro hnone
    refine ⟨List.Pairwise.nil, fun place point => iff_of_false List.not_mem_nil ?_⟩
    rintro ⟨site, hsite, hpoint, -⟩
    exact hnone ⟨site, hsite, Option.isSome_of_eq_some hpoint⟩

theorem Lists.hasPoint {region : Site → Prop} {entries : List (Coordinate × Point)}
    (hlists : occupancy.Lists region entries) (hentries : entries ≠ []) :
    occupancy.HasPoint region := by
  obtain ⟨⟨place, point⟩, hentry⟩ := List.exists_mem_of_ne_nil entries hentries
  obtain ⟨site, hsite, hpoint, -⟩ := (hlists.mem_iff place point).mp hentry
  exact ⟨site, hsite, Option.isSome_of_eq_some hpoint⟩

theorem Lists.length_eq {entries : List (Coordinate × Point)}
    (hlists : occupancy.Lists (fun _ => True) entries) :
    entries.length = {site | (occupancy site).isSome = true}.ncard := by
  have hnodup : (entries.map Prod.fst).Nodup := by
    rw [List.Nodup, List.pairwise_map]
    refine hlists.ascending.imp fun {earlier later} hless hsame => ?_
    rw [hsame, @Std.ReflCmp.compare_self _ Coordinate.compare] at hless
    cases hless
  have himage : Site.place '' {site | (occupancy site).isSome = true} =
      ↑(entries.map Prod.fst).toFinset := by
    ext place
    simp only [Set.mem_image, Set.mem_ofPred_eq, List.coe_toFinset, List.mem_map, Prod.exists,
      hlists.mem_iff, true_and, Option.isSome_iff_exists]
    constructor
    · rintro ⟨site, ⟨point, hpoint⟩, rfl⟩
      exact ⟨_, point, ⟨site, hpoint, rfl⟩, rfl⟩
    · rintro ⟨_, point, ⟨site, hpoint, rfl⟩, rfl⟩
      exact ⟨site, ⟨point, hpoint⟩, rfl⟩
  rw [← Set.ncard_image_of_injective _ Site.place_injective, himage, Set.ncard_coe_finset,
    List.toFinset_card_of_nodup hnodup, List.length_map]

theorem Lists.residents {entries : List (Coordinate × Point)}
    (hlists : occupancy.Lists (fun _ => True) entries) (depth : Nat)
    (hdepth : ∀ entry ∈ entries, entry.1.depth = depth) :
    occupancy.ListsTasks (Grid.residentsOf entries) := by
  constructor
  case ascending => exact Grid.residentsOf_ascending hlists.ascending hdepth
  case mem_iff =>
    intro place task
    simp only [Grid.residentsOf, List.mem_flatMap, List.mem_map, Prod.exists, Prod.mk.injEq,
      hlists.mem_iff, true_and, has_iff, Point.mem_residents_iff]
    constructor
    · rintro ⟨_, point, ⟨site, hpoint, rfl⟩, unit, _, hholds, rfl, rfl⟩
      exact ⟨site, unit, ⟨point, hpoint, hholds⟩, rfl⟩
    · rintro ⟨site, unit, ⟨point, hpoint, hholds⟩, rfl⟩
      exact ⟨_, point, ⟨site, hpoint, rfl⟩, unit, task, hholds, rfl, rfl⟩

theorem Lists.shows {region : Reference} {entries : List (Coordinate × Point)}
    (hlists : occupancy.Lists region.Includes entries) (hregion : region.site? = none) :
    occupancy.Shows (some region) (Grid.nonempty entries) := by
  unfold Grid.nonempty
  cases entries with
  | nil => cases region <;> first | exact hlists | cases hregion
  | cons entry rest =>
      cases region <;> first | exact ⟨List.cons_ne_nil entry rest, hlists⟩ | cases hregion

theorem Shows.no_point {reference : Reference} (hshows : occupancy.Shows (some reference) none) :
    ¬occupancy.HasPoint reference.Includes := by
  cases reference with
  | column column => exact Lists.nil_iff.mp hshows
  | step column step => exact Lists.nil_iff.mp hshows
  | point site =>
      rintro ⟨other, rfl, hsome⟩
      rw [Option.map_eq_none_iff.mp hshows.symm] at hsome
      cases hsome
  | unit site unit =>
      rintro ⟨other, rfl, hsome⟩
      rw [Option.map_eq_none_iff.mp hshows.symm] at hsome
      cases hsome

theorem Shows.cases {reference : Reference} {element : Element}
    (hshows : occupancy.Shows (some reference) (some element)) :
    (∃ entries, element = .region entries ∧ entries ≠ [] ∧
        occupancy.Lists reference.Includes entries ∧ reference.site? = none) ∨
      (∃ site point, reference = .point site ∧ element = .point point ∧
        occupancy site = some point) ∨
      ∃ site unit point, reference = .unit site unit ∧ element = .unit point unit ∧
        occupancy site = some point := by
  cases reference with
  | point site =>
      obtain ⟨point, hpoint, rfl⟩ := Option.map_eq_some_iff.mp hshows.symm
      exact Or.inr (Or.inl ⟨site, point, rfl, rfl, hpoint⟩)
  | unit site unit =>
      obtain ⟨point, hpoint, rfl⟩ := Option.map_eq_some_iff.mp hshows.symm
      exact Or.inr (Or.inr ⟨site, unit, point, rfl, rfl, hpoint⟩)
  | column column =>
      cases element with
      | region entries => exact Or.inl ⟨entries, rfl, hshows.1, hshows.2, rfl⟩
      | point => cases hshows
      | unit => cases hshows
  | step column step =>
      cases element with
      | region entries => exact Or.inl ⟨entries, rfl, hshows.1, hshows.2, rfl⟩
      | point => cases hshows
      | unit => cases hshows

theorem Shows.hasPoint {reference : Reference} {element : Element}
    (hshows : occupancy.Shows (some reference) (some element)) :
    occupancy.HasPoint reference.Includes := by
  rcases hshows.cases with ⟨entries, -, hentries, hlists, -⟩ | ⟨site, point, rfl, -, hpoint⟩ |
    ⟨site, unit, point, rfl, -, hpoint⟩
  · exact hlists.hasPoint hentries
  · exact ⟨site, rfl, Option.isSome_of_eq_some hpoint⟩
  · exact ⟨site, rfl, Option.isSome_of_eq_some hpoint⟩

theorem covers_of_region {region : Reference} (hregion : region.site? = none) (site : Site)
    (unit : FunctionalUnit) : region.Covers site unit ↔ region.Includes site := by
  cases region <;> first | exact Iff.rfl | cases hregion

theorem Shows.isEmpty_iff {reference : Reference} {element : Element}
    (hshows : occupancy.Shows (some reference) (some element)) :
    element.isEmpty = true ↔
      ∀ site unit task, reference.Covers site unit → ¬occupancy.Has site unit task := by
  simp only [has_iff]
  rcases hshows.cases with ⟨entries, rfl, -, hlists, hregion⟩ | ⟨site, point, rfl, rfl, hpoint⟩ |
    ⟨site, unit, point, rfl, rfl, hpoint⟩
  · simp only [Element.isEmpty, List.all_eq_true, Prod.forall, hlists.mem_iff, Point.isEmpty_iff,
      covers_of_region hregion]
    constructor
    · rintro hempty site unit task hsite ⟨point, hpoint, hholds⟩
      exact hempty _ point ⟨site, hsite, hpoint, rfl⟩ unit task hholds
    · rintro hnone place point ⟨site, hsite, hpoint, -⟩ unit task hholds
      exact hnone site unit task hsite ⟨point, hpoint, hholds⟩
  · simp only [Element.isEmpty, Point.isEmpty_iff]
    constructor
    · rintro hempty _ unit task rfl ⟨found, hfound, hholds⟩
      cases hpoint.symm.trans hfound
      exact hempty unit task hholds
    · exact fun hnone unit task hholds => hnone site unit task rfl ⟨point, hpoint, hholds⟩
  · simp only [Element.isEmpty, Point.isUnitEmpty_iff]
    constructor
    · rintro hempty _ _ task ⟨rfl, rfl⟩ ⟨found, hfound, hholds⟩
      cases hpoint.symm.trans hfound
      exact hempty task hholds
    · exact fun hnone task hholds => hnone site unit task ⟨rfl, rfl⟩ ⟨point, hpoint, hholds⟩

end Occupancy

namespace Hardware

variable {hardware : Hardware}

theorem compare_siteAt {left right : Cell} (hless : left.place < right.place)
    (hright : hardware.HasCell right) :
    (hardware.siteAt left).place.compare (hardware.siteAt right).place = .lt := by
  change List.compareLex Position.compare
    (positionsAt hardware.levels (left.place / hardware.pointsPerColumn) ++ _)
    (positionsAt hardware.levels (right.place / hardware.pointsPerColumn) ++ _) = .lt
  rcases div_lt_or_mod_lt hardware.pointsPerColumn hless with hcolumn | ⟨hcolumn, hwithin⟩
  · apply compareLex_append_of_lt
    · rw [length_positionsAt, length_positionsAt]
    · exact compare_positionsAt hcolumn (Nat.lt_of_lt_of_le hright.columnOf_lt (word_le _))
  · rw [hcolumn, compareLex_append_left]
    simp only [List.compareLex_cons_cons, Position.compare_scalar, Ordering.then_eq_lt,
      Nat.compare_eq_lt, Nat.compare_eq_eq, siteAt]
    exact (div_lt_or_mod_lt hardware.phases hwithin).imp_right fun hboth =>
      ⟨hboth.1, Or.inl hboth.2⟩

theorem named_eq_ok {place : Coordinate} {reference : Option Reference}
    (hnamed : hardware.named place = .ok reference) : hardware.reference? place = reference := by
  unfold named at hnamed
  split at hnamed
  case isTrue => cases hnamed
  case isFalse => exact Except.ok.inj hnamed

/-- A coordinate of the space levels alone names a column or nothing. -/
theorem reference_of_space {place : Coordinate} {reference : Option Reference}
    (hreference : hardware.reference? (place.take hardware.spaceDepth) = reference) :
    reference = none ∨ reference = some (.column (place.take hardware.spaceDepth)) := by
  have hrest : (place.take hardware.spaceDepth).levels.drop hardware.spaceDepth = [] :=
    List.drop_take_self
  have htake : (place.take hardware.spaceDepth).take hardware.spaceDepth =
      place.take hardware.spaceDepth := by
    simp only [Coordinate.take, List.take_take, Nat.min_self]
  unfold reference? at hreference
  rw [hrest, htake] at hreference
  split at hreference
  · exact Or.inr hreference.symm
  · exact Or.inl hreference.symm

theorem point_of_depth {place : Coordinate} {reference : Reference}
    (hdepth : place.depth = hardware.spaceDepth + 2)
    (hreference : hardware.reference? place = some reference) :
    ∃ site, reference = .point site := by
  have hrest : (place.levels.drop hardware.spaceDepth).length = 2 := by
    rw [List.length_drop]
    exact (congrArg (· - hardware.spaceDepth) hdepth).trans (Nat.add_sub_cancel_left _ _)
  unfold reference? at hreference
  split at hreference
  case isFalse => cases hreference
  case isTrue =>
    obtain ⟨step, phase, htime⟩ := List.length_eq_two.mp hrest
    rw [htime] at hreference
    obtain ⟨step, -, hreference⟩ := Option.bind_eq_some_iff.mp hreference
    obtain ⟨phase, -, hreference⟩ := Option.bind_eq_some_iff.mp hreference
    cases hreference
    exact ⟨_, rfl⟩

end Hardware

namespace Grid

open Hardware

variable {grid : Grid} {occupancy : Occupancy}

theorem region_ascending (grid : Grid) (start stop : Nat) :
    (grid.region start stop).Pairwise fun earlier later =>
      earlier.1.compare later.1 = .lt := by
  rw [Grid.region, List.pairwise_filterMap]
  refine List.Pairwise.imp ?_ List.pairwise_lt_range'
  intro earlier later hless entry hentry other hother
  obtain ⟨point, -, rfl⟩ := Option.map_eq_some_iff.mp hentry
  obtain ⟨otherPoint, hpoint, rfl⟩ := Option.map_eq_some_iff.mp hother
  have hcell : grid.hardware.HasCell ⟨later⟩ := hasCell_of_pointAt? hpoint
  exact @compare_siteAt grid.hardware ⟨earlier⟩ ⟨later⟩ hless hcell

namespace Charts

variable (hcharts : grid.Charts occupancy)
include hcharts

theorem pointAt?_eq {cell : Cell} (hcell : grid.hardware.HasCell cell) :
    grid.pointAt? cell = occupancy (grid.hardware.siteAt cell) := by
  rw [← hcharts.point _ hcell.hasSite, hcell.cellOf_siteAt]

theorem exists_cell {site : Site} {point : Point} (hpoint : occupancy site = some point) :
    ∃ cell, grid.hardware.HasCell cell ∧ grid.hardware.siteAt cell = site := by
  have hsite : grid.hardware.HasSite site := by
    by_contra hoff
    rw [hcharts.outside site hoff] at hpoint
    cases hpoint
  exact ⟨_, hsite.hasCell hcharts.bounded, hsite.siteAt_cellOf hcharts.bounded⟩

/-- The cells between two places list the points of the sites between them. -/
theorem lists_region {start stop : Nat} {region : Site → Prop}
    (hregion : ∀ cell, grid.hardware.HasCell cell →
      (region (grid.hardware.siteAt cell) ↔ start ≤ cell.place ∧ cell.place < stop)) :
    occupancy.Lists region (grid.region start stop) := by
  constructor
  case ascending => exact grid.region_ascending start stop
  case mem_iff =>
    intro place point
    rw [mem_region]
    constructor
    · rintro ⟨cell, hstart, hstop, hpoint, hplace⟩
      have hcell := hasCell_of_pointAt? hpoint
      have hsite := (hregion cell hcell).mpr ⟨hstart, hstop⟩
      exact ⟨_, hsite, hcharts.pointAt?_eq hcell ▸ hpoint, hplace⟩
    · rintro ⟨site, hsite, hpoint, hplace⟩
      obtain ⟨cell, hcell, rfl⟩ := hcharts.exists_cell hpoint
      obtain ⟨hstart, hstop⟩ := (hregion cell hcell).mp hsite
      exact ⟨cell, hstart, hstop, (hcharts.pointAt?_eq hcell).trans hpoint, hplace⟩

theorem lists_points : occupancy.Lists (fun _ => True) grid.points :=
  hcharts.lists_region fun _ hcell =>
    iff_of_true trivial ⟨Nat.zero_le _, Nat.lt_of_lt_of_eq hcell grid.size_cells.symm⟩

theorem column_siteAt {column : Coordinate} (hcolumn : grid.hardware.IsColumn column) {cell : Cell}
    (hcell : grid.hardware.HasCell cell) :
    (grid.hardware.siteAt cell).column = column ↔
      grid.hardware.columnOf cell = grid.hardware.number column := by
  constructor
  · rintro rfl
    exact (number_positionsAt hcell.columnOf_lt).symm
  · intro hnumber
    rw [hcolumn.positionsAt hcharts.bounded.columns, ← hnumber]
    rfl

theorem lists_column {column : Coordinate} (hcolumn : grid.hardware.IsColumn column) :
    occupancy.Lists (Reference.column column).Includes
      (grid.region (grid.hardware.columnStart (grid.hardware.number column))
        (grid.hardware.columnStart (grid.hardware.number column + 1))) := by
  have hnumber := hcharts.bounded.columns.number_lt hcolumn
  apply hcharts.lists_region
  intro cell hcell
  exact (hcharts.column_siteAt hcolumn hcell).trans (hcharts.bounded.columnOf_eq_iff hnumber hcell)

theorem lists_step {column : Coordinate} {step : Nat} (hcolumn : grid.hardware.IsColumn column)
    (hstep : step < grid.hardware.steps) :
    occupancy.Lists (Reference.step column step).Includes
      (grid.region (grid.hardware.stepStart (grid.hardware.number column) step)
        (word (grid.hardware.stepStart (grid.hardware.number column) step +
          grid.hardware.phases))) := by
  have hbounded := hcharts.bounded
  obtain ⟨hstart, hstop⟩ := hbounded.stepStart_eq (hbounded.columns.number_lt hcolumn) hstep
  rw [hstop, hstart]
  apply hcharts.lists_region
  intro cell hcell
  have hphases := hcell.phases_pos
  have hsteps : 0 < grid.hardware.steps := Nat.zero_lt_of_lt hcell.stepOf_lt
  calc
    (Reference.step column step).Includes (grid.hardware.siteAt cell)
        ↔ cell.place / grid.hardware.phases / grid.hardware.steps = grid.hardware.number column ∧
            cell.place / grid.hardware.phases % grid.hardware.steps = step := by
          refine and_congr ?_ ?_
          · rw [Nat.div_div_eq_div_mul, Nat.mul_comm, ← hbounded.pointsPerColumn_eq]
            exact hcharts.column_siteAt hcolumn hcell
          · rw [← Nat.mod_mul_left_div_self, ← hbounded.pointsPerColumn_eq]
            exact Iff.rfl
    _ ↔ cell.place / grid.hardware.phases =
            step + grid.hardware.steps * grid.hardware.number column := by
          rw [Nat.div_mod_unique hsteps, and_iff_left hstep]
          exact eq_comm
    _ ↔ _ := by
          rw [Nat.div_eq_iff hphases, Nat.succ_mul]
          omega

theorem residents : occupancy.ListsTasks grid.residents := by
  apply hcharts.lists_points.residents (grid.spaceDepth + 2)
  intro entry hentry
  obtain ⟨place, point⟩ := entry
  obtain ⟨cell, -, -, -, rfl⟩ := mem_region.mp hentry
  exact grid.depth_coordinateAt cell.place

theorem reading_element (place : Coordinate) :
    grid.hardware.Reading place (grid.element? place) fun reference found =>
      ∃ element, found = .ok element ∧ occupancy.Shows reference element := by
  unfold Hardware.Reading Grid.element?
  rw [resolve_eq]
  cases hnamed : grid.hardware.named place with
  | error error => exact rfl
  | ok reference =>
      refine ⟨_, rfl, ?_⟩
      cases reference with
      | none => exact rfl
      | some reference =>
          have hinside := hasReference_of_named hnamed
          cases reference with
          | column column => exact (hcharts.lists_column hinside).shows rfl
          | step column step => exact (hcharts.lists_step hinside.1 hinside.2).shows rfl
          | point site => exact congrArg (Option.map Element.point) (hcharts.point site hinside)
          | unit site unit =>
              exact congrArg (Option.map (Element.unit · unit)) (hcharts.point site hinside)

theorem reading_column (place : Coordinate) :
    grid.hardware.Reading (place.take grid.spaceDepth) (grid.column? place) fun reference found =>
      ∃ entries, found = .ok entries ∧ occupancy.Shows reference (entries.map .region) := by
  have helement := hcharts.reading_element (place.take grid.spaceDepth)
  unfold Hardware.Reading at helement ⊢
  unfold Grid.column?
  cases hnamed : grid.hardware.named (place.take grid.spaceDepth) with
  | error error =>
      rw [hnamed] at helement
      rw [helement]
      rfl
  | ok reference =>
      rw [hnamed] at helement
      obtain ⟨element, hfound, hshows⟩ := helement
      rw [hfound]
      refine ⟨_, rfl, ?_⟩
      rcases reference_of_space (named_eq_ok hnamed) with rfl | rfl
      · rw [hshows]
        rfl
      · cases element with
        | none => exact hshows
        | some element => cases element <;> first | exact hshows | cases hshows

theorem point?_eq (place : Coordinate) :
    grid.point? place =
      if place.depth < grid.spaceDepth + 2 then .error (.contract place .timeRequired)
      else .ok ((grid.hardware.reference? (place.take (grid.spaceDepth + 2))).bind
        fun reference => reference.site?.bind occupancy) := by
  unfold Grid.point?
  split
  case isTrue => rfl
  case isFalse hdeep =>
    have hdepth : (place.take (grid.spaceDepth + 2)).depth = grid.spaceDepth + 2 :=
      List.length_take_of_le (Nat.not_lt.mp hdeep)
    have hspace : ¬(place.take (grid.spaceDepth + 2)).depth < grid.hardware.spaceDepth := by
      rw [hdepth]
      exact Nat.not_lt.mpr (Nat.le_add_right _ 2)
    rw [resolve_eq, Hardware.named, if_neg hspace]
    cases hreference : grid.hardware.reference? (place.take (grid.spaceDepth + 2)) with
    | none => rfl
    | some reference =>
        obtain ⟨site, rfl⟩ := point_of_depth hdepth hreference
        exact congrArg Except.ok (hcharts.point site (hasReference hreference))

theorem reading_isEmpty (place : Coordinate) :
    grid.hardware.Reading place (grid.isEmpty place) (occupancy.Judges place) := by
  have helement := hcharts.reading_element place
  unfold Hardware.Reading at helement ⊢
  unfold Grid.isEmpty
  cases hnamed : grid.hardware.named place with
  | error error =>
      rw [hnamed] at helement
      rw [helement]
      rfl
  | ok reference =>
      rw [hnamed] at helement
      obtain ⟨element, hfound, hshows⟩ := helement
      rw [hfound]
      cases element with
      | none =>
          cases reference with
          | none => rfl
          | some reference =>
              refine ⟨fun _ => rfl, fun hpoint => ?_⟩
              exact absurd hpoint hshows.no_point
      | some element =>
          cases reference with
          | none => cases hshows
          | some reference =>
              refine ⟨fun hnone => absurd hshows.hasPoint hnone, fun _ => ?_⟩
              exact ⟨_, rfl, hshows.isEmpty_iff⟩

end Charts

end Grid

end TiledPlacement

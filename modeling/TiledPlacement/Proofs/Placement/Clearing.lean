import TiledPlacement.Proofs.Placement.Routes
import TiledPlacement.Proofs.Placement.Seating

/-!
Removal of a whole column. Its residents are taken out in the order in which they are listed, under
their plain coordinates; a task that is recorded under another coordinate stops the command, and
those before it are out by then. If all of them are out, the points follow.
-/

namespace TiledPlacement

open Execution

namespace Placement

/-- What is left of `origin` when some tasks have been taken out. -/
structure TakenOut (origin : Placement) (taken : List TaskId) (left : Placement) : Prop where
  reseated : Reseated origin left
  routes : left.whereabouts.routes = origin.whereabouts.routes
  coordinate : ∀ task, left.coordinate? task =
    if task ∈ taken then none else origin.coordinate? task

namespace TakenOut

variable {origin left later : Placement} {taken : List TaskId}

theorem refl (hagrees : origin.Agrees) : TakenOut origin [] origin :=
  ⟨.refl hagrees, rfl, fun _ => (if_neg List.not_mem_nil).symm⟩

theorem append (hleft : TakenOut origin taken left) {task : TaskId}
    (htaken : Reassigned left task none later) : TakenOut origin (taken ++ [task]) later where
  reseated := hleft.reseated.trans htaken.reseated
  routes := htaken.routes.trans hleft.routes
  coordinate := by
    intro other
    rw [htaken.coordinate, hleft.coordinate]
    by_cases hsame : other = task
    · rw [if_pos hsame, if_pos]
      rw [hsame]
      exact List.mem_append_right _ List.mem_cons_self
    · have hmember : other ∈ taken ++ [task] ↔ other ∈ taken := by
        rw [List.mem_append, List.mem_singleton, or_iff_left hsame]
      rw [if_neg hsame]
      simp only [hmember]

/-- Residents are taken out one after the other up to the first that is recorded under another
coordinate than the one listed. -/
theorem ends_takeOuts (hleft : TakenOut origin taken left) {residents : List (Coordinate × TaskId)}
    (hplaced : ∀ resident ∈ residents, ∃ place, origin.coordinate? resident.2 = some place)
    (honce : (taken ++ residents.map Prod.snd).Nodup) :
    Ends (residents.forM fun resident => takeOut resident.1 resident.2) left
      (fun _ later => (∀ resident ∈ residents, origin.coordinate? resident.2 = some resident.1) ∧
        TakenOut origin (taken ++ residents.map Prod.snd) later)
      (fun error later => ∃ before resident rest, residents = before ++ resident :: rest ∧
        (∀ earlier ∈ before, origin.coordinate? earlier.2 = some earlier.1) ∧
          origin.coordinate? resident.2 ≠ some resident.1 ∧
            error = .grid (.notResident resident.2 resident.1) ∧
              TakenOut origin (taken ++ before.map Prod.snd) later) := by
  induction residents generalizing taken left with
  | nil =>
      rw [List.map_nil, List.append_nil]
      exact ⟨fun _ hmember => absurd hmember List.not_mem_nil, hleft⟩
  | cons first rest induction =>
      obtain ⟨place, hplace⟩ := hplaced first List.mem_cons_self
      rw [List.map_cons] at honce
      -- Each task is listed once, so those before it have not taken this one along.
      have hfresh : first.2 ∉ taken := fun hmember =>
        (List.nodup_cons.mp (List.nodup_middle.mp honce)).1 (List.mem_append_left _ hmember)
      rw [List.append_cons] at honce
      have hhere : left.coordinate? first.2 = some place := by
        rw [hleft.coordinate, if_neg hfresh, hplace]
      rw [ends_forM_cons]
      by_cases hlisted : place = first.1
      case pos =>
        rw [hlisted] at hplace hhere
        refine (ends_takeOut_placed hleft.reseated.agrees hhere).mono (fun _ middle hmiddle => ?_)
          (fun _ _ hfalse => hfalse.elim)
        refine (induction (hleft.append hmiddle) (fun resident hmember =>
          hplaced resident (List.mem_cons_of_mem _ hmember)) honce).mono
          (fun _ later hlater => ?_) (fun error later hfailed => ?_)
        · obtain ⟨hall, hlater⟩ := hlater
          rw [List.map_cons, List.append_cons]
          exact ⟨List.forall_mem_cons.mpr ⟨hplace, hall⟩, hlater⟩
        · obtain ⟨before, resident, after, rfl, hbefore, hdiffers, rfl, hlater⟩ := hfailed
          refine ⟨first :: before, resident, after, rfl,
            List.forall_mem_cons.mpr ⟨hplace, hbefore⟩, hdiffers, rfl, ?_⟩
          rw [List.map_cons, List.append_cons]
          exact hlater
      case neg =>
        refine (ends_takeOut_elsewhere hhere hlisted).mono (fun _ _ hfalse => hfalse.elim)
          (fun error later hfailed => ?_)
        obtain ⟨rfl, rfl⟩ := hfailed
        refine ⟨[], first, rest, rfl, fun _ hmember => absurd hmember List.not_mem_nil, ?_, rfl, ?_⟩
        · rw [hplace]
          exact fun hsame => hlisted (Option.some.inj hsame)
        · rw [List.map_nil, List.append_nil]
          exact hleft

end TakenOut

/-! Points. -/

/-- What is left of `origin` when the points at some listed places have been taken away. -/
structure PointsTaken (origin : Placement) (taken : List Coordinate) (left : Placement) : Prop where
  graph : left.graph = origin.graph
  whereabouts : left.whereabouts = origin.whereabouts
  frame : Grid.SameFrame origin.grid left.grid
  point : ∀ {cell}, origin.hardware.HasCell cell → left.grid.pointAt? cell =
    if origin.grid.coordinateAt cell.place ∈ taken then none else origin.grid.pointAt? cell

namespace PointsTaken

variable {origin left : Placement} {taken : List Coordinate}

theorem refl (origin : Placement) : PointsTaken origin [] origin :=
  ⟨rfl, rfl, ⟨rfl, rfl⟩, fun _ => (if_neg List.not_mem_nil).symm⟩

theorem ends_removePoint (hleft : PointsTaken origin taken left) {cell : Cell} {place : Coordinate}
    (hcell : origin.hardware.HasCell cell)
    (hplace : origin.grid.coordinateAt cell.place = place) (hfresh : place ∉ taken)
    (hpresent : (origin.grid.pointAt? cell).isSome = true) :
    Ends (changeGrid (Grid.removePoint place)) left
      (fun _ later => PointsTaken origin (taken ++ [place]) later) (fun _ _ => False) := by
  obtain ⟨point, hpoint⟩ := Option.isSome_iff_exists.mp hpresent
  have hbefore : left.grid.pointAt? cell = some point := by
    rw [hleft.point hcell, hplace, if_neg hfresh, hpoint]
  have hresolve : left.grid.resolve place = .ok (some (.point cell)) := by
    rw [hleft.frame.resolve, ← hplace, Grid.resolve_coordinateAt hcell]
  rw [ends_changeGrid]
  refine Grid.ends_removePoint_of hresolve hbefore ⟨hleft.graph, hleft.whereabouts,
    ⟨hleft.frame.hardware, hleft.frame.routes⟩, fun {other} hother => ?_⟩
  dsimp only
  rw [Grid.pointAt?_setCell hbefore]
  simp only [List.mem_append, List.mem_singleton]
  by_cases hsame : other = cell
  · rw [if_pos hsame, hsame, hplace, if_pos (Or.inr rfl)]
  · have hdiffers : origin.grid.coordinateAt other.place ≠ place := by
      intro halike
      exact hsame (Grid.listed_inj hother hcell (halike.trans hplace.symm))
    rw [if_neg hsame, hleft.point hother]
    simp only [or_iff_left hdiffers]

theorem ends_removePoints (hleft : PointsTaken origin taken left)
    {points : List (Coordinate × Point)}
    (hpoints : ∀ entry ∈ points, ∃ cell, origin.hardware.HasCell cell ∧
      origin.grid.coordinateAt cell.place = entry.1 ∧
        (origin.grid.pointAt? cell).isSome = true)
    (honce : (taken ++ points.map Prod.fst).Nodup) :
    Ends (points.forM fun entry => discard (changeGrid (Grid.removePoint entry.1))) left
      (fun _ later => PointsTaken origin (taken ++ points.map Prod.fst) later)
      (fun _ _ => False) := by
  induction points generalizing taken left with
  | nil =>
      rw [List.map_nil, List.append_nil]
      exact hleft
  | cons first rest induction =>
      obtain ⟨cell, hcell, hplace, hpresent⟩ := hpoints first List.mem_cons_self
      rw [List.map_cons] at honce ⊢
      have hfresh : first.1 ∉ taken := fun hmember =>
        (List.nodup_cons.mp (List.nodup_middle.mp honce)).1 (List.mem_append_left _ hmember)
      rw [List.append_cons] at honce ⊢
      rw [ends_forM_cons, ends_discard]
      refine (hleft.ends_removePoint hcell hplace hfresh hpresent).mono
        (fun _ middle hmiddle => ?_) (fun _ _ hfalse => hfalse)
      exact induction hmiddle (fun entry hmember =>
        hpoints entry (List.mem_cons_of_mem _ hmember)) honce

end PointsTaken

/-! Columns. -/

/-- What deleting a column is to return and to leave. -/
structure Deleted (origin : Placement) (column : Coordinate)
    (displaced : List (Coordinate × TaskId)) (left : Placement) : Prop where
  mem_iff : ∀ {place task}, (place, task) ∈ displaced ↔ origin.coordinate? task = some place ∧
    place.take origin.spaceDepth = column.take origin.spaceDepth
  once : (displaced.map Prod.snd).Nodup
  ordered : displaced.Pairwise fun earlier later => earlier.1.compare later.1 = .lt ∨
    earlier.1 = later.1 ∧ compare earlier.2 later.2 = .lt
  graph : left.graph = origin.graph
  coordinate : ∀ task, left.coordinate? task =
    if task ∈ displaced.map Prod.snd then none else origin.coordinate? task
  cleared : left.grid.column? column = .ok none
  point : ∀ {cell}, origin.hardware.HasCell cell →
    origin.hardware.columnIndex? column ≠ some (origin.hardware.columnOf cell) →
      left.grid.pointAt? cell = origin.grid.pointAt? cell
  route : ∀ {id path}, left.route? id = some path ↔ origin.route? id = some path ∧
    ∃ edge, origin.graph.edge? id = some edge ∧
      ∀ task ∈ displaced.map Prod.snd, ¬edge.Meets task
  mirrors : left.Mirrors
  alike : left.grid.routes = left.whereabouts.routes

section Column

variable {origin middle later : Placement} {column : Coordinate}

theorem Agrees.once_columnResidents (hagrees : origin.Agrees)
    (hbounded : origin.hardware.Bounded) (column : Coordinate) :
    ((Grid.residentsOf (origin.grid.columnPoints column)).map Prod.snd).Nodup := by
  rw [List.Nodup, List.pairwise_map]
  refine (Grid.columnResidents_ascending origin.grid column).imp_of_mem ?_
  intro earlier later hearlier hlater hless hsame
  obtain ⟨place, hplace, -, hearlier⟩ := (hagrees.mem_columnResidents hbounded).mp hearlier
  obtain ⟨other, hother, -, hlater⟩ := (hagrees.mem_columnResidents hbounded).mp hlater
  rw [hsame, hother] at hplace
  cases hplace
  rw [← hearlier, ← hlater, hsame] at hless
  rcases hless with hless | ⟨-, hless⟩
  · rw [@Std.ReflCmp.compare_self _ Coordinate.compare] at hless
    cases hless
  · rw [@Std.ReflCmp.compare_self TaskId compare] at hless
    cases hless

variable (hagrees : origin.Agrees) (hbounded : origin.hardware.Bounded)
  (hlisted : ∀ resident ∈ Grid.residentsOf (origin.grid.columnPoints column),
    origin.coordinate? resident.2 = some resident.1)
include hagrees hbounded hlisted

theorem plain_of_listed {task : TaskId} {place : Coordinate}
    (hplaced : origin.coordinate? task = some place)
    (hcolumn : place.take origin.spaceDepth = column.take origin.spaceDepth) :
    place.plain origin.spaceDepth = place := by
  have hmember : (place.plain origin.spaceDepth, task) ∈
      Grid.residentsOf (origin.grid.columnPoints column) :=
    (hagrees.mem_columnResidents hbounded).mpr ⟨place, hplaced, hcolumn, rfl⟩
  exact Option.some.inj ((hlisted _ hmember).symm.trans hplaced)

theorem mem_columnResidents_of_listed {task : TaskId} {place : Coordinate} :
    (place, task) ∈ Grid.residentsOf (origin.grid.columnPoints column) ↔
      origin.coordinate? task = some place ∧
        place.take origin.spaceDepth = column.take origin.spaceDepth := by
  rw [hagrees.mem_columnResidents hbounded]
  constructor
  · rintro ⟨recorded, hrecorded, hcolumn, hplain⟩
    dsimp only at hrecorded hplain
    rw [plain_of_listed hagrees hbounded hlisted hrecorded hcolumn] at hplain
    rw [← hplain]
    exact ⟨hrecorded, hcolumn⟩
  · rintro ⟨hplaced, hcolumn⟩
    exact ⟨place, hplaced, hcolumn, plain_of_listed hagrees hbounded hlisted hplaced hcolumn⟩

variable
  (htasks : TakenOut origin
    ((Grid.residentsOf (origin.grid.columnPoints column)).map Prod.snd) middle)
  (hpoints : PointsTaken middle ((origin.grid.columnPoints column).map Prod.fst) later)
include htasks hpoints

omit hlisted in
theorem pointAt?_of_taken {cell : Cell} (hcell : origin.hardware.HasCell cell) :
    later.grid.pointAt? cell =
      if origin.hardware.columnIndex? column = some (origin.hardware.columnOf cell) then none
      else origin.grid.pointAt? cell := by
  have hmiddleCell := hcell
  rw [← htasks.reseated.hardware] at hmiddleCell
  have hlistedAt : middle.grid.coordinateAt cell.place = origin.grid.coordinateAt cell.place :=
    Grid.listed_congr htasks.reseated.hardware cell.place
  rw [hpoints.point hmiddleCell, hlistedAt]
  simp only [Grid.mem_columnPlaces hbounded hcell]
  by_cases hinside : origin.hardware.columnIndex? column = some (origin.hardware.columnOf cell)
  case pos =>
    rw [if_pos hinside]
    split
    case isTrue => rfl
    case isFalse hunlisted =>
      -- A point in the column would have been listed.
      rw [← Option.not_isSome_iff_eq_none, htasks.reseated.present cell]
      exact fun hpresent => hunlisted ⟨hinside, hpresent⟩
  case neg =>
    rw [if_neg fun hlisted => hinside hlisted.1, if_neg hinside]
    -- Tasks at another column's point are not among those taken out.
    refine htasks.reseated.pointAt?_eq hagrees fun task place unit hresolve => ?_
    rw [htasks.coordinate]
    split
    case isFalse => exact Iff.rfl
    case isTrue hmember =>
      refine iff_of_false (Option.some_ne_none place).symm fun hplaced => hinside ?_
      obtain ⟨resident, hresident, rfl⟩ := List.mem_map.mp hmember
      obtain ⟨recorded, hrecorded, hcolumn, -⟩ :=
        (hagrees.mem_columnResidents hbounded).mp hresident
      obtain rfl := Option.some.inj (hrecorded.symm.trans hplaced)
      have hnumber := Grid.columnIndex?_of_resolve hbounded hresolve
      exact (Grid.columnIndex?_eq_iff hbounded.columns hnumber column).mpr hcolumn

theorem deleted_of_taken (hdepth : ¬column.depth < origin.spaceDepth)
    (hleft : (later.dropRoutesOf
      ((Grid.residentsOf (origin.grid.columnPoints column)).map Prod.snd)).Agrees) :
    Deleted origin column (Grid.residentsOf (origin.grid.columnPoints column))
      (later.dropRoutesOf ((Grid.residentsOf (origin.grid.columnPoints column)).map Prod.snd)) := by
  have hgraph : later.graph = origin.graph := hpoints.graph.trans htasks.reseated.graph
  have hhardware : later.hardware = origin.hardware :=
    hpoints.frame.hardware.trans htasks.reseated.hardware
  have hroutes : later.whereabouts.routes = origin.whereabouts.routes :=
    (congrArg Whereabouts.routes hpoints.whereabouts).trans htasks.routes
  have halike : later.grid.routes = later.whereabouts.routes := by
    rw [hpoints.frame.routes, hpoints.whereabouts, htasks.reseated.agrees.routes]
  have hpointAt : ∀ {cell}, origin.hardware.HasCell cell →
      (later.dropRoutesOf ((Grid.residentsOf (origin.grid.columnPoints column)).map
        Prod.snd)).grid.pointAt? cell =
        if origin.hardware.columnIndex? column = some (origin.hardware.columnOf cell) then none
        else origin.grid.pointAt? cell := fun hcell =>
    (pointAt?_dropRoutes later _ _).trans
      (pointAt?_of_taken hagrees hbounded htasks hpoints hcell)
  constructor
  case mem_iff => exact mem_columnResidents_of_listed hagrees hbounded hlisted
  case once => exact hagrees.once_columnResidents hbounded column
  case ordered => exact Grid.columnResidents_ascending origin.grid column
  case graph => exact (graph_dropRoutes later _).trans hgraph
  case coordinate =>
    intro task
    rw [← htasks.coordinate]
    refine (coordinate?_dropRoutes later _ task).trans ?_
    rw [coordinate?, coordinate?, hpoints.whereabouts]
  case cleared =>
    have hsame := (later.hardware_dropRoutesOf
      ((Grid.residentsOf (origin.grid.columnPoints column)).map Prod.snd)).trans hhardware
    unfold hardware at hsame
    refine Grid.column?_of_no_points ?_ ?_ fun cell hcell hinside => ?_
    · rw [hsame]
      exact hbounded
    · rw [Grid.spaceDepth, hsame]
      exact hdepth
    · rw [hsame] at hcell hinside
      exact (hpointAt hcell).trans (if_pos hinside)
  case point =>
    intro cell hcell houtside
    rw [hpointAt hcell, if_neg houtside]
  case route =>
    intro id path
    rw [route?_dropRoutesOf_iff halike, hgraph, route?, route?, hroutes]
  case mirrors => exact hleft.mirrors
  case alike => exact hleft.routes

end Column

/-- How deleting a column stops: at the first resident that is recorded under another coordinate
than the plain one. Those before it are out, and points and routes are still there. -/
inductive DeletionStopped (origin : Placement) (points : List (Coordinate × Point)) :
    PlacementError → Placement → Prop
  | intro {before rest : List (Coordinate × TaskId)} {resident : Coordinate × TaskId}
      {recorded : Coordinate} {left : Placement}
      (hlisted : Grid.residentsOf points = before ++ resident :: rest)
      (hbefore : ∀ earlier ∈ before, origin.coordinate? earlier.2 = some earlier.1)
      (hrecorded : origin.coordinate? resident.2 = some recorded)
      (hplain : recorded.plain origin.spaceDepth = resident.1)
      (hdiffers : recorded ≠ resident.1)
      (htaken : TakenOut origin (before.map Prod.snd) left) :
      DeletionStopped origin points (.grid (.notResident resident.2 resident.1)) left

/-- The residents go first, then the points, and in the end the routes of the residents. -/
theorem ends_deleteColumn_takes {origin : Placement} (hagrees : origin.Agrees)
    (hbounded : origin.hardware.Bounded) {column : Coordinate}
    (hcolumn : origin.grid.column? column = .ok (some (origin.grid.columnPoints column))) :
    Ends (deleteColumn column) origin
      (fun displaced left => displaced = Grid.residentsOf (origin.grid.columnPoints column) ∧
        (∀ resident ∈ displaced, origin.coordinate? resident.2 = some resident.1) ∧
          ∃ middle later, TakenOut origin (displaced.map Prod.snd) middle ∧
            PointsTaken middle ((origin.grid.columnPoints column).map Prod.fst) later ∧
              left = later.dropRoutesOf (displaced.map Prod.snd))
      (DeletionStopped origin (origin.grid.columnPoints column)) := by
  have htake : origin.grid.column? (column.take origin.spaceDepth) =
      .ok (some (origin.grid.columnPoints column)) := by
    rw [← hcolumn]
    exact Grid.column?_take origin.grid column
  have hplaced : ∀ resident ∈ Grid.residentsOf (origin.grid.columnPoints column),
      ∃ place, origin.coordinate? resident.2 = some place := by
    intro resident hresident
    obtain ⟨place, hplace, -⟩ := (hagrees.mem_columnResidents hbounded).mp hresident
    exact ⟨place, hplace⟩
  have honce := hagrees.once_columnResidents hbounded column
  unfold deleteColumn
  rw [ends_bind, ends_get]
  dsimp only
  rw [htake, ends_bind, ofGrid, ends_ofExcept]
  refine ⟨fun found hfound => ?_, fun error hfailed => (by cases hfailed)⟩
  cases hfound
  dsimp only
  rw [ends_bind]
  refine ((TakenOut.refl hagrees).ends_takeOuts hplaced honce).mono (fun _ middle hmiddle => ?_)
    (fun error left hfailed => ?_)
  · obtain ⟨hlisted, hmiddle⟩ := hmiddle
    rw [List.nil_append] at hmiddle
    rw [ends_bind]
    refine ((PointsTaken.refl middle).ends_removePoints (fun entry hentry => ?_)
      (origin.grid.columnPoints_once column)).mono (fun _ later hlater => ?_)
      (fun _ _ hfalse => hfalse.elim)
    · obtain ⟨cell, hcell, -, hpoint, hplace⟩ := (Grid.mem_columnPoints hbounded).mp hentry
      refine ⟨cell, ?_, (Grid.listed_congr hmiddle.reseated.hardware _).trans hplace, ?_⟩
      · rw [hmiddle.reseated.hardware]
        exact hcell
      · rw [hmiddle.reseated.present cell, hpoint]
        rfl
    · rw [List.nil_append] at hlater
      exact ⟨rfl, hlisted, middle, later, hmiddle, hlater, rfl⟩
  · obtain ⟨before, resident, rest, hlisted, hbefore, hdiffers, rfl, htaken⟩ := hfailed
    rw [List.nil_append] at htaken
    have hresident : resident ∈ Grid.residentsOf (origin.grid.columnPoints column) := by
      rw [hlisted]
      exact List.mem_append_right _ List.mem_cons_self
    obtain ⟨recorded, hrecorded, -, hplain⟩ :=
      (hagrees.mem_columnResidents hbounded).mp hresident
    exact .intro hlisted hbefore hrecorded hplain
      (fun hsame => hdiffers (hsame ▸ hrecorded)) htaken

theorem ends_deleteColumn {origin : Placement} (hagrees : origin.Agrees)
    (hbounded : origin.hardware.Bounded) {column : Coordinate} {points : List (Coordinate × Point)}
    (hcolumn : origin.grid.column? column = .ok (some points)) :
    Ends (deleteColumn column) origin
      (fun displaced left =>
        (∀ resident ∈ Grid.residentsOf (origin.grid.columnPoints column),
          origin.coordinate? resident.2 = some resident.1) ∧
        Deleted origin column displaced left)
      (DeletionStopped origin points) := by
  obtain ⟨rfl, -, number, hnumber⟩ := Grid.columnPoints_of_column? hcolumn
  have hdepth : ¬column.depth < origin.spaceDepth :=
    Nat.not_lt.mpr (Grid.depth_of_columnIndex? hnumber)
  refine ((keeps_deleteColumn column origin hagrees).and
    (ends_deleteColumn_takes hagrees hbounded hcolumn)).mono (fun displaced left hleft => ?_)
    (fun _ _ hfailed => hfailed.2)
  obtain ⟨hleft, rfl, hlisted, middle, later, htasks, hpoints, rfl⟩ := hleft
  exact ⟨hlisted, deleted_of_taken hagrees hbounded hlisted htasks hpoints hdepth hleft⟩

/-- As long as words hold the number of cells, a column is deleted as it is to be if and only if its
tasks are recorded under plain coordinates. -/
theorem Reachable.deleteColumn_clears_iff {origin : Placement} (hreachable : origin.Reachable)
    (hbounded : origin.hardware.Bounded) {column : Coordinate} {points : List (Coordinate × Point)}
    (hcolumn : origin.grid.column? column = .ok (some points)) :
    (fails (deleteColumn column) origin = false ↔
      ∀ task place, origin.coordinate? task = some place →
        place.take origin.spaceDepth = column.take origin.spaceDepth →
          place.plain origin.spaceDepth = place) ∧
    Ends (deleteColumn column) origin (Deleted origin column) (DeletionStopped origin points) := by
  have hagrees := hreachable.agrees
  have hends := ends_deleteColumn hagrees hbounded hcolumn
  refine ⟨⟨fun hreturns task place hplaced hinside => ?_, fun hplain => ?_⟩,
    hends.mono (fun _ _ hleft => hleft.2) (fun _ _ hfailed => hfailed)⟩
  · obtain ⟨displaced, hrun⟩ := run_eq_ok hreturns
    exact plain_of_listed hagrees hbounded (hends.of_ok hrun).1 hplaced hinside
  · cases hfails : fails (deleteColumn column) origin with
    | false => rfl
    | true =>
        obtain ⟨error, hrun⟩ := run_eq_error hfails
        have hstopped := hends.of_error hrun
        cases hstopped with
        | @intro before rest resident recorded _ hlisted hbefore hrecorded hsame hdiffers htaken =>
            have hresident : resident ∈ Grid.residentsOf (origin.grid.columnPoints column) := by
              rw [(Grid.columnPoints_of_column? hcolumn).1, hlisted]
              exact List.mem_append_right _ List.mem_cons_self
            obtain ⟨place, hplace, hinside, -⟩ :=
              (hagrees.mem_columnResidents hbounded).mp hresident
            have hstays := hplain resident.2 place hplace hinside
            obtain rfl := Option.some.inj (hplace.symm.trans hrecorded)
            exact absurd (hstays.symm.trans hsame) hdiffers

theorem deleteColumn_clears_iff_routedChannel :
    ∃ left, deleteColumn (bank 1) routedChannel = .ok [(bank 1, ⟨1⟩)] left ∧
      left.coordinate? ⟨1⟩ = none ∧ left.grid.column? (bank 1) = .ok none ∧
        left.route? ⟨2⟩ = none := by
  have hcolumn : routedChannel.grid.column? (bank 1) =
      .ok (some (routedChannel.grid.columnPoints (bank 1))) := by
    rw [Grid.column?_eq, if_neg (by decide +kernel), if_neg (by decide +kernel)]
  have hreturns : returned? (deleteColumn (bank 1)) routedChannel = some [(bank 1, ⟨1⟩)] := by
    decide +kernel
  have hrun := run_eq_ok_of_returned hreturns
  have hbounded : routedChannel.hardware.Bounded := by decide +kernel
  have hdeleted :=
    (reachable_routedChannel.deleteColumn_clears_iff hbounded hcolumn).2.of_ok hrun
  refine ⟨_, hrun, (hdeleted.coordinate ⟨1⟩).trans (by decide +kernel), hdeleted.cleared, ?_⟩
  refine Option.eq_none_iff_forall_ne_some.mpr fun path hpath => ?_
  obtain ⟨-, edge, hedge, hfree⟩ := hdeleted.route.mp hpath
  cases hedge
  exact hfree ⟨1⟩ (by decide) (Or.inr rfl)

/-- Two tasks in one memory bank, the second under a coordinate with a step of two components. -/
def sharedBank : Placement :=
  channelOnChip.runAll [.putIn (bank 0) ⟨0⟩,
    .putIn ⟨[⟨[0, 0]⟩, ⟨[0, 0]⟩, ⟨[0, 9]⟩, ⟨[1]⟩, ⟨[5]⟩]⟩ ⟨1⟩]

theorem deleteColumn_stops_halfway :
    ∃ points error left, sharedBank.Reachable ∧
      sharedBank.grid.column? (bank 0) = .ok (some points) ∧
        deleteColumn (bank 0) sharedBank = .error error left ∧
          (sharedBank.coordinate? ⟨0⟩).isSome = true ∧ left.coordinate? ⟨0⟩ = none ∧
            (left.coordinate? ⟨1⟩).isSome = true := by
  have hcolumn : sharedBank.grid.column? (bank 0) =
      .ok (some (sharedBank.grid.columnPoints (bank 0))) := by
    rw [Grid.column?_eq, if_neg (by decide +kernel), if_neg (by decide +kernel)]
  have hfails : fails (deleteColumn (bank 0)) sharedBank = true := by decide +kernel
  obtain ⟨error, hrun⟩ := run_eq_error hfails
  exact ⟨_, error, _, ⟨channelOnChip, _, initial_channelOnChip, rfl⟩, hcolumn, hrun,
    by decide +kernel, by decide +kernel, by decide +kernel⟩

end Placement

end TiledPlacement

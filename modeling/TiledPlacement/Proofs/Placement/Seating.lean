import TiledPlacement.Proofs.Grid.Listing
import TiledPlacement.Proofs.Placement.Inheritance

/-!
Putting in and taking out one task, exactly. As long as grid and whereabouts agree, the coordinates
on record settle what every point holds, and so whether a task can come or go.
-/

namespace TiledPlacement

open Execution

namespace Placement

section Sitting

variable {placement : Placement} {task : TaskId} {place : Coordinate} {cell : Cell}
  {unit : FunctionalUnit}

theorem Agrees.sits_iff (hagrees : placement.Agrees) :
    placement.grid.Sits cell unit task ↔ ∃ place, placement.coordinate? task = some place ∧
      placement.grid.resolve place = .ok (some (.unit cell unit)) := by
  refine ⟨hagrees.recorded, ?_⟩
  rintro ⟨place, hplaced, hresolve⟩
  obtain ⟨found, foundUnit, hfound, hsits⟩ := hagrees.located hplaced
  cases hresolve.symm.trans hfound
  exact hsits

/-- The residents of a column are the tasks recorded there, under their plain coordinates. -/
theorem Agrees.mem_columnResidents (hagrees : placement.Agrees)
    (hbounded : placement.hardware.Bounded) {column : Coordinate}
    {resident : Coordinate × TaskId} :
    resident ∈ Grid.residentsOf (placement.grid.columnPoints column) ↔
      ∃ place, placement.coordinate? resident.2 = some place ∧
        place.take placement.spaceDepth = column.take placement.spaceDepth ∧
          place.plain placement.spaceDepth = resident.1 := by
  rw [Grid.mem_columnResidents hbounded]
  constructor
  · rintro ⟨cell, unit, hcell, hcolumn, hsits, hlisted⟩
    obtain ⟨place, hplaced, hresolve⟩ := hagrees.recorded hsits
    refine ⟨place, hplaced, ?_, (Grid.plain_eq_unitPlace hbounded hresolve).trans hlisted⟩
    have hnumber := Grid.columnIndex?_of_resolve hbounded hresolve
    exact (Grid.columnIndex?_eq_iff hbounded.columns hnumber column).mp hcolumn
  · rintro ⟨place, hplaced, hcolumn, hplain⟩
    obtain ⟨cell, unit, hresolve, hsits⟩ := hagrees.located hplaced
    have hnumber := Grid.columnIndex?_of_resolve hbounded hresolve
    refine ⟨cell, unit, Grid.hasCell_of_resolve hbounded hresolve, ?_, hsits,
      (Grid.plain_eq_unitPlace hbounded hresolve).symm.trans hplain⟩
    exact (Grid.columnIndex?_eq_iff hbounded.columns hnumber column).mpr hcolumn

/-- The grid shows each task in the unit where it is recorded, and nowhere else. -/
structure Mirrors (placement : Placement) : Prop where
  leads : ∀ {task place}, placement.coordinate? task = some place →
    ∃ cell unit, placement.grid.resolve place = .ok (some (.unit cell unit))
  sits : ∀ {cell unit task}, placement.grid.Sits cell unit task ↔
    ∃ place, placement.coordinate? task = some place ∧
      placement.grid.resolve place = .ok (some (.unit cell unit))

theorem Agrees.mirrors (hagrees : placement.Agrees) : placement.Mirrors where
  leads := by
    intro task place hplaced
    obtain ⟨cell, unit, hresolve, -⟩ := hagrees.located hplaced
    exact ⟨cell, unit, hresolve⟩
  sits := hagrees.sits_iff

theorem columnResidents_eq (placement : Placement) (column : Coordinate) :
    placement.columnResidents column =
      if column.depth < placement.spaceDepth then
        .error (.contract (column.take placement.spaceDepth)
          (.tooShallow column.depth placement.spaceDepth))
      else
        .ok (Grid.residentsOf (placement.grid.columnPoints column)) := by
  unfold columnResidents
  rw [Grid.column?_eq]
  change (if column.depth < placement.grid.spaceDepth then _ else _ : Except _ _).map _ =
    if column.depth < placement.grid.spaceDepth then _ else _
  split
  case isTrue => rfl
  case isFalse =>
    cases placement.grid.columnPoints column <;> rfl

/-- The same graph and points, with tasks in other units and perhaps fewer routes. -/
structure Reseated (origin left : Placement) : Prop where
  agrees : left.Agrees
  graph : left.graph = origin.graph
  hardware : left.hardware = origin.hardware
  present : ∀ cell, (left.grid.pointAt? cell).isSome = (origin.grid.pointAt? cell).isSome

namespace Reseated

variable {origin middle left : Placement}

theorem refl (hagrees : origin.Agrees) : Reseated origin origin := ⟨hagrees, rfl, rfl, fun _ => rfl⟩

theorem trans (hfirst : Reseated origin middle) (hrest : Reseated middle left) :
    Reseated origin left where
  agrees := hrest.agrees
  graph := hrest.graph.trans hfirst.graph
  hardware := hrest.hardware.trans hfirst.hardware
  present cell := (hrest.present cell).trans (hfirst.present cell)

theorem exists_point_iff (hreseated : Reseated origin left) (cell : Cell) :
    (∃ point, left.grid.pointAt? cell = some point) ↔
      ∃ point, origin.grid.pointAt? cell = some point := by
  simp only [← Option.isSome_iff_exists, hreseated.present cell]

theorem resolve (hreseated : Reseated origin left) (place : Coordinate) :
    left.grid.resolve place = origin.grid.resolve place :=
  Grid.resolve_congr hreseated.hardware place

theorem spaceDepth (hreseated : Reseated origin left) : left.spaceDepth = origin.spaceDepth :=
  congrArg Hardware.spaceDepth hreseated.hardware

/-- A point to which the same coordinates lead holds the same tasks. -/
theorem pointAt?_eq (hreseated : Reseated origin left) (hagrees : origin.Agrees)
    (halike : ∀ task place unit, origin.grid.resolve place = .ok (some (.unit cell unit)) →
      (left.coordinate? task = some place ↔ origin.coordinate? task = some place)) :
    left.grid.pointAt? cell = origin.grid.pointAt? cell := by
  have hsits : ∀ unit task, left.grid.Sits cell unit task ↔ origin.grid.Sits cell unit task := by
    intro unit task
    rw [hreseated.agrees.sits_iff, hagrees.sits_iff]
    refine exists_congr fun place => ?_
    rw [hreseated.resolve]
    exact and_congr_left fun hresolve => halike task place unit hresolve
  have hpresent := hreseated.present cell
  cases hbefore : origin.grid.pointAt? cell with
  | none =>
      rw [hbefore] at hpresent
      exact Option.not_isSome_iff_eq_none.mp (Bool.eq_false_iff.mp hpresent)
  | some old =>
      rw [hbefore] at hpresent
      obtain ⟨new, hnew⟩ := Option.isSome_iff_exists.mp hpresent
      rw [hnew, Option.some.injEq]
      refine Point.eq_of_holds fun unit task => ?_
      have hboth := hsits unit task
      simpa only [Grid.Sits, hnew, hbefore, Option.some.injEq, exists_eq_left'] using hboth

end Reseated

/-! Dropping routes leaves everything else. -/

theorem dropRoutes_frame (placement : Placement) (stale : EdgeId → Bool) :
    (placement.dropRoutes stale).whereabouts.coordinates = placement.whereabouts.coordinates ∧
      (placement.dropRoutes stale).grid.cells = placement.grid.cells ∧
        (placement.dropRoutes stale).grid.hardware = placement.grid.hardware := by
  unfold dropRoutes
  induction placement.grid.routes.keys.filter stale generalizing placement with
  | nil => exact ⟨rfl, rfl, rfl⟩
  | cons first rest induction => exact induction (placement.dropRoute first)

theorem coordinate?_dropRoutes (placement : Placement) (stale : EdgeId → Bool) (task : TaskId) :
    (placement.dropRoutes stale).coordinate? task = placement.coordinate? task := by
  rw [coordinate?, coordinate?, (placement.dropRoutes_frame stale).1]

theorem pointAt?_dropRoutes (placement : Placement) (stale : EdgeId → Bool) (cell : Cell) :
    (placement.dropRoutes stale).grid.pointAt? cell = placement.grid.pointAt? cell := by
  rw [Grid.pointAt?, Grid.pointAt?, (placement.dropRoutes_frame stale).2.1]

theorem coordinate?_dropRoutesOf (placement : Placement) (tasks : List TaskId) (task : TaskId) :
    (placement.dropRoutesOf tasks).coordinate? task = placement.coordinate? task :=
  coordinate?_dropRoutes placement _ task

theorem hardware_dropRoutesOf (placement : Placement) (tasks : List TaskId) :
    (placement.dropRoutesOf tasks).hardware = placement.hardware :=
  (placement.dropRoutes_frame _).2.2

theorem Reseated.dropRoutes {origin left : Placement} (hreseated : Reseated origin left)
    (stale : EdgeId → Bool) : Reseated origin (left.dropRoutes stale) where
  agrees := hreseated.agrees.dropRoutes stale
  graph := (graph_dropRoutes left stale).trans hreseated.graph
  hardware := (left.dropRoutes_frame stale).2.2.trans hreseated.hardware
  present cell := by
    rw [pointAt?_dropRoutes]
    exact hreseated.present cell

/-! One task. -/

theorem isSome_setCell {grid : Grid} {old new : Point} (hold : grid.pointAt? cell = some old)
    (other : Cell) :
    ((grid.setCell cell (some new)).pointAt? other).isSome = (grid.pointAt? other).isSome := by
  rw [Grid.pointAt?_setCell hold]
  split
  case isTrue hsame =>
    rw [hsame, hold]
    rfl
  case isFalse => rfl

/-- Nothing but the unit and the record of one task has changed. -/
structure Reassigned (origin : Placement) (task : TaskId) (place : Option Coordinate)
    (left : Placement) : Prop where
  reseated : Reseated origin left
  routes : left.whereabouts.routes = origin.whereabouts.routes
  coordinate : ∀ other, left.coordinate? other =
    if other = task then place else origin.coordinate? other

theorem Reassigned.trans {origin middle left : Placement} {place next : Option Coordinate}
    (hfirst : Reassigned origin task place middle) (hrest : Reassigned middle task next left) :
    Reassigned origin task next left where
  reseated := hfirst.reseated.trans hrest.reseated
  routes := hrest.routes.trans hfirst.routes
  coordinate := by
    intro other
    rw [hrest.coordinate, hfirst.coordinate]
    split <;> rfl

theorem ends_remove_placed (hagrees : placement.Agrees)
    (hplaced : placement.coordinate? task = some place) :
    Ends (changeGrid (Grid.removeTask place task) >>= fun _ => modify (·.forget task)) placement
      (fun _ left => Reassigned placement task none left) (fun _ _ => False) := by
  obtain ⟨cell, unit, hresolve, hsits⟩ := hagrees.located hplaced
  have hpoint : Ends (changeGrid (Grid.removeTask place task) >>= fun _ => modify (·.forget task))
      placement
      (fun _ left => left.whereabouts.routes = placement.whereabouts.routes ∧
        ∃ old new, placement.grid.pointAt? cell = some old ∧
          left.grid = placement.grid.setCell cell (some new))
      (fun _ _ => False) := by
    rw [ends_bind, ends_changeGrid]
    refine (Grid.ends_removeTask_unit hresolve task).mono (fun _ grid hgrid => ?_)
      (fun _ _ hfailed => hfailed.2 hsits)
    obtain ⟨old, new, hold, -, hnew⟩ := hgrid
    exact ⟨rfl, old, new, hold, hnew⟩
  refine ((hagrees.ends_remove hplaced).and hpoint).mono (fun _ left hleft => ?_)
    (fun _ _ hfailed => hfailed.2)
  obtain ⟨⟨hleftAgrees, hhardware, hgraph, hcoordinates, -⟩, hroutes, old, new, hold, hgrid⟩ :=
    hleft
  refine ⟨⟨hleftAgrees, hgraph, hhardware, fun other => ?_⟩, hroutes, hcoordinates⟩
  rw [hgrid]
  exact isSome_setCell hold other

/-- A task is taken out where it is recorded. -/
theorem ends_takeOut_placed (hagrees : placement.Agrees)
    (hplaced : placement.coordinate? task = some place) :
    Ends (takeOut place task) placement
      (fun _ left => Reassigned placement task none left) (fun _ _ => False) := by
  unfold takeOut
  rw [ends_bind, ends_get, hplaced]
  dsimp only
  rw [if_neg fun hdiffers => hdiffers rfl]
  exact ends_remove_placed hagrees hplaced

theorem ends_takeOut_elsewhere {recorded : Coordinate}
    (hplaced : placement.coordinate? task = some recorded) (hother : recorded ≠ place) :
    Ends (takeOut place task) placement (fun _ _ => False)
      (fun error left => left = placement ∧ error = .grid (.notResident task place)) := by
  unfold takeOut
  rw [ends_bind, ends_get, hplaced]
  dsimp only
  rw [if_pos hother]
  exact ⟨rfl, rfl⟩

theorem checkSlot_unknown (hresolve : placement.grid.resolve place = .ok (some (.unit cell unit)))
    (hblock : placement.graph.block? task = none) :
    placement.checkSlot place task = .error (.graph (.unknownTask task)) := by
  obtain ⟨hdepth, hunit, -⟩ := Grid.resolve_eq_unit_iff.mp hresolve
  have hunit : place.unit? placement.spaceDepth = some unit := hunit
  unfold checkSlot TaskGraph.block
  dsimp only
  rw [if_neg fun hdiffers => hdiffers hdepth, hunit, hblock]
  rfl

theorem checkSlot_allowed (hresolve : placement.grid.resolve place = .ok (some (.unit cell unit)))
    {block : Block} (hblock : placement.graph.block? task = some block)
    (hmay : block.payload.MayOccupy unit) : placement.checkSlot place task = .ok () := by
  obtain ⟨hdepth, hunit, -⟩ := Grid.resolve_eq_unit_iff.mp hresolve
  have hunit : place.unit? placement.spaceDepth = some unit := hunit
  unfold checkSlot TaskGraph.block
  dsimp only
  rw [if_neg fun hdiffers => hdiffers hdepth, hunit, hblock]
  dsimp only [pure_bind]
  rw [slotFault?_eq_none_iff.mpr hmay]
  rfl

/-- A task of which the graph has no block is put in nowhere. -/
theorem ends_putIn_unknown (hresolve : placement.grid.resolve place = .ok (some (.unit cell unit)))
    (hunplaced : placement.coordinate? task = none)
    (hblock : placement.graph.block? task = none) :
    Ends (putIn place task) placement (fun _ _ => False)
      (fun error left => left = placement ∧ error = .graph (.unknownTask task)) := by
  unfold putIn
  rw [ends_bind, ends_get, hunplaced]
  dsimp only
  rw [ends_bind, ends_ofExcept, checkSlot_unknown hresolve hblock]
  refine ⟨fun _ hok => absurd hok (by simp), fun _ herror => ?_⟩
  cases herror
  exact ⟨rfl, rfl⟩

/-- Why a unit does not take a task that may be in it. -/
inductive Blocked (grid : Grid) (place : Coordinate) (cell : Cell) (unit : FunctionalUnit) :
    GridError → Prop
  | absent (hpoint : grid.pointAt? cell = none) : Blocked grid place cell unit (.notFound place)
  | occupied {occupant : TaskId} (hslot : unit.isSlot = true)
      (hsits : grid.Sits cell unit occupant) :
      Blocked grid place cell unit (.occupied place unit occupant)

theorem ends_putIn_block (hagrees : placement.Agrees)
    (hresolve : placement.grid.resolve place = .ok (some (.unit cell unit)))
    (hunplaced : placement.coordinate? task = none) {block : Block}
    (hblock : placement.graph.block? task = some block) (hmay : block.payload.MayOccupy unit) :
    Ends (putIn place task) placement
      (fun _ left => Reassigned placement task (some place) left)
      (fun error left => left = placement ∧ ∃ refused, error = .grid refused ∧
        Blocked placement.grid place cell unit refused) := by
  have hpoint : Ends (putIn place task) placement
      (fun _ left => left.graph = placement.graph ∧
        left.whereabouts.routes = placement.whereabouts.routes ∧
          (∀ other, left.coordinate? other =
            if other = task then some place else placement.coordinate? other) ∧
          ∃ old new, placement.grid.pointAt? cell = some old ∧
            left.grid = placement.grid.setCell cell (some new))
      (fun error left => left = placement ∧ ∃ refused, error = .grid refused ∧
        Blocked placement.grid place cell unit refused) := by
    unfold putIn
    rw [ends_bind, ends_get, hunplaced]
    dsimp only
    rw [checkSlot_allowed hresolve hblock hmay, ends_bind, ends_ofExcept]
    refine ⟨fun _ _ => ?_, fun _ herror => absurd herror (by simp)⟩
    rw [ends_bind, ends_changeGrid]
    refine (Grid.ends_addTask_unit hresolve task).mono (fun _ grid hgrid => ?_)
      (fun error grid hgrid => ?_)
    · obtain ⟨old, new, hold, -, hnew⟩ := hgrid
      exact ⟨rfl, rfl, fun other => coordinate?_record _ task other place, old, new, hold, hnew⟩
    · obtain ⟨rfl, ⟨habsent, rfl⟩ | ⟨occupant, hslot, hsits, rfl⟩ | hsits⟩ := hgrid
      · exact ⟨rfl, _, rfl, .absent habsent⟩
      · exact ⟨rfl, _, rfl, .occupied hslot hsits⟩
      · obtain ⟨recorded, hrecorded, -⟩ := hagrees.recorded hsits
        cases hunplaced.symm.trans hrecorded
  refine ((keeps_putIn place task placement hagrees).and hpoint).mono (fun _ left hleft => ?_)
    (fun _ _ hfailed => hfailed.2)
  obtain ⟨hleftAgrees, hgraph, hroutes, hcoordinates, old, new, hold, hgrid⟩ := hleft
  refine ⟨⟨hleftAgrees, hgraph, ?_, fun other => ?_⟩, hroutes, hcoordinates⟩
  · rw [hardware, hgrid]
    rfl
  · rw [hgrid]
    exact isSome_setCell hold other

/-! A task that is taken out to go elsewhere. -/

section Elsewhere

variable {taken : Placement} (hagrees : placement.Agrees)
  (hplaced : placement.coordinate? task = some place)
  (hresolve : placement.grid.resolve place = .ok (some (.unit cell unit)))
  (htaken : Reassigned placement task none taken)
include hagrees hplaced hresolve htaken

/-- Nothing is in the way of a task that goes back to where it has been. -/
theorem not_blocked_of_taken (error : GridError) : ¬Blocked taken.grid place cell unit error := by
  obtain ⟨point, hpoint, hholds⟩ := hagrees.sits_iff.mpr ⟨place, hplaced, hresolve⟩
  intro hblocked
  cases hblocked with
  | absent hnone =>
      have hpresent := htaken.reseated.present cell
      rw [hnone, hpoint] at hpresent
      cases hpresent
  | @occupied occupant hslot hsits =>
      -- Whoever is in the slot now was there before, beside the task that has left it.
      obtain ⟨recorded, hrecorded, htakenResolve⟩ := htaken.reseated.agrees.recorded hsits
      rw [htaken.coordinate] at hrecorded
      split at hrecorded
      case isTrue => cases hrecorded
      case isFalse hdiffers =>
        rw [htaken.reseated.resolve] at htakenResolve
        obtain ⟨found, hfound, hothers⟩ :=
          hagrees.sits_iff.mpr ⟨recorded, hrecorded, htakenResolve⟩
        obtain rfl := Option.some.inj (hpoint.symm.trans hfound)
        rw [Point.holds_slot hslot] at hholds hothers
        exact hdiffers (Option.some.inj (hothers.symm.trans hholds))

/-- A task that was taken out goes to another point, or comes back with an error to be handled. It
cannot come back if the graph has no block of it. -/
theorem ends_putIn_or_back (hids : placement.graph.ids.next ≤ largestId) {target : Coordinate}
    {other : Cell} (htarget : taken.grid.resolve target = .ok (some (.unit other unit)))
    {handler : PlacementError → PlacementAction Unit} {success : Unit → Placement → Prop}
    {failure : PlacementError → Placement → Prop}
    (hmoves : ∀ later, Reassigned placement task (some target) later → success () later)
    (hreturns : ∀ error restored, Reassigned placement task (some place) restored →
      Blocked taken.grid target other unit error →
        Ends (handler (.grid error)) restored success failure)
    (hlost : placement.graph.block? task = none → failure (.graph (.unknownTask task)) taken) :
    Ends (tryCatch (putIn target task) fun error => do putIn place task; handler error) taken
      success failure := by
  have hunplaced : taken.coordinate? task = none := (htaken.coordinate task).trans (if_pos rfl)
  have hback := (htaken.reseated.resolve place).trans hresolve
  rw [ends_tryCatch]
  cases hblock : placement.graph.block? task with
  | none =>
      have hunknown : taken.graph.block? task = none := by rw [htaken.reseated.graph, hblock]
      refine (ends_putIn_unknown htarget hunplaced hunknown).mono
        (fun _ _ hfalse => hfalse.elim) (fun error refused hrefused => ?_)
      obtain ⟨rfl, rfl⟩ := hrefused
      rw [ends_bind]
      refine (ends_putIn_unknown hback hunplaced hunknown).mono
        (fun _ _ hfalse => hfalse.elim) (fun error refused hrefused => ?_)
      obtain ⟨rfl, rfl⟩ := hrefused
      exact hlost hblock
  | some block =>
      have hknown : taken.graph.block? task = some block := by rw [htaken.reseated.graph, hblock]
      have hpayload : placement.graph.payload? task = some block.payload :=
        TaskGraph.payload?_eq_some_iff.mpr ⟨block, hblock, rfl⟩
      have hmay := hagrees.allowed hids hplaced hresolve hpayload
      have htakenAgrees := htaken.reseated.agrees
      refine (ends_putIn_block htakenAgrees htarget hunplaced hknown hmay).mono
        (fun _ later hlater => hmoves later (htaken.trans hlater))
        (fun error refused hrefused => ?_)
      obtain ⟨rfl, reason, rfl, hblocked⟩ := hrefused
      rw [ends_bind]
      -- The way back is free, so only the first error is left to the handler.
      refine (ends_putIn_block htakenAgrees hback hunplaced hknown hmay).mono
        (fun _ restored hrestored => hreturns reason restored (htaken.trans hrestored) hblocked)
        (fun error _ hfailed => ?_)
      obtain ⟨-, found, -, hagain⟩ := hfailed
      exact absurd hagain (not_blocked_of_taken hagrees hplaced hresolve htaken found)

end Elsewhere

end Sitting

end Placement

end TiledPlacement

import TiledPlacement.Proofs.Placement.Seating

/-!
How far a placement is settled by what is recorded. The record says what every unit of a point
holds. So of two placements with the same graph, points and routes that record the same there is
only one.
-/

namespace TiledPlacement

open Execution

/-- Grids of the same hardware with the same routes are the same if they have the same points. -/
theorem Grid.eq_of_points {left right : Grid} (hhardware : left.hardware = right.hardware)
    (hroutes : left.routes = right.routes)
    (hpoints : ∀ cell, left.pointAt? cell = right.pointAt? cell) : left = right := by
  have hsize : left.cells.size = right.cells.size := by
    rw [left.size_cells, right.size_cells, hhardware]
  have hcells : left.cells = right.cells := by
    apply Array.ext hsize
    intro place hleft hright
    simpa [pointAt?, hleft, hright] using hpoints ⟨place⟩
  cases left
  cases right
  cases hhardware
  cases hroutes
  cases hcells
  rfl

namespace Placement

variable {origin left right : Placement}

theorem Reseated.symm (hreseated : Reseated origin left) (hagrees : origin.Agrees) :
    Reseated left origin where
  agrees := hagrees
  graph := hreseated.graph.symm
  hardware := hreseated.hardware.symm
  present cell := (hreseated.present cell).symm

theorem whereabouts_ext (hroutes : left.whereabouts.routes = right.whereabouts.routes)
    (hcoordinate : ∀ task, left.coordinate? task = right.coordinate? task) :
    left.whereabouts = right.whereabouts := by
  obtain ⟨_, _, coordinates, routes⟩ := left
  obtain ⟨_, _, others, otherRoutes⟩ := right
  cases hroutes
  obtain rfl : coordinates = others := Std.ExtTreeMap.ext_getElem? fun task => hcoordinate task
  rfl

theorem Reseated.eq_of_recorded (hreseated : Reseated origin left) (hagrees : origin.Agrees)
    (hroutes : left.whereabouts.routes = origin.whereabouts.routes)
    (hcoordinate : ∀ task, left.coordinate? task = origin.coordinate? task) : left = origin := by
  have hgridRoutes : left.grid.routes = origin.grid.routes := by
    rw [hreseated.agrees.routes, hagrees.routes, hroutes]
  have hgrid : left.grid = origin.grid := Grid.eq_of_points hreseated.hardware hgridRoutes fun _ =>
    hreseated.pointAt?_eq hagrees fun task place unit _ => by rw [hcoordinate]
  have hwhereabouts := whereabouts_ext hroutes hcoordinate
  have hgraph := hreseated.graph
  cases origin
  cases left
  cases hgraph
  cases hgrid
  cases hwhereabouts
  rfl

/-- The same graph, points and routes, with the tasks at the given places. -/
structure Rearranged (origin : Placement) (places : TaskId → Option Coordinate)
    (left : Placement) : Prop where
  reseated : Reseated origin left
  routes : left.whereabouts.routes = origin.whereabouts.routes
  coordinate : ∀ task, left.coordinate? task = places task

namespace Rearranged

variable {places others : TaskId → Option Coordinate} {task : TaskId} {place : Option Coordinate}

theorem refl (hagrees : origin.Agrees) : Rearranged origin origin.coordinate? origin :=
  ⟨.refl hagrees, rfl, fun _ => rfl⟩

theorem trans (hleft : Rearranged origin places left) (hright : Rearranged left others right) :
    Rearranged origin others right where
  reseated := hleft.reseated.trans hright.reseated
  routes := hright.routes.trans hleft.routes
  coordinate := hright.coordinate

theorem mono (hleft : Rearranged origin places left) (hplaces : ∀ task, places task = others task) :
    Rearranged origin others left :=
  { hleft with coordinate := fun task => (hleft.coordinate task).trans (hplaces task) }

theorem sits_iff (hleft : Rearranged origin places left) {cell : Cell} {unit : FunctionalUnit} :
    left.grid.Sits cell unit task ↔ ∃ place, places task = some place ∧
      origin.grid.resolve place = .ok (some (.unit cell unit)) := by
  simp only [hleft.reseated.agrees.sits_iff, hleft.coordinate, hleft.reseated.resolve]

theorem unique (hagrees : origin.Agrees) (hleft : Rearranged origin places left)
    (hright : Rearranged origin places right) : left = right := by
  have hagain := hright.reseated.symm hagrees
  exact (hagain.trans hleft.reseated).eq_of_recorded hright.reseated.agrees
    (hleft.routes.trans hright.routes.symm)
    (fun task => (hleft.coordinate task).trans (hright.coordinate task).symm)

theorem eq_origin (hagrees : origin.Agrees)
    (hleft : Rearranged origin origin.coordinate? left) : left = origin :=
  hleft.unique hagrees (.refl hagrees)

theorem of_reassigned (hreassigned : Reassigned origin task place left) :
    Rearranged origin (fun other => if other = task then place else origin.coordinate? other)
      left :=
  ⟨hreassigned.reseated, hreassigned.routes, hreassigned.coordinate⟩

end Rearranged

end Placement

end TiledPlacement

import TiledPlacement.Proofs.Grid.Filling
import TiledPlacement.Proofs.Placement.Commands

/-!
Placements that commands lead to, from one on which nothing is placed. Whatever the commands and
whichever of them fail, the grid and the whereabouts tell the same about every task.
-/

namespace TiledPlacement

open Execution

namespace Grid

/-- Nobody is on the grid, and it has no routes. -/
structure Vacant (grid : Grid) : Prop where
  residents : grid.residents = []
  routes : grid.routes = ∅

theorem vacant_ofHardware (hardware : Hardware) : (ofHardware hardware).Vacant := by
  obtain ⟨-, hroutes, hpoints⟩ := ofHardware_points hardware
  refine ⟨?_, hroutes⟩
  rw [residents, residentsOf, List.flatMap_eq_nil_iff]
  rintro ⟨place, point⟩ hentry
  obtain ⟨cell, -, -, hpoint, -⟩ := mem_region.mp hentry
  obtain rfl := hpoints cell point hpoint
  rfl

theorem Vacant.not_holds {grid : Grid} (hvacant : grid.Vacant) {cell : Cell} {point : Point}
    (hpoint : grid.pointAt? cell = some point) (unit : FunctionalUnit) (task : TaskId) :
    ¬point.holds unit task = true := by
  intro hholds
  have hinside : cell.place < grid.cells.size :=
    (hasCell_of_pointAt? hpoint).trans_eq grid.size_cells.symm
  have hlisted : (grid.coordinateAt cell.place, point) ∈ grid.points :=
    mem_region.mpr ⟨cell, Nat.zero_le _, hinside, hpoint, rfl⟩
  have hnone := List.flatMap_eq_nil_iff.mp hvacant.residents _ hlisted
  have hresident := List.mem_map_of_mem (f := fun entry : FunctionalUnit × TaskId =>
    ((grid.coordinateAt cell.place).push (.scalar entry.1.index), entry.2))
    (Point.mem_residents_iff.mpr hholds)
  dsimp only at hnone
  rw [hnone] at hresident
  cases hresident

theorem Vacant.not_sits {grid : Grid} (hvacant : grid.Vacant) (cell : Cell) (unit : FunctionalUnit)
    (task : TaskId) : ¬grid.Sits cell unit task := by
  rintro ⟨point, hpoint, hholds⟩
  exact hvacant.not_holds hpoint unit task hholds

end Grid

namespace Placement

inductive Command
  | putIn (place : Coordinate) (task : TaskId)
  | takeOut (place : Coordinate) (task : TaskId)
  | moveTask (task : TaskId) (target : Coordinate)
  | putGroupIn (place : Coordinate) (task : TaskId)
  | takeGroupOut (place : Coordinate) (task : TaskId)
  | moveGroup (task : TaskId) (target : Coordinate)
  | mergeColumn (columns : List Coordinate)
  | deleteColumn (place : Coordinate)
  | splitTask (task : TaskId) (vector : SplitVector)
  | splitGroup (tasks : List TaskId) (vector : SplitVector)
  /-- Edges with and without a rearrangement. -/
  | connect (connection : Connection)
  | mapEdge (edge : EdgeId) (path : List Coordinate)
  | routeEdge (edge : EdgeId)
  | routePlacedEdges

def Command.run : Command → PlacementAction Unit
  | .putIn place task => Placement.putIn place task
  | .takeOut place task => Placement.takeOut place task
  | .moveTask task target => Placement.moveTask task target
  | .putGroupIn place task => Placement.putGroupIn place task
  | .takeGroupOut place task => Placement.takeGroupOut place task
  | .moveGroup task target => Placement.moveGroup task target
  | .mergeColumn columns => discard (Placement.mergeColumn columns)
  | .deleteColumn place => discard (Placement.deleteColumn place)
  | .splitTask task vector => discard (Placement.splitTask task vector)
  | .splitGroup tasks vector => discard (Placement.splitGroup tasks vector)
  | .connect connection => discard (Placement.connect connection)
  | .mapEdge edge path => Placement.mapEdge edge path
  | .routeEdge edge => discard (Placement.routeEdge edge)
  | .routePlacedEdges => discard Placement.routePlacedEdges

theorem Command.keeps_run (command : Command) : Keeps Agrees command.run := by
  cases command with
  | putIn place task => exact keeps_putIn place task
  | takeOut place task => exact keeps_takeOut place task
  | moveTask task target => exact keeps_moveTask task target
  | putGroupIn place task => exact keeps_putGroupIn place task
  | takeGroupOut place task => exact keeps_takeGroupOut place task
  | moveGroup task target => exact keeps_moveGroup task target
  | mergeColumn columns => exact (keeps_mergeColumn columns).discard
  | deleteColumn place => exact (keeps_deleteColumn place).discard
  | splitTask task vector => exact (keeps_splitTask task vector).discard
  | splitGroup tasks vector => exact (keeps_splitGroup tasks vector).discard
  | connect connection => exact (keeps_connect connection).discard
  | mapEdge edge path => exact keeps_mapEdge edge path
  | routeEdge edge => exact (keeps_routeEdge edge).discard
  | routePlacedEdges => exact keeps_routePlacedEdges.discard

/-- The state after some commands, each run whether or not those before it failed. -/
def runAll (placement : Placement) (commands : List Command) : Placement :=
  commands.foldl (fun left command => after command.run left) placement

theorem agrees_onGrid {graph : TaskGraph} {grid : Grid} (hgraph : graph.Reachable)
    (hgrid : grid.Vacant) : (onGrid graph grid).Agrees := by
  have hnowhere : ∀ task, (onGrid graph grid).coordinate? task = none :=
    fun _ => Std.ExtTreeMap.getElem?_empty
  constructor
  case located => exact fun hplaced => (nomatch (hnowhere _).symm.trans hplaced)
  case recorded => exact fun hsits => absurd hsits (hgrid.not_sits _ _ _)
  case routes => exact hgrid.routes
  case wellFormed => exact fun _ => hgraph.wellFormed.2
  case grouped => exact hgraph.grouped
  case keyed => exact fun _ _ => hgraph.wellFormed.2.edge_id
  case covered => exact fun _ _ _ hplaced => (nomatch (hnowhere _).symm.trans hplaced)
  case allowed =>
    exact fun _ _ _ _ _ _ hplaced => (nomatch (hnowhere _).symm.trans hplaced)

theorem Agrees.runAll {placement : Placement} (hagrees : placement.Agrees)
    (commands : List Command) : (placement.runAll commands).Agrees := by
  induction commands generalizing placement with
  | nil => exact hagrees
  | cons command rest induction => exact induction (command.keeps_run.after hagrees)

/-- A placement without residents and routes, of a graph that commands on graphs lead to. -/
inductive Initial : Placement → Prop
  | onHardware {graph : TaskGraph} (hgraph : graph.Reachable) (hardware : Hardware) :
      Initial (.onHardware graph hardware)
  | onGrid {graph : TaskGraph} {grid : Grid} (hgraph : graph.Reachable) (hgrid : grid.Vacant) :
      Initial (.onGrid graph grid)

theorem Initial.vacant {placement : Placement} (hinitial : placement.Initial) :
    placement.grid.Vacant := by
  cases hinitial with
  | onHardware _ hardware => exact Grid.vacant_ofHardware hardware
  | onGrid _ hgrid => exact hgrid

theorem Initial.agrees {placement : Placement} (hinitial : placement.Initial) :
    placement.Agrees := by
  cases hinitial with
  | onHardware hgraph hardware =>
      exact agrees_onGrid hgraph (Grid.vacant_ofHardware hardware)
  | onGrid hgraph hgrid => exact agrees_onGrid hgraph hgrid

/-- Placements that commands lead to, failing ones included. -/
def Reachable (placement : Placement) : Prop :=
  ∃ (origin : Placement) (commands : List Command),
    origin.Initial ∧ origin.runAll commands = placement

theorem Initial.reachable {placement : Placement} (hinitial : placement.Initial) :
    placement.Reachable :=
  ⟨placement, [], hinitial, rfl⟩

theorem Reachable.keeps_run (command : Command) : Keeps Reachable command.run := by
  refine Keeps.of_after fun placement hreachable => ?_
  obtain ⟨origin, commands, hinitial, rfl⟩ := hreachable
  exact ⟨origin, commands ++ [command], hinitial, List.foldl_append⟩

theorem Reachable.agrees {placement : Placement} (hreachable : placement.Reachable) :
    placement.Agrees := by
  obtain ⟨origin, commands, hinitial, rfl⟩ := hreachable
  exact hinitial.agrees.runAll commands

/-- After any commands, failing ones included: a placed task is in the unit to which its full
coordinate leads; whoever sits in a unit is placed there and nowhere else; a placed block is in a
unit that its kind may occupy, unless ids have run out; and both sides record the same routes. -/
theorem runAll_lockstep {placement : Placement} (hinitial : placement.Initial)
    (commands : List Command) :
    (∀ task place, (placement.runAll commands).coordinate? task = some place →
      place.depth = (placement.runAll commands).hardware.fullDepth ∧
        ∃ cell unit,
          (placement.runAll commands).grid.resolve place = .ok (some (.unit cell unit)) ∧
            (placement.runAll commands).grid.Sits cell unit task) ∧
      (∀ cell unit task, (placement.runAll commands).grid.Sits cell unit task →
        ∃ place, (placement.runAll commands).coordinate? task = some place ∧
          (placement.runAll commands).grid.resolve place = .ok (some (.unit cell unit))) ∧
      (∀ cell other unit otherUnit task, (placement.runAll commands).grid.Sits cell unit task →
        (placement.runAll commands).grid.Sits other otherUnit task →
          cell = other ∧ unit = otherUnit) ∧
      ((placement.runAll commands).graph.ids.next ≤ largestId →
        ∀ task place cell unit block, (placement.runAll commands).coordinate? task = some place →
          (placement.runAll commands).grid.resolve place = .ok (some (.unit cell unit)) →
            (placement.runAll commands).graph.block? task = some block →
              block.payload.MayOccupy unit) ∧
      (placement.runAll commands).grid.routes =
        (placement.runAll commands).whereabouts.routes := by
  have hagrees := hinitial.agrees.runAll commands
  refine ⟨fun task place hplaced => ?_, fun cell unit task => hagrees.recorded,
    fun cell other unit otherUnit task => hagrees.sits_unique,
    fun hids task place cell unit block hplaced hresolve hblock => ?_, hagrees.routes⟩
  · obtain ⟨cell, unit, hresolve, hsits⟩ := hagrees.located hplaced
    exact ⟨(Grid.resolve_eq_unit_iff.mp hresolve).1, cell, unit, hresolve, hsits⟩
  · exact hagrees.allowed hids hplaced hresolve
      (TaskGraph.payload?_eq_some_iff.mpr ⟨block, hblock, rfl⟩)

/-- An input that was put into the memory bank of the only core sits there, where inputs may. -/
theorem runAll_lockstep_putIn :
    ∃ placement : Placement, placement.Initial ∧
      (placement.runAll [.putIn (.atTime ⟨[⟨[0, 0]⟩, ⟨[0, 0]⟩]⟩ 0 1 .memory) ⟨0⟩]).coordinate?
          ⟨0⟩ = some (.atTime ⟨[⟨[0, 0]⟩, ⟨[0, 0]⟩]⟩ 0 1 .memory) ∧
        ∃ cell unit, (placement.runAll
            [.putIn (.atTime ⟨[⟨[0, 0]⟩, ⟨[0, 0]⟩]⟩ 0 1 .memory) ⟨0⟩]).grid.Sits cell unit ⟨0⟩ ∧
          (Payload.storage ⟨.input, Shape.vector 4, .int8⟩).MayOccupy unit := by
  have hgraph : (after (TaskGraph.Command.addStorage ⟨.input, Shape.vector 4, .int8⟩).run
      (TaskGraph.empty 0)).Reachable :=
    .step _ (.empty (Nat.zero_le _)) trivial (by decide)
  refine ⟨_, .onHardware hgraph (.singleChip 1 1), rfl, ?_⟩
  obtain ⟨hlocated, -, -, hallowed, -⟩ := runAll_lockstep (.onHardware hgraph (.singleChip 1 1))
    [.putIn (.atTime ⟨[⟨[0, 0]⟩, ⟨[0, 0]⟩]⟩ 0 1 .memory) ⟨0⟩]
  obtain ⟨-, cell, unit, hresolve, hsits⟩ := hlocated ⟨0⟩ _ rfl
  exact ⟨cell, unit, hsits, hallowed (by decide) ⟨0⟩ _ cell unit _ rfl hresolve rfl⟩

end Placement

end TiledPlacement

import TiledPlacement.Placement.Command
import TiledPlacement.Proofs.Graph.Grouping
import TiledPlacement.Proofs.Graph.Reachable
import TiledPlacement.Proofs.Grid.Residence

/-!
Agreement of grid, whereabouts and graph, and the elementary changes that keep it: a task that is
put into a unit and recorded, one that is taken out and forgotten, a change of the graph, a route
recorded or dropped in both places.
-/

namespace TiledPlacement

open Execution

/-- Units that a block with the payload may be placed in. -/
def Payload.MayOccupy (payload : Payload) (unit : FunctionalUnit) : Prop :=
  match payload with
  | .computation primitive => primitive.operation.engine.accepts unit = true
  | .storage _ => unit = .memory ∨ unit.isRouter = true

namespace Placement

theorem slotFault?_eq_none_iff {block : Block} {unit : FunctionalUnit} :
    slotFault? block unit = none ↔ block.payload.MayOccupy unit := by
  unfold slotFault? Payload.MayOccupy
  cases block.payload with
  | storage storage => cases unit <;> simp
  | computation computation => simp

structure Agrees (placement : Placement) : Prop where
  located : ∀ {task place}, placement.coordinate? task = some place →
    ∃ cell unit, placement.grid.resolve place = .ok (some (.unit cell unit)) ∧
      placement.grid.Sits cell unit task
  recorded : ∀ {cell unit task}, placement.grid.Sits cell unit task →
    ∃ place, placement.coordinate? task = some place ∧
      placement.grid.resolve place = .ok (some (.unit cell unit))
  routes : placement.grid.routes = placement.whereabouts.routes
  wellFormed : placement.graph.ids.next ≤ largestId → placement.graph.WellFormed
  grouped : placement.graph.Grouped
  keyed : placement.graph.Keyed
  /-- A number that is placed will not name a new block. -/
  covered : placement.graph.ids.next ≤ largestId → ∀ {task place},
    placement.coordinate? task = some place → placement.graph.ids.Covers task.raw
  allowed : placement.graph.ids.next ≤ largestId → ∀ {task place cell unit payload},
    placement.coordinate? task = some place →
    placement.grid.resolve place = .ok (some (.unit cell unit)) →
    placement.graph.payload? task = some payload → payload.MayOccupy unit

theorem coordinate?_record (placement : Placement) (task other : TaskId) (place : Coordinate) :
    (placement.record task place).coordinate? other =
      if other = task then some place else placement.coordinate? other := by
  simp only [coordinate?, record, Std.ExtTreeMap.getElem?_insert,
    Std.LawfulEqCmp.compare_eq_iff_eq, @eq_comm _ task other]

theorem coordinate?_forget (placement : Placement) (task other : TaskId) :
    (placement.forget task).coordinate? other =
      if other = task then none else placement.coordinate? other := by
  simp only [coordinate?, forget, Std.ExtTreeMap.getElem?_erase,
    Std.LawfulEqCmp.compare_eq_iff_eq, @eq_comm _ task other]

theorem ends_changeGrid {action : GridAction α} {placement : Placement}
    {success : α → Placement → Prop} {failure : PlacementError → Placement → Prop} :
    Ends (changeGrid action) placement success failure ↔
      Ends action placement.grid (fun value grid => success value { placement with grid })
        (fun error grid => failure (.grid error) { placement with grid }) := by
  unfold Ends changeGrid
  cases action placement.grid <;> exact Iff.rfl

theorem changeGraph_eq_ok {action : GraphAction α} {placement : Placement} {value : α}
    {graph : TaskGraph} (hrun : action placement.graph = .ok value graph) :
    changeGraph action placement = .ok value { placement with graph } := by
  unfold changeGraph
  rw [hrun]

theorem ends_changeGraph {action : GraphAction α} {placement : Placement}
    {success : α → Placement → Prop} {failure : PlacementError → Placement → Prop} :
    Ends (changeGraph action) placement success failure ↔
      Ends action placement.graph (fun value graph => success value { placement with graph })
        (fun error graph => failure (.graph error) { placement with graph }) := by
  unfold Ends changeGraph
  cases action placement.graph <;> exact Iff.rfl

theorem ends_ofExcept {result : Except PlacementError α} {placement : Placement}
    {success : α → Placement → Prop} {failure : PlacementError → Placement → Prop} :
    Ends (ofExcept result) placement success failure ↔
      (∀ value, result = .ok value → success value placement) ∧
        (∀ error, result = .error error → failure error placement) := by
  cases result with
  | ok value =>
      change success value placement ↔ _
      simp
  | error error =>
      change failure error placement ↔ _
      simp

theorem keeps_ofExcept {property : Placement → Prop} (result : Except PlacementError α) :
    Keeps property (ofExcept result) :=
  fun _ hplacement => ends_ofExcept.mpr ⟨fun _ _ => hplacement, fun _ _ => hplacement⟩

theorem checkSlot_ok {placement : Placement} {place : Coordinate} {task : TaskId}
    (hcheck : placement.checkSlot place task = .ok ()) :
    ∃ unit block, place.unit? placement.spaceDepth = some unit ∧
      placement.graph.block? task = some block ∧ block.payload.MayOccupy unit := by
  unfold checkSlot at hcheck
  dsimp only at hcheck
  split at hcheck
  case isTrue => cases hcheck
  case isFalse =>
    cases hunit : place.unit? placement.spaceDepth with
    | none =>
        rw [hunit] at hcheck
        cases hcheck
    | some unit =>
        rw [hunit] at hcheck
        unfold TaskGraph.block at hcheck
        cases hblock : placement.graph.block? task with
        | none =>
            rw [hblock] at hcheck
            cases hcheck
        | some block =>
            rw [hblock] at hcheck
            dsimp only at hcheck
            cases hfault : slotFault? block unit with
            | some fault =>
                rw [hfault] at hcheck
                cases hcheck
            | none => exact ⟨unit, block, rfl, rfl, slotFault?_eq_none_iff.mp hfault⟩

namespace Agrees

variable {placement : Placement}

theorem sits_unique (hagrees : placement.Agrees) {cell other : Cell}
    {unit otherUnit : FunctionalUnit} {task : TaskId} (hsits : placement.grid.Sits cell unit task)
    (hotherSits : placement.grid.Sits other otherUnit task) : cell = other ∧ unit = otherUnit := by
  obtain ⟨place, hplace, hresolve⟩ := hagrees.recorded hsits
  obtain ⟨otherPlace, hotherPlace, hotherResolve⟩ := hagrees.recorded hotherSits
  obtain rfl := Option.some.inj (hplace.symm.trans hotherPlace)
  cases hresolve.symm.trans hotherResolve
  exact ⟨rfl, rfl⟩

/-- One task goes to the unit where it is newly recorded, or nowhere; the others stay. -/
theorem reassign (hagrees : placement.Agrees) {left : Placement} {task : TaskId}
    {place : Option Coordinate} (hframe : Grid.SameFrame placement.grid left.grid)
    (hgraph : left.graph = placement.graph)
    (hroutes : left.whereabouts.routes = placement.whereabouts.routes)
    (hcoordinate : ∀ other, left.coordinate? other =
      if other = task then place else placement.coordinate? other)
    (hothers : ∀ {cell unit other}, other ≠ task →
      (left.grid.Sits cell unit other ↔ placement.grid.Sits cell unit other))
    (htask : ∀ {cell unit}, left.grid.Sits cell unit task ↔
      ∃ target, place = some target ∧
        placement.grid.resolve target = .ok (some (.unit cell unit)))
    (hseat : ∀ {target}, place = some target → ∃ cell unit block,
      placement.grid.resolve target = .ok (some (.unit cell unit)) ∧
        placement.graph.block? task = some block ∧ block.payload.MayOccupy unit) :
    left.Agrees := by
  constructor
  case located =>
    intro other target hother
    rw [hcoordinate] at hother
    split at hother
    case isTrue hsame =>
      subst hsame
      obtain ⟨cell, unit, -, hresolve, -⟩ := hseat hother
      exact ⟨cell, unit, (hframe.resolve target).trans hresolve,
        htask.mpr ⟨target, hother, hresolve⟩⟩
    case isFalse hdiffers =>
      obtain ⟨cell, unit, hresolve, hsits⟩ := hagrees.located hother
      exact ⟨cell, unit, (hframe.resolve target).trans hresolve,
        (hothers hdiffers).mpr hsits⟩
  case recorded =>
    intro cell unit other hsits
    by_cases hsame : other = task
    · subst hsame
      obtain ⟨target, htarget, hresolve⟩ := htask.mp hsits
      exact ⟨target, (hcoordinate other).trans ((if_pos rfl).trans htarget),
        (hframe.resolve target).trans hresolve⟩
    · obtain ⟨target, htarget, hresolve⟩ :=
        hagrees.recorded ((hothers hsame).mp hsits)
      exact ⟨target, (hcoordinate other).trans ((if_neg hsame).trans htarget),
        (hframe.resolve target).trans hresolve⟩
  case routes => exact (hframe.routes.trans hagrees.routes).trans hroutes.symm
  case wellFormed =>
    rw [hgraph]
    exact hagrees.wellFormed
  case grouped =>
    rw [hgraph]
    exact hagrees.grouped
  case keyed =>
    rw [hgraph]
    exact hagrees.keyed
  case covered =>
    intro hids other target hother
    rw [hgraph] at hids ⊢
    rw [hcoordinate] at hother
    split at hother
    case isTrue hsame =>
      obtain ⟨-, -, block, -, hblock, -⟩ := hseat hother
      rw [hsame]
      exact (hagrees.wellFormed hids).block_covered hblock
    case isFalse => exact hagrees.covered hids hother
  case allowed =>
    intro hids other target cell unit payload hother hresolve hpayload
    rw [hgraph] at hids hpayload
    have hbefore := (hframe.resolve target).symm.trans hresolve
    rw [hcoordinate] at hother
    split at hother
    case isTrue hsame =>
      subst hsame
      obtain ⟨_, _, block, hseated, hblock, hmay⟩ := hseat hother
      cases hseated.symm.trans hbefore
      have hknown : placement.graph.payload? other = some block.payload :=
        TaskGraph.payload?_eq_some_iff.mpr ⟨block, hblock, rfl⟩
      cases hknown.symm.trans hpayload
      exact hmay
    case isFalse => exact hagrees.allowed hids hother hbefore hpayload

/-- A task put into a unit and recorded there. -/
theorem ends_add (hagrees : placement.Agrees) {place : Coordinate} {task : TaskId}
    (hunplaced : placement.coordinate? task = none)
    (hcheck : placement.checkSlot place task = .ok ()) :
    Ends (changeGrid (Grid.addTask place task) >>= fun _ => modify (·.record task place))
      placement (fun _ => Agrees) (fun _ => Agrees) := by
  obtain ⟨wanted, block, hwanted, hblock, hmay⟩ := checkSlot_ok hcheck
  rw [ends_bind, ends_changeGrid]
  refine (Grid.ends_addTask placement.grid place task).mono ?_ ?_
  · rintro _ grid ⟨hframe, cell, unit, hresolve, hsits⟩
    have hunit : unit = wanted := by
      have hnamed := (Grid.resolve_eq_unit_iff.mp hresolve).2.1
      exact Option.some.inj (hnamed.symm.trans hwanted)
    rw [ends_modify]
    refine hagrees.reassign hframe rfl rfl
      (fun other => coordinate?_record { placement with grid } task other place) ?_ ?_ ?_
    · intro otherCell otherUnit other hdiffers
      refine (hsits otherCell otherUnit other).trans (or_iff_right fun hsame => ?_)
      exact hdiffers hsame.2.2
    · intro otherCell otherUnit
      refine (hsits otherCell otherUnit task).trans ⟨?_, ?_⟩
      · rintro (⟨rfl, rfl, -⟩ | hold)
        · exact ⟨place, rfl, hresolve⟩
        · obtain ⟨recorded, hrecorded, -⟩ := hagrees.recorded hold
          cases hunplaced.symm.trans hrecorded
      · rintro ⟨target, htarget, hother⟩
        obtain rfl := Option.some.inj htarget
        cases hresolve.symm.trans hother
        exact Or.inl ⟨rfl, rfl, rfl⟩
    · intro target htarget
      obtain rfl := Option.some.inj htarget
      exact ⟨cell, unit, block, hresolve, hblock, hunit ▸ hmay⟩
  · rintro _ _ rfl
    exact hagrees

/-- A task taken out of the unit where it is and forgotten. -/
theorem ends_remove (hagrees : placement.Agrees) {place : Coordinate} {task : TaskId}
    (hplaced : placement.coordinate? task = some place) :
    Ends (changeGrid (Grid.removeTask place task) >>= fun _ => modify (·.forget task)) placement
      (fun _ left => left.Agrees ∧ left.hardware = placement.hardware ∧
        left.graph = placement.graph ∧
        (∀ other, left.coordinate? other =
          if other = task then none else placement.coordinate? other) ∧
        ∀ {cell unit other}, left.grid.Sits cell unit other →
          placement.grid.Sits cell unit other)
      (fun _ left => left = placement) := by
  rw [ends_bind, ends_changeGrid]
  refine (Grid.ends_removeTask placement.grid place task).mono ?_ ?_
  · rintro _ grid ⟨hframe, cell, unit, hresolve, hsits⟩
    have hcoordinates := coordinate?_forget { placement with grid } task
    rw [ends_modify]
    refine ⟨?_, hframe.hardware, rfl, hcoordinates, fun hleft =>
      ((hsits _ _ _).mp hleft).2⟩
    refine hagrees.reassign hframe rfl rfl hcoordinates ?_ ?_ fun hnone => by cases hnone
    · intro otherCell otherUnit other hdiffers
      refine (hsits otherCell otherUnit other).trans (and_iff_right fun hsame => ?_)
      exact hdiffers hsame.2.2
    · intro otherCell otherUnit
      refine (hsits otherCell otherUnit task).trans ⟨fun hboth => ?_, ?_⟩
      · -- The task was recorded at one unit only, the one that it has left.
        obtain ⟨recorded, hrecorded, hother⟩ := hagrees.recorded hboth.2
        obtain rfl := Option.some.inj (hrecorded.symm.trans hplaced)
        cases hother.symm.trans hresolve
        exact absurd ⟨rfl, rfl, rfl⟩ hboth.1
      · rintro ⟨_, hnone, -⟩
        cases hnone
  · rintro _ _ rfl
    rfl

/-- A change of the grid in which everyone stays where they are. -/
theorem withGrid (hagrees : placement.Agrees) {grid : Grid}
    (hframe : Grid.SameFrame placement.grid grid)
    (hsits : ∀ cell unit task, grid.Sits cell unit task ↔ placement.grid.Sits cell unit task) :
    Agrees { placement with grid } := by
  constructor
  case located =>
    intro task place hplaced
    obtain ⟨cell, unit, hunit, hold⟩ := hagrees.located hplaced
    exact ⟨cell, unit, (hframe.resolve place).trans hunit,
      (hsits cell unit task).mpr hold⟩
  case recorded =>
    intro cell unit task hnew
    obtain ⟨place, hplaced, hunit⟩ := hagrees.recorded ((hsits cell unit task).mp hnew)
    exact ⟨place, hplaced, (hframe.resolve place).trans hunit⟩
  case routes => exact hframe.routes.trans hagrees.routes
  case wellFormed => exact hagrees.wellFormed
  case grouped => exact hagrees.grouped
  case keyed => exact hagrees.keyed
  case covered => exact hagrees.covered
  case allowed =>
    intro hids task place cell unit payload hplaced hunit
    exact hagrees.allowed hids hplaced ((hframe.resolve place).symm.trans hunit)

/-- A change of the graph that leaves the payloads of the blocks it keeps. -/
theorem withGraph (hagrees : placement.Agrees) {graph : TaskGraph}
    (hgraph : TaskGraph.Evolves placement.graph placement.graph.ids.next graph)
    (hgrouped : graph.Grouped) (hkeyed : graph.Keyed) : Agrees { placement with graph } where
  located := hagrees.located
  recorded := hagrees.recorded
  routes := hagrees.routes
  wellFormed := hgraph.wellFormed
  grouped := hgrouped
  keyed := hkeyed
  covered hids _ _ hplaced :=
    (hagrees.covered (Nat.le_trans hgraph.later hids) hplaced).mono hgraph.later
  allowed hids _ _ _ _ _ hplaced hresolve hpayload := by
    have hbefore := Nat.le_trans hgraph.later hids
    exact hagrees.allowed hbefore hplaced hresolve
      (hgraph.payload hids (hagrees.covered hbefore hplaced) hpayload)

theorem withRoutes (hagrees : placement.Agrees) (routes : EdgeMap (List Coordinate)) :
    Agrees { placement with
      grid := { placement.grid with routes }
      whereabouts := { placement.whereabouts with routes } } := by
  have hresolve : ∀ place, Grid.resolve { placement.grid with routes } place =
      placement.grid.resolve place := fun place => Grid.resolve_congr rfl place
  constructor
  case located =>
    intro task place hplaced
    obtain ⟨cell, unit, hunit, hsits⟩ := hagrees.located hplaced
    exact ⟨cell, unit, (hresolve place).trans hunit, hsits⟩
  case recorded =>
    intro cell unit task hsits
    obtain ⟨place, hplaced, hunit⟩ := hagrees.recorded hsits
    exact ⟨place, hplaced, (hresolve place).trans hunit⟩
  case routes => rfl
  case wellFormed => exact hagrees.wellFormed
  case grouped => exact hagrees.grouped
  case keyed => exact hagrees.keyed
  case covered => exact hagrees.covered
  case allowed =>
    intro hids task place cell unit payload hplaced hunit
    exact hagrees.allowed hids hplaced ((hresolve place).symm.trans hunit)

theorem recordRoute (hagrees : placement.Agrees) (edge : EdgeId) (path : List Coordinate) :
    (placement.recordRoute edge path).Agrees := by
  have hboth := hagrees.withRoutes (placement.whereabouts.routes.insert edge path)
  rw [Placement.recordRoute, Grid.recordRoute, hagrees.routes]
  exact hboth

theorem dropRoutes (hagrees : placement.Agrees) (stale : EdgeId → Bool) :
    (placement.dropRoutes stale).Agrees := by
  have hdrop : ∀ (edges : List EdgeId) (start : Placement), start.Agrees →
      (edges.foldl Placement.dropRoute start).Agrees := by
    intro edges
    induction edges with
    | nil => exact fun _ hstart => hstart
    | cons edge rest induction =>
        intro start hstart
        refine induction _ ?_
        have hboth := hstart.withRoutes (start.whereabouts.routes.erase edge)
        rw [Placement.dropRoute, Grid.dropRoute, hstart.routes]
        exact hboth
  exact hdrop _ placement hagrees

end Agrees

end Placement

end TiledPlacement

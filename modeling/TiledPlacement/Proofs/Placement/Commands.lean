import TiledPlacement.Proofs.Placement.Agreement

/-!
Every command keeps grid, whereabouts and graph in agreement, whether it succeeds, fails at once or
stops halfway through a loop over tasks.
-/

namespace TiledPlacement

open Execution

namespace Placement

/-! A property that survives the steps of a compound command survives the command: it is enough to
look at single tasks, at single routes and at the change of the graph. -/

section Compound

variable {property : Placement → Prop}

theorem keeps_moveTask_of {task : TaskId} (hput : ∀ place, Keeps property (putIn place task))
    (htake : ∀ place, Keeps property (takeOut place task)) (target : Coordinate) :
    Keeps property (moveTask task target) := by
  unfold moveTask
  refine Keeps.get_bind fun placement hplacement => ?_
  cases placement.coordinate? task with
  | none => exact hplacement
  | some source =>
      dsimp only
      split
      case h_1 current wanted =>
        split
        case isTrue => exact hplacement
        case isFalse =>
          refine Keeps.bind (htake source) (fun _ => ?_) placement hplacement
          refine Keeps.tryCatch (hput target) fun error => ?_
          exact Keeps.bind (hput source) fun _ => Keeps.throw error
      case h_2 => exact hplacement

theorem keeps_putGroupIn_of (hput : ∀ place task, Keeps property (putIn place task))
    (place : Coordinate) (task : TaskId) : Keeps property (putGroupIn place task) := by
  unfold putGroupIn
  refine Keeps.get_bind fun placement hplacement => ?_
  refine Keeps.bind (keeps_ofExcept _) (fun operands => ?_) placement hplacement
  refine Keeps.bind (hput place task) fun _ => ?_
  exact Keeps.forM fun operand _ => hput _ operand

theorem keeps_takeOperandOut_of (htake : ∀ place task, Keeps property (takeOut place task))
    (operand : TaskId) : Keeps property (takeOperandOut operand) := by
  unfold takeOperandOut
  refine Keeps.get_bind fun placement hplacement => ?_
  cases placement.coordinate? operand with
  | none => exact hplacement
  | some place => exact htake place operand placement hplacement

theorem keeps_takeGroupOut_of (htake : ∀ place task, Keeps property (takeOut place task))
    (place : Coordinate) (task : TaskId) : Keeps property (takeGroupOut place task) := by
  unfold takeGroupOut
  refine Keeps.get_bind fun placement hplacement => ?_
  refine Keeps.bind (keeps_ofExcept _) (fun operands => ?_) placement hplacement
  refine Keeps.bind (htake place task) fun _ => ?_
  exact Keeps.forM fun operand _ => keeps_takeOperandOut_of htake operand

theorem keeps_bringOperand_of (hput : ∀ place task, Keeps property (putIn place task))
    (htake : ∀ place task, Keeps property (takeOut place task)) (memory : Coordinate)
    (operand : TaskId) : Keeps property (bringOperand memory operand) := by
  unfold bringOperand
  refine Keeps.get_bind fun placement hplacement => ?_
  split
  case isTrue =>
    refine Keeps.bind (keeps_takeOperandOut_of htake operand) (fun _ => ?_) placement hplacement
    exact hput memory operand
  case isFalse => exact hplacement

theorem keeps_moveGroup_of (hput : ∀ place task, Keeps property (putIn place task))
    (htake : ∀ place task, Keeps property (takeOut place task)) (task : TaskId)
    (target : Coordinate) : Keeps property (moveGroup task target) := by
  unfold moveGroup
  refine Keeps.get_bind fun placement hplacement => ?_
  refine Keeps.bind (keeps_ofExcept _) (fun operands => ?_) placement hplacement
  refine Keeps.bind (keeps_moveTask_of (fun place => hput place task)
    (fun place => htake place task) target) fun _ => ?_
  exact Keeps.forM fun operand _ => keeps_bringOperand_of hput htake _ operand

section Merge

variable (hput : ∀ place task, Keeps property (putIn place task))
  (htake : ∀ place task, Keeps property (takeOut place task))
  (hdrop : ∀ tasks, Keeps property (modify (·.dropRoutesOf tasks) : PlacementAction Unit))
include hput htake hdrop

theorem keeps_mergeResident_of (target : Coordinate) (moved : List TaskId)
    (resident : Coordinate × TaskId) : Keeps property (mergeResident target moved resident) := by
  obtain ⟨source, task⟩ := resident
  unfold mergeResident
  refine Keeps.get_bind fun placement hplacement => ?_
  refine Keeps.bind (htake source task) (fun _ => ?_) placement hplacement
  refine Keeps.bind (Keeps.tryCatch (hput _ task) fun error => ?_) fun _ => Keeps.pure _
  refine Keeps.bind (hput source task) fun _ => ?_
  exact Keeps.bind (hdrop moved) fun _ => Keeps.throw error

theorem keeps_mergeInto_of (target : Coordinate) (moved : List TaskId) (column : Coordinate) :
    Keeps property (mergeInto target moved column) := by
  unfold mergeInto
  refine Keeps.get_bind fun placement hplacement => ?_
  dsimp only
  split
  case isTrue => exact hplacement
  case isFalse =>
    refine Keeps.bind (keeps_ofExcept _) (fun residents => ?_) placement hplacement
    exact Keeps.foldlM moved fun moved resident _ =>
      keeps_mergeResident_of hput htake hdrop target moved resident

theorem keeps_mergeColumn_of (columns : List Coordinate) :
    Keeps property (mergeColumn columns) := by
  cases columns with
  | nil => exact Keeps.pure 0
  | cons first sources =>
      unfold mergeColumn
      refine Keeps.get_bind fun placement hplacement => ?_
      refine Keeps.bind (keeps_ofExcept _) (fun points => ?_) placement hplacement
      cases points with
      | none => exact Keeps.throw _
      | some points =>
          refine Keeps.bind (Keeps.foldlM [] fun moved column _ =>
            keeps_mergeInto_of hput htake hdrop _ moved column) fun moved => ?_
          exact Keeps.bind (hdrop moved) fun _ => Keeps.pure _

end Merge

theorem keeps_deleteColumn_of (htake : ∀ place task, Keeps property (takeOut place task))
    (hremove : ∀ place, Keeps property (changeGrid (Grid.removePoint place)))
    (hdrop : ∀ tasks, Keeps property (modify (·.dropRoutesOf tasks) : PlacementAction Unit))
    (place : Coordinate) : Keeps property (deleteColumn place) := by
  unfold deleteColumn
  refine Keeps.get_bind fun placement hplacement => ?_
  refine Keeps.bind (keeps_ofExcept _) (fun points => ?_) placement hplacement
  cases points with
  | none => exact Keeps.throw _
  | some points =>
      refine Keeps.bind (Keeps.forM fun entry _ => htake entry.1 entry.2) fun _ => ?_
      refine Keeps.bind (Keeps.forM fun entry _ => (hremove entry.1).discard) fun _ => ?_
      exact Keeps.bind (hdrop _) fun _ => Keeps.pure _

theorem keeps_routeEdge_of (hmap : ∀ id path, Keeps property (mapEdge id path)) (id : EdgeId) :
    Keeps property (routeEdge id) := by
  unfold routeEdge
  refine Keeps.get_bind fun placement hplacement => ?_
  refine Keeps.bind (keeps_ofExcept _) (fun edge => ?_) placement hplacement
  split
  case h_1 => exact Keeps.throw _
  case h_2 => exact Keeps.throw _
  case h_3 source target _ _ =>
    cases Route.between? placement.hardware source target with
    | none => exact Keeps.throw _
    | some path => exact Keeps.bind (hmap id path) fun _ => Keeps.pure path

theorem keeps_routePlacedEdges_of (hmap : ∀ id path, Keeps property (mapEdge id path)) :
    Keeps property routePlacedEdges := by
  unfold routePlacedEdges
  refine Keeps.get_bind fun placement hplacement => ?_
  refine Keeps.bind (Keeps.forM fun edge _ => ?_) (fun _ => Keeps.pure _) placement hplacement
  exact (keeps_routeEdge_of hmap edge.id).discard

theorem keeps_splitTask_of {task : TaskId} {vector : SplitVector}
    (hsplit : Keeps property (changeGraph (TaskGraph.split task vector)))
    (hevict : ∀ replaced, Keeps property (evict replaced))
    (hdrop : Keeps property (modify dropStaleRoutes : PlacementAction Unit)) :
    Keeps property (splitTask task vector) := by
  unfold splitTask
  refine Keeps.get_bind fun placement hplacement => ?_
  refine Keeps.bind hsplit (fun created => ?_) placement hplacement
  refine Keeps.bind (Keeps.forM fun replaced _ => hevict replaced) fun _ => ?_
  exact Keeps.bind hdrop fun _ => Keeps.pure created

theorem keeps_splitGroup_of {vector : SplitVector}
    (hsplit : ∀ task, Keeps property (splitTask task vector)) (tasks : List TaskId) :
    Keeps property (splitGroup tasks vector) :=
  Keeps.foldlM [] fun _ task _ => Keeps.bind (hsplit task) fun _ => Keeps.pure _

end Compound

/-! Single tasks and groups. -/

theorem keeps_putIn (place : Coordinate) (task : TaskId) : Keeps Agrees (putIn place task) := by
  unfold putIn
  refine Keeps.get_bind fun placement hagrees => ?_
  cases hplaced : placement.coordinate? task with
  | some current => exact hagrees
  | none =>
      dsimp only
      rw [ends_bind, ends_ofExcept]
      exact ⟨fun _ hcheck => hagrees.ends_add hplaced hcheck, fun _ _ => hagrees⟩

theorem ends_takeOut {placement : Placement} (hagrees : placement.Agrees) (place : Coordinate)
    (task : TaskId) :
    Ends (takeOut place task) placement
      (fun _ left => left.Agrees ∧ left.hardware = placement.hardware ∧
        left.graph = placement.graph ∧
        (∀ other, left.coordinate? other =
          if other = task then none else placement.coordinate? other) ∧
        ∀ {cell unit other}, left.grid.Sits cell unit other →
          placement.grid.Sits cell unit other)
      (fun _ left => left = placement) := by
  unfold takeOut
  rw [ends_bind, ends_get]
  cases hplaced : placement.coordinate? task with
  | none => exact rfl
  | some current =>
      dsimp only
      split
      case isTrue => exact rfl
      case isFalse hsame =>
        obtain rfl := Decidable.not_not.mp hsame
        exact hagrees.ends_remove hplaced

theorem keeps_takeOut (place : Coordinate) (task : TaskId) : Keeps Agrees (takeOut place task) := by
  intro placement hagrees
  refine (ends_takeOut hagrees place task).mono (fun _ _ hleft => hleft.1) ?_
  rintro _ _ rfl
  exact hagrees

theorem keeps_moveTask (task : TaskId) (target : Coordinate) :
    Keeps Agrees (moveTask task target) :=
  keeps_moveTask_of (fun place => keeps_putIn place task) (fun place => keeps_takeOut place task)
    target

theorem keeps_putGroupIn (place : Coordinate) (task : TaskId) :
    Keeps Agrees (putGroupIn place task) :=
  keeps_putGroupIn_of keeps_putIn place task

theorem keeps_takeGroupOut (place : Coordinate) (task : TaskId) :
    Keeps Agrees (takeGroupOut place task) :=
  keeps_takeGroupOut_of keeps_takeOut place task

theorem keeps_moveGroup (task : TaskId) (target : Coordinate) :
    Keeps Agrees (moveGroup task target) :=
  keeps_moveGroup_of keeps_putIn keeps_takeOut task target

/-! Columns. -/

theorem keeps_dropRoutesOf (tasks : List TaskId) :
    Keeps Agrees (modify (·.dropRoutesOf tasks) : PlacementAction Unit) :=
  Keeps.modify fun _ hagrees => hagrees.dropRoutes _

theorem keeps_mergeColumn (columns : List Coordinate) : Keeps Agrees (mergeColumn columns) :=
  keeps_mergeColumn_of keeps_putIn keeps_takeOut keeps_dropRoutesOf columns

private def Vacated (grid : Grid) (vacated : Cell → Prop) (placement : Placement) : Prop :=
  placement.Agrees ∧ placement.hardware = grid.hardware ∧
    ∀ cell, vacated cell → ∀ unit task, ¬placement.grid.Sits cell unit task

private theorem keeps_removePoint {grid : Grid} {vacated : Cell → Prop} {place : Coordinate}
    (hplace : ∀ cell, grid.resolve place = .ok (some (.point cell)) → vacated cell) :
    Keeps (Vacated grid vacated) (changeGrid (Grid.removePoint place)) := by
  rintro placement ⟨hagrees, hhardware, hvacant⟩
  rw [ends_changeGrid]
  refine (Grid.ends_removePoint placement.grid place).mono ?_ ?_
  · rintro _ left ⟨hframe, cell, hresolve, hsits⟩
    have hbefore := (Grid.resolve_congr hhardware.symm place).trans hresolve
    have hempty := hvacant cell (hplace cell hbefore)
    have hstay : ∀ other unit task,
        left.Sits other unit task ↔ placement.grid.Sits other unit task := by
      intro other unit task
      rw [hsits other]
      refine ⟨fun hboth => hboth.2, fun hold => ⟨?_, hold⟩⟩
      rintro rfl
      exact hempty unit task hold
    refine ⟨hagrees.withGrid hframe hstay, hframe.hardware.trans hhardware, ?_⟩
    intro other hvacated unit task hsitsLeft
    exact hvacant other hvacated unit task ((hstay other unit task).mp hsitsLeft)
  · rintro _ _ rfl
    exact ⟨hagrees, hhardware, hvacant⟩

/-- While tasks are taken out one after the other, nobody comes to sit anywhere. -/
private theorem ends_displace {placement : Placement} (hagrees : placement.Agrees)
    (displaced : List (Coordinate × TaskId)) :
    Ends (displaced.forM fun (place, task) => takeOut place task) placement
      (fun _ left => left.Agrees ∧ left.hardware = placement.hardware ∧
        (∀ {cell unit task}, left.grid.Sits cell unit task →
          placement.grid.Sits cell unit task) ∧
        (∀ task, placement.coordinate? task = none → left.coordinate? task = none) ∧
        ∀ entry ∈ displaced, left.coordinate? entry.2 = none)
      (fun _ left => left.Agrees) := by
  induction displaced generalizing placement with
  | nil =>
      exact ⟨hagrees, rfl, fun hsits => hsits, fun _ hnone => hnone,
        fun _ hentry => nomatch hentry⟩
  | cons first rest induction =>
      rw [ends_forM_cons]
      refine (ends_takeOut hagrees first.1 first.2).mono ?_ ?_
      · intro _ middle hmiddle
        obtain ⟨hmiddleAgrees, hhardware, -, hcoordinates, hfewer⟩ := hmiddle
        refine (induction hmiddleAgrees).mono (fun _ left hleft => ?_) (fun _ _ hleft => hleft)
        obtain ⟨hleftAgrees, hleftHardware, hshrunk, hstill, hgone⟩ := hleft
        have hnone : ∀ task, task = first.2 ∨ placement.coordinate? task = none →
            left.coordinate? task = none := by
          intro task htask
          apply hstill
          rw [hcoordinates]
          by_cases hsame : task = first.2
          · rw [if_pos hsame]
          · rw [if_neg hsame, htask.resolve_left hsame]
        refine ⟨hleftAgrees, hleftHardware.trans hhardware, fun hsits => hfewer (hshrunk hsits),
          fun task htask => hnone task (Or.inr htask), fun entry hentry => ?_⟩
        rcases List.mem_cons.mp hentry with hsame | hrest
        · exact hnone entry.2 (Or.inl (congrArg Prod.snd hsame))
        · exact hgone entry hrest
      · intro _ _ hleft
        rw [hleft]
        exact hagrees

theorem keeps_deleteColumn (place : Coordinate) : Keeps Agrees (deleteColumn place) := by
  unfold deleteColumn
  refine Keeps.get_bind fun placement hagrees => ?_
  dsimp only
  rw [ends_bind]
  unfold ofGrid
  rw [ends_ofExcept]
  refine ⟨fun found hfound => ?_, fun _ _ => hagrees⟩
  cases found with
  | none => exact hagrees
  | some points =>
      have hcolumn := mapError_eq_ok_iff.mp hfound
      dsimp only
      rw [ends_bind]
      refine (ends_displace hagrees (Grid.residentsOf points)).mono (fun _ left hleft => ?_)
        (fun _ _ hleft => hleft)
      obtain ⟨hleftAgrees, hhardware, hshrunk, -, hgone⟩ := hleft
      let vacated : Cell → Prop := fun cell =>
        ∃ entry ∈ points, placement.grid.resolve entry.1 = .ok (some (.point cell))
      -- Whoever still sits in the column sat there before, so they were displaced.
      have hvacated : Vacated placement.grid vacated left := by
        refine ⟨hleftAgrees, hhardware, fun cell hentries unit task hsits => ?_⟩
        obtain ⟨entry, hentry, hresolve⟩ := hentries
        obtain ⟨found, -, hpoint, hfoundResolve, -⟩ := Grid.of_mem_column hcolumn hentry
        cases hresolve.symm.trans hfoundResolve
        obtain ⟨point, hpointAt, hholds⟩ := hshrunk hsits
        obtain rfl := Option.some.inj (hpoint.symm.trans hpointAt)
        have hresident : (entry.1.push (.scalar unit.index), task) ∈ Grid.residentsOf points :=
          List.mem_flatMap.mpr ⟨entry, hentry,
            List.mem_map.mpr ⟨(unit, task), Point.mem_residents_iff.mpr hholds, rfl⟩⟩
        obtain ⟨recorded, hrecorded, -⟩ := hleftAgrees.recorded hsits
        exact nomatch (hgone _ hresident).symm.trans hrecorded
      have hremoved : Keeps (Vacated placement.grid vacated)
          (points.forM fun (entry : Coordinate × Point) =>
            discard (changeGrid (Grid.removePoint entry.1))) :=
        Keeps.forM fun entry hentry => (keeps_removePoint fun cell hresolve =>
          ⟨entry, hentry, hresolve⟩).discard
      rw [ends_bind]
      refine (hremoved left hvacated).mono (fun _ later hlater => ?_) (fun _ _ hlater => hlater.1)
      exact hlater.1.dropRoutes _

/-! Routes. -/

theorem keeps_mapEdge (id : EdgeId) (path : List Coordinate) : Keeps Agrees (mapEdge id path) := by
  unfold mapEdge
  refine Keeps.get_bind fun placement hagrees => ?_
  unfold ofGraph
  rw [ends_bind, ends_ofExcept]
  refine ⟨fun edge _ => ?_, fun _ _ => hagrees⟩
  cases placement.routeFault? edge path with
  | some fault => exact hagrees
  | none => exact hagrees.recordRoute id path

theorem keeps_routeEdge (id : EdgeId) : Keeps Agrees (routeEdge id) :=
  keeps_routeEdge_of keeps_mapEdge id

theorem keeps_routePlacedEdges : Keeps Agrees routePlacedEdges :=
  keeps_routePlacedEdges_of keeps_mapEdge

/-! Changes of the graph. -/

theorem keeps_evict (task : TaskId) : Keeps Agrees (evict task) := by
  unfold evict
  refine Keeps.get_bind fun placement hagrees => ?_
  split
  case h_1 place _ hplaced =>
    refine (hagrees.ends_remove hplaced).mono (fun _ _ hleft => hleft.1) ?_
    rintro _ _ rfl
    exact hagrees
  case h_2 => exact hagrees

theorem keeps_changeGraph {action : GraphAction α}
    (haction : ∀ {graph : TaskGraph}, (graph.ids.next ≤ largestId → graph.WellFormed) →
      Ends action graph (fun _ => TaskGraph.Evolves graph graph.ids.next)
        (fun _ => TaskGraph.Evolves graph graph.ids.next))
    (hgroups : Keeps TaskGraph.Grouped action) (hkeys : Keeps TaskGraph.Keyed action) :
    Keeps Agrees (changeGraph action) := by
  intro placement hagrees
  rw [ends_changeGraph]
  have hboth := (hgroups _ hagrees.grouped).and (hkeys _ hagrees.keyed)
  exact ((haction hagrees.wellFormed).and hboth).mono
    (fun _ _ hleft => hagrees.withGraph hleft.1 hleft.2.1 hleft.2.2)
    (fun _ _ hleft => hagrees.withGraph hleft.1 hleft.2.1 hleft.2.2)

theorem keeps_splitTask (task : TaskId) (vector : SplitVector) :
    Keeps Agrees (splitTask task vector) := by
  apply keeps_splitTask_of
  · exact keeps_changeGraph (fun hgraph => TaskGraph.ends_split_evolves hgraph task vector)
      (TaskGraph.Grouped.keeps_split task vector) (TaskGraph.Keyed.keeps_split task vector)
  · exact keeps_evict
  · exact Keeps.modify fun _ hagrees => hagrees.dropRoutes _

theorem keeps_splitGroup (tasks : List TaskId) (vector : SplitVector) :
    Keeps Agrees (splitGroup tasks vector) :=
  keeps_splitGroup_of (fun task => keeps_splitTask task vector) tasks

theorem keeps_connect (connection : Connection) : Keeps Agrees (connect connection) :=
  keeps_changeGraph (fun hgraph =>
      TaskGraph.Evolves.keeps_connect connection (Nat.le_refl _) _ (.refl hgraph))
    (TaskGraph.Grouped.keeps_connect connection) (TaskGraph.Keyed.keeps_connect connection)

end Placement

end TiledPlacement

import TiledPlacement.Proofs.Placement.Commands

/-!
What commands leave of the routes. Commands on routes leave tasks and edges where they are, and the
routes that they record join columns. The other commands record none: the routes that they leave
are old routes of old edges.
-/

namespace TiledPlacement

open Execution

namespace Placement

/-! Recording and dropping routes. -/

theorem route?_recordRoute (placement : Placement) (edge id : EdgeId) (path : List Coordinate) :
    (placement.recordRoute edge path).route? id =
      if id = edge then some path else placement.route? id := by
  simp only [route?, recordRoute, Std.ExtTreeMap.getElem?_insert,
    Std.LawfulEqCmp.compare_eq_iff_eq, @eq_comm _ edge id]

theorem route?_dropRoute (placement : Placement) (edge id : EdgeId) :
    (placement.dropRoute edge).route? id = if id = edge then none else placement.route? id := by
  simp only [route?, dropRoute, Std.ExtTreeMap.getElem?_erase, Std.LawfulEqCmp.compare_eq_iff_eq,
    @eq_comm _ edge id]

theorem route?_foldl_dropRoute (placement : Placement) (dropped : List EdgeId) (id : EdgeId) :
    (dropped.foldl dropRoute placement).route? id =
      if id ∈ dropped then none else placement.route? id := by
  induction dropped generalizing placement with
  | nil => rw [List.foldl_nil, if_neg List.not_mem_nil]
  | cons first rest induction =>
      rw [List.foldl_cons, induction, route?_dropRoute]
      by_cases hrest : id ∈ rest
      · rw [if_pos hrest, if_pos (List.mem_cons_of_mem _ hrest)]
      · simp only [List.mem_cons, hrest, if_false, or_false]

theorem route?_dropRoutes {placement : Placement}
    (halike : placement.grid.routes = placement.whereabouts.routes) (stale : EdgeId → Bool)
    (id : EdgeId) : (placement.dropRoutes stale).route? id =
      if stale id = true then none else placement.route? id := by
  rw [dropRoutes, route?_foldl_dropRoute]
  have hlisted : id ∈ placement.grid.routes.keys.filter stale ↔
      id ∈ placement.whereabouts.routes ∧ stale id = true := by
    rw [List.mem_filter, Std.ExtTreeMap.mem_keys, halike]
  by_cases hstale : stale id = true
  · rw [if_pos hstale]
    by_cases hrouted : id ∈ placement.whereabouts.routes
    · rw [if_pos (hlisted.mpr ⟨hrouted, hstale⟩)]
    · rw [if_neg fun hmember => hrouted (hlisted.mp hmember).1]
      exact Std.ExtTreeMap.getElem?_eq_none hrouted
  · rw [if_neg hstale, if_neg fun hmember => hstale (hlisted.mp hmember).2]

/-! Commands that record no routes. -/

/-- What is left of `origin` when routes are dropped, none is recorded, and no task but the
relocated ones is put anywhere. -/
structure Inherits (relocated : TaskId → Prop) (origin left : Placement) : Prop where
  hardware : left.hardware = origin.hardware
  alike : left.grid.routes = left.whereabouts.routes
  graph : TaskGraph.Evolves origin.graph origin.graph.ids.next left.graph
  route : ∀ {id path}, left.route? id = some path → origin.route? id = some path
  stays : ∀ {task place}, left.coordinate? task = some place →
    relocated task ∨ origin.coordinate? task = some place

namespace Inherits

variable {relocated : TaskId → Prop} {origin left : Placement}

theorem refl (hagrees : origin.Agrees) : Inherits relocated origin origin :=
  ⟨rfl, hagrees.routes, .refl hagrees.wellFormed, id, Or.inr⟩

theorem mono (hinherits : Inherits relocated origin left) {other : TaskId → Prop}
    (hmore : ∀ task, relocated task → other task) : Inherits other origin left :=
  { hinherits with stays := fun hplaced => (hinherits.stays hplaced).imp_left (hmore _) }

theorem withGrid (hinherits : Inherits relocated origin left) {grid : Grid}
    (hframe : Grid.SameFrame left.grid grid) : Inherits relocated origin { left with grid } :=
  { hinherits with
    hardware := hframe.hardware.trans hinherits.hardware
    alike := hframe.routes.trans hinherits.alike }

theorem withGraph (hinherits : Inherits relocated origin left) {graph : TaskGraph}
    (hgraph : TaskGraph.Evolves left.graph left.graph.ids.next graph) :
    Inherits relocated origin { left with graph } :=
  { hinherits with graph := hinherits.graph.trans hgraph (Nat.le_refl _) }

theorem record (hinherits : Inherits relocated origin left) {task : TaskId}
    (htask : relocated task) (place : Coordinate) :
    Inherits relocated origin (left.record task place) := by
  refine { hinherits with stays := fun {other otherPlace} hplaced => ?_ }
  rw [coordinate?_record] at hplaced
  split at hplaced
  case isTrue hsame =>
    rw [hsame]
    exact Or.inl htask
  case isFalse => exact hinherits.stays hplaced

theorem forget (hinherits : Inherits relocated origin left) (task : TaskId) :
    Inherits relocated origin (left.forget task) := by
  refine { hinherits with stays := fun {other otherPlace} hplaced => ?_ }
  rw [coordinate?_forget] at hplaced
  split at hplaced
  case isTrue => cases hplaced
  case isFalse => exact hinherits.stays hplaced

theorem dropRoute (hinherits : Inherits relocated origin left) (edge : EdgeId) :
    Inherits relocated origin (left.dropRoute edge) := by
  refine { hinherits with alike := ?_, route := fun {id path} hroute => ?_ }
  · change left.grid.routes.erase edge = left.whereabouts.routes.erase edge
    rw [hinherits.alike]
  · rw [route?_dropRoute] at hroute
    split at hroute
    case isTrue => cases hroute
    case isFalse => exact hinherits.route hroute

theorem dropRoutes (hinherits : Inherits relocated origin left) (stale : EdgeId → Bool) :
    Inherits relocated origin (left.dropRoutes stale) := by
  unfold Placement.dropRoutes
  induction left.grid.routes.keys.filter stale generalizing left with
  | nil => exact hinherits
  | cons first rest induction => exact induction (hinherits.dropRoute first)

theorem keeps_changeGrid {action : GridAction α} {more : Grid → α → Grid → Prop}
    (haction : ∀ grid, Ends action grid
      (fun value after => Grid.SameFrame grid after ∧ more grid value after)
      (fun _ after => after = grid)) :
    Keeps (Inherits relocated origin) (changeGrid action) := by
  intro left hinherits
  rw [ends_changeGrid]
  refine (haction left.grid).mono (fun _ _ hafter => hinherits.withGrid hafter.1) ?_
  rintro _ _ rfl
  exact hinherits

theorem keeps_forget (task : TaskId) :
    Keeps (Inherits relocated origin) (modify (·.forget task) : PlacementAction Unit) :=
  Keeps.modify fun _ hinherits => hinherits.forget task

theorem keeps_putIn {task : TaskId} (htask : relocated task) (place : Coordinate) :
    Keeps (Inherits relocated origin) (putIn place task) := by
  unfold putIn
  refine Keeps.get_bind fun placement hinherits => ?_
  cases placement.coordinate? task with
  | some current => exact hinherits
  | none =>
      refine Keeps.bind (keeps_ofExcept _) (fun _ => ?_) placement hinherits
      refine Keeps.bind (keeps_changeGrid fun grid => grid.ends_addTask place task) fun _ => ?_
      exact Keeps.modify fun _ hleft => hleft.record htask place

theorem keeps_takeOut (place : Coordinate) (task : TaskId) :
    Keeps (Inherits relocated origin) (takeOut place task) := by
  unfold takeOut
  refine Keeps.get_bind fun placement hinherits => ?_
  cases placement.coordinate? task with
  | none => exact hinherits
  | some current =>
      dsimp only
      split
      case isTrue => exact hinherits
      case isFalse =>
        exact Keeps.bind (keeps_changeGrid fun grid => grid.ends_removeTask place task)
          (fun _ => keeps_forget task) placement hinherits

theorem keeps_deleteColumn (place : Coordinate) :
    Keeps (Inherits relocated origin) (deleteColumn place) :=
  keeps_deleteColumn_of keeps_takeOut
    (fun place => keeps_changeGrid fun grid => grid.ends_removePoint place)
    (fun _ => Keeps.modify fun _ hleft => hleft.dropRoutes _) place

theorem keeps_evict (task : TaskId) : Keeps (Inherits relocated origin) (evict task) := by
  unfold evict
  refine Keeps.get_bind fun placement hinherits => ?_
  split
  case h_1 place _ _ =>
    exact Keeps.bind (keeps_changeGrid fun grid => grid.ends_removeTask place task)
      (fun _ => keeps_forget task) placement hinherits
  case h_2 => exact hinherits

theorem keeps_changeGraph {action : GraphAction α}
    (haction : ∀ {graph : TaskGraph}, (graph.ids.next ≤ largestId → graph.WellFormed) →
      Ends action graph (fun _ => TaskGraph.Evolves graph graph.ids.next)
        (fun _ => TaskGraph.Evolves graph graph.ids.next)) :
    Keeps (Inherits relocated origin) (changeGraph action) := by
  intro placement hinherits
  rw [ends_changeGraph]
  exact (haction hinherits.graph.wellFormed).mono (fun _ _ hgraph => hinherits.withGraph hgraph)
    (fun _ _ hgraph => hinherits.withGraph hgraph)

theorem keeps_splitTask (task : TaskId) (vector : SplitVector) :
    Keeps (Inherits relocated origin) (splitTask task vector) := by
  apply keeps_splitTask_of
  · exact keeps_changeGraph fun hgraph => TaskGraph.ends_split_evolves hgraph task vector
  · exact keeps_evict
  · exact Keeps.modify fun _ hinherits => hinherits.dropRoutes _

theorem keeps_connect (connection : Connection) :
    Keeps (Inherits relocated origin) (connect connection) :=
  keeps_changeGraph fun hgraph =>
    TaskGraph.Evolves.keeps_connect connection (Nat.le_refl _) _ (.refl hgraph)

theorem ends_mergeResident (target : Coordinate) {moved : List TaskId}
    (hinherits : Inherits (· ∈ moved) origin left) (resident : Coordinate × TaskId) :
    Ends (mergeResident target moved resident) left
      (fun moved later => Inherits (· ∈ moved) origin later)
      (fun _ later => Inherits (fun _ => True) origin later) := by
  obtain ⟨source, task⟩ := resident
  have hmore : Inherits (· ∈ moved ++ [task]) origin left :=
    hinherits.mono fun _ hmember => List.mem_append_left _ hmember
  have htask : task ∈ moved ++ [task] := List.mem_append_right _ List.mem_cons_self
  unfold mergeResident
  rw [ends_bind, ends_get]
  dsimp only
  rw [ends_bind]
  refine (keeps_takeOut source task left hmore).mono (fun _ taken htaken => ?_)
    (fun _ _ hlater => hlater.mono fun _ _ => trivial)
  rw [ends_bind, ends_tryCatch]
  refine (keeps_putIn htask _ taken htaken).mono (fun _ _ hlater => hlater)
    (fun error refused hrefused => ?_)
  rw [ends_bind]
  have hfree : Inherits (fun _ => True) origin refused := hrefused.mono fun _ _ => trivial
  exact (keeps_putIn trivial source refused hfree).mono
    (fun _ _ hlater => hlater.dropRoutes _) (fun _ _ hlater => hlater)

theorem ends_mergeInto (target : Coordinate) {moved : List TaskId}
    (hinherits : Inherits (· ∈ moved) origin left) (column : Coordinate) :
    Ends (mergeInto target moved column) left
      (fun moved later => Inherits (· ∈ moved) origin later)
      (fun _ later => Inherits (fun _ => True) origin later) := by
  unfold mergeInto
  rw [ends_bind, ends_get]
  dsimp only
  split
  case isTrue => exact hinherits
  case isFalse =>
    rw [ends_bind, ofGrid, ends_ofExcept]
    refine ⟨fun residents _ => ?_, fun _ _ => hinherits.mono fun _ _ => trivial⟩
    exact Ends.foldlM (fun moved resident _ middle hmiddle =>
      ends_mergeResident target hmiddle resident) hinherits

end Inherits

theorem graph_dropRoutes (placement : Placement) (stale : EdgeId → Bool) :
    (placement.dropRoutes stale).graph = placement.graph := by
  unfold dropRoutes
  induction placement.grid.routes.keys.filter stale generalizing placement with
  | nil => rfl
  | cons first rest induction => exact induction (placement.dropRoute first)

/-- No route is left of an edge that meets a relocated task. -/
def Spares (relocated : TaskId → Prop) (left : Placement) : Prop :=
  ∀ {id edge path}, left.graph.edge? id = some edge → left.route? id = some path →
    ∀ task, relocated task → ¬edge.Meets task

theorem route?_dropRoutesOf_iff {placement : Placement}
    (halike : placement.grid.routes = placement.whereabouts.routes) (tasks : List TaskId)
    {id : EdgeId} {path : List Coordinate} :
    (placement.dropRoutesOf tasks).route? id = some path ↔ placement.route? id = some path ∧
      ∃ edge, placement.graph.edge? id = some edge ∧ ∀ task ∈ tasks, ¬edge.Meets task := by
  unfold dropRoutesOf
  rw [route?_dropRoutes halike]
  cases placement.graph.edge? id with
  | none => simp
  | some edge =>
      have hfree : (∀ task ∈ tasks, ¬edge.Meets task) ↔
          ¬(edge.src.task ∈ tasks ∨ edge.dst.task ∈ tasks) := by
        constructor
        · rintro hall (hsource | htarget)
          · exact hall _ hsource (Or.inl rfl)
          · exact hall _ htarget (Or.inr rfl)
        · rintro hnone task hmember (rfl | rfl)
          · exact hnone (Or.inl hmember)
          · exact hnone (Or.inr hmember)
      simp [hfree, and_comm]

theorem spares_dropRoutesOf {placement : Placement}
    (halike : placement.grid.routes = placement.whereabouts.routes) (tasks : List TaskId) :
    Spares (· ∈ tasks) (placement.dropRoutesOf tasks) := by
  intro id edge path hedge hroute task htask
  rw [dropRoutesOf, graph_dropRoutes] at hedge
  obtain ⟨-, found, hfound, hfree⟩ := (route?_dropRoutesOf_iff halike tasks).mp hroute
  obtain rfl := Option.some.inj (hedge.symm.trans hfound)
  exact hfree task htask

theorem ends_mergeColumn {origin : Placement} (hagrees : origin.Agrees)
    (columns : List Coordinate) :
    Ends (mergeColumn columns) origin
      (fun _ left => ∃ moved : List TaskId, Inherits (· ∈ moved) origin left ∧
        Spares (· ∈ moved) left)
      (fun _ left => Inherits (fun _ => True) origin left) := by
  cases columns with
  | nil => exact ⟨[], .refl hagrees, fun _ _ _ hmember => absurd hmember List.not_mem_nil⟩
  | cons first sources =>
      unfold mergeColumn
      rw [ends_bind, ends_get, ends_bind, ofGrid, ends_ofExcept]
      refine ⟨fun points _ => ?_, fun _ _ => .refl hagrees⟩
      cases points with
      | none => exact .refl hagrees
      | some points =>
          rw [ends_bind]
          refine (Ends.foldlM (fun moved column _ middle hmiddle =>
            Inherits.ends_mergeInto _ hmiddle column) (Inherits.refl hagrees)).mono
            (fun moved left hleft => ?_) (fun _ _ hleft => hleft)
          exact ⟨moved, hleft.dropRoutes _, spares_dropRoutesOf hleft.alike moved⟩

/-! Commands on routes. -/

/-- The path leads from the column of the producer to the column of the consumer. -/
def Joins (placement : Placement) (edge : Edge) (path : List Coordinate) : Prop :=
  ∀ source target, placement.columnOf? edge.src.task = some source →
    placement.columnOf? edge.dst.task = some target →
      path.head? = some source ∧ path.getLast? = some target

theorem joins_of_routeFault? {placement : Placement} {edge : Edge} {path : List Coordinate}
    (hfault : placement.routeFault? edge path = none) : placement.Joins edge path := by
  intro source target hsource htarget
  unfold routeFault? at hfault
  split at hfault
  case isTrue => cases hfault
  case isFalse =>
    split at hfault
    case h_1 => cases hfault
    case h_2 =>
      rw [hsource, htarget] at hfault
      dsimp only at hfault
      split at hfault
      case isTrue hjoined => exact hjoined
      case isFalse => cases hfault

/-- What is left of `origin` when nothing but routes is recorded, which join columns. -/
structure Rerouted (origin left : Placement) : Prop where
  graph : left.graph = origin.graph
  hardware : left.hardware = origin.hardware
  coordinates : left.whereabouts.coordinates = origin.whereabouts.coordinates
  route : ∀ {id path}, left.route? id = some path → origin.route? id = some path ∨
    ∃ edge, origin.graph.edge? id = some edge ∧ origin.Joins edge path

namespace Rerouted

variable {origin left : Placement}

theorem refl (origin : Placement) : Rerouted origin origin := ⟨rfl, rfl, rfl, Or.inl⟩

theorem columnOf? (hrerouted : Rerouted origin left) (task : TaskId) :
    left.columnOf? task = origin.columnOf? task := by
  have hdepth : left.spaceDepth = origin.spaceDepth := congrArg Hardware.spaceDepth
    hrerouted.hardware
  rw [Placement.columnOf?, Placement.columnOf?, coordinate?, coordinate?, hrerouted.coordinates,
    hdepth]

theorem joins_iff (hrerouted : Rerouted origin left) (edge : Edge) (path : List Coordinate) :
    left.Joins edge path ↔ origin.Joins edge path := by
  unfold Joins
  rw [hrerouted.columnOf?, hrerouted.columnOf?]

theorem keeps_mapEdge (id : EdgeId) (path : List Coordinate) :
    Keeps (Rerouted origin) (mapEdge id path) := by
  unfold mapEdge
  refine Keeps.get_bind fun placement hrerouted => ?_
  rw [ends_bind, ofGraph, ends_ofExcept]
  refine ⟨fun edge hfound => ?_, fun _ _ => hrerouted⟩
  cases hfault : placement.routeFault? edge path with
  | some fault => exact hrerouted
  | none =>
      have hedge : origin.graph.edge? id = some edge := by
        rw [← hrerouted.graph]
        exact TaskGraph.edge_eq_ok_iff.mp (mapError_eq_ok_iff.mp hfound)
      have hjoins := (hrerouted.joins_iff edge path).mp (joins_of_routeFault? hfault)
      refine { hrerouted with route := fun {other taken} hroute => ?_ }
      rw [route?_recordRoute] at hroute
      split at hroute
      case isTrue hsame =>
        cases hroute
        rw [hsame]
        exact Or.inr ⟨edge, hedge, hjoins⟩
      case isFalse => exact hrerouted.route hroute

end Rerouted

end Placement

end TiledPlacement

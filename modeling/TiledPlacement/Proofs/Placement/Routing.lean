import TiledPlacement.Proofs.Hardware.Path
import TiledPlacement.Proofs.Placement.Routes

/-!
Routing of edges. A task is placed within the hierarchy, so there is a route between the columns of
two tasks as soon as both are placed, and it may be recorded.
-/

namespace TiledPlacement

open Execution

namespace Placement

variable {placement : Placement}

theorem isPlaced_iff {task : TaskId} :
    placement.isPlaced task = true ↔ ∃ place, placement.coordinate? task = some place := by
  rw [isPlaced, Std.ExtTreeMap.contains_eq_isSome_getElem?, Option.isSome_iff_exists]
  exact Iff.rfl

/-- Where a task is placed begins with a column. -/
theorem Agrees.isColumn (hagrees : placement.Agrees) {task : TaskId} {place : Coordinate}
    (hplace : placement.coordinate? task = some place) :
    placement.hardware.IsColumn (place.take placement.spaceDepth) := by
  obtain ⟨cell, unit, hresolve, -⟩ := hagrees.located hplace
  obtain ⟨-, -, column, step, phase, hreaches, -⟩ := Grid.resolve_eq_unit_iff.mp hresolve
  exact Hardware.columnIndex?_isSome_iff.mp (Option.isSome_of_eq_some hreaches.column_eq)

theorem routeFault?_of_shortest {edge : Edge} {source target : Coordinate}
    {path : List Coordinate} (hsource : placement.columnOf? edge.src.task = some source)
    (htarget : placement.columnOf? edge.dst.task = some target)
    (hpath : Route.Shortest placement.hardware source target path) :
    placement.routeFault? edge path = none := by
  have hnonempty : ¬path.isEmpty = true := by
    intro hempty
    have hhead := hpath.head
    rw [List.isEmpty_iff.mp hempty] at hhead
    cases hhead
  unfold routeFault?
  rw [if_neg hnonempty, hpath.accepted, hsource, htarget]
  exact if_pos ⟨hpath.head, hpath.last⟩

theorem ends_mapEdge {id : EdgeId} {edge : Edge} {path : List Coordinate}
    (hedge : placement.graph.edge? id = some edge)
    (hfault : placement.routeFault? edge path = none) :
    Ends (mapEdge id path) placement (fun _ left => left = placement.recordRoute id path)
      (fun _ _ => False) := by
  unfold mapEdge
  rw [ends_bind, ends_get, ends_bind, TaskGraph.edge_eq_ok_iff.mpr hedge, ofGraph, ends_ofExcept]
  refine ⟨fun found hfound => ?_, fun error herror => by cases herror⟩
  obtain rfl := Except.ok.inj (mapError_eq_ok_iff.mp hfound)
  rw [hfault]
  exact rfl

/-- Routing an edge fails only when an end is not placed, and leaves everything as it was then. -/
theorem ends_routeEdge (hagrees : placement.Agrees) {id : EdgeId} {edge : Edge}
    (hedge : placement.graph.edge? id = some edge) :
    Ends (routeEdge id) placement
      (fun path left => left = placement.recordRoute id path ∧
        ∃ source target, placement.columnOf? edge.src.task = some source ∧
          placement.columnOf? edge.dst.task = some target ∧
            Route.Shortest placement.hardware source target path)
      (fun _ left => left = placement ∧
        ¬(placement.isPlaced edge.src.task = true ∧ placement.isPlaced edge.dst.task = true)) := by
  unfold routeEdge
  rw [ends_bind, ends_get, ends_bind, TaskGraph.edge_eq_ok_iff.mpr hedge, ofGraph, ends_ofExcept]
  refine ⟨fun found hfound => ?_, fun error herror => by cases herror⟩
  obtain rfl := Except.ok.inj (mapError_eq_ok_iff.mp hfound)
  rw [isPlaced_iff, isPlaced_iff]
  split
  case h_1 hsource =>
    refine ⟨rfl, fun hplaced => ?_⟩
    obtain ⟨place, hplace⟩ := hplaced.1
    cases hsource.symm.trans hplace
  case h_2 htarget =>
    refine ⟨rfl, fun hplaced => ?_⟩
    obtain ⟨place, hplace⟩ := hplaced.2
    cases htarget.symm.trans hplace
  case h_3 source target hsource htarget =>
    cases hpath : Route.between? placement.hardware source target with
    | none =>
        -- Where a task is placed is never outside the hierarchy.
        rcases Route.between?_eq_none_iff.mp hpath with houtside | houtside
        · exact absurd (hagrees.isColumn hsource) houtside
        · exact absurd (hagrees.isColumn htarget) houtside
    | some path =>
        have hshortest := Route.shortest_of_between? hpath
        have hfirst : placement.columnOf? edge.src.task =
            some (source.take placement.spaceDepth) := by rw [columnOf?, hsource]; rfl
        have hsecond : placement.columnOf? edge.dst.task =
            some (target.take placement.spaceDepth) := by rw [columnOf?, htarget]; rfl
        dsimp only
        rw [ends_bind]
        refine (ends_mapEdge hedge (routeFault?_of_shortest hfirst hsecond hshortest)).mono
          (fun _ left hleft => ?_) (fun _ _ hfalse => hfalse.elim)
        exact ⟨hleft, _, _, hfirst, hsecond, hshortest⟩

theorem Rerouted.isPlaced {origin : Placement} (hrerouted : Rerouted origin placement)
    (task : TaskId) : placement.isPlaced task = origin.isPlaced task := by
  rw [Placement.isPlaced, Placement.isPlaced, hrerouted.coordinates]

/-- The path is a shortest one between the columns of the two ends of the edge. -/
def Carries (placement : Placement) (id : EdgeId) (path : List Coordinate) : Prop :=
  ∃ edge source target, placement.graph.edge? id = some edge ∧
    placement.columnOf? edge.src.task = some source ∧
      placement.columnOf? edge.dst.task = some target ∧
        Route.Shortest placement.hardware source target path

theorem Rerouted.carries_iff {origin : Placement} (hrerouted : Rerouted origin placement)
    (id : EdgeId) (path : List Coordinate) :
    placement.Carries id path ↔ origin.Carries id path := by
  simp only [Carries, hrerouted.graph, hrerouted.columnOf?, hrerouted.hardware]

/-- What is left of `origin` when each of the edges has been routed, old routes apart. -/
structure Routed (origin : Placement) (edges : List Edge) (left : Placement) : Prop where
  agrees : left.Agrees
  rerouted : Rerouted origin left
  route : ∀ {id path}, left.route? id = some path →
    origin.route? id = some path ∨ origin.Carries id path
  every : ∀ edge ∈ edges, ∃ path, left.route? edge.id = some path

namespace Routed

variable {origin : Placement} {edges : List Edge} {edge : Edge}

theorem ends_routeEdge (hrouted : Routed origin edges placement)
    (hedge : origin.graph.edge? edge.id = some edge)
    (hplaced : origin.isPlaced edge.src.task = true ∧ origin.isPlaced edge.dst.task = true) :
    Ends (routeEdge edge.id) placement (fun _ left => Routed origin (edges ++ [edge]) left)
      (fun _ _ => False) := by
  have hrerouted := hrouted.rerouted
  have hknown : placement.graph.edge? edge.id = some edge := by rw [hrerouted.graph, hedge]
  have hkept := keeps_routeEdge_of Rerouted.keeps_mapEdge edge.id placement hrerouted
  refine ((Placement.ends_routeEdge hrouted.agrees hknown).and hkept).mono
    (fun path left hleft => ?_) (fun _ _ hleft => ?_)
  · obtain ⟨⟨hrecorded, source, target, hsource, htarget, hshortest⟩, hlater⟩ := hleft
    have hroute : ∀ id, left.route? id = if id = edge.id then some path else placement.route? id :=
      fun id => by rw [hrecorded, route?_recordRoute]
    refine ⟨hrecorded ▸ hrouted.agrees.recordRoute edge.id path, hlater,
      fun {id taken} htaken => ?_, fun other hother => ?_⟩
    · rw [hroute] at htaken
      split at htaken
      case isTrue hsame =>
        obtain rfl := Option.some.inj htaken
        refine Or.inr ((hrerouted.carries_iff id path).mp ?_)
        exact ⟨edge, source, target, hsame ▸ hknown, hsource, htarget, hshortest⟩
      case isFalse => exact hrouted.route htaken
    · rw [hroute]
      split
      case isTrue => exact ⟨path, rfl⟩
      case isFalse hdiffers =>
        rcases List.mem_append.mp hother with hbefore | hlast
        · exact hrouted.every other hbefore
        · exact absurd (congrArg Edge.id (List.mem_singleton.mp hlast)) hdiffers
  · refine absurd ?_ hleft.1.2
    rwa [hrerouted.isPlaced, hrerouted.isPlaced]

theorem ends_routeAll {rest : List Edge} (hrouted : Routed origin edges placement)
    (hrest : ∀ edge ∈ rest, origin.graph.edge? edge.id = some edge ∧
      origin.isPlaced edge.src.task = true ∧ origin.isPlaced edge.dst.task = true) :
    Ends (rest.forM fun edge => discard (routeEdge edge.id)) placement
      (fun _ left => Routed origin (edges ++ rest) left) (fun _ _ => False) := by
  induction rest generalizing placement edges with
  | nil =>
      rw [List.append_nil]
      exact hrouted
  | cons edge rest induction =>
      obtain ⟨hedge, hplaced⟩ := hrest edge List.mem_cons_self
      rw [ends_forM_cons, ends_discard]
      refine (hrouted.ends_routeEdge hedge hplaced).mono (fun _ middle hmiddle => ?_)
        (fun _ _ hfalse => hfalse)
      rw [List.append_cons]
      exact induction hmiddle fun other hother => hrest other (List.mem_cons_of_mem _ hother)

end Routed

/-- Edges with both ends placed. -/
def readyEdges (placement : Placement) : List Edge :=
  placement.graph.edges.values.filter fun edge =>
    placement.isPlaced edge.src.task && placement.isPlaced edge.dst.task

theorem Agrees.mem_readyEdges_iff (hagrees : placement.Agrees) {edge : Edge} :
    edge ∈ placement.readyEdges ↔ placement.graph.edge? edge.id = some edge ∧
      placement.isPlaced edge.src.task = true ∧ placement.isPlaced edge.dst.task = true := by
  rw [readyEdges, List.mem_filter, Bool.and_eq_true, mem_values_iff]
  refine and_congr_left fun _ => ⟨fun hvalue => ?_, fun hedge => ⟨edge.id, hedge⟩⟩
  obtain ⟨id, hid⟩ := hvalue
  obtain rfl := hagrees.keyed id edge hid
  exact hid

theorem ends_routePlacedEdges (hagrees : placement.Agrees) :
    Ends routePlacedEdges placement
      (fun count left => count = placement.readyEdges.length ∧
        Routed placement placement.readyEdges left)
      (fun _ _ => False) := by
  unfold routePlacedEdges
  rw [ends_bind, ends_get, ends_bind]
  have hnone : Routed placement [] placement :=
    ⟨hagrees, .refl placement, Or.inl, List.forall_mem_nil _⟩
  refine (hnone.ends_routeAll fun edge hedge => hagrees.mem_readyEdges_iff.mp hedge).mono
    (fun _ _ hrouted => ?_) (fun _ _ hfalse => hfalse)
  exact ⟨rfl, hrouted⟩

/-- There is a route between two coordinates unless one lies outside the hierarchy, and it is a
shortest path. After any commands, a known edge can be routed exactly when both of its ends are
placed, along a shortest path between their columns, and routing all such edges never fails and
leaves each of them with such a path. -/
theorem Reachable.routes_shortest (hreachable : placement.Reachable) :
    (∀ hardware source target,
      (Route.between? hardware source target = none ↔
        ¬hardware.IsColumn (source.take hardware.spaceDepth) ∨
          ¬hardware.IsColumn (target.take hardware.spaceDepth)) ∧
      ∀ path, Route.between? hardware source target = some path →
        Route.Shortest hardware (source.take hardware.spaceDepth)
          (target.take hardware.spaceDepth) path) ∧
    (∀ id edge, placement.graph.edge? id = some edge →
      ((∃ path left, routeEdge id placement = .ok path left) ↔
        placement.isPlaced edge.src.task = true ∧ placement.isPlaced edge.dst.task = true) ∧
      ∀ path left, routeEdge id placement = .ok path left →
        left = placement.recordRoute id path ∧
          ∃ source target, placement.columnOf? edge.src.task = some source ∧
            placement.columnOf? edge.dst.task = some target ∧
              Route.Shortest placement.hardware source target path) ∧
    ∃ left, routePlacedEdges placement = .ok placement.readyEdges.length left ∧
      Routed placement placement.readyEdges left := by
  have hagrees := hreachable.agrees
  refine ⟨fun hardware source target => ⟨Route.between?_eq_none_iff, fun path hpath =>
    Route.shortest_of_between? hpath⟩, fun id edge hedge => ⟨⟨?_, fun hplaced => ?_⟩, ?_⟩, ?_⟩
  · rintro ⟨path, left, hrun⟩
    obtain ⟨-, source, target, hsource, htarget, -⟩ := (ends_routeEdge hagrees hedge).of_ok hrun
    obtain ⟨place, hplace, -⟩ := Option.map_eq_some_iff.mp hsource
    obtain ⟨other, hother, -⟩ := Option.map_eq_some_iff.mp htarget
    exact ⟨isPlaced_iff.mpr ⟨place, hplace⟩, isPlaced_iff.mpr ⟨other, hother⟩⟩
  · cases hrun : routeEdge id placement with
    | ok path left => exact ⟨path, left, rfl⟩
    | error error left => exact absurd hplaced ((ends_routeEdge hagrees hedge).of_error hrun).2
  · exact fun path left hrun => (ends_routeEdge hagrees hedge).of_ok hrun
  · cases hrun : routePlacedEdges placement with
    | ok count left =>
        obtain ⟨rfl, hrouted⟩ := (ends_routePlacedEdges hagrees).of_ok hrun
        exact ⟨left, rfl, hrouted⟩
    | error error left => exact ((ends_routePlacedEdges hagrees).of_error hrun).elim

theorem routes_shortest_routedChannel :
    routedChannel.hardware.SpansBounded ∧
      ∃ path left, routeEdge ⟨2⟩ routedChannel = .ok path left ∧
        path.head? = some ((bank 0).take 2) ∧ path.length = 2 ∧
          ∀ other, other.head? = some ((bank 0).take 2) →
            other.getLast? = some ((bank 1).take 2) →
              Route.check routedChannel.hardware other = .ok () →
                path.length ≤ other.length := by
  have hspans : routedChannel.hardware.SpansBounded := by decide +kernel
  obtain ⟨-, hedges, -⟩ := reachable_routedChannel.routes_shortest
  obtain ⟨hroutable, hrouted⟩ := hedges ⟨2⟩ _ rfl
  obtain ⟨path, left, hrun⟩ := hroutable.mpr (by decide +kernel)
  obtain ⟨-, source, target, hsource, htarget, hshortest⟩ := hrouted path left hrun
  obtain rfl : (bank 0).take 2 = source := Option.some.inj hsource
  obtain rfl : (bank 1).take 2 = target := Option.some.inj htarget
  exact ⟨hspans, path, left, hrun, hshortest.head, hshortest.length, hshortest.least hspans⟩

end Placement

/-- Two axes of `2 ^ 63 - 1` cores from end to end and five units of a third one make `2 ^ 64 + 1`
units, of which a word keeps one, so that such a hop passes for one to a neighbour. Two of them are
accepted between columns that are ten hops apart. -/
theorem Route.accepts_shortcut :
    let hardware : Hardware :=
      { Hardware.singleChip 1 1 with levels := [coreLevel [2 ^ 63 - 1, 2 ^ 63 - 1, 2 ^ 63 - 1]] }
    let source : Coordinate := ⟨[⟨[0, 0, 0]⟩]⟩
    let target : Coordinate := ⟨[⟨[0, 0, 10]⟩]⟩
    hardware.validate = .ok () ∧ (Route.between? hardware source target).map List.length = some 11 ∧
      Route.check hardware [source, ⟨[⟨[2 ^ 63 - 2, 2 ^ 63 - 2, 5]⟩]⟩, target] = .ok () := by
  decide +kernel

end TiledPlacement

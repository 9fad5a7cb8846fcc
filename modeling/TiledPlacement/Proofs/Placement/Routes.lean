import TiledPlacement.Proofs.Placement.Inheritance
import TiledPlacement.Proofs.Placement.Reachable

/-!
Routes that no longer lead where they should. A route joins the columns of its edge when it is
recorded. It fails to do so later only after a command that put an end of the edge into another
column and left the route; commands on single tasks and groups do that, and a merge of columns that
is cut short.
-/

namespace TiledPlacement

open Execution

namespace Placement

def RoutesJoin (placement : Placement) : Prop :=
  ∀ id edge path, placement.graph.edge? id = some edge → placement.route? id = some path →
    placement.Joins edge path

/-- An edge that has kept its route although the column of an end is another one, and the route
does not join the columns where the ends are now. -/
structure Stranded (origin left : Placement) (id : EdgeId) (edge : Edge)
    (path : List Coordinate) : Prop where
  known : left.graph.edge? id = some edge
  kept : origin.route? id = some path
  routed : left.route? id = some path
  displaced : ∃ task, edge.Meets task ∧ left.columnOf? task ≠ origin.columnOf? task
  misses : ¬left.Joins edge path

def Command.Strands (command : Command) (placement : Placement) : Prop :=
  ∃ id edge path, Stranded placement (after command.run placement) id edge path

/-- The command may put tasks into other columns without dropping the routes of their edges. -/
def Command.Relocates (command : Command) (placement : Placement) : Prop :=
  match command with
  | .putIn .. | .moveTask .. | .putGroupIn .. | .moveGroup .. => True
  | .mergeColumn columns => fails (Placement.mergeColumn columns) placement = true
  | _ => False

/-- The number of a routed edge will not name a new one. -/
def RoutesCovered (placement : Placement) : Prop :=
  placement.graph.ids.next ≤ largestId → ∀ id path, placement.route? id = some path →
    placement.graph.ids.Covers id.raw

section Step

variable {origin left : Placement}

theorem Joins.congr {edge : Edge} {path : List Coordinate}
    (hcolumns : ∀ task, edge.Meets task → left.columnOf? task = origin.columnOf? task)
    (hjoins : origin.Joins edge path) : left.Joins edge path := by
  intro source target hsource htarget
  rw [hcolumns _ (Or.inl rfl)] at hsource
  rw [hcolumns _ (Or.inr rfl)] at htarget
  exact hjoins source target hsource htarget

theorem not_joins_iff {edge : Edge} {path : List Coordinate} :
    ¬left.Joins edge path ↔ ∃ source target, left.columnOf? edge.src.task = some source ∧
      left.columnOf? edge.dst.task = some target ∧
        ¬(path.head? = some source ∧ path.getLast? = some target) := by
  simp only [Joins, Classical.not_forall, exists_prop]

theorem Inherits.columnOf?_of_stays {relocated : TaskId → Prop}
    (hinherits : Inherits relocated origin left) {task : TaskId} {column : Coordinate}
    (hcolumn : left.columnOf? task = some column) :
    relocated task ∨ origin.columnOf? task = some column := by
  have hdepth : left.spaceDepth = origin.spaceDepth :=
    congrArg Hardware.spaceDepth hinherits.hardware
  obtain ⟨place, hplaced, rfl⟩ := Option.map_eq_some_iff.mp hcolumn
  refine (hinherits.stays hplaced).imp_right fun hbefore => ?_
  rw [columnOf?, hbefore, Option.map_some, hdepth]

theorem Rerouted.not_stranded (hrerouted : Rerouted origin left) {id : EdgeId} {edge : Edge}
    {path : List Coordinate} : ¬Stranded origin left id edge path := by
  intro hstranded
  obtain ⟨task, -, hdiffers⟩ := hstranded.displaced
  exact hdiffers (hrerouted.columnOf? task)

theorem Inherits.not_stranded {relocated : TaskId → Prop}
    (hinherits : Inherits relocated origin left) (hspares : Spares relocated left) {id : EdgeId}
    {edge : Edge} {path : List Coordinate} : ¬Stranded origin left id edge path := by
  intro hstranded
  obtain ⟨task, hmeets, hdiffers⟩ := hstranded.displaced
  obtain ⟨source, target, hsource, htarget, -⟩ := not_joins_iff.mp hstranded.misses
  have hplaced : ∃ column, left.columnOf? task = some column := by
    rcases hmeets with rfl | rfl
    · exact ⟨source, hsource⟩
    · exact ⟨target, htarget⟩
  obtain ⟨column, hcolumn⟩ := hplaced
  rcases hinherits.columnOf?_of_stays hcolumn with hrelocated | hbefore
  · exact hspares hstranded.known hstranded.routed task hrelocated hmeets
  · exact hdiffers (hcolumn.trans hbefore.symm)

inductive Command.Outcome (command : Command) (origin left : Placement) : Prop
  | rerouted (hrerouted : Rerouted origin left)
  | spared {relocated : TaskId → Prop} (hinherits : Inherits relocated origin left)
      (hspares : Spares relocated left)
  | relocated (hinherits : Inherits (fun _ => True) origin left)
      (hrelocates : command.Relocates origin)

theorem Command.outcome_mergeColumn (hagrees : origin.Agrees) (columns : List Coordinate) :
    (Command.mergeColumn columns).Outcome origin
      (after (Command.mergeColumn columns).run origin) := by
  have hends := ends_mergeColumn hagrees columns
  have hafter : after (Command.mergeColumn columns).run origin =
      after (Placement.mergeColumn columns) origin := after_discard _ _
  rw [hafter]
  cases hfails : fails (Placement.mergeColumn columns) origin with
  | true =>
      obtain ⟨error, hrun⟩ := run_eq_error hfails
      exact .relocated (hends.of_error hrun) hfails
  | false =>
      obtain ⟨count, hrun⟩ := run_eq_ok hfails
      obtain ⟨moved, hinherits, hspares⟩ := hends.of_ok hrun
      exact .spared hinherits hspares

theorem Command.outcome (hagrees : origin.Agrees) (command : Command) :
    command.Outcome origin (after command.run origin) := by
  have hput : ∀ place task, Keeps (Inherits (fun _ => True) origin) (Placement.putIn place task) :=
    fun place task => Inherits.keeps_putIn trivial place
  have htake : ∀ relocated place task,
      Keeps (Inherits relocated origin) (Placement.takeOut place task) :=
    fun relocated place task => Inherits.keeps_takeOut place task
  have relocated (hkeeps : Keeps (Inherits (fun _ => True) origin) command.run)
      (hrelocates : command.Relocates origin) : command.Outcome origin (after command.run origin) :=
    .relocated (hkeeps.after (.refl hagrees)) hrelocates
  have spared (hkeeps : Keeps (Inherits (fun _ => False) origin) command.run) :
      command.Outcome origin (after command.run origin) :=
    .spared (hkeeps.after (.refl hagrees)) fun _ _ _ hfalse => hfalse.elim
  have rerouted (hkeeps : Keeps (Rerouted origin) command.run) :
      command.Outcome origin (after command.run origin) :=
    .rerouted (hkeeps.after (.refl origin))
  cases command with
  | putIn place task => exact relocated (hput place task) trivial
  | takeOut place task => exact spared (htake _ place task)
  | moveTask task target =>
      refine relocated ?_ trivial
      exact keeps_moveTask_of (fun place => hput place task) (fun place => htake _ place task)
        target
  | putGroupIn place task => exact relocated (keeps_putGroupIn_of hput place task) trivial
  | takeGroupOut place task => exact spared (keeps_takeGroupOut_of (htake _) place task)
  | moveGroup task target => exact relocated (keeps_moveGroup_of hput (htake _) task target) trivial
  | mergeColumn columns => exact outcome_mergeColumn hagrees columns
  | deleteColumn place => exact spared (Inherits.keeps_deleteColumn place).discard
  | splitTask task vector => exact spared (Inherits.keeps_splitTask task vector).discard
  | splitGroup tasks vector =>
      apply spared
      exact (keeps_splitGroup_of (fun task => Inherits.keeps_splitTask task vector) tasks).discard
  | connect connection => exact spared (Inherits.keeps_connect connection).discard
  | mapEdge edge path => exact rerouted (Rerouted.keeps_mapEdge edge path)
  | routeEdge edge => exact rerouted (keeps_routeEdge_of Rerouted.keeps_mapEdge edge).discard
  | routePlacedEdges => exact rerouted (keeps_routePlacedEdges_of Rerouted.keeps_mapEdge).discard

theorem Command.relocates_of_strands (hagrees : origin.Agrees) {command : Command}
    (hstrands : command.Strands origin) : command.Relocates origin := by
  obtain ⟨id, edge, path, hstranded⟩ := hstrands
  cases command.outcome hagrees with
  | rerouted hrerouted => exact absurd hstranded hrerouted.not_stranded
  | spared hinherits hspares => exact absurd hstranded (hinherits.not_stranded hspares)
  | relocated hinherits hrelocates => exact hrelocates

theorem Command.later (hagrees : origin.Agrees) (command : Command) :
    origin.graph.ids.next ≤ (after command.run origin).graph.ids.next := by
  cases command.outcome hagrees with
  | rerouted hrerouted =>
      exact Nat.le_of_eq (congrArg (fun graph => graph.ids.next) hrerouted.graph.symm)
  | spared hinherits hspares => exact hinherits.graph.later
  | relocated hinherits hrelocates => exact hinherits.graph.later

theorem Inherits.routesCovered {relocated : TaskId → Prop}
    (hinherits : Inherits relocated origin left) (hcovered : origin.RoutesCovered) :
    left.RoutesCovered := by
  intro hids id path hroute
  have hbefore := Nat.le_trans hinherits.graph.later hids
  exact (hcovered hbefore id path (hinherits.route hroute)).mono hinherits.graph.later

theorem Rerouted.routesCovered (hrerouted : Rerouted origin left) (hagrees : origin.Agrees)
    (hcovered : origin.RoutesCovered) : left.RoutesCovered := by
  unfold RoutesCovered
  rw [hrerouted.graph]
  intro hids id path hroute
  rcases hrerouted.route hroute with hbefore | ⟨edge, hedge, -⟩
  · exact hcovered hids id path hbefore
  · exact (hagrees.wellFormed hids).edge_covered hedge

theorem RoutesCovered.after_run (hcovered : origin.RoutesCovered) (hagrees : origin.Agrees)
    (command : Command) : (after command.run origin).RoutesCovered := by
  cases command.outcome hagrees with
  | rerouted hrerouted => exact hrerouted.routesCovered hagrees hcovered
  | spared hinherits hspares => exact hinherits.routesCovered hcovered
  | relocated hinherits hrelocates => exact hinherits.routesCovered hcovered

theorem Rerouted.routesJoin (hrerouted : Rerouted origin left) (hjoins : origin.RoutesJoin) :
    left.RoutesJoin := by
  intro id edge path hedge hroute
  rw [hrerouted.graph] at hedge
  rw [hrerouted.joins_iff]
  rcases hrerouted.route hroute with hbefore | ⟨found, hfound, hjoined⟩
  · exact hjoins id edge path hedge hbefore
  · obtain rfl := Option.some.inj (hedge.symm.trans hfound)
    exact hjoined

/-- What is routed is an old edge by its old route, which joined the columns if they are the old
ones. -/
theorem Inherits.routesJoin {relocated : TaskId → Prop} (hinherits : Inherits relocated origin left)
    (hcovered : origin.RoutesCovered) (hids : left.graph.ids.next ≤ largestId)
    (hjoins : origin.RoutesJoin) (hnever : ∀ id edge path, ¬Stranded origin left id edge path) :
    left.RoutesJoin := by
  intro id edge path hedge hroute
  have hkept := hinherits.route hroute
  have hold := hcovered (Nat.le_trans hinherits.graph.later hids) id path hkept
  have hjoined := hjoins id edge path (hinherits.graph.edge hids hold hedge) hkept
  by_contra hmisses
  refine hnever id edge path ⟨hedge, hkept, hroute, ?_, hmisses⟩
  by_contra hplaces
  refine hmisses (hjoined.congr fun task hmeets => ?_)
  by_contra hdiffers
  exact hplaces ⟨task, hmeets, hdiffers⟩

theorem RoutesJoin.after_run (hjoins : origin.RoutesJoin) (hagrees : origin.Agrees)
    (hcovered : origin.RoutesCovered) {command : Command}
    (hids : (after command.run origin).graph.ids.next ≤ largestId)
    (hnever : ¬command.Strands origin) : (after command.run origin).RoutesJoin := by
  have hnone : ∀ id edge path, ¬Stranded origin (after command.run origin) id edge path :=
    fun id edge path hstranded => hnever ⟨id, edge, path, hstranded⟩
  cases command.outcome hagrees with
  | rerouted hrerouted => exact hrerouted.routesJoin hjoins
  | spared hinherits hspares => exact hinherits.routesJoin hcovered hids hjoins hnone
  | relocated hinherits hrelocates => exact hinherits.routesJoin hcovered hids hjoins hnone

end Step

/-! Runs. -/

theorem runAll_take_succ (placement : Placement) {commands : List Command} {count : Nat}
    {command : Command} (hcommand : commands[count]? = some command) :
    placement.runAll (commands.take (count + 1)) =
      after command.run (placement.runAll (commands.take count)) := by
  unfold runAll
  rw [List.take_add_one, hcommand, List.foldl_append]
  rfl

theorem Agrees.next_le_runAll {placement : Placement} (hagrees : placement.Agrees)
    (commands : List Command) :
    placement.graph.ids.next ≤ (placement.runAll commands).graph.ids.next := by
  induction commands generalizing placement with
  | nil => exact Nat.le_refl _
  | cons command rest induction =>
      exact Nat.le_trans (command.later hagrees) (induction (command.keeps_run.after hagrees))

theorem Agrees.next_take_le {placement : Placement} (hagrees : placement.Agrees)
    (commands : List Command) (count : Nat) :
    (placement.runAll (commands.take count)).graph.ids.next ≤
      (placement.runAll commands).graph.ids.next := by
  have hrest := (hagrees.runAll (commands.take count)).next_le_runAll (commands.drop count)
  unfold Placement.runAll at hrest ⊢
  rwa [← List.foldl_append, List.take_append_drop] at hrest

theorem RoutesCovered.runAll {placement : Placement} (hcovered : placement.RoutesCovered)
    (hagrees : placement.Agrees) (commands : List Command) :
    (placement.runAll commands).RoutesCovered := by
  induction commands generalizing placement with
  | nil => exact hcovered
  | cons command rest induction =>
      exact induction (hcovered.after_run hagrees command) (command.keeps_run.after hagrees)

theorem Initial.not_routed {placement : Placement} (hinitial : placement.Initial) (id : EdgeId)
    (path : List Coordinate) : ¬placement.route? id = some path := by
  have hempty : placement.route? id = none := by
    cases hinitial <;> exact Std.ExtTreeMap.getElem?_empty
  rw [hempty]
  exact (Option.some_ne_none path).symm

theorem Initial.routesCovered {placement : Placement} (hinitial : placement.Initial) :
    placement.RoutesCovered :=
  fun _ id path hroute => absurd hroute (hinitial.not_routed id path)

theorem Initial.routesJoin {placement : Placement} (hinitial : placement.Initial) :
    placement.RoutesJoin :=
  fun id _ path _ hroute => absurd hroute (hinitial.not_routed id path)

theorem Reachable.routesCovered {placement : Placement} (hreachable : placement.Reachable) :
    placement.RoutesCovered := by
  obtain ⟨origin, commands, hinitial, rfl⟩ := hreachable
  exact hinitial.routesCovered.runAll hinitial.agrees commands

/-- Along a run every recorded route joins the columns of its edge, where both ends are placed, if
and only if no command strands an edge. Only a command that puts tasks in or moves them can do that,
or a merge of columns that fails. -/
theorem runAll_routesJoin_iff {placement : Placement} (hinitial : placement.Initial)
    (commands : List Command) (hids : (placement.runAll commands).graph.ids.next ≤ largestId) :
    ((∀ count ≤ commands.length, (placement.runAll (commands.take count)).RoutesJoin) ↔
      ∀ (count : Nat) (command : Command), commands[count]? = some command →
        ¬command.Strands (placement.runAll (commands.take count))) ∧
      ∀ (count : Nat) (command : Command), commands[count]? = some command →
        command.Strands (placement.runAll (commands.take count)) →
          command.Relocates (placement.runAll (commands.take count)) := by
  have hagrees : ∀ count, (placement.runAll (commands.take count)).Agrees :=
    fun count => hinitial.agrees.runAll (commands.take count)
  refine ⟨⟨?_, ?_⟩, ?_⟩
  · intro hjoin count command hcommand hstrands
    obtain ⟨id, edge, path, hstranded⟩ := hstrands
    have hnext := hjoin (count + 1) (List.getElem?_eq_some_iff.mp hcommand).1
    rw [runAll_take_succ placement hcommand] at hnext
    exact hstranded.misses (hnext id edge path hstranded.known hstranded.routed)
  · intro hnever count
    induction count with
    | zero => exact fun _ => hinitial.routesJoin
    | succ count induction =>
        intro hcount
        have hcommand : commands[count]? = some commands[count] := List.getElem?_eq_getElem hcount
        have hword := Nat.le_trans (hinitial.agrees.next_take_le commands (count + 1)) hids
        rw [runAll_take_succ placement hcommand] at hword ⊢
        have hcovered := hinitial.routesCovered.runAll hinitial.agrees (commands.take count)
        exact (induction (Nat.le_of_succ_le hcount)).after_run (hagrees count) hcovered hword
          (hnever count _ hcommand)
  · exact fun count command _ hstrands => Command.relocates_of_strands (hagrees count) hstrands

/-- An input and the output that reads it, on a chip with three cores in a row. -/
def channelOnChip : Placement :=
  .onHardware ((TaskGraph.empty 0).runAll [
    .addStorage ⟨.input, .vector 4, .int8⟩,
    .addStorage ⟨.output, .vector 4, .int8⟩,
    .connectWhole ⟨0⟩ ⟨1⟩ 0]) (.singleChip 1 3)

theorem initial_channelOnChip : channelOnChip.Initial :=
  .onHardware (TaskGraph.Reachable.runAll (.empty (Nat.zero_le _))
    (by simp [TaskGraph.Command.Admits]) (by decide +kernel)) _

def bank (core : Nat) : Coordinate :=
  .atTime ⟨[⟨[0, 0]⟩, ⟨[0, core]⟩]⟩ 0 1 .memory

/-- An input and an output in two memory banks and the route between them. -/
def routedChannel : Placement :=
  channelOnChip.runAll [.putIn (bank 0) ⟨0⟩, .putIn (bank 1) ⟨1⟩, .routeEdge ⟨2⟩]

theorem reachable_routedChannel : routedChannel.Reachable :=
  ⟨channelOnChip, _, initial_channelOnChip, rfl⟩

def routedThen (last : Command) : List Command :=
  [.putIn (bank 0) ⟨0⟩, .putIn (bank 1) ⟨1⟩, .routeEdge ⟨2⟩, last]

theorem runAll_routesJoin_iff_mergeColumn :
    (channelOnChip.runAll ((routedThen (.mergeColumn [bank 2, bank 1])).take 3)).route? ⟨2⟩ =
        some [(bank 0).take 2, (bank 1).take 2] ∧
      ∀ count ≤ 4, (channelOnChip.runAll
        ((routedThen (.mergeColumn [bank 2, bank 1])).take count)).RoutesJoin := by
  obtain ⟨hiff, hrelocates⟩ := runAll_routesJoin_iff initial_channelOnChip
    (routedThen (.mergeColumn [bank 2, bank 1])) (by decide +kernel)
  refine ⟨by decide +kernel, hiff.mpr fun count command hcommand hstrands => ?_⟩
  have hmoves := hrelocates count command hcommand hstrands
  obtain ⟨id, edge, path, hstranded⟩ := hstrands
  have hkept := hstranded.kept
  -- The first two commands find no routes, the third puts no task anywhere, the last succeeds.
  rcases count with _ | _ | _ | _ | count
  · exact initial_channelOnChip.not_routed id path hkept
  · have hnone : (channelOnChip.runAll ((routedThen (.mergeColumn [bank 2, bank 1])).take
        1)).whereabouts.routes.isEmpty = true := by decide +kernel
    rw [route?, Std.ExtTreeMap.isEmpty_iff.mp hnone] at hkept
    cases hkept
  · cases hcommand
    exact hmoves
  · cases hcommand
    have hsucceeds : fails (Placement.mergeColumn [bank 2, bank 1])
        (channelOnChip.runAll ((routedThen (.mergeColumn [bank 2, bank 1])).take 3)) = false := by
      decide +kernel
    exact Bool.false_ne_true (hsucceeds.symm.trans hmoves)
  · cases hcommand

private theorem not_routesJoin_of_columns {left : Placement} {edge : Edge}
    {path : List Coordinate} {source target : Coordinate}
    (hedge : left.graph.edge? ⟨2⟩ = some edge) (hroute : left.route? ⟨2⟩ = some path)
    (hsource : left.columnOf? edge.src.task = some source)
    (htarget : left.columnOf? edge.dst.task = some target) (hlast : path.getLast? ≠ some target) :
    ¬left.RoutesJoin :=
  fun hjoin => hlast (hjoin ⟨2⟩ edge path hedge hroute source target hsource htarget).2

/-- The output is moved on by a core, alone or by a merge that stops at a coordinate which is too
short to name a column. -/
theorem not_routesJoin_moved :
    channelOnChip.Initial ∧
      ¬(channelOnChip.runAll (routedThen (.moveTask ⟨1⟩ (bank 2)))).RoutesJoin ∧
        ¬(channelOnChip.runAll
          (routedThen (.mergeColumn [bank 2, bank 1, ⟨[⟨[0, 0]⟩]⟩]))).RoutesJoin := by
  refine ⟨initial_channelOnChip, ?_, ?_⟩
  · exact not_routesJoin_of_columns rfl rfl rfl rfl (by decide +kernel)
  · exact not_routesJoin_of_columns rfl rfl rfl rfl (by decide +kernel)

end Placement

end TiledPlacement

import TiledPlacement.Proofs.Graph.Run
import TiledPlacement.Proofs.Split.Numbering

/-!
Graphs that the commands on a graph lead to. Ids have 32 bits: a command that would run out of
them does not return, so a history passes only through graphs whose source still has ids to hand
out. Every such graph is well formed, commands that fail included.
-/

namespace TiledPlacement

open Execution

namespace TaskGraph

inductive Command
  | addStorage (storage : Storage)
  | addComputation (computation : Computation)
  | insertBlock (block : Block)
  | removeBlock (task : TaskId)
  | connect (connection : Connection)
  | connectWhole (src dst : TaskId) (port : Nat)
  | removeEdge (id : EdgeId)
  | reseed
  | regroup
  | split (task : TaskId) (vector : SplitVector)

namespace Command

def run : Command → GraphAction Unit
  | .addStorage storage => discard (TaskGraph.addStorage storage)
  | .addComputation computation => discard (TaskGraph.addComputation computation)
  | .insertBlock block => TaskGraph.insertBlock block
  | .removeBlock task => discard (TaskGraph.removeBlock task)
  | .connect connection => discard (TaskGraph.connect connection)
  | .connectWhole src dst port => discard (TaskGraph.connectWhole src dst port)
  | .removeEdge id => discard (TaskGraph.removeEdge id)
  | .reseed => TaskGraph.reseed
  | .regroup => TaskGraph.regroup
  | .split task vector => discard (TaskGraph.split task vector)

/-- A block made elsewhere has the ports of its payload, and its id has 32 bits. -/
def Admits : Command → Prop
  | .insertBlock block => block.Shaped ∧ block.id.raw ≤ largestId
  | _ => True

end Command

/-- What a history leads to in which the next id is never above `limit`. -/
inductive ReachableWithin (limit : Nat) : TaskGraph → Prop
  | empty {first : Nat} (hfirst : first ≤ limit) : ReachableWithin limit (TaskGraph.empty first)
  | step {graph : TaskGraph} (command : Command) (hgraph : ReachableWithin limit graph)
      (hadmits : command.Admits) (hids : (after command.run graph).ids.next ≤ limit) :
      ReachableWithin limit (after command.run graph)

abbrev Reachable (graph : TaskGraph) : Prop := graph.ReachableWithin largestId

theorem Reachable.empty {first : Nat} (hfirst : first ≤ largestId) :
    Reachable (TaskGraph.empty first) :=
  ReachableWithin.empty hfirst

theorem Reachable.step {graph : TaskGraph} (command : Command) (hgraph : Reachable graph)
    (hadmits : command.Admits) (hids : (after command.run graph).ids.next ≤ largestId) :
    Reachable (after command.run graph) :=
  ReachableWithin.step command hgraph hadmits hids

def runAll (graph : TaskGraph) (commands : List Command) : TaskGraph :=
  commands.foldl (fun graph command => after command.run graph) graph

theorem Reachable.runAll {graph : TaskGraph} (hgraph : Reachable graph) {commands : List Command}
    (hadmits : ∀ command ∈ commands, command.Admits)
    (hids : ∀ count ≤ commands.length,
      (graph.runAll (commands.take count)).ids.next ≤ largestId) :
    Reachable (graph.runAll commands) := by
  induction commands generalizing graph with
  | nil => exact hgraph
  | cons command rest induction =>
      have hfirst := hids 1 (Nat.succ_le_succ (Nat.zero_le _))
      refine @induction (after command.run graph)
        (hgraph.step command (hadmits command List.mem_cons_self) hfirst)
        (fun other hother => hadmits other (List.mem_cons_of_mem _ hother)) fun count hcount => ?_
      exact hids (count + 1) (Nat.succ_le_succ hcount)

/-- What holds of a graph that came from `origin` by changes which gave new blocks and edges the
numbers from those of `origin` on: unless numbers have run out, it is well formed and no number that
`origin` kept clear of names another block or edge. -/
structure Evolves (origin : TaskGraph) (first : Nat) (graph : TaskGraph) : Prop where
  later : first ≤ graph.ids.next
  wellFormed : graph.ids.next ≤ largestId → graph.WellFormed
  payload : graph.ids.next ≤ largestId → ∀ {task payload}, origin.ids.Covers task.raw →
    graph.payload? task = some payload → origin.payload? task = some payload
  edge : graph.ids.next ≤ largestId → ∀ {id edge}, origin.ids.Covers id.raw →
    graph.edge? id = some edge → origin.edge? id = some edge

namespace Evolves

variable {origin : TaskGraph} {first : Nat}

theorem refl {graph : TaskGraph} (hgraph : graph.ids.next ≤ largestId → graph.WellFormed) :
    Evolves graph graph.ids.next graph :=
  ⟨Nat.le_refl _, hgraph, fun _ _ _ _ hpayload => hpayload, fun _ _ _ _ hedge => hedge⟩

theorem trans {middle left : TaskGraph} (hfirst : Evolves origin first middle)
    (hsecond : Evolves middle middle.ids.next left) (horigin : origin.ids.next ≤ first) :
    Evolves origin first left where
  later := Nat.le_trans hfirst.later hsecond.later
  wellFormed := hsecond.wellFormed
  payload hids _ _ hold hpayload :=
    hfirst.payload (Nat.le_trans hsecond.later hids) hold
      (hsecond.payload hids (hold.mono (Nat.le_trans horigin hfirst.later)) hpayload)
  edge hids _ _ hold hedge :=
    hfirst.edge (Nat.le_trans hsecond.later hids) hold
      (hsecond.edge hids (hold.mono (Nat.le_trans horigin hfirst.later)) hedge)

theorem mono {graph : TaskGraph} (hgraph : Evolves origin first graph) {earlier : Nat}
    (hearlier : earlier ≤ first) : Evolves origin earlier graph :=
  ⟨Nat.le_trans hearlier hgraph.later, hgraph.wellFormed, hgraph.payload, hgraph.edge⟩

theorem withIds {graph : TaskGraph} (hgraph : Evolves origin first graph) {ids : IdSource}
    (hlater : graph.ids.next ≤ ids.next) : Evolves origin ids.next { graph with ids } where
  later := Nat.le_refl _
  wellFormed hids := (hgraph.wellFormed (Nat.le_trans hlater hids)).withLaterIds hlater
  payload hids := hgraph.payload (Nat.le_trans hlater hids)
  edge hids := hgraph.edge (Nat.le_trans hlater hids)

theorem regrouped {graph : TaskGraph} (hgraph : Evolves origin first graph) :
    Evolves origin first graph.regrouped :=
  ⟨hgraph.later, fun hids => (hgraph.wellFormed hids).regrouped, hgraph.payload, hgraph.edge⟩

theorem keeps_regroup : Keeps (Evolves origin first) regroup :=
  Keeps.modify fun _ hgraph => hgraph.regrouped

/-- A change that regroups afterwards. -/
theorem keeps_andRegroup {action : GraphAction α} (haction : Keeps (Evolves origin first) action) :
    Keeps (Evolves origin first) (do
      let value ← action
      regroup
      return value) :=
  haction.bind fun value => keeps_regroup.bind fun _ => Keeps.pure value

theorem keeps_connectDeferred (connection : Connection) (horigin : origin.ids.next ≤ first) :
    Keeps (Evolves origin first) (connectDeferred connection) := by
  intro graph hgraph
  refine (ends_connectDeferred graph connection).mono ?_ ?_
  · rintro _ _ ⟨hjoins, rfl, rfl⟩
    have hbefore : (graph.connected connection).ids.next ≤ largestId →
        graph.ids.next < largestId := Nat.lt_of_succ_le
    refine ⟨Nat.le_succ_of_le hgraph.later, fun hids => ?_, fun hids task payload hold => ?_,
      fun hids id edge hold hedge => ?_⟩
    · have hwell := hgraph.wellFormed (Nat.le_of_lt (hbefore hids))
      refine (hwell.withLaterIds (Nat.le_succ _)).withEdge ?_ (Nat.le_of_lt (hbefore hids))
        (Or.inl (Nat.lt_succ_self _)) (hwell.unused_of_next_le (Nat.le_refl _) (hbefore hids))
      exact ⟨hjoins.apart, hjoins.room, hjoins.fits⟩
    · intro hpayload
      rw [connected, payload?_withEdge] at hpayload
      exact hgraph.payload (Nat.le_of_lt (hbefore hids)) hold hpayload
    · have hspent := hbefore hids
      have hlater := Nat.le_trans horigin hgraph.later
      rw [connected, edge?_withEdge] at hedge
      split at hedge
      case isTrue hsame =>
        rw [hsame, IdSource.Covers] at hold
        dsimp only at hold
        omega
      case isFalse => exact hgraph.edge (Nat.le_of_lt hspent) hold hedge
  · rintro _ _ ⟨-, rfl⟩
    exact hgraph

theorem keeps_connect (connection : Connection) (horigin : origin.ids.next ≤ first) :
    Keeps (Evolves origin first) (connect connection) :=
  keeps_andRegroup (keeps_connectDeferred connection horigin)

theorem keeps_insertBlockDeferred {block : Block} (hshaped : block.Shaped)
    (hword : block.id.raw ≤ largestId) (hnew : origin.ids.next ≤ block.id.raw)
    (hlast : block.id.raw < first) :
    Keeps (Evolves origin first) (insertBlockDeferred block) := by
  intro graph hgraph
  refine (ends_insertBlockDeferred graph block).mono ?_ ?_
  · rintro _ _ ⟨hunused, hedges, rfl⟩
    have hlater : graph.ids.next ≤ (graph.withBlock block).ids.next :=
      IdSource.next_le_observe _ _
    refine ⟨Nat.le_trans hgraph.later hlater, fun hids => ?_, fun hids task payload hold => ?_,
      fun hids => hgraph.edge (Nat.le_trans hlater hids)⟩
    · exact (hgraph.wellFormed (Nat.le_trans hlater hids)).withBlock (hshaped.made hedges) hword
        hunused
    · intro hpayload
      rw [payload?, block?_withBlock] at hpayload
      split at hpayload
      case isTrue hsame =>
        rw [hsame] at hold
        have hspent : first ≤ largestId :=
          Nat.le_trans hgraph.later (Nat.le_trans hlater hids)
        rcases hold with hbelow | hspent <;> omega
      case isFalse => exact hgraph.payload (Nat.le_trans hlater hids) hold hpayload
  · rintro _ _ ⟨-, rfl⟩
    exact hgraph

theorem keeps_insertBlock {block : Block} (hshaped : block.Shaped)
    (hword : block.id.raw ≤ largestId) (hnew : origin.ids.next ≤ block.id.raw)
    (hlast : block.id.raw < first) : Keeps (Evolves origin first) (insertBlock block) :=
  (keeps_insertBlockDeferred hshaped hword hnew hlast).bind fun _ => keeps_regroup

theorem ends_removeBlock_ids (graph : TaskGraph) (task : TaskId) :
    Ends (removeBlockDeferred task) graph (fun _ after => after.ids = graph.ids)
      (fun _ after => after.ids = graph.ids) := by
  unfold removeBlockDeferred
  rw [ends_bind, ends_get, ends_bind, ends_ofExcept]
  refine ⟨fun block _ => ?_, fun _ _ => rfl⟩
  rw [ends_bind, ends_set, ends_bind, ends_ofExcept]
  exact ⟨fun _ _ => ids_foldl_withoutEdge graph _, fun _ _ => ids_foldl_withoutEdge graph _⟩

theorem keeps_removeBlockDeferred (task : TaskId) :
    Keeps (Evolves origin first) (removeBlockDeferred task) := by
  intro graph hgraph
  by_cases hids : graph.ids.next ≤ largestId
  · have hwell := hgraph.wellFormed hids
    refine (ends_removeBlockDeferred hwell task).mono ?_ ?_
    · rintro _ _ ⟨-, rfl⟩
      refine ⟨?_, fun _ => hwell.cleared task, fun _ other payload hold hpayload => ?_,
        fun _ id edge hold hedge => hgraph.edge hids hold (edge?_of_cleared hedge)⟩
      · rw [WellFormed.ids_cleared]
        exact hgraph.later
      · rw [hwell.payload?_cleared] at hpayload
        split at hpayload
        case isTrue => cases hpayload
        case isFalse => exact hgraph.payload hids hold hpayload
    · rintro _ _ ⟨-, -, rfl⟩
      exact hgraph
  · have hspent : ∀ {left : TaskGraph}, left.ids = graph.ids → Evolves origin first left := by
      intro left hleft
      rw [← hleft] at hids
      refine ⟨?_, fun hle => absurd hle hids, fun hle => absurd hle hids,
        fun hle => absurd hle hids⟩
      rw [hleft]
      exact hgraph.later
    exact (ends_removeBlock_ids graph task).mono (fun _ _ hleft => hspent hleft)
      (fun _ _ hleft => hspent hleft)

theorem keeps_removeBlock (task : TaskId) : Keeps (Evolves origin first) (removeBlock task) :=
  keeps_andRegroup (keeps_removeBlockDeferred task)

theorem keeps_removeEdge (id : EdgeId) : Keeps (Evolves origin first) (removeEdge id) := by
  intro graph hgraph
  unfold removeEdge
  rw [ends_bind, ends_get, ends_bind, ends_ofExcept]
  refine ⟨fun edge _ => ?_, fun _ _ => hgraph⟩
  have hids := ids_withoutEdge graph id
  change Evolves origin first (graph.withoutEdge id).regrouped
  refine regrouped ⟨?_, fun hle => ?_, fun hle task payload hold hpayload => ?_,
    fun hle other edge hold hedge => ?_⟩
  · rw [hids]
    exact hgraph.later
  · rw [hids] at hle
    exact (hgraph.wellFormed hle).withoutEdge id
  · rw [hids] at hle
    rw [payload?_withoutEdge graph id task fun _ => (hgraph.wellFormed hle).edge_id] at hpayload
    exact hgraph.payload hle hold hpayload
  · rw [hids] at hle
    rw [edge?_withoutEdge] at hedge
    split at hedge
    case isTrue => cases hedge
    case isFalse => exact hgraph.edge hle hold hedge

theorem keeps_commit {task : TaskId} {operands : List TaskId} {plan : SplitPlan}
    {before after : IdSource} (hplan : plan.Numbered before after)
    (hnew : origin.ids.next ≤ before.next) :
    Keeps (Evolves origin after.next) (commit task operands plan) := by
  unfold commit
  refine Keeps.bind (Keeps.forM fun operand _ =>
    (keeps_removeBlockDeferred operand).discard) fun _ => ?_
  refine Keeps.bind (keeps_removeBlockDeferred task).discard fun _ => ?_
  refine Keeps.bind (Keeps.forM fun block hblock => ?_) fun _ => ?_
  · obtain ⟨hfirst, hlast⟩ := hplan.id_mem_range hblock
    intro graph hgraph
    by_cases hword : block.id.raw ≤ largestId
    · exact keeps_insertBlockDeferred (hplan.made block hblock).shaped hword
        (Nat.le_trans hnew hfirst) hlast graph hgraph
    · -- Numbers have run out, and what is left of the graph does not matter any more.
      have hspent : ∀ {left : TaskGraph}, graph.ids.next ≤ left.ids.next →
          Evolves origin after.next left := by
        intro left hleft
        have hlater := Nat.le_trans hgraph.later hleft
        have hover : ¬left.ids.next ≤ largestId := fun hle =>
          hword (Nat.le_trans (Nat.le_of_lt hlast) (Nat.le_trans hlater hle))
        exact ⟨hlater, fun hle => absurd hle hover, fun hle => absurd hle hover,
          fun hle => absurd hle hover⟩
      refine (ends_insertBlockDeferred graph block).mono ?_ ?_
      · rintro _ _ ⟨-, -, rfl⟩
        exact hspent (IdSource.next_le_observe _ _)
      · rintro _ _ ⟨-, rfl⟩
        exact hgraph
  · have horigin : origin.ids.next ≤ after.next := by
      rw [hplan.next]
      exact Nat.le_add_right_of_le hnew
    exact Keeps.forM fun connection _ => (keeps_connectDeferred connection horigin).discard

end Evolves

theorem ends_runPlanner {planner : Planner α} {graph : TaskGraph}
    {success : α → TaskGraph → Prop} {failure : GraphError → TaskGraph → Prop} :
    Ends (runPlanner planner) graph success failure ↔
      Ends planner graph.ids (fun value ids => success value { graph with ids })
        (fun error ids => failure error { graph with ids }) := by
  unfold Ends runPlanner
  cases planner graph.ids <;> exact Iff.rfl

/-- A split gives new blocks new numbers and keeps the graph well formed, also when it fails. -/
theorem ends_split_evolves {graph : TaskGraph}
    (hgraph : graph.ids.next ≤ largestId → graph.WellFormed) (task : TaskId)
    (vector : SplitVector) :
    Ends (split task vector) graph (fun _ => Evolves graph graph.ids.next)
      (fun _ => Evolves graph graph.ids.next) := by
  have hsame : Evolves graph graph.ids.next graph := Evolves.refl hgraph
  unfold split
  rw [ends_bind, ends_get, ends_bind, ends_ofExcept]
  refine ⟨fun block _ => ?_, fun _ _ => hsame⟩
  cases block.computation? with
  | none => exact hsame
  | some computation =>
      dsimp only
      rw [ends_bind, ends_ofExcept]
      refine ⟨fun factors _ => ?_, fun _ _ => hsame⟩
      by_cases hidentity : factors.isIdentity = true
      · rw [if_pos hidentity]
        exact hsame
      · rw [if_neg hidentity, ends_bind]
        have hplanned : Ends
            (Split.plan { block, computation, factors, operands := (graph.group? task).getD [] }
              graph)
            graph.ids (fun plan ids => plan.Numbered graph.ids ids)
            (fun _ ids => graph.ids.next ≤ ids.next) := Split.ends_plan graph.ids
        rw [ends_runPlanner]
        refine hplanned.mono (fun plan ids hplan => ?_) fun _ _ hids =>
          (hsame.withIds hids).mono hids
        have hlater : graph.ids.next ≤ ids.next := by
          rw [hplan.next]
          exact Nat.le_add_right _ _
        rw [ends_bind, ends_regroupAfter]
        exact (Evolves.keeps_commit hplan (Nat.le_refl _) _ (hsame.withIds hlater)).mono
          (fun _ _ hleft => (hleft.mono hlater).regrouped)
          (fun _ _ hleft => (hleft.mono hlater).regrouped)

private theorem ends_addBlock {graph : TaskGraph} (hword : graph.ids.next ≤ largestId)
    (hgraph : graph.WellFormed) {made : TaskId → Except GraphError Block}
    (hmade : ∀ {task block}, made task = .ok block → block.id = task ∧ block.Shaped) :
    Ends (do
        let task ← takeTaskId
        insertBlock (← GraphAction.ofExcept (made task))
        return task) graph
      (fun _ => Evolves graph graph.ids.next) (fun _ => Evolves graph graph.ids.next) := by
  have htaken : Evolves graph (graph.ids.next + 1)
      { graph with ids := ⟨graph.ids.next + 1⟩ } :=
    (Evolves.refl fun _ => hgraph).withIds (Nat.le_succ _)
  rw [ends_bind]
  unfold takeTaskId
  rw [ends_modifyGet, ends_bind, ends_ofExcept]
  refine ⟨fun block hblock => ?_, fun _ _ => htaken.mono (Nat.le_succ _)⟩
  obtain ⟨hid, hshaped⟩ := hmade hblock
  rw [ends_bind]
  refine (Evolves.keeps_insertBlock hshaped ?_ ?_ ?_ _ htaken).mono
    (fun _ _ hleft => hleft.mono (Nat.le_succ _)) (fun _ _ hleft => hleft.mono (Nat.le_succ _))
  · rw [hid]
    exact hword
  · rw [hid]
    exact Nat.le_refl _
  · rw [hid]
    exact Nat.lt_succ_self _

theorem Command.ends_run {graph : TaskGraph} {command : Command} (hadmits : command.Admits)
    (hword : graph.ids.next ≤ largestId) (hgraph : graph.WellFormed) :
    Ends command.run graph (fun _ left => left.ids.next ≤ largestId → left.WellFormed)
      (fun _ left => left.ids.next ≤ largestId → left.WellFormed) := by
  have hsame : Evolves graph graph.ids.next graph := Evolves.refl fun _ => hgraph
  cases command with
  | addStorage storage =>
      refine ends_discard.mpr ((ends_addBlock hword hgraph fun hblock => ?_).mono
        (fun _ _ hleft => hleft.wellFormed) (fun _ _ hleft => hleft.wellFormed))
      exact ⟨(Block.ofStorage_ok hblock).1, (Block.ofStorage_ok hblock).2.2.shaped⟩
  | addComputation computation =>
      refine ends_discard.mpr ((ends_addBlock hword hgraph fun hblock => ?_).mono
        (fun _ _ hleft => hleft.wellFormed) (fun _ _ hleft => hleft.wellFormed))
      exact ⟨(Block.ofComputation_ok hblock).1, (Block.ofComputation_ok hblock).2.2.shaped⟩
  | insertBlock block =>
      obtain ⟨hshaped, hblockWord⟩ := hadmits
      change Ends (insertBlockDeferred block >>= fun _ => TaskGraph.regroup) graph _ _
      rw [ends_bind]
      refine (ends_insertBlockDeferred graph block).mono ?_ ?_
      · rintro _ _ ⟨hunused, hedges, rfl⟩ _
        exact (hgraph.withBlock (hshaped.made hedges) hblockWord hunused).regrouped
      · rintro _ _ ⟨-, rfl⟩ _
        exact hgraph
  | removeBlock task =>
      exact ends_discard.mpr ((Evolves.keeps_removeBlock task graph hsame).mono
        (fun _ _ hleft => hleft.wellFormed) (fun _ _ hleft => hleft.wellFormed))
  | connect connection =>
      exact ends_discard.mpr ((Evolves.keeps_connect connection (Nat.le_refl _) graph hsame).mono
        (fun _ _ hleft => hleft.wellFormed) (fun _ _ hleft => hleft.wellFormed))
  | connectWhole src dst port =>
      refine ends_discard.mpr ?_
      unfold TaskGraph.connectWhole
      rw [ends_bind, ends_get, ends_bind, ends_ofExcept]
      refine ⟨fun sent _ => ?_, fun _ _ _ => hgraph⟩
      rw [ends_bind, ends_ofExcept]
      refine ⟨fun received _ => ?_, fun _ _ _ => hgraph⟩
      exact (Evolves.keeps_connect _ (Nat.le_refl _) graph hsame).mono
        (fun _ _ hleft => hleft.wellFormed) (fun _ _ hleft => hleft.wellFormed)
  | removeEdge id =>
      exact ends_discard.mpr ((Evolves.keeps_removeEdge id graph hsame).mono
        (fun _ _ hleft => hleft.wellFormed) (fun _ _ hleft => hleft.wellFormed))
  | reseed => exact fun _ => hgraph.reseeded
  | regroup => exact fun _ => hgraph.regrouped
  | split task vector =>
      exact ends_discard.mpr ((ends_split_evolves (fun _ => hgraph) task vector).mono
        (fun _ _ hleft => hleft.wellFormed) (fun _ _ hleft => hleft.wellFormed))

/-- Every history leads to a well-formed graph. -/
theorem Reachable.wellFormed {graph : TaskGraph} (hreachable : Reachable graph) :
    graph.ids.next ≤ largestId ∧ graph.WellFormed := by
  induction hreachable with
  | empty hfirst => exact ⟨hfirst, wellFormed_empty _⟩
  | step command hgraph hadmits hids induction =>
      exact ⟨hids, (Command.ends_run hadmits induction.1 induction.2).after hids⟩

/-!
Edges are found under their own numbers. New edges are entered so and nothing moves an edge, so it
holds of every graph, also when numbers have run out.
-/

def Keyed (graph : TaskGraph) : Prop :=
  ∀ id edge, graph.edge? id = some edge → edge.id = id

namespace Keyed

variable {graph : TaskGraph}

theorem withEdge (hkeyed : graph.Keyed) (id : EdgeId) (connection : Connection) :
    (graph.withEdge id connection).Keyed := by
  intro other edge hedge
  rw [edge?_withEdge] at hedge
  split at hedge
  case isTrue hsame =>
    obtain rfl := Option.some.inj hedge
    exact hsame.symm
  case isFalse => exact hkeyed other edge hedge

theorem withoutEdge (hkeyed : graph.Keyed) (id : EdgeId) : (graph.withoutEdge id).Keyed := by
  intro other edge hedge
  rw [edge?_withoutEdge] at hedge
  split at hedge
  case isTrue => cases hedge
  case isFalse => exact hkeyed other edge hedge

theorem foldl_withoutEdge (hkeyed : graph.Keyed) (ids : List EdgeId) :
    (ids.foldl TaskGraph.withoutEdge graph).Keyed := by
  induction ids generalizing graph with
  | nil => exact hkeyed
  | cons id rest induction => exact induction (hkeyed.withoutEdge id)

theorem keeps_connectDeferred (connection : Connection) :
    Keeps Keyed (connectDeferred connection) := by
  intro graph hkeyed
  refine (ends_connectDeferred graph connection).mono ?_ ?_
  · rintro _ _ ⟨-, -, rfl⟩
    have hlater : Keyed { graph with ids := graph.ids.edge.2 } := hkeyed
    exact hlater.withEdge _ connection
  · rintro _ _ ⟨-, rfl⟩
    exact hkeyed

theorem keeps_insertBlockDeferred (block : Block) : Keeps Keyed (insertBlockDeferred block) := by
  intro graph hkeyed
  refine (ends_insertBlockDeferred graph block).mono ?_ ?_
  · rintro _ _ ⟨-, -, rfl⟩
    exact hkeyed
  · rintro _ _ ⟨-, rfl⟩
    exact hkeyed

theorem keeps_removeBlockDeferred (task : TaskId) : Keeps Keyed (removeBlockDeferred task) := by
  intro graph hkeyed
  unfold removeBlockDeferred
  rw [ends_bind, ends_get, ends_bind, ends_ofExcept]
  refine ⟨fun block _ => ?_, fun _ _ => hkeyed⟩
  have hdetached := hkeyed.foldl_withoutEdge block.edgeIds
  rw [ends_bind, ends_set, ends_bind, ends_ofExcept]
  exact ⟨fun _ _ => hdetached, fun _ _ => hdetached⟩

theorem keeps_commit (task : TaskId) (operands : List TaskId) (plan : SplitPlan) :
    Keeps Keyed (commit task operands plan) := by
  refine Keeps.bind (Keeps.forM fun operand _ => (keeps_removeBlockDeferred operand).discard)
    fun _ => ?_
  refine Keeps.bind (keeps_removeBlockDeferred task).discard fun _ => ?_
  refine Keeps.bind (Keeps.forM fun block _ => keeps_insertBlockDeferred block) fun _ => ?_
  exact Keeps.forM fun connection _ => (keeps_connectDeferred connection).discard

theorem keeps_connect (connection : Connection) : Keeps Keyed (connect connection) := by
  refine Keeps.bind (keeps_connectDeferred connection) fun _ => ?_
  exact Keeps.bind (Keeps.modify fun _ hkeyed => hkeyed) fun _ => Keeps.pure _

theorem keeps_split (task : TaskId) (vector : SplitVector) : Keeps Keyed (split task vector) := by
  unfold split
  refine Keeps.get_bind fun graph hkeyed => ?_
  rw [ends_bind, ends_ofExcept]
  refine ⟨fun block _ => ?_, fun _ _ => hkeyed⟩
  cases block.computation? with
  | none => exact hkeyed
  | some computation =>
      dsimp only
      rw [ends_bind, ends_ofExcept]
      refine ⟨fun factors _ => ?_, fun _ _ => hkeyed⟩
      split
      case isTrue => exact hkeyed
      case isFalse =>
        rw [ends_bind, ends_runPlanner, ends_iff]
        refine ⟨fun plan ids _ => ?_, fun _ _ _ => hkeyed⟩
        rw [ends_bind, ends_regroupAfter]
        exact keeps_commit task _ plan _ hkeyed

end Keyed

end TaskGraph

end TiledPlacement

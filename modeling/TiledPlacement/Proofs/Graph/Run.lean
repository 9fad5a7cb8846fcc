import TiledPlacement.Proofs.Action
import TiledPlacement.Proofs.Graph.Removal

/-!
Runs of the actions on a graph. Each says exactly what it leaves behind; a refused connection or
block leaves the graph as it was.
-/

namespace TiledPlacement

open Execution

namespace TaskGraph

private theorem windowFault?_eq_none_iff {connection : Connection} {sent received : Shape} :
    windowFault? connection sent received = none ↔
      connection.src.window.within sent = true ∧ connection.dst.window.within received = true ∧
        connection.Fits := by
  unfold windowFault? Connection.Fits
  dsimp only
  cases hsent : connection.src.window.within sent with
  | false => simp
  | true =>
      cases hreceived : connection.dst.window.within received with
      | false => simp
      | true =>
          cases hidentity : connection.isIdentity with
          | false => simp
          | true => simp [and_comm]

theorem block_eq_ok_iff {graph : TaskGraph} {task : TaskId} {block : Block} :
    graph.block task = .ok block ↔ graph.block? task = some block := by
  unfold TaskGraph.block
  cases graph.block? task <;> simp

theorem edge_eq_ok_iff {graph : TaskGraph} {id : EdgeId} {edge : Edge} :
    graph.edge id = .ok edge ↔ graph.edge? id = some edge := by
  unfold TaskGraph.edge
  cases graph.edge? id <;> simp

private theorem output_eq_ok_iff {block : Block} {index : Nat} {port : Port} :
    block.output index = .ok port ↔ (block.ports .output)[index]? = some port := by
  unfold Block.output
  change _ ↔ block.outputs[index]? = some port
  cases block.outputs[index]? <;> simp

private theorem input_eq_ok_iff {block : Block} {index : Nat} {port : Port} :
    block.input index = .ok port ↔ (block.ports .input)[index]? = some port := by
  unfold Block.input
  change _ ↔ block.inputs[index]? = some port
  cases block.inputs[index]? <;> simp

theorem checkConnection_eq_ok_iff {graph : TaskGraph} {connection : Connection} :
    graph.checkConnection connection = .ok () ↔ graph.Joins connection := by
  have hports : graph.checkConnection connection = .ok () ↔
      connection.src.task ≠ connection.dst.task ∧
        ∃ sent, graph.port? .output connection.src.task connection.src.port = some sent ∧
          ∃ received, graph.port? .input connection.dst.task connection.dst.port = some received ∧
            windowFault? connection sent.shape received.shape = none := by
    unfold checkConnection
    dsimp only
    by_cases hself : connection.src.task = connection.dst.task
    · rw [if_pos hself]
      refine ⟨fun hok => ?_, fun hboth => absurd hself hboth.1⟩
      cases hok
    · rw [if_neg hself]
      change (graph.block connection.src.task >>= fun source =>
        source.output connection.src.port >>= fun sent =>
          graph.block connection.dst.task >>= fun target =>
            target.input connection.dst.port >>= fun received => _) = _ ↔ _
      simp only [bind_eq_ok_iff, block_eq_ok_iff, output_eq_ok_iff, input_eq_ok_iff,
        port?_eq_some_iff]
      constructor
      · rintro ⟨source, hsource, sent, hsent, target, htarget, received, hreceived, hfault⟩
        refine ⟨hself, sent, ⟨source, hsource, hsent⟩, received, ⟨target, htarget, hreceived⟩, ?_⟩
        split at hfault
        case h_1 => cases hfault
        case h_2 hnone => exact hnone
      · rintro ⟨-, sent, ⟨source, hsource, hsent⟩, received, ⟨target, htarget, hreceived⟩, hfault⟩
        refine ⟨source, hsource, sent, hsent, target, htarget, received, hreceived, ?_⟩
        rw [hfault]
        rfl
  rw [hports]
  constructor
  · rintro ⟨hapart, sent, hsent, received, hreceived, hfault⟩
    obtain ⟨hleaves, harrives, hfits⟩ := windowFault?_eq_none_iff.mp hfault
    refine ⟨hapart, fun side => ?_, hfits⟩
    cases side
    · exact ⟨received.shape, Option.map_eq_some_iff.mpr ⟨received, hreceived, rfl⟩, harrives⟩
    · exact ⟨sent.shape, Option.map_eq_some_iff.mpr ⟨sent, hsent, rfl⟩, hleaves⟩
  · intro hjoins
    obtain ⟨extent, hextent, hleaves⟩ := hjoins.room .output
    obtain ⟨sent, hsent, rfl⟩ := Option.map_eq_some_iff.mp hextent
    obtain ⟨extent, hextent, harrives⟩ := hjoins.room .input
    obtain ⟨received, hreceived, rfl⟩ := Option.map_eq_some_iff.mp hextent
    exact ⟨hjoins.apart, sent, hsent, received, hreceived,
      windowFault?_eq_none_iff.mpr ⟨hleaves, harrives, hjoins.fits⟩⟩

def connected (graph : TaskGraph) (connection : Connection) : TaskGraph :=
  { graph with ids := ⟨graph.ids.next + 1⟩ }.withEdge ⟨graph.ids.next⟩ connection

theorem ends_ofExcept {result : Except GraphError α} {graph : TaskGraph}
    {success : α → TaskGraph → Prop} {failure : GraphError → TaskGraph → Prop} :
    Ends (GraphAction.ofExcept result) graph success failure ↔
      (∀ value, result = .ok value → success value graph) ∧
        (∀ error, result = .error error → failure error graph) := by
  cases result with
  | ok value =>
      change success value graph ↔ _
      simp
  | error error =>
      change failure error graph ↔ _
      simp

theorem ends_connectDeferred (graph : TaskGraph) (connection : Connection) :
    Ends (connectDeferred connection) graph
      (fun id after => graph.Joins connection ∧ id = ⟨graph.ids.next⟩ ∧
        after = graph.connected connection)
      (fun error after => graph.checkConnection connection = .error error ∧ after = graph) := by
  unfold connectDeferred
  rw [ends_bind, ends_get, ends_bind, ends_ofExcept]
  refine ⟨fun value hok => ?_, fun error herror => ⟨herror, rfl⟩⟩
  exact ⟨checkConnection_eq_ok_iff.mp hok, rfl, rfl⟩

theorem ends_insertBlockDeferred (graph : TaskGraph) (block : Block) :
    Ends (insertBlockDeferred block) graph
      (fun _ after => ¬graph.usesId block.id.raw = true ∧ block.edgeIds = [] ∧
        after = graph.withBlock block)
      (fun _ after => (graph.usesId block.id.raw = true ∨ block.edgeIds ≠ []) ∧
        after = graph) := by
  unfold insertBlockDeferred
  rw [ends_bind, ends_get]
  by_cases huses : graph.usesId block.id.raw = true
  · rw [if_pos huses]
    exact ⟨Or.inl huses, rfl⟩
  · rw [if_neg huses]
    by_cases hedges : block.edgeIds = []
    · rw [if_neg fun hne => hne hedges]
      exact ⟨huses, hedges, rfl⟩
    · rw [if_pos hedges]
      exact ⟨Or.inr hedges, rfl⟩

@[simp] theorem ends_regroup {graph : TaskGraph} {success : PUnit → TaskGraph → Prop}
    {failure : GraphError → TaskGraph → Prop} :
    Ends regroup graph success failure ↔ success ⟨⟩ graph.regrouped :=
  Iff.rfl

theorem ends_regroupAfter {action : GraphAction α} {graph : TaskGraph}
    {success : α → TaskGraph → Prop} {failure : GraphError → TaskGraph → Prop} :
    Ends (regroupAfter action) graph success failure ↔
      Ends action graph (fun value left => success value left.regrouped)
        (fun error left => failure error left.regrouped) := by
  unfold Ends regroupAfter
  cases action graph <;> exact Iff.rfl

/-- Removing a block fails only when there is none. -/
theorem ends_removeBlockDeferred {graph : TaskGraph} (hgraph : graph.WellFormed)
    (task : TaskId) :
    Ends (removeBlockDeferred task) graph
      (fun _ after => (∃ block, graph.block? task = some block) ∧ after = graph.cleared task)
      (fun error after => graph.block? task = none ∧ error = .unknownTask task ∧
        after = graph) := by
  unfold removeBlockDeferred
  rw [ends_bind, ends_get, ends_bind, ends_ofExcept]
  constructor
  · intro block hok
    have hblock := block_eq_ok_iff.mp hok
    rw [ends_bind, ends_set, ends_bind, ends_ofExcept]
    have hpayload := hgraph.payload?_foldl_withoutEdge block.edgeIds task
    rw [payload?, payload?, hblock] at hpayload
    obtain ⟨left, hleft, -⟩ := Option.map_eq_some_iff.mp hpayload
    refine ⟨fun _ _ => ⟨⟨block, hblock⟩, ?_⟩, fun error herror => ?_⟩
    · rw [cleared, hblock]
      rfl
    · rw [block_eq_ok_iff.mpr hleft] at herror
      cases herror
  · intro error herror
    unfold TaskGraph.block at herror
    cases hblock : graph.block? task with
    | none =>
        rw [hblock] at herror
        cases herror
        exact ⟨rfl, rfl, rfl⟩
    | some block =>
        rw [hblock] at herror
        cases herror

end TaskGraph

end TiledPlacement

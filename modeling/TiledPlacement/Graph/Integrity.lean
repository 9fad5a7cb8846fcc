import TiledPlacement.Graph.Basic

/-!
Orders on the blocks of a graph, the least topological one by id and reachability along edges, and
the integrity of a graph.
-/

namespace TiledPlacement

/-- How many inputs of each block have yet to be met, and the blocks that wait for nothing more. -/
structure Sorting where
  unmet : TaskMap Nat
  ready : TaskSet

def lessOne (count : Nat) : Id Nat := pure (count - 1)

/-- Subtraction that refuses to go below zero. -/
def lessOne? (count : Nat) : Option Nat :=
  if count = 0 then none else some (count - 1)

section Subtraction

variable {F : Type → Type} [Monad F]

/-- The input at which an edge ends is met; its block is ready if that was the last one. -/
def Sorting.meet (lessen : Nat → F Nat) (sorting : Sorting) (edge : Edge) : F Sorting :=
  match sorting.unmet[edge.dst.task]? with
  | none => pure sorting
  | some count => do
      let left ← lessen count
      let unmet := sorting.unmet.insert edge.dst.task left
      return ⟨unmet, if left = 0 then sorting.ready.insert edge.dst.task else sorting.ready⟩

namespace TaskGraph

/-- Place the least block that is ready, again and again, for so many rounds at most. -/
def placeReady (graph : TaskGraph) (lessen : Nat → F Nat) : Nat → Sorting → F (List TaskId)
  | 0, _ => pure []
  | rounds + 1, sorting =>
      match sorting.ready.toList.head? with
      | none => pure []
      | some task => do
          let next ← (graph.outputEdges task).foldlM (Sorting.meet lessen)
            { sorting with ready := sorting.ready.erase task }
          return task :: (← graph.placeReady lessen rounds next)

end TaskGraph

end Subtraction

namespace TaskGraph

def countInput (unmet : TaskMap Nat) (edge : Edge) : TaskMap Nat :=
  unmet.modify edge.dst.task (· + 1)

def sorting (graph : TaskGraph) : Sorting :=
  let unmet := graph.edges.values.foldl countInput
    (.ofList (graph.taskIds.map fun task => (task, 0)))
  ⟨unmet, .ofList (unmet.keys.filter fun task => decide (unmet[task]? = some 0))⟩

/-- Every block after all of its producers, always the least by id that is ready. A round places one
block, so that there are as many rounds as blocks. -/
def topologicalOrderBy {F : Type → Type} [Monad F] (graph : TaskGraph) (lessen : Nat → F Nat) :
    F (Except GraphError (List TaskId)) := do
  let order ← graph.placeReady lessen graph.blocks.size graph.sorting
  if order.length = graph.blocks.size then
    return .ok order
  else
    return .error (.cycle (graph.blocks.size - order.length))

def topologicalOrder (graph : TaskGraph) : Except GraphError (List TaskId) :=
  Id.run (graph.topologicalOrderBy lessOne)

/-- The blocks that have not been seen. -/
def unseen (graph : TaskGraph) (seen : TaskSet) : List TaskId :=
  graph.taskIds.filter fun task => !seen.contains task

theorem unseen_insert (graph : TaskGraph) (seen : TaskSet) (task : TaskId) :
    graph.unseen (seen.insert task) =
      (graph.unseen seen).filter fun other => !(seen.insert task).contains other := by
  rw [unseen, unseen, List.filter_filter]
  refine List.filter_congr fun other _ => ?_
  rw [Std.ExtTreeSet.contains_insert]
  cases seen.contains other <;> simp

theorem length_unseen_insert_le (graph : TaskGraph) (seen : TaskSet) (task : TaskId) :
    (graph.unseen (seen.insert task)).length ≤ (graph.unseen seen).length := by
  rw [unseen_insert]
  exact List.length_filter_le _ _

theorem length_unseen_insert_lt {graph : TaskGraph} {seen : TaskSet} {task : TaskId}
    (hblock : task ∈ graph.taskIds) (hunseen : seen.contains task = false) :
    (graph.unseen (seen.insert task)).length < (graph.unseen seen).length := by
  have hbefore : task ∈ graph.unseen seen :=
    List.mem_filter.mpr ⟨hblock, by rw [hunseen, Bool.not_false]⟩
  rw [unseen_insert]
  refine List.length_filter_lt_length_iff_exists.mpr ⟨task, hbefore, ?_⟩
  rw [Std.ExtTreeSet.contains_insert_self]
  exact Bool.false_ne_true

theorem consumers_of_unknown {graph : TaskGraph} {task : TaskId} (hblock : task ∉ graph.taskIds) :
    (graph.consumers task).toList = [] := by
  have hnone : graph.block? task = none :=
    Std.ExtTreeMap.getElem?_eq_none fun hmember => hblock (Std.ExtTreeMap.mem_keys.mpr hmember)
  rw [consumers, outputEdges, hnone]
  rfl

/-- Empty a queue of blocks. A block is seen when it first leaves the queue, and its consumers then
join the queue; it may stand there several times. -/
def drain (graph : TaskGraph) (seen : TaskSet) : List TaskId → TaskSet
  | [] => seen
  | task :: queue =>
      if seen.contains task then
        graph.drain seen queue
      else
        graph.drain (seen.insert task) (queue ++ (graph.consumers task).toList)
termination_by queue => ((graph.unseen seen).length, queue.length)
decreasing_by
  · exact Prod.Lex.right _ (Nat.lt_succ_self _)
  · rename_i hseen
    rw [Bool.not_eq_true] at hseen
    by_cases hblock : task ∈ graph.taskIds
    · exact Prod.Lex.left _ _ (length_unseen_insert_lt hblock hseen)
    · rw [consumers_of_unknown hblock, List.append_nil]
      rcases Nat.lt_or_eq_of_le (graph.length_unseen_insert_le seen task) with hless | hsame
      · exact Prod.Lex.left _ _ hless
      · rw [hsame]
        exact Prod.Lex.right _ (Nat.lt_succ_self _)

/-- The blocks that follow `task` along one or more edges. -/
def downstream (graph : TaskGraph) (task : TaskId) : TaskSet :=
  graph.drain ∅ (graph.consumers task).toList

/-!
Integrity of a task graph: ids, connections and tiling, each checked by a function that reports
the first fault it finds.
-/

/-- Blocks and edges share one range of ids, all below the next one to be handed out. -/
def checkIds (graph : TaskGraph) : Except GraphError Unit := do
  let next := graph.ids.next
  graph.blocks.values.forM fun block => do
    if graph.edges.contains ⟨block.id.raw⟩ then
      throw (.duplicateId block.id.raw .blockAndEdge)
    if next ≤ block.id.raw then
      throw (.duplicateId block.id.raw (.blockNotBelow next))
  graph.edges.values.forM fun edge => do
    if next ≤ edge.id.raw then
      throw (.duplicateId edge.id.raw (.edgeNotBelow next))

/-- The first fault in what an edge says about its ends. -/
def edgeFault? (graph : TaskGraph) (edge : Edge) : Option ConnectionFault :=
  match graph.block? edge.src.task, graph.block? edge.dst.task with
  | none, _ => some (.sourceMissing edge.src.task)
  | some _, none => some (.destinationMissing edge.dst.task)
  | some source, some target =>
      match source.outputs[edge.src.port]?, target.inputs[edge.dst.port]? with
      | none, _ => some (.noOutputPort source.id edge.src.port)
      | some _, none => some (.noInputPort target.id edge.dst.port)
      | some sent, some received =>
          if edge.id ∉ sent.edges then some .notListedBySource
          else if edge.id ∉ received.edges then some .notListedByDestination
          else if !edge.src.window.within sent.shape then some .sourceOutOfBounds
          else if !edge.dst.window.within received.shape then some .destinationOutOfBounds
          else none

/-- Every edge that the ports of one side list must point back at them. -/
def checkListing (graph : TaskGraph) (task : TaskId) (ends : Edge → Endpoint)
    (ports : List Port) : Except GraphError Unit :=
  ports.zipIdx.forM fun (port, index) =>
    port.edges.forM fun id =>
      match graph.edge? id with
      | none => throw (.connection id (.listedButMissing task))
      | some edge =>
          if (ends edge).task = task ∧ (ends edge).port = index then
            return ()
          else
            throw (.connection id (.pointsElsewhere task index))

/-- Every edge is listed by exactly the two ports that it names, with its windows in bounds. -/
def checkConnections (graph : TaskGraph) : Except GraphError Unit := do
  graph.edges.values.forM fun edge =>
    match graph.edgeFault? edge with
    | some fault => throw (.connection edge.id fault)
    | none => return ()
  graph.blocks.values.forM fun block => do
    graph.checkListing block.id Edge.dst block.inputs
    graph.checkListing block.id Edge.src block.outputs

/-- The first window that leaves the tensor or meets a later one. -/
def tilingFault? (shape : Shape) : List Window → Option TilingFault
  | [] => none
  | window :: rest =>
      if !window.within shape then
        some (.outOfBounds window)
      else
        match rest.find? fun other =>
            (window.intersect? other).any fun common => decide (0 < common.volume) with
        | some other => some (.overlap window other)
        | none => tilingFault? shape rest

/-- Elements covered by windows, each counted as often as it is covered, in a word. -/
def coveredVolume : List Window → Nat
  | [] => 0
  | window :: rest => word (window.volume + coveredVolume rest)

def windowsAt (graph : TaskGraph) (port : Port) : List Window :=
  (graph.edgesAt port).map (·.dst.window)

def portFault? (graph : TaskGraph) (port : Port) : Option TilingFault :=
  let windows := graph.windowsAt port
  match tilingFault? port.shape windows with
  | some fault => some fault
  | none =>
      if coveredVolume windows = port.shape.volume then none
      else some (.uncovered (coveredVolume windows) port.shape.volume)

/-- Every input is tiled exactly by the windows of its edges. -/
def checkTiling (graph : TaskGraph) : Except GraphError Unit :=
  graph.blocks.values.forM fun block =>
    block.inputs.zipIdx.forM fun (port, index) =>
      match graph.portFault? port with
      | some fault => throw (.tiling block.id index fault)
      | none => return ()

def validate (graph : TaskGraph) : Except GraphError Unit := do
  graph.checkIds
  graph.checkConnections
  graph.checkTiling
  let _ ← graph.topologicalOrder

end TaskGraph

end TiledPlacement

import TiledPlacement.Proofs.Graph.Neighbours

/-!
How many inputs the blocks of a graph await when some blocks are done. A block that is done meets
the inputs at the ends of its output edges, one after the other.
-/

namespace TiledPlacement

namespace TaskGraph

/-- How many inputs of a task have a producer that is not listed. -/
def outstanding (graph : TaskGraph) (done : List TaskId) (task : TaskId) : Nat :=
  (graph.inputEdges task).countP fun edge => decide (edge.src.task ∉ done)

theorem outstanding_eq_zero_iff {graph : TaskGraph} {done : List TaskId} {task : TaskId} :
    graph.outstanding done task = 0 ↔ ∀ edge ∈ graph.inputEdges task, edge.src.task ∈ done := by
  simp [outstanding, List.countP_eq_zero]

theorem outstanding_pos_iff {graph : TaskGraph} {done : List TaskId} {task : TaskId} :
    0 < graph.outstanding done task ↔
      ∃ edge ∈ graph.inputEdges task, edge.src.task ∉ done := by
  simp [outstanding, List.countP_pos_iff]

theorem countP_not_mem_concat (edges : List Edge) {done : List TaskId} {task : TaskId}
    (hfresh : task ∉ done) :
    edges.countP (fun edge => decide (edge.src.task ∉ done)) =
      edges.countP (fun edge => decide (edge.src.task ∉ done ++ [task])) +
        edges.countP fun edge => decide (edge.src.task = task) := by
  induction edges with
  | nil => rfl
  | cons edge rest induction =>
      simp only [List.countP_cons, induction, List.mem_append, List.mem_singleton,
        decide_eq_true_eq, not_or]
      by_cases hsource : edge.src.task = task
      · simp only [hsource, hfresh, not_false_eq_true, not_true_eq_false, and_false, if_true,
          if_false]
        omega
      · simp only [hsource, not_false_eq_true, and_true, if_false]
        omega

/-- The edges into a consumer that come from a task are those out of the task that lead to the
consumer. -/
theorem WellFormed.countP_inputEdges {graph : TaskGraph} (hgraph : graph.WellFormed)
    (task consumer : TaskId) :
    (graph.inputEdges consumer).countP (fun edge => decide (edge.src.task = task)) =
      (graph.outputEdges task).countP fun edge => decide (edge.dst.task = consumer) := by
  rw [List.countP_eq_length_filter, List.countP_eq_length_filter]
  apply List.Perm.length_eq
  apply (List.perm_ext_iff_of_nodup ((hgraph.nodup_inputEdges consumer).filter _)
    ((hgraph.nodup_outputEdges task).filter _)).mpr
  intro edge
  simp only [List.mem_filter, hgraph.mem_inputEdges_iff, hgraph.mem_outputEdges_iff,
    decide_eq_true_eq]
  constructor
  · intro hboth
    exact ⟨⟨hboth.1.1, hboth.2⟩, hboth.1.2⟩
  · intro hboth
    exact ⟨⟨hboth.1.1, hboth.2⟩, hboth.1.2⟩

theorem WellFormed.outstanding_concat {graph : TaskGraph} (hgraph : graph.WellFormed)
    {done : List TaskId} {task : TaskId} (hfresh : task ∉ done) (consumer : TaskId) :
    graph.outstanding done consumer = graph.outstanding (done ++ [task]) consumer +
      (graph.outputEdges task).countP fun edge => decide (edge.dst.task = consumer) := by
  rw [outstanding, countP_not_mem_concat _ hfresh, hgraph.countP_inputEdges]
  rfl

/-- Inputs that a task awaits, those on edges underway included. -/
def missing (graph : TaskGraph) (done : List TaskId) (underway : List Edge) (task : TaskId) :
    Nat :=
  graph.outstanding done task + underway.countP fun edge => decide (edge.dst.task = task)

theorem missing_cons (graph : TaskGraph) (done : List TaskId) (edge : Edge) (underway : List Edge)
    (task : TaskId) :
    graph.missing done (edge :: underway) task =
      graph.missing done underway task + if edge.dst.task = task then 1 else 0 := by
  simp [missing, List.countP_cons, Nat.add_assoc]

theorem missing_cons_self (graph : TaskGraph) (done : List TaskId) (edge : Edge)
    (underway : List Edge) :
    graph.missing done (edge :: underway) edge.dst.task =
      graph.missing done underway edge.dst.task + 1 := by
  rw [missing_cons, if_pos rfl]

theorem missing_cons_of_ne (graph : TaskGraph) (done : List TaskId) {edge : Edge}
    (underway : List Edge) {task : TaskId} (hother : task ≠ edge.dst.task) :
    graph.missing done (edge :: underway) task = graph.missing done underway task := by
  rw [missing_cons, if_neg hother.symm, Nat.add_zero]

end TaskGraph

end TiledPlacement

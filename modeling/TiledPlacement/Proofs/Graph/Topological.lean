import TiledPlacement.Proofs.Graph.Acyclic
import TiledPlacement.Proofs.Graph.Reachable

/-!
Topological orders. The order that comes out is the first of all topological orders in the order of
dictionaries, since each time the least block comes next that may come next at all.
-/

namespace TiledPlacement

open Execution

namespace TaskGraph

/-- Each block may be placed after those before it. -/
inductive Follows (graph : TaskGraph) : List TaskId → List TaskId → Prop
  | nil {placed : List TaskId} : Follows graph placed []
  | cons {placed : List TaskId} {task : TaskId} {order : List TaskId}
      (havailable : graph.Available placed task) (hrest : Follows graph (placed ++ [task]) order) :
      Follows graph placed (task :: order)

variable {graph : TaskGraph} {placed order : List TaskId}

theorem Topological.follows (hgraph : graph.WellFormed) (hordered : graph.Topological order)
    {rest : List TaskId} (hsplit : placed ++ rest = order) : graph.Follows placed rest := by
  induction rest generalizing placed with
  | nil => exact .nil
  | cons task rest induction =>
      have hnodup := hordered.nodup
      rw [← hsplit] at hnodup
      have hfresh : task ∉ placed := fun hplaced =>
        (List.disjoint_of_nodup_append hnodup) hplaced List.mem_cons_self
      refine .cons ⟨?_, hfresh, fun edge hedge => ?_⟩ (induction ?_)
      · rw [← hordered.mem_iff, ← hsplit]
        exact List.mem_append_right _ List.mem_cons_self
      · obtain ⟨hknown, rfl⟩ := hgraph.mem_inputEdges_iff.mp hedge
        have hless := hordered.ascends edge.id edge hknown
        rw [← hsplit, List.idxOf_append_of_notMem hfresh, List.idxOf_cons_self, Nat.add_zero]
          at hless
        by_contra hlate
        rw [List.idxOf_append_of_notMem hlate] at hless
        exact absurd hless (Nat.not_lt.mpr (Nat.le_add_right _ _))
      · rw [List.append_assoc, List.singleton_append, hsplit]

namespace Arranges

theorem unique {other : List TaskId} (harranges : graph.Arranges placed order)
    (hother : graph.Arranges placed other) : order = other := by
  induction harranges generalizing other with
  | stop hnone =>
      cases hother with
      | stop => rfl
      | place havailable => exact absurd havailable (hnone _)
  | @place _ first _ havailable hleast _ induction =>
      cases hother with
      | stop hnone => exact absurd havailable (hnone _)
      | @place _ task _ hothers hleastOther hrest =>
          have hsame := Nat.le_antisymm (hleast _ hothers) (hleastOther _ havailable)
          obtain rfl : first = task := congrArg TaskId.mk hsame
          rw [induction hrest]

/-- No order that takes all blocks comes earlier in the order of dictionaries. -/
theorem least {other : List TaskId} (harranges : graph.Arranges placed order)
    (hother : graph.Follows placed other)
    (hall : ∀ task block, graph.block? task = some block → task ∈ placed ++ other) :
    order = other ∨ List.Lex (fun left right => left.raw < right.raw) order other := by
  induction harranges generalizing other with
  | stop =>
      cases other with
      | nil => exact Or.inl rfl
      | cons => exact Or.inr .nil
  | @place _ first _ havailable hleast _ induction =>
      cases hother with
      | nil =>
          -- The other order would leave out a block that may still be placed.
          obtain ⟨block, hblock⟩ := havailable.known
          have hplaced := hall _ block hblock
          rw [List.append_nil] at hplaced
          exact absurd hplaced havailable.fresh
      | @cons _ task rest hfirst hrest =>
          rcases Nat.lt_or_eq_of_le (hleast _ hfirst) with hless | hsame
          · exact Or.inr (.rel hless)
          · obtain rfl : first = task := congrArg TaskId.mk hsame
            refine (induction hrest fun other block hblock => ?_).imp (congrArg _) .cons
            rw [← List.append_cons]
            exact hall other block hblock

end Arranges

/-- After any history that leaves ids over, failed commands included: there is a topological
order exactly when no edges form a cycle; it is then the first of all in the order of dictionaries;
what is counted otherwise are the blocks on a cycle or behind one. No count of inputs is lowered
below zero on the way, and more rounds than there are blocks place nothing more. -/
theorem Reachable.topologicalOrder_exact (hreachable : graph.ReachableWithin largestId) :
    ((∃ order, graph.topologicalOrder = .ok order) ↔
        ∀ task, ¬Relation.TransGen graph.Leads task task) ∧
      (∀ order, graph.topologicalOrder = .ok order → graph.Topological order ∧
        ∀ other, graph.Topological other →
          order = other ∨ List.Lex (fun left right => left.raw < right.raw) order other) ∧
      (∀ error, graph.topologicalOrder = .error error →
        error = .cycle {task | FollowsCycle graph.Leads task}.ncard) ∧
      graph.topologicalOrderBy lessOne? = some graph.topologicalOrder ∧
      ∀ rounds, graph.blocks.size ≤ rounds →
        graph.placeReady lessOne? rounds graph.sorting =
          graph.placeReady lessOne? graph.blocks.size graph.sorting := by
  have hgraph := (Reachable.wellFormed hreachable).2
  obtain ⟨order, harranges, horder⟩ := topologicalOrder_eq hgraph
  refine ⟨topologicalOrder_ok_iff_acyclic hgraph, fun found hok => ?_, fun error herror => ?_, ?_,
    fun rounds hrounds => ?_⟩
  · refine ⟨topological_of_ok hgraph hok, fun other hother => ?_⟩
    have hsame : found = order := by
      rw [horder] at hok
      split at hok
      case isTrue => exact (Except.ok.inj hok).symm
      case isFalse => cases hok
    rw [hsame]
    exact harranges.least (hother.follows hgraph rfl) fun task block hblock =>
      (hother.mem_iff task).mpr ⟨block, hblock⟩
  · have hlength := harranges.length_add_ncard hgraph
    rw [horder] at herror
    split at herror
    case isTrue => cases herror
    case isFalse =>
      rw [← Except.error.inj herror, ← hlength, Nat.add_sub_cancel_left]
  · exact topologicalOrderBy_eq lessOne?_succ hgraph
  · have htracks := tracks_sorting hgraph
    have hmore := arranges_placeReady hgraph htracks (Nat.le_add_left_of_le hrounds)
    have hfewer := arranges_placeReady hgraph htracks (Nat.le_add_left graph.blocks.size _)
    rw [placeReady_eq lessOne?_succ hgraph htracks, placeReady_eq lessOne?_succ hgraph htracks,
      hmore.unique hfewer]

/-- A product reads one input at both of its ports; beside it two shifts read one another's results,
and an output reads those of the second. -/
def productAndLoop : TaskGraph :=
  (empty 0).runAll [
    .addStorage ⟨.input, .vector 4, .int8⟩,
    .addComputation ⟨.vectorProduct 0, .vector 4, .int8, .absent⟩,
    .addComputation ⟨.vectorShift 0, .vector 4, .int8, .absent⟩,
    .addComputation ⟨.vectorShift 0, .vector 4, .int8, .absent⟩,
    .addStorage ⟨.output, .vector 4, .int8⟩,
    .connectWhole ⟨0⟩ ⟨1⟩ 0,
    .connectWhole ⟨0⟩ ⟨1⟩ 1,
    .connectWhole ⟨2⟩ ⟨3⟩ 0,
    .connectWhole ⟨3⟩ ⟨2⟩ 0,
    .connectWhole ⟨3⟩ ⟨4⟩ 0]

theorem topologicalOrder_exact_productAndLoop :
    productAndLoop.topologicalOrder = .error (.cycle 3) ∧
      {task | FollowsCycle productAndLoop.Leads task}.ncard = 3 := by
  have hreachable : productAndLoop.Reachable :=
    (Reachable.empty (Nat.zero_le _)).runAll (by simp [Command.Admits]) (by decide +kernel)
  obtain ⟨-, -, hcount, -⟩ := Reachable.topologicalOrder_exact hreachable
  have herror : productAndLoop.topologicalOrder = .error (.cycle 3) := by decide +kernel
  exact ⟨herror, (GraphError.cycle.inj (hcount _ herror)).symm⟩

end TaskGraph

end TiledPlacement

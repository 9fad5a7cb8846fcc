import Mathlib.Data.List.Nodup
import Mathlib.Data.List.Perm.Subperm
import TiledPlacement.Graph.Integrity
import TiledPlacement.Proofs.Graph.Awaited

/-!
Sorting the blocks of a graph. While blocks are placed one after the other, the counts of unmet
inputs stay exact, those on edges that are still underway included; so no count is lowered that is
zero, a block is ready when it may be placed, and the least such block comes next.
-/

namespace TiledPlacement

namespace TaskGraph

/-- The block may be placed after the blocks listed. -/
structure Available (graph : TaskGraph) (placed : List TaskId) (task : TaskId) : Prop where
  known : ∃ block, graph.block? task = some block
  fresh : task ∉ placed
  met : ∀ edge ∈ graph.inputEdges task, edge.src.task ∈ placed

/-- What is placed after the blocks listed, always the least available block, until none is. -/
inductive Arranges (graph : TaskGraph) : List TaskId → List TaskId → Prop
  | stop {placed : List TaskId} (hnone : ∀ task, ¬graph.Available placed task) :
      Arranges graph placed []
  | place {placed : List TaskId} {task : TaskId} {order : List TaskId}
      (havailable : graph.Available placed task)
      (hleast : ∀ other, graph.Available placed other → task.raw ≤ other.raw)
      (hrest : Arranges graph (placed ++ [task]) order) : Arranges graph placed (task :: order)

end TaskGraph

namespace Sorting

/-- Meeting an input where no count is zero. -/
def met (sorting : Sorting) (edge : Edge) : Sorting := Id.run (sorting.meet lessOne edge)

/-- Exact counts for some blocks placed and some of their output edges underway. -/
structure Tracks (graph : TaskGraph) (placed : List TaskId) (underway : List Edge)
    (sorting : Sorting) : Prop where
  unmet : ∀ task, sorting.unmet[task]? =
    (graph.block? task).map fun _ => graph.missing placed underway task
  ready : ∀ task, task ∈ sorting.ready ↔ (∃ block, graph.block? task = some block) ∧
    task ∉ placed ∧ graph.missing placed underway task = 0
  known : ∀ task ∈ placed, ∃ block, graph.block? task = some block
  nodup : placed.Nodup
  settled : ∀ task ∈ placed, graph.missing placed underway task = 0

variable {graph : TaskGraph} {placed : List TaskId} {underway : List Edge} {edge : Edge}
variable {sorting : Sorting}

theorem met_of_unknown (hunknown : sorting.unmet[edge.dst.task]? = none) :
    sorting.met edge = sorting := by
  rw [met, meet, hunknown]
  rfl

theorem met_of_known {left : Nat} (hknown : sorting.unmet[edge.dst.task]? = some (left + 1)) :
    sorting.met edge = ⟨sorting.unmet.insert edge.dst.task left,
      if left = 0 then sorting.ready.insert edge.dst.task else sorting.ready⟩ := by
  rw [met, meet, hknown]
  rfl

namespace Tracks

/-- What is counted at the end of an edge underway. -/
theorem count (htracks : Tracks graph placed (edge :: underway) sorting) :
    sorting.unmet[edge.dst.task]? = (graph.block? edge.dst.task).map fun _ =>
      graph.missing placed underway edge.dst.task + 1 := by
  rw [htracks.unmet, graph.missing_cons_self]

theorem unplaced (htracks : Tracks graph placed (edge :: underway) sorting) :
    edge.dst.task ∉ placed := by
  intro hplaced
  have hsettled := htracks.settled _ hplaced
  rw [graph.missing_cons_self] at hsettled
  cases hsettled

theorem settled_tail (htracks : Tracks graph placed (edge :: underway) sorting) :
    ∀ task ∈ placed, graph.missing placed underway task = 0 := by
  intro task hplaced
  have hbefore := htracks.settled task hplaced
  rw [graph.missing_cons] at hbefore
  exact (Nat.add_eq_zero_iff.mp hbefore).1

theorem met_of_no_block (htracks : Tracks graph placed (edge :: underway) sorting)
    (hblock : graph.block? edge.dst.task = none) : Tracks graph placed underway sorting := by
  have hsame : ∀ task block, graph.block? task = some block →
      graph.missing placed (edge :: underway) task = graph.missing placed underway task := by
    intro task block hknown
    refine graph.missing_cons_of_ne _ _ fun hend => ?_
    rw [hend] at hknown
    cases hblock.symm.trans hknown
  refine { htracks with
    unmet := fun task => ?_, ready := fun task => ?_, settled := htracks.settled_tail }
  · rw [htracks.unmet]
    exact Option.map_congr fun block hknown => hsame task block hknown
  · rw [htracks.ready]
    refine and_congr_right fun hknown => ?_
    obtain ⟨block, hknown⟩ := hknown
    rw [hsame task block hknown]

theorem met_of_block (htracks : Tracks graph placed (edge :: underway) sorting) {block : Block}
    (hblock : graph.block? edge.dst.task = some block) :
    Tracks graph placed underway ⟨sorting.unmet.insert edge.dst.task
        (graph.missing placed underway edge.dst.task),
      if graph.missing placed underway edge.dst.task = 0 then
        sorting.ready.insert edge.dst.task
      else sorting.ready⟩ := by
  have hunplaced := htracks.unplaced
  refine { htracks with
    unmet := fun task => ?_, ready := fun task => ?_, settled := htracks.settled_tail }
  · simp only [Std.ExtTreeMap.getElem?_insert, Std.LawfulEqCmp.compare_eq_iff_eq]
    split
    case isTrue hsame => rw [← hsame, hblock, Option.map_some]
    case isFalse hother => rw [htracks.unmet, graph.missing_cons_of_ne _ _ (Ne.symm hother)]
  · by_cases hsame : task = edge.dst.task
    · subst hsame
      -- The edge was still underway, so its block waited for it at least.
      have hbefore : edge.dst.task ∉ sorting.ready := fun hready => by
        cases (graph.missing_cons_self _ _ _).symm.trans ((htracks.ready _).mp hready).2.2
      dsimp only
      split
      case isTrue hlast => simp [hblock, hunplaced, hlast]
      case isFalse hmore => simp [hbefore, hmore]
    · have hready := htracks.ready task
      rw [graph.missing_cons_of_ne _ _ hsame] at hready
      rw [← hready]
      dsimp only
      split
      case isTrue =>
        rw [Std.ExtTreeSet.mem_insert, Std.LawfulEqCmp.compare_eq_iff_eq]
        exact or_iff_right (Ne.symm hsame)
      case isFalse => exact Iff.rfl

theorem met (htracks : Tracks graph placed (edge :: underway) sorting) :
    Tracks graph placed underway (sorting.met edge) := by
  have hcount := htracks.count
  cases hblock : graph.block? edge.dst.task with
  | none =>
      rw [hblock] at hcount
      rw [met_of_unknown hcount]
      exact htracks.met_of_no_block hblock
  | some block =>
      rw [hblock, Option.map_some] at hcount
      rw [met_of_known hcount]
      exact htracks.met_of_block hblock

theorem available_iff (htracks : Tracks graph placed [] sorting)
    {task : TaskId} : task ∈ sorting.ready ↔ graph.Available placed task := by
  have hmissing : graph.missing placed [] task = 0 ↔
      ∀ edge ∈ graph.inputEdges task, edge.src.task ∈ placed := by
    rw [TaskGraph.missing, List.countP_nil, Nat.add_zero, TaskGraph.outstanding_eq_zero_iff]
  rw [htracks.ready, hmissing]
  constructor
  · rintro ⟨hknown, hfresh, hmet⟩
    exact ⟨hknown, hfresh, hmet⟩
  · exact fun havailable => ⟨havailable.known, havailable.fresh, havailable.met⟩

/-- A block that is ready has been placed, and its output edges are underway. -/
theorem place (hgraph : graph.WellFormed) (htracks : Tracks graph placed [] sorting)
    {task : TaskId} (hready : task ∈ sorting.ready) :
    Tracks graph (placed ++ [task]) (graph.outputEdges task)
      { sorting with ready := sorting.ready.erase task } := by
  obtain ⟨hknown, hfresh, hmet⟩ := (htracks.ready task).mp hready
  have hmissing : ∀ other, graph.missing (placed ++ [task]) (graph.outputEdges task) other =
      graph.missing placed [] other := by
    intro other
    rw [TaskGraph.missing, ← hgraph.outstanding_concat hfresh]
    rfl
  constructor
  case unmet =>
    intro other
    rw [hmissing]
    exact htracks.unmet other
  case ready =>
    intro other
    rw [hmissing, Std.ExtTreeSet.mem_erase, htracks.ready, List.mem_append, List.mem_singleton,
      not_or, ne_eq, Std.LawfulEqCmp.compare_eq_iff_eq, @eq_comm _ task other]
    constructor
    · rintro ⟨hother, hblock, hunplaced, hnone⟩
      exact ⟨hblock, ⟨hunplaced, hother⟩, hnone⟩
    · rintro ⟨hblock, ⟨hunplaced, hother⟩, hnone⟩
      exact ⟨hother, hblock, hunplaced, hnone⟩
  case known =>
    intro other hother
    rcases List.mem_append.mp hother with hplaced | hlast
    · exact htracks.known other hplaced
    · rwa [List.mem_singleton.mp hlast]
  case nodup => exact List.concat_eq_append ▸ htracks.nodup.concat hfresh
  case settled =>
    intro other hother
    rw [hmissing]
    rcases List.mem_append.mp hother with hplaced | hlast
    · exact htracks.settled other hplaced
    · rwa [List.mem_singleton.mp hlast]

section Subtraction

variable {F : Type → Type} [Monad F] [LawfulMonad F] {lessen : Nat → F Nat}

/-- It does not matter what would be left of zero. -/
theorem meet_eq (hlessen : ∀ count, lessen (count + 1) = pure count)
    (htracks : Tracks graph placed (edge :: underway) sorting) :
    sorting.meet lessen edge = pure (sorting.met edge) := by
  have hcount := htracks.count
  cases hblock : graph.block? edge.dst.task with
  | none =>
      rw [hblock] at hcount
      rw [met_of_unknown hcount, meet, hcount]
      rfl
  | some block =>
      rw [hblock, Option.map_some] at hcount
      rw [met_of_known hcount, meet, hcount]
      dsimp only
      rw [hlessen, pure_bind]

theorem foldl_met (htracks : Tracks graph placed underway sorting) :
    Tracks graph placed [] (underway.foldl Sorting.met sorting) := by
  induction underway generalizing sorting with
  | nil => exact htracks
  | cons edge rest induction => exact induction htracks.met

theorem foldlM_meet (hlessen : ∀ count, lessen (count + 1) = pure count)
    (htracks : Tracks graph placed underway sorting) :
    underway.foldlM (Sorting.meet lessen) sorting = pure (underway.foldl Sorting.met sorting) := by
  induction underway generalizing sorting with
  | nil => rfl
  | cons edge rest induction =>
      rw [List.foldlM_cons, htracks.meet_eq hlessen, pure_bind, induction htracks.met,
        List.foldl_cons]

end Subtraction

end Tracks

end Sorting

namespace TaskGraph

open Sorting

theorem lessOne_succ (count : Nat) : lessOne (count + 1) = pure count := rfl

theorem lessOne?_succ (count : Nat) : lessOne? (count + 1) = pure count := rfl

variable {graph : TaskGraph} {placed : List TaskId} {sorting : Sorting}

/-- Once the block that comes next has been placed and has met the inputs it can. -/
def nextRound (graph : TaskGraph) (sorting : Sorting) (task : TaskId) : Sorting :=
  (graph.outputEdges task).foldl Sorting.met { sorting with ready := sorting.ready.erase task }

theorem tracks_nextRound (hgraph : graph.WellFormed) (htracks : Tracks graph placed [] sorting)
    {task : TaskId} (hready : task ∈ sorting.ready) :
    Tracks graph (placed ++ [task]) [] (graph.nextRound sorting task) :=
  (htracks.place hgraph hready).foldl_met

theorem placeReady_succ {F : Type → Type} [Monad F] [LawfulMonad F] {lessen : Nat → F Nat}
    (hlessen : ∀ count, lessen (count + 1) = pure count) (hgraph : graph.WellFormed)
    (htracks : Tracks graph placed [] sorting) (rounds : Nat) :
    graph.placeReady lessen (rounds + 1) sorting =
      match sorting.ready.min? with
      | none => pure []
      | some task =>
          (task :: ·) <$> graph.placeReady lessen rounds (graph.nextRound sorting task) := by
  rw [placeReady, ← Std.ExtTreeSet.min?_eq_head?_toList]
  cases hmin : sorting.ready.min? with
  | none => rfl
  | some task =>
      have hready := (Std.ExtTreeSet.min?_eq_some_iff_mem_and_forall.mp hmin).1
      dsimp only
      rw [(htracks.place hgraph hready).foldlM_meet hlessen, pure_bind, map_eq_pure_bind]
      rfl

/-- Without a count that is zero to be lowered, nothing shows of what would be left of zero. -/
theorem placeReady_eq {F : Type → Type} [Monad F] [LawfulMonad F] {lessen : Nat → F Nat}
    (hlessen : ∀ count, lessen (count + 1) = pure count) (hgraph : graph.WellFormed)
    (htracks : Tracks graph placed [] sorting) (rounds : Nat) :
    graph.placeReady lessen rounds sorting =
      pure (Id.run (graph.placeReady lessOne rounds sorting)) := by
  induction rounds generalizing placed sorting with
  | zero => rfl
  | succ rounds induction =>
      rw [placeReady_succ hlessen hgraph htracks,
        placeReady_succ lessOne_succ hgraph htracks]
      cases hmin : sorting.ready.min? with
      | none => rfl
      | some task =>
          have hready := (Std.ExtTreeSet.min?_eq_some_iff_mem_and_forall.mp hmin).1
          dsimp only
          rw [induction (tracks_nextRound hgraph htracks hready), map_pure]
          rfl

/-- With as many rounds as blocks are left, the loop goes on until no block is ready. -/
theorem arranges_placeReady (hgraph : graph.WellFormed) (htracks : Tracks graph placed [] sorting)
    {rounds : Nat} (hrounds : graph.blocks.size ≤ placed.length + rounds) :
    Arranges graph placed (Id.run (graph.placeReady lessOne rounds sorting)) := by
  induction rounds generalizing placed sorting with
  | zero =>
      refine .stop fun task havailable => havailable.fresh ?_
      have hwithin : placed ⊆ graph.taskIds := fun other hother =>
        mem_taskIds_iff.mpr (htracks.known other hother)
      have hlength : graph.taskIds.length ≤ placed.length := by
        rwa [taskIds, Std.ExtTreeMap.length_keys]
      -- As many are placed as there are blocks, so none is left.
      have hall := (List.subperm_of_subset htracks.nodup hwithin).perm_of_length_le hlength
      exact hall.mem_iff.mpr (mem_taskIds_iff.mpr havailable.known)
  | succ rounds induction =>
      rw [placeReady_succ lessOne_succ hgraph htracks]
      cases hmin : sorting.ready.min? with
      | none =>
          rw [Std.ExtTreeSet.min?_eq_none_iff] at hmin
          refine .stop fun task havailable => ?_
          have hready := htracks.available_iff.mpr havailable
          rw [hmin] at hready
          exact Std.ExtTreeSet.not_mem_empty hready
      | some task =>
          obtain ⟨hready, hleast⟩ := Std.ExtTreeSet.min?_eq_some_iff_mem_and_forall.mp hmin
          refine .place (htracks.available_iff.mp hready) (fun other hother => ?_) ?_
          · exact Nat.isLE_compare.mp (hleast other (htracks.available_iff.mpr hother))
          · refine induction (tracks_nextRound hgraph htracks hready) ?_
            rw [List.length_append, List.length_singleton]
            omega

/-! Where the loop begins. -/

theorem getElem?_foldl_countInput (edges : List Edge) (unmet : TaskMap Nat) (task : TaskId) :
    (edges.foldl countInput unmet)[task]? = unmet[task]?.map fun count =>
      count + edges.countP fun edge => decide (edge.dst.task = task) := by
  induction edges generalizing unmet with
  | nil => simp
  | cons edge rest induction =>
      rw [List.foldl_cons, induction, countInput, Std.ExtTreeMap.getElem?_modify]
      by_cases hsame : edge.dst.task = task
      · simp [hsame, Nat.add_assoc, Nat.add_comm 1, Function.comp_def]
      · simp [hsame]

theorem WellFormed.missing_nil (hgraph : graph.WellFormed) (task : TaskId) :
    graph.missing [] [] task =
      graph.edges.values.countP fun edge => decide (edge.dst.task = task) := by
  have hall : (graph.inputEdges task).countP (fun edge => decide (edge.src.task ∉ [])) =
      (graph.inputEdges task).length := by simp
  rw [missing, List.countP_nil, Nat.add_zero, outstanding, hall, List.countP_eq_length_filter]
  apply List.Perm.length_eq
  apply (List.perm_ext_iff_of_nodup (hgraph.nodup_inputEdges task)
    (hgraph.nodup_edges.filter _)).mpr
  intro edge
  rw [hgraph.mem_inputEdges_iff, List.mem_filter, hgraph.mem_edges_iff, decide_eq_true_eq]

theorem unmet_sorting (hgraph : graph.WellFormed) (task : TaskId) :
    graph.sorting.unmet[task]? =
      (graph.block? task).map fun _ => graph.missing [] [] task := by
  rw [TaskGraph.sorting, getElem?_foldl_countInput, getElem?_ofList_map graph.nodup_taskIds,
    hgraph.missing_nil]
  cases hblock : graph.block? task with
  | none =>
      have hunknown : task ∉ graph.taskIds := fun hmember => by
        obtain ⟨block, hknown⟩ := mem_taskIds_iff.mp hmember
        cases hblock.symm.trans hknown
      rw [if_neg hunknown, Option.map_none, Option.map_none]
  | some block =>
      rw [if_pos (mem_taskIds_iff.mpr ⟨block, hblock⟩), Option.map_some, Option.map_some,
        Nat.zero_add]

theorem mem_ready_sorting {task : TaskId} :
    task ∈ graph.sorting.ready ↔ graph.sorting.unmet[task]? = some 0 := by
  rw [TaskGraph.sorting, Std.ExtTreeSet.mem_ofList, List.contains_iff_mem, List.mem_filter,
    decide_eq_true_eq, Std.ExtTreeMap.mem_keys, ← Std.ExtTreeMap.isSome_getElem?_iff_mem]
  exact and_iff_right_of_imp Option.isSome_of_eq_some

theorem tracks_sorting (hgraph : graph.WellFormed) : Tracks graph [] [] graph.sorting where
  unmet := unmet_sorting hgraph
  ready task := by
    rw [mem_ready_sorting, unmet_sorting hgraph]
    cases graph.block? task <;> simp
  known := List.forall_mem_nil _
  nodup := List.nodup_nil
  settled := List.forall_mem_nil _

theorem topologicalOrderBy_eq {F : Type → Type} [Monad F] [LawfulMonad F] {lessen : Nat → F Nat}
    (hlessen : ∀ count, lessen (count + 1) = pure count) (hgraph : graph.WellFormed) :
    graph.topologicalOrderBy lessen = pure graph.topologicalOrder := by
  rw [topologicalOrderBy, placeReady_eq hlessen hgraph (tracks_sorting hgraph), pure_bind]
  unfold topologicalOrder topologicalOrderBy
  dsimp only [bind, Id.run]
  split <;> rfl

end TaskGraph

end TiledPlacement

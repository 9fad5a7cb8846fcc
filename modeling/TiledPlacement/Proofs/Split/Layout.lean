import TiledPlacement.Proofs.Graph.Neighbours
import TiledPlacement.Proofs.Split.Numbering
import TiledPlacement.Proofs.Window.Translation

/-!
What a plan is made of: a copy for each part, for each copy what the edges of the cut block bring
to its ports, and for what an operand brought a copy of that operand.
-/

namespace TiledPlacement

open Execution

/-- What an edge brings to a port of a copy that reads the window `required` there. -/
structure Intake where
  port : Nat
  required : Window
  edge : Edge
  piece : Window

structure OperandCopy where
  block : Block
  feeds : List Connection

structure Feed extends Intake where
  sent : Window
  operand : Option OperandCopy

structure SplitCopy where
  part : SplitPart
  block : Block
  feeds : List Feed
  outputs : List Connection

structure SplitLayout where
  copies : List SplitCopy
  accumulator : Option Block

namespace Feed

/-- Where the data comes from: the producer, or the copy of an operand. -/
def src (feed : Feed) : Endpoint :=
  match feed.operand with
  | none => { feed.edge.src with window := feed.sent }
  | some operand => ⟨operand.block.id, feed.edge.src.port, .full feed.sent.size⟩

def delivery (feed : Feed) (copy : TaskId) : Connection where
  src := feed.src
  dst := ⟨copy, feed.port, feed.required.localize feed.piece⟩
  rearrange := feed.edge.rearrange

def plan (copy : TaskId) (feed : Feed) : SplitPlan :=
  match feed.operand with
  | none => ⟨[], [], [feed.delivery copy]⟩
  | some operand => ⟨[operand.block.id], [operand.block], operand.feeds ++ [feed.delivery copy]⟩

structure Planned (split : Split) (graph : TaskGraph) (feed : Feed) : Prop where
  sent : Split.carry feed.edge feed.edge.dst.window feed.piece feed.edge.src.window = .ok feed.sent
  direct : feed.operand = none → feed.edge.src.task ∉ split.operands
  operand : ∀ copy, feed.operand = some copy → feed.edge.src.task ∈ split.operands ∧
    ∃ original, graph.block? feed.edge.src.task = some original ∧
      original.copyLike copy.block.id feed.sent.size = .ok copy.block ∧
        Split.operandFeeds graph original.id copy.block.id feed.sent = .ok copy.feeds

end Feed

namespace Split

/-- What the edges at the ports of the cut block bring to a copy with so many input ports. -/
def intakes (split : Split) (graph : TaskGraph) (ports : Nat) (window : Window) : List Intake :=
  ((split.computation.inputs.zip split.block.inputs).zipIdx.take ports).flatMap
    fun ((operand, whole), port) =>
      (meeting (graph.edgesAt whole) Edge.dst (operand.2.window window)).map fun (edge, piece) =>
        ⟨port, operand.2.window window, edge, piece⟩

def yield (split : Split) (part : SplitPart) : Window :=
  Computation.output.window (split.window part)

end Split

namespace SplitCopy

def plan (copy : SplitCopy) : SplitPlan :=
  let inputs := SplitPlan.concat (copy.feeds.map (Feed.plan copy.block.id))
  { created := copy.block.id :: inputs.created
    blocks := inputs.blocks ++ [copy.block]
    edges := inputs.edges ++ copy.outputs }

structure Planned (split : Split) (graph : TaskGraph) (accumulator : Option TaskId)
    (copy : SplitCopy) : Prop where
  made : Block.ofComputation copy.block.id
    (copy.part.computation split.computation split.factors split.reduces) = .ok copy.block
  intakes : copy.feeds.map Feed.toIntake =
    split.intakes graph copy.block.inputs.length (split.window copy.part)
  feeds : ∀ feed ∈ copy.feeds, feed.Planned split graph
  outputs : match accumulator with
    | some accumulator => copy.outputs =
        [Split.addendEdge copy.block.id accumulator copy.part.addend (split.yield copy.part)]
    | none => split.deliveries graph copy.block.id (split.yield copy.part) = .ok copy.outputs

end SplitCopy

namespace SplitLayout

def sums (split : Split) (graph : TaskGraph) (layout : SplitLayout) : SplitPlan :=
  match layout.accumulator with
  | none => .empty
  | some block => ⟨[block.id], [block], (split.outputEdges graph).map fun edge =>
      { edge.connection with src := ⟨block.id, 0, edge.src.window⟩ }⟩

def plan (split : Split) (graph : TaskGraph) (layout : SplitLayout) : SplitPlan :=
  (SplitPlan.concat (layout.copies.map SplitCopy.plan)).append (layout.sums split graph)

structure Planned (split : Split) (graph : TaskGraph) (layout : SplitLayout) : Prop where
  parts : layout.copies.map SplitCopy.part = split.parts
  copies : ∀ copy ∈ layout.copies,
    copy.Planned split graph (layout.accumulator.map Block.id)
  reduces : layout.accumulator.isSome = split.reduces
  accumulator : ∀ block, layout.accumulator = some block →
    Block.ofComputation block.id split.accumulation = .ok block

end SplitLayout

/-! Planning yields such a layout. -/

namespace SplitPlan

private theorem append_assoc (first second third : SplitPlan) :
    (first.append second).append third = first.append (second.append third) := by
  simp only [append, List.append_assoc]

theorem concat_append (first second : List SplitPlan) :
    concat (first ++ second) = (concat first).append (concat second) := by
  induction first with
  | nil => rfl
  | cons plan rest induction =>
      rw [List.cons_append]
      change plan.append (concat (rest ++ second)) = _
      rw [induction, ← append_assoc]
      rfl

theorem blocks_concat (plans : List SplitPlan) : (concat plans).blocks = plans.flatMap blocks := by
  induction plans with
  | nil => rfl
  | cons plan rest induction =>
      rw [List.flatMap_cons, ← induction]
      rfl

theorem created_concat (plans : List SplitPlan) :
    (concat plans).created = plans.flatMap created := by
  induction plans with
  | nil => rfl
  | cons plan rest induction =>
      rw [List.flatMap_cons, ← induction]
      rfl

theorem mem_edges_concat_iff {α : Type} {list : List α} {plan : α → SplitPlan}
    {connection : Connection} :
    connection ∈ (concat (list.map plan)).edges ↔
      ∃ element ∈ list, connection ∈ (plan element).edges := by
  induction list with
  | nil => exact ⟨fun hmember => (nomatch hmember), fun ⟨_, hmember, _⟩ => (nomatch hmember)⟩
  | cons element rest induction =>
      change connection ∈ (plan element).edges ++ (concat (rest.map plan)).edges ↔ _
      rw [List.mem_append, induction, List.exists_mem_cons_iff]

/-- Plans made one after the other from records of which each element asks for some. -/
theorem ends_mapM_collect {α κ ρ : Type} {planner : α → Planner SplitPlan} {key : ρ → κ}
    {asked : α → List κ} {planned : ρ → Prop} {plan : ρ → SplitPlan} {list : List α}
    (hplanner : ∀ element ∈ list, ∀ ids, Ends (planner element) ids
      (fun made _ => ∃ records : List ρ, records.map key = asked element ∧
        (∀ record ∈ records, planned record) ∧ made = concat (records.map plan))
      (fun _ _ => True)) (ids : IdSource) :
    Ends (list.mapM planner) ids
      (fun plans _ => ∃ records : List ρ, records.map key = list.flatMap asked ∧
        (∀ record ∈ records, planned record) ∧ concat plans = concat (records.map plan))
      (fun _ _ => True) := by
  induction list generalizing ids with
  | nil => exact ⟨[], rfl, fun _ hmember => (nomatch hmember), rfl⟩
  | cons element rest induction =>
      rw [ends_mapM_cons]
      refine (hplanner element List.mem_cons_self ids).mono (fun made middle hmade => ?_)
        (fun _ _ _ => trivial)
      obtain ⟨first, hfirstKeys, hfirst, rfl⟩ := hmade
      have hrest := induction
        (fun other hother => hplanner other (List.mem_cons_of_mem _ hother)) middle
      refine hrest.mono (fun plans _ hplans => ?_) (fun _ _ _ => trivial)
      obtain ⟨second, hsecondKeys, hsecond, hconcat⟩ := hplans
      refine ⟨first ++ second, ?_, fun record hrecord => ?_, ?_⟩
      · rw [List.map_append, hfirstKeys, hsecondKeys, List.flatMap_cons]
      · rcases List.mem_append.mp hrecord with hleft | hright
        · exact hfirst record hleft
        · exact hsecond record hright
      · rw [List.map_append, concat_append, ← hconcat]
        rfl

end SplitPlan

namespace Split

open SplitPlan

variable {split : Split} {graph : TaskGraph}

private theorem concat_singleton (plan : SplitPlan) : concat [plan] = plan := by
  simp only [concat, List.foldr_cons, List.foldr_nil, append, empty, List.append_nil]

private theorem ends_planFeed_layout (copy : TaskId) (intake : Intake) (ids : IdSource) :
    Ends (split.planFeed graph copy intake.port intake.required intake.edge intake.piece) ids
      (fun made _ => ∃ feeds : List Feed, feeds.map Feed.toIntake = [intake] ∧
        (∀ feed ∈ feeds, feed.Planned split graph) ∧
          made = concat (feeds.map (Feed.plan copy)))
      (fun _ _ => True) := by
  have hsingle : ∀ (feed : Feed) (made : SplitPlan), feed.toIntake = intake →
      feed.Planned split graph → made = feed.plan copy →
      ∃ feeds : List Feed, feeds.map Feed.toIntake = [intake] ∧
        (∀ feed ∈ feeds, feed.Planned split graph) ∧
          made = concat (feeds.map (Feed.plan copy)) := by
    intro feed made hintake hplanned hmade
    refine ⟨[feed], congrArg (fun other => [other]) hintake, fun other hother => ?_, ?_⟩
    · rw [List.mem_singleton.mp hother]
      exact hplanned
    · rw [List.map_singleton, concat_singleton]
      exact hmade
  unfold planFeed
  rw [ends_bind, Planner.ends_ofExcept]
  refine ⟨fun sent hsent => ?_, fun _ _ => trivial⟩
  dsimp only
  split
  case isFalse hshared =>
    refine hsingle ⟨intake, sent, none⟩ _ rfl ⟨hsent, fun _ => hshared, fun _ hnone => ?_⟩ rfl
    cases hnone
  case isTrue hoperand =>
    unfold planOperand
    rw [ends_bind, Planner.ends_ofExcept]
    refine ⟨fun original horiginal => ?_, fun _ _ => trivial⟩
    rw [ends_bind, Planner.ends_takeTaskId, ends_bind, Planner.ends_ofExcept]
    refine ⟨fun block hblock => ?_, fun _ _ => trivial⟩
    rw [ends_bind, Planner.ends_ofExcept]
    refine ⟨fun feeds hfeeds => ?_, fun _ _ => trivial⟩
    obtain ⟨hid, -, -⟩ := Block.copyLike_ok hblock
    rw [← hid] at hblock hfeeds ⊢
    refine hsingle ⟨intake, sent, some ⟨block, feeds⟩⟩ _ rfl ⟨hsent, fun hnone => ?_, ?_⟩ rfl
    · cases hnone
    · intro operand hsome
      obtain rfl := Option.some.inj hsome
      refine ⟨hoperand, original, ?_, hblock, hfeeds⟩
      unfold TaskGraph.block at horiginal
      cases hfound : graph.block? intake.edge.src.task with
      | none =>
          rw [hfound] at horiginal
          cases horiginal
      | some found =>
          rw [hfound] at horiginal
          exact congrArg some (Except.ok.inj horiginal)

private theorem ends_planInputs_layout (copy : TaskId) (ports : Nat) (window : Window)
    (ids : IdSource) :
    Ends (split.planInputs graph copy ports window) ids
      (fun made _ => ∃ feeds : List Feed,
        feeds.map Feed.toIntake = split.intakes graph ports window ∧
          (∀ feed ∈ feeds, feed.Planned split graph) ∧
            made = concat (feeds.map (Feed.plan copy)))
      (fun _ _ => True) := by
  unfold planInputs
  rw [ends_bind]
  refine (@ends_mapM_collect _ _ _ _ Feed.toIntake _ _ _ _ ?_ ids).mono
    (fun _ _ hmade => hmade) (fun _ _ _ => trivial)
  intro entry _ start
  obtain ⟨⟨operand, whole⟩, port⟩ := entry
  dsimp only
  rw [ends_bind]
  have hfeeds := @ends_mapM_collect _ _ _
    (fun (edge, part) => split.planFeed graph copy port (operand.2.window window) edge part)
    Feed.toIntake (fun (edge, part) => [⟨port, operand.2.window window, edge, part⟩])
    (Feed.Planned split graph) (Feed.plan copy)
    (meeting (graph.edgesAt whole) Edge.dst (operand.2.window window))
    (fun (edge, part) _ start => ends_planFeed_layout copy ⟨port, _, edge, part⟩ start) start
  refine hfeeds.mono (fun plans _ hplans => ?_) (fun _ _ _ => trivial)
  obtain ⟨feeds, hkeys, hplanned, hconcat⟩ := hplans
  refine ⟨feeds, ?_, hplanned, hconcat⟩
  rw [hkeys]
  exact List.map_eq_flatMap.symm

private theorem ends_planCopy_layout (accumulator : Option TaskId) (part : SplitPart)
    (ids : IdSource) :
    Ends (split.planCopy graph accumulator part) ids
      (fun made _ => ∃ copies : List SplitCopy, copies.map SplitCopy.part = [part] ∧
        (∀ copy ∈ copies, copy.Planned split graph accumulator) ∧
          made = concat (copies.map SplitCopy.plan))
      (fun _ _ => True) := by
  unfold planCopy
  rw [ends_bind, Planner.ends_takeTaskId, ends_bind, Planner.ends_ofExcept]
  refine ⟨fun block hblock => ?_, fun _ _ => trivial⟩
  obtain ⟨hid, -, -⟩ := Block.ofComputation_ok hblock
  rw [ends_bind]
  refine (ends_planInputs_layout _ _ _ _).mono (fun inputs after hinputs => ?_)
    (fun _ _ _ => trivial)
  obtain ⟨feeds, hintakes, hfeeds, rfl⟩ := hinputs
  rw [← hid] at hblock ⊢
  have hcopy : ∀ outputs, SplitCopy.Planned split graph accumulator ⟨part, block, feeds, outputs⟩ →
      ∃ copies : List SplitCopy, copies.map SplitCopy.part = [part] ∧
        (∀ copy ∈ copies, copy.Planned split graph accumulator) ∧
          (SplitPlan.mk (block.id :: (concat (feeds.map (Feed.plan block.id))).created)
            ((concat (feeds.map (Feed.plan block.id))).blocks ++ [block])
            ((concat (feeds.map (Feed.plan block.id))).edges ++ outputs)) =
              concat (copies.map SplitCopy.plan) := by
    intro outputs hplanned
    refine ⟨[⟨part, block, feeds, outputs⟩], rfl, fun other hother => ?_, ?_⟩
    · rw [List.mem_singleton.mp hother]
      exact hplanned
    · rw [List.map_singleton, concat_singleton]
      rfl
  cases accumulator with
  | some accumulator => exact hcopy _ ⟨hblock, hintakes, hfeeds, rfl⟩
  | none =>
      rw [ends_bind, Planner.ends_ofExcept]
      exact ⟨fun outputs houtputs => hcopy outputs ⟨hblock, hintakes, hfeeds, houtputs⟩,
        fun _ _ => trivial⟩

/-- A plan is that of a layout, its repeated connections made once. -/
theorem ends_plan_layout (ids : IdSource) :
    Ends (split.plan graph) ids
      (fun made _ => ∃ layout : SplitLayout, layout.Planned split graph ∧
        made = { layout.plan split graph with edges := (layout.plan split graph).edges.eraseDups })
      (fun _ _ => True) := by
  have hcopies : ∀ (accumulator : Option TaskId) (start : IdSource),
      Ends (split.parts.mapM (split.planCopy graph accumulator)) start
        (fun plans _ => ∃ copies : List SplitCopy, copies.map SplitCopy.part = split.parts ∧
          (∀ copy ∈ copies, copy.Planned split graph accumulator) ∧
            concat plans = concat (copies.map SplitCopy.plan))
        (fun _ _ => True) := by
    intro accumulator start
    have hcollect := @ends_mapM_collect _ _ _ (split.planCopy graph accumulator)
      SplitCopy.part (fun part => [part]) (SplitCopy.Planned split graph accumulator)
      SplitCopy.plan split.parts (fun part _ start => ends_planCopy_layout accumulator part start)
      start
    rwa [List.flatMap_singleton'] at hcollect
  unfold plan
  dsimp only
  by_cases hreduces : split.reduces = true
  · rw [if_pos hreduces, ends_bind, ends_map, Planner.ends_takeTaskId, ends_bind]
    refine (hcopies _ _).mono (fun plans after hplans => ?_) (fun _ _ _ => trivial)
    obtain ⟨copies, hparts, hplanned, hconcat⟩ := hplans
    dsimp only
    rw [ends_bind, Planner.ends_ofExcept]
    refine ⟨fun sums hsums => ?_, fun _ _ => trivial⟩
    unfold planAccumulator at hsums
    obtain ⟨block, hblock, hsums⟩ := bind_eq_ok_iff.mp hsums
    obtain ⟨hid, -, -⟩ := Block.ofComputation_ok hblock
    cases hsums
    rw [← hid] at hblock hplanned
    refine ⟨⟨copies, some block⟩, ⟨hparts, hplanned, hreduces.symm, fun other hother => ?_⟩, ?_⟩
    · obtain rfl := Option.some.inj hother
      exact hblock
    · rw [hconcat, ← hid]
      rfl
  · rw [if_neg hreduces, ends_bind, ends_pure, ends_bind]
    refine (hcopies _ _).mono (fun plans after hplans => ?_) (fun _ _ _ => trivial)
    obtain ⟨copies, hparts, hplanned, hconcat⟩ := hplans
    refine ⟨⟨copies, none⟩, ⟨hparts, hplanned, ?_, fun other hother => ?_⟩, ?_⟩
    · exact (Bool.not_eq_true _ ▸ hreduces).symm
    · cases hother
    · rw [hconcat]
      rfl

end Split

end TiledPlacement

import Mathlib.Data.List.Flatten
import Mathlib.Data.List.Perm.Subperm
import TiledPlacement.Proofs.Split.Creation
import TiledPlacement.Proofs.Split.Deliveries
import TiledPlacement.Proofs.Split.Field

/-!
Splits that succeed. Planning stops only where a copy would read nothing but padding or where an
edge that rearranges its data would be cut, and a plan that could be made for a separable
computation is carried out if there are ids enough.
-/

namespace TiledPlacement

open Execution

theorem Planner.returns_ofExcept_bind {result : Except GraphError α} {value : α}
    {next : α → Planner β} (hok : result = .ok value) (hnext : Returns (next value)) :
    Returns (Planner.ofExcept result >>= next) := by
  subst hok
  exact hnext

theorem Planner.returns_ofExcept {result : Except GraphError α}
    (hok : ∃ value, result = .ok value) : Returns (Planner.ofExcept result) := by
  obtain ⟨value, rfl⟩ := hok
  exact Returns.pure value

theorem Planner.returns_takeTaskId : Returns Planner.takeTaskId := fun _ => trivial

namespace Split

variable {split : Split} {graph : TaskGraph} {task : TaskId} {vector : SplitVector}

theorem carry_identity {edge : Edge} (hidentity : edge.isIdentity = true)
    (here part there : Window) : carry edge here part there = .ok (here.project part there) :=
  if_pos hidentity

theorem overlap_volume_pos {left right part : Window} (hpart : overlap? left right = some part) :
    0 < part.volume := by
  obtain ⟨-, hpositive⟩ := Option.filter_eq_some_iff.mp hpart
  exact of_decide_eq_true hpositive

theorem exists_cuts {computation : Computation} {factors : SplitVector} (hgraph : graph.WellFormed)
    (hpayload : graph.payload? task = some (.computation computation))
    (hfactors : computation.effectiveFactors task vector = .ok factors) :
    ∃ split : Split, split.Cuts graph task vector ∧ split.computation = computation ∧
      split.factors = factors := by
  obtain ⟨block, hblock, hcomputes⟩ := TaskGraph.payload?_eq_some_iff.mp hpayload
  exact ⟨⟨block, computation, factors, graph.operands task⟩,
    ⟨hgraph, hblock, hcomputes, hfactors, rfl⟩, rfl, rfl⟩

/-- Nothing stands in the way of planning: no edge about the computation rearranges its data, what
is computed of the kernel are words, and each copy reads some of the input. -/
structure Unhindered (split : Split) (graph : TaskGraph) (task : TaskId) : Prop where
  identity : ∀ edge, graph.edge? edge.id = some edge →
    edge.src.task = task ∨ edge.dst.task = task ∨ edge.dst.task ∈ graph.operands task →
      edge.isIdentity = true
  kernel : split.computation.KernelBounded
  meets : ∀ part ∈ split.parts, part.MeetsInput split.computation split.factors

section Planning

variable (hcuts : split.Cuts graph task vector) (hunhindered : split.Unhindered graph task)
include hcuts

theorem Cuts.check (copy : TaskId) : split.computation.check copy = .ok () := by
  have hvalid := (hcuts.wellFormed.block_shaped hcuts.block).valid
  rw [hcuts.payload] at hvalid
  exact Computation.check_eq_ok_iff.mpr hvalid

theorem Cuts.ofComputation_part (hkernel : split.computation.KernelBounded) {part : SplitPart}
    (hpart : part ∈ split.parts) (hmeets : part.MeetsInput split.computation split.factors)
    (copy : TaskId) :
    ∃ block, Block.ofComputation copy
      (part.computation split.computation split.factors split.reduces) = .ok block := by
  have hcheck : (part.computation split.computation split.factors split.reduces).check copy =
      .ok () := (SplitPart.check_computation_iff hkernel (hcuts.check copy) hpart).mpr hmeets
  unfold Block.ofComputation
  rw [hcheck]
  exact ⟨_, rfl⟩

theorem Cuts.ofComputation_accumulation (hreduces : split.reduces = true) (copy : TaskId) :
    ∃ block, Block.ofComputation copy split.accumulation = .ok block := by
  have hcheck : split.accumulation.check copy = .ok () := by
    rw [Computation.check_eq_ok_iff]
    refine ⟨Computation.shapeFault?_eq_none_iff.mpr
        ⟨fun axis haxis => ?_, fun window hwindow => ?_⟩,
      fun hbias => nomatch hbias.1⟩
    · have hf := Computation.has_f hcuts.valid
      have hr : 1 < split.factors.r := by
        unfold reduces at hreduces
        rw [Bool.and_eq_true, decide_eq_true_eq] at hreduces
        exact hreduces.1
      have hcases : axis = .f ∨ axis = .r := by
        simpa [accumulation, Operation.requiredAxes] using haxis
      rcases hcases with rfl | rfl
      · exact hf
      · exact decide_eq_true (Nat.lt_of_succ_lt hr)
    · cases hwindow
  unfold Block.ofComputation
  rw [hcheck]
  exact ⟨_, rfl⟩

include hunhindered

theorem returns_planOperand {edge : Edge} {part : Window} {dst : Endpoint}
    (hoperand : edge.src.task ∈ split.operands) (hpart : 0 < part.volume) :
    Returns (planOperand graph edge part dst) := by
  have hgraph := hcuts.wellFormed
  rw [hcuts.operands] at hoperand
  obtain ⟨⟨storage, hstorage⟩, -, -⟩ := hgraph.mem_operands_iff.mp hoperand
  obtain ⟨original, horiginal, hpayload⟩ := TaskGraph.payload?_eq_some_iff.mp hstorage
  have hfound : graph.block edge.src.task = .ok original := by rw [TaskGraph.block, horiginal]
  refine Planner.returns_ofExcept_bind hfound ?_
  refine Returns.bind Planner.returns_takeTaskId fun copy => ?_
  obtain ⟨block, hblock⟩ : ∃ block, original.copyLike copy part.size = .ok block := by
    unfold Block.copyLike Block.ofStorage
    rw [hpayload]
    exact ⟨_, if_neg (Nat.ne_of_gt hpart)⟩
  obtain ⟨feeds, hfeeds⟩ : ∃ feeds, operandFeeds graph original.id copy part = .ok feeds := by
    refine exists_mapM_ok fun entry hentry => ?_
    obtain ⟨upstream, piece⟩ := entry
    obtain ⟨hmember, -⟩ := mem_meeting_iff.mp hentry
    rw [hgraph.block_id horiginal] at hmember
    obtain ⟨hknown, hdst⟩ := hgraph.mem_inputEdges_iff.mp hmember
    have hidentity := hunhindered.identity upstream hknown (Or.inr (Or.inr (hdst ▸ hoperand)))
    exact ⟨_, by dsimp only; rw [carry_identity hidentity]; rfl⟩
  refine Planner.returns_ofExcept_bind hblock (Planner.returns_ofExcept_bind hfeeds ?_)
  exact Returns.pure _

theorem returns_planFeed {copy : TaskId} {port : Nat} {required : Window} {edge : Edge}
    {part : Window} (hknown : graph.edge? edge.id = some edge) (hdst : edge.dst.task = task)
    (hpart : 0 < part.volume) : Returns (split.planFeed graph copy port required edge part) := by
  have hidentity := hunhindered.identity edge hknown (Or.inr (Or.inl hdst))
  refine Planner.returns_ofExcept_bind (carry_identity hidentity _ _ _) ?_
  dsimp only
  split
  case isTrue hoperand => exact returns_planOperand hcuts hunhindered hoperand hpart
  case isFalse => exact Returns.pure _

theorem returns_planInputs (copy : TaskId) (ports : Nat) (window : Window) :
    Returns (split.planInputs graph copy ports window) := by
  refine Returns.bind (Returns.mapM fun entry hentry => ?_) fun plans => Returns.pure _
  obtain ⟨⟨operand, whole⟩, port⟩ := entry
  have hport : graph.port? .input task port = some whole := by
    have hzip := List.mem_zipIdx_iff_getElem?.mp (List.mem_of_mem_take hentry)
    exact TaskGraph.port?_eq_some_iff.mpr
      ⟨split.block, hcuts.block, (List.getElem?_zip_eq_some.mp hzip).2⟩
  refine Returns.bind (Returns.mapM fun met hmet => ?_) fun feeds => Returns.pure _
  obtain ⟨edge, part⟩ := met
  obtain ⟨hmember, hpart⟩ := mem_meeting_iff.mp hmet
  obtain ⟨hknown, hnames⟩ := (hcuts.wellFormed.mem_edgesAt_iff hport).mp hmember
  exact returns_planFeed hcuts hunhindered hknown hnames.1 (overlap_volume_pos hpart)

theorem returns_planCopy (accumulator : Option TaskId) {part : SplitPart}
    (hpart : part ∈ split.parts) : Returns (split.planCopy graph accumulator part) := by
  refine Returns.bind Planner.returns_takeTaskId fun copy => ?_
  obtain ⟨block, hblock⟩ := hcuts.ofComputation_part hunhindered.kernel hpart
    (hunhindered.meets part hpart) copy
  refine Planner.returns_ofExcept_bind hblock
    (Returns.bind (returns_planInputs hcuts hunhindered _ _ _) fun inputs => ?_)
  cases accumulator with
  | some accumulator => exact Returns.pure _
  | none =>
      refine Returns.bind (Planner.returns_ofExcept (exists_mapM_ok fun entry hentry => ?_))
        fun outputs => Returns.pure _
      obtain ⟨edge, piece⟩ := entry
      obtain ⟨hmember, -⟩ := mem_meeting_iff.mp hentry
      obtain ⟨hknown, hsrc⟩ := hcuts.mem_outputEdges_iff.mp hmember
      have hidentity := hunhindered.identity edge hknown (Or.inl hsrc)
      exact ⟨_, by dsimp only; rw [carry_identity hidentity]; rfl⟩

theorem returns_plan : Returns (split.plan graph) := by
  have hcopies : ∀ (accumulator : Option TaskId) {next : List SplitPlan → Planner SplitPlan},
      (∀ copies, Returns (next copies)) →
        Returns (split.parts.mapM (split.planCopy graph accumulator) >>= next) :=
    fun accumulator _ hnext => Returns.bind
      (Returns.mapM fun part hpart => returns_planCopy hcuts hunhindered accumulator hpart) hnext
  unfold plan
  by_cases hreduces : split.reduces = true
  · rw [if_pos hreduces]
    refine Returns.bind (Returns.bind Planner.returns_takeTaskId fun _ => Returns.pure _)
      fun accumulator => hcopies accumulator fun copies => ?_
    cases accumulator with
    | none => exact Returns.pure _
    | some accumulator =>
        obtain ⟨block, hblock⟩ := hcuts.ofComputation_accumulation hreduces accumulator
        refine Returns.bind (Planner.returns_ofExcept ?_) fun sums => Returns.pure _
        exact ⟨_, by rw [planAccumulator, hblock]; rfl⟩
  · rw [if_neg hreduces]
    exact hcopies none fun copies => Returns.pure _

end Planning

/-! How many ids a split takes, when no more than `degree` edges start or end at any one block. -/

theorem length_flatMap_le {α β : Type} {list : List α} {next : α → List β} {bound : Nat}
    (hnext : ∀ element ∈ list, (next element).length ≤ bound) :
    (list.flatMap next).length ≤ list.length * bound := by
  induction list with
  | nil => exact Nat.zero_le _
  | cons first rest induction =>
      have hfirst := hnext first List.mem_cons_self
      have hrest := induction fun element hmember => hnext element (List.mem_cons_of_mem _ hmember)
      rw [List.flatMap_cons, List.length_append, List.length_cons, Nat.succ_mul]
      omega

theorem edges_concat (plans : List SplitPlan) :
    (SplitPlan.concat plans).edges = plans.flatMap SplitPlan.edges := by
  induction plans with
  | nil => rfl
  | cons plan rest induction =>
      rw [List.flatMap_cons, ← induction]
      rfl

theorem length_of_mapM_ok {ε α β : Type} {list : List α} {change : α → Except ε β}
    {values : List β} (hvalues : list.mapM change = .ok values) :
    values.length = list.length := by
  induction list generalizing values with
  | nil =>
      cases hvalues
      rfl
  | cons first rest induction =>
      rw [List.mapM_cons] at hvalues
      obtain ⟨value, -, hvalues⟩ := bind_eq_ok_iff.mp hvalues
      obtain ⟨others, hothers, hvalues⟩ := bind_eq_ok_iff.mp hvalues
      cases hvalues
      rw [List.length_cons, List.length_cons, induction hothers]

theorem length_meeting_le (edges : List Edge) (side : Edge → Endpoint) (window : Window) :
    (meeting edges side window).length ≤ edges.length :=
  List.length_filterMap_le _ _

section Size

variable {degree : Nat} {layout : SplitLayout} (hcuts : split.Cuts graph task vector)
  (hinputs : ∀ other, (graph.inputEdges other).length ≤ degree)
  (houtputs : ∀ other, (graph.outputEdges other).length ≤ degree)

include hinputs

theorem length_operandFeeds_le {operand copy : TaskId} {part : Window} {feeds : List Connection}
    (hfeeds : operandFeeds graph operand copy part = .ok feeds) : feeds.length ≤ degree := by
  rw [length_of_mapM_ok hfeeds]
  exact Nat.le_trans (length_meeting_le _ _ _) (hinputs operand)

theorem length_edges_feed_le {feed : Feed} (hfeed : feed.Planned split graph) (copy : TaskId) :
    (feed.plan copy).edges.length ≤ degree + 1 := by
  unfold Feed.plan
  cases hoperand : feed.operand with
  | none => exact Nat.le_add_left 1 degree
  | some operand =>
      obtain ⟨-, original, -, -, hfeeds⟩ := hfeed.operand operand hoperand
      have hlength := length_operandFeeds_le hinputs hfeeds
      simp only [List.length_append, List.length_singleton]
      omega

include hcuts

theorem length_intakes_le (ports : Nat) (window : Window) :
    (split.intakes graph ports window).length ≤ degree := by
  have honce : ((split.intakes graph ports window).map Intake.edge).Nodup := by
    refine (nodup_intakes hcuts ports window).map_on fun left hleft right hright hedge => ?_
    obtain ⟨-, -, -, hnames, -⟩ := (mem_intakes_iff hcuts).mp hleft
    obtain ⟨-, -, -, hothers, -⟩ := (mem_intakes_iff hcuts).mp hright
    refine intake_unique hcuts hleft hright ?_ hedge
    rw [← hnames.2, ← hothers.2, hedge]
  have hamong : (split.intakes graph ports window).map Intake.edge ⊆ graph.inputEdges task := by
    intro edge hedge
    obtain ⟨intake, hintake, rfl⟩ := List.mem_map.mp hedge
    obtain ⟨-, -, hknown, hnames, -⟩ := (mem_intakes_iff hcuts).mp hintake
    exact hcuts.wellFormed.mem_inputEdges_iff.mpr ⟨hknown, hnames.1⟩
  have hlength := (honce.subperm hamong).length_le
  rw [List.length_map] at hlength
  exact Nat.le_trans hlength (hinputs task)

theorem length_feeds_le {accumulator : Option TaskId} {copy : SplitCopy}
    (hcopied : copy.Planned split graph accumulator) : copy.feeds.length ≤ degree := by
  rw [← List.length_map Feed.toIntake, hcopied.intakes]
  exact length_intakes_le hcuts hinputs _ _

omit hinputs in
include houtputs in
theorem length_outputEdges_le : (split.outputEdges graph).length ≤ degree := by
  have hlisted : (split.outputEdges graph).Sublist (graph.outputEdges task) := by
    rw [TaskGraph.outputEdges, hcuts.block]
    simp only [Block.outputEdges, List.filterMap_flatMap]
    exact (List.take_sublist 1 _).flatMap graph.edgesAt
  exact Nat.le_trans hlisted.length_le (houtputs task)

include houtputs

theorem length_edges_copy_le (hplanned : layout.Planned split graph) {copy : SplitCopy}
    (hcopy : copy ∈ layout.copies) : copy.plan.edges.length ≤ (degree + 1) * (degree + 1) := by
  have hcopied := hplanned.copies copy hcopy
  have hfeeds := length_feeds_le hcuts hinputs hcopied
  have hbrought : (SplitPlan.concat (copy.feeds.map (Feed.plan copy.block.id))).edges.length ≤
      degree * (degree + 1) := by
    rw [edges_concat, List.flatMap_map]
    refine Nat.le_trans (length_flatMap_le fun feed hfeed => ?_) (Nat.mul_le_mul_right _ hfeeds)
    exact length_edges_feed_le hinputs (hcopied.feeds feed hfeed) _
  have hsent : copy.outputs.length ≤ degree + 1 := by
    have hmade := hcopied.outputs
    cases haccumulator : layout.accumulator.map Block.id with
    | some accumulator =>
        rw [haccumulator] at hmade
        rw [hmade]
        exact Nat.le_add_left 1 degree
    | none =>
        rw [haccumulator] at hmade
        rw [length_of_mapM_ok hmade]
        exact Nat.le_trans (length_meeting_le _ _ _)
          (Nat.le_succ_of_le (length_outputEdges_le hcuts houtputs))
  have hedges : copy.plan.edges.length =
      (SplitPlan.concat (copy.feeds.map (Feed.plan copy.block.id))).edges.length +
        copy.outputs.length := List.length_append
  rw [hedges, Nat.succ_mul degree]
  exact Nat.add_le_add hbrought hsent

omit houtputs in
/-- A copy takes an id for itself and one for each of its operands. -/
theorem length_created_le (hplanned : layout.Planned split graph) :
    (layout.plan split graph).created.length ≤ layout.copies.length * (degree + 1) + 1 := by
  have hentries : (layout.entries.flatMap SplitEntry.tasks).length ≤
      layout.copies.length * (degree + 1) := by
    rw [← List.length_map SplitCopy.entry]
    refine length_flatMap_le fun entry hentry => ?_
    obtain ⟨copy, hcopy, rfl⟩ := List.mem_map.mp hentry
    have hfeeds := length_feeds_le hcuts hinputs (hplanned.copies copy hcopy)
    exact Nat.succ_le_succ (Nat.le_trans (List.length_filterMap_le _ _) hfeeds)
  have hsum : ((layout.accumulator.map Block.id).toList).length ≤ 1 := by
    cases layout.accumulator with
    | none => exact Nat.zero_le 1
    | some block => exact Nat.le_refl 1
  rw [SplitLayout.created_plan, List.length_append]
  exact Nat.add_le_add hentries hsum

/-- An edge is made for each feed of an operand, each delivery and each output. -/
theorem length_edges_le (hplanned : layout.Planned split graph) :
    (layout.plan split graph).edges.length ≤
      layout.copies.length * ((degree + 1) * (degree + 1)) + degree := by
  have hmade : (SplitPlan.concat (layout.copies.map SplitCopy.plan)).edges.length ≤
      layout.copies.length * ((degree + 1) * (degree + 1)) := by
    rw [edges_concat, List.flatMap_map]
    exact length_flatMap_le fun copy hcopy =>
      length_edges_copy_le hcuts hinputs houtputs hplanned hcopy
  have hsums : (layout.sums split graph).edges.length ≤ degree := by
    unfold SplitLayout.sums
    cases layout.accumulator with
    | none => exact Nat.zero_le degree
    | some block =>
        rw [List.length_map]
        exact length_outputEdges_le hcuts houtputs
  have hlength : (layout.plan split graph).edges.length =
      (SplitPlan.concat (layout.copies.map SplitCopy.plan)).edges.length +
        (layout.sums split graph).edges.length := List.length_append
  rw [hlength]
  exact Nat.add_le_add hmade hsums

theorem length_plan_le {plan : SplitPlan} {after : IdSource}
    (hrun : split.plan graph graph.ids = .ok plan after) :
    plan.created.length ≤ split.parts.length * (degree + 1) + 1 ∧
      plan.edges.length ≤ split.parts.length * ((degree + 1) * (degree + 1)) + degree := by
  obtain ⟨layout, hplanned, rfl⟩ := (ends_plan_layout graph.ids).of_ok hrun
  have honce : ((layout.plan split graph).edges.eraseDups).length ≤
      (layout.plan split graph).edges.length := by
    have hnodup : ((layout.plan split graph).edges.eraseDups).Nodup :=
      pairwise_eraseDups _ (List.pairwise_of_forall fun _ _ => em _)
    exact (hnodup.subperm fun _ hmember => List.mem_eraseDups.mp hmember).length_le
  rw [← hplanned.parts, List.length_map]
  exact ⟨length_created_le hcuts hinputs hplanned,
    Nat.le_trans honce (length_edges_le hcuts hinputs houtputs hplanned)⟩

end Size

/-! Carrying the plan out. -/

theorem keeps_ids_remove (ids : IdSource) (other : TaskId) :
    Keeps (fun left : TaskGraph => left.ids = ids)
      (discard (TaskGraph.removeBlockDeferred other)) :=
  Keeps.discard fun left hleft =>
    (TaskGraph.Evolves.ends_removeBlock_ids left other).mono (fun _ _ hsame => hsame.trans hleft)
      (fun _ _ hsame => hsame.trans hleft)

/-- A block whose id is spent already takes no id. -/
theorem keeps_ids_insert {ids : IdSource} {block : Block} (hspent : block.id.raw < ids.next) :
    Keeps (fun left : TaskGraph => left.ids = ids) (TaskGraph.insertBlockDeferred block) := by
  intro left hleft
  refine (TaskGraph.ends_insertBlockDeferred left block).mono (fun _ after hafter => ?_)
    (fun _ after hafter => hafter.2 ▸ hleft)
  obtain ⟨-, -, rfl⟩ := hafter
  rw [← hleft] at hspent ⊢
  exact congrArg IdSource.mk (Nat.max_eq_left (Nat.le_trans (Nat.min_le_left _ _) hspent))

/-- Each connection takes one id. -/
theorem ends_connects_next (connections : List Connection) (left : TaskGraph) :
    Ends (connections.forM fun connection => discard (TaskGraph.connectDeferred connection)) left
      (fun _ after => after.ids.next ≤ left.ids.next + connections.length)
      (fun _ after => after.ids.next ≤ left.ids.next + connections.length) := by
  induction connections generalizing left with
  | nil => exact Nat.le_refl left.ids.next
  | cons first rest induction =>
      rw [ends_forM_cons, ends_discard]
      refine (TaskGraph.ends_connectDeferred left first).mono (fun _ after hafter => ?_)
        (fun _ after hafter => hafter.2 ▸ Nat.le_add_right _ _)
      obtain ⟨-, -, rfl⟩ := hafter
      have hnext : (left.connected first).ids.next = left.ids.next + 1 := rfl
      have hrest := induction (left.connected first)
      rw [hnext, Nat.add_assoc, Nat.add_comm 1] at hrest
      exact hrest

/-- Whether it succeeds or fails, carrying out a plan numbers edges only. -/
theorem ends_commit_next {operands : List TaskId} {plan : SplitPlan}
    (hbelow : ∀ block ∈ plan.blocks, block.id.raw < graph.ids.next) :
    Ends (TaskGraph.commit task operands plan) graph
      (fun _ left => left.ids.next ≤ graph.ids.next + plan.edges.length)
      (fun _ left => left.ids.next ≤ graph.ids.next + plan.edges.length) := by
  have hspared : ∀ left : TaskGraph, left.ids = graph.ids →
      left.ids.next ≤ graph.ids.next + plan.edges.length :=
    fun left hleft => hleft ▸ Nat.le_add_right _ _
  have hremoves := keeps_ids_remove graph.ids
  have hinserts := fun block hblock => keeps_ids_insert (hbelow block hblock)
  unfold TaskGraph.commit
  rw [ends_bind]
  refine ((Keeps.forM fun other _ => hremoves other) graph rfl).mono (fun _ first hfirst => ?_)
    (fun _ left => hspared left)
  rw [ends_bind]
  refine (hremoves task first hfirst).mono (fun _ second hsecond => ?_) (fun _ left => hspared left)
  rw [ends_bind]
  refine ((Keeps.forM hinserts) second hsecond).mono (fun _ third hthird => ?_)
    (fun _ left => hspared left)
  rw [← hthird]
  exact ends_connects_next plan.edges third

theorem ends_split_next (hcuts : split.Cuts graph task vector) (hgrouped : graph.Grouped)
    {plan : SplitPlan} {after : IdSource} (hrun : split.plan graph graph.ids = .ok plan after) :
    Ends (TaskGraph.split task vector) graph
      (fun _ left => left.ids.next ≤ after.next + plan.edges.length)
      (fun _ left => left.ids.next ≤ after.next + plan.edges.length) := by
  have hnumbered : plan.Numbered graph.ids after := (ends_plan graph.ids).of_ok hrun
  have hblock : graph.block task = .ok split.block := by rw [TaskGraph.block, hcuts.block]
  have hcomputation : split.block.computation? = some split.computation := by
    rw [Block.computation?, hcuts.payload]
  have hoperands : (graph.group? task).getD [] = split.operands := by
    rw [hcuts.group? hgrouped, hcuts.operands]
    rfl
  have hunspent : graph.ids.next ≤ after.next + plan.edges.length := by
    rw [hnumbered.next]
    omega
  unfold TaskGraph.split
  rw [ends_bind, ends_get, ends_bind, hblock, TaskGraph.ends_ofExcept]
  refine ⟨fun block hok => ?_, fun _ herror => by cases herror⟩
  obtain rfl := Except.ok.inj hok
  rw [hcomputation]
  dsimp only
  rw [ends_bind, hcuts.factors, TaskGraph.ends_ofExcept]
  refine ⟨fun factors hok => ?_, fun _ herror => by cases herror⟩
  obtain rfl := Except.ok.inj hok
  split
  case isTrue => exact hunspent
  case isFalse =>
    rw [hoperands, ends_bind, TaskGraph.ends_runPlanner, ends_iff]
    refine ⟨fun made ids hmade => ?_, fun error ids hfailed => ?_⟩
    · obtain ⟨rfl, rfl⟩ := EStateM.Result.ok.inj (hmade.symm.trans hrun)
      rw [ends_bind, TaskGraph.ends_regroupAfter]
      exact @ends_commit_next { graph with ids } task split.operands made
        fun block hmember => (hnumbered.id_mem_range hmember).2
    · cases hfailed.symm.trans hrun

/-- A separable computation is split if nothing stands in the way of planning and there are ids
enough for the plan. -/
theorem exists_enacts (hgraph : graph.Reachable) (hvalid : graph.Valid)
    (hcuts : split.Cuts graph task vector) (hseparable : Separable graph task)
    (hunhindered : split.Unhindered graph task) (hcut : split.factors.isIdentity = false)
    {degree : Nat} (hinputs : ∀ other, (graph.inputEdges other).length ≤ degree)
    (houtputs : ∀ other, (graph.outputEdges other).length ≤ degree)
    (hroom : graph.ids.next + split.parts.length * ((degree + 1) * (degree + 2)) + degree + 1 ≤
      largestId) :
    ∃ plan layout after left, split.Enacts graph task vector plan layout after left ∧
      TaskGraph.split task vector graph = .ok plan.created left ∧ left.ids.next ≤ largestId := by
  obtain ⟨plan, after, hrun⟩ := (returns_plan hcuts hunhindered).exists_ok graph.ids
  have hnumbered : plan.Numbered graph.ids after := (ends_plan graph.ids).of_ok hrun
  obtain ⟨hcreated, hedges⟩ := length_plan_le hcuts hinputs houtputs hrun
  have hlast : after.next + plan.edges.length ≤ largestId := by
    have hsplits : split.parts.length * ((degree + 1) * (degree + 2)) =
        split.parts.length * ((degree + 1) * (degree + 1)) + split.parts.length * (degree + 1) := by
      rw [Nat.mul_succ (degree + 1), Nat.mul_add]
    rw [hsplits] at hroom
    rw [hnumbered.next]
    omega
  have hends := (TaskGraph.ends_split hcuts.wellFormed hgraph.grouped task vector).and
    (ends_split_next hcuts hgraph.grouped hrun)
  cases hsplit : TaskGraph.split task vector graph with
  | error error left =>
      obtain ⟨hfailed, hnext⟩ := hends.of_error hsplit
      rcases hfailed (Nat.le_trans hnext hlast) with ⟨-, hnone⟩ | hrefused
      · exact absurd hrun (hnone split hcuts plan after)
      · obtain ⟨other, hother, made, layout, ids, hplans, hreplaced, connection, hmember, hjoins⟩ :=
          hrefused
        exact absurd ((hplans.joins_iff hother hvalid.bounded hreplaced hmember).mpr
          (hplans.places hother hvalid.bounded hreplaced hseparable hmember)) hjoins
  | ok created left =>
      obtain ⟨hdone, hnext⟩ := hends.of_ok hsplit
      have hids := Nat.le_trans hnext hlast
      obtain ⟨other, hother, hdone⟩ := hdone hids
      obtain rfl := hother.unique hcuts
      rcases hdone with ⟨hidentity, -, -⟩ | ⟨made, layout, ids, hplans, rfl, hcommitted⟩
      · rw [hcut] at hidentity
        cases hidentity
      · refine ⟨made, layout, ids, left, ⟨hcuts, hplans, hcommitted, ?_⟩, rfl, hids⟩
        exact fun hknown => hvalid.edge_below hknown

end Split

end TiledPlacement

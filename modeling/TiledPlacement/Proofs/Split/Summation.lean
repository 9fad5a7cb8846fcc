import TiledPlacement.Proofs.Split.Passing
import TiledPlacement.Proofs.Split.Reading
import TiledPlacement.Proofs.Split.Taps

/-!
Reductions cut along the `r` axis. The copies that yield an element of the output divide the `r`
axis among them, and their results add up in the accumulator to the result of the cut block.
-/

namespace TiledPlacement

open Execution Finset

namespace Interval

theorem sum_cuts (extent parts count : Nat) (value : Nat → ℤ) :
    ∑ piece ∈ range count,
        ∑ index ∈ range (cut extent parts (piece + 1) - cut extent parts piece),
          value (cut extent parts piece + index) =
      ∑ index ∈ range (cut extent parts count), value index := by
  induction count with
  | zero => rw [cut_zero, range_zero, sum_empty, sum_empty]
  | succ count induction =>
      rw [sum_range_succ, induction, ← sum_range_add,
        Nat.add_sub_cancel' (cut_mono (Nat.le_succ count))]

end Interval

namespace Operation

theorem isReduction_withWindow (operation : Operation) (window : KernelWindow) :
    (operation.withWindow window).isReduction = operation.isReduction := by
  cases operation <;> rfl

theorem isReduction_withShift (operation : Operation) (shift : UInt8) :
    (operation.withShift shift).isReduction = operation.isReduction := by
  cases operation <;> rfl

theorem required_r {operation : Operation} (hreduction : operation.isReduction = true) :
    Axis.r ∈ operation.requiredAxes := by
  cases operation <;> first | cases hreduction; done | simp [requiredAxes]

theorem exists_shift {operation : Operation} (hreduction : operation.isReduction = true) :
    ∃ shift, operation.shift? = some shift := by
  cases operation <;> first | cases hreduction; done | exact ⟨_, rfl⟩

theorem shift_withShift {operation : Operation} (hreduction : operation.isReduction = true)
    (shift : UInt8) : (operation.withShift shift).shift? = some shift := by
  cases operation <;> first | rfl | cases hreduction

end Operation

namespace SplitPart

variable {part : SplitPart} {shape : Shape} {whole : Computation} {factors : SplitVector}

theorem r_eq (hdivides : factors.Divides shape) (hhas : shape.has .r = true)
    (hpart : part ∈ all shape factors) :
    part.addend < factors.r ∧ part.r =
      ⟨Interval.cut shape.r factors.r part.addend,
        Interval.cut shape.r factors.r (part.addend + 1)⟩ := by
  obtain ⟨-, -, -, hr⟩ := mem_all_iff.mp hpart
  have hplace := List.mem_zipIdx_iff_getElem?.mp hr
  have hextent : factors.r ≤ shape.r := hdivides.le hhas
  have hparts : 0 < factors.r := hdivides.pos .r
  rw [intervals, if_pos hhas] at hplace
  exact Interval.getElem?_averageSplit hparts hextent hplace

theorem isReduction_operation :
    (part.operation whole factors).isReduction = whole.operation.isReduction :=
  feature_operation Operation.isReduction_withWindow

theorem isReduction_computation (reduce : Bool) :
    (part.computation whole factors reduce).operation.isReduction =
      whole.operation.isReduction :=
  feature_computation Operation.isReduction_withWindow Operation.isReduction_withShift

theorem start_eq_zero_iff (hdivides : factors.Divides shape) (hhas : shape.has .r = true)
    (hpart : part ∈ all shape factors) : part.r.start = 0 ↔ part.addend = 0 := by
  rw [(r_eq hdivides hhas hpart).2]
  dsimp only
  constructor
  · intro hzero
    by_contra hlater
    have hstart := Interval.cut_lt (hdivides.pos .r) (hdivides.le hhas)
      (Nat.pos_of_ne_zero hlater)
    rw [Interval.cut_zero] at hstart
    exact absurd hzero (Nat.ne_of_gt hstart)
  · intro hzero
    rw [hzero]
    exact Interval.cut_zero _ _

/-- Parts of one element, one for each interval of the `r` axis, add up to the whole. -/
theorem sum_unshifted {parts : Nat → SplitPart} {inputs : Nat → Datum → ℤ}
    {given : Nat → Nat → Datum → ℤ} {element : Datum} {inner : Nat → Datum}
    (hdivides : factors.Divides whole.shape)
    (hshare : ∀ addend < factors.r,
      (parts addend).Share whole factors inputs (given addend) element (inner addend))
    (haddend : ∀ addend < factors.r, (parts addend).addend = addend) :
    ∑ addend ∈ range factors.r,
        ((parts addend).computation whole factors true).unshifted (given addend) (inner addend) =
      whole.unshifted inputs element := by
  have hparts : 0 < factors.r := hdivides.pos .r
  have hfirst := hshare 0 hparts
  have hhas : whole.shape.has .r = true :=
    Computation.has_of_required hfirst.valid (Operation.required_r hfirst.reduction)
  have hone : ∀ addend ∈ range factors.r,
      ((parts addend).computation whole factors true).unshifted (given addend) (inner addend) =
        (if addend = 0 then whole.offset inputs element else 0) +
          ∑ index ∈ range (Interval.cut whole.shape.r factors.r (addend + 1) -
              Interval.cut whole.shape.r factors.r addend),
            whole.weighted inputs element
              (Interval.cut whole.shape.r factors.r addend + index) := by
    intro addend hless
    have hless := mem_range.mp hless
    have hpart := hshare addend hless
    have hstart := start_eq_zero_iff hdivides hhas hpart.part_mem
    obtain ⟨-, hr⟩ := r_eq hdivides hhas hpart.part_mem
    rw [haddend addend hless] at hr hstart
    rw [hpart.unshifted_eq, ← if_congr hstart rfl rfl, hr]
    rfl
  rw [sum_congr rfl hone, sum_add_distrib, Interval.sum_cuts, Interval.cut_parts hparts,
    sum_ite_eq', if_pos (mem_range.mpr hparts)]
  rfl

end SplitPart

namespace TaskGraph

/-- The one new block that adds has a port for each addend and passes on what the old block did. -/
structure Accumulates (graph left : TaskGraph) (task : TaskId) (computation : Computation)
    (addends : Nat) (created : List TaskId) (sum : TaskId) : Prop where
  member : sum ∈ created
  payload : ∃ total shift, left.payload? sum = some (.computation total) ∧
    total.operation = .accumulate shift ∧ computation.operation.shift? = some shift ∧
      total.precision = computation.precision ∧ total.bias = .absent
  only : ∀ other ∈ created, ∀ total shift, left.payload? other = some (.computation total) →
    total.operation = .accumulate shift → other = sum
  addend : ∀ index, left.extent? .input sum index =
    if index < addends then some (Computation.output.shape computation.shape) else none
  output : ∀ index, left.extent? .output sum index = graph.extent? .output task index

/-- New storage blocks hold parts of operands of the old block. -/
structure Holds (graph left : TaskGraph) (task : TaskId) (created : List TaskId)
    (held : TaskId → Option (TaskId × Window)) : Prop where
  part : ∀ {copy operand part}, held copy = some (operand, part) →
    copy ∈ created ∧ operand ∈ graph.operands task ∧
      ∃ storage, graph.payload? operand = some (.storage storage) ∧
        left.payload? copy = some (.storage { storage with shape := part.size }) ∧
          ∀ element, (Window.full part.size).Covers element →
            (Window.full storage.shape).Covers (part.lift element)
  storage : ∀ {copy storage}, copy ∈ created → left.payload? copy = some (.storage storage) →
    ∃ operand part, held copy = some (operand, part)

structure YieldsAddend (left : TaskGraph) (computation : Computation)
    (copy : SplitPart × TaskId) : Prop where
  payload : ∃ made, left.payload? copy.2 = some (.computation made) ∧ made.precision = .int32 ∧
    made.operation.shift? = some 0 ∧
      made.bias = if copy.1.addend = 0 then computation.bias else .absent

/-- At an element of the output, what feeds the ports of the accumulator adds up to what the old
block computed. -/
structure SumsUp (graph left : TaskGraph) (task : TaskId) (computation : Computation)
    (factors : SplitVector) (copies : List (SplitPart × TaskId)) (sum : TaskId)
    (held : TaskId → Option (TaskId × Window)) (element : Datum)
    (feeder : Nat → SplitPart × TaskId) : Prop where
  member : ∀ addend < factors.r, feeder addend ∈ copies ∧ (feeder addend).1.addend = addend
  ranges : ∀ index < computation.shape.r,
    ∃! addend, addend < factors.r ∧ (feeder addend).1.r.Contains index
  fed : ∀ addend < factors.r, left.FedFrom (feeder addend).2
    ((Computation.output.window ((feeder addend).1.window computation factors)).lower element) sum
      addend element
  reads : ∀ shuffle content, ∀ addend < factors.r, (feeder addend).1.Agrees computation factors
    (graph.arriving shuffle content task)
      (left.arriving shuffle (content.withParts held) (feeder addend).2)
  shares : ∀ (inputs : Nat → Datum → ℤ) (given : Nat → Nat → Datum → ℤ),
    (∀ addend < factors.r,
      (feeder addend).1.Agrees computation factors inputs (given addend)) →
    ∑ addend ∈ range factors.r,
        ((feeder addend).1.computation computation factors true).unshifted (given addend)
          ((Computation.output.window ((feeder addend).1.window computation factors)).lower
            element) =
      computation.unshifted inputs element
  total : ∀ shuffle content,
    ∑ addend ∈ range factors.r, left.arriving shuffle
        (left.unshifted shuffle (content.withParts held)) sum addend element =
      graph.unshifted shuffle content task 0 element

end TaskGraph

namespace Split.Enacts

variable {split : Split} {graph left : TaskGraph} {task : TaskId} {vector : SplitVector}
  {plan : SplitPlan} {layout : SplitLayout} {after : IdSource}

theorem holds (henacts : split.Enacts graph task vector plan layout after left)
    (hbounded : graph.Bounded)
    (hkeeps : ∀ edge, graph.edge? edge.id = some edge → edge.dst.task = task → edge.KeepsAxes) :
    graph.Holds left task plan.created layout.held where
  part := by
    intro copy operand part hheld
    have hplanned := henacts.plans.planned
    obtain ⟨role, hrole, rfl, hpart⟩ := SplitLayout.exists_role_of_held hheld
    cases role with
    | copy _ => cases hpart
    | accumulator _ => cases hpart
    | operand copy feed made =>
        obtain ⟨rfl, rfl⟩ := Prod.mk.inj (Option.some.inj hpart)
        obtain ⟨hcopy, hfeed, hoperand⟩ := SplitLayout.mem_roles_iff.mp hrole
        obtain ⟨hmember, -⟩ := ((hplanned.copies copy hcopy).feeds feed hfeed).operand made hoperand
        obtain ⟨storage, hstorage, hpayload, -⟩ :=
          hplanned.operand_storage henacts.cuts hcopy hfeed hoperand
        obtain ⟨hknown, hdst, -⟩ := hplanned.known henacts.cuts hcopy hfeed
        rw [henacts.cuts.operands] at hmember
        refine ⟨henacts.role_mem_created hrole, hmember, storage, hstorage, ?_, ?_⟩
        · exact (henacts.payload_role hrole).trans (congrArg some hpayload)
        · have hextent := (hkeeps _ hknown hdst).keepsExtent
            (hplanned.source_within hstorage henacts.cuts hcopy hfeed)
          exact fun _ hfull => hplanned.sent_covers hstorage henacts.cuts hbounded hcopy hfeed
            hextent hfull
  storage := by
    intro copy storage hcreated hpayload
    obtain ⟨role, hrole, rfl⟩ := henacts.plans.mem_created_iff.mp hcreated
    obtain ⟨copy, feed, made, rfl⟩ := henacts.operand_of_stored hrole hpayload
    exact ⟨_, _, henacts.held_role hrole⟩

theorem accumulates (henacts : split.Enacts graph task vector plan layout after left)
    (hreduction : split.computation.operation.isReduction = true) {block : Block}
    (hblock : layout.accumulator = some block) :
    graph.Accumulates left task split.computation split.factors.r plan.created block.id := by
  have hplanned := henacts.plans.planned
  have hrole := SplitLayout.accumulator_mem_roles hblock
  have hextent := @Plans.extent_new _ _ _ _ _ henacts.plans _ _ henacts.replaced _ hrole
  obtain ⟨hinputs, houtputs⟩ := hplanned.shapes_accumulator hblock
  refine ⟨henacts.role_mem_created hrole, ?_, ?_, fun index => ?_, fun index => ?_⟩
  · obtain ⟨shift, hshift⟩ := Operation.exists_shift hreduction
    refine ⟨split.accumulation, shift, henacts.payload_sum hblock, ?_, hshift, rfl, rfl⟩
    rw [Split.accumulation, hshift]
    rfl
  · intro other hcreated total shift htotal haccumulate
    obtain ⟨role, hother, rfl⟩ := henacts.plans.mem_created_iff.mp hcreated
    rw [henacts.payload_role hother, Option.some.injEq] at htotal
    cases role with
    | copy copy =>
        have hcopy := SplitLayout.mem_roles_iff.mp hother
        have hcomputation := (hplanned.payload_copy hcopy).1.symm.trans htotal
        rw [← SplitPart.isReduction_computation, Payload.computation.inj hcomputation,
          haccumulate] at hreduction
        cases hreduction
    | operand copy feed made =>
        obtain ⟨hcopy, hfeed, hoperand⟩ := SplitLayout.mem_roles_iff.mp hother
        obtain ⟨storage, -, hstorage, -⟩ :=
          hplanned.operand_storage henacts.cuts hcopy hfeed hoperand
        cases hstorage.symm.trans htotal
    | accumulator made =>
        have hmade := SplitLayout.mem_roles_iff.mp hother
        rw [Option.some.inj (hmade.symm.trans hblock)]
        rfl
  · have hmax : Nat.max split.factors.r 1 = split.factors.r :=
      Nat.max_eq_left (Nat.le_of_lt (hplanned.addends henacts.cuts hblock).2)
    refine (hextent .input index).trans ?_
    rw [SplitRole.block, hinputs, hmax, List.getElem?_replicate]
  · refine (hextent .output index).trans ?_
    rw [henacts.cuts.wellFormed.extent?_eq, TaskGraph.payload?, henacts.cuts.block,
      Option.map_some, henacts.cuts.payload]
    exact congrArg (·[index]?) houtputs

theorem has_r (henacts : split.Enacts graph task vector plan layout after left)
    (hreduction : split.computation.operation.isReduction = true) :
    split.computation.shape.has .r = true :=
  Computation.has_of_required henacts.cuts.valid (Operation.required_r hreduction)

theorem yieldsAddend (henacts : split.Enacts graph task vector plan layout after left)
    (hreduces : split.reduces = true) {copy : SplitCopy} (hcopy : copy ∈ layout.copies) :
    left.YieldsAddend split.computation (copy.part, copy.block.id) where
  payload := by
    have hreduction := (Bool.and_eq_true_iff.mp hreduces).2
    have hpayload := henacts.payload_copy hcopy
    rw [hreduces] at hpayload
    have hstart := SplitPart.start_eq_zero_iff
      (Computation.divides_of_effectiveFactors henacts.cuts.factors) (henacts.has_r hreduction)
      (henacts.plans.planned.part_mem hcopy)
    refine ⟨_, hpayload, rfl, ?_, ?_⟩
    · exact Operation.shift_withShift (SplitPart.isReduction_operation.trans hreduction) 0
    · dsimp only
      rw [← if_congr hstart rfl rfl, ← ite_not]
      exact if_congr Nat.pos_iff_ne_zero rfl rfl

theorem agrees (henacts : split.Enacts graph task vector plan layout after left)
    (hvalid : graph.Valid) (hreduces : split.reduces = true)
    (hkeeps : ∀ edge, graph.edge? edge.id = some edge → edge.dst.task = task → edge.KeepsAxes)
    (shuffle : Shuffle) (content : Content) {copy : SplitCopy} (hcopy : copy ∈ layout.copies) :
    copy.part.Agrees split.computation split.factors (graph.arriving shuffle content task)
      (left.arriving shuffle (content.withParts layout.held) copy.block.id) := by
  intro port operand element hoperand hfull
  have hplanned := henacts.plans.planned
  have hprefix : (copy.part.computation split.computation split.factors true).inputs <+:
      split.computation.inputs :=
    SplitPart.inputs_computation fun shift hoperation =>
      SplitPart.addends_uncut henacts.cuts.factors (hplanned.part_mem hcopy) hoperation
  obtain ⟨hless, rfl⟩ := List.getElem?_eq_some_iff.mp hoperand
  have hlength := hplanned.length_inputs hcopy
  rw [hreduces] at hlength
  have hreads : copy.Reads split port
      ((copy.part.computation split.computation split.factors true).inputs[port].2.window
        (split.window copy.part)) :=
    ⟨hlength ▸ hless, _, List.prefix_iff_getElem?.mp hprefix port hless, rfl⟩
  exact henacts.arriving_copy hvalid hkeeps shuffle content hcopy hreads hfull

theorem share (henacts : split.Enacts graph task vector plan layout after left)
    (hkernel : split.computation.KernelBounded) (hreduces : split.reduces = true)
    {copy : SplitCopy} (hcopy : copy ∈ layout.copies) {element : Datum}
    (hcovers : (split.yield copy.part).Covers element) {inputs given : Nat → Datum → ℤ}
    (hagrees : copy.part.Agrees split.computation split.factors inputs given) :
    copy.part.Share split.computation split.factors inputs given element
      ((split.yield copy.part).lower element) := by
  have hpart := henacts.plans.planned.part_mem hcopy
  exact ⟨SplitPart.local_lower hpart hcovers, hkernel, hpart, henacts.cuts.valid,
    (Bool.and_eq_true_iff.mp hreduces).2, hagrees⟩

/-- What arrives at a port of the accumulator is the result of the copy that feeds it. -/
theorem arriving_addend (henacts : split.Enacts graph task vector plan layout after left)
    (hreduces : split.reduces = true) (shuffle : Shuffle) (content : Content) {copy : SplitCopy}
    (hcopy : copy ∈ layout.copies) {sum : TaskId} {addend : Nat} {element : Datum}
    (hfed : left.FedBy
      (Split.addendEdge copy.block.id sum addend (split.yield copy.part)) sum addend element) :
    left.arriving shuffle (left.unshifted shuffle content) sum addend element =
      (copy.part.computation split.computation split.factors true).unshifted
        (left.arriving shuffle content copy.block.id) ((split.yield copy.part).lower element) := by
  have hcovers := hfed.covers
  obtain ⟨edge, hedge, hfeeds, honly⟩ := hfed
  have hpayload := henacts.payload_copy hcopy
  rw [hreduces] at hpayload
  have htaken : edge.taken shuffle element = (split.yield copy.part).lower element := by
    rw [Edge.taken, Edge.origin, Edge.isIdentity, Edge.dst, Edge.src, hedge]
    exact Window.send_full hcovers
  have hsrc : edge.src.task = copy.block.id := congrArg (·.src.task) hedge
  rw [henacts.replaced.wellFormed.arriving_eq hfeeds honly, htaken, hsrc, TaskGraph.unshifted,
    hpayload]

theorem sumsUp (henacts : split.Enacts graph task vector plan layout after left)
    (hvalid : graph.Valid) (hkernel : split.computation.KernelBounded)
    (hreduces : split.reduces = true)
    (hkeeps : ∀ edge, graph.edge? edge.id = some edge → edge.dst.task = task → edge.KeepsAxes)
    {block : Block} (hblock : layout.accumulator = some block) {element : Datum}
    (helement : (Window.full (Computation.output.shape split.computation.shape)).Covers element) :
    ∃ feeder, graph.SumsUp left task split.computation split.factors layout.roster block.id
      layout.held element feeder := by
  have hreduction := (Bool.and_eq_true_iff.mp hreduces).2
  have hdivides := Computation.divides_of_effectiveFactors henacts.cuts.factors
  have hhas := henacts.has_r hreduction
  have hfeeder : ∀ addend, addend < split.factors.r → ∃ copy ∈ layout.copies,
      copy.part.addend = addend ∧ left.FedBy
        (Split.addendEdge copy.block.id block.id addend (split.yield copy.part)) block.id addend
          element :=
    fun addend haddend => henacts.fedBy_addend hblock haddend helement
  obtain ⟨first, -⟩ := hfeeder 0 (hdivides.pos .r)
  have hinhabited : Nonempty SplitCopy := ⟨first⟩
  choose! copies hcopies haddend hfed using hfeeder
  have hcovers : ∀ addend < split.factors.r,
      (split.yield (copies addend).part).Covers element :=
    fun addend hless => (hfed addend hless).covers
  have hr : ∀ addend < split.factors.r, (copies addend).part.r =
      ⟨Interval.cut split.computation.shape.r split.factors.r addend,
        Interval.cut split.computation.shape.r split.factors.r (addend + 1)⟩ := by
    intro addend hless
    have hpart := henacts.plans.planned.part_mem (hcopies addend hless)
    rw [(SplitPart.r_eq hdivides hhas hpart).2, haddend addend hless]
  have hshares : ∀ (inputs : Nat → Datum → ℤ) (given : Nat → Nat → Datum → ℤ),
      (∀ addend < split.factors.r, (copies addend).part.Agrees split.computation split.factors
        inputs (given addend)) →
      ∑ addend ∈ range split.factors.r,
          ((copies addend).part.computation split.computation split.factors true).unshifted
            (given addend) ((split.yield (copies addend).part).lower element) =
        split.computation.unshifted inputs element := by
    intro inputs given hagrees
    apply SplitPart.sum_unshifted hdivides _ haddend
    exact fun addend hless => henacts.share hkernel hreduces (hcopies addend hless)
      (hcovers addend hless) (hagrees addend hless)
  refine ⟨fun addend => ((copies addend).part, (copies addend).block.id), ?_, ?_, ?_, ?_, hshares,
    fun shuffle content => ?_⟩
  · exact fun addend hless =>
      ⟨List.mem_map_of_mem (hcopies addend hless), haddend addend hless⟩
  · exact fun index hindex => Interval.existsUnique_of_cuts (hdivides.pos .r) hr hindex
  · intro addend hless
    have hfedFrom := (hfed addend hless).fedFrom rfl ⟨rfl, rfl⟩
    rwa [Split.addendEdge, Window.send_full (hcovers addend hless)] at hfedFrom
  · exact fun shuffle content addend hless =>
      henacts.agrees hvalid hreduces hkeeps shuffle content (hcopies addend hless)
  · have hagrees : ∀ addend < split.factors.r, (copies addend).part.Agrees split.computation
        split.factors (graph.arriving shuffle content task)
          (left.arriving shuffle (content.withParts layout.held) (copies addend).block.id) :=
      fun addend hless =>
        henacts.agrees hvalid hreduces hkeeps shuffle content (hcopies addend hless)
    rw [TaskGraph.unshifted, TaskGraph.payload?, henacts.cuts.block, Option.map_some,
      henacts.cuts.payload]
    dsimp only
    rw [← hshares _ _ hagrees]
    apply sum_congr rfl
    intro addend haddend
    have hless := mem_range.mp haddend
    exact henacts.arriving_addend hreduces shuffle _ (hcopies addend hless) (hfed addend hless)

end Split.Enacts

namespace TaskGraph

/-- Where the numbers of the graph and of the kernel are words, a reduction that is cut along its
`r` axis is replaced by copies whose results add up, in one new accumulator, to what it computed for
every element of its output. -/
theorem split_preserves_sum {graph left : TaskGraph} {task : TaskId} {vector factors : SplitVector}
    {created : List TaskId} {computation : Computation} (hgraph : graph.Reachable)
    (hbounded : graph.Bounded) (hvalid : graph.validate = .ok ())
    (hpayload : graph.payload? task = some (.computation computation))
    (hkernel : computation.KernelBounded) (hreduction : computation.operation.isReduction = true)
    (hkeeps : ∀ edge, graph.edge? edge.id = some edge → edge.dst.task = task → edge.KeepsAxes)
    (hfactors : computation.effectiveFactors task vector = .ok factors) (hcut : 1 < factors.r)
    (hsplit : split task vector graph = .ok created left) (hids : left.ids.next ≤ largestId) :
    ∃ copies sum held, left.CutInto computation factors created copies ∧
      (∀ copy ∈ copies, left.YieldsAddend computation copy) ∧
        graph.Accumulates left task computation factors.r created sum ∧
          graph.Holds left task created held ∧
            ∀ element, (Window.full (Computation.output.shape computation.shape)).Covers element →
              ∃ feeder, graph.SumsUp left task computation factors copies sum held element
                feeder := by
  obtain ⟨split, rfl, hsame, hdone⟩ := split_cases hgraph hvalid hpayload hsplit hids
  obtain rfl := Except.ok.inj (hsame.symm.trans hfactors)
  obtain ⟨hidentity, -⟩ | ⟨plan, layout, after, henacts, rfl⟩ := hdone
  · rw [of_decide_eq_true hidentity] at hcut
    exact absurd hcut (Nat.lt_irrefl 1)
  · have hpassed := (hgraph.wellFormed.2.validate_ok_iff hbounded).mp hvalid
    have hreduces : split.reduces = true :=
      Bool.and_eq_true_iff.mpr ⟨decide_eq_true hcut, hreduction⟩
    obtain ⟨block, hblock, -⟩ := henacts.exists_accumulator hcut hreduction
    refine ⟨layout.roster, block.id, layout.held, henacts.cutInto, fun entry hentry => ?_,
      henacts.accumulates hreduction hblock, henacts.holds hbounded hkeeps,
      fun element helement => ?_⟩
    · obtain ⟨copy, hcopy, rfl⟩ := List.mem_map.mp hentry
      exact henacts.yieldsAddend hreduces hcopy
    · exact henacts.sumsUp hpassed hkernel hreduces hkeeps hblock helement

/-- A convolution down a padded column of two channels, with a stored bias. -/
def columnConvolution : Computation where
  operation := .convolution { padding := { top := 1, bottom := 1 } } 3
  shape := { y := 4, x := 1, f := 1, r := 2, ky := 3, kx := 1, iy := 4, ix := 1 }
  precision := .int8
  bias := .vector

def paddedColumn : TaskGraph :=
  (empty 0).runAll [
    .addStorage ⟨.input, .plane 4 1 2, .int8⟩,
    .addStorage ⟨.convolutionWeight, { f := 1, r := 2, ky := 3, kx := 1 }, .int8⟩,
    .addStorage ⟨.bias, .vector 1, .int32⟩,
    .addComputation columnConvolution,
    .addStorage ⟨.output, .plane 4 1 1, .int8⟩,
    .connectWhole ⟨0⟩ ⟨3⟩ 0,
    .connectWhole ⟨1⟩ ⟨3⟩ 1,
    .connectWhole ⟨2⟩ ⟨3⟩ 2,
    .connectWhole ⟨3⟩ ⟨4⟩ 0]

theorem split_preserves_sum_paddedColumn :
    ∃ created left, split ⟨3⟩ ⟨2, 1, 1, 2⟩ paddedColumn = .ok created left ∧
      ∃ copies sum held, left.CutInto columnConvolution ⟨2, 1, 1, 2⟩ created copies ∧
        ∀ element, (Window.full (.plane 4 1 1)).Covers element → ∃ feeder,
          paddedColumn.SumsUp left ⟨3⟩ columnConvolution ⟨2, 1, 1, 2⟩ copies sum held element
            feeder := by
  have hreachable : paddedColumn.Reachable :=
    (Reachable.empty (Nat.zero_le _)).runAll (by simp [Command.Admits]) (by decide +kernel)
  have hreturns : fails (split ⟨3⟩ ⟨2, 1, 1, 2⟩) paddedColumn = false := by decide +kernel
  have hpayload : paddedColumn.payload? ⟨3⟩ = some (.computation columnConvolution) := by
    decide +kernel
  have hkeeps : ∀ edge, paddedColumn.edge? edge.id = some edge → edge.dst.task = ⟨3⟩ →
      edge.KeepsAxes := by
    intro edge hknown _
    have hall : ∀ edge ∈ paddedColumn.edges.values, edge.KeepsAxes := by decide +kernel
    exact hall edge (hreachable.wellFormed.2.mem_edges_iff.mpr hknown)
  obtain ⟨created, hsplit⟩ := run_eq_ok hreturns
  obtain ⟨copies, sum, held, hcut, -, -, -, hsums⟩ := split_preserves_sum hreachable
    (by decide +kernel) (by decide +kernel) hpayload (by decide +kernel) rfl hkeeps rfl (by decide)
    hsplit (by decide +kernel)
  exact ⟨created, _, hsplit, copies, sum, held, hcut, hsums⟩

/-- Two weighted inputs, of which the second is read from a window that starts at it and ends with
the last word; another window lies before that end. -/
def foldedActivation : TaskGraph :=
  (empty 0).runAll [
    .addStorage ⟨.input, .vector (2 ^ 64 - 1), .int8⟩,
    .addStorage ⟨.input, .vector 3, .int8⟩,
    .addStorage ⟨.denseWeight, { f := 1, r := 2 }, .int8⟩,
    .addComputation ⟨.vectorMatrix 0, { f := 1, r := 2 }, .int8, .absent⟩,
    .addStorage ⟨.output, .vector 1, .int8⟩,
    .connect ⟨⟨⟨0⟩, 0, .full (.vector (2 ^ 64 - 1))⟩,
      ⟨⟨3⟩, 0, ⟨.vector 1, .vector (2 ^ 64 - 1)⟩⟩, []⟩,
    .connect ⟨⟨⟨1⟩, 0, .full (.vector 3)⟩, ⟨⟨3⟩, 0, ⟨.vector (2 ^ 64 - 3), .vector 3⟩⟩, []⟩,
    .connectWhole ⟨2⟩ ⟨3⟩ 1,
    .connectWhole ⟨3⟩ ⟨4⟩ 0]

private theorem arriving_unfed {graph : TaskGraph} {shuffle : Shuffle} {content : Content}
    {task : TaskId} {index : Nat} {element : Datum}
    (hunfed : ∀ edge ∈ graph.inputEdges task, edge.dst.port ≠ index) :
    graph.arriving shuffle content task index element = 0 := by
  have hnone : graph.bringing? task index element = none := by
    refine List.find?_eq_none.mpr fun edge hmember hbrings => ?_
    have hnames := of_decide_eq_true (Bool.and_eq_true_iff.mp hbrings).1
    exact hunfed edge hmember hnames.2
  rw [arriving, hnone]
  rfl

/-- A reduction without bias that reads nothing has no result. -/
private theorem unshifted_unfed {computation : Computation} {inputs : Nat → Datum → ℤ}
    {element : Datum} (hbias : computation.bias = .absent)
    (hunfed : ∀ element, inputs 0 element = 0) : computation.unshifted inputs element = 0 := by
  have hreading : ∀ point, computation.reading inputs 0 point = 0 := by
    intro point
    rw [Computation.reading]
    cases computation.inputs[0]? with
    | none => rfl
    | some operand => exact hunfed _
  have hproduct : ∀ r ky kx, computation.product inputs element r ky kx = 0 := by
    intro r ky kx
    rw [Computation.product]
    cases computation.point? element r ky kx with
    | none => rfl
    | some point => exact mul_eq_zero_of_right _ (hreading point)
  rw [Computation.unshifted, Computation.offset, hbias]
  simp only [Computation.weighted, hproduct, sum_const_zero, add_zero]

/-- Where the end of a window is no word, products may be lost. -/
theorem split_loses_product :
    ∃ created left, foldedActivation.Reachable ∧ foldedActivation.validate = .ok () ∧
      foldedActivation.payload? ⟨3⟩ =
        some (.computation ⟨.vectorMatrix 0, { f := 1, r := 2 }, .int8, .absent⟩) ∧
      (∀ edge, foldedActivation.edge? edge.id = some edge → edge.KeepsAxes) ∧
      split ⟨3⟩ ⟨1, 1, 1, 2⟩ foldedActivation = .ok created left ∧ left.ids.next ≤ largestId ∧
        left.payload? ⟨9⟩ =
          some (.computation ⟨.accumulate 0, { f := 1, r := 2 }, .int8, .absent⟩) ∧
        ∃ shuffle content, ∀ held,
          ∑ addend ∈ range 2, left.arriving shuffle
              (left.unshifted shuffle (content.withParts held)) ⟨9⟩ addend (fun _ => 0) ≠
            foldedActivation.unshifted shuffle content ⟨3⟩ 0 (fun _ => 0) := by
  have hsplit := @run_eq_ok_of_returned _ _ _ (split ⟨3⟩ ⟨1, 1, 1, 2⟩) foldedActivation
    [⟨10⟩, ⟨11⟩, ⟨12⟩, ⟨13⟩, ⟨9⟩] (by decide +kernel)
  have hreachable : foldedActivation.Reachable :=
    (Reachable.empty (Nat.zero_le _)).runAll (by simp [Command.Admits]) (by decide +kernel)
  refine ⟨_, _, hreachable, by decide +kernel, by decide +kernel, fun edge hknown => ?_, hsplit,
    by decide +kernel, by decide +kernel, fun _ _ _ element => element, fun _ _ _ => 1,
    fun held => ?_⟩
  · have hall : ∀ edge ∈ foldedActivation.edges.values, edge.KeepsAxes := by decide +kernel
    exact hall edge (mem_values_iff.mpr ⟨_, hknown⟩)
  · have hwhole : foldedActivation.unshifted (fun _ _ _ element => element) (fun _ _ _ => 1) ⟨3⟩ 0
        (fun _ => 0) = 1 := by decide +kernel
    have hcopies : ∀ edge ∈ (after (split ⟨3⟩ ⟨1, 1, 1, 2⟩) foldedActivation).inputEdges ⟨9⟩,
        edge.src.task = ⟨10⟩ ∨ edge.src.task = ⟨12⟩ := by decide +kernel
    have hunfed : ∀ task ∈ [(⟨10⟩ : TaskId), ⟨12⟩],
        (∀ edge ∈ (after (split ⟨3⟩ ⟨1, 1, 1, 2⟩) foldedActivation).inputEdges task,
          edge.dst.port ≠ 0) ∧
        (after (split ⟨3⟩ ⟨1, 1, 1, 2⟩) foldedActivation).payload? task =
          some (.computation ⟨.vectorMatrix 0, { f := 1, r := 1 }, .int32, .absent⟩) := by
      decide +kernel
    rw [hwhole, sum_eq_zero]
    · exact Int.zero_ne_one
    · intro addend _
      rw [arriving]
      cases hbrings : bringing? _ ⟨9⟩ addend (fun _ => 0) with
      | none => rfl
      | some edge =>
          have hmember := List.mem_of_find?_eq_some hbrings
          obtain ⟨hports, hpayload⟩ := hunfed edge.src.task (by simpa using hcopies edge hmember)
          rw [Option.map_some, Option.getD_some, unshifted, hpayload]
          exact unshifted_unfed rfl fun _ => arriving_unfed hports

end TaskGraph

end TiledPlacement

import TiledPlacement.Demo
import TiledPlacement.Proofs.Split.Partition
import TiledPlacement.Proofs.Split.Success
import TiledPlacement.Proofs.Split.Validity

/-!
The layer of the demonstration and its cut: which blocks a cut leaves and which of them are the
operands of a computation.
-/

namespace TiledPlacement

open Execution

namespace Split.Enacts

variable {split : Split} {graph left : TaskGraph} {task : TaskId} {vector : SplitVector}
  {plan : SplitPlan} {layout : SplitLayout} {after : IdSource}

theorem stored_operand (henacts : split.Enacts graph task vector plan layout after left)
    {copy : SplitCopy} (hcopy : copy ∈ layout.copies) {operand : TaskId}
    (hoperand : operand ∈ copy.operands) : left.isComputation operand = false := by
  obtain ⟨storage, hstorage⟩ := (henacts.serves_copy hcopy hoperand).stored
  refine Bool.eq_false_iff.mpr fun hcomputes => ?_
  obtain ⟨computation, hpayload⟩ := TaskGraph.isComputation_iff.mp hcomputes
  cases hstorage.symm.trans hpayload

theorem serves_operand (henacts : split.Enacts graph task vector plan layout after left)
    {copy : SplitCopy} {feed : Feed} {operand : OperandCopy}
    (hrole : .operand copy feed operand ∈ layout.roles) :
    left.Serves operand.block.id copy.block.id := by
  obtain ⟨hcopy, hfeed, hoperand⟩ := SplitLayout.mem_roles_iff.mp hrole
  exact henacts.serves_copy hcopy
    (SplitCopy.mem_operands_iff.mpr ⟨feed, hfeed, operand, hoperand, rfl⟩)

/-- The computations that a split makes: the copies and, last, the accumulator. -/
theorem filter_created (henacts : split.Enacts graph task vector plan layout after left) :
    plan.created.filter left.isComputation =
      layout.copies.map (fun copy => copy.block.id) ++
        (layout.accumulator.map Block.id).toList := by
  have hcopies : ∀ copy ∈ layout.copies,
      copy.entry.tasks.filter left.isComputation = [copy.block.id] := by
    intro copy hcopy
    have hcomputes : left.isComputation copy.block.id = true :=
      TaskGraph.isComputation_iff.mpr ⟨_, henacts.payload_copy hcopy⟩
    have hnone : copy.operands.filter left.isComputation = [] :=
      List.filter_eq_nil_iff.mpr fun operand hoperand =>
        Bool.eq_false_iff.mp (henacts.stored_operand hcopy hoperand)
    change (copy.block.id :: copy.operands).filter left.isComputation = _
    rw [List.filter_cons_of_pos hcomputes, hnone]
  have hsum : ((layout.accumulator.map Block.id).toList).filter left.isComputation =
      (layout.accumulator.map Block.id).toList := by
    cases hblock : layout.accumulator with
    | none => rfl
    | some block =>
        have hcomputes : left.isComputation block.id = true :=
          TaskGraph.isComputation_iff.mpr ⟨_, henacts.payload_sum hblock⟩
        exact List.filter_cons_of_pos hcomputes
  rw [henacts.plans.created, SplitLayout.created_plan, List.filter_append, hsum,
    List.filter_flatMap, SplitLayout.entries, List.flatMap_map, List.map_eq_flatMap]
  congr 1
  exact List.flatMap_congr hcopies

end Split.Enacts

namespace Demo

def convolution : Computation where
  operation := .convolution (.uniform 1 0) 6
  shape := { y := 16, x := 16, f := 32, r := 16, ky := 3, kx := 3, iy := 18, ix := 18 }
  precision := .int8
  bias := .vector

def layerGraph : TaskGraph :=
  (TaskGraph.empty 0).runAll [
    .addStorage ⟨.input, .plane 18 18 16, .int8⟩,
    .addStorage ⟨.convolutionActivation, .plane 18 18 16, .int8⟩,
    .addStorage ⟨.convolutionWeight, { f := 32, r := 16, ky := 3, kx := 3 }, .int8⟩,
    .addStorage ⟨.bias, .vector 32, .int32⟩,
    .addComputation convolution,
    .addStorage ⟨.output, .plane 16 16 32, .int8⟩,
    .connectWhole ⟨0⟩ ⟨1⟩ 0,
    .connectWhole ⟨1⟩ ⟨4⟩ 0,
    .connectWhole ⟨2⟩ ⟨4⟩ 1,
    .connectWhole ⟨3⟩ ⟨4⟩ 2,
    .connectWhole ⟨4⟩ ⟨5⟩ 0]

set_option maxRecDepth 100000 in
theorem run_layer : layer (.empty 0) = .ok ⟨⟨0⟩, ⟨4⟩, ⟨5⟩⟩ layerGraph := (rfl)

theorem reachable_layerGraph : layerGraph.Reachable :=
  (TaskGraph.Reachable.empty (Nat.zero_le _)).runAll (by simp [TaskGraph.Command.Admits])
    (by decide +kernel)

theorem wellFormed_layerGraph : layerGraph.WellFormed := reachable_layerGraph.wellFormed.2

theorem valid_layerGraph : layerGraph.Valid :=
  (wellFormed_layerGraph.validate_ok_iff (by decide +kernel)).mp (by decide +kernel)

theorem operands_convolution : layerGraph.operands ⟨4⟩ = [⟨1⟩, ⟨2⟩, ⟨3⟩] := by decide +kernel

theorem payload_convolution : layerGraph.payload? ⟨4⟩ = some (.computation convolution) := by
  decide +kernel

theorem layer_task {task : TaskId} {block : Block} (hblock : layerGraph.block? task = some block) :
    task ∈ ([⟨0⟩, ⟨1⟩, ⟨2⟩, ⟨3⟩, ⟨4⟩, ⟨5⟩] : List TaskId) := by
  have htasks : layerGraph.taskIds = [⟨0⟩, ⟨1⟩, ⟨2⟩, ⟨3⟩, ⟨4⟩, ⟨5⟩] := by decide +kernel
  exact htasks ▸ TaskGraph.mem_taskIds_iff.mpr ⟨block, hblock⟩

/-- Every edge carries its data unchanged; the convolution reads its operands and is read by the
output. -/
theorem layer_edge {edge : Edge} (hknown : layerGraph.edge? edge.id = some edge) :
    edge.isIdentity = true ∧ edge.KeepsAxes ∧ (edge.src.task = ⟨4⟩ → edge.dst.task = ⟨5⟩) ∧
      (edge.dst.task = ⟨4⟩ → edge.src.task ≠ ⟨0⟩) := by
  have hall : ∀ edge ∈ layerGraph.edges.values, edge.isIdentity = true ∧ edge.KeepsAxes ∧
      (edge.src.task = ⟨4⟩ → edge.dst.task = ⟨5⟩) ∧
        (edge.dst.task = ⟨4⟩ → edge.src.task ≠ ⟨0⟩) := by decide +kernel
  exact hall edge (wellFormed_layerGraph.mem_edges_iff.mpr hknown)

theorem layer_degree (task : TaskId) :
    (layerGraph.inputEdges task).length ≤ 3 ∧ (layerGraph.outputEdges task).length ≤ 3 := by
  cases hblock : layerGraph.block? task with
  | none =>
      unfold TaskGraph.inputEdges TaskGraph.outputEdges
      rw [hblock]
      exact ⟨Nat.zero_le 3, Nat.zero_le 3⟩
  | some block =>
      have hall : ∀ task ∈ ([⟨0⟩, ⟨1⟩, ⟨2⟩, ⟨3⟩, ⟨4⟩, ⟨5⟩] : List TaskId),
          (layerGraph.inputEdges task).length ≤ 3 ∧
            (layerGraph.outputEdges task).length ≤ 3 := by decide +kernel
      exact hall task (layer_task hblock)

theorem separable_layerGraph : Split.Separable layerGraph ⟨4⟩ where
  keeps _ hknown _ := (layer_edge hknown).2.1
  forward edge hknown hsrc := by
    rw [(layer_edge hknown).2.2.1 hsrc, operands_convolution]
    decide

/-- The factors that the layer can be cut with. -/
structure Cuttable (y f r : Nat) : Prop where
  y : 1 ≤ y ∧ y ≤ 16
  f : 1 ≤ f ∧ f ≤ 32
  r : 1 ≤ r ∧ r ≤ 16

section Cut

variable {y f r : Nat} {split : Split}

theorem Cuttable.divides (hcuttable : Cuttable y f r) :
    SplitVector.Divides ⟨y, 1, f, r⟩ convolution.shape := by
  intro axis
  cases axis
  case y => exact Or.inr hcuttable.y
  case f => exact Or.inr hcuttable.f
  case r => exact Or.inr hcuttable.r
  all_goals exact Or.inl rfl

theorem meetsInput {part : SplitPart}
    (hpart : part ∈ SplitPart.all convolution.shape ⟨y, 1, f, r⟩) :
    part.MeetsInput convolution ⟨y, 1, f, r⟩ where
  alongY field hfield := by
    have hrows := SplitPart.of_mem_intervals (SplitPart.mem_all_iff.mp hpart).1
    have hlength : 0 < part.y.length := hrows.1.mpr rfl
    have hstop : part.y.stop ≤ 16 := hrows.2.2
    unfold SplitPart.fieldY? at hfield
    split at hfield
    case isTrue => cases hfield
    case isFalse =>
      obtain rfl := Option.some.inj hfield
      change 0 < Nat.min (word ((part.y.stop - 1) * 1 + 3) - 0) 18 -
        Nat.min (word (part.y.start * 1) - 0) 18
      have hwords : 16 + 3 < wordCount := by decide
      rw [Interval.length] at hlength
      rw [word_of_lt (by omega), word_of_lt (by omega)]
      simp only [Nat.min_def]
      split <;> split <;> omega
  alongX _ hfield := nomatch hfield

theorem unhindered (hcomputation : split.computation = convolution)
    (hfactors : split.factors = ⟨y, 1, f, r⟩) : split.Unhindered layerGraph ⟨4⟩ where
  identity _ hknown _ := (layer_edge hknown).1
  kernel := by
    rw [hcomputation]
    decide
  meets part hpart := by
    rw [Split.parts, hcomputation, hfactors] at hpart
    rw [hcomputation, hfactors]
    exact meetsInput hpart

theorem Cuttable.length_parts (hcuttable : Cuttable y f r)
    (hcomputation : split.computation = convolution)
    (hfactors : split.factors = ⟨y, 1, f, r⟩) : split.parts.length = y * f * r := by
  rw [Split.parts, hcomputation, hfactors, SplitPart.length_all hcuttable.divides]
  simp only [SplitVector.combinations, Nat.mul_one]

theorem Cuttable.copies_le (hcuttable : Cuttable y f r) : y * f * r ≤ 8192 :=
  Nat.mul_le_mul (Nat.mul_le_mul hcuttable.y.2 hcuttable.f.2) hcuttable.r.2

end Cut

/-- A graph that a cut of the layer leaves, with its computations. Storage that is not an operand
of one of them is the input or the output. -/
structure CutLayer (graph : TaskGraph) (computations : List TaskId) : Prop where
  reachable : graph.Reachable
  valid : graph.Valid
  nodup : computations.Nodup
  mem_iff : ∀ task, task ∈ computations ↔ graph.isComputation task = true
  axon : ∀ task computation, graph.payload? task = some (.computation computation) →
    computation.operation.engine = .axon
  input : ∃ storage, graph.payload? ⟨0⟩ = some (.storage storage)
  output : ∃ storage, graph.payload? ⟨5⟩ = some (.storage storage)
  free : ∀ owner, ¬graph.Serves ⟨0⟩ owner ∧ ¬graph.Serves ⟨5⟩ owner
  stored : ∀ task storage, graph.payload? task = some (.storage storage) →
    task = ⟨0⟩ ∨ task = ⟨5⟩ ∨ ∃ owner, graph.Serves task owner

section Enacts

variable {split : Split} {left : TaskGraph} {vector : SplitVector} {plan : SplitPlan}
  {layout : SplitLayout} {after : IdSource}
  (henacts : split.Enacts layerGraph ⟨4⟩ vector plan layout after left)
include henacts

theorem payload_kept {task : TaskId} {payload : Payload}
    (hkept : task ∉ ([⟨4⟩, ⟨1⟩, ⟨2⟩, ⟨3⟩] : List TaskId))
    (hpayload : layerGraph.payload? task = some payload) : left.payload? task = some payload := by
  rw [← operands_convolution] at hkept
  exact henacts.spares.block hkept hpayload

/-- A block that is not new is the input or the output. -/
theorem payload_old {task : TaskId} {payload : Payload}
    (hpayload : left.payload? task = some payload) :
    (∃ role ∈ layout.roles, role.block.id = task) ∨ task = ⟨0⟩ ∨ task = ⟨5⟩ := by
  refine (henacts.payload_cases hpayload).imp_right fun hkept => ?_
  obtain ⟨hstays, hold⟩ := hkept
  obtain ⟨block, hblock, -⟩ := TaskGraph.payload?_eq_some_iff.mp hold
  have htask := layer_task hblock
  rw [Split.gone, henacts.cuts.operands, operands_convolution] at hstays
  simp only [List.mem_cons, List.cons_append, List.nil_append, List.not_mem_nil, or_false,
    not_or] at htask hstays
  obtain ⟨hactivation, hweight, hbias, hcut⟩ := hstays
  rcases htask with hinput | hequal | hequal | hequal | hequal | houtput
  · exact Or.inl hinput
  · exact absurd hequal hactivation
  · exact absurd hequal hweight
  · exact absurd hequal hbias
  · exact absurd hequal hcut
  · exact Or.inr houtput

theorem stored_input : left.payload? ⟨0⟩ = some (.storage ⟨.input, .plane 18 18 16, .int8⟩) :=
  payload_kept henacts (by decide) (by decide +kernel)

theorem stored_output : left.payload? ⟨5⟩ = some (.storage ⟨.output, .plane 16 16 32, .int8⟩) :=
  payload_kept henacts (by decide) (by decide +kernel)

theorem engine_eq_axon (hcomputation : split.computation = convolution) {task : TaskId}
    {computation : Computation}
    (hpayload : left.payload? task = some (.computation computation)) :
    computation.operation.engine = .axon := by
  have hstored : ∀ storage, left.payload? task ≠ some (.storage storage) := by
    intro storage hstorage
    cases hpayload.symm.trans hstorage
  rcases payload_old henacts hpayload with hrole | rfl | rfl
  · obtain ⟨role, hrole, rfl⟩ := hrole
    cases role with
    | copy copy =>
        cases hpayload.symm.trans (henacts.payload_copy (SplitLayout.mem_roles_iff.mp hrole))
        rw [SplitPart.engine_computation, hcomputation]
        rfl
    | operand copy feed operand =>
        obtain ⟨storage, hstorage⟩ := (henacts.serves_operand hrole).stored
        exact absurd hstorage (hstored storage)
    | accumulator block =>
        cases hpayload.symm.trans (henacts.payload_sum (SplitLayout.mem_roles_iff.mp hrole))
        rfl
  · exact absurd (stored_input henacts) (hstored _)
  · exact absurd (stored_output henacts) (hstored _)

theorem ne_input_of_role {role : SplitRole} (hrole : role ∈ layout.roles) :
    role.block.id ≠ ⟨0⟩ := by
  intro hid
  have hnone := henacts.plans.payload?_new henacts.cuts.wellFormed hrole
  rw [hid] at hnone
  exact absurd hnone (by decide +kernel)

/-- A copy is fed by copies of operands, or as the convolution was; the input did not feed that. -/
theorem source_ne_input {copy : SplitCopy} (hcopy : .copy copy ∈ layout.roles) {edge : Edge}
    (hknown : left.edge? edge.id = some edge) (hdst : edge.dst.task = copy.block.id) :
    edge.src.task ≠ ⟨0⟩ := by
  obtain ⟨feed, hfeed, hconnection⟩ := henacts.into_role hcopy hknown hdst
  have hmember := SplitLayout.mem_roles_iff.mp hcopy
  have hfrom : edge.src = feed.src := congrArg Connection.src hconnection
  rw [hfrom, Feed.src]
  cases hoperand : feed.operand with
  | none =>
      obtain ⟨hfed, hnames⟩ := henacts.plans.planned.known henacts.cuts hmember hfeed
      exact (layer_edge hfed).2.2.2 hnames.1
  | some operand =>
      exact ne_input_of_role henacts (SplitLayout.operand_mem_roles hmember hfeed hoperand)

/-- The input feeds the copies of the activation only. -/
theorem not_serves_input (owner : TaskId) : ¬left.Serves ⟨0⟩ owner := by
  intro hserves
  obtain ⟨computation, hpayload⟩ := hserves.computes
  obtain ⟨edge, hknown, hsrc, rfl⟩ := hserves.exists_edge henacts.replaced.wellFormed
  rcases payload_old henacts hpayload with hrole | hinput | houtput
  · obtain ⟨role, hrole, hdst⟩ := hrole
    cases role with
    | copy copy => exact source_ne_input henacts hrole hknown hdst.symm hsrc
    | operand copy feed operand =>
        obtain ⟨storage, hstorage⟩ := (henacts.serves_operand hrole).stored
        rw [← hdst] at hpayload
        cases hpayload.symm.trans hstorage
    | accumulator block =>
        obtain ⟨copy, hcopy, hconnection⟩ := henacts.into_role hrole hknown hdst.symm
        have hfrom := congrArg (fun connection => connection.src.task) hconnection
        exact ne_input_of_role henacts (SplitLayout.copy_mem_roles hcopy) (hfrom.symm.trans hsrc)
  · rw [hinput, stored_input henacts] at hpayload
    cases hpayload
  · rw [houtput, stored_output henacts] at hpayload
    cases hpayload

theorem not_serves_output (owner : TaskId) : ¬left.Serves ⟨5⟩ owner := by
  intro hserves
  obtain ⟨edge, hknown, hsrc, -⟩ := hserves.exists_edge henacts.replaced.wellFormed
  obtain ⟨extent, hextent, -⟩ := henacts.replaced.wellFormed.window_within hknown .output
  rw [Edge.endAt_output, hsrc, henacts.replaced.wellFormed.extent?_eq,
    stored_output henacts] at hextent
  cases hextent

theorem cutLayer (hcomputation : split.computation = convolution) (hleft : left.Reachable)
    (hvalid : left.Valid) : CutLayer left (plan.created.filter left.isComputation) where
  reachable := hleft
  valid := hvalid
  nodup := henacts.adds.nodup.filter _
  mem_iff task := by
    rw [List.mem_filter]
    refine ⟨fun hmember => hmember.2, fun hcomputes => ⟨?_, hcomputes⟩⟩
    obtain ⟨computation, hpayload⟩ := TaskGraph.isComputation_iff.mp hcomputes
    rcases payload_old henacts hpayload with hrole | rfl | rfl
    · obtain ⟨role, hrole, rfl⟩ := hrole
      exact henacts.role_mem_created hrole
    · cases hpayload.symm.trans (stored_input henacts)
    · cases hpayload.symm.trans (stored_output henacts)
  axon _ _ hpayload := engine_eq_axon henacts hcomputation hpayload
  input := ⟨_, stored_input henacts⟩
  output := ⟨_, stored_output henacts⟩
  free owner := ⟨not_serves_input henacts owner, not_serves_output henacts owner⟩
  stored task storage hpayload := by
    rcases payload_old henacts hpayload with hrole | hinput | houtput
    · obtain ⟨role, hrole, rfl⟩ := hrole
      obtain ⟨copy, feed, operand, rfl⟩ := henacts.operand_of_stored hrole hpayload
      exact Or.inr (Or.inr ⟨_, henacts.serves_operand hrole⟩)
    · exact Or.inl hinput
    · exact Or.inr (Or.inl houtput)

end Enacts

section Made

variable {y f r : Nat} (hcuttable : Cuttable y f r)
include hcuttable

theorem Cuttable.exists_enacts (hcut : (⟨y, 1, f, r⟩ : SplitVector) ≠ .one) :
    ∃ (split : Split) (plan : SplitPlan) (layout : SplitLayout) (after : IdSource)
      (left : TaskGraph), split.Enacts layerGraph ⟨4⟩ ⟨y, 1, f, r⟩ plan layout after left ∧
        split.computation = convolution ∧ split.factors = ⟨y, 1, f, r⟩ ∧
          TaskGraph.split ⟨4⟩ ⟨y, 1, f, r⟩ layerGraph = .ok plan.created left ∧
            left.Reachable := by
  obtain ⟨split, hcuts, hcomputation, hfactors⟩ := Split.exists_cuts wellFormed_layerGraph
    payload_convolution
    (Computation.effectiveFactors_eq_ok hcuttable.divides (fun axis => rfl) ⟨4⟩)
  have hidentity : split.factors.isIdentity = false := by
    rw [hfactors]
    exact decide_eq_false hcut
  have hroom : layerGraph.ids.next + split.parts.length * ((3 + 1) * (3 + 2)) + 3 + 1 ≤
      largestId := by
    have hlength := hcuttable.length_parts hcomputation hfactors
    have hcopies := hcuttable.copies_le
    have hnext : layerGraph.ids.next = 11 := by decide +kernel
    rw [hnext, hlength, largestId]
    omega
  obtain ⟨plan, layout, after, left, henacts, hsplit, hids⟩ := Split.exists_enacts
    reachable_layerGraph valid_layerGraph hcuts separable_layerGraph
    (unhindered hcomputation hfactors) hidentity (fun other => (layer_degree other).1)
    (fun other => (layer_degree other).2) hroom
  have hafter : Execution.after (TaskGraph.Command.split ⟨4⟩ ⟨y, 1, f, r⟩).run layerGraph =
      left := by
    rw [TaskGraph.Command.run, after_discard, Execution.after, hsplit]
  refine ⟨split, plan, layout, after, left, henacts, hcomputation, hfactors, hsplit, ?_⟩
  rw [← hafter]
  exact reachable_layerGraph.step _ trivial (hafter ▸ hids)

omit hcuttable in
theorem reduces_iff {split : Split} (hcomputation : split.computation = convolution)
    (hfactors : split.factors = ⟨y, 1, f, r⟩) : split.reduces = true ↔ 1 < r := by
  rw [Split.reduces, hcomputation, hfactors]
  change (decide (1 < r) && true) = true ↔ 1 < r
  rw [Bool.and_true, decide_eq_true_eq]

theorem Cuttable.valid_left {split : Split} {left : TaskGraph} {plan : SplitPlan}
    {layout : SplitLayout} {after : IdSource}
    (henacts : split.Enacts layerGraph ⟨4⟩ ⟨y, 1, f, r⟩ plan layout after left)
    (hcomputation : split.computation = convolution) (hfactors : split.factors = ⟨y, 1, f, r⟩) :
    left.Valid := by
  refine henacts.valid_left valid_layerGraph
    (wellFormed_layerGraph.operandsKeepSpread fun _ hknown _ => (layer_edge hknown).2.1) ?_
  rw [reduces_iff hcomputation hfactors, hfactors]
  rcases Nat.lt_or_eq_of_le hcuttable.r.1 with hless | hone
  · exact Or.inl hless
  · exact Or.inr (Or.inl hone.symm)

/-- A copy for each part, and an accumulator if the reduced axis is cut. -/
theorem Cuttable.length_computations {split : Split} {left : TaskGraph} {plan : SplitPlan}
    {layout : SplitLayout} {after : IdSource}
    (henacts : split.Enacts layerGraph ⟨4⟩ ⟨y, 1, f, r⟩ plan layout after left)
    (hcomputation : split.computation = convolution) (hfactors : split.factors = ⟨y, 1, f, r⟩) :
    (plan.created.filter left.isComputation).length = y * f * r + if 1 < r then 1 else 0 := by
  have hcopies : layout.copies.length = y * f * r := by
    rw [← hcuttable.length_parts hcomputation hfactors, ← henacts.plans.planned.parts,
      List.length_map]
  have hsum : (layout.accumulator.map Block.id).toList.length = if 1 < r then 1 else 0 := by
    have hsome := henacts.plans.planned.reduces
    rw [Bool.eq_iff_iff, reduces_iff hcomputation hfactors] at hsome
    cases hblock : layout.accumulator with
    | none =>
        rw [hblock] at hsome
        exact (if_neg fun hless => Bool.false_ne_true (hsome.mpr hless)).symm
    | some block =>
        rw [hblock] at hsome
        exact (if_pos (hsome.mp rfl)).symm
  rw [henacts.filter_created, List.length_append, List.length_map, hsum, hcopies]

theorem Cuttable.exists_cutLayer (hcut : (⟨y, 1, f, r⟩ : SplitVector) ≠ .one) :
    ∃ created left, TaskGraph.split ⟨4⟩ ⟨y, 1, f, r⟩ layerGraph = .ok created left ∧
      CutLayer left (created.filter left.isComputation) ∧
        (created.filter left.isComputation).length = y * f * r + if 1 < r then 1 else 0 := by
  obtain ⟨split, plan, layout, after, left, henacts, hcomputation, hfactors, hsplit, hreachable⟩ :=
    hcuttable.exists_enacts hcut
  exact ⟨plan.created, left, hsplit,
    cutLayer henacts hcomputation hreachable (hcuttable.valid_left henacts hcomputation hfactors),
    hcuttable.length_computations henacts hcomputation hfactors⟩

end Made

end Demo

end TiledPlacement

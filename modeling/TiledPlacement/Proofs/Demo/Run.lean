import TiledPlacement.Command
import TiledPlacement.Proofs.Demo.Placing
import TiledPlacement.Proofs.Placement.Reports
import TiledPlacement.Proofs.Schedule.Unobstructed
import TiledPlacement.Proofs.Transfer.Placed

/-!
The demonstration as a whole. A layer that has been cut is placed, routed, measured and run without
fail. A layer that is not cut stays out of the placement but for its input and its output, and then
the schedule waits for its operands in vain.
-/

namespace TiledPlacement

open Execution

namespace Script

theorem returns_print (line : String) : Returns (Script.print line) := fun _ => trivial

theorem change_eq_pure {placement next : Placement} {action : PlacementAction α} {value : α}
    (hrun : action placement = .ok value next) :
    Script.change placement action = pure (value, next) := by
  unfold Script.change
  rw [hrun]

theorem ofPlacement_ok (value : α) : ofPlacement (.ok value) = pure value := rfl

end Script

namespace Demo

/-- The whole layer has a place, with no two of its computations at one point, and a route for every
edge; all checks pass, and every block fires, once. -/
structure Outcome.Thorough (outcome : Outcome) : Prop where
  arranged : outcome.placement.Arranged
  routed : ∀ edge, outcome.placement.graph.edge? edge.id = some edge →
    ∃ path, outcome.placement.route? edge.id = some path ∧
      outcome.placement.Carries edge.id path
  consistent : outcome.placement.checkConsistency = .ok ()
  valid : outcome.placement.graph.validate = .ok ()
  measured : outcome.placement.memoryReports = .ok outcome.reports
  fires : firingOrder outcome.placement = .ok outcome.fired
  once : outcome.fired.Nodup
  all : ∀ task, task ∈ outcome.fired ↔ outcome.placement.graph.hasBlock task = true

section Finished

variable {graph : TaskGraph} {hardware : Hardware} {left : Placement}

/-- What is finished can be measured, its transfers can be queued and its blocks fire. -/
theorem Finished.exists_outcome (hfinished : Finished graph hardware left)
    (hleft : left.Reachable) (hgraph : graph.Reachable) (hvalid : graph.Valid)
    (hbounded : hardware.Bounded) (husable : hardware.Usable) :
    ∃ reports simulation fired, left.memoryReports = .ok reports ∧
      left.simulation = .ok simulation ∧ firingOrder left = .ok fired ∧
        (Outcome.mk left reports fired).Thorough := by
  obtain ⟨hids, hwellFormed⟩ := hgraph.wellFormed
  have hsame := hfinished.graph
  subst hsame
  have harranged := hfinished.arranged
  have hplaced : ∀ task, left.graph.hasBlock task = true ↔ left.isPlaced task = true := by
    intro task
    rw [Placement.isPlaced_iff]
    exact harranged.placed_iff task
  have hmeasured :=
    (Placement.memoryReports_eq hleft.agrees (hfinished.hardware.symm ▸ hbounded) hids
      harranged.known).1
  obtain ⟨simulation, hsimulation⟩ := Placement.exists_simulation
    (hfinished.hardware.symm ▸ husable) hwellFormed hfinished.carried
  obtain ⟨last, hrun, honce, hall⟩ := Schedule.exists_drained (hleft.complete hids hplaced) hvalid
    (harranged.unobstructed hleft.agrees)
  have hfires : firingOrder left = .ok last.fired := by
    unfold firingOrder
    rw [hrun]
  refine ⟨_, simulation, last.fired, hmeasured, hsimulation, hfires, harranged,
    fun edge hedge => ?_, hfinished.consistent, 
    (hwellFormed.validate_ok_iff hvalid.bounded).mpr hvalid, hmeasured, hfires, honce, hall⟩
  obtain ⟨path, hroute⟩ := hfinished.routed edge hedge
  exact ⟨path, hroute, hfinished.carried edge.id path hroute⟩

end Finished

section Script

variable {hardware : Hardware}

theorem ends_place {graph : TaskGraph} {computations : List TaskId}
    (hbounded : hardware.Bounded) (hcut : CutLayer graph computations) (hsome : computations ≠ [])
    (hfunctional : hardware.functionalColumns ≠ [])
    (hroom : computations.length ≤
      hardware.functionalColumns.length * hardware.pointsPerColumn) (printed : String) :
    Ends (place hardware ⟨⟨0⟩, ⟨4⟩, ⟨5⟩⟩ computations (.onHardware graph hardware)) printed
      (fun result _ => result.2.Reachable ∧ Finished graph hardware result.2)
      (fun _ _ => False) := by
  unfold place
  cases hcolumns : hardware.functionalColumns with
  | nil => exact absurd hcolumns hfunctional
  | cons first rest =>
      rw [hcolumns] at hroom
      obtain ⟨routed, left, hrun, hleft⟩ :=
        (ends_placeLayer hbounded hcut hsome hcolumns hroom).exists_value
      have hcounted := functionalPoints_lt hbounded
      rw [hcolumns] at hcounted
      rw [List.length_cons] at hcounted hroom
      dsimp only
      rw [word_of_lt hcounted, if_neg (Nat.not_lt.mpr hroom), Script.change_eq_pure hrun]
      exact hleft

theorem exists_outcome_cut (hbounded : hardware.Bounded) (husable : hardware.Usable)
    (hfunctional : hardware.functionalColumns ≠ []) {vector : SplitVector} {created : List TaskId}
    {graph : TaskGraph} (hsplit : TaskGraph.split ⟨4⟩ vector layerGraph = .ok created graph)
    (hcut : CutLayer graph (created.filter graph.isComputation))
    (hsome : created.filter graph.isComputation ≠ [])
    (hroom : (created.filter graph.isComputation).length ≤
      hardware.functionalColumns.length * hardware.pointsPerColumn) (printed : String) :
    ∃ outcome report, script hardware vector printed = .ok outcome report ∧
      outcome.placement.graph = graph ∧ outcome.Thorough := by
  have hlayer := Script.change_eq_pure (run_splitLayer hcut.reachable hcut.valid hsplit hardware)
  refine Ends.exists_value ?_
  unfold script
  rw [hlayer, ends_bind, ends_pure]
  dsimp only
  refine (Script.returns_print _).ends_bind fun _ printed => ?_
  rw [ends_bind]
  refine (ends_place hbounded hcut hsome hfunctional hroom printed).mono
    (fun result printed hresult => ?_) (fun _ _ hfalse => hfalse)
  obtain ⟨routed, left⟩ := result
  obtain ⟨hreachable, hfinished⟩ := hresult
  obtain ⟨reports, simulation, fired, hmeasured, hsimulation, hfires, hthorough⟩ :=
    hfinished.exists_outcome hreachable hcut.reachable hcut.valid hbounded husable
  dsimp only at hmeasured hsimulation hfires hthorough ⊢
  refine (Script.returns_print _).ends_bind fun _ printed => ?_
  refine (Script.returns_print _).ends_bind fun _ printed => ?_
  refine (Script.returns_print _).ends_bind fun _ printed => ?_
  rw [hmeasured, hsimulation, hfires, Script.ofPlacement_ok, ends_bind, ends_pure]
  refine (Returns.forM fun report _ => Script.returns_print _).ends_bind fun _ printed => ?_
  rw [Script.ofPlacement_ok, ends_bind, ends_pure]
  refine (Script.returns_print _).ends_bind fun _ printed => ?_
  refine (Script.returns_print _).ends_bind fun _ printed => ?_
  rw [Script.ofPlacement_ok, ends_bind, ends_pure]
  refine (Script.returns_print _).ends_bind fun _ printed => ?_
  refine (Script.returns_print _).ends_bind fun _ printed => ?_
  exact ⟨hfinished.graph, hthorough⟩

end Script

/-! The layer without a cut. -/

theorem split_one : TaskGraph.split ⟨4⟩ .one layerGraph = .ok [] layerGraph := by
  obtain ⟨block, hblock, hpayload⟩ := TaskGraph.payload?_eq_some_iff.mp payload_convolution
  have hcomputation : block.computation? = some convolution := by
    rw [Block.computation?, hpayload]
  have hfactors : convolution.effectiveFactors ⟨4⟩ .one = .ok .one := by decide +kernel
  refine Ends.eq_ok ?_
  unfold TaskGraph.split
  rw [ends_bind, ends_get, ends_bind, TaskGraph.block_eq_ok_iff.mpr hblock,
    TaskGraph.ends_ofExcept]
  refine ⟨fun found hok => ?_, fun _ herror => by cases herror⟩
  obtain rfl := Except.ok.inj hok
  rw [hcomputation]
  dsimp only
  rw [hfactors]
  exact ⟨rfl, rfl⟩

/-- A placement of the graph without the task. -/
structure Lacks (graph : TaskGraph) (task : TaskId) (left : Placement) : Prop where
  graph : left.graph = graph
  unplaced : left.coordinate? task = none

namespace Lacks

variable {graph : TaskGraph} {task other : TaskId}

theorem onHardware (graph : TaskGraph) (task : TaskId) (hardware : Hardware) :
    Lacks graph task (.onHardware graph hardware) := ⟨rfl, rfl⟩

theorem keeps_putIn (hdiffers : task ≠ other) (place : Coordinate) :
    Keeps (Lacks graph task) (Placement.putIn place other) := by
  unfold Placement.putIn
  refine Keeps.get_bind fun placement hlacks => ?_
  cases placement.coordinate? other with
  | some current => exact hlacks
  | none =>
      refine Keeps.bind (Placement.keeps_ofExcept _) (fun _ => ?_) placement hlacks
      refine Keeps.bind (fun left hleft => ?_) fun _ => Keeps.modify fun left hleft => ?_
      · rw [Placement.ends_changeGrid, ends_iff]
        exact ⟨fun _ _ _ => ⟨hleft.graph, hleft.unplaced⟩,
          fun _ _ _ => ⟨hleft.graph, hleft.unplaced⟩⟩
      · refine ⟨hleft.graph, ?_⟩
        rw [Placement.coordinate?_record, if_neg hdiffers]
        exact hleft.unplaced

theorem keeps_mapEdge (id : EdgeId) (path : List Coordinate) :
    Keeps (Lacks graph task) (Placement.mapEdge id path) := by
  intro left hleft
  have hrerouted : ∀ {later}, Placement.Rerouted left later → Lacks graph task later :=
    fun {later} hlater => ⟨hlater.graph.trans hleft.graph, by
      rw [Placement.coordinate?, hlater.coordinates]
      exact hleft.unplaced⟩
  exact (Placement.Rerouted.keeps_mapEdge id path left (.refl left)).mono
    (fun _ _ hlater => hrerouted hlater) (fun _ _ hlater => hrerouted hlater)

/-- With no computations only the input and the output are placed. -/
theorem keeps_placeLayer {layer : Layer} (hinput : task ≠ layer.input)
    (houtput : task ≠ layer.output) (first : Coordinate) (columns : List Coordinate) :
    Keeps (Lacks graph task) (placeLayer layer [] first columns) := by
  unfold placeLayer
  refine Keeps.get_bind fun origin horigin => ?_
  dsimp only
  refine Keeps.bind (Keeps.forM (List.forall_mem_nil _)) (fun _ => ?_) origin horigin
  refine Keeps.bind (keeps_putIn hinput _) fun _ => ?_
  refine Keeps.bind (Keeps.tryCatch (keeps_putIn houtput _) fun _ => keeps_putIn houtput _)
    fun _ => ?_
  refine Keeps.bind (Placement.keeps_routePlacedEdges_of keeps_mapEdge) fun routed =>
    Keeps.get_bind fun left hleft => ?_
  exact Keeps.bind (Placement.keeps_ofExcept _) (fun _ => Keeps.pure routed) left hleft

/-- The schedule cannot get past a block without inputs that is nowhere. -/
theorem not_fires {left : Placement} (hleft : Lacks graph task left) (hgraph : graph.WellFormed)
    {block : Block} (hblock : graph.block? task = some block)
    (hinputs : graph.inputEdges task = []) (fired : List TaskId) :
    firingOrder left ≠ .ok fired := by
  intro hfires
  have hsame := hleft.graph
  subst hsame
  unfold firingOrder at hfires
  split at hfires
  case h_1 found last hrun =>
    obtain ⟨place, hplace⟩ := Schedule.placed_of_run hgraph hrun hblock hinputs
    cases hleft.unplaced.symm.trans hplace
  case h_2 => cases hfires

end Lacks

theorem ends_place_uncut (hardware : Hardware) (printed : String) :
    Ends (place hardware ⟨⟨0⟩, ⟨4⟩, ⟨5⟩⟩ [] (.onHardware layerGraph hardware)) printed
      (fun result _ => Lacks layerGraph ⟨2⟩ result.2) (fun _ _ => True) := by
  have hlacks := Lacks.onHardware layerGraph ⟨2⟩ hardware
  unfold place
  split
  case h_1 => trivial
  case h_2 first rest hcolumns =>
    dsimp only
    split
    case isTrue => trivial
    case isFalse =>
      have hends := @Lacks.keeps_placeLayer layerGraph ⟨2⟩ ⟨⟨0⟩, ⟨4⟩, ⟨5⟩⟩ (by decide) (by decide)
        first (first :: rest) _ hlacks
      unfold Script.change
      split
      case h_1 hrun => exact hends.of_ok hrun
      case h_2 => trivial

theorem ends_ofPlacement {result : Except PlacementError α} {printed : String}
    {success : α → String → Prop} {failure : CommandError → String → Prop}
    (hok : ∀ value, result = .ok value → success value printed)
    (hfails : ∀ error, failure error printed) :
    Ends (Script.ofPlacement result) printed success failure := by
  cases result with
  | ok value => exact hok value rfl
  | error error => exact hfails _

/-- Nothing has a place for the weight of a layer that is not cut. -/
theorem exists_error_uncut (hardware : Hardware) (printed : String) :
    ∃ error report, script hardware .one printed = .error error report := by
  have hlayer := Script.change_eq_pure
    (run_splitLayer reachable_layerGraph valid_layerGraph split_one hardware)
  refine exists_error_of_ends ?_
  unfold script
  rw [hlayer, ends_bind, ends_pure]
  dsimp only
  refine (Script.returns_print _).ends_bind fun _ printed => ?_
  rw [ends_bind]
  refine (ends_place_uncut hardware printed).mono (fun result printed hresult => ?_)
    (fun _ _ _ => trivial)
  obtain ⟨routed, left⟩ := result
  refine (Script.returns_print _).ends_bind fun _ printed => ?_
  refine (Script.returns_print _).ends_bind fun _ printed => ?_
  refine (Script.returns_print _).ends_bind fun _ printed => ?_
  rw [ends_bind]
  refine ends_ofPlacement (fun reports _ => ?_) fun _ => trivial
  refine (Returns.forM fun report _ => Script.returns_print _).ends_bind fun _ printed => ?_
  rw [ends_bind]
  refine ends_ofPlacement (fun simulation _ => ?_) fun _ => trivial
  refine (Script.returns_print _).ends_bind fun _ printed => ?_
  refine (Script.returns_print _).ends_bind fun _ printed => ?_
  rw [ends_bind]
  refine ends_ofPlacement (fun fired hfires => ?_) fun _ => trivial
  obtain ⟨block, hblock⟩ := Option.isSome_iff_exists.mp
    (show (layerGraph.block? ⟨2⟩).isSome = true by decide +kernel)
  exact absurd hfires (hresult.not_fires wellFormed_layerGraph hblock (by decide +kernel) fired)

/-- On a usable accelerator with points enough, the demonstration returns exactly when the layer is
cut at all, and then nothing is missing in what it returns. -/
theorem script_returns_iff {hardware : Hardware} (hbounded : hardware.Bounded)
    (hvalid : hardware.validate = .ok ()) (hfunctional : hardware.functionalColumns ≠ [])
    {y f r : Nat} (hcuttable : Cuttable y f r)
    (hroom : y * f * r + (if 1 < r then 1 else 0) ≤
      hardware.functionalColumns.length * hardware.pointsPerColumn) (printed : String) :
    ((∃ outcome report, script hardware ⟨y, 1, f, r⟩ printed = .ok outcome report) ↔
      (⟨y, 1, f, r⟩ : SplitVector) ≠ .one) ∧
    ∀ outcome report, script hardware ⟨y, 1, f, r⟩ printed = .ok outcome report →
      outcome.Thorough ∧ ∃ created,
        TaskGraph.split ⟨4⟩ ⟨y, 1, f, r⟩ layerGraph = .ok created outcome.placement.graph ∧
          (created.filter outcome.placement.graph.isComputation).length =
            y * f * r + if 1 < r then 1 else 0 := by
  have husable := Hardware.validate_ok_iff.mp hvalid
  by_cases hcut : (⟨y, 1, f, r⟩ : SplitVector) = .one
  · obtain ⟨error, failed, hfails⟩ := exists_error_uncut hardware printed
    rw [hcut]
    refine ⟨iff_of_false (fun hreturns => ?_) (not_not.mpr rfl), fun outcome report hrun => ?_⟩
    · obtain ⟨outcome, report, hrun⟩ := hreturns
      cases hfails.symm.trans hrun
    · cases hfails.symm.trans hrun
  · obtain ⟨created, graph, hsplit, hlayer, hlength⟩ := hcuttable.exists_cutLayer hcut
    have hcount : 0 < y * f * r :=
      Nat.mul_pos (Nat.mul_pos hcuttable.y.1 hcuttable.f.1) hcuttable.r.1
    have hsome : created.filter graph.isComputation ≠ [] := by
      refine List.ne_nil_of_length_pos ?_
      omega
    obtain ⟨outcome, report, hreturns, rfl, hthorough⟩ :=
      exists_outcome_cut hbounded husable hfunctional hsplit hlayer hsome (hlength ▸ hroom) printed
    refine ⟨iff_of_true ⟨outcome, report, hreturns⟩ hcut, fun other later hrun => ?_⟩
    obtain ⟨rfl, -⟩ := EStateM.Result.ok.inj (hreturns.symm.trans hrun)
    exact ⟨hthorough, created, hsplit, hlength⟩

theorem script_returns_iff_halves :
    ∃ outcome report, script (.singleChip 1 2) ⟨2, 1, 1, 1⟩ "" = .ok outcome report ∧
      outcome.Thorough ∧ ∃ created,
        TaskGraph.split ⟨4⟩ ⟨2, 1, 1, 1⟩ layerGraph = .ok created outcome.placement.graph ∧
          (created.filter outcome.placement.graph.isComputation).length = 2 := by
  have hvalid : (Hardware.singleChip 1 2).validate = .ok () := by decide +kernel
  obtain ⟨hreturns, hthorough⟩ := @script_returns_iff (.singleChip 1 2) (by decide +kernel)
    hvalid (by decide +kernel) 2 1 1 ⟨by decide, by decide, by decide⟩ (by decide +kernel) ""
  obtain ⟨outcome, report, hrun⟩ := hreturns.mpr (by decide)
  exact ⟨outcome, report, hrun, hthorough outcome report hrun⟩

/-- One chip with two cores has room for the whole layer, which is not placed for all that. -/
theorem script_uncut_fails :
    (Hardware.singleChip 1 2).validate = .ok () ∧
      (Hardware.singleChip 1 2).functionalColumns ≠ [] ∧ Cuttable 1 1 1 ∧
        1 ≤ (Hardware.singleChip 1 2).functionalColumns.length *
          (Hardware.singleChip 1 2).pointsPerColumn ∧
          ∃ error report, script (.singleChip 1 2) ⟨1, 1, 1, 1⟩ "" = .error error report := by
  refine ⟨by decide +kernel, by decide +kernel, ⟨by decide, by decide, by decide⟩,
    by decide +kernel, exists_error_uncut (.singleChip 1 2) ""⟩

end Demo

end TiledPlacement

import TiledPlacement.Proofs.Split.Validity

/-!
Inputs after a split. Where data keeps its axes, each element of an input of a copy is fed by one
edge, with the element that the cut block was fed at the same place: by the same sender, or by a
copy of the operand that sent it.
-/

namespace TiledPlacement

open Execution

namespace Edge

/-- The element that the edge takes from its sender and brings to an element of its receiver. -/
def origin (edge : Edge) (element : Datum) : Datum :=
  edge.dst.window.send edge.src.window element

/-- The edge `made` does for a part, which lies at `region` in the whole, what `edge` did for the
whole; what is rearranged on the way it brings as a whole. -/
structure Resumes (made edge : Edge) (region : Window) : Prop where
  port : made.src.port = edge.src.port
  rearrange : made.rearrange = edge.rearrange
  whole : edge.isIdentity = false → made.dst.window = region.localize edge.dst.window

/-- It takes the element from the same sender. -/
structure Follows (made edge : Edge) (region : Window) (element : Datum) : Prop
    extends Resumes made edge region where
  sender : made.src.task = edge.src.task
  origin : edge.isIdentity = true → made.origin element = edge.origin (region.lift element)
  sent : edge.isIdentity = false → made.src.window = edge.src.window

/-- It takes the element from a copy of the part `held` of what the sender holds. -/
structure FollowsCopy (made edge : Edge) (region held : Window) (element : Datum) : Prop
    extends Resumes made edge region where
  sent : made.src.window = .full held.size
  covers : edge.isIdentity = true → (Window.full held.size).Covers (made.origin element)
  origin : edge.isIdentity = true →
    held.lift (made.origin element) = edge.origin (region.lift element)
  kept : edge.isIdentity = false → held = edge.src.window

end Edge

namespace TaskGraph

/-- In the graph that is left, the new block holds the part `held` of what the old one held, and is
fed what that part was fed. -/
structure CopiesOperand (graph left : TaskGraph) (operand copy : TaskId) (held : Window) :
    Prop where
  new : graph.payload? copy = none
  storage : ∃ storage, graph.payload? operand = some (.storage storage) ∧
    left.payload? copy = some (.storage { storage with shape := held.size }) ∧
      ∀ element, (Window.full held.size).Covers element →
        (Window.full storage.shape).Covers (held.lift element)
  fed : ∀ {index edge element}, (Window.full held.size).Covers element →
    graph.Feeds edge operand index (held.lift element) →
      ∃ made, left.Feeds made copy index element ∧
        (∀ other, left.Feeds other copy index element → other = made) ∧
          Edge.Follows made edge held element

/-- The element of a part is fed by one edge alone, which follows the edge that fed the element of
the whole. A copy of an operand feeds the part and nothing else. -/
def FedAlike (graph left : TaskGraph) (task copy : TaskId) (index : Nat) (region : Window)
    (element : Datum) : Prop :=
  ∃ edge made, graph.Feeds edge task index (region.lift element) ∧
    left.Feeds made copy index element ∧
      (∀ other, left.Feeds other copy index element → other = made) ∧
        if edge.src.task ∈ graph.operands task then
          ∃ held, graph.CopiesOperand left edge.src.task made.src.task held ∧
            made.FollowsCopy edge region held element ∧
              ∀ other, left.edge? other.id = some other → other.src.task = made.src.task →
                other.dst.task = copy
        else made.Follows edge region element

/-- The new block runs a part of the computation, on inputs that are fed alike. -/
structure RunsPart (graph left : TaskGraph) (task : TaskId) (computation : Computation)
    (factors : SplitVector) (part : SplitPart) (copy : TaskId) : Prop where
  payload : left.payload? copy = some (.computation (part.computation computation factors
    (decide (1 < factors.r) && computation.operation.isReduction)))
  inputs : ∀ {index extent}, left.extent? .input copy index = some extent →
    ∃ operand, computation.inputs[index]? = some operand ∧
      extent = (operand.2.window (part.window computation factors)).size ∧
        ∀ {element}, (Window.full extent).Covers element →
          graph.FedAlike left task copy index
            (operand.2.window (part.window computation factors)) element

end TaskGraph

namespace Split.Enacts

variable {split : Split} {graph left : TaskGraph} {task : TaskId} {vector : SplitVector}
  {plan : SplitPlan} {layout : SplitLayout} {after : IdSource} {copy : SplitCopy} {feed : Feed}

theorem copiesOperand (henacts : split.Enacts graph task vector plan layout after left)
    (hvalid : graph.Valid) (hcopy : copy ∈ layout.copies) (hfeed : feed ∈ copy.feeds)
    {operand : OperandCopy} (hoperand : feed.operand = some operand) (hkeeps : feed.edge.KeepsAxes)
    (hupstream : ∀ edge, graph.edge? edge.id = some edge →
      edge.dst.task = feed.edge.src.task → edge.KeepsAxes) :
    graph.CopiesOperand left feed.edge.src.task operand.block.id feed.sent := by
  have hcuts := henacts.cuts
  have hplanned := henacts.plans.planned
  have hbounded := hvalid.bounded
  have hrole := SplitLayout.operand_mem_roles hcopy hfeed hoperand
  obtain ⟨storage, hstorage, hpayload, -⟩ :=
    hplanned.operand_storage hcuts hcopy hfeed hoperand
  have hextent := hkeeps.keepsExtent (hplanned.source_within hstorage hcuts hcopy hfeed)
  refine ⟨henacts.plans.payload?_new hcuts.wellFormed hrole, ⟨storage, hstorage, ?_, ?_⟩, ?_⟩
  · exact (henacts.payload_role hrole).trans (congrArg some hpayload)
  · exact fun _ hfull => hplanned.sent_covers hstorage hcuts hbounded hcopy hfeed hextent hfull
  · intro index edge element hfull hfeeds
    obtain ⟨piece, sent, hpiece, hsent, hcovers, made, hconnection, hmade, honly⟩ :=
      henacts.fedBy_upstream hvalid hcopy hfeed hoperand hstorage hextent hfull hfeeds
    have haxes := hplanned.upstream_sameAxes hcuts hbounded hcopy hfeed hkeeps hstorage
      hfeeds.known hfeeds.names.1
    have hcommon := (Split.overlap?_eq_some hpiece).1
    have hsrc : made.src = { edge.src with window := sent } :=
      congrArg Connection.src hconnection
    have hdst : made.dst = ⟨operand.block.id, edge.dst.port, feed.sent.localize piece⟩ :=
      congrArg Connection.dst hconnection
    refine ⟨made, hmade, honly, ⟨?_, ?_, fun hrearranged => ?_⟩, ?_, fun hidentity => ?_,
      fun hrearranged => ?_⟩
    · rw [hsrc]
    · rw [Edge.rearrange, hconnection]
    · rw [hdst, (Split.carry_of_rearranged hrearranged hsent).1]
    · rw [hsrc]
    · rw [Edge.origin, hsrc, hdst, Split.carry_of_identity hidentity hsent]
      exact Window.send_localize_project (hbounded.edge hfeeds.known .output)
        ((hupstream edge hfeeds.known hfeeds.names.1).sameSize
          (hcuts.wellFormed.edge_fits hfeeds.known) hidentity)
        (hcommon.inside_left haxes) (hcommon.inside_right (.of_sameAxes haxes)) hcovers
    · rw [hsrc, (Split.carry_of_rearranged hrearranged hsent).2]

theorem fedAlike (henacts : split.Enacts graph task vector plan layout after left)
    (hvalid : graph.Valid)
    (hkeeps : ∀ edge, graph.edge? edge.id = some edge →
      edge.dst.task = task ∨ edge.dst.task ∈ graph.operands task → edge.KeepsAxes)
    (hcopy : copy ∈ layout.copies) {index : Nat} {required : Window}
    (hreads : copy.Reads split index required) {element : Datum}
    (hfull : (Window.full required.size).Covers element) :
    graph.FedAlike left task copy.block.id index required element := by
  have hcuts := henacts.cuts
  have hplanned := henacts.plans.planned
  obtain ⟨feed, hfeed, rfl, hfeeds, hcovers, made, hconnection, hmade, honly⟩ :=
    henacts.fedBy_delivery hvalid hcopy hreads hfull
  refine ⟨feed.edge, made, hfeeds, hmade, honly, ?_⟩
  have hedge := hkeeps feed.edge hfeeds.known (Or.inl hfeeds.names.1)
  have hsize := hedge.sameSize (hcuts.wellFormed.edge_fits hfeeds.known)
  obtain ⟨hhere, hrequired, -⟩ := hplanned.piece_inside hcuts hcopy hfeed
  have hsource := hvalid.bounded.edge hfeeds.known .output
  have hfeedPlanned := (hplanned.copies copy hcopy).feeds feed hfeed
  have hsent := hfeedPlanned.sent
  have hsrc : made.src = feed.src := congrArg Connection.src hconnection
  have hdst : made.dst =
      ⟨copy.block.id, feed.port, feed.required.localize feed.piece⟩ :=
    congrArg Connection.dst hconnection
  have hresumes : made.Resumes feed.edge feed.required := by
    refine ⟨?_, ?_, fun hrearranged => ?_⟩
    · rw [hsrc]
      unfold Feed.src
      cases feed.operand <;> rfl
    · rw [Edge.rearrange, hconnection]
      rfl
    · rw [hdst, (Split.carry_of_rearranged hrearranged hsent).1]
  unfold Feed.src at hsrc
  cases hoperand : feed.operand with
  | none =>
      have hshared := hfeedPlanned.direct hoperand
      rw [hcuts.operands] at hshared
      rw [if_neg hshared]
      rw [hoperand] at hsrc
      refine ⟨hresumes, ?_, fun hidentity => ?_, fun hrearranged => ?_⟩
      · rw [hsrc]
      · rw [Edge.origin, hsrc, hdst, Split.carry_of_identity hidentity hsent]
        exact Window.send_localize_project hsource (hsize hidentity) hhere hrequired hcovers
      · rw [hsrc, (Split.carry_of_rearranged hrearranged hsent).2]
  | some operand =>
      obtain ⟨hmember, -⟩ := hfeedPlanned.operand operand hoperand
      rw [hcuts.operands] at hmember
      rw [if_pos hmember]
      have hcopies := henacts.copiesOperand hvalid hcopy hfeed hoperand hedge
        fun edge hknown hfed => hkeeps edge hknown (Or.inr (hfed ▸ hmember))
      rw [hoperand] at hsrc
      have hsender : made.src.task = operand.block.id := by rw [hsrc]
      refine ⟨feed.sent, hsender ▸ hcopies, ⟨hresumes, ?_, fun hidentity => ?_,
        fun hidentity => ?_, fun hrearranged => ?_⟩, fun other hknown hother => ?_⟩
      · rw [hsrc]
      · rw [Edge.origin, hsrc, hdst, Split.carry_of_identity hidentity hsent]
        exact @Window.covers_send (feed.required.localize feed.piece) (.full _)
          (fun _ _ => rfl) _ hcovers
      · rw [Edge.origin, hsrc, hdst, Split.carry_of_identity hidentity hsent]
        exact Window.lift_send_full hsource (hsize hidentity) hhere hrequired hcovers
      · exact (Split.carry_of_rearranged hrearranged hsent).2
      · rw [Edge.dst, henacts.out_of_operand hcopy hfeed hoperand hknown (hother.trans hsender)]
        rfl

theorem runsPart (henacts : split.Enacts graph task vector plan layout after left)
    (hvalid : graph.Valid)
    (hkeeps : ∀ edge, graph.edge? edge.id = some edge →
      edge.dst.task = task ∨ edge.dst.task ∈ graph.operands task → edge.KeepsAxes)
    (hcopy : copy ∈ layout.copies) :
    graph.RunsPart left task split.computation split.factors copy.part copy.block.id := by
  have hplanned := henacts.plans.planned
  have hrole := SplitLayout.copy_mem_roles hcopy
  refine ⟨henacts.payload_copy hcopy, fun {index extent} hextent => ?_⟩
  have hshape := @Plans.extent_new _ _ _ _ _ henacts.plans _ _ henacts.replaced _ hrole .input
    index
  obtain ⟨required, hreads, rfl⟩ :=
    (henacts.cuts.shapes_copy hplanned hcopy).mp (hshape.symm.trans hextent)
  obtain ⟨operand, hoperand, rfl⟩ := hreads.operand
  exact ⟨operand, hoperand, rfl, fun hfull => henacts.fedAlike hvalid hkeeps hcopy hreads hfull⟩

theorem created_cases (henacts : split.Enacts graph task vector plan layout after left)
    {other : TaskId} (hother : other ∈ plan.created) :
    other ∈ layout.copies.map (fun copy => copy.block.id) ∨
      (∃ storage, left.payload? other = some (.storage storage)) ∨
        split.computation.operation.isReduction = true ∧ 1 < split.factors.r ∧
          ∃ sum shift, left.payload? other = some (.computation sum) ∧
            sum.operation = .accumulate shift := by
  have hplanned := henacts.plans.planned
  obtain ⟨role, hrole, rfl⟩ := henacts.plans.mem_created_iff.mp hother
  cases role with
  | copy copy => exact Or.inl (List.mem_map_of_mem (SplitLayout.mem_roles_iff.mp hrole))
  | operand copy feed operand =>
      obtain ⟨hcopy, hfeed, hoperand⟩ := SplitLayout.mem_roles_iff.mp hrole
      obtain ⟨storage, -, hpayload, -⟩ :=
        hplanned.operand_storage henacts.cuts hcopy hfeed hoperand
      exact Or.inr (Or.inl ⟨_, (henacts.payload_role hrole).trans (congrArg some hpayload)⟩)
  | accumulator block =>
      have haccumulator := SplitLayout.mem_roles_iff.mp hrole
      have hreduces := hplanned.reduces
      rw [haccumulator, Option.isSome_some] at hreduces
      obtain ⟨hcut, hreduction⟩ := Bool.and_eq_true_iff.mp hreduces.symm
      exact Or.inr (Or.inr
        ⟨hreduction, of_decide_eq_true hcut, _, _, henacts.payload_sum haccumulator, rfl⟩)

end Split.Enacts

namespace TaskGraph

/-- Where the numbers of the graph are words, a split that returns puts a copy in the place of the
computation for each part of it, and feeds every input of every copy as the computation was fed. -/
theorem split_feeds_alike {graph left : TaskGraph} {task : TaskId} {vector : SplitVector}
    {created : List TaskId} {computation : Computation} (hgraph : graph.Reachable)
    (hbounded : graph.Bounded) (hvalid : graph.validate = .ok ())
    (hpayload : graph.payload? task = some (.computation computation))
    (hkeeps : ∀ edge, graph.edge? edge.id = some edge →
      edge.dst.task = task ∨ edge.dst.task ∈ graph.operands task → edge.KeepsAxes)
    (hsplit : split task vector graph = .ok created left) (hids : left.ids.next ≤ largestId) :
    ∃ factors, computation.effectiveFactors task vector = .ok factors ∧
      (factors.isIdentity = true ∧ created = [] ∧ left = graph ∨
        ∃ copies : List (SplitPart × TaskId),
          copies.map Prod.fst = SplitPart.all computation.shape factors ∧
            (copies.map Prod.snd).Nodup ∧
              (∀ copy ∈ copies, copy.2 ∈ created ∧
                graph.RunsPart left task computation factors copy.1 copy.2) ∧
                ∀ other ∈ created, other ∈ copies.map Prod.snd ∨
                  (∃ storage, left.payload? other = some (.storage storage)) ∨
                    computation.operation.isReduction = true ∧ 1 < factors.r ∧
                      ∃ sum shift, left.payload? other = some (.computation sum) ∧
                        sum.operation = .accumulate shift) := by
  obtain ⟨-, hwellFormed⟩ := hgraph.wellFormed
  obtain ⟨split, hcuts, hdone⟩ :=
    (ends_split hwellFormed hgraph.grouped task vector).of_ok hsplit hids
  obtain rfl : computation = split.computation := by
    rw [payload?, hcuts.block, Option.map_some, hcuts.payload] at hpayload
    exact (Payload.computation.inj (Option.some.inj hpayload)).symm
  refine ⟨split.factors, hcuts.factors, ?_⟩
  rcases hdone with hsame | ⟨plan, layout, after, hplans, rfl, hcommitted⟩
  · exact Or.inl hsame
  · have henacts : split.Enacts graph task vector plan layout after left :=
      ⟨hcuts, hplans, hcommitted, hwellFormed.id_below hvalid⟩
    have hpassed := (hwellFormed.validate_ok_iff hbounded).mp hvalid
    refine Or.inr ⟨layout.copies.map fun copy => (copy.part, copy.block.id), ?_, ?_, ?_, ?_⟩
    · rw [List.map_map]
      exact hplans.planned.parts
    · rw [List.map_map]
      refine List.Nodup.map_on (fun first hfirst second hsecond hid => ?_) ?_
      · exact SplitRole.copy.inj (hplans.role_unique (SplitLayout.copy_mem_roles hfirst)
          (SplitLayout.copy_mem_roles hsecond) hid)
      · refine List.Nodup.of_map SplitCopy.part ?_
        rw [hplans.planned.parts]
        exact SplitPart.nodup_all
    · intro entry hentry
      obtain ⟨copy, hcopy, rfl⟩ := List.mem_map.mp hentry
      refine ⟨?_, henacts.runsPart hpassed hkeeps hcopy⟩
      refine hplans.numbered.blocks.mem_iff.mp ?_
      exact List.mem_map_of_mem (hplans.block_mem (SplitLayout.copy_mem_roles hcopy))
    · intro other hother
      rw [List.map_map]
      exact henacts.created_cases hother

/-- Halves of a computation that reads stored channels are fed from copies of these. -/
theorem split_feeds_alike_storedChannels :
    ∃ created left, split ⟨2⟩ ⟨1, 1, 2, 1⟩ storedChannels = .ok created left ∧
      ∃ copies : List (SplitPart × TaskId), copies.length = 2 ∧ ∀ copy ∈ copies,
        storedChannels.RunsPart left ⟨2⟩ ⟨.vectorShift 0, .vector 4, .int8, .absent⟩
          ⟨1, 1, 2, 1⟩ copy.1 copy.2 := by
  have hreturns : fails (split ⟨2⟩ ⟨1, 1, 2, 1⟩) storedChannels = false := by decide +kernel
  obtain ⟨created, hsplit⟩ := run_eq_ok hreturns
  have hpayload : storedChannels.payload? ⟨2⟩ =
      some (.computation ⟨.vectorShift 0, .vector 4, .int8, .absent⟩) := by decide +kernel
  obtain ⟨factors, hfactors, hdone⟩ := split_feeds_alike reachable_storedChannels
    (by decide +kernel) (by decide +kernel) hpayload
    (fun _ hknown _ => keepsAxes_storedChannels hknown) hsplit (by decide +kernel)
  obtain rfl : factors = ⟨1, 1, 2, 1⟩ := (Except.ok.inj hfactors).symm
  rcases hdone with ⟨hidentity, -⟩ | ⟨copies, hparts, -, hcopies, -⟩
  · cases hidentity
  · refine ⟨created, _, hsplit, copies, ?_, fun copy hcopy => (hcopies copy hcopy).2⟩
    have hlength := congrArg List.length hparts
    rw [List.length_map] at hlength
    exact hlength.trans rfl

/-- Where the numbers are no words, copies of a computation that passed may be fed nothing. -/
theorem split_starves_copies :
    ∃ created left, firstRowOfThree.Reachable ∧ firstRowOfThree.validate = .ok () ∧
      firstRowOfThree.payload? ⟨1⟩ =
        some (.computation ⟨.vectorShift 0, { y := 3, f := 2 ^ 63 }, .int8, .absent⟩) ∧
      (∀ edge, firstRowOfThree.edge? edge.id = some edge → edge.KeepsAxes) ∧
      split ⟨1⟩ ⟨3, 1, 1, 1⟩ firstRowOfThree = .ok created left ∧ left.ids.next ≤ largestId ∧
        ∃ copy ∈ created, left.extent? .input copy 0 = some { y := 1, f := 2 ^ 63 } ∧
          ∃ element, (Window.full { y := 1, f := 2 ^ 63 }).Covers element ∧
            ∀ edge, ¬left.Feeds edge copy 0 element := by
  have hsplit := @run_eq_ok_of_returned _ _ _ (split ⟨1⟩ ⟨3, 1, 1, 1⟩) firstRowOfThree
    [⟨5⟩, ⟨6⟩, ⟨7⟩, ⟨8⟩] (by decide +kernel)
  have hreachable : firstRowOfThree.Reachable :=
    (Reachable.empty (Nat.zero_le _)).runAll (by simp [Command.Admits]) (by decide +kernel)
  refine ⟨_, _, hreachable, by decide +kernel, by decide +kernel, fun edge hknown => ?_, hsplit,
    by decide +kernel, ⟨7⟩, by decide, by decide +kernel, fun _ => 0, by decide, ?_⟩
  · have hall : ∀ edge ∈ firstRowOfThree.edges.values, edge.KeepsAxes := by decide +kernel
    exact hall edge (mem_values_iff.mpr ⟨_, hknown⟩)
  · intro edge hfeeds
    have hnone : ∀ edge ∈ (after (split ⟨1⟩ ⟨3, 1, 1, 1⟩) firstRowOfThree).edges.values,
        edge.dst.task ≠ ⟨7⟩ := by decide +kernel
    exact hnone edge (mem_values_iff.mpr ⟨_, hfeeds.known⟩) hfeeds.names.1

end TaskGraph

end TiledPlacement

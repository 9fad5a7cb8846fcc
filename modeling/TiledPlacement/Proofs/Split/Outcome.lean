import TiledPlacement.Proofs.Split.Deliveries

/-!
What is left of a split that returns. Either nothing was to be cut, or a plan has been carried out
and there is a copy of the computation for each of its parts.
-/

namespace TiledPlacement

open Execution

/-- The copies, each under the part that it stands for. -/
def SplitLayout.roster (layout : SplitLayout) : List (SplitPart × TaskId) :=
  layout.copies.map fun copy => (copy.part, copy.block.id)

/-- There is one new block for each part of the computation, and it runs on that part. -/
structure TaskGraph.CutInto (left : TaskGraph) (computation : Computation)
    (factors : SplitVector) (created : List TaskId) (copies : List (SplitPart × TaskId)) :
    Prop where
  parts : copies.map Prod.fst = SplitPart.all computation.shape factors
  nodup : (copies.map Prod.snd).Nodup
  created : ∀ copy ∈ copies, copy.2 ∈ created
  payload : ∀ copy ∈ copies, left.payload? copy.2 =
    some (.computation (copy.1.computation computation factors
      (decide (1 < factors.r) && computation.operation.isReduction)))

namespace Split.Enacts

variable {split : Split} {graph left : TaskGraph} {task : TaskId} {vector : SplitVector}
  {plan : SplitPlan} {layout : SplitLayout} {after : IdSource}

theorem nodup_roster (henacts : split.Enacts graph task vector plan layout after left) :
    (layout.roster.map Prod.snd).Nodup := by
  have hcopies : layout.copies.Nodup := by
    apply List.Nodup.of_map SplitCopy.part
    rw [henacts.plans.planned.parts]
    exact SplitPart.nodup_all
  rw [SplitLayout.roster, List.map_map]
  apply hcopies.map_on
  intro first hfirst second hsecond hid
  exact SplitRole.copy.inj (henacts.plans.role_unique (SplitLayout.copy_mem_roles hfirst)
    (SplitLayout.copy_mem_roles hsecond) hid)

theorem cutInto (henacts : split.Enacts graph task vector plan layout after left) :
    left.CutInto split.computation split.factors plan.created layout.roster where
  parts := by
    rw [SplitLayout.roster, List.map_map]
    exact henacts.plans.planned.parts
  nodup := henacts.nodup_roster
  created := by
    intro entry hentry
    obtain ⟨copy, hcopy, rfl⟩ := List.mem_map.mp hentry
    exact henacts.role_mem_created (SplitLayout.copy_mem_roles hcopy)
  payload := by
    intro entry hentry
    obtain ⟨copy, hcopy, rfl⟩ := List.mem_map.mp hentry
    exact henacts.payload_copy hcopy

end Split.Enacts

namespace TaskGraph

theorem split_done {graph left : TaskGraph} {task : TaskId} {vector : SplitVector}
    {created : List TaskId} (hgraph : graph.Reachable) (hvalid : graph.validate = .ok ())
    (hsplit : split task vector graph = .ok created left) (hids : left.ids.next ≤ largestId) :
    ∃ split : Split, split.Cuts graph task vector ∧
      (split.factors.isIdentity = true ∧ created = [] ∧ left = graph ∨
        ∃ plan layout after, split.Enacts graph task vector plan layout after left ∧
          created = plan.created) := by
  obtain ⟨-, hwellFormed⟩ := hgraph.wellFormed
  obtain ⟨split, hcuts, hdone⟩ :=
    (ends_split hwellFormed hgraph.grouped task vector).of_ok hsplit hids
  refine ⟨split, hcuts, hdone.imp_right fun hdone => ?_⟩
  obtain ⟨plan, layout, after, hplans, hcreated, hcommitted⟩ := hdone
  exact ⟨plan, layout, after,
    ⟨hcuts, hplans, hcommitted, hwellFormed.id_below hvalid⟩, hcreated⟩

theorem split_cases {graph left : TaskGraph} {task : TaskId} {vector : SplitVector}
    {created : List TaskId} {computation : Computation} (hgraph : graph.Reachable)
    (hvalid : graph.validate = .ok ())
    (hpayload : graph.payload? task = some (.computation computation))
    (hsplit : split task vector graph = .ok created left) (hids : left.ids.next ≤ largestId) :
    ∃ split : Split, split.computation = computation ∧
      computation.effectiveFactors task vector = .ok split.factors ∧
        (split.factors.isIdentity = true ∧ created = [] ∧ left = graph ∨
          ∃ plan layout after, split.Enacts graph task vector plan layout after left ∧
            created = plan.created) := by
  obtain ⟨split, hcuts, hdone⟩ := split_done hgraph hvalid hsplit hids
  obtain rfl := Payload.computation.inj (Option.some.inj (hpayload.symm.trans hcuts.computes))
  exact ⟨split, rfl, hcuts.factors, hdone⟩

end TaskGraph

end TiledPlacement

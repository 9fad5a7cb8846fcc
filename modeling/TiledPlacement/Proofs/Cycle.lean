import Mathlib.Data.Set.Finite.Basic
import Mathlib.Logic.Relation

/-!
Cycles of a relation and what comes after them. Among finitely many items that each come after
another of them, all come after a cycle; items from which the relation does not lead back endlessly
do not.
-/

namespace TiledPlacement

variable {α : Type} {relation : α → α → Prop}

/-- The item is on a cycle or is reached from one. -/
def FollowsCycle (relation : α → α → Prop) (item : α) : Prop :=
  ∃ origin, Relation.TransGen relation origin origin ∧
    Relation.ReflTransGen relation origin item

theorem FollowsCycle.step {item next : α} (hitem : FollowsCycle relation item)
    (hnext : relation item next) : FollowsCycle relation next := by
  obtain ⟨origin, hcycle, hreaches⟩ := hitem
  exact ⟨origin, hcycle, hreaches.tail hnext⟩

theorem FollowsCycle.exists_before {item : α} (hitem : FollowsCycle relation item) :
    ∃ before, relation before item := by
  obtain ⟨origin, hcycle, hreaches⟩ := hitem
  obtain ⟨before, -, hbefore⟩ := Relation.TransGen.tail'_iff.mp (hcycle.trans_left hreaches)
  exact ⟨before, hbefore⟩

theorem not_followsCycle_of_acc {item : α} (hacc : Acc relation item) :
    ¬FollowsCycle relation item := by
  intro hitem
  obtain ⟨origin, hcycle, hreaches⟩ := hitem
  have horigin : Acc (Relation.TransGen relation) origin := by
    rcases Relation.reflTransGen_iff_eq_or_transGen.mp hreaches with rfl | hreaches
    · exact hacc.transGen
    · exact (hacc.inv_of_transGen hreaches).transGen
  clear hreaches
  induction horigin with
  | intro origin _ induction => exact induction origin hcycle hcycle

theorem wellFounded_of_acyclic [Finite α]
    (hacyclic : ∀ item, ¬Relation.TransGen relation item item) : WellFounded relation := by
  have : IsTrans α (Relation.TransGen relation) := ⟨fun _ _ _ => Relation.TransGen.trans⟩
  have : Std.Irrefl (Relation.TransGen relation) := ⟨hacyclic⟩
  have hchains := Finite.wellFounded_of_trans_of_irrefl (Relation.TransGen relation)
  exact Subrelation.wf Relation.TransGen.single hchains

theorem followsCycle_of_waiting (waiting : α → Prop) (hfinite : {item | waiting item}.Finite)
    (hwaits : ∀ item, waiting item → ∃ before, relation before item ∧ waiting before)
    {item : α} (hitem : waiting item) : FollowsCycle relation item := by
  by_contra hfree
  let Free := {item // waiting item ∧ ¬FollowsCycle relation item}
  have : Finite Free := (hfinite.subset fun item hboth => hboth.1).to_subtype
  have hacyclic : ∀ item : Free, ¬Relation.TransGen
      (fun before item : Free => relation before.1 item.1) item item := by
    intro item hcycle
    exact item.2.2 ⟨item.1, hcycle.lift Subtype.val fun _ _ hrelated => hrelated, .refl⟩
  apply (wellFounded_of_acyclic hacyclic).induction (C := fun _ => False) ⟨item, hitem, hfree⟩
  intro item induction
  obtain ⟨before, hrelated, hbefore⟩ := hwaits item.1 item.2.1
  have hbeforeFree : ¬FollowsCycle relation before := fun hfollows =>
    item.2.2 (hfollows.step hrelated)
  exact induction ⟨before, hbefore, hbeforeFree⟩ hrelated

end TiledPlacement

import TiledPlacement.Proofs.Action
import TiledPlacement.Proofs.Grid.Occupancy

/-!
A command answers by what its coordinate names and changes nothing else, so commands on different
places or on different units of one place do not see each other.
-/

namespace TiledPlacement

namespace Point

def SameIn (unit : FunctionalUnit) (left right : Point) : Prop :=
  if unit = .memory then left.memory = right.memory
  else left.occupant? unit = right.occupant? unit

theorem SameIn.refl (unit : FunctionalUnit) (point : Point) : point.SameIn unit point := by
  unfold SameIn
  split <;> rfl

theorem eq_of_sameIn {left right : Point} (hsame : ∀ unit, SameIn unit left right) :
    left = right := by
  cases left
  cases right
  rw [Point.mk.injEq]
  exact ⟨hsame .axon, hsame .soma1, hsame .routerSend, hsame .routerReceive, hsame .soma2,
    hsame .memory⟩

theorem sameIn_setSlot {unit other : FunctionalUnit} (hother : other ≠ unit) (point : Point)
    (occupant : Option TaskId) : point.SameIn other (point.setSlot unit occupant) := by
  cases unit <;> cases other <;> first | rfl | exact absurd rfl hother

theorem sameIn_withMemory {other : FunctionalUnit} (hother : other ≠ .memory) (point : Point)
    (memory : TaskSet) : SameIn other point { point with memory } := by
  cases other <;> first | rfl | exact absurd rfl hother

end Point

namespace Reference

/-- No unit lies in both. -/
def Apart (left right : Reference) : Prop :=
  ∀ site unit, left.Covers site unit → ¬right.Covers site unit

/-- Two maps with the same in what is named. -/
def Agree (reference : Reference) (left right : Occupancy) : Prop :=
  ∀ site, reference.Includes site →
    Option.Rel (fun before after => ∀ unit, reference.Covers site unit → before.SameIn unit after)
      (left site) (right site)

theorem exists_covers {reference : Reference} {site : Site} (hincludes : reference.Includes site) :
    ∃ unit, reference.Covers site unit := by
  cases reference with
  | unit named unit => exact ⟨unit, hincludes, rfl⟩
  | _ => exact ⟨.memory, hincludes⟩

theorem Agree.refl (reference : Reference) (occupancy : Occupancy) :
    reference.Agree occupancy occupancy := by
  intro site _
  cases occupancy site with
  | none => exact .none
  | some point => exact .some fun unit _ => .refl unit point

/-- Only the point of one site is another, with the same in each unit that is named. -/
theorem agree_put {reference : Reference} {occupancy : Occupancy} {site : Site}
    {before after : Point} (hpoint : occupancy site = some before)
    (hsame : ∀ unit, reference.Covers site unit → before.SameIn unit after) :
    reference.Agree occupancy (occupancy.put site (some after)) := by
  intro other hincludes
  by_cases hother : other = site
  · subst hother
    rw [hpoint, Occupancy.put, if_pos rfl]
    exact .some hsame
  · rw [Occupancy.put, if_neg hother]
    exact Agree.refl reference occupancy other hincludes

theorem Agree.at_site {reference : Reference} {left right : Occupancy}
    (hagree : reference.Agree left right) {site : Site} (hincludes : reference.Includes site) :
    (left site = none ∧ right site = none) ∨
      ∃ before after, left site = some before ∧ right site = some after ∧
        ∀ unit, reference.Covers site unit → before.SameIn unit after := by
  have hrel := hagree site hincludes
  generalize left site = found at hrel ⊢
  generalize right site = other at hrel ⊢
  cases hrel with
  | none => exact Or.inl ⟨rfl, rfl⟩
  | some hsame => exact Or.inr ⟨_, _, rfl, rfl, hsame⟩

theorem Apart.agree_put {reference : Reference} {site : Site}
    (hapart : Apart (.point site) reference) (occupancy : Occupancy) (point : Option Point) :
    reference.Agree occupancy (occupancy.put site point) := by
  intro other hincludes
  obtain ⟨unit, hcovers⟩ := exists_covers hincludes
  have hother : other ≠ site := fun hsame => hapart other unit hsame hcovers
  rw [Occupancy.put, if_neg hother]
  exact Agree.refl reference occupancy other hincludes

end Reference

namespace Occupancy

open Reference

variable {occupancy next left right : Occupancy} {hardware : Hardware} {place : Coordinate}
  {unit : FunctionalUnit}

theorem perform_of_unnamed {command : Grid.Command} {error : GridError}
    (hnamed : hardware.namedForChange command.place = .error error) :
    occupancy.perform hardware command = .error error := by
  rw [perform, hnamed]
  rfl

theorem perform_of_named {command : Grid.Command} {reference : Reference}
    (hnamed : hardware.namedForChange command.place = .ok reference) :
    occupancy.perform hardware command = occupancy.change command reference := by
  rw [perform, hnamed]
  rfl

theorem change_addTask {site : Site} {point : Point} (hpoint : occupancy site = some point)
    (task : TaskId) :
    occupancy.change (.addTask place task) (.unit site unit) =
      (filled place unit task point).map fun point => (.done, occupancy.put site (some point)) := by
  simp only [change, pointAt, hpoint]
  exact rfl

theorem change_take {site : Site} {point : Point} (hpoint : occupancy site = some point)
    (task : Option TaskId) :
    occupancy.change (.take place task) (.unit site unit) =
      (cleared place unit task point).map fun found =>
        (.task found.1, occupancy.put site (some found.2)) := by
  simp only [change, pointAt, hpoint]
  exact rfl

theorem sameIn_filled {task : TaskId} {point after : Point}
    (hfilled : filled place unit task point = .ok after) {other : FunctionalUnit}
    (hother : other ≠ unit) : point.SameIn other after := by
  unfold filled at hfilled
  split at hfilled
  case isTrue hbank =>
    subst hbank
    split at hfilled
    case isTrue => cases hfilled
    case isFalse =>
      cases hfilled
      exact Point.sameIn_withMemory hother point _
  case isFalse =>
    split at hfilled
    case h_1 => cases hfilled
    case h_2 =>
      cases hfilled
      exact Point.sameIn_setSlot hother point _

theorem sameIn_cleared {task : Option TaskId} {point : Point} {found : Option TaskId × Point}
    (hcleared : cleared place unit task point = .ok found) {other : FunctionalUnit}
    (hother : other ≠ unit) : point.SameIn other found.2 := by
  have hwithout : ∀ task, point.SameIn other
      (if unit = .memory then { point with memory := point.memory.erase task }
        else point.setSlot unit none) := by
    intro task
    split
    case isTrue hbank => exact Point.sameIn_withMemory (hbank ▸ hother) point _
    case isFalse => exact Point.sameIn_setSlot hother point none
  unfold cleared at hcleared
  cases task with
  | none =>
      cases hcleared
      dsimp only
      generalize (if unit = .memory then point.memory.min? else point.occupant? unit) = present
      cases present with
      | none => exact .refl other point
      | some task => exact hwithout task
  | some task =>
      rcases ite_eq_iff.mp hcleared with ⟨-, hfound⟩ | ⟨-, habsent⟩
      · cases hfound
        exact hwithout task
      · cases habsent

theorem pointAt_eq_ok {site : Site} {point : Point}
    (hpoint : occupancy.pointAt place site = .ok point) : occupancy site = some point := by
  unfold pointAt at hpoint
  split at hpoint
  case h_1 found hfound => rwa [Except.ok.inj hpoint] at hfound
  case h_2 => cases hpoint

/-- A change leaves alone whatever is apart from what its coordinate names. -/
theorem change_agree {command : Grid.Command} {named other : Reference} {answer : Grid.Answer}
    (hchange : occupancy.change command named = .ok (answer, next)) (hapart : named.Apart other) :
    other.Agree occupancy next := by
  cases command with
  | addPoint place point =>
      cases named with
      | point site =>
          rcases ite_eq_iff.mp hchange with ⟨-, hpresent⟩ | ⟨-, hput⟩
          · cases hpresent
          · cases hput
            exact hapart.agree_put occupancy _
      | _ => cases hchange
  | removePoint place =>
      cases named with
      | point site =>
          obtain ⟨point, -, hchange⟩ := bind_eq_ok_iff.mp hchange
          cases hchange
          exact hapart.agree_put occupancy none
      | _ => cases hchange
  | addTask place task =>
      cases named with
      | unit site unit =>
          obtain ⟨point, hpoint, hchange⟩ := bind_eq_ok_iff.mp hchange
          obtain ⟨after, hfilled, hchange⟩ := bind_eq_ok_iff.mp hchange
          cases hchange
          refine agree_put (pointAt_eq_ok hpoint) fun covered hcovers => ?_
          have hother : covered ≠ unit := fun hsame => hapart site covered ⟨rfl, hsame⟩ hcovers
          exact sameIn_filled hfilled hother
      | _ => cases hchange
  | take place task =>
      cases named with
      | unit site unit =>
          obtain ⟨point, hpoint, hchange⟩ := bind_eq_ok_iff.mp hchange
          obtain ⟨found, hcleared, hchange⟩ := bind_eq_ok_iff.mp hchange
          cases hchange
          refine agree_put (pointAt_eq_ok hpoint) fun covered hcovers => ?_
          have hother : covered ≠ unit := fun hsame => hapart site covered ⟨rfl, hsame⟩ hcovers
          exact sameIn_cleared hcleared hother
      | _ => cases hchange

/-! What a command answers is settled by what its coordinate names. -/

theorem filled_congr {task : TaskId} {point other : Point} (hsame : point.SameIn unit other)
    {first second : Point → Grid.Answer × Occupancy}
    (hanswers : ∀ found found', (first found).1 = (second found').1) :
    ((filled place unit task point).map first).map Prod.fst =
      ((filled place unit task other).map second).map Prod.fst := by
  unfold Point.SameIn at hsame
  unfold filled
  split at hsame
  case isTrue hbank =>
    rw [if_pos hbank, if_pos hbank, hsame]
    split
    · rfl
    · exact congrArg Except.ok (hanswers _ _)
  case isFalse hslot =>
    rw [if_neg hslot, if_neg hslot, hsame]
    split
    · rfl
    · exact congrArg Except.ok (hanswers _ _)

theorem cleared_congr {task : Option TaskId} {point other : Point}
    (hsame : point.SameIn unit other)
    {first second : Option TaskId × Point → Grid.Answer × Occupancy}
    (hanswers : ∀ found found', found.1 = found'.1 → (first found).1 = (second found').1) :
    ((cleared place unit task point).map first).map Prod.fst =
      ((cleared place unit task other).map second).map Prod.fst := by
  unfold Point.SameIn at hsame
  unfold cleared
  split at hsame
  case isTrue hbank =>
    simp only [hbank, if_true, hsame]
    cases task with
    | none => exact congrArg Except.ok (hanswers _ _ rfl)
    | some task =>
        dsimp only
        split
        · exact congrArg Except.ok (hanswers _ _ rfl)
        · rfl
  case isFalse hslot =>
    simp only [hslot, if_false, hsame]
    cases task with
    | none => exact congrArg Except.ok (hanswers _ _ rfl)
    | some task =>
        dsimp only
        split
        · exact congrArg Except.ok (hanswers _ _ rfl)
        · rfl

theorem change_congr {named : Reference} (hagree : named.Agree left right)
    (command : Grid.Command) :
    (left.change command named).map Prod.fst = (right.change command named).map Prod.fst := by
  cases named with
  | column => cases command <;> rfl
  | step => cases command <;> rfl
  | point site =>
      have hsame : left site = right site := by
        rcases hagree.at_site rfl with ⟨hleft, hright⟩ | ⟨before, after, hleft, hright, hunits⟩
        · rw [hleft, hright]
        · rw [hleft, hright, Point.eq_of_sameIn fun unit => hunits unit rfl]
      cases command with
      | addPoint place point =>
          simp only [change, hsame]
          split <;> rfl
      | removePoint place =>
          simp only [change, pointAt, hsame]
          cases right site <;> rfl
      | _ => rfl
  | unit site unit =>
      rcases hagree.at_site rfl with ⟨hleft, hright⟩ | ⟨before, after, hleft, hright, hunits⟩
      · cases command <;> simp only [change, pointAt, hleft, hright] <;> rfl
      · have hsame := hunits unit ⟨rfl, rfl⟩
        cases command with
        | addTask place task =>
            rw [change_addTask hleft, change_addTask hright]
            exact filled_congr hsame fun _ _ => rfl
        | take place task =>
            rw [change_take hleft, change_take hright]
            exact cleared_congr hsame fun _ _ htask => congrArg Grid.Answer.task htask
        | _ => rfl

end Occupancy

namespace Hardware

open Occupancy

/-- Commands answer by what their coordinates name, change nothing else, and so do not see each
other where those are apart. -/
structure Separates (hardware : Hardware) : Prop where
  answers : ∀ {command : Grid.Command} {named : Reference} {left right : Occupancy},
    hardware.namedForChange command.place = .ok named → named.Agree left right →
      (left.perform hardware command).map Prod.fst = (right.perform hardware command).map Prod.fst
  changes : ∀ {command : Grid.Command} {named other : Reference} {occupancy next : Occupancy}
    {answer : Grid.Answer}, hardware.namedForChange command.place = .ok named →
      named.Apart other → occupancy.perform hardware command = .ok (answer, next) →
      other.Agree occupancy next
  unseen : ∀ {first second : Grid.Command} {named other : Reference} {occupancy next : Occupancy}
    {answer : Grid.Answer}, hardware.namedForChange first.place = .ok named →
      hardware.namedForChange second.place = .ok other → named.Apart other →
      occupancy.perform hardware first = .ok (answer, next) →
      (next.perform hardware second).map Prod.fst =
        (occupancy.perform hardware second).map Prod.fst

variable {hardware : Hardware} {command : Grid.Command} {named : Reference}

theorem perform_congr {left right : Occupancy}
    (hnamed : hardware.namedForChange command.place = .ok named) (hagree : named.Agree left right) :
    (left.perform hardware command).map Prod.fst =
      (right.perform hardware command).map Prod.fst := by
  rw [perform_of_named hnamed, perform_of_named hnamed]
  exact change_congr hagree command

theorem perform_agree {other : Reference} {occupancy next : Occupancy} {answer : Grid.Answer}
    (hnamed : hardware.namedForChange command.place = .ok named) (hapart : named.Apart other)
    (hperform : occupancy.perform hardware command = .ok (answer, next)) :
    other.Agree occupancy next := by
  rw [perform_of_named hnamed] at hperform
  exact change_agree hperform hapart

theorem separates (hardware : Hardware) : hardware.Separates where
  answers := perform_congr
  changes := perform_agree
  unseen := fun hfirst hsecond hapart hperform =>
    (perform_congr hsecond (perform_agree hfirst hapart hperform)).symm

end Hardware

end TiledPlacement

import TiledPlacement.Proofs.Placement.Refusal

/-!
Commands on a single task do all that they are for or nothing, and each can be undone by another. A
task on the move that is refused goes back to where it was.
-/

namespace TiledPlacement

open Execution

namespace Placement

variable {origin placement left : Placement} {task : TaskId} {source : Coordinate}
  {error : PlacementError}

theorem Agrees.exists_unit (hagrees : placement.Agrees)
    (hplaced : placement.coordinate? task = some source) :
    ∃ unit, source.unit? placement.spaceDepth = some unit := by
  obtain ⟨_, unit, hresolve, -⟩ := hagrees.located hplaced
  exact ⟨unit, (Grid.resolve_eq_unit_iff.mp hresolve).2.1⟩

/-- Why a task does not move. -/
inductive MoveRefused (placement : Placement) (task : TaskId) (source target : Coordinate) :
    PlacementError → Prop
  | noUnit (hnone : target.unit? placement.spaceDepth = none) :
      MoveRefused placement task source target (.grid (.contract target .unitRequired))
  | otherUnit {current wanted : FunctionalUnit}
      (hcurrent : source.unit? placement.spaceDepth = some current)
      (hwanted : target.unit? placement.spaceDepth = some wanted) (hother : current ≠ wanted) :
      MoveRefused placement task source target
        (.slotMismatch task wanted (.changesUnit current))
  | refused {unit : FunctionalUnit} {error : PlacementError}
      (hcurrent : source.unit? placement.spaceDepth = some unit)
      (hwanted : target.unit? placement.spaceDepth = some unit)
      (hrefused : Refused placement task target error) :
      MoveRefused placement task source target error

theorem MoveRefused.unique {target : Coordinate} {other : PlacementError}
    (hrefused : MoveRefused placement task source target error)
    (hother : MoveRefused placement task source target other) : error = other := by
  cases hrefused <;> cases hother <;> grind [Refused.unique]

section Unit

variable {target : Coordinate} (hagrees : placement.Agrees)
  (hplaced : placement.coordinate? task = some source)
include hagrees hplaced

theorem unit?_of_free (hfree : ∀ error, ¬MoveRefused placement task source target error) :
    source.unit? placement.spaceDepth = target.unit? placement.spaceDepth := by
  obtain ⟨unit, hcurrent⟩ := hagrees.exists_unit hplaced
  cases hwanted : target.unit? placement.spaceDepth with
  | none => exact absurd (.noUnit hwanted) (hfree _)
  | some wanted =>
      by_cases hsame : unit = wanted
      · rw [hcurrent, hsame]
      · exact absurd (.otherUnit hcurrent hwanted hsame) (hfree _)

/-- Between places of the same unit nothing but a refusal at the new one is in the way. -/
theorem MoveRefused.refused_of_same
    (hsame : source.unit? placement.spaceDepth = target.unit? placement.spaceDepth)
    (hmove : MoveRefused placement task source target error) :
    Refused placement task target error := by
  obtain ⟨unit, hcurrent⟩ := hagrees.exists_unit hplaced
  cases hmove with
  | noUnit hnone => cases hcurrent.symm.trans (hsame.trans hnone)
  | otherUnit hfound hwanted hother =>
      exact absurd (Option.some.inj (hfound.symm.trans (hsame.trans hwanted))) hother
  | refused _ _ hrefused => exact hrefused

end Unit

section Move

variable {target : Coordinate} (hagrees : placement.Agrees)
  (hids : placement.graph.ids.next ≤ largestId) (hblock : placement.graph.hasBlock task = true)
  (hplaced : placement.coordinate? task = some source)
include hagrees hids hblock hplaced

theorem ends_moveTask :
    Ends (moveTask task target) placement
      (fun _ left => (∀ error, ¬MoveRefused placement task source target error) ∧
        Rearranged placement
          (fun other => if other = task then some target else placement.coordinate? other) left)
      (fun error left => left = placement ∧ MoveRefused placement task source target error) := by
  obtain ⟨unit, hcurrent⟩ := hagrees.exists_unit hplaced
  unfold moveTask
  simp only [ends_bind, ends_get, hplaced, hcurrent]
  cases hwanted : target.unit? placement.spaceDepth with
  | none => exact ⟨rfl, .noUnit hwanted⟩
  | some wanted =>
      by_cases hsame : unit = wanted
      case neg =>
        simp only [ne_eq, hsame, not_false_eq_true, if_true]
        exact ⟨rfl, .otherUnit hcurrent hwanted hsame⟩
      case pos =>
        subst hsame
        simp only [ne_eq, not_true_eq_false, if_false, ends_bind]
        refine (ends_takeOut_rearranged hagrees hplaced).mono (fun _ taken htaken => ?_)
          (fun _ _ hfalse => hfalse.elim)
        have hunplaced : taken.coordinate? task = none := by simp [htaken.coordinate]
        have hrefused : ∀ place error,
            Refused taken task place error ↔ Refused placement task place error :=
          fun place error => htaken.refused_iff hagrees fun other hother => if_neg hother
        rw [ends_tryCatch]
        refine (ends_putIn_unplaced htaken.reseated.agrees hunplaced).mono ?_ ?_
        · rintro _ left ⟨hfree, hleft⟩
          refine ⟨fun error hmove => ?_, (htaken.trans hleft).mono fun other => ?_⟩
          · have hrefusal :=
              hmove.refused_of_same hagrees hplaced (hcurrent.trans hwanted.symm)
            exact hfree error ((hrefused target error).mpr hrefusal)
          · simp only [htaken.coordinate]
            split <;> rfl
        · rintro error _ ⟨rfl, hrefusal⟩
          rw [ends_bind]
          -- The way back is free, and leads to just the placement that the task had left.
          refine (ends_putIn_unplaced htaken.reseated.agrees hunplaced).mono ?_ ?_
          · rintro _ restored ⟨-, hrestored⟩
            refine ⟨Rearranged.eq_origin hagrees ((htaken.trans hrestored).mono fun other => ?_),
              .refused hcurrent hwanted ((hrefused target error).mp hrefusal)⟩
            simp only [htaken.coordinate]
            split
            case isTrue hother => rw [hother, hplaced]
            case isFalse => rfl
          · rintro found _ ⟨-, hback⟩
            exact absurd ((hrefused source found).mp hback)
              (not_refused_of_placed hagrees hids hblock hplaced found)

end Move

/-- All that is different once a task is at a place, or nowhere, is where that task is. -/
structure Alters (origin : Placement) (task : TaskId) (place : Option Coordinate)
    (left : Placement) : Prop where
  graph : left.graph = origin.graph
  hardware : left.hardware = origin.hardware
  gridRoutes : left.grid.routes = origin.grid.routes
  routes : left.whereabouts.routes = origin.whereabouts.routes
  coordinate : ∀ other, left.coordinate? other =
    if other = task then place else origin.coordinate? other
  present : ∀ cell, (left.grid.pointAt? cell).isSome = (origin.grid.pointAt? cell).isSome
  others : ∀ cell unit other, other ≠ task →
    (left.grid.Sits cell unit other ↔ origin.grid.Sits cell unit other)
  task : ∀ cell unit,
    left.grid.Sits cell unit task ↔ ∃ target, place = some target ∧
      origin.grid.resolve target = .ok (some (.unit cell unit))

theorem Rearranged.alters (hagrees : origin.Agrees) {place : Option Coordinate}
    (hleft : Rearranged origin
      (fun other => if other = task then place else origin.coordinate? other) left) :
    origin.Alters task place left where
  graph := hleft.reseated.graph
  hardware := hleft.reseated.hardware
  gridRoutes := by rw [hleft.reseated.agrees.routes, hagrees.routes, hleft.routes]
  routes := hleft.routes
  coordinate := hleft.coordinate
  present := hleft.reseated.present
  others cell unit other hother := by
    rw [hleft.sits_iff, hagrees.sits_iff, if_neg hother]
  task cell unit := by rw [hleft.sits_iff, if_pos rfl]

/-- Taking a task out of where it is undoes what brought it there from nowhere. -/
theorem takeOut_of_rearranged (hagrees : origin.Agrees) (hunplaced : origin.coordinate? task = none)
    (hleft : Rearranged origin
      (fun other => if other = task then some place else origin.coordinate? other) left) :
    takeOut place task left = .ok () origin := by
  have hplaced : left.coordinate? task = some place := by simp [hleft.coordinate]
  refine eq_ok_of_ends ((ends_takeOut_rearranged hleft.reseated.agrees hplaced).mono ?_
    fun _ _ hfalse => hfalse)
  intro _ back hback
  refine Rearranged.eq_origin hagrees ((hleft.trans hback).mono fun other => ?_)
  by_cases hother : other = task <;> simp [hother, hleft.coordinate, hunplaced]

section Back

variable {target : Coordinate} (hagrees : origin.Agrees)
  (hids : origin.graph.ids.next ≤ largestId) (hblock : origin.graph.hasBlock task = true)
  (hplaced : origin.coordinate? task = some source)
include hagrees hids hblock hplaced

/-- A task that was taken out can be put in again. -/
theorem putIn_of_rearranged
    (hleft : Rearranged origin
      (fun other => if other = task then none else origin.coordinate? other) left) :
    putIn source task left = .ok () origin := by
  have hunplaced : left.coordinate? task = none := by simp [hleft.coordinate]
  refine eq_ok_of_ends ((ends_putIn_unplaced hleft.reseated.agrees hunplaced).mono ?_ ?_)
  · rintro _ back ⟨-, hback⟩
    refine Rearranged.eq_origin hagrees ((hleft.trans hback).mono fun other => ?_)
    by_cases hother : other = task <;> simp [hother, hleft.coordinate, hplaced]
  · rintro error _ ⟨-, hrefused⟩
    rw [hleft.refused_iff hagrees fun other hother => if_neg hother] at hrefused
    exact not_refused_of_placed hagrees hids hblock hplaced error hrefused

/-- A task that has moved can move back. -/
theorem moveTask_of_rearranged
    (hsame : source.unit? origin.spaceDepth = target.unit? origin.spaceDepth)
    (hleft : Rearranged origin
      (fun other => if other = task then some target else origin.coordinate? other) left) :
    moveTask task source left = .ok () origin := by
  have hleftAgrees := hleft.reseated.agrees
  have hleftPlaced : left.coordinate? task = some target := by simp [hleft.coordinate]
  have hleftIds : left.graph.ids.next ≤ largestId := by rwa [hleft.reseated.graph]
  have hleftBlock : left.graph.hasBlock task = true := by rwa [hleft.reseated.graph]
  refine eq_ok_of_ends ((ends_moveTask hleftAgrees hleftIds hleftBlock hleftPlaced).mono ?_ ?_)
  · rintro _ back ⟨-, hback⟩
    refine Rearranged.eq_origin hagrees ((hleft.trans hback).mono fun other => ?_)
    by_cases hother : other = task <;> simp [hother, hleft.coordinate, hplaced]
  · rintro error _ ⟨-, hmove⟩
    rw [← hleft.reseated.spaceDepth] at hsame
    have hrefused := hmove.refused_of_same hleftAgrees hleftPlaced hsame.symm
    rw [hleft.refused_iff hagrees fun other hother => if_neg hother] at hrefused
    exact not_refused_of_placed hagrees hids hblock hplaced error hrefused

end Back

/-- Putting in, taking out and moving a block change where that block is and nothing else, and can
be undone, or leave the placement as it was. A move fails with the error of the place to which it
goes, which is the one with which that place refuses the block after it has been taken out. -/
theorem Reachable.task_all_or_nothing {placement : Placement} (hreachable : placement.Reachable)
    (hids : placement.graph.ids.next ≤ largestId) {task : TaskId}
    (hblock : placement.graph.hasBlock task = true) (place : Coordinate) :
    Ends (putIn place task) placement
        (fun _ left => placement.Alters task (some place) left ∧
          takeOut place task left = .ok () placement)
        (fun _ left => left = placement) ∧
      Ends (takeOut place task) placement
        (fun _ left => placement.Alters task none left ∧ putIn place task left = .ok () placement)
        (fun _ left => left = placement) ∧
      Ends (moveTask task place) placement
        (fun _ left => placement.Alters task (some place) left ∧
          ∃ source, placement.coordinate? task = some source ∧
            moveTask task source left = .ok () placement)
        (fun _ left => left = placement) ∧
      (placement.coordinate? task = none → ∀ error,
        putIn place task placement = .error error placement ↔
          Refused placement task place error) ∧
      ∀ source, placement.coordinate? task = some source →
        (∀ error, moveTask task place placement = .error error placement ↔
          MoveRefused placement task source place error) ∧
        ∃ taken, takeOut source task placement = .ok () taken ∧
          ∀ error, putIn place task taken = .error error taken ↔
            Refused placement task place error := by
  have hagrees := hreachable.agrees
  refine ⟨?_, ?_, ?_, fun hunplaced error => ?_, fun source hplaced => ⟨fun error => ?_, ?_⟩⟩
  · cases hplaced : placement.coordinate? task with
    | none =>
        exact (ends_putIn_unplaced hagrees hplaced).mono
          (fun _ _ hleft => ⟨hleft.2.alters hagrees, takeOut_of_rearranged hagrees hplaced hleft.2⟩)
          (fun _ _ hfailed => hfailed.1)
    | some current =>
        unfold putIn
        simp only [ends_bind, ends_get, hplaced]
        exact rfl
  · cases hplaced : placement.coordinate? task with
    | none =>
        unfold takeOut
        simp only [ends_bind, ends_get, hplaced]
        exact rfl
    | some current =>
        by_cases hcurrent : current = place
        · subst hcurrent
          exact (ends_takeOut_rearranged hagrees hplaced).mono
            (fun _ _ hleft => ⟨hleft.alters hagrees,
              putIn_of_rearranged hagrees hids hblock hplaced hleft⟩)
            (fun _ _ hfalse => hfalse.elim)
        · exact (ends_takeOut_elsewhere hplaced hcurrent).mono (fun _ _ hfalse => hfalse.elim)
            (fun _ _ hfailed => hfailed.1)
  · cases hplaced : placement.coordinate? task with
    | none =>
        unfold moveTask
        simp only [ends_bind, ends_get, hplaced]
        exact rfl
    | some source =>
        refine (ends_moveTask hagrees hids hblock hplaced).mono ?_ (fun _ _ hfailed => hfailed.1)
        rintro _ left ⟨hfree, hleft⟩
        exact ⟨hleft.alters hagrees, source, rfl,
          moveTask_of_rearranged hagrees hids hblock hplaced
            (unit?_of_free hagrees hplaced hfree) hleft⟩
  · exact Ends.eq_error_iff ((ends_putIn_unplaced hagrees hunplaced).mono
      (fun _ _ hleft => hleft.1) (fun _ _ hfailed => hfailed)) Refused.unique error
  · exact Ends.eq_error_iff ((ends_moveTask hagrees hids hblock hplaced).mono
      (fun _ _ hleft => hleft.1) (fun _ _ hfailed => hfailed)) MoveRefused.unique error
  · obtain ⟨taken, hrun, htaken⟩ := (ends_takeOut_rearranged hagrees hplaced).exists_ok
    refine ⟨taken, hrun, fun error => ?_⟩
    have hunplaced : taken.coordinate? task = none := by simp [htaken.coordinate]
    rw [← htaken.refused_iff hagrees fun other hother => if_neg hother]
    exact Ends.eq_error_iff ((ends_putIn_unplaced htaken.reseated.agrees hunplaced).mono
      (fun _ _ hleft => hleft.1) (fun _ _ hfailed => hfailed)) Refused.unique error

/-- An input does not get to a fourth core where there are three, and comes back from the third. -/
theorem task_all_or_nothing_routedChannel :
    moveTask ⟨0⟩ (bank 3) routedChannel = .error (.grid (.notFound (bank 3))) routedChannel ∧
      ∃ left, moveTask ⟨0⟩ (bank 2) routedChannel = .ok () left ∧
        routedChannel.Alters ⟨0⟩ (some (bank 2)) left ∧
          moveTask ⟨0⟩ (bank 0) left = .ok () routedChannel := by
  have hids : routedChannel.graph.ids.next ≤ largestId := by decide +kernel
  have hblock : routedChannel.graph.hasBlock ⟨0⟩ = true := by decide +kernel
  have hplaced : routedChannel.coordinate? ⟨0⟩ = some (bank 0) := by decide +kernel
  constructor
  · obtain ⟨-, -, -, -, hmoves⟩ :=
      reachable_routedChannel.task_all_or_nothing hids hblock (bank 3)
    have hmemory : ∀ core, (bank core).unit? routedChannel.spaceDepth = some .memory := fun _ => rfl
    refine ((hmoves (bank 0) hplaced).1 _).mpr
      (.refused (hmemory 0) (hmemory 3) (.outside ?_ ?_))
    · decide +kernel
    · decide +kernel
  · obtain ⟨-, -, hends, -⟩ := reachable_routedChannel.task_all_or_nothing hids hblock (bank 2)
    have hreturns : fails (moveTask ⟨0⟩ (bank 2)) routedChannel = false := by decide +kernel
    obtain ⟨_, hrun⟩ := run_eq_ok hreturns
    obtain ⟨halters, source, hsource, hback⟩ := hends.of_ok hrun
    obtain rfl := Option.some.inj (hplaced.symm.trans hsource)
    exact ⟨_, hrun, halters, hback⟩

end Placement

end TiledPlacement

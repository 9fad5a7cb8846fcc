import TiledPlacement.Proofs.Placement.Determined
import TiledPlacement.Proofs.Placement.Splitting

/-!
When a place refuses a task, and with which error. Nothing but a refusal keeps an unplaced task out,
and a block is not refused where it is.
-/

namespace TiledPlacement

open Execution

namespace Grid

variable {grid : Grid} {place : Coordinate} {cell : Cell} {unit : FunctionalUnit}
  {task other : TaskId}

/-- A full coordinate leads to a unit, if anywhere. -/
theorem resolve_of_fullDepth (hdepth : place.depth = grid.hardware.fullDepth) :
    grid.resolve place = .ok none ∨
      ∃ cell unit, grid.resolve place = .ok (some (.unit cell unit)) := by
  have hfull : place.depth = grid.spaceDepth + 3 := hdepth
  have hspace : ¬place.depth < grid.spaceDepth := by omega
  have hdeep : ¬grid.hardware.fullDepth < place.depth := by omega
  have hcolumn : ¬place.depth = grid.spaceDepth := by omega
  have hstep : ¬place.depth = grid.spaceDepth + 1 := by omega
  have hpoint : ¬place.depth = grid.spaceDepth + 2 := by omega
  cases hresolve : grid.resolve place with
  | error error => simp [resolve, hspace, hdeep] at hresolve
  | ok address =>
      cases address with
      | none => exact Or.inl rfl
      | some address =>
          simp only [resolve, hspace, hdeep, hcolumn, hstep, hpoint, if_false, Except.ok.injEq,
            Option.bind_eq_bind, Option.bind_eq_some_iff, Option.pure_def,
            Option.some.injEq] at hresolve
          obtain ⟨column, -, step, -, -, -, phase, -, -, -, unit, -, rfl⟩ := hresolve
          exact Or.inr ⟨_, unit, rfl⟩

theorem sits_slot_unique (hslot : unit.isSlot = true) (hsits : grid.Sits cell unit task)
    (hother : grid.Sits cell unit other) : other = task := by
  obtain ⟨point, hpoint, hholds⟩ := hsits
  obtain ⟨found, hfound, hfoundHolds⟩ := hother
  obtain rfl := Option.some.inj (hpoint.symm.trans hfound)
  rw [Point.holds_slot hslot] at hholds hfoundHolds
  exact Option.some.inj (hfoundHolds.symm.trans hholds)

theorem ends_addTask_outside (hdepth : place.depth = grid.hardware.fullDepth)
    (hresolve : grid.resolve place = .ok none) (task : TaskId) :
    Ends (addTask place task) grid (fun _ _ => False)
      (fun error after => error = .notFound place ∧ after = grid) := by
  have hunit : grid.resolveUnit place = .error (.notFound place) := by
    simp [resolveUnit, resolveForChange, hdepth, hresolve]
    rfl
  unfold addTask locate
  simp only [ends_bind, ends_get, hunit]
  exact ⟨rfl, rfl⟩

end Grid

namespace Placement

variable {origin placement left : Placement} {task : TaskId} {source place : Coordinate}
  {cell : Cell} {unit : FunctionalUnit} {error : PlacementError}

theorem Reseated.checkSlot (hreseated : Reseated origin left) (place : Coordinate)
    (task : TaskId) : left.checkSlot place task = origin.checkSlot place task := by
  simp only [Placement.checkSlot, hreseated.hardware, hreseated.spaceDepth, hreseated.graph]

theorem depth_of_checkSlot (hcheck : placement.checkSlot place task = .ok ()) :
    place.depth = placement.hardware.fullDepth := by
  unfold checkSlot at hcheck
  dsimp only at hcheck
  split at hcheck
  case isTrue => cases hcheck
  case isFalse hdepth => exact Decidable.not_not.mp hdepth

/-- Why a place does not take a task that is nowhere else, or would not take it were it nowhere. -/
inductive Refused (placement : Placement) (task : TaskId) (place : Coordinate) :
    PlacementError → Prop
  | unsuited {error : PlacementError} (hcheck : placement.checkSlot place task = .error error) :
      Refused placement task place error
  | outside (hcheck : placement.checkSlot place task = .ok ())
      (hresolve : placement.grid.resolve place = .ok none) :
      Refused placement task place (.grid (.notFound place))
  | absent {cell : Cell} {unit : FunctionalUnit}
      (hcheck : placement.checkSlot place task = .ok ())
      (hresolve : placement.grid.resolve place = .ok (some (.unit cell unit)))
      (hpoint : placement.grid.pointAt? cell = none) :
      Refused placement task place (.grid (.notFound place))
  | occupied {cell : Cell} {unit : FunctionalUnit} {occupant : TaskId}
      (hcheck : placement.checkSlot place task = .ok ())
      (hresolve : placement.grid.resolve place = .ok (some (.unit cell unit)))
      (hslot : unit.isSlot = true) (hsits : placement.grid.Sits cell unit occupant)
      (hother : occupant ≠ task) :
      Refused placement task place (.grid (.occupied place unit occupant))

namespace Refused

/-- A refusal stays where no other task leaves the slot. -/
theorem mono (hreseated : Reseated origin left)
    (hstays : ∀ {cell unit other}, origin.checkSlot place task = .ok () →
      origin.grid.resolve place = .ok (some (.unit cell unit)) → unit.isSlot = true →
        other ≠ task → origin.grid.Sits cell unit other → left.grid.Sits cell unit other)
    (hrefused : Refused origin task place error) : Refused left task place error := by
  have hleftCheck := hreseated.checkSlot place task
  have hleftResolve := hreseated.resolve place
  cases hrefused with
  | unsuited hcheck => exact .unsuited (hleftCheck.trans hcheck)
  | outside hcheck hresolve =>
      exact .outside (hleftCheck.trans hcheck) (hleftResolve.trans hresolve)
  | @absent cell _ hcheck hresolve hpoint =>
      refine .absent (hleftCheck.trans hcheck) (hleftResolve.trans hresolve) ?_
      have hpresent := hreseated.present cell
      simpa [hpoint] using hpresent
  | occupied hcheck hresolve hslot hsits hother =>
      exact .occupied (hleftCheck.trans hcheck) (hleftResolve.trans hresolve) hslot
        (hstays hcheck hresolve hslot hother hsits) hother

theorem unique {other : PlacementError} (hrefused : Refused placement task place error)
    (hother : Refused placement task place other) : error = other := by
  cases hrefused <;> cases hother <;> grind [Grid.Sits, Grid.sits_slot_unique]

/-- An unplaced task is refused with just that error. -/
theorem ends_putIn (hrefused : Refused placement task place error)
    (hunplaced : placement.coordinate? task = none) :
    Ends (putIn place task) placement (fun _ _ => False)
      (fun found left => found = error ∧ left = placement) := by
  unfold putIn
  simp only [ends_bind, ends_get, hunplaced, ends_ofExcept, ends_changeGrid]
  cases hrefused with
  | unsuited hcheck => simp [hcheck]
  | outside hcheck hresolve =>
      refine ⟨fun _ _ => ?_, by simp [hcheck]⟩
      refine (Grid.ends_addTask_outside (depth_of_checkSlot hcheck) hresolve task).mono
        (fun _ _ hfalse => hfalse.elim) ?_
      rintro _ _ ⟨rfl, rfl⟩
      exact ⟨rfl, rfl⟩
  | absent hcheck hresolve hpoint =>
      refine ⟨fun _ _ => ?_, by simp [hcheck]⟩
      refine (Grid.ends_addTask_unit hresolve task).mono ?_ ?_
      · rintro _ _ ⟨point, -, hfound, -⟩
        cases hpoint.symm.trans hfound
      · rintro _ _ ⟨rfl, ⟨-, rfl⟩ | ⟨_, -, ⟨_, hfound, -⟩, -⟩ | ⟨_, hfound, -⟩⟩
        · exact ⟨rfl, rfl⟩
        · cases hpoint.symm.trans hfound
        · cases hpoint.symm.trans hfound
  | @occupied cell unit occupant hcheck hresolve hslot hsits hother =>
      refine ⟨fun _ _ => ?_, by simp [hcheck]⟩
      refine (Grid.ends_addTask_unit hresolve task).mono ?_ ?_
      · -- Both tasks would be in the slot.
        rintro _ _ ⟨point, filled, hpoint, hinsert, -⟩
        obtain ⟨found, hfound, hholds⟩ := hsits
        obtain rfl := Option.some.inj (hpoint.symm.trans hfound)
        have hnew := (Point.holds_insert hinsert unit task).mpr (Or.inl ⟨rfl, rfl⟩)
        have hold := (Point.holds_insert hinsert unit occupant).mpr (Or.inr hholds)
        rw [Point.holds_slot hslot] at hnew hold
        exact hother (Option.some.inj (hold.symm.trans hnew))
      · rintro _ _ ⟨rfl, ⟨hpoint, -⟩ | ⟨found, -, hfound, rfl⟩ | htask⟩
        · obtain ⟨point, hfound, -⟩ := hsits
          cases hpoint.symm.trans hfound
        · rw [Grid.sits_slot_unique hslot hsits hfound]
          exact ⟨rfl, rfl⟩
        · exact absurd (Grid.sits_slot_unique hslot htask hsits) hother

end Refused

/-- An unplaced task comes to a place that does not refuse it, and to no other. -/
theorem ends_putIn_unplaced (hagrees : placement.Agrees)
    (hunplaced : placement.coordinate? task = none) :
    Ends (putIn place task) placement
      (fun _ left => (∀ error, ¬Refused placement task place error) ∧
        Rearranged placement
          (fun other => if other = task then some place else placement.coordinate? other) left)
      (fun error left => left = placement ∧ Refused placement task place error) := by
  by_cases hrefused : ∃ error, Refused placement task place error
  case pos =>
    obtain ⟨error, herror⟩ := hrefused
    refine (herror.ends_putIn hunplaced).mono (fun _ _ hfalse => hfalse.elim) ?_
    rintro _ _ ⟨rfl, rfl⟩
    exact ⟨rfl, herror⟩
  case neg =>
    rw [not_exists] at hrefused
    have hcheck : placement.checkSlot place task = .ok () := by
      cases hcheck : placement.checkSlot place task with
      | ok => rfl
      | error error => exact absurd (.unsuited hcheck) (hrefused error)
    obtain ⟨wanted, block, hwanted, hblock, hmay⟩ := checkSlot_ok hcheck
    rcases Grid.resolve_of_fullDepth (depth_of_checkSlot hcheck) with hnone | ⟨cell, unit, hresolve⟩
    · exact absurd (.outside hcheck hnone) (hrefused _)
    · have hunit : wanted = unit := Option.some.inj
        (hwanted.symm.trans (Grid.resolve_eq_unit_iff.mp hresolve).2.1)
      subst hunit
      refine (ends_putIn_block hagrees hresolve hunplaced hblock hmay).mono ?_ ?_
      · exact fun _ left hleft => ⟨hrefused, .of_reassigned hleft⟩
      · rintro _ _ ⟨-, refused, -, hblocked⟩
        cases hblocked with
        | absent hpoint => exact absurd (.absent hcheck hresolve hpoint) (hrefused _)
        | @occupied occupant hslot hsits =>
            refine absurd (.occupied hcheck hresolve hslot hsits ?_) (hrefused _)
            rintro rfl
            obtain ⟨recorded, hrecorded, -⟩ := hagrees.recorded hsits
            cases hunplaced.symm.trans hrecorded

theorem ends_takeOut_rearranged (hagrees : placement.Agrees)
    (hplaced : placement.coordinate? task = some place) :
    Ends (takeOut place task) placement
      (fun _ left => Rearranged placement
        (fun other => if other = task then none else placement.coordinate? other) left)
      (fun _ _ => False) :=
  (ends_takeOut_placed hagrees hplaced).mono (fun _ _ hleft => .of_reassigned hleft)
    (fun _ _ hfalse => hfalse)

/-- A block is not refused in a unit of a present point that suits it and holds nothing else. -/
theorem not_refused_of_free (hresolve : placement.grid.resolve place = .ok (some (.unit cell unit)))
    (hpoint : (placement.grid.pointAt? cell).isSome = true) {payload : Payload}
    (hpayload : placement.graph.payload? task = some payload) (hmay : payload.MayOccupy unit)
    (hfree : unit.isSlot = true → ∀ occupant, placement.grid.Sits cell unit occupant →
      occupant = task) (error : PlacementError) : ¬Refused placement task place error := by
  obtain ⟨block, hblock, rfl⟩ := TaskGraph.payload?_eq_some_iff.mp hpayload
  have hallowed := checkSlot_allowed hresolve hblock hmay
  intro hrefused
  cases hrefused with
  | unsuited hcheck => cases hallowed.symm.trans hcheck
  | outside hcheck hnone => cases hresolve.symm.trans hnone
  | absent hcheck hfound hnone =>
      cases hresolve.symm.trans hfound
      rw [hnone] at hpoint
      cases hpoint
  | occupied hcheck hfound hslot hoccupant hother =>
      cases hresolve.symm.trans hfound
      exact hother (hfree hslot _ hoccupant)

/-- A block is not refused where it is. -/
theorem not_refused_of_placed (hagrees : placement.Agrees)
    (hids : placement.graph.ids.next ≤ largestId) (hblock : placement.graph.hasBlock task = true)
    (hplaced : placement.coordinate? task = some place) (error : PlacementError) :
    ¬Refused placement task place error := by
  obtain ⟨cell, unit, hresolve, hsits⟩ := hagrees.located hplaced
  obtain ⟨point, hpoint, hholds⟩ := hsits
  obtain ⟨_, hpayload⟩ := TaskGraph.hasBlock_iff.mp hblock
  refine not_refused_of_free hresolve (Option.isSome_iff_exists.mpr ⟨point, hpoint⟩) hpayload
    (hagrees.allowed hids hplaced hresolve hpayload) (fun hslot occupant hoccupant => ?_) error
  exact Grid.sits_slot_unique hslot ⟨point, hpoint, hholds⟩ hoccupant

theorem Rearranged.refused_iff {places : TaskId → Option Coordinate} (hagrees : origin.Agrees)
    (hleft : Rearranged origin places left)
    (hothers : ∀ other, other ≠ task → places other = origin.coordinate? other) :
    Refused left task place error ↔ Refused origin task place error := by
  have halike : ∀ {cell unit other}, other ≠ task →
      (left.grid.Sits cell unit other ↔ origin.grid.Sits cell unit other) := by
    intro cell unit other hother
    rw [hleft.sits_iff, hothers other hother, hagrees.sits_iff]
  constructor
  · exact Refused.mono (hleft.reseated.symm hagrees) fun _ _ _ hother => (halike hother).mp
  · exact Refused.mono hleft.reseated fun _ _ _ hother => (halike hother).mpr

end Placement

end TiledPlacement

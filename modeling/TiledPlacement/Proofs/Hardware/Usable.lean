import TiledPlacement.Hardware.Basic

/-!
Usable descriptions. Validation finds no problem exactly when there is a level, every level has
positions and a usable bandwidth, there is time and memory, operands can be aligned, and every
disabled place lies in the hierarchy.
-/

namespace TiledPlacement

structure Level.Usable (level : Level) : Prop where
  dims : level.dims ≠ []
  extents : 0 ∉ level.dims
  bandwidth : isUsableBandwidth level.bandwidth = true

structure Hardware.Usable (hardware : Hardware) : Prop where
  levels_nonempty : hardware.levels ≠ []
  levels : ∀ level ∈ hardware.levels, level.Usable
  steps : hardware.steps ≠ 0
  phases : hardware.phases ≠ 0
  memory : hardware.memoryBytes ≠ 0
  alignment : isPowerOfTwo hardware.alignment = true
  disabled : ∀ place ∈ hardware.disabled, hardware.hasColumn place = true

theorem problemIf_eq_nil_iff {condition : Bool} {problem : HardwareProblem} :
    problemIf condition problem = [] ↔ condition = false := by
  cases condition <;> simp [problemIf]

theorem Level.problems_eq_nil_iff {level : Level} {index : Nat} :
    level.problems index = [] ↔ level.Usable := by
  simp only [problems, List.append_eq_nil_iff, problemIf_eq_nil_iff, Bool.not_eq_false',
    List.isEmpty_eq_false_iff, List.contains_eq_mem, decide_eq_false_iff_not]
  constructor
  · rintro ⟨⟨hdims, hextents⟩, hbandwidth⟩
    exact ⟨hdims, hextents, hbandwidth⟩
  · rintro ⟨hdims, hextents, hbandwidth⟩
    exact ⟨⟨hdims, hextents⟩, hbandwidth⟩

namespace Hardware

variable {hardware : Hardware}

private theorem levelProblems_eq_nil_iff (levels : List Level) :
    levels.zipIdx.flatMap (fun (level, index) => level.problems index) = [] ↔
      ∀ level ∈ levels, level.Usable := by
  rw [List.flatMap_eq_nil_iff]
  constructor
  · intro hnone level hlevel
    obtain ⟨index, hindex⟩ := List.mem_iff_getElem?.mp hlevel
    exact Level.problems_eq_nil_iff.mp
      (hnone (level, index) (List.mk_mem_zipIdx_iff_getElem?.mpr hindex))
  · rintro husable ⟨level, index⟩ hentry
    have hlevel := List.mem_of_getElem? (List.mk_mem_zipIdx_iff_getElem?.mp hentry)
    exact Level.problems_eq_nil_iff.mpr (husable level hlevel)

theorem problems_eq_nil_iff : hardware.problems = [] ↔ hardware.Usable := by
  simp only [problems, List.append_eq_nil_iff, problemIf_eq_nil_iff, levelProblems_eq_nil_iff,
    List.map_eq_nil_iff, List.filter_eq_nil_iff, List.isEmpty_eq_false_iff, Bool.or_eq_false_iff,
    Bool.not_eq_false', Bool.not_eq_true', Bool.not_eq_false, beq_eq_false_iff_ne]
  constructor
  · rintro ⟨⟨⟨⟨⟨hlevels, hall⟩, hsteps, hphases⟩, hmemory⟩, halignment⟩, hdisabled⟩
    exact ⟨hlevels, hall, hsteps, hphases, hmemory, halignment, hdisabled⟩
  · intro husable
    exact ⟨⟨⟨⟨⟨husable.levels_nonempty, husable.levels⟩, husable.steps, husable.phases⟩,
      husable.memory⟩, husable.alignment⟩, husable.disabled⟩

theorem validate_ok_iff : hardware.validate = .ok () ↔ hardware.Usable := by
  rw [← problems_eq_nil_iff, validate]
  cases hardware.problems with
  | nil => exact iff_of_true rfl rfl
  | cons problem rest => exact iff_of_false nofun nofun

end Hardware

end TiledPlacement

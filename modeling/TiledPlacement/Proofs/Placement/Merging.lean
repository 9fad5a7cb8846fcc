import TiledPlacement.Proofs.Placement.Routes
import TiledPlacement.Proofs.Placement.Seating
import TiledPlacement.Proofs.Split.Atomicity

/-!
Merges of columns, task by task. A resident of a later column comes to the same unit, step and phase
of the first, or stays where it is. A merge stops at the first task that cannot be moved; only one
of which the graph has no block is lost by that, since it cannot be put back.
-/

namespace TiledPlacement

open Execution

namespace Placement

/-- Whether the task is in one of the source columns, the target not being one. -/
def InSource (placement : Placement) (target : Coordinate) (sources : List Coordinate)
    (task : TaskId) : Prop :=
  ∃ source ∈ sources, source.take placement.spaceDepth ≠ target ∧
    placement.columnOf? task = some (source.take placement.spaceDepth)

instance (placement : Placement) (target : Coordinate) (sources : List Coordinate)
    (task : TaskId) : Decidable (placement.InSource target sources task) :=
  inferInstanceAs (Decidable (∃ source ∈ sources, _ ∧ _))

/-- Where the task is if its column becomes the target. -/
def gathered? (placement : Placement) (target : Coordinate) (task : TaskId) : Option Coordinate :=
  (placement.coordinate? task).map (·.relocated placement.spaceDepth target)

/-- What is left of `origin` when some tasks of source columns have come to the target. -/
structure Gathered (origin : Placement) (target : Coordinate) (sources : List Coordinate)
    (moved : List TaskId) (left : Placement) : Prop where
  reseated : Reseated origin left
  routes : left.whereabouts.routes = origin.whereabouts.routes
  nodup : moved.Nodup
  came : ∀ task ∈ moved, origin.InSource target sources task
  arrives : ∀ task ∈ moved,
    (origin.gathered? target task).map (·.take origin.spaceDepth) = some target
  coordinate : ∀ task, left.coordinate? task =
    if task ∈ moved then origin.gathered? target task else origin.coordinate? task

/-- How a merge may stop. Routes are dropped only at a task that is put back. -/
inductive Stopped (origin : Placement) (target : Coordinate) (sources : List Coordinate) :
    PlacementError → Placement → Prop
  | blocked {moved : List TaskId} {left : Placement}
      (hgathered : Gathered origin target sources moved left) {grid : Grid} {place : Coordinate}
      {cell : Cell} {unit : FunctionalUnit} {error : GridError}
      (hblocked : Blocked grid place cell unit error) :
      Stopped origin target sources (.grid error) (left.dropRoutesOf moved)
  | unnamed {moved : List TaskId} {left : Placement}
      (hgathered : Gathered origin target sources moved left) (place : Coordinate)
      (fault : CoordinateFault) :
      Stopped origin target sources (.grid (.contract place fault)) left
  | unmatched {moved : List TaskId} {left : Placement}
      (hgathered : Gathered origin target sources moved left) (task : TaskId) (place : Coordinate) :
      Stopped origin target sources (.grid (.notResident task place)) left
  | lost {moved : List TaskId} {before left : Placement} {task : TaskId}
      (hgathered : Gathered origin target sources moved before)
      (htaken : Reassigned before task none left)
      (hsource : origin.InSource target sources task) (hblock : origin.graph.block? task = none) :
      Stopped origin target sources (.graph (.unknownTask task)) left

theorem inSource_singleton {placement : Placement} {target source : Coordinate} {task : TaskId} :
    placement.InSource target [source] task ↔ source.take placement.spaceDepth ≠ target ∧
      placement.columnOf? task = some (source.take placement.spaceDepth) := by
  simp only [InSource, List.mem_singleton, exists_eq_left]

theorem inSource_cons {placement : Placement} {target source : Coordinate}
    {sources : List Coordinate} {task : TaskId} :
    placement.InSource target (source :: sources) task ↔
      placement.InSource target [source] task ∨ placement.InSource target sources task := by
  simp only [InSource, List.mem_cons, List.not_mem_nil, or_false, exists_eq_or_imp,
    exists_eq_left]

namespace Gathered

variable {origin left later : Placement} {target : Coordinate} {sources : List Coordinate}
  {moved : List TaskId}

theorem refl (hagrees : origin.Agrees) (target : Coordinate) (sources : List Coordinate) :
    Gathered origin target sources [] origin where
  reseated := .refl hagrees
  routes := rfl
  nodup := List.nodup_nil
  came := fun _ hmember => absurd hmember List.not_mem_nil
  arrives := fun _ hmember => absurd hmember List.not_mem_nil
  coordinate := fun _ => (if_neg List.not_mem_nil).symm

theorem back (hgathered : Gathered origin target sources moved left) {task : TaskId}
    {place : Coordinate} (hplaced : left.coordinate? task = some place)
    (hback : Reassigned left task (some place) later) :
    Gathered origin target sources moved later where
  reseated := hgathered.reseated.trans hback.reseated
  routes := hback.routes.trans hgathered.routes
  nodup := hgathered.nodup
  came := hgathered.came
  arrives := hgathered.arrives
  coordinate := by
    intro other
    rw [← hgathered.coordinate, hback.coordinate]
    split
    case isTrue hsame => rw [hsame, hplaced]
    case isFalse => rfl

theorem append (hgathered : Gathered origin target sources moved left) {task : TaskId}
    (hfresh : task ∉ moved) (hsource : origin.InSource target sources task)
    (harrives : (origin.gathered? target task).map (·.take origin.spaceDepth) = some target)
    (hmoved : Reassigned left task (origin.gathered? target task) later) :
    Gathered origin target sources (moved ++ [task]) later where
  reseated := hgathered.reseated.trans hmoved.reseated
  routes := hmoved.routes.trans hgathered.routes
  nodup := by
    rw [← List.concat_eq_append]
    exact hgathered.nodup.concat hfresh
  came := by
    intro other hother
    rcases List.mem_append.mp hother with hbefore | hlast
    · exact hgathered.came other hbefore
    · rw [List.mem_singleton.mp hlast]
      exact hsource
  arrives := by
    intro other hother
    rcases List.mem_append.mp hother with hbefore | hlast
    · exact hgathered.arrives other hbefore
    · rw [List.mem_singleton.mp hlast]
      exact harrives
  coordinate := by
    intro other
    rw [hmoved.coordinate]
    by_cases hsame : other = task
    · rw [if_pos hsame, hsame, if_pos (List.mem_append_right _ List.mem_cons_self)]
    · have hmember : other ∈ moved ++ [task] ↔ other ∈ moved := by
        rw [List.mem_append, List.mem_singleton, or_iff_left hsame]
      rw [if_neg hsame, hgathered.coordinate]
      simp only [hmember]

theorem placed (hgathered : Gathered origin target sources moved left) {task : TaskId}
    {recorded : Coordinate} (hplaced : origin.coordinate? task = some recorded) :
    ∃ place, left.coordinate? task = some place := by
  rw [hgathered.coordinate, gathered?, hplaced]
  split
  case isTrue => exact ⟨_, rfl⟩
  case isFalse => exact ⟨_, rfl⟩

theorem mem_moved_iff (hgathered : Gathered origin target sources moved left) (task : TaskId) :
    task ∈ moved ↔ left.coordinate? task ≠ origin.coordinate? task := by
  rw [hgathered.coordinate]
  constructor
  · intro hmember hsame
    rw [if_pos hmember] at hsame
    obtain ⟨source, -, hdiffers, hcolumn⟩ := hgathered.came task hmember
    have harrives := hgathered.arrives task hmember
    rw [hsame] at harrives
    exact hdiffers (Option.some.inj (hcolumn.symm.trans harrives))
  · intro hdiffers
    by_contra hmember
    rw [if_neg hmember] at hdiffers
    exact hdiffers rfl

section Step

variable (hids : origin.graph.ids.next ≤ largestId) (hbounded : origin.hardware.Bounded)
  {number : Nat}
  (htarget : origin.hardware.columnIndex? target = some number)
  (hspace : target.take origin.spaceDepth = target)
include hids hbounded htarget hspace

omit hids hbounded in
theorem take_relocated (place : Coordinate) :
    (place.relocated origin.spaceDepth target).take origin.spaceDepth = target :=
  (Coordinate.take_relocated (Grid.depth_of_columnIndex? htarget) place).trans hspace

/-- The step of a merge: a resident found where it is recorded is moved, put back or lost. -/
theorem ends_mergeResident (hgathered : Gathered origin target sources moved left)
    {resident : Coordinate × TaskId} {recorded : Coordinate}
    (hplaced : origin.coordinate? resident.2 = some recorded)
    (hsource : origin.InSource target sources resident.2)
    (hlisted : resident.1.take origin.spaceDepth ≠ target) :
    Ends (mergeResident target moved resident) left
      (fun after later => after = moved ++ [resident.2] ∧
        Gathered origin target sources after later)
      (Stopped origin target sources) := by
  obtain ⟨source, task⟩ := resident
  dsimp only at hplaced hsource hlisted
  have hagrees := hgathered.reseated.agrees
  have hdepth := hgathered.reseated.spaceDepth
  unfold mergeResident
  rw [ends_bind, ends_get]
  dsimp only
  rw [ends_bind, hdepth]
  by_cases hhere : left.coordinate? task = some source
  case neg =>
    -- A resident is listed under its plain coordinate and may be recorded under another.
    obtain ⟨place, hplace⟩ := hgathered.placed hplaced
    have hdiffers : place ≠ source := fun hsame => hhere (hsame ▸ hplace)
    refine (ends_takeOut_elsewhere hplace hdiffers).mono (fun _ _ hfalse => hfalse.elim)
      (fun error after hfailed => ?_)
    obtain ⟨rfl, rfl⟩ := hfailed
    exact .unmatched hgathered task source
  case pos =>
    -- The tasks that have been moved are at the target, which is not where this one is listed.
    have hfresh : task ∉ moved := by
      intro hmember
      rw [hgathered.coordinate, if_pos hmember, gathered?, hplaced, Option.map_some] at hhere
      rw [← Option.some.inj hhere] at hlisted
      exact hlisted (take_relocated htarget hspace recorded)
    have hbefore : origin.coordinate? task = some source := by
      rw [hgathered.coordinate, if_neg hfresh] at hhere
      exact hhere
    obtain ⟨cell, unit, hresolve, -⟩ := hagrees.located hhere
    refine (ends_takeOut_placed hagrees hhere).mono (fun _ taken htaken => ?_)
      (fun _ _ hfalse => hfalse.elim)
    have hdestination : taken.grid.resolve (source.relocated origin.spaceDepth target) =
        .ok (some (.unit (left.hardware.cell number (left.hardware.stepOf cell)
          (left.hardware.phaseOf cell)) unit)) := by
      have hindex : left.hardware.columnIndex? target = some number := by
        rw [hgathered.reseated.hardware]
        exact htarget
      have hbounded : left.hardware.Bounded := by
        rw [hgathered.reseated.hardware]
        exact hbounded
      rw [htaken.reseated.resolve, ← hdepth]
      exact Grid.resolve_relocated hbounded hresolve hindex
    have hgraph : left.graph = origin.graph := hgathered.reseated.graph
    have hword : left.graph.ids.next ≤ largestId := by rwa [hgraph]
    rw [ends_bind]
    refine ends_putIn_or_back hagrees hhere hresolve htaken hword hdestination
      (fun later hlater => ?_) (fun error restored hrestored hblocked => ?_) (fun hblock => ?_)
    · have hgoes : origin.gathered? target task =
          some (source.relocated origin.spaceDepth target) := by
        rw [gathered?, hbefore, Option.map_some]
      refine ⟨rfl, hgathered.append hfresh hsource ?_ ?_⟩
      · rw [hgoes, Option.map_some, take_relocated htarget hspace]
      · rw [hgoes]
        exact hlater
    · exact .blocked (hgathered.back hhere hrestored) hblocked
    · rw [hgraph] at hblock
      exact .lost hgathered htaken hsource hblock

theorem ends_mergeResidents (hgathered : Gathered origin target sources moved left)
    {residents : List (Coordinate × TaskId)}
    (hresidents : ∀ resident ∈ residents,
      (∃ recorded, origin.coordinate? resident.2 = some recorded) ∧
        origin.InSource target sources resident.2 ∧
          resident.1.take origin.spaceDepth ≠ target) :
    Ends (residents.foldlM (mergeResident target) moved) left
      (fun after later => after = moved ++ residents.map Prod.snd ∧
        Gathered origin target sources after later)
      (Stopped origin target sources) := by
  induction residents generalizing moved left with
  | nil => exact ⟨(List.append_nil moved).symm, hgathered⟩
  | cons first rest induction =>
      obtain ⟨⟨recorded, hplaced⟩, hsource, hlisted⟩ := hresidents first List.mem_cons_self
      rw [List.foldlM_cons, ends_bind]
      refine (ends_mergeResident hids hbounded htarget hspace hgathered hplaced hsource
        hlisted).mono (fun after middle hmiddle => ?_) (fun _ _ hstopped => hstopped)
      obtain ⟨rfl, hmiddle⟩ := hmiddle
      refine (induction hmiddle fun resident hmember =>
        hresidents resident (List.mem_cons_of_mem _ hmember)).mono (fun after later hlater => ?_)
        (fun _ _ hstopped => hstopped)
      rw [List.append_assoc] at hlater
      exact hlater

omit hids in
/-- Who is left in another column than the target has not been moved. -/
theorem mem_columnResidents (hgathered : Gathered origin target sources moved left)
    {column : Coordinate} (hcolumn : column.take origin.spaceDepth ≠ target)
    {resident : Coordinate × TaskId} :
    resident ∈ Grid.residentsOf (left.grid.columnPoints column) ↔ resident.2 ∉ moved ∧
      ∃ place, origin.coordinate? resident.2 = some place ∧
        place.take origin.spaceDepth = column.take origin.spaceDepth ∧
          place.plain origin.spaceDepth = resident.1 := by
  rw [← hgathered.reseated.hardware] at hbounded
  rw [hgathered.reseated.agrees.mem_columnResidents hbounded, hgathered.reseated.spaceDepth,
    hgathered.coordinate]
  by_cases hmember : resident.2 ∈ moved
  · refine iff_of_false ?_ fun hboth => hboth.1 hmember
    rw [if_pos hmember]
    rintro ⟨place, hplace, htake, -⟩
    obtain ⟨recorded, -, rfl⟩ := Option.map_eq_some_iff.mp hplace
    rw [← htake] at hcolumn
    exact hcolumn (take_relocated htarget hspace recorded)
  · simp only [hmember, if_false, not_false_eq_true, true_and]

omit hids in
theorem mem_listed_iff (hgathered : Gathered origin target sources moved left)
    {source : Coordinate} (hdiffers : source.take origin.spaceDepth ≠ target) {task : TaskId} :
    task ∈ (Grid.residentsOf (left.grid.columnPoints source)).map Prod.snd ↔
      task ∉ moved ∧ origin.InSource target [source] task := by
  rw [inSource_singleton, and_iff_right hdiffers, columnOf?, Option.map_eq_some_iff, List.mem_map]
  constructor
  · rintro ⟨resident, hresident, rfl⟩
    obtain ⟨hstill, place, hplaced, hcolumn, -⟩ :=
      (hgathered.mem_columnResidents hbounded htarget hspace hdiffers).mp hresident
    exact ⟨hstill, place, hplaced, hcolumn⟩
  · rintro ⟨hstill, place, hplaced, hcolumn⟩
    exact ⟨(_, task), (hgathered.mem_columnResidents hbounded htarget hspace hdiffers).mpr
      ⟨hstill, place, hplaced, hcolumn, rfl⟩, rfl⟩

theorem ends_mergeInto (hgathered : Gathered origin target sources moved left)
    {source : Coordinate} (hsource : source ∈ sources) :
    Ends (mergeInto target moved source) left
      (fun after later => Gathered origin target sources after later ∧
        ∀ task, task ∈ after ↔ task ∈ moved ∨ origin.InSource target [source] task)
      (Stopped origin target sources) := by
  have hdepth := hgathered.reseated.spaceDepth
  unfold mergeInto
  rw [ends_bind, ends_get]
  dsimp only
  rw [hdepth]
  split
  case isTrue hsame =>
    exact ⟨hgathered, fun task =>
      (or_iff_left fun hin => (inSource_singleton.mp hin).1 hsame).symm⟩
  case isFalse hdiffers =>
    have hlisted : left.grid.columnPoints (source.take origin.spaceDepth) =
        left.grid.columnPoints source := by
      rw [← hdepth]
      exact left.grid.columnPoints_take source
    rw [ends_bind, ofGrid, ends_ofExcept, columnResidents_eq, hlisted]
    constructor
    · intro residents hfound
      split at hfound
      case isTrue => cases hfound
      case isFalse =>
        cases hfound
        have hresidents : ∀ resident ∈ Grid.residentsOf (left.grid.columnPoints source),
            (∃ recorded, origin.coordinate? resident.2 = some recorded) ∧
              origin.InSource target sources resident.2 ∧
                resident.1.take origin.spaceDepth ≠ target := by
          intro resident hresident
          obtain ⟨-, place, hplaced, hcolumn, hplain⟩ :=
            (hgathered.mem_columnResidents hbounded htarget hspace hdiffers).mp hresident
          refine ⟨⟨place, hplaced⟩, ⟨source, hsource, hdiffers, ?_⟩, ?_⟩
          · rw [columnOf?, hplaced, Option.map_some, hcolumn]
          · rw [← hplain, Coordinate.take_plain, hcolumn]
            exact hdiffers
        refine (ends_mergeResidents hids hbounded htarget hspace hgathered hresidents).mono
          (fun after later hlater => ?_) (fun _ _ hstopped => hstopped)
        obtain ⟨rfl, hlater⟩ := hlater
        refine ⟨hlater, fun task => ?_⟩
        rw [List.mem_append, hgathered.mem_listed_iff hbounded htarget hspace hdiffers, or_and_left,
          and_iff_right (Classical.em _)]
    · intro error hfailed
      split at hfailed
      case isTrue =>
        cases hfailed
        exact .unnamed hgathered _ _
      case isFalse => cases hfailed

/-- After all sources their residents have come, each once. -/
theorem ends_mergeSources (hgathered : Gathered origin target sources moved left)
    {rest : List Coordinate} (hrest : ∀ source ∈ rest, source ∈ sources) :
    Ends (rest.foldlM (mergeInto target) moved) left
      (fun after later => Gathered origin target sources after later ∧
        ∀ task, task ∈ after ↔ task ∈ moved ∨ origin.InSource target rest task)
      (Stopped origin target sources) := by
  induction rest generalizing moved left with
  | nil =>
      refine ⟨hgathered, fun task => (or_iff_left ?_).symm⟩
      rintro ⟨source, hnone, -⟩
      exact List.not_mem_nil hnone
  | cons source rest induction =>
      rw [List.foldlM_cons, ends_bind]
      have hfirst := hrest source List.mem_cons_self
      refine (ends_mergeInto hids hbounded htarget hspace hgathered hfirst).mono
        (fun after middle hmiddle => ?_) (fun _ _ hstopped => hstopped)
      obtain ⟨hmiddle, hafter⟩ := hmiddle
      refine (induction hmiddle fun other hother =>
        hrest other (List.mem_cons_of_mem _ hother)).mono (fun last later hlater => ?_)
        (fun _ _ hstopped => hstopped)
      obtain ⟨hlater, hlast⟩ := hlater
      refine ⟨hlater, fun task => ?_⟩
      rw [hlast, hafter, or_assoc, ← inSource_cons]

end Step

end Gathered

theorem ends_mergeColumn_gathers {origin : Placement} (hagrees : origin.Agrees)
    (hids : origin.graph.ids.next ≤ largestId) (hbounded : origin.hardware.Bounded)
    (first : Coordinate) (sources : List Coordinate) :
    Ends (mergeColumn (first :: sources)) origin
      (fun count left => ∃ moved middle,
        Gathered origin (first.take origin.spaceDepth) sources moved middle ∧
          (∀ task, task ∈ moved ↔
            origin.InSource (first.take origin.spaceDepth) sources task) ∧
          left = middle.dropRoutesOf moved ∧ count = moved.length)
      (fun error left => Stopped origin (first.take origin.spaceDepth) sources error left ∨
        left = origin ∧ error = .grid (.notFound (first.take origin.spaceDepth))) := by
  have hrefl := Gathered.refl hagrees (first.take origin.spaceDepth) sources
  have hspace : (first.take origin.spaceDepth).take origin.spaceDepth =
      first.take origin.spaceDepth := by
    simp only [Coordinate.take, List.take_take, Nat.min_self]
  unfold mergeColumn
  rw [ends_bind, ends_get]
  dsimp only
  rw [ends_bind, ofGrid, ends_ofExcept]
  constructor
  · intro found hfound
    cases found with
    | none => exact Or.inr ⟨rfl, rfl⟩
    | some points =>
        obtain ⟨-, -, number, htarget⟩ :=
          Grid.columnPoints_of_column? (mapError_eq_ok_iff.mp hfound)
        rw [ends_bind]
        refine (hrefl.ends_mergeSources hids hbounded htarget hspace fun _ hsource => hsource).mono
          (fun moved middle hmiddle => ?_) (fun _ _ hstopped => Or.inl hstopped)
        obtain ⟨hmiddle, hmoved⟩ := hmiddle
        refine ⟨moved, middle, hmiddle, fun task => ?_, rfl, rfl⟩
        rw [hmoved, or_iff_right List.not_mem_nil]
  · intro error hfailed
    obtain ⟨refused, hrefused, rfl⟩ := mapError_eq_error_iff.mp hfailed
    obtain ⟨-, rfl⟩ := Grid.column?_error hrefused
    exact Or.inl (.unnamed hrefl _ _)

/-! Places. -/

/-- All tasks of source columns have come to the target, each to the step, phase and unit where it
was, and the others are where they were. -/
structure Merged (origin : Placement) (target : Coordinate) (sources : List Coordinate)
    (count : Nat) (left : Placement) : Prop where
  coordinate : ∀ task, left.coordinate? task =
    if origin.InSource target sources task then origin.gathered? target task
    else origin.coordinate? task
  counted : ∃ moved : List TaskId, moved.Nodup ∧ moved.length = count ∧
    ∀ task, task ∈ moved ↔ origin.InSource target sources task
  emptied : ∀ source ∈ sources, source.take origin.spaceDepth ≠ target → ∀ points,
    left.grid.column? source = .ok (some points) →
      left.grid.isEmpty (source.take origin.spaceDepth) = .ok true
  mirrors : left.Mirrors

/-- Some tasks of source columns have come to the target. One is nowhere if the merge has stopped
at it and the graph has no block of it. -/
structure PartlyMerged (origin : Placement) (target : Coordinate) (sources : List Coordinate)
    (error : PlacementError) (left : Placement) : Prop where
  coordinate : ∀ task, left.coordinate? task = origin.coordinate? task ∨
    origin.InSource target sources task ∧ (left.coordinate? task = origin.gathered? target task ∨
      error = .graph (.unknownTask task))
  lost : ∀ {task}, error = .graph (.unknownTask task) → origin.InSource target sources task ∧
    origin.graph.block? task = none ∧ left.coordinate? task = none
  mirrors : left.Mirrors

section Places

variable {origin left : Placement} {target : Coordinate} {sources : List Coordinate}
  {moved : List TaskId}

theorem Gathered.merged (hgathered : Gathered origin target sources moved left)
    (hbounded : origin.hardware.Bounded)
    (hmoved : ∀ task, task ∈ moved ↔ origin.InSource target sources task) :
    Merged origin target sources moved.length (left.dropRoutesOf moved) := by
  have hreseated : Reseated origin (left.dropRoutesOf moved) := hgathered.reseated.dropRoutes _
  refine ⟨fun task => ?_, ⟨moved, hgathered.nodup, rfl, hmoved⟩,
    fun source hsource hdiffers points hcolumn => ?_, hreseated.agrees.mirrors⟩
  · rw [coordinate?_dropRoutesOf, hgathered.coordinate]
    simp only [hmoved]
  · obtain ⟨rfl, -, -⟩ := Grid.columnPoints_of_column? hcolumn
    rw [← hreseated.spaceDepth]
    refine Grid.isEmpty_of_no_residents hcolumn (List.eq_nil_iff_forall_not_mem.mpr ?_)
    intro resident hresident
    rw [← hreseated.hardware] at hbounded
    obtain ⟨place, hplaced, htake, -⟩ :=
      (hreseated.agrees.mem_columnResidents hbounded).mp hresident
    rw [hreseated.spaceDepth] at htake
    rw [coordinate?_dropRoutesOf, hgathered.coordinate] at hplaced
    split at hplaced
    case isTrue hmember =>
      have harrives := hgathered.arrives _ hmember
      rw [hplaced] at harrives
      exact hdiffers (htake.symm.trans (Option.some.inj harrives))
    case isFalse hmember =>
      refine hmember ((hmoved _).mpr ⟨source, hsource, hdiffers, ?_⟩)
      rw [columnOf?, hplaced, Option.map_some, htake]

theorem Gathered.coordinate_eq_or (hgathered : Gathered origin target sources moved left)
    (task : TaskId) (error : PlacementError) :
    left.coordinate? task = origin.coordinate? task ∨
      origin.InSource target sources task ∧
        (left.coordinate? task = origin.gathered? target task ∨
          error = .graph (.unknownTask task)) := by
  rw [hgathered.coordinate]
  split
  case isTrue hmember => exact Or.inr ⟨hgathered.came task hmember, Or.inl rfl⟩
  case isFalse => exact Or.inl rfl

theorem Gathered.partlyMerged (hgathered : Gathered origin target sources moved left)
    (error : GridError) : PartlyMerged origin target sources (.grid error) left where
  coordinate task := hgathered.coordinate_eq_or task _
  lost hlost := by cases hlost
  mirrors := hgathered.reseated.agrees.mirrors

theorem Stopped.partlyMerged {error : PlacementError}
    (hstopped : Stopped origin target sources error left) :
    PartlyMerged origin target sources error left := by
  cases hstopped with
  | blocked hgathered hblocked =>
      refine ⟨fun task => ?_, fun hlost => (by cases hlost),
        (hgathered.reseated.agrees.dropRoutes _).mirrors⟩
      rw [coordinate?_dropRoutesOf]
      exact hgathered.coordinate_eq_or task _
  | unnamed hgathered place fault => exact hgathered.partlyMerged _
  | unmatched hgathered task place => exact hgathered.partlyMerged _
  | @lost _ before _ task hgathered htaken hsource hblock =>
      -- The task at which the merge stops is the only one that is nowhere.
      refine ⟨fun other => ?_, fun {other} hlost => ?_, htaken.reseated.agrees.mirrors⟩
      · rw [htaken.coordinate]
        split
        case isTrue hsame =>
          rw [hsame]
          exact Or.inr ⟨hsource, Or.inr rfl⟩
        case isFalse => exact hgathered.coordinate_eq_or other _
      · cases hlost
        exact ⟨hsource, hblock, (htaken.coordinate task).trans (if_pos rfl)⟩

end Places

/-- As long as words hold the number of cells, a merge that succeeds has moved all tasks of the
later columns, and has emptied these. One that fails has moved some of them, and has lost one only
if it says that the graph does not know it. -/
theorem Reachable.mergeColumn_moves {origin : Placement} (hreachable : origin.Reachable)
    (hids : origin.graph.ids.next ≤ largestId) (hbounded : origin.hardware.Bounded) :
    mergeColumn [] origin = .ok 0 origin ∧ ∀ first sources,
      Ends (mergeColumn (first :: sources)) origin
        (Merged origin (first.take origin.spaceDepth) sources)
        (PartlyMerged origin (first.take origin.spaceDepth) sources) := by
  have hagrees := hreachable.agrees
  refine ⟨rfl, fun first sources => ?_⟩
  refine (ends_mergeColumn_gathers hagrees hids hbounded first sources).mono
    (fun count left hleft => ?_) (fun error left hfailed => ?_)
  · obtain ⟨moved, middle, hgathered, hmoved, rfl, rfl⟩ := hleft
    exact hgathered.merged hbounded hmoved
  · rcases hfailed with hstopped | ⟨rfl, rfl⟩
    · exact hstopped.partlyMerged
    · exact (Gathered.refl hagrees _ sources).partlyMerged _

theorem mergeColumn_moves_routedChannel :
    ∃ left, mergeColumn [bank 2, bank 1] routedChannel = .ok 1 left ∧
      left.coordinate? ⟨1⟩ = some (bank 2) ∧ left.coordinate? ⟨0⟩ = some (bank 0) := by
  have hreturns : returned? (mergeColumn [bank 2, bank 1]) routedChannel = some 1 := by
    decide +kernel
  have hmerged := ((reachable_routedChannel.mergeColumn_moves (by decide +kernel)
    (by decide +kernel)).2 (bank 2) [bank 1]).of_ok (run_eq_ok_of_returned hreturns)
  refine ⟨_, run_eq_ok_of_returned hreturns, (hmerged.coordinate ⟨1⟩).trans ?_,
    (hmerged.coordinate ⟨0⟩).trans ?_⟩
  · decide +kernel
  · decide +kernel

/-- An input and a computation that are placed and routed when a split of the computation stops
halfway: the graph knows neither of them any more. -/
def halfReplaced : Placement :=
  (onHardware TaskGraph.renamedOutput (.singleChip 1 3)).runAll [
    .putIn (bank 0) ⟨0⟩, .putIn (.atTime ⟨[⟨[0, 0]⟩, ⟨[0, 1]⟩]⟩ 0 1 .soma1) ⟨1⟩,
    .routeEdge ⟨3⟩, .splitTask ⟨1⟩ ⟨1, 1, 2, 1⟩]

theorem reachable_halfReplaced : halfReplaced.Reachable := by
  have hgraph : TaskGraph.renamedOutput.Reachable :=
    (TaskGraph.Reachable.empty (Nat.zero_le _)).runAll (by simp [TaskGraph.Command.Admits])
      (by decide +kernel)
  exact ⟨_, _, .onHardware hgraph _, rfl⟩

theorem mergeColumn_loses_task :
    ∃ left error, halfReplaced.Reachable ∧ halfReplaced.graph.ids.next ≤ largestId ∧
      mergeColumn [bank 0, bank 1] halfReplaced = .error error left ∧
        (halfReplaced.coordinate? ⟨1⟩).isSome = true ∧ left.coordinate? ⟨1⟩ = none := by
  have hfails : fails (mergeColumn [bank 0, bank 1]) halfReplaced = true := by decide +kernel
  obtain ⟨error, hrun⟩ := run_eq_error hfails
  exact ⟨_, error, reachable_halfReplaced, by decide +kernel, hrun, by decide +kernel,
    by decide +kernel⟩

/-! Routes. -/

/-- The edges of tasks that have gone elsewhere have no routes, and the other edges have theirs. -/
structure Detached (origin left : Placement) : Prop where
  graph : left.graph = origin.graph
  alike : left.grid.routes = left.whereabouts.routes
  dropped : ∀ {id edge task}, origin.graph.edge? id = some edge → edge.Meets task →
    left.coordinate? task ≠ origin.coordinate? task → left.route? id = none
  kept : ∀ {id edge}, origin.graph.edge? id = some edge →
    (∀ task, edge.Meets task → left.coordinate? task = origin.coordinate? task) →
      left.route? id = origin.route? id

theorem Detached.refl {origin : Placement} (hagrees : origin.Agrees) : Detached origin origin :=
  ⟨rfl, hagrees.routes, fun _ _ hdiffers => absurd rfl hdiffers, fun _ _ => rfl⟩

theorem Gathered.detached {origin left : Placement} {target : Coordinate}
    {sources : List Coordinate} {moved : List TaskId}
    (hgathered : Gathered origin target sources moved left) :
    Detached origin (left.dropRoutesOf moved) := by
  have hreseated : Reseated origin (left.dropRoutesOf moved) := hgathered.reseated.dropRoutes _
  have hagrees := hgathered.reseated.agrees
  have hroute : ∀ {id edge path}, origin.graph.edge? id = some edge →
      ((left.dropRoutesOf moved).route? id = some path ↔ origin.route? id = some path ∧
        ∀ task, edge.Meets task → task ∉ moved) := by
    intro id edge path hedge
    rw [route?_dropRoutesOf_iff hagrees.routes moved, hgathered.reseated.graph, hedge, route?,
      route?, hgathered.routes]
    simp only [Option.some.injEq, exists_eq_left', imp_not_comm]
  refine ⟨hreseated.graph, hreseated.agrees.routes, ?_, ?_⟩
  · intro id edge task hedge hmeets hdiffers
    rw [coordinate?_dropRoutesOf] at hdiffers
    refine Option.eq_none_iff_forall_ne_some.mpr fun path hleft => ?_
    exact ((hroute hedge).mp hleft).2 task hmeets ((hgathered.mem_moved_iff task).mpr hdiffers)
  · intro id edge hedge hstay
    refine Option.ext fun path => (hroute hedge).trans (and_iff_left fun task hmeets hmember => ?_)
    have hdiffers := (hgathered.mem_moved_iff task).mp hmember
    rw [← coordinate?_dropRoutesOf left moved] at hdiffers
    exact hdiffers (hstay task hmeets)

/-- Errors of a task that cannot be where it is to go. -/
inductive Clash : PlacementError → Prop
  | occupied (place : Coordinate) (unit : FunctionalUnit) (occupant : TaskId) :
      Clash (.grid (.occupied place unit occupant))
  | notFound (place : Coordinate) : Clash (.grid (.notFound place))

/-- Errors at which a merge gives up at once. -/
inductive Interruption : PlacementError → Prop
  | contract (place : Coordinate) (fault : CoordinateFault) :
      Interruption (.grid (.contract place fault))
  | notResident (task : TaskId) (place : Coordinate) :
      Interruption (.grid (.notResident task place))
  | unknownTask (task : TaskId) : Interruption (.graph (.unknownTask task))

/-- As long as words hold the number of cells, edges of relocated tasks lose their routes when a
merge succeeds or stops at a clash. A merge that is interrupted keeps every route, also of the tasks
that it has relocated. -/
theorem Reachable.mergeColumn_detaches {origin : Placement} (hreachable : origin.Reachable)
    (hids : origin.graph.ids.next ≤ largestId) (hbounded : origin.hardware.Bounded)
    (columns : List Coordinate) :
    Ends (mergeColumn columns) origin (fun _ left => Detached origin left)
      (fun error left => Clash error ∧ Detached origin left ∨
        Interruption error ∧ left.grid.routes = origin.grid.routes ∧
          left.whereabouts.routes = origin.whereabouts.routes) := by
  have hagrees := hreachable.agrees
  have keeps {left : Placement} (hleft : left.Agrees)
      (hroutes : left.whereabouts.routes = origin.whereabouts.routes) :
      left.grid.routes = origin.grid.routes ∧
        left.whereabouts.routes = origin.whereabouts.routes :=
    ⟨hleft.routes.trans (hroutes.trans hagrees.routes.symm), hroutes⟩
  cases columns with
  | nil => exact Detached.refl hagrees
  | cons first sources =>
      refine (ends_mergeColumn_gathers hagrees hids hbounded first sources).mono
        (fun count left hleft => ?_) (fun error left hfailed => ?_)
      · obtain ⟨moved, middle, hgathered, -, rfl, -⟩ := hleft
        exact hgathered.detached
      · rcases hfailed with hstopped | ⟨rfl, rfl⟩
        · cases hstopped with
          | blocked hgathered hblocked =>
              refine Or.inl ⟨?_, hgathered.detached⟩
              cases hblocked with
              | absent hpoint => exact .notFound _
              | occupied hslot hsits => exact .occupied _ _ _
          | unnamed hgathered place fault =>
              exact Or.inr ⟨.contract _ _, keeps hgathered.reseated.agrees hgathered.routes⟩
          | unmatched hgathered task place =>
              exact Or.inr ⟨.notResident _ _, keeps hgathered.reseated.agrees hgathered.routes⟩
          | lost hgathered htaken hsource hblock =>
              exact Or.inr ⟨.unknownTask _,
                keeps htaken.reseated.agrees (htaken.routes.trans hgathered.routes)⟩
        · exact Or.inl ⟨.notFound _, .refl hagrees⟩

theorem mergeColumn_detaches_routedChannel :
    ∃ left, mergeColumn [bank 2, bank 1] routedChannel = .ok 1 left ∧
      (routedChannel.route? ⟨2⟩).isSome = true ∧ left.route? ⟨2⟩ = none := by
  have hreturns : returned? (mergeColumn [bank 2, bank 1]) routedChannel = some 1 := by
    decide +kernel
  have hrun := run_eq_ok_of_returned hreturns
  have hdetached := (reachable_routedChannel.mergeColumn_detaches (by decide +kernel)
    (by decide +kernel) [bank 2, bank 1]).of_ok hrun
  have hedge : ∃ edge, routedChannel.graph.edge? ⟨2⟩ = some edge ∧ edge.Meets ⟨1⟩ :=
    ⟨_, rfl, Or.inr rfl⟩
  obtain ⟨edge, hedge, hmeets⟩ := hedge
  exact ⟨_, hrun, by decide +kernel, hdetached.dropped hedge hmeets (by decide +kernel)⟩

/-- The output has been moved when the merge comes to a coordinate that is too short, and the edge
to it keeps a route to where it was. -/
theorem mergeColumn_keeps_route :
    ∃ left error edge, routedChannel.Reachable ∧
      mergeColumn [bank 2, bank 1, ⟨[⟨[0, 0]⟩]⟩] routedChannel = .error error left ∧
        left.graph.edge? ⟨2⟩ = some edge ∧ edge.Meets ⟨1⟩ ∧
          routedChannel.coordinate? ⟨1⟩ = some (bank 1) ∧ left.coordinate? ⟨1⟩ = some (bank 2) ∧
            left.route? ⟨2⟩ = some [(bank 0).take 2, (bank 1).take 2] := by
  have hfails : fails (mergeColumn [bank 2, bank 1, ⟨[⟨[0, 0]⟩]⟩]) routedChannel = true := by
    decide +kernel
  obtain ⟨error, hrun⟩ := run_eq_error hfails
  exact ⟨_, error, _, reachable_routedChannel, hrun, rfl, Or.inr rfl, by decide +kernel,
    by decide +kernel, by decide +kernel⟩

end Placement

end TiledPlacement

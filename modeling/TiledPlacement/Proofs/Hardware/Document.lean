import Mathlib.Algebra.Group.Nat.Defs
import Mathlib.Data.Option.Basic
import TiledPlacement.Proofs.Hardware.Format
import TiledPlacement.Proofs.Hardware.Usable
import TiledPlacement.Proofs.Toml.Reading

/-!
Descriptions of accelerators are read as they are written. In any format that does what it is known
to do, the layout of a description says line by line what the description holds. The format that
runs does so: the lines build a table with a series of tables for the levels, and the fields are
found again in that table.
-/

namespace TiledPlacement

open Toml

/-! Values that hold contents. -/

namespace Toml.Value.Holds

variable {value : Value}

theorem text? {text : String} (hholds : value.Holds (.string text)) : value.text? = some text := by
  cases hholds
  rfl

theorem nat? {number : Nat} (hholds : value.Holds (.whole number)) : value.nat? = some number := by
  cases hholds
  rw [Value.nat?, if_pos (Int.natCast_nonneg number), Int.toNat_natCast]

theorem float? {number : Float} (hholds : value.Holds (.real number)) :
    value.float? = some number := by
  cases hholds with
  | real hvalue => exact congrArg some hvalue

theorem list? {α : Type} {list : List α} {content : α → Content} {read : Value → Option α}
    (hholds : value.Holds (.array (list.map content)))
    (hread : ∀ {item value}, value.Holds (content item) → read value = some item) :
    value.list? read = some list := by
  cases hholds with
  | @array values _ hitems =>
      change values.mapM read = some list
      induction list generalizing values with
      | nil =>
          cases hitems
          rfl
      | cons item list induction =>
          cases hitems with
          | cons hitem hothers =>
              rw [List.mapM_cons, hread hitem, induction hothers]
              rfl

end Toml.Value.Holds

theorem Position.ofToml?_of_holds {position : Position} {value : Value}
    (hholds : value.Holds position.content) : Position.ofToml? value = some position := by
  rw [ofToml?, hholds.list? Value.Holds.nat?]
  rfl

theorem Coordinate.ofToml?_of_holds {place : Coordinate} {value : Value}
    (hholds : value.Holds place.content) : Coordinate.ofToml? value = some place := by
  rw [ofToml?, hholds.list? Position.ofToml?_of_holds]
  rfl

namespace Hardware

/-- The table of a level. -/
inductive HoldsLevel : Entries → Level → Prop
  | intro {level : Level} {name dims bandwidth : Value} (hname : name.Holds (.string level.name))
      (hdims : dims.Holds (.array (level.dims.map .whole)))
      (hbandwidth : bandwidth.Holds (.real level.bandwidth)) :
      HoldsLevel [("name", name), ("dims", dims), ("bandwidth", bandwidth)] level

theorem HoldsLevel.ofToml? {entries : Entries} {level : Level}
    (hholds : HoldsLevel entries level) : Level.ofToml? (.table .header entries) = some level := by
  cases hholds with
  | @intro _ name dims bandwidth hname hdims hbandwidth =>
      have hfields : Value.fields? (.table .header
          [("name", name), ("dims", dims), ("bandwidth", bandwidth)])
          ["name", "dims", "bandwidth"] = some [some name, some dims, some bandwidth] := rfl
      simp only [Level.ofToml?, hfields, Option.bind_eq_bind, Option.bind_some, hname.text?,
        hdims.list? Value.Holds.nat?, hbandwidth.float?]
      rfl

/-! What the lines build. -/

/-- The table while levels are read. -/
def levelsRoot (name : Value) (levels : List Entries) : Entries :=
  [("name", name), ("space", .tables levels)]

theorem assign_nil (entries : Entries) (key : String) (value : Value) :
    entries.assign [] key value = entries.addNew key value := by
  rw [Entries.assign, Entries.change]
  exact if_neg fun hpath => hpath.1 rfl

theorem apply_assign_level (name value : Value) (key : String) (levels : List Entries)
    (last : Entries) :
    Progress.apply ⟨levelsRoot name (levels ++ [last]), ["space"]⟩ (.assign ⟨[], key⟩ value) =
      (last.addNew key value).map fun last => ⟨levelsRoot name (levels ++ [last]), ["space"]⟩ := by
  have hget : (levelsRoot name (levels ++ [last])).get? "space" =
      some (.tables (levels ++ [last])) := rfl
  rw [Progress.apply, Entries.change, hget]
  simp only [List.getLast?_concat, List.dropLast_concat, Entries.change, assign_nil,
    Option.bind_eq_bind, Option.bind_some]
  cases last.addNew key value <;> rfl

/-- The lines of a level open a table at the end of the series and fill it. -/
theorem foldlM_level {level : Level} {lines : List Line} {said : List Statement}
    (hmeans : List.Forall₂ Statement.Says said (levelLines level ++ lines)) :
    ∃ entries rest, HoldsLevel entries level ∧ List.Forall₂ Statement.Says rest lines ∧
      ∀ name before, said.foldlM Progress.apply ⟨levelsRoot name before, ["space"]⟩ =
        rest.foldlM Progress.apply ⟨levelsRoot name (before ++ [entries]), ["space"]⟩ := by
  obtain _ | ⟨⟨⟩, hmeans⟩ := hmeans
  obtain _ | ⟨⟨hname⟩, hmeans⟩ := hmeans
  obtain _ | ⟨⟨hdims⟩, hmeans⟩ := hmeans
  obtain _ | ⟨⟨hbandwidth⟩, hmeans⟩ := hmeans
  refine ⟨_, _, .intro hname hdims hbandwidth, hmeans, fun name before => ?_⟩
  have hopen : Progress.apply ⟨levelsRoot name before, ["space"]⟩ (.openElement ⟨[], "space"⟩) =
      some ⟨levelsRoot name (before ++ [[]]), ["space"]⟩ := rfl
  have hfirst : ∀ value, Entries.addNew [] "name" value = some [("name", value)] := fun _ => rfl
  have hsecond : ∀ name value, Entries.addNew [("name", name)] "dims" value =
      some [("name", name), ("dims", value)] := fun _ _ => rfl
  have hthird : ∀ name dims value,
      Entries.addNew [("name", name), ("dims", dims)] "bandwidth" value =
        some [("name", name), ("dims", dims), ("bandwidth", value)] := fun _ _ _ => rfl
  simp only [List.foldlM_cons, hopen, apply_assign_level, hfirst, hsecond, hthird,
    Option.map_some, Option.bind_eq_bind, Option.bind_some]

theorem foldlM_levels {levels : List Level} {lines : List Line} {said : List Statement}
    (hmeans : List.Forall₂ Statement.Says said (levels.flatMap levelLines ++ lines)) :
    ∃ read rest, List.Forall₂ HoldsLevel read levels ∧ List.Forall₂ Statement.Says rest lines ∧
      ∀ name before, said.foldlM Progress.apply ⟨levelsRoot name before, ["space"]⟩ =
        rest.foldlM Progress.apply ⟨levelsRoot name (before ++ read), ["space"]⟩ := by
  induction levels generalizing said with
  | nil => exact ⟨[], said, .nil, hmeans, fun _ before => by rw [List.append_nil]⟩
  | cons level levels induction =>
      rw [List.flatMap_cons, List.append_assoc] at hmeans
      obtain ⟨entries, behind, hentries, hbehind, hfirst⟩ := foldlM_level hmeans
      obtain ⟨read, rest, hread, hrest, hothers⟩ := induction hbehind
      refine ⟨entries :: read, rest, .cons hentries hread, hrest, fun name before => ?_⟩
      rw [hfirst, hothers, List.append_assoc]
      rfl

theorem list?_tables {read : List Entries} {levels : List Level}
    (hread : List.Forall₂ HoldsLevel read levels) :
    Value.list? Level.ofToml? (.tables read) = some levels := by
  change (read.map (Value.table .header)).mapM Level.ofToml? = some levels
  induction hread with
  | nil => rfl
  | cons hlevel _ induction =>
      rw [List.map_cons, List.mapM_cons, hlevel.ofToml?, induction]
      rfl

/-- The header of the first level opens the series. Without levels there is an empty array. -/
theorem foldlM_space {levels : List Level} {lines : List Line} {said : List Statement}
    (hmeans : List.Forall₂ Statement.Says said (spaceLines levels ++ lines)) :
    ∃ space current rest, Value.list? Level.ofToml? space = some levels ∧
      List.Forall₂ Statement.Says rest lines ∧
        ∀ name, said.foldlM Progress.apply ⟨[("name", name)], []⟩ =
          rest.foldlM Progress.apply ⟨[("name", name), ("space", space)], current⟩ := by
  cases levels with
  | nil =>
      obtain _ | ⟨⟨hspace⟩, hmeans⟩ := hmeans
      cases hspace with
      | array hitems =>
          cases hitems
          exact ⟨_, [], _, rfl, hmeans, fun _ => rfl⟩
  | cons level levels =>
      have hfirst : ∀ name, said.foldlM Progress.apply ⟨[("name", name)], []⟩ =
          said.foldlM Progress.apply ⟨levelsRoot name [], ["space"]⟩ := by
        obtain _ | ⟨⟨⟩, -⟩ := hmeans
        exact fun _ => rfl
      obtain ⟨read, rest, hread, hrest, hall⟩ := foldlM_levels hmeans
      exact ⟨_, _, rest, list?_tables hread, hrest, fun name => (hfirst name).trans (hall name [])⟩

variable {hardware : Hardware}

theorem timeOfToml?_of_holds {steps phases : Value} (hsteps : steps.Holds (.whole hardware.steps))
    (hphases : phases.Holds (.whole hardware.phases)) :
    timeOfToml? (.table .header [("steps", steps), ("phases", phases)]) =
      some (hardware.steps, hardware.phases) := by
  have hfields : Value.fields? (.table .header [("steps", steps), ("phases", phases)])
      ["steps", "phases"] = some [some steps, some phases] := rfl
  simp only [timeOfToml?, hfields, Option.bind_eq_bind, Option.bind_some, hsteps.nat?,
    hphases.nat?]
  rfl

theorem coreOfToml?_of_holds {memory alignment disabled : Value}
    (hmemory : memory.Holds (.whole hardware.memoryBytes))
    (halignment : alignment.Holds (.whole hardware.alignment))
    (hdisabled : disabled.Holds (.array (hardware.disabled.map Coordinate.content))) :
    coreOfToml? (.table .header
      [("memory_bytes", memory), ("alignment", alignment), ("disabled", disabled)]) =
        some (hardware.memoryBytes, hardware.alignment, hardware.disabled) := by
  have hfields : Value.fields? (.table .header
      [("memory_bytes", memory), ("alignment", alignment), ("disabled", disabled)])
      ["memory_bytes", "alignment", "disabled"] =
        some [some memory, some alignment, some disabled] := rfl
  simp only [coreOfToml?, hfields, Option.bind_eq_bind, Option.bind_some, hmemory.nat?, fieldOr,
    halignment.nat?, hdisabled.list? Coordinate.ofToml?_of_holds]
  rfl

/-- The table that the lines of a description build is read as the description. -/
theorem ofToml?_of_says {said : List Statement}
    (hmeans : List.Forall₂ Statement.Says said hardware.lines) :
    ∃ root, (said.foldlM Progress.apply Progress.start).map Progress.root = some root ∧
      ofToml? (.table .header root) = some hardware := by
  obtain _ | ⟨@⟨_, name, _, hname⟩, hmeans⟩ := hmeans
  obtain ⟨space, current, rest, hspace, hmeans, hlevels⟩ := foldlM_space hmeans
  obtain _ | ⟨⟨⟩, hmeans⟩ := hmeans
  obtain _ | ⟨@⟨_, steps, _, hsteps⟩, hmeans⟩ := hmeans
  obtain _ | ⟨@⟨_, phases, _, hphases⟩, hmeans⟩ := hmeans
  obtain _ | ⟨⟨⟩, hmeans⟩ := hmeans
  obtain _ | ⟨@⟨_, memory, _, hmemory⟩, hmeans⟩ := hmeans
  obtain _ | ⟨@⟨_, alignment, _, halignment⟩, hmeans⟩ := hmeans
  obtain _ | ⟨@⟨_, disabled, _, hdisabled⟩, ⟨⟩⟩ := hmeans
  let time : Entries := [("steps", steps), ("phases", phases)]
  let core : Entries :=
    [("memory_bytes", memory), ("alignment", alignment), ("disabled", disabled)]
  let root : Entries :=
    [("name", name), ("space", space), ("time", .table .header time), ("core", .table .header core)]
  refine ⟨root, congrArg (Option.map Progress.root) (hlevels name), ?_⟩
  have hfields : Value.fields? (.table .header root) ["name", "space", "time", "core"] =
      some [some name, some space, some (.table .header time), some (.table .header core)] := rfl
  simp only [ofToml?, hfields, Option.bind_eq_bind, Option.bind_some, fieldOr, hname.text?, hspace,
    time, timeOfToml?_of_holds hsteps hphases, core,
    coreOfToml?_of_holds hmemory halignment hdisabled]
  rfl

/-! The format that runs. -/

theorem isInteger_of_le {number : Nat} (hnumber : number ≤ 2 ^ 63 - 1) :
    isInteger number = true := by
  have hbound : ((Nat.pow 2 63 : Nat) : Int) = 2 ^ 63 := rfl
  rw [isInteger, Bool.and_eq_true, decide_eq_true_iff, decide_eq_true_iff]
  omega

theorem within_map {α : Type} {depth : Nat} {content : α → Content}
    (hcontent : ∀ item, (content item).Within depth) (list : List α) :
    (Content.array (list.map content)).Within (depth + 1) := by
  refine .array fun item hitem => ?_
  obtain ⟨found, -, rfl⟩ := List.mem_map.mp hitem
  exact hcontent found

theorem within_numbers (depth : Nat) (numbers : List Nat) :
    (Content.array (numbers.map .whole)).Within (depth + 1) :=
  within_map .whole numbers

theorem within_position (depth : Nat) (position : Position) :
    position.content.Within (depth + 1) :=
  within_numbers depth position.components

theorem within_coordinate (depth : Nat) (place : Coordinate) :
    place.content.Within (depth + 2) :=
  within_map (within_position depth) place.levels

theorem within_lines (key : String) (content : Content)
    (hline : .assign key content ∈ hardware.lines) : content.Within Reader.depthLimit := by
  rw [lines, List.mem_cons, List.mem_append, List.mem_append] at hline
  obtain hname | hspace | htime | hcore := hline
  · cases hname
    exact .string _
  · rw [spaceLines] at hspace
    split at hspace
    case isTrue =>
      cases List.mem_singleton.mp hspace
      exact within_numbers 78 []
    case isFalse =>
      obtain ⟨level, -, hlevel⟩ := List.mem_flatMap.mp hspace
      simp only [levelLines, List.mem_cons, Line.assign.injEq, List.not_mem_nil, reduceCtorEq,
        false_or, or_false] at hlevel
      obtain ⟨-, rfl⟩ | ⟨-, rfl⟩ | ⟨-, rfl⟩ := hlevel
      · exact .string _
      · exact within_numbers 78 level.dims
      · exact .real _
  · simp only [timeLines, List.mem_cons, Line.assign.injEq, List.not_mem_nil, reduceCtorEq,
      false_or, or_false] at htime
    obtain ⟨-, rfl⟩ | ⟨-, rfl⟩ := htime <;> exact .whole _
  · simp only [coreLines, List.mem_cons, Line.assign.injEq, List.not_mem_nil, reduceCtorEq,
      false_or, or_false] at hcore
    obtain ⟨-, rfl⟩ | ⟨-, rfl⟩ | ⟨-, rfl⟩ := hcore
    · exact .whole _
    · exact .whole _
    · exact within_map (within_coordinate 76) hardware.disabled

theorem documented_toml : Format.toml.Documented .shortest Toml.Reads where
  layout hardware hnumbers := if_pos (List.all_eq_true.mpr fun number hnumber =>
    isInteger_of_le (hnumbers number hnumber))
  string := reads_string
  whole number hnumber := reads_whole (isInteger_of_le hnumber)
  array := reads_array
  document hdocument := by
    obtain ⟨said, hmeans, hparse⟩ := parse?_of_isDocument hdocument within_lines
    obtain ⟨root, hroot, hread⟩ := ofToml?_of_says hmeans
    change read? _ = _
    rw [read?, hparse, hroot]
    exact hread

/-- A usable description whose whole numbers have 64 bits with their sign is read from its text as
it was written, in any format that does what is documented of it and reads each bandwidth that is
finite as it writes it. -/
theorem ofText_toText {format : Format} {spelling : Spelling} {Reads : String → Content → Prop}
    (hdocumented : format.Documented spelling Reads) (hvalid : hardware.validate = .ok ())
    (hnumbers : ∀ number ∈ hardware.wholeNumbers, number ≤ 2 ^ 63 - 1)
    (hreals : ∀ level ∈ hardware.levels, level.bandwidth.isFinite = true →
      Reads (spelling.real level.bandwidth) (.real level.bandwidth)) :
    ∃ text, hardware.toText format = .ok text ∧ ofText format text = .ok hardware := by
  have hfinite : ∀ level ∈ hardware.levels,
      Reads (spelling.real level.bandwidth) (.real level.bandwidth) := fun level hlevel =>
    hreals level hlevel (Bool.and_eq_true_iff.mp
      ((validate_ok_iff.mp hvalid).levels level hlevel).bandwidth).1
  refine ⟨hardware.layout spelling, ?_, ?_⟩
  · rw [toText, hdocumented.layout hardware hnumbers]
  · rw [ofText, hdocumented.document (hdocumented.isDocument_layout hnumbers hfinite)]
    exact congrArg (Except.map fun () => hardware) hvalid

/-- A machine of one row, with an odd name and with cores that are off. -/
def oddlyNamed : Hardware where
  name := "two \"\"\"quoted\"\"\" lines\n\tand a \\"
  levels := [⟨"core's", [3], 4.5⟩]
  steps := 2
  phases := 1
  memoryBytes := 1024
  alignment := 32
  disabled := [⟨[⟨[0]⟩]⟩, ⟨[⟨[2]⟩]⟩]

theorem ofText_toText_oddlyNamed : oddlyNamed.validate = .ok () ∧
    ∃ text, oddlyNamed.toText .toml = .ok text ∧ ofText .toml text = .ok oddlyNamed := by
  have hvalid : oddlyNamed.validate = .ok () := by decide +kernel
  refine ⟨hvalid, ofText_toText documented_toml hvalid (by decide) fun level hlevel _ => ?_⟩
  obtain rfl := List.mem_singleton.mp hlevel
  exact @reads_real 4.5 (.finite ⟨false, 45, -1⟩) (by decide +kernel) (by decide +kernel)

end Hardware

end TiledPlacement

import Mathlib.Algebra.Group.Nat.Defs
import TiledPlacement.Hardware.Document
import TiledPlacement.Proofs.Toml.Grammar

/-!
What a format for descriptions of accelerators is known to do. It writes a description in a fixed
layout, and it reads the description back from any document that says the same line by line.
-/

namespace TiledPlacement

open Toml

/-! What a document says of an accelerator. -/

def Position.content (position : Position) : Content := .array (position.components.map .whole)

def Coordinate.content (place : Coordinate) : Content := .array (place.levels.map Position.content)

namespace Hardware

def levelLines (level : Level) : List Line :=
  [.openElement "space", .assign "name" (.string level.name),
    .assign "dims" (.array (level.dims.map .whole)), .assign "bandwidth" (.real level.bandwidth)]

def spaceLines (levels : List Level) : List Line :=
  if levels.isEmpty then [.assign "space" (.array [])] else levels.flatMap levelLines

def timeLines (hardware : Hardware) : List Line :=
  [.openTable "time", .assign "steps" (.whole hardware.steps),
    .assign "phases" (.whole hardware.phases)]

def coreLines (hardware : Hardware) : List Line :=
  [.openTable "core", .assign "memory_bytes" (.whole hardware.memoryBytes),
    .assign "alignment" (.whole hardware.alignment),
    .assign "disabled" (.array (hardware.disabled.map Coordinate.content))]

def lines (hardware : Hardware) : List Line :=
  .assign "name" (.string hardware.name) ::
    (spaceLines hardware.levels ++ (hardware.timeLines ++ hardware.coreLines))

/-- What is relied on: the layout that is written, that strings and whole numbers are read as they
are written, and that arrays and documents are read by the grammar. -/
structure Format.Documented (format : Format) (spelling : Spelling)
    (Reads : String → Content → Prop) : Prop where
  layout : ∀ hardware : Hardware, (∀ number ∈ hardware.wholeNumbers, number ≤ 2 ^ 63 - 1) →
    format.write? hardware = some (hardware.layout spelling)
  string : ∀ text, Reads (spelling.string text) (.string text)
  whole : ∀ number ≤ 2 ^ 63 - 1, Reads (toString number) (.whole number)
  array : ∀ {text items}, Items Reads text items → Reads ("[" ++ text ++ "]") (.array items)
  document : ∀ {text} {hardware : Hardware}, IsDocument Reads text hardware.lines →
    format.read? text = some hardware

/-- The keys of a description. -/
def keys : List String :=
  ["name", "space", "dims", "bandwidth", "time", "steps", "phases", "core", "memory_bytes",
    "alignment", "disabled"]

theorem isBareKey {key : String} (hkey : key ∈ keys) : IsBareKey key := by
  have hall : ∀ key ∈ keys, key.toList ≠ [] ∧ (key.toList.all fun char =>
      char.isAlphanum = true ∨ char = '_' ∨ char = '-') = true := by decide
  obtain ⟨hnonempty, hbare⟩ := hall key hkey
  exact ⟨hnonempty, fun char hchar => of_decide_eq_true (List.all_eq_true.mp hbare char hchar)⟩

theorem mem_wholeNumbers {hardware : Hardware} {number : Nat} :
    number ∈ hardware.wholeNumbers ↔
      (∃ level ∈ hardware.levels, number ∈ level.dims) ∨
        number ∈ [hardware.steps, hardware.phases, hardware.memoryBytes, hardware.alignment] ∨
          ∃ place ∈ hardware.disabled, ∃ position ∈ place.levels,
            number ∈ position.components := by
  simp only [wholeNumbers, List.mem_append, List.mem_flatMap, or_assoc]

/-! The layout is such a document. -/

namespace Format.Documented

variable {format : Format} {spelling : Spelling} {Reads : String → Content → Prop}
  (hdocumented : format.Documented spelling Reads)
include hdocumented

theorem reads_array {α : Type} {list : List α} {text : α → String} {content : α → Content}
    (hreads : ∀ item ∈ list, Reads (text item) (content item)) :
    Reads (arrayText (list.map text)) (.array (list.map content)) := by
  have hitems : List.Forall₂ Reads (list.map text) (list.map content) :=
    List.forall₂_map_left_iff.mpr (List.forall₂_map_right_iff.mpr (List.forall₂_same.mpr hreads))
  obtain ⟨inner, htext, hinner⟩ := exists_items hitems
  rw [htext]
  exact hdocumented.array hinner

theorem reads_numbers {numbers : List Nat} (hnumbers : ∀ number ∈ numbers, number ≤ 2 ^ 63 - 1) :
    Reads (arrayText (numbers.map toString)) (.array (numbers.map .whole)) :=
  hdocumented.reads_array fun number hnumber => hdocumented.whole number (hnumbers number hnumber)

theorem reads_coordinate {place : Coordinate}
    (hnumbers : ∀ position ∈ place.levels, ∀ component ∈ position.components,
      component ≤ 2 ^ 63 - 1) : Reads (coordinateText place) place.content :=
  hdocumented.reads_array fun position hposition =>
    hdocumented.reads_numbers (hnumbers position hposition)

variable {rest : String} {others : List Line} (hrest : IsDocument Reads rest others)
include hrest

theorem isDocument_level {level : Level} (hdims : ∀ extent ∈ level.dims, extent ≤ 2 ^ 63 - 1)
    (hreal : Reads (spelling.real level.bandwidth) (.real level.bandwidth)) :
    IsDocument Reads (levelText spelling level ++ rest) (levelLines level ++ others) := by
  have hheader : "\n[[space]]\n" = "\n" ++ ("[[" ++ "space" ++ "]]\n") := by decide
  have hlevel : IsDocument Reads _ (levelLines level ++ others) :=
    .blank (.openElement (isBareKey (by decide)) (.assign (isBareKey (by decide))
      (hdocumented.string level.name) (.assign (isBareKey (by decide))
        (hdocumented.reads_numbers hdims) (.assign (isBareKey (by decide)) hreal hrest))))
  simpa only [levelText, hheader, String.append_assoc] using hlevel

theorem isDocument_levels {levels : List Level}
    (hdims : ∀ level ∈ levels, ∀ extent ∈ level.dims, extent ≤ 2 ^ 63 - 1)
    (hreals : ∀ level ∈ levels, Reads (spelling.real level.bandwidth) (.real level.bandwidth)) :
    IsDocument Reads (String.join (levels.map (levelText spelling)) ++ rest)
      (levels.flatMap levelLines ++ others) := by
  induction levels with
  | nil => simpa using hrest
  | cons level levels induction =>
      rw [List.forall_mem_cons] at hdims hreals
      have hlevel := hdocumented.isDocument_level (induction hdims.2 hreals.2) hdims.1 hreals.1
      simpa [String.append_assoc] using hlevel

theorem isDocument_space {levels : List Level}
    (hdims : ∀ level ∈ levels, ∀ extent ∈ level.dims, extent ≤ 2 ^ 63 - 1)
    (hreals : ∀ level ∈ levels, Reads (spelling.real level.bandwidth) (.real level.bandwidth)) :
    IsDocument Reads ((if levels.isEmpty then assignment "space" (arrayText [])
      else String.join (levels.map (levelText spelling))) ++ rest)
      (spaceLines levels ++ others) := by
  unfold spaceLines
  split
  case isTrue =>
    have hempty := hdocumented.reads_numbers (List.forall_mem_nil fun number => number ≤ 2 ^ 63 - 1)
    exact .assign (isBareKey (by decide)) hempty hrest
  case isFalse => exact hdocumented.isDocument_levels hrest hdims hreals

omit hrest in
theorem isDocument_layout {hardware : Hardware}
    (hnumbers : ∀ number ∈ hardware.wholeNumbers, number ≤ 2 ^ 63 - 1)
    (hreals : ∀ level ∈ hardware.levels,
      Reads (spelling.real level.bandwidth) (.real level.bandwidth)) :
    IsDocument Reads (hardware.layout spelling) hardware.lines := by
  have hsingle : ∀ number ∈ [hardware.steps, hardware.phases, hardware.memoryBytes,
      hardware.alignment], number ≤ 2 ^ 63 - 1 :=
    fun number hnumber => hnumbers number (mem_wholeNumbers.mpr (.inr (.inl hnumber)))
  have hdims : ∀ level ∈ hardware.levels, ∀ extent ∈ level.dims, extent ≤ 2 ^ 63 - 1 :=
    fun level hlevel extent hextent =>
      hnumbers extent (mem_wholeNumbers.mpr (.inl ⟨level, hlevel, hextent⟩))
  have hplaces : ∀ place ∈ hardware.disabled, ∀ position ∈ place.levels,
      ∀ component ∈ position.components, component ≤ 2 ^ 63 - 1 :=
    fun place hplace position hposition component hcomponent => hnumbers component
      (mem_wholeNumbers.mpr (.inr (.inr ⟨place, hplace, position, hposition, hcomponent⟩)))
  simp only [List.forall_mem_cons] at hsingle
  obtain ⟨hsteps, hphases, hmemory, halignment, -⟩ := hsingle
  have hcore : IsDocument Reads _ hardware.coreLines :=
    .openTable (isBareKey (by decide)) (.assign (isBareKey (by decide))
      (hdocumented.whole _ hmemory) (.assign (isBareKey (by decide))
        (hdocumented.whole _ halignment) (.assign (isBareKey (by decide))
          (hdocumented.reads_array fun place hplace =>
            hdocumented.reads_coordinate (hplaces place hplace)) .done)))
  have htime : IsDocument Reads _ (hardware.timeLines ++ hardware.coreLines) :=
    .openTable (isBareKey (by decide)) (.assign (isBareKey (by decide))
      (hdocumented.whole _ hsteps) (.assign (isBareKey (by decide))
        (hdocumented.whole _ hphases) (.blank hcore)))
  have hall : IsDocument Reads _ hardware.lines :=
    .assign (isBareKey (by decide)) (hdocumented.string hardware.name)
      (hdocumented.isDocument_space (.blank htime) hdims hreals)
  have htimeHeader : "\n[time]\n" = "\n" ++ ("[" ++ "time" ++ "]\n") := by decide
  have hcoreHeader : "\n[core]\n" = "\n" ++ ("[" ++ "core" ++ "]\n") := by decide
  simpa only [Hardware.layout, htimeHeader, hcoreHeader, String.append_assoc, String.append_empty]
    using hall

end Format.Documented

end Hardware

end TiledPlacement

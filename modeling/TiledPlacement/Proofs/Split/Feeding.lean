import TiledPlacement.Proofs.Graph.Valid
import TiledPlacement.Proofs.Split.Connection

/-!
What the blocks of a layout are fed. A copy gets from an edge what the cut block got from it, each
element at its place relative to the window that the copy reads; a copy of an operand likewise.
-/

namespace TiledPlacement

namespace Split

theorem carry_eq_ok_iff {edge : Edge} {here part there carried : Window} :
    carry edge here part there = .ok carried ↔
      (edge.isIdentity = true ∧ carried = here.project part there) ∨
        (edge.isIdentity = false ∧ part = here ∧ carried = there) := by
  unfold carry
  cases edge.isIdentity with
  | true =>
      rw [if_pos rfl, Except.ok.injEq]
      exact ⟨fun hequal => Or.inl ⟨rfl, hequal.symm⟩, fun hcases =>
        hcases.elim (fun hboth => hboth.2.symm) (fun hboth => nomatch hboth.1)⟩
  | false =>
      rw [if_neg Bool.false_ne_true]
      by_cases hwhole : part = here
      · rw [if_pos hwhole, Except.ok.injEq]
        exact ⟨fun hequal => Or.inr ⟨rfl, hwhole, hequal.symm⟩, fun hcases =>
          hcases.elim (fun hboth => nomatch hboth.1) (fun hboth => hboth.2.2.symm)⟩
      · rw [if_neg hwhole]
        exact ⟨fun hequal => (nomatch hequal), fun hcases =>
          hcases.elim (fun hboth => nomatch hboth.1) (fun hboth => absurd hboth.2.1 hwhole)⟩

theorem carry_of_identity {edge : Edge} {here part there carried : Window}
    (hidentity : edge.isIdentity = true) (hcarry : carry edge here part there = .ok carried) :
    carried = here.project part there := by
  rcases carry_eq_ok_iff.mp hcarry with ⟨-, hcarried⟩ | ⟨hrearranged, -⟩
  · exact hcarried
  · rw [hidentity] at hrearranged
    cases hrearranged

theorem carry_of_rearranged {edge : Edge} {here part there carried : Window}
    (hrearranged : edge.isIdentity = false) (hcarry : carry edge here part there = .ok carried) :
    part = here ∧ carried = there := by
  rcases carry_eq_ok_iff.mp hcarry with ⟨hidentity, -⟩ | ⟨-, hwhole⟩
  · rw [hrearranged] at hidentity
    cases hidentity
  · exact hwhole

theorem carry_inside {edge : Edge} {here part there carried : Window}
    (hthere : there.Bounded) (hcarry : carry edge here part there = .ok carried)
    (hinside : part.Inside here) (hsize : edge.isIdentity = true → here.SameSize there) :
    carried.Inside there := by
  rcases carry_eq_ok_iff.mp hcarry with ⟨hidentity, rfl⟩ | ⟨-, -, rfl⟩
  · exact Window.inside_project hthere (hsize hidentity) hinside
  · exact .refl _

/-- Both ends of what is carried have room for it as soon as they have its axes. -/
theorem carry_within {edge : Edge} {here required part there carried : Window}
    (hthere : there.Bounded) (hpart : overlap? here required = some part)
    (hcarry : carry edge here part there = .ok carried)
    (hagrees : edge.isIdentity = true → here.size.agreesWith there.size = true)
    (hrequired : part.size.SameAxes required.size)
    (hcarried : carried.size.SameAxes there.size) :
    (required.localize part).within required.size = true ∧
      ∀ extent, there.within extent = true → carried.within extent = true := by
  obtain ⟨hcommon, -⟩ := overlap?_eq_some hpart
  refine ⟨Window.within_localize (hcommon.inside_right_of_sameAxes hrequired) hcommon.outside, ?_⟩
  intro extent hwithin
  rcases carry_eq_ok_iff.mp hcarry with ⟨hidentity, rfl⟩ | ⟨-, -, rfl⟩
  · exact Window.within_project hthere hcommon (hagrees hidentity) hcarried hwithin
  · exact hwithin

/-- What is carried to the axes of its target ends there where a word can say it. -/
theorem carry_bounded {edge : Edge} {here part there carried : Window}
    (hthere : there.Bounded) (hcarry : carry edge here part there = .ok carried)
    (hpart : part.PartOf here)
    (hagrees : edge.isIdentity = true → here.size.agreesWith there.size = true)
    (hcarried : carried.size.SameAxes there.size) : carried.Bounded := by
  rcases carry_eq_ok_iff.mp hcarry with ⟨hidentity, rfl⟩ | ⟨-, -, rfl⟩
  case inr => exact hthere
  intro axis hlogical
  by_cases hspan : part.spans axis = true
  · obtain ⟨-, hhere⟩ := Window.spans_iff.mp (hpart.spans axis hspan)
    have hhas := (hcarried axis hlogical).symm.trans (Window.spans_iff.mp hspan).2
    have hextent := Window.get_eq_of_agreesWith (hagrees hidentity) hlogical hhere hhas
    have hend := hthere axis hlogical
    have hstart := hpart.start axis hspan
    have hstop := hpart.stop axis hspan
    rw [Window.stop, Window.stop] at hstop
    rw [Window.stop] at hend
    change (here.project part there).position.get axis + part.size.get axis < wordCount
    rw [Window.position_project_of_le here part hthere hlogical (by omega)]
    omega
  · rw [Window.spans, hlogical, Bool.true_and, Bool.not_eq_true] at hspan
    change (here.project part there).position.get axis + part.size.get axis < wordCount
    rw [Shape.get_eq_zero_iff.mp hspan, Window.get_position_project]
    exact word_lt _

theorem carry_volume {edge : Edge} {here part there carried : Window}
    (hcarry : carry edge here part there = .ok carried) (hvolume : here.volume = there.volume) :
    carried.volume = part.volume ∧ (edge.isIdentity = true → carried.size = part.size) := by
  rcases carry_eq_ok_iff.mp hcarry with ⟨-, rfl⟩ | ⟨hrearranged, rfl, rfl⟩
  · exact ⟨rfl, fun _ => rfl⟩
  · refine ⟨hvolume.symm, fun hidentity => ?_⟩
    rw [hrearranged] at hidentity
    cases hidentity

/-- An element at one end of an edge comes with the pieces that hold one element of the other. -/
theorem exists_origin {edge : Edge} {here there : Window} (hthere : there.Bounded)
    (hsize : edge.isIdentity = true → here.SameSize there) {element : Datum}
    (hcovers : there.Covers element) :
    ∃ origin, here.Covers origin ∧ ∀ piece carried, piece.Inside here →
      carry edge here piece there = .ok carried →
        (carried.Covers element ↔ piece.Covers origin) := by
  cases hidentity : edge.isIdentity with
  | true =>
      have hsame := hsize hidentity
      refine ⟨there.send here element, Window.covers_send hsame.symm hcovers,
        fun piece carried hinside hcarry => ?_⟩
      rw [carry_of_identity hidentity hcarry]
      exact Window.covers_project_iff hthere hsame hinside hcovers
  | false =>
      obtain ⟨origin, horigin⟩ := here.exists_covers
      refine ⟨origin, horigin, fun piece carried _ hcarry => ?_⟩
      obtain ⟨rfl, rfl⟩ := carry_of_rearranged hidentity hcarry
      exact iff_of_true hcovers horigin

theorem covers_piece_iff {here required piece : Window} (hhere : here.Bounded)
    (hrequired : required.Bounded) (hextends : here.Extends required)
    (hpiece : overlap? here required = some piece) {element : Datum} :
    (required.localize piece).Covers element ↔
      (Window.full required.size).Covers element ∧ here.Covers (required.lift element) := by
  obtain ⟨hcommon, -⟩ := overlap?_eq_some hpiece
  rw [Window.covers_localize_iff (hcommon.inside_right hextends),
    hcommon.covers_iff hhere hrequired hextends, Window.covers_lift_iff]
  constructor
  · intro hboth
    exact ⟨⟨hboth.1.2, hboth.2⟩, hboth.1.1⟩
  · intro hboth
    exact ⟨⟨hboth.2, hboth.1.1⟩, hboth.1.2⟩

theorem exists_piece {here required : Window} (hhere : here.Bounded)
    (hrequired : required.Bounded) (hextends : here.Extends required)
    (hpositive : 0 < required.size.elements) (hfits : required.size.elements < wordCount)
    {element : Datum} (hfull : (Window.full required.size).Covers element)
    (hcovers : here.Covers (required.lift element)) :
    ∃ piece, overlap? here required = some piece ∧
      (required.localize piece).Covers element := by
  obtain ⟨hread, -⟩ := Window.covers_lift_iff.mp hfull
  obtain ⟨piece, hpiece⟩ :=
    (exists_overlap?_iff hhere hrequired hextends hpositive hfits).mpr ⟨_, hcovers, hread⟩
  exact ⟨piece, hpiece, (covers_piece_iff hhere hrequired hextends hpiece).mpr ⟨hfull, hcovers⟩⟩

end Split

namespace Edge

/-- Data that passes the edge unchanged has the same axes at both ends. -/
def KeepsAxes (edge : Edge) : Prop :=
  edge.isIdentity = true → edge.src.window.size.SameAxes edge.dst.window.size

instance (edge : Edge) : Decidable edge.KeepsAxes := inferInstanceAs (Decidable (_ → _))

/-- Data that passes the edge unchanged loses on the way at most axes along which the sender holds a
single element, and gains none. -/
def KeepsExtent (edge : Edge) (held : Shape) : Prop :=
  edge.isIdentity = true → ∀ axis, axis.isLogical = true →
    (edge.dst.window.size.has axis = true → held.has axis = true) ∧
      (1 < held.get axis → edge.dst.window.size.has axis = true)

instance (edge : Edge) (held : Shape) : Decidable (edge.KeepsExtent held) :=
  decidable_of_iff (edge.isIdentity = true → ∀ axis ∈ Axis.logical,
      (edge.dst.window.size.has axis = true → held.has axis = true) ∧
        (1 < held.get axis → edge.dst.window.size.has axis = true))
    (imp_congr_right fun _ => forall_congr' fun axis => by rw [Axis.mem_logical_iff])

theorem KeepsAxes.keepsExtent {edge : Edge} (hkeeps : edge.KeepsAxes) {held : Shape}
    (hwithin : edge.src.window.within held = true) : edge.KeepsExtent held := by
  intro hidentity axis hlogical
  have hsame := (hkeeps hidentity).symm.trans (Window.within_sameAxes hwithin)
  rw [hsame axis hlogical]
  exact ⟨fun hhas => hhas, fun hextent => Shape.has_iff.mpr (Nat.lt_trans Nat.one_pos hextent)⟩

/-- Data that passes the edge unchanged keeps an axis of the sender, and each axis along which the
sender holds several elements. -/
def KeepsSpread (edge : Edge) (held : Shape) : Prop :=
  edge.isIdentity = true →
    (∃ axis, axis.isLogical = true ∧ held.has axis = true ∧
      edge.dst.window.size.has axis = true) ∧
      ∀ axis, axis.isLogical = true → 1 < held.get axis → edge.dst.window.size.has axis = true

theorem KeepsAxes.keepsSpread {edge : Edge} (hkeeps : edge.KeepsAxes) {held : Shape}
    (hwithin : edge.src.window.within held = true)
    (hpositive : 0 < edge.dst.window.size.elements) : edge.KeepsSpread held := by
  intro hidentity
  have hextent := hkeeps.keepsExtent hwithin hidentity
  obtain ⟨axis, hlogical, hhas⟩ := Shape.elements_pos_iff.mp hpositive
  exact ⟨⟨axis, hlogical, (hextent axis hlogical).1 hhas, hhas⟩,
    fun axis hlogical => (hextent axis hlogical).2⟩

theorem KeepsAxes.sameSize {edge : Edge} (hkeeps : edge.KeepsAxes) (hfits : edge.connection.Fits)
    (hidentity : edge.isIdentity = true) : edge.dst.window.SameSize edge.src.window :=
  (Window.sameSize_of_agreesWith (hfits.2 hidentity) (hkeeps hidentity)).symm

end Edge

structure SplitCopy.Reads (split : Split) (copy : SplitCopy) (port : Nat) (required : Window) :
    Prop where
  below : port < copy.block.inputs.length
  operand : ∃ operand, split.computation.inputs[port]? = some operand ∧
    required = operand.2.window (split.window copy.part)

section Feeding

variable {split : Split} {graph : TaskGraph} {task : TaskId} {vector : SplitVector}
  {layout : SplitLayout}

/-! Copies. -/

theorem SplitLayout.Planned.part_mem (hplanned : layout.Planned split graph) {copy : SplitCopy}
    (hcopy : copy ∈ layout.copies) : copy.part ∈ split.parts := by
  rw [← hplanned.parts]
  exact List.mem_map_of_mem hcopy

theorem SplitLayout.Planned.payload_copy (hplanned : layout.Planned split graph)
    {copy : SplitCopy} (hcopy : copy ∈ layout.copies) :
    copy.block.payload = .computation
      (copy.part.computation split.computation split.factors split.reduces) ∧ copy.block.Made :=
  (Block.ofComputation_ok (hplanned.copies copy hcopy).made).2

theorem Split.Cuts.copy_region (hcuts : split.Cuts graph task vector)
    (hplanned : layout.Planned split graph) {copy : SplitCopy} (hcopy : copy ∈ layout.copies)
    (axis : Axis) :
    (split.window copy.part).size.has axis = split.computation.shape.has axis ∧
      (split.window copy.part).stop axis ≤ split.computation.shape.get axis := by
  obtain ⟨hpayload, hmade⟩ := hplanned.payload_copy hcopy
  have hvalid := hmade.shaped.valid
  rw [hpayload] at hvalid
  exact SplitPart.window_region (hplanned.part_mem hcopy) hcuts.valid hvalid.1 axis

theorem SplitLayout.Planned.length_inputs (hplanned : layout.Planned split graph)
    {copy : SplitCopy} (hcopy : copy ∈ layout.copies) :
    copy.block.inputs.length =
      (copy.part.computation split.computation split.factors split.reduces).inputs.length := by
  obtain ⟨hpayload, hmade⟩ := hplanned.payload_copy hcopy
  have hshapes := congrArg List.length (hmade.shaped.shapes .input)
  rw [hpayload] at hshapes
  change (copy.block.inputs.map Port.shape).length = (List.map _ _).length at hshapes
  rwa [List.length_map, List.length_map] at hshapes

theorem Split.Cuts.shapes_copy (hcuts : split.Cuts graph task vector)
    (hplanned : layout.Planned split graph) {copy : SplitCopy} (hcopy : copy ∈ layout.copies)
    {port : Nat} {extent : Shape} :
    (copy.block.payload.shapes .input)[port]? = some extent ↔
      ∃ required, copy.Reads split port required ∧ extent = required.size := by
  obtain ⟨hpayload, hmade⟩ := hplanned.payload_copy hcopy
  obtain ⟨rest, hrest⟩ :
      (copy.part.computation split.computation split.factors split.reduces).inputs <+:
        split.computation.inputs :=
    SplitPart.inputs_computation fun shift hoperation =>
      SplitPart.addends_uncut hcuts.factors (hplanned.part_mem hcopy) hoperation
  have hlength := hplanned.length_inputs hcopy
  have hshape : ∀ operand : OperandRole × AxisMap,
      operand.2.shape (copy.part.computation split.computation split.factors split.reduces).shape =
        (operand.2.window (split.window copy.part)).size := by
    intro operand
    rw [SplitPart.shape_computation]
    rfl
  rw [hpayload]
  change (List.map _ _)[port]? = _ ↔ _
  rw [List.getElem?_map, Option.map_eq_some_iff]
  constructor
  · intro hfound
    obtain ⟨operand, hoperand, rfl⟩ := hfound
    obtain ⟨hless, -⟩ := List.getElem?_eq_some_iff.mp hoperand
    refine ⟨operand.2.window (split.window copy.part), ⟨?_, operand, ?_, rfl⟩, hshape operand⟩
    · rw [hlength]
      exact hless
    · rw [← hrest, List.getElem?_append_left hless, hoperand]
  · intro hreads
    obtain ⟨required, ⟨hbelow, operand, hoperand, rfl⟩, rfl⟩ := hreads
    rw [hlength] at hbelow
    rw [← hrest, List.getElem?_append_left hbelow] at hoperand
    exact ⟨operand, hoperand, hshape operand⟩

theorem SplitCopy.Reads.liesIn (hcuts : split.Cuts graph task vector)
    (hplanned : layout.Planned split graph) {copy : SplitCopy} (hcopy : copy ∈ layout.copies)
    {port : Nat} {required : Window} (hreads : copy.Reads split port required) :
    ∃ extent, graph.extent? .input task port = some extent ∧ required.LiesIn extent := by
  obtain ⟨operand, hoperand, rfl⟩ := hreads.operand
  have hshape := hcuts.input port
  rw [hoperand, Option.map_some] at hshape
  obtain ⟨whole, hwhole, hextent⟩ := Option.map_eq_some_iff.mp hshape
  refine ⟨whole.shape, ?_, ?_⟩
  · exact Option.map_eq_some_iff.mpr
      ⟨whole, TaskGraph.port?_eq_some_iff.mpr ⟨split.block, hcuts.block, hwhole⟩, rfl⟩
  · rw [hextent]
    exact AxisMap.liesIn_window fun _ along _ => hcuts.copy_region hplanned hcopy along

theorem SplitCopy.Reads.bounded (hcuts : split.Cuts graph task vector)
    (hbounded : graph.Bounded) (hplanned : layout.Planned split graph) {copy : SplitCopy}
    (hcopy : copy ∈ layout.copies) {port : Nat} {required : Window}
    (hreads : copy.Reads split port required) : required.Bounded := by
  obtain ⟨extent, hextent, hlies⟩ := hreads.liesIn hcuts hplanned hcopy
  exact hlies.bounded (hbounded.elements_lt hcuts.wellFormed hextent)

theorem SplitCopy.Reads.elements_lt (hcuts : split.Cuts graph task vector)
    (hbounded : graph.Bounded) (hplanned : layout.Planned split graph) {copy : SplitCopy}
    (hcopy : copy ∈ layout.copies) {port : Nat} {required : Window}
    (hreads : copy.Reads split port required) : required.size.elements < wordCount := by
  obtain ⟨extent, hextent, hlies⟩ := hreads.liesIn hcuts hplanned hcopy
  have hfits := hbounded.elements_lt hcuts.wellFormed hextent
  exact Nat.lt_of_le_of_lt ((hlies.bounded hfits).elements_le hlies.within) hfits

namespace SplitLayout.Planned

variable {copy : SplitCopy} {feed : Feed}

theorem intake_mem (hplanned : layout.Planned split graph) (hcopy : copy ∈ layout.copies)
    (hfeed : feed ∈ copy.feeds) :
    feed.toIntake ∈
      split.intakes graph copy.block.inputs.length (split.window copy.part) := by
  rw [← (hplanned.copies copy hcopy).intakes]
  exact List.mem_map_of_mem hfeed

theorem reads (hplanned : layout.Planned split graph) (hcuts : split.Cuts graph task vector)
    (hcopy : copy ∈ layout.copies) (hfeed : feed ∈ copy.feeds) :
    copy.Reads split feed.port feed.required := by
  obtain ⟨hbelow, hoperand, -⟩ :=
    (Split.mem_intakes_iff hcuts).mp (hplanned.intake_mem hcopy hfeed)
  exact ⟨hbelow, hoperand⟩

theorem known (hplanned : layout.Planned split graph) (hcuts : split.Cuts graph task vector)
    (hcopy : copy ∈ layout.copies) (hfeed : feed ∈ copy.feeds) :
    graph.edge? feed.edge.id = some feed.edge ∧ feed.edge.dst.Names task feed.port := by
  obtain ⟨-, -, hknown, hnames, -⟩ :=
    (Split.mem_intakes_iff hcuts).mp (hplanned.intake_mem hcopy hfeed)
  exact ⟨hknown, hnames⟩

theorem piece (hplanned : layout.Planned split graph) (hcuts : split.Cuts graph task vector)
    (hcopy : copy ∈ layout.copies) (hfeed : feed ∈ copy.feeds) :
    Split.overlap? feed.edge.dst.window feed.required = some feed.piece := by
  obtain ⟨-, -, -, -, hpiece⟩ :=
    (Split.mem_intakes_iff hcuts).mp (hplanned.intake_mem hcopy hfeed)
  exact hpiece

theorem feed_unique (hplanned : layout.Planned split graph) (hcuts : split.Cuts graph task vector)
    (hcopy : copy ∈ layout.copies) {other : Feed} (hfeed : feed ∈ copy.feeds)
    (hother : other ∈ copy.feeds) (hport : feed.port = other.port)
    (hedge : feed.edge = other.edge) : feed = other := by
  have hintake := Split.intake_unique hcuts (hplanned.intake_mem hcopy hfeed)
    (hplanned.intake_mem hcopy hother) hport hedge
  have hnodup := Split.nodup_intakes hcuts copy.block.inputs.length (split.window copy.part)
  rw [← (hplanned.copies copy hcopy).intakes] at hnodup
  exact List.inj_on_of_nodup_map hnodup hfeed hother hintake

theorem sameAxes (hplanned : layout.Planned split graph) (hcuts : split.Cuts graph task vector)
    (hcopy : copy ∈ layout.copies) {port : Nat} {required : Window}
    (hreads : copy.Reads split port required) {edge : Edge}
    (hknown : graph.edge? edge.id = some edge) (hnames : edge.dst.Names task port) :
    edge.dst.window.size.SameAxes required.size := by
  obtain ⟨extent, hextent, hlies⟩ := hreads.liesIn hcuts hplanned hcopy
  obtain ⟨other, hother, hroom⟩ := hcuts.wellFormed.window_within hknown .input
  rw [Edge.endAt_input, hnames.1, hnames.2] at hother
  obtain rfl := Option.some.inj (hother.symm.trans hextent)
  exact (Window.within_sameAxes hroom).trans (Window.within_sameAxes hlies.within).symm

/-- What a feed brings to an element of a copy, its edge brings to the element of the cut block at
the same place of the window that the copy reads. -/
theorem covers_feed_iff (hplanned : layout.Planned split graph)
    (hcuts : split.Cuts graph task vector) (hbounded : graph.Bounded) (hcopy : copy ∈ layout.copies)
    (hfeed : feed ∈ copy.feeds) {element : Datum} :
    (feed.required.localize feed.piece).Covers element ↔
      (Window.full feed.required.size).Covers element ∧
        graph.Feeds feed.edge task feed.port (feed.required.lift element) := by
  obtain ⟨hknown, hnames⟩ := hplanned.known hcuts hcopy hfeed
  have hreads := hplanned.reads hcuts hcopy hfeed
  have hsame := hplanned.sameAxes hcuts hcopy hreads hknown hnames
  rw [Split.covers_piece_iff (hbounded.edge hknown .input)
    (hreads.bounded hcuts hbounded hplanned hcopy) (.of_sameAxes hsame)
    (hplanned.piece hcuts hcopy hfeed)]
  exact and_congr_right fun _ => ⟨fun hcovers => ⟨hknown, hnames, hcovers⟩,
    fun hfeeds => hfeeds.covers⟩

/-- Nothing that the cut block was fed is lost on a copy. -/
theorem exists_feed (hplanned : layout.Planned split graph)
    (hcuts : split.Cuts graph task vector) (hbounded : graph.Bounded)
    (hcopy : copy ∈ layout.copies) {port : Nat} {required : Window}
    (hreads : copy.Reads split port required) {element : Datum}
    (hfull : (Window.full required.size).Covers element) {edge : Edge}
    (hfeeds : graph.Feeds edge task port (required.lift element)) :
    ∃ feed ∈ copy.feeds, feed.port = port ∧ feed.required = required ∧ feed.edge = edge ∧
      (required.localize feed.piece).Covers element := by
  have hsame := hplanned.sameAxes hcuts hcopy hreads hfeeds.known hfeeds.names
  obtain ⟨piece, hpiece, hcovers⟩ := Split.exists_piece (hbounded.edge hfeeds.known .input)
    (hreads.bounded hcuts hbounded hplanned hcopy) (.of_sameAxes hsame)
    (hsame.elements_pos (hcuts.wellFormed.window_elements_pos hfeeds.known .input))
    (hreads.elements_lt hcuts hbounded hplanned hcopy) hfull hfeeds.covers
  have hintake : (⟨port, required, edge, piece⟩ : Intake) ∈
      split.intakes graph copy.block.inputs.length (split.window copy.part) :=
    (Split.mem_intakes_iff hcuts).mpr
      ⟨hreads.below, hreads.operand, hfeeds.known, hfeeds.names, hpiece⟩
  rw [← (hplanned.copies copy hcopy).intakes] at hintake
  obtain ⟨feed, hfeed, hequal⟩ := List.mem_map.mp hintake
  refine ⟨feed, hfeed, congrArg Intake.port hequal, congrArg Intake.required hequal,
    congrArg Intake.edge hequal, ?_⟩
  rw [congrArg Intake.piece hequal]
  exact hcovers

theorem piece_inside (hplanned : layout.Planned split graph)
    (hcuts : split.Cuts graph task vector) (hcopy : copy ∈ layout.copies)
    (hfeed : feed ∈ copy.feeds) :
    feed.piece.Inside feed.edge.dst.window ∧ feed.piece.Inside feed.required ∧
      ∀ axis, ¬feed.piece.spans axis = true →
        feed.piece.position.get axis = 0 ∧ feed.piece.size.get axis = 0 := by
  obtain ⟨hknown, hnames⟩ := hplanned.known hcuts hcopy hfeed
  have hsame := hplanned.sameAxes hcuts hcopy (hplanned.reads hcuts hcopy hfeed) hknown hnames
  obtain ⟨hcommon, -⟩ := Split.overlap?_eq_some (hplanned.piece hcuts hcopy hfeed)
  exact ⟨hcommon.inside_left hsame, hcommon.inside_right (.of_sameAxes hsame), hcommon.outside⟩

/-! Copies of operands. -/

/-- The copy of an operand holds what was sent of it, kind and precision as they were. -/
theorem operand_storage (hplanned : layout.Planned split graph)
    (hcuts : split.Cuts graph task vector) (hcopy : copy ∈ layout.copies)
    (hfeed : feed ∈ copy.feeds) {operand : OperandCopy} (hoperand : feed.operand = some operand) :
    ∃ storage, graph.payload? feed.edge.src.task = some (.storage storage) ∧
      operand.block.payload = .storage { storage with shape := feed.sent.size } ∧
        operand.block.Made := by
  obtain ⟨hmember, original, horiginal, hmade, -⟩ :=
    ((hplanned.copies copy hcopy).feeds feed hfeed).operand operand hoperand
  rw [hcuts.operands] at hmember
  obtain ⟨⟨storage, hstorage⟩, -, -⟩ := hcuts.wellFormed.mem_operands_iff.mp hmember
  obtain ⟨-, hblock, hpayload⟩ := Block.copyLike_ok hmade
  have hsame : original.payload = .storage storage := by
    rw [TaskGraph.payload?, horiginal, Option.map_some] at hstorage
    exact Option.some.inj hstorage
  rw [hsame] at hpayload
  exact ⟨storage, hstorage, hpayload, hblock⟩

/-- What feeds the part of an operand that was sent can be cut to it. -/
theorem carry_upstream (hplanned : layout.Planned split graph)
    (hcuts : split.Cuts graph task vector) (hcopy : copy ∈ layout.copies)
    (hfeed : feed ∈ copy.feeds) {operand : OperandCopy} (hoperand : feed.operand = some operand)
    {edge : Edge} (hknown : graph.edge? edge.id = some edge)
    (hdst : edge.dst.task = feed.edge.src.task) {piece : Window}
    (hpiece : Split.overlap? edge.dst.window feed.sent = some piece) :
    ∃ sent, Split.carry edge edge.dst.window piece edge.src.window = .ok sent := by
  obtain ⟨-, original, horiginal, -, hfeeds⟩ :=
    ((hplanned.copies copy hcopy).feeds feed hfeed).operand operand hoperand
  have hid := hcuts.wellFormed.block_id horiginal
  have hmeets : (edge, piece) ∈
      Split.meeting (graph.inputEdges original.id) Edge.dst feed.sent :=
    Split.mem_meeting_iff.mpr
      ⟨hcuts.wellFormed.mem_inputEdges_iff.mpr ⟨hknown, hdst.trans hid.symm⟩, hpiece⟩
  obtain ⟨connection, hconnection⟩ := exists_of_mapM_ok hfeeds hmeets
  obtain ⟨sent, hsent, -⟩ := bind_eq_ok_iff.mp hconnection
  exact ⟨sent, hsent⟩

/-- What is sent has no more elements than what the edge brought. -/
theorem sent_elements_lt (hplanned : layout.Planned split graph)
    (hcuts : split.Cuts graph task vector) (hbounded : graph.Bounded)
    (hcopy : copy ∈ layout.copies) (hfeed : feed ∈ copy.feeds) :
    feed.sent.size.elements < wordCount := by
  obtain ⟨hknown, -⟩ := hplanned.known hcuts hcopy hfeed
  have hsent := ((hplanned.copies copy hcopy).feeds feed hfeed).sent
  rcases Split.carry_eq_ok_iff.mp hsent with ⟨-, hcarried⟩ | ⟨-, -, hcarried⟩
  · have hreads := hplanned.reads hcuts hcopy hfeed
    have hcommon := (Split.overlap?_eq_some (hplanned.piece hcuts hcopy hfeed)).1
    have hfewer : feed.piece.size.elements ≤ feed.required.size.elements :=
      Shape.elements_le hcommon.size_le
    rw [hcarried]
    exact Nat.lt_of_le_of_lt hfewer (hreads.elements_lt hcuts hbounded hplanned hcopy)
  · rw [hcarried]
    exact hbounded.window_elements_lt hcuts.wellFormed hknown .output

/-- The copy of an operand holds something. -/
theorem sent_elements_pos (hplanned : layout.Planned split graph)
    (hcuts : split.Cuts graph task vector) (hcopy : copy ∈ layout.copies)
    (hfeed : feed ∈ copy.feeds) {operand : OperandCopy} (hoperand : feed.operand = some operand) :
    0 < feed.sent.size.elements := by
  obtain ⟨storage, -, hpayload, hmade⟩ := hplanned.operand_storage hcuts hcopy hfeed hoperand
  have hvalid := hmade.shaped.valid
  rw [hpayload] at hvalid
  exact Nat.lt_of_lt_of_le (Nat.pos_of_ne_zero hvalid) (word_le _)

/-- Of what an edge brought, a part is sent, if data has the same axes at both ends. -/
theorem sent_inside (hplanned : layout.Planned split graph)
    (hcuts : split.Cuts graph task vector) (hbounded : graph.Bounded) (hcopy : copy ∈ layout.copies)
    (hfeed : feed ∈ copy.feeds) (hkeeps : feed.edge.KeepsAxes) :
    feed.sent.Inside feed.edge.src.window := by
  obtain ⟨hknown, -⟩ := hplanned.known hcuts hcopy hfeed
  obtain ⟨hinside, -, -⟩ := hplanned.piece_inside hcuts hcopy hfeed
  have hsent := ((hplanned.copies copy hcopy).feeds feed hfeed).sent
  exact Split.carry_inside (hbounded.edge hknown .output) hsent hinside
    (hkeeps.sameSize (hcuts.wellFormed.edge_fits hknown))

/-- What is sent unchanged has the axes at which it arrives. -/
theorem spans_sent (hplanned : layout.Planned split graph) (hcuts : split.Cuts graph task vector)
    (hcopy : copy ∈ layout.copies) (hfeed : feed ∈ copy.feeds)
    (hidentity : feed.edge.isIdentity = true) (axis : Axis) :
    feed.sent.spans axis = feed.edge.dst.window.spans axis := by
  obtain ⟨hpiece, -, -⟩ := hplanned.piece_inside hcuts hcopy hfeed
  rw [← hpiece.spans axis,
    Split.carry_of_identity hidentity ((hplanned.copies copy hcopy).feeds feed hfeed).sent]
  rfl

section Held

variable {storage : Storage}
  (hstorage : graph.payload? feed.edge.src.task = some (.storage storage))
include hstorage

theorem source_within (hplanned : layout.Planned split graph)
    (hcuts : split.Cuts graph task vector) (hcopy : copy ∈ layout.copies)
    (hfeed : feed ∈ copy.feeds) : feed.edge.src.window.within storage.shape = true := by
  obtain ⟨hknown, -⟩ := hplanned.known hcuts hcopy hfeed
  obtain ⟨extent, hextent, hwithin⟩ := hcuts.wellFormed.window_within hknown .output
  obtain rfl := hcuts.wellFormed.extent?_storage hstorage hextent
  exact hwithin

/-- Along an axis of the operand, what is sent lies in what the edge took from it. -/
theorem sent_at (hplanned : layout.Planned split graph) (hcuts : split.Cuts graph task vector)
    (hbounded : graph.Bounded) (hcopy : copy ∈ layout.copies) (hfeed : feed ∈ copy.feeds)
    {axis : Axis} (hspan : feed.sent.spans axis = true)
    (hheld : storage.shape.has axis = true) :
    feed.edge.src.window.position.get axis ≤ feed.sent.position.get axis ∧
      feed.sent.stop axis ≤ feed.edge.src.window.stop axis := by
  obtain ⟨hknown, -⟩ := hplanned.known hcuts hcopy hfeed
  have hlogical := (Window.spans_iff.mp hspan).1
  have hsource := Window.within_sameAxes (hplanned.source_within hstorage hcuts hcopy hfeed)
  have hsent := ((hplanned.copies copy hcopy).feeds feed hfeed).sent
  rcases Split.carry_eq_ok_iff.mp hsent with ⟨hidentity, hcarried⟩ | ⟨-, -, hcarried⟩
  · obtain ⟨hpiece, -, -⟩ := hplanned.piece_inside hcuts hcopy hfeed
    have hagrees := (hcuts.wellFormed.edge_fits hknown).2 hidentity
    rw [hcarried] at hspan ⊢
    obtain ⟨-, hhas⟩ := Window.spans_iff.mp (hpiece.partOf.spans axis hspan)
    have hextent :=
      Window.get_eq_of_agreesWith hagrees hlogical ((hsource axis hlogical).trans hheld) hhas
    exact hpiece.partOf.project_at (hbounded.edge hknown .output) hspan hextent.symm
  · rw [hcarried]
    exact ⟨Nat.le_refl _, Nat.le_refl _⟩

/-- Along an axis of the operand, what is sent ends within the operand. -/
theorem sent_stop_le (hplanned : layout.Planned split graph)
    (hcuts : split.Cuts graph task vector) (hbounded : graph.Bounded)
    (hcopy : copy ∈ layout.copies) (hfeed : feed ∈ copy.feeds) {axis : Axis}
    (hspan : feed.sent.spans axis = true) (hheld : storage.shape.has axis = true) :
    feed.sent.stop axis ≤ storage.shape.get axis := by
  obtain ⟨hknown, -⟩ := hplanned.known hcuts hcopy hfeed
  have hlogical := (Window.spans_iff.mp hspan).1
  have hwithin := hplanned.source_within hstorage hcuts hcopy hfeed
  have hhas := (Window.within_sameAxes hwithin axis hlogical).trans hheld
  exact Nat.le_trans (hplanned.sent_at hstorage hcuts hbounded hcopy hfeed hspan hheld).2
    ((hbounded.edge hknown .output).stop_le hwithin (Window.spans_iff.mpr ⟨hlogical, hhas⟩))

/-- What is sent is a part of what the edge took from the operand, and has its axes apart from such
along which the operand holds a single element. -/
theorem sent_partOf (hplanned : layout.Planned split graph)
    (hcuts : split.Cuts graph task vector) (hbounded : graph.Bounded)
    (hcopy : copy ∈ layout.copies) (hfeed : feed ∈ copy.feeds)
    (hkeeps : feed.edge.KeepsExtent storage.shape) :
    feed.sent.PartOf feed.edge.src.window ∧ ∀ axis, feed.edge.src.window.spans axis = true →
      ¬feed.sent.spans axis = true → storage.shape.get axis ≤ 1 := by
  obtain ⟨hknown, -⟩ := hplanned.known hcuts hcopy hfeed
  have hsource := Window.within_sameAxes (hplanned.source_within hstorage hcuts hcopy hfeed)
  have hsent := ((hplanned.copies copy hcopy).feeds feed hfeed).sent
  rcases Split.carry_eq_ok_iff.mp hsent with ⟨hidentity, -⟩ | ⟨-, -, hcarried⟩
  · have hspans := hplanned.spans_sent hcuts hcopy hfeed hidentity
    have hheld : ∀ axis, feed.sent.spans axis = true → storage.shape.has axis = true := by
      intro axis hspan
      obtain ⟨hlogical, hhas⟩ := Window.spans_iff.mp ((hspans axis).symm.trans hspan)
      exact (hkeeps hidentity axis hlogical).1 hhas
    have hat : ∀ axis, feed.sent.spans axis = true → _ := fun axis hspan =>
      hplanned.sent_at hstorage hcuts hbounded hcopy hfeed hspan (hheld axis hspan)
    refine ⟨⟨fun axis hspan => ?_, fun axis hspan => (hat axis hspan).1,
      fun axis hspan => (hat axis hspan).2⟩, ?_⟩
    · have hlogical := (Window.spans_iff.mp hspan).1
      have hhas := (hsource axis hlogical).trans (hheld axis hspan)
      exact Window.spans_iff.mpr ⟨hlogical, hhas⟩
    · intro axis hspan hnot
      have hlogical := (Window.spans_iff.mp hspan).1
      refine Nat.not_lt.mp fun hextent => hnot ?_
      rw [hspans]
      exact Window.spans_iff.mpr ⟨hlogical, (hkeeps hidentity axis hlogical).2 hextent⟩
  · rw [hcarried]
    exact ⟨(Window.Inside.refl _).partOf, fun axis hspan hnot => absurd hspan hnot⟩

theorem sent_covers (hplanned : layout.Planned split graph)
    (hcuts : split.Cuts graph task vector) (hbounded : graph.Bounded)
    (hcopy : copy ∈ layout.copies) (hfeed : feed ∈ copy.feeds)
    (hkeeps : feed.edge.KeepsExtent storage.shape) {element : Datum}
    (hfull : (Window.full feed.sent.size).Covers element) :
    (Window.full storage.shape).Covers (feed.sent.lift element) := by
  have hwithin := hplanned.source_within hstorage hcuts hcopy hfeed
  have hpart := (hplanned.sent_partOf hstorage hcuts hbounded hcopy hfeed hkeeps).1
  have hcovers := (Window.covers_lift_iff.mp hfull).1
  refine Window.covers_full_iff.mpr fun axis => ?_
  have haxis := hcovers axis
  by_cases hspan : feed.sent.spans axis = true
  · rw [if_pos hspan] at haxis
    obtain ⟨hlogical, hhas⟩ := Window.spans_iff.mp (hpart.spans axis hspan)
    rw [Window.within_sameAxes hwithin axis hlogical] at hhas
    have hstop := hplanned.sent_stop_le hstorage hcuts hbounded hcopy hfeed hspan hhas
    rw [hlogical, hhas, Bool.and_self, if_pos rfl]
    omega
  · rw [if_neg hspan] at haxis
    rw [haxis]
    split
    case isFalse => rfl
    case isTrue hheld => exact Shape.has_iff.mp (Bool.and_eq_true_iff.mp hheld).2

theorem sent_bounded (hplanned : layout.Planned split graph)
    (hcuts : split.Cuts graph task vector) (hbounded : graph.Bounded)
    (hcopy : copy ∈ layout.copies) (hfeed : feed ∈ copy.feeds)
    (hkeeps : feed.edge.KeepsExtent storage.shape) : feed.sent.Bounded := by
  obtain ⟨hknown, -⟩ := hplanned.known hcuts hcopy hfeed
  have hsource := hbounded.edge hknown .output
  obtain ⟨hpart, -⟩ := hplanned.sent_partOf hstorage hcuts hbounded hcopy hfeed hkeeps
  have hsent := ((hplanned.copies copy hcopy).feeds feed hfeed).sent
  rcases Split.carry_eq_ok_iff.mp hsent with ⟨-, hcarried⟩ | ⟨-, -, hcarried⟩
  · intro axis hlogical
    by_cases hspan : feed.sent.spans axis = true
    · exact Nat.lt_of_le_of_lt (hpart.stop axis hspan) (hsource axis hlogical)
    · rw [Window.spans, hlogical, Bool.true_and, Bool.not_eq_true] at hspan
      rw [Window.stop, Shape.get_eq_zero_iff.mp hspan, hcarried, Window.get_position_project]
      exact word_lt _
  · rw [hcarried]
    exact hsource

/-- What reaches the operand has the axes that are sent on. -/
theorem upstream_extends (hplanned : layout.Planned split graph)
    (hcuts : split.Cuts graph task vector) (hbounded : graph.Bounded)
    (hcopy : copy ∈ layout.copies) (hfeed : feed ∈ copy.feeds)
    (hkeeps : feed.edge.KeepsExtent storage.shape) {edge : Edge}
    (hknown : graph.edge? edge.id = some edge) (hdst : edge.dst.task = feed.edge.src.task) :
    edge.dst.window.Extends feed.sent := by
  obtain ⟨extent, hextent, hwithin⟩ := hcuts.wellFormed.window_within hknown .input
  rw [Edge.endAt_input, hdst] at hextent
  obtain rfl := hcuts.wellFormed.extent?_storage hstorage hextent
  have hsource := hplanned.source_within hstorage hcuts hcopy hfeed
  have haxes : ∀ axis, edge.dst.window.spans axis = feed.edge.src.window.spans axis :=
    Window.spans_eq_of_sameAxes
      ((Window.within_sameAxes hwithin).trans (Window.within_sameAxes hsource).symm)
  obtain ⟨hpart, hflat⟩ := hplanned.sent_partOf hstorage hcuts hbounded hcopy hfeed hkeeps
  refine ⟨fun axis hspan => (haxes axis).trans (hpart.spans axis hspan), fun axis hspan hnot => ?_⟩
  have hheld := hflat axis ((haxes axis).symm.trans hspan) hnot
  have hstop := (hbounded.edge hknown .input).stop_le hwithin hspan
  have hpositive := Shape.has_iff.mp (Window.spans_iff.mp hspan).2
  rw [Edge.endAt_input, Window.stop] at hstop
  omega

/-- The first element that is sent, as far as the operand has its axes, is one of the operand. -/
theorem corner_covers (hplanned : layout.Planned split graph)
    (hcuts : split.Cuts graph task vector) (hbounded : graph.Bounded)
    (hcopy : copy ∈ layout.copies) (hfeed : feed ∈ copy.feeds) :
    (Window.full storage.shape).Covers (feed.sent.corner storage.shape) := by
  refine Window.covers_full_iff.mpr fun axis => ?_
  unfold Window.corner
  cases hheld : storage.shape.has axis with
  | false => simp
  | true =>
      have hextent := Shape.has_iff.mp hheld
      cases hspan : feed.sent.spans axis with
      | false => cases axis.isLogical <;> simp [hextent]
      | true =>
          obtain ⟨hlogical, hhas⟩ := Window.spans_iff.mp hspan
          have hsize := Shape.has_iff.mp hhas
          have hstop := hplanned.sent_stop_le hstorage hcuts hbounded hcopy hfeed hspan hheld
          rw [Window.stop] at hstop
          simp only [hlogical, Bool.and_self, if_true]
          omega

/-- What brings that element to the operand overlaps with what is sent, if they share an axis. -/
theorem exists_overlap_corner (hplanned : layout.Planned split graph)
    (hcuts : split.Cuts graph task vector) (hbounded : graph.Bounded)
    (hcopy : copy ∈ layout.copies) (hfeed : feed ∈ copy.feeds) {edge : Edge}
    (hknown : graph.edge? edge.id = some edge) (hdst : edge.dst.task = feed.edge.src.task)
    (hcovers : edge.dst.window.Covers (feed.sent.corner storage.shape)) {shared : Axis}
    (hshared : feed.sent.spans shared = true) (hheld : storage.shape.has shared = true) :
    ∃ piece, Split.overlap? edge.dst.window feed.sent = some piece := by
  obtain ⟨extent, hextent, hwithin⟩ := hcuts.wellFormed.window_within hknown .input
  rw [Edge.endAt_input, hdst] at hextent
  obtain rfl := hcuts.wellFormed.extent?_storage hstorage hextent
  have haxes : ∀ axis, edge.dst.window.spans axis = (Window.full storage.shape).spans axis :=
    Window.spans_eq_of_sameAxes (Window.within_sameAxes hwithin)
  cases hintersect : edge.dst.window.intersect? feed.sent with
  | some common =>
      have hspans := (haxes shared).trans
        (Window.spans_iff.mpr ⟨(Window.spans_iff.mp hshared).1, hheld⟩)
      exact ⟨common, Split.overlap?_of_intersect? hintersect
        (Bool.and_eq_true_iff.mpr ⟨hspans, hshared⟩)
        (hplanned.sent_elements_lt hcuts hbounded hcopy hfeed)⟩
  | none =>
      -- Along an axis that both have, the corner lies in both.
      obtain ⟨axis, hboth, hapart⟩ := Window.intersect?_eq_none_iff.mp hintersect
      obtain ⟨hhere, hspan⟩ := Bool.and_eq_true_iff.mp hboth
      have hhas := (Window.spans_iff.mp ((haxes axis).symm.trans hhere)).2
      have hplace := hcovers.of_spans hhere
      have hstop := hplanned.sent_stop_le hstorage hcuts hbounded hcopy hfeed hspan hhas
      have hfits : storage.shape.get axis < wordCount := Nat.lt_of_le_of_lt
        (Shape.get_le_elements (Window.spans_iff.mp hspan).1)
        (hbounded.elements_lt hcuts.wellFormed hextent)
      have hsize := Shape.has_iff.mp (Window.spans_iff.mp hspan).2
      have hcorner : feed.sent.corner storage.shape axis = feed.sent.position.get axis :=
        if_pos (Bool.and_eq_true_iff.mpr ⟨hspan, hhas⟩)
      have hend : edge.dst.window.limit axis = edge.dst.window.stop axis :=
        (hbounded.edge hknown .input).limit hhere
      have hlength : feed.sent.stop axis =
          feed.sent.position.get axis + feed.sent.size.get axis := rfl
      rw [hend, Window.limit_eq_stop (Nat.lt_of_le_of_lt hstop hfits)] at hapart
      rw [hcorner] at hplace
      omega

end Held

theorem upstream_sameAxes (hplanned : layout.Planned split graph)
    (hcuts : split.Cuts graph task vector) (hbounded : graph.Bounded) (hcopy : copy ∈ layout.copies)
    (hfeed : feed ∈ copy.feeds) (hkeeps : feed.edge.KeepsAxes) {storage : Storage}
    (hstorage : graph.payload? feed.edge.src.task = some (.storage storage)) {edge : Edge}
    (hknown : graph.edge? edge.id = some edge) (hdst : edge.dst.task = feed.edge.src.task) :
    edge.dst.window.size.SameAxes feed.sent.size := by
  have hgraph := hcuts.wellFormed
  obtain ⟨extent, hextent, hwithin⟩ := hgraph.window_within hknown .input
  rw [Edge.endAt_input, hdst] at hextent
  obtain rfl := hgraph.extent?_storage hstorage hextent
  obtain ⟨sentExtent, hsentExtent, hsentWithin⟩ :=
    hgraph.window_within (hplanned.known hcuts hcopy hfeed).1 .output
  obtain rfl := hgraph.extent?_storage hstorage hsentExtent
  have hinside := hplanned.sent_inside hcuts hbounded hcopy hfeed hkeeps
  exact (Window.within_sameAxes hwithin).trans ((Window.within_sameAxes hsentWithin).symm.trans
    (Window.sameAxes_of_spans hinside.spans).symm)

end SplitLayout.Planned

/-! Copies stand for parts. -/

theorem SplitLayout.Planned.copy_unique (hplanned : layout.Planned split graph)
    {left right : SplitCopy} (hleft : left ∈ layout.copies) (hright : right ∈ layout.copies)
    (hpart : left.part = right.part) : left = right := by
  have hnodup : (layout.copies.map SplitCopy.part).Nodup := by
    rw [hplanned.parts]
    exact SplitPart.nodup_all
  exact List.inj_on_of_nodup_map hnodup hleft hright hpart

/-- One copy for each interval of the `r` axis yields an element of the output. -/
theorem SplitLayout.Planned.existsUnique_copy (hplanned : layout.Planned split graph)
    (hcuts : split.Cuts graph task vector) {element : Datum}
    (helement : (Window.full (Computation.output.shape split.computation.shape)).Covers element)
    {addend : Nat}
    (haddend : addend < (SplitPart.intervals split.computation.shape split.factors .r).length) :
    ∃! copy, copy ∈ layout.copies ∧ copy.part.addend = addend ∧
      (split.yield copy.part).Covers element := by
  obtain ⟨part, ⟨hpart, haddendPart, hcovers⟩, honly⟩ := SplitPart.existsUnique_covers
    (Computation.divides_of_effectiveFactors hcuts.factors) helement haddend
  have hmember : part ∈ layout.copies.map SplitCopy.part := by
    rw [hplanned.parts]
    exact hpart
  obtain ⟨copy, hcopy, rfl⟩ := List.mem_map.mp hmember
  refine ⟨copy, ⟨hcopy, haddendPart, hcovers⟩, fun other hother => ?_⟩
  obtain ⟨hotherCopy, hotherAddend, hotherCovers⟩ := hother
  exact hplanned.copy_unique hotherCopy hcopy
    (honly other.part ⟨hplanned.part_mem hotherCopy, hotherAddend, hotherCovers⟩)

theorem SplitLayout.Planned.addend_eq_zero (hplanned : layout.Planned split graph)
    (hone : split.factors.r = 1) {copy : SplitCopy} (hcopy : copy ∈ layout.copies) :
    copy.part.addend = 0 := by
  obtain ⟨-, -, -, hr⟩ := SplitPart.mem_all_iff.mp (hplanned.part_mem hcopy)
  rw [@SplitPart.intervals_of_one _ split.factors .r hone] at hr
  exact congrArg Prod.snd (List.mem_singleton.mp hr)

/-! Outputs. -/

theorem Split.Cuts.mem_outputEdges_iff (hcuts : split.Cuts graph task vector) {edge : Edge} :
    edge ∈ split.outputEdges graph ↔
      graph.edge? edge.id = some edge ∧ edge.src.task = task := by
  have hshapes := (hcuts.wellFormed.block_shaped hcuts.block).shapes .output
  rw [hcuts.payload] at hshapes
  obtain ⟨port, hport, -⟩ := List.map_eq_singleton_iff.mp hshapes
  have hfirst : graph.port? .output task 0 = some port := by
    refine TaskGraph.port?_eq_some_iff.mpr ⟨split.block, hcuts.block, ?_⟩
    rw [hport]
    rfl
  have houtputs : split.outputEdges graph = graph.edgesAt port := by
    rw [Split.outputEdges]
    change split.block.outputs = [port] at hport
    rw [hport]
    exact List.append_nil _
  rw [houtputs, hcuts.wellFormed.mem_edgesAt_iff hfirst]
  refine and_congr_right fun hknown => ⟨fun hnames => hnames.1, fun htask => ⟨htask, ?_⟩⟩
  obtain ⟨other, hother, -⟩ := hcuts.wellFormed.edge_listed hknown .output
  obtain ⟨block, hblock, hindex⟩ := TaskGraph.port?_eq_some_iff.mp hother
  rw [Edge.endAt_output, htask] at hblock
  obtain rfl := Option.some.inj (hblock.symm.trans hcuts.block)
  rw [hport] at hindex
  have hless := (List.getElem?_eq_some_iff.mp hindex).1
  rw [List.length_singleton] at hless
  exact Nat.lt_one_iff.mp hless

theorem Split.Cuts.output_within (hcuts : split.Cuts graph task vector) {edge : Edge}
    (hknown : graph.edge? edge.id = some edge) (hsrc : edge.src.task = task) :
    edge.src.window.within (Computation.output.shape split.computation.shape) = true := by
  obtain ⟨extent, hextent, hwithin⟩ := hcuts.wellFormed.window_within hknown .output
  rw [Edge.endAt_output, hsrc, hcuts.wellFormed.extent?_eq, TaskGraph.payload?, hcuts.block,
    Option.map_some, hcuts.payload, Option.bind_some] at hextent
  obtain rfl := List.mem_singleton.mp (List.mem_of_getElem? hextent)
  exact hwithin

theorem Split.yield_liesIn {part : SplitPart} (hpart : part ∈ split.parts) :
    (split.yield part).LiesIn (Computation.output.shape split.computation.shape) := by
  refine AxisMap.liesIn_window fun axis along hsource => ?_
  refine SplitPart.window_splittable hpart ?_
  cases axis <;> first | cases hsource; decide | cases hsource

theorem Split.Cuts.output_elements_lt (hcuts : split.Cuts graph task vector)
    (hbounded : graph.Bounded) :
    (Computation.output.shape split.computation.shape).elements < wordCount := by
  have hpayload := hbounded.block hcuts.block .output
  rw [hcuts.payload] at hpayload
  exact hpayload _ (List.mem_singleton_self _)

theorem Split.Cuts.yield_bounded (hcuts : split.Cuts graph task vector)
    (hbounded : graph.Bounded) {part : SplitPart} (hpart : part ∈ split.parts) :
    (split.yield part).Bounded :=
  (Split.yield_liesIn hpart).bounded (hcuts.output_elements_lt hbounded)

theorem Split.Cuts.yield_elements_lt (hcuts : split.Cuts graph task vector)
    (hbounded : graph.Bounded) {part : SplitPart} (hpart : part ∈ split.parts) :
    (split.yield part).size.elements < wordCount :=
  Nat.lt_of_le_of_lt ((hcuts.yield_bounded hbounded hpart).elements_le
    (Split.yield_liesIn hpart).within) (hcuts.output_elements_lt hbounded)

theorem Split.Cuts.yield_sameAxes (hcuts : split.Cuts graph task vector) {edge : Edge}
    (hknown : graph.edge? edge.id = some edge) (hsrc : edge.src.task = task) {part : SplitPart}
    (hpart : part ∈ split.parts) : edge.src.window.size.SameAxes (split.yield part).size :=
  (Window.within_sameAxes (hcuts.output_within hknown hsrc)).trans
    (Window.within_sameAxes (Split.yield_liesIn hpart).within).symm

theorem SplitLayout.Planned.output_copy (hplanned : layout.Planned split graph)
    {copy : SplitCopy} (hcopy : copy ∈ layout.copies) :
    copy.block.payload.shapes .output = [(split.yield copy.part).size] := by
  rw [(hplanned.payload_copy hcopy).1]
  change [Computation.output.shape _] = _
  rw [SplitPart.shape_computation]
  rfl

/-- Without an accumulator, what left the cut block can be cut to what a copy yields. -/
theorem SplitLayout.Planned.carry_output (hplanned : layout.Planned split graph)
    (haccumulator : layout.accumulator = none) {copy : SplitCopy} (hcopy : copy ∈ layout.copies)
    {edge : Edge} (hedge : edge ∈ split.outputEdges graph) {piece : Window}
    (hpiece : Split.overlap? edge.src.window (split.yield copy.part) = some piece) :
    ∃ received, Split.carry edge edge.src.window piece edge.dst.window = .ok received := by
  have houtputs := (hplanned.copies copy hcopy).outputs
  rw [haccumulator] at houtputs
  obtain ⟨connection, hconnection⟩ :=
    exists_of_mapM_ok houtputs (Split.mem_meeting_iff.mpr ⟨hedge, hpiece⟩)
  obtain ⟨received, hreceived, -⟩ := bind_eq_ok_iff.mp hconnection
  exact ⟨received, hreceived⟩

/-- Every element that left the cut block leaves some copy. -/
theorem SplitLayout.Planned.exists_output (hplanned : layout.Planned split graph)
    (hcuts : split.Cuts graph task vector) (hbounded : graph.Bounded)
    (haccumulator : layout.accumulator = none)
    {edge : Edge} (hedge : edge ∈ split.outputEdges graph) {element : Datum}
    (hcovers : edge.src.window.Covers element) :
    ∃ copy ∈ layout.copies, ∃ piece received,
      Split.overlap? edge.src.window (split.yield copy.part) = some piece ∧
        Split.carry edge edge.src.window piece edge.dst.window = .ok received ∧
          piece.Covers element := by
  obtain ⟨hknown, hsrc⟩ := hcuts.mem_outputEdges_iff.mp hedge
  obtain ⟨copy, ⟨hcopy, -, hyield⟩, -⟩ := hplanned.existsUnique_copy hcuts
    (hcovers.of_within (hbounded.edge hknown .output) (hcuts.output_within hknown hsrc))
    (SplitPart.length_intervals_pos (Computation.divides_of_effectiveFactors hcuts.factors) .r)
  have hpart := hplanned.part_mem hcopy
  have hsame := hcuts.yield_sameAxes hknown hsrc hpart
  have hsent := hbounded.edge hknown .output
  have hyielded := hcuts.yield_bounded hbounded hpart
  have hextends := Window.Extends.of_sameAxes hsame
  obtain ⟨piece, hpiece⟩ := (Split.exists_overlap?_iff hsent hyielded hextends
    (hsame.elements_pos (hcuts.wellFormed.window_elements_pos hknown .output))
    (hcuts.yield_elements_lt hbounded hpart)).mpr ⟨element, hcovers, hyield⟩
  obtain ⟨received, hreceived⟩ := hplanned.carry_output haccumulator hcopy hedge hpiece
  refine ⟨copy, hcopy, piece, received, hpiece, hreceived, ?_⟩
  exact ((Split.overlap?_eq_some hpiece).1.covers_iff hsent hyielded hextends element).mpr
    ⟨hcovers, hyield⟩

/-! The accumulator. -/

theorem Split.shape_accumulation :
    Computation.output.shape split.accumulation.shape =
      Computation.output.shape split.computation.shape := by
  apply Shape.ext_get
  intro axis
  rw [AxisMap.get_shape, AxisMap.get_shape]
  cases axis <;> rfl

theorem Split.inputs_accumulation :
    split.accumulation.inputs =
      List.replicate (Nat.max split.factors.r 1) (.activation, .elementwise) := rfl

/-- The accumulator has a port for each addend and passes on what the cut block did. -/
theorem SplitLayout.Planned.shapes_accumulator (hplanned : layout.Planned split graph)
    {block : Block} (hblock : layout.accumulator = some block) :
    block.payload.shapes .input = List.replicate (Nat.max split.factors.r 1)
        (Computation.output.shape split.computation.shape) ∧
      block.payload.shapes .output = [Computation.output.shape split.computation.shape] := by
  obtain ⟨-, hpayload, -⟩ := Block.ofComputation_ok (hplanned.accumulator block hblock)
  rw [hpayload]
  refine ⟨?_, congrArg (fun shape => [shape]) Split.shape_accumulation⟩
  change split.accumulation.inputs.map _ = _
  rw [Split.inputs_accumulation, List.map_replicate]
  exact congrArg _ Split.shape_accumulation

theorem SplitLayout.Planned.addends (hplanned : layout.Planned split graph)
    (hcuts : split.Cuts graph task vector) {block : Block}
    (hblock : layout.accumulator = some block) :
    (SplitPart.intervals split.computation.shape split.factors .r).length = split.factors.r ∧
      1 < split.factors.r := by
  have hreduces := hplanned.reduces
  rw [hblock, Option.isSome_some] at hreduces
  have hcut : 1 < split.factors.r :=
    of_decide_eq_true (Bool.and_eq_true_iff.mp hreduces.symm).1
  exact ⟨SplitPart.length_intervals (Computation.divides_of_effectiveFactors hcuts.factors) .r,
    hcut⟩

theorem SplitLayout.Planned.addend_lt (hplanned : layout.Planned split graph)
    (hcuts : split.Cuts graph task vector) {block : Block}
    (hblock : layout.accumulator = some block) {copy : SplitCopy}
    (hcopy : copy ∈ layout.copies) : copy.part.addend < split.factors.r := by
  obtain ⟨-, -, -, hr⟩ := SplitPart.mem_all_iff.mp (hplanned.part_mem hcopy)
  have hless := (List.getElem?_eq_some_iff.mp (List.mem_zipIdx_iff_getElem?.mp hr)).1
  exact hless.trans_eq (hplanned.addends hcuts hblock).1

end Feeding

end TiledPlacement

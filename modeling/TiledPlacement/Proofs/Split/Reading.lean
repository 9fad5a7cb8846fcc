import TiledPlacement.Proofs.Graph.Arithmetic
import TiledPlacement.Proofs.Split.Outcome
import TiledPlacement.Proofs.Split.Wiring

/-!
Values in a graph. Each block holds integers at the elements that it sends, and each element of an
input is the integer at the element that the edge which feeds it takes. After a split a copy reads,
over its new edges, what the cut block read, where a copy of an operand holds its part of that.
-/

namespace TiledPlacement

/-- What the blocks of a graph send, by the block, its output port and the element. -/
abbrev Content := TaskId → Nat → Datum → ℤ

/-- Where rearranged data comes from: the element of the window that is sent, for an element of the
window that is received, both counted from the origins of the windows. -/
abbrev Shuffle := List Rearrangement → Shape → Shape → Datum → Datum

/-- The element that the edge takes from its sender for an element of its receiver. -/
def Edge.taken (edge : Edge) (shuffle : Shuffle) (element : Datum) : Datum :=
  if edge.isIdentity then edge.origin element
  else edge.src.window.lift (shuffle edge.rearrange edge.src.window.size edge.dst.window.size
    (edge.dst.window.lower element))

/-- Blocks in the place of parts of others hold what these held there. -/
def Content.withParts (content : Content) (held : TaskId → Option (TaskId × Window)) : Content :=
  fun task port element =>
    match held task with
    | some (operand, part) => content operand port (part.lift element)
    | none => content task port element

theorem Content.withParts_none {content : Content} {held : TaskId → Option (TaskId × Window)}
    {task : TaskId} (hnone : held task = none) (port : Nat) (element : Datum) :
    content.withParts held task port element = content task port element := by
  rw [withParts, hnone]

theorem Content.withParts_some {content : Content} {held : TaskId → Option (TaskId × Window)}
    {task operand : TaskId} {part : Window} (hsome : held task = some (operand, part))
    (port : Nat) (element : Datum) :
    content.withParts held task port element = content operand port (part.lift element) := by
  rw [withParts, hsome]

namespace TaskGraph

variable (graph : TaskGraph) (shuffle : Shuffle) (content : Content)

def bringing? (task : TaskId) (index : Nat) (element : Datum) : Option Edge :=
  (graph.inputEdges task).find? fun edge =>
    decide (edge.dst.Names task index) && decide (edge.dst.window.Covers element)

def arriving (task : TaskId) (index : Nat) (element : Datum) : ℤ :=
  ((graph.bringing? task index element).map fun edge =>
    content edge.src.task edge.src.port (edge.taken shuffle element)).getD 0

/-- The results of the reductions, before they are shifted. -/
def unshifted : Content := fun task _ element =>
  match graph.payload? task with
  | some (.computation computation) =>
      computation.unshifted (graph.arriving shuffle content task) element
  | _ => 0

variable {graph shuffle content}

theorem WellFormed.bringing?_eq (hgraph : graph.WellFormed) {edge : Edge} {task : TaskId}
    {index : Nat} {element : Datum} (hfeeds : graph.Feeds edge task index element)
    (honly : ∀ other, graph.Feeds other task index element → other = edge) :
    graph.bringing? task index element = some edge := by
  have hmember := hgraph.mem_inputEdges_iff.mpr ⟨hfeeds.known, hfeeds.names.1⟩
  cases hfound : graph.bringing? task index element with
  | none =>
      have hmisses := List.find?_eq_none.mp hfound edge hmember
      rw [decide_eq_true hfeeds.names, decide_eq_true hfeeds.covers] at hmisses
      exact absurd rfl hmisses
  | some found =>
      have hbrings := List.find?_some hfound
      obtain ⟨hnames, hcovers⟩ := Bool.and_eq_true_iff.mp hbrings
      have hknown := (hgraph.mem_inputEdges_iff.mp (List.mem_of_find?_eq_some hfound)).1
      rw [honly found ⟨hknown, of_decide_eq_true hnames, of_decide_eq_true hcovers⟩]

theorem WellFormed.arriving_eq (hgraph : graph.WellFormed) {edge : Edge} {task : TaskId}
    {index : Nat} {element : Datum} (hfeeds : graph.Feeds edge task index element)
    (honly : ∀ other, graph.Feeds other task index element → other = edge) :
    graph.arriving shuffle content task index element =
      content edge.src.task edge.src.port (edge.taken shuffle element) := by
  rw [arriving, hgraph.bringing?_eq hfeeds honly]
  rfl

end TaskGraph

/-! Copies. -/

/-- The operand that the block is a copy of, and the part that it holds. -/
def SplitRole.held? : SplitRole → Option (TaskId × Window)
  | .operand _ feed _ => some (feed.edge.src.task, feed.sent)
  | _ => none

def SplitLayout.held (layout : SplitLayout) (task : TaskId) : Option (TaskId × Window) :=
  (layout.roles.find? fun role => decide (role.block.id = task)).bind SplitRole.held?

theorem SplitLayout.held_eq_none {layout : SplitLayout} {task : TaskId}
    (hother : ∀ role ∈ layout.roles, role.block.id ≠ task) : layout.held task = none := by
  have hnone : (layout.roles.find? fun role => decide (role.block.id = task)) = none :=
    List.find?_eq_none.mpr fun role hrole hsame => hother role hrole (of_decide_eq_true hsame)
  rw [held, hnone]
  rfl

theorem SplitLayout.exists_role_of_held {layout : SplitLayout} {task : TaskId}
    {part : TaskId × Window} (hheld : layout.held task = some part) :
    ∃ role ∈ layout.roles, role.block.id = task ∧ role.held? = some part := by
  obtain ⟨role, hfound, hpart⟩ := Option.bind_eq_some_iff.mp hheld
  have hsame := List.find?_some hfound
  exact ⟨role, List.mem_of_find?_eq_some hfound, of_decide_eq_true hsame, hpart⟩

namespace Split.Enacts

variable {split : Split} {graph left : TaskGraph} {task : TaskId} {vector : SplitVector}
  {plan : SplitPlan} {layout : SplitLayout} {after : IdSource}

theorem held_role (henacts : split.Enacts graph task vector plan layout after left)
    {role : SplitRole} (hrole : role ∈ layout.roles) :
    layout.held role.block.id = role.held? := by
  rw [SplitLayout.held]
  cases hfound : layout.roles.find? fun other => decide (other.block.id = role.block.id) with
  | none => exact absurd (decide_eq_true rfl) (List.find?_eq_none.mp hfound role hrole)
  | some other =>
      have hsame := List.find?_some hfound
      have hother := List.mem_of_find?_eq_some hfound
      rw [henacts.plans.role_unique hother hrole (of_decide_eq_true hsame)]
      rfl

/-- What a copy takes, from the sender or out of the part that a copy of it holds, is what the edge
into the cut block took for the same element. -/
theorem taken_delivery (henacts : split.Enacts graph task vector plan layout after left)
    (hbounded : graph.Bounded)
    (hkeeps : ∀ edge, graph.edge? edge.id = some edge → edge.dst.task = task → edge.KeepsAxes)
    (shuffle : Shuffle) {copy : SplitCopy} (hcopy : copy ∈ layout.copies) {feed : Feed}
    (hfeed : feed ∈ copy.feeds) {element : Datum}
    (hcovers : (feed.required.localize feed.piece).Covers element) {made : Edge}
    (hmade : made.connection = feed.delivery copy.block.id) :
    (if feed.operand.isSome then feed.sent.lift (made.taken shuffle element)
      else made.taken shuffle element) =
        feed.edge.taken shuffle (feed.required.lift element) := by
  have hcuts := henacts.cuts
  have hplanned := henacts.plans.planned
  have hsent := ((hplanned.copies copy hcopy).feeds feed hfeed).sent
  obtain ⟨hhere, hrequired, -⟩ := hplanned.piece_inside hcuts hcopy hfeed
  obtain ⟨hknown, hdst, -⟩ := hplanned.known hcuts hcopy hfeed
  have hsize := (hkeeps feed.edge hknown hdst).sameSize (hcuts.wellFormed.edge_fits hknown)
  have hidentical : made.isIdentity = feed.edge.isIdentity := by
    rw [Edge.isIdentity, hmade]
    rfl
  have hreceived : made.dst.window = feed.required.localize feed.piece :=
    congrArg (·.dst.window) hmade
  have hsrc : made.src = feed.src := congrArg Connection.src hmade
  have hrearrange : made.rearrange = feed.edge.rearrange :=
    (congrArg Connection.rearrange hmade).trans rfl
  rw [Edge.taken, Edge.taken, hidentical, Edge.origin, Edge.origin, hsrc, hreceived, hrearrange]
  unfold Feed.src
  cases hkind : feed.edge.isIdentity with
  | true =>
      have hcarried := Split.carry_of_identity hkind hsent
      have hsource := hbounded.edge hknown .output
      rw [if_pos rfl, if_pos rfl, hcarried]
      cases feed.operand with
      | none => exact Window.send_localize_project hsource (hsize hkind) hhere hrequired hcovers
      | some operand => exact Window.lift_send_full hsource (hsize hkind) hhere hrequired hcovers
  | false =>
      obtain ⟨hwhole, hcarried⟩ := Split.carry_of_rearranged hkind hsent
      rw [if_neg Bool.false_ne_true, if_neg Bool.false_ne_true, hcarried,
        Window.lower_localize hrequired hcovers, hwhole]
      cases feed.operand with
      | none => rfl
      | some operand => exact Window.lift_lift_full _ _

/-- Over its new edges a copy reads what the cut block read there. -/
theorem arriving_copy (henacts : split.Enacts graph task vector plan layout after left)
    (hvalid : graph.Valid)
    (hkeeps : ∀ edge, graph.edge? edge.id = some edge → edge.dst.task = task → edge.KeepsAxes)
    (shuffle : Shuffle) (content : Content) {copy : SplitCopy} (hcopy : copy ∈ layout.copies)
    {port : Nat} {required : Window} (hreads : copy.Reads split port required) {element : Datum}
    (hfull : (Window.full required.size).Covers element) :
    left.arriving shuffle (content.withParts layout.held) copy.block.id port element =
      graph.arriving shuffle content task port (required.lift element) := by
  have hcuts := henacts.cuts
  have hplanned := henacts.plans.planned
  obtain ⟨feed, hfeed, rfl, hfeeds, hcovers, made, hmade, hmadeFeeds, honly⟩ :=
    henacts.fedBy_delivery hvalid hcopy hreads hfull
  rw [henacts.replaced.wellFormed.arriving_eq hmadeFeeds honly,
    hcuts.wellFormed.arriving_eq hfeeds
      fun other hother => hcuts.wellFormed.feeds_unique hvalid hother hfeeds]
  have hsource := henacts.taken_delivery hvalid.bounded hkeeps shuffle hcopy hfeed hcovers hmade
  have hsrc : made.src = feed.src := congrArg Connection.src hmade
  unfold Feed.src at hsrc
  cases hoperand : feed.operand with
  | none =>
      rw [hoperand] at hsource hsrc
      dsimp only at hsrc
      have hold : layout.held feed.edge.src.task = none :=
        SplitLayout.held_eq_none fun role hrole =>
          henacts.plans.new_ne_end hcuts.wellFormed hrole hfeeds.known .output
      rw [hsrc]
      exact (Content.withParts_none hold _ _).trans (congrArg _ hsource)
  | some operand =>
      rw [hoperand] at hsource hsrc
      dsimp only at hsrc
      have hheld := henacts.held_role (SplitLayout.operand_mem_roles hcopy hfeed hoperand)
      rw [hsrc]
      exact (Content.withParts_some hheld _ _).trans (congrArg _ hsource)

end Split.Enacts

end TiledPlacement

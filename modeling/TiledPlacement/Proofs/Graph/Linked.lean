import TiledPlacement.Proofs.Graph.Reachable
import TiledPlacement.Proofs.Graph.Valid

/-!
Cross-links of a graph. Whatever commands led to it and whichever of them failed, blocks and edges
keep their numbers apart, and an edge and the ports that list it tell the same. A window lies in
its tensor unless its end is too large for a word.
-/

namespace TiledPlacement

theorem IdSource.Covers.lt_next {ids : IdSource} {raw : Nat} (hcovers : ids.Covers raw)
    (hword : raw < largestId) : raw < ids.next := by
  rcases hcovers with hbelow | hspent
  · exact hbelow
  · exact Nat.lt_of_lt_of_le hword hspent

namespace TaskGraph

/-- Numbers are used once and below the next one, and an edge is listed, once, by the port that it
names on either side and by no other, with room for its window there if the ends of the window are
words. -/
structure Linked (graph : TaskGraph) : Prop where
  ids_apart : ∀ raw, ¬((∃ block, graph.block? ⟨raw⟩ = some block) ∧
    ∃ edge, graph.edge? ⟨raw⟩ = some edge)
  block_below : ∀ {task block}, graph.block? task = some block →
    block.id = task ∧ task.raw < graph.ids.next
  edge_below : ∀ {id edge}, graph.edge? id = some edge → edge.id = id ∧ id.raw < graph.ids.next
  listed_iff : ∀ {edge side task index}, graph.edge? edge.id = some edge →
    ((∃ port, graph.port? side task index = some port ∧ edge.id ∈ port.edges) ↔
      (edge.endAt side).Names task index)
  known : ∀ {side task index port id}, graph.port? side task index = some port →
    id ∈ port.edges → ∃ edge, graph.edge? id = some edge
  once : ∀ {side task index port}, graph.port? side task index = some port → port.edges.Nodup
  within : ∀ {edge side}, graph.edge? edge.id = some edge → (edge.endAt side).window.Bounded →
    ∃ extent, graph.extent? side (edge.endAt side).task (edge.endAt side).port = some extent ∧
      (edge.endAt side).window.LiesIn extent

section Linked

variable {graph : TaskGraph}

theorem WellFormed.listed_iff (hgraph : graph.WellFormed) {edge : Edge} {side : PortSide}
    {task : TaskId} {index : Nat} (hknown : graph.edge? edge.id = some edge) :
    (∃ port, graph.port? side task index = some port ∧ edge.id ∈ port.edges) ↔
      (edge.endAt side).Names task index := by
  constructor
  · intro hlisted
    obtain ⟨port, hport, hmember⟩ := hlisted
    obtain ⟨found, hfound, hnames⟩ := hgraph.listing hport hmember
    obtain rfl := Option.some.inj (hknown.symm.trans hfound)
    exact hnames
  · intro hnames
    obtain ⟨port, hport, hmember, -⟩ := hgraph.edge_listed hknown side
    obtain ⟨rfl, rfl⟩ := hnames
    exact ⟨port, hport, hmember⟩

theorem WellFormed.linked (hgraph : graph.WellFormed)
    (hwords : ∀ raw, graph.usesId raw = true → raw < largestId) : graph.Linked where
  ids_apart := by
    intro raw hboth
    obtain ⟨⟨block, hblock⟩, edge, hedge⟩ := hboth
    exact hgraph.ids_apart hblock hedge
  block_below := by
    intro task block hblock
    have hword := hwords task.raw (usesId_iff.mpr (Or.inl ⟨block, hblock⟩))
    exact ⟨hgraph.block_id hblock, (hgraph.block_covered hblock).lt_next hword⟩
  edge_below := by
    intro id edge hedge
    have hword := hwords id.raw (usesId_iff.mpr (Or.inr ⟨edge, hedge⟩))
    exact ⟨hgraph.edge_id hedge, (hgraph.edge_covered hedge).lt_next hword⟩
  listed_iff hknown := hgraph.listed_iff hknown
  known hport hmember := by
    obtain ⟨edge, hedge, -⟩ := hgraph.listing hport hmember
    exact ⟨edge, hedge⟩
  once hport := hgraph.nodup hport
  within hknown hbounded := by
    obtain ⟨extent, hextent, hwithin⟩ := hgraph.window_within hknown _
    exact ⟨extent, hextent, hbounded.liesIn hwithin⟩

/-- After any history in which numbers stay below the largest word, the graph is linked, and the
checks of its ids and of its connections pass. -/
theorem Reachable.checks_pass (hreachable : graph.Reachable)
    (hwords : ∀ raw, graph.usesId raw = true → raw < largestId) :
    graph.checkIds = .ok () ∧ graph.checkConnections = .ok () ∧ graph.Linked := by
  obtain ⟨-, hgraph⟩ := hreachable.wellFormed
  have hlinked := hgraph.linked hwords
  refine ⟨?_, hgraph.checkConnections_ok, hlinked⟩
  apply hgraph.checkIds_ok_iff.mpr
  constructor
  · exact fun task block hblock => (hlinked.block_below hblock).2
  · exact fun id edge hedge => (hlinked.edge_below hedge).2

end Linked

/-- Four channels that are cut in two between an input and an output. One half loses its feed, a
block is asked to feed itself, and the source of ids starts over. -/
def rewiredChannels : TaskGraph :=
  (empty 5).runAll [
    .addStorage ⟨.input, .vector 4, .int8⟩,
    .addComputation ⟨.vectorShift 0, .vector 4, .int8, .absent⟩,
    .addStorage ⟨.output, .vector 4, .int8⟩,
    .connectWhole ⟨5⟩ ⟨6⟩ 0,
    .connectWhole ⟨6⟩ ⟨7⟩ 0,
    .split ⟨6⟩ ⟨1, 1, 2, 1⟩,
    .removeEdge ⟨14⟩,
    .connectWhole ⟨10⟩ ⟨10⟩ 0,
    .reseed]

theorem checks_pass_rewiredChannels :
    rewiredChannels.edgeIds = [⟨15⟩, ⟨16⟩, ⟨17⟩] ∧ rewiredChannels.checkIds = .ok () ∧
      rewiredChannels.checkConnections = .ok () ∧ rewiredChannels.Linked := by
  have hreachable : rewiredChannels.Reachable :=
    (Reachable.empty (by decide)).runAll (by simp [Command.Admits]) (by decide +kernel)
  have hnext : rewiredChannels.ids.next = 18 := by decide +kernel
  obtain ⟨-, hgraph⟩ := hreachable.wellFormed
  refine ⟨by decide +kernel, hreachable.checks_pass fun raw hused => ?_⟩
  have hcovers : rewiredChannels.ids.Covers raw := by
    rcases usesId_iff.mp hused with ⟨_, hblock⟩ | ⟨_, hedge⟩
    · exact hgraph.block_covered hblock
    · exact hgraph.edge_covered hedge
  rw [IdSource.Covers, hnext] at hcovers
  unfold largestId at hcovers ⊢
  omega

/-- One channel, sent past the last that a word can count. -/
def sentPastTheEnd : TaskGraph :=
  (empty 0).runAll [
    .addStorage ⟨.input, .vector 8, .int8⟩,
    .addStorage ⟨.output, .vector 8, .int8⟩,
    .connect ⟨⟨⟨0⟩, 0, ⟨.zero, .vector 1⟩⟩,
      ⟨⟨1⟩, 0, ⟨.vector (2 ^ 64 - 1), .vector 1⟩⟩, []⟩]

/-- An end that wraps around to zero passes for one within the tensor. -/
theorem checks_pass_outside :
    (sentPastTheEnd.Reachable ∧ sentPastTheEnd.ids.next ≤ largestId) ∧
      sentPastTheEnd.checkConnections = .ok () ∧
        ∃ edge extent, sentPastTheEnd.edge? edge.id = some edge ∧
          sentPastTheEnd.extent? .input edge.dst.task edge.dst.port = some extent ∧
            ¬edge.dst.window.LiesIn extent := by
  refine ⟨⟨(Reachable.empty (Nat.zero_le _)).runAll (by simp [Command.Admits])
    (by decide +kernel), by decide +kernel⟩, by decide +kernel, ?_⟩
  exact ⟨⟨⟨2⟩, ⟨⟨0⟩, 0, ⟨.zero, .vector 1⟩⟩, ⟨⟨1⟩, 0, ⟨.vector (2 ^ 64 - 1), .vector 1⟩⟩, []⟩,
    .vector 8, by decide +kernel, by decide +kernel, by decide +kernel⟩

end TaskGraph

end TiledPlacement

import TiledPlacement.Proofs.Graph.Removal

/-!
Edges at a port, neighbours and operands of a block, read off the edges of a well-formed graph.
-/

namespace TiledPlacement

private theorem values_eq {κ ν : Type} {order : κ → κ → Ordering} [Std.TransCmp order]
    (map : Std.ExtTreeMap κ ν order) : map.values = map.toList.map Prod.snd := by
  obtain ⟨inner⟩ := map
  change inner.values = (Std.ExtDTreeMap.Const.toList inner).map Prod.snd
  induction inner with
  | mk tree =>
      change tree.inner.values =
        (Std.DTreeMap.Internal.Impl.Const.toList tree.inner).map Prod.snd
      rw [Std.DTreeMap.Internal.Impl.values_eq_map_snd,
        Std.DTreeMap.Internal.Impl.Const.toList_eq_toListModel_map, List.map_map]
      rfl

theorem mem_values_iff {κ ν : Type} [Ord κ] [Std.TransOrd κ] [Std.LawfulEqOrd κ]
    {map : Std.ExtTreeMap κ ν} {value : ν} :
    value ∈ map.values ↔ ∃ key : κ, map[key]? = some value := by
  rw [values_eq, List.mem_map]
  constructor
  · intro hmember
    obtain ⟨⟨key, found⟩, hentry, rfl⟩ := hmember
    exact ⟨key, Std.ExtTreeMap.mem_toList_iff_getElem?_eq_some.mp hentry⟩
  · intro hkey
    obtain ⟨key, hentry⟩ := hkey
    exact ⟨(key, value), Std.ExtTreeMap.mem_toList_iff_getElem?_eq_some.mpr hentry, rfl⟩

/-- A map that gives some tasks one value. -/
theorem getElem?_ofList_map {ν : Type} {tasks : List TaskId} (hnodup : tasks.Nodup) (value : ν)
    (task : TaskId) :
    (Std.ExtTreeMap.ofList (tasks.map fun task => (task, value)) compare)[task]? =
      if task ∈ tasks then some value else none := by
  split
  case isTrue hmember =>
    refine Std.ExtTreeMap.getElem?_ofList_of_mem Std.ReflCmp.compare_self ?_
      (List.mem_map_of_mem hmember)
    refine List.pairwise_map.mpr (hnodup.imp fun hdiffer hequal => ?_)
    exact hdiffer (Std.LawfulEqCmp.compare_eq_iff_eq.mp hequal)
  case isFalse hother =>
    refine Std.ExtTreeMap.getElem?_ofList_of_contains_eq_false ?_
    rw [List.map_map, ← Bool.not_eq_true, List.contains_iff_mem]
    intro hmember
    obtain ⟨found, hfound, rfl⟩ := List.mem_map.mp hmember
    exact hother hfound

namespace TaskGraph

theorem mem_taskIds_iff {graph : TaskGraph} {task : TaskId} :
    task ∈ graph.taskIds ↔ ∃ block, graph.block? task = some block := by
  rw [taskIds, Std.ExtTreeMap.mem_keys, ← Std.ExtTreeMap.isSome_getElem?_iff_mem,
    Option.isSome_iff_exists]
  exact Iff.rfl

theorem nodup_taskIds (graph : TaskGraph) : graph.taskIds.Nodup := Std.ExtTreeMap.nodup_keys

theorem nodup_toList (tasks : TaskSet) : tasks.toList.Nodup :=
  Std.ExtTreeSet.distinct_toList.imp fun hdistinct hequal =>
    hdistinct (Std.LawfulEqCmp.compare_eq_iff_eq.mpr hequal)

private theorem eq_singleton_of_mem_iff {tasks : List TaskId} {task : TaskId}
    (hnodup : tasks.Nodup) (hmember : ∀ other, other ∈ tasks ↔ other = task) :
    tasks = [task] := by
  cases tasks with
  | nil => exact nomatch (hmember task).mpr rfl
  | cons first rest =>
      obtain rfl := (hmember first).mp List.mem_cons_self
      cases rest with
      | nil => rfl
      | cons second rest =>
          have hsecond := (hmember second).mp (List.mem_cons_of_mem _ List.mem_cons_self)
          rw [hsecond] at hnodup
          exact absurd List.mem_cons_self (List.nodup_cons.mp hnodup).1

/-- Whether all edges that leave the storage block `task`, at least one, go to `owner`. -/
def feedsOnly (graph : TaskGraph) (task owner : TaskId) : Bool :=
  graph.isStorage task && decide ((graph.consumers task).toList = [owner])

/-- The exclusive storage operands of a computation, ascending. -/
def operands (graph : TaskGraph) (task : TaskId) : List TaskId :=
  (graph.producers task).toList.filter fun producer => graph.feedsOnly producer task

theorem isStorage_iff {graph : TaskGraph} {task : TaskId} :
    graph.isStorage task = true ↔ ∃ storage, graph.payload? task = some (.storage storage) := by
  simp only [isStorage, Option.any_eq_true, payload?_eq_some_iff]
  constructor
  · intro hblock
    obtain ⟨block, hblock, hstorage⟩ := hblock
    cases hpayload : block.payload with
    | storage storage => exact ⟨storage, block, hblock, hpayload⟩
    | computation computation =>
        simp [Block.isComputation, Block.computation?, hpayload] at hstorage
  · intro hstorage
    obtain ⟨storage, block, hblock, hpayload⟩ := hstorage
    exact ⟨block, hblock, by simp [Block.isComputation, Block.computation?, hpayload]⟩

theorem isComputation_iff {graph : TaskGraph} {task : TaskId} :
    graph.isComputation task = true ↔
      ∃ computation, graph.payload? task = some (.computation computation) := by
  simp only [isComputation, Option.any_eq_true, payload?_eq_some_iff]
  constructor
  · intro hblock
    obtain ⟨block, hblock, hcomputation⟩ := hblock
    cases hpayload : block.payload with
    | storage storage =>
        simp [Block.isComputation, Block.computation?, hpayload] at hcomputation
    | computation computation => exact ⟨computation, block, hblock, hpayload⟩
  · intro hcomputation
    obtain ⟨computation, block, hblock, hpayload⟩ := hcomputation
    exact ⟨block, hblock, by simp [Block.isComputation, Block.computation?, hpayload]⟩

namespace WellFormed

variable {graph : TaskGraph}

theorem mem_edgesAt_iff (hgraph : graph.WellFormed) {side : PortSide} {task : TaskId}
    {index : Nat} {port : Port} (hport : graph.port? side task index = some port) {edge : Edge} :
    edge ∈ graph.edgesAt port ↔
      graph.edge? edge.id = some edge ∧ (edge.endAt side).Names task index := by
  rw [edgesAt, List.mem_filterMap]
  constructor
  · intro hmember
    obtain ⟨id, hid, hedge⟩ := hmember
    obtain rfl := hgraph.edge_id hedge
    obtain ⟨other, hother, hnames⟩ := hgraph.listing hport hid
    obtain rfl := Option.some.inj (hother.symm.trans hedge)
    exact ⟨hedge, hnames⟩
  · intro hboth
    obtain ⟨hedge, htask, hindex⟩ := hboth
    obtain ⟨found, hfound, hlisted, -⟩ := hgraph.edge_listed hedge side
    rw [htask, hindex] at hfound
    obtain rfl := Option.some.inj (hfound.symm.trans hport)
    exact ⟨edge.id, hlisted, hedge⟩

theorem nodup_edgesAt (hgraph : graph.WellFormed) {side : PortSide} {task : TaskId}
    {index : Nat} {port : Port} (hport : graph.port? side task index = some port) :
    (graph.edgesAt port).Nodup := by
  rw [edgesAt]
  refine (List.Pairwise.filterMap graph.edge? ?_ (hgraph.nodup hport))
  intro left right hdiffer edge hedge other hother hsame
  change graph.edge? left = some edge at hedge
  change graph.edge? right = some other at hother
  subst hsame
  exact hdiffer ((hgraph.edge_id hedge).symm.trans (hgraph.edge_id hother))

private theorem mem_listed_iff (hgraph : graph.WellFormed) {side : PortSide} {task : TaskId}
    {block : Block} (hblock : graph.block? task = some block) {edge : Edge} :
    edge ∈ ((block.ports side).flatMap Port.edges).filterMap graph.edge? ↔
      graph.edge? edge.id = some edge ∧ (edge.endAt side).task = task := by
  rw [List.mem_filterMap]
  constructor
  · intro hmember
    obtain ⟨id, hid, hedge⟩ := hmember
    obtain rfl := hgraph.edge_id hedge
    obtain ⟨port, hport, hlisted⟩ := List.mem_flatMap.mp hid
    obtain ⟨index, hindex⟩ := List.mem_iff_getElem?.mp hport
    obtain ⟨other, hother, hnames⟩ :=
      hgraph.listing (port?_eq_some_iff.mpr ⟨block, hblock, hindex⟩) hlisted
    obtain rfl := Option.some.inj (hother.symm.trans hedge)
    exact ⟨hedge, hnames.1⟩
  · intro hboth
    obtain ⟨hedge, htask⟩ := hboth
    obtain ⟨port, hport, hlisted, -⟩ := hgraph.edge_listed hedge side
    rw [htask] at hport
    obtain ⟨other, hother, hindex⟩ := port?_eq_some_iff.mp hport
    obtain rfl := Option.some.inj (hother.symm.trans hblock)
    exact ⟨edge.id, List.mem_flatMap.mpr ⟨port, List.mem_of_getElem? hindex, hlisted⟩, hedge⟩

private theorem nodup_listed (hgraph : graph.WellFormed) {side : PortSide} {task : TaskId}
    {block : Block} (hblock : graph.block? task = some block) :
    (((block.ports side).flatMap Port.edges).filterMap graph.edge?).Nodup := by
  have hport : ∀ {index port}, (block.ports side)[index]? = some port →
      graph.port? side task index = some port :=
    fun hindex => port?_eq_some_iff.mpr ⟨block, hblock, hindex⟩
  have hids : ((block.ports side).flatMap Port.edges).Nodup := by
    refine List.pairwise_flatMap.mpr ⟨fun port hmember => ?_, List.pairwise_iff_getElem.mpr ?_⟩
    · obtain ⟨index, hindex⟩ := List.mem_iff_getElem?.mp hmember
      exact hgraph.nodup (hport hindex)
    · -- An edge names one port of each side, so that no two ports list it.
      intro first second hfirst hsecond hless id hlisted _ hother hequal
      subst hequal
      obtain ⟨edge, hedge, hnames⟩ :=
        hgraph.listing (hport (List.getElem?_eq_getElem hfirst)) hlisted
      obtain ⟨same, hsame, hagain⟩ :=
        hgraph.listing (hport (List.getElem?_eq_getElem hsecond)) hother
      obtain rfl := Option.some.inj (hedge.symm.trans hsame)
      exact Nat.ne_of_lt hless (hnames.2.symm.trans hagain.2)
  apply List.Pairwise.filterMap graph.edge? _ hids
  intro left right hdiffer edge hedge other hother hsame
  subst hsame
  exact hdiffer ((hgraph.edge_id hedge).symm.trans (hgraph.edge_id hother))

theorem end_known (hgraph : graph.WellFormed) {edge : Edge}
    (hedge : graph.edge? edge.id = some edge) (side : PortSide) :
    ∃ block, graph.block? (edge.endAt side).task = some block := by
  obtain ⟨port, hport, -⟩ := hgraph.edge_listed hedge side
  obtain ⟨block, hblock, -⟩ := port?_eq_some_iff.mp hport
  exact ⟨block, hblock⟩

theorem mem_edges_iff (hgraph : graph.WellFormed) {edge : Edge} :
    edge ∈ graph.edges.values ↔ graph.edge? edge.id = some edge := by
  rw [mem_values_iff]
  constructor
  · intro hedge
    obtain ⟨id, hedge⟩ := hedge
    rw [hgraph.edge_id hedge]
    exact hedge
  · exact fun hedge => ⟨edge.id, hedge⟩

theorem nodup_edges (hgraph : graph.WellFormed) : graph.edges.values.Nodup := by
  rw [values_eq]
  refine List.pairwise_map.mpr (Std.ExtTreeMap.distinct_keys_toList.imp_of_mem ?_)
  intro earlier later hearlier hlater hdistinct hsame
  have hfirst := hgraph.edge_id (Std.ExtTreeMap.mem_toList_iff_getElem?_eq_some.mp hearlier)
  have hsecond := hgraph.edge_id (Std.ExtTreeMap.mem_toList_iff_getElem?_eq_some.mp hlater)
  refine hdistinct (Std.LawfulEqCmp.compare_eq_iff_eq.mpr ?_)
  rw [← hfirst, ← hsecond, hsame]

theorem mem_inputEdges_iff (hgraph : graph.WellFormed) {task : TaskId} {edge : Edge} :
    edge ∈ graph.inputEdges task ↔ graph.edge? edge.id = some edge ∧ edge.dst.task = task := by
  unfold inputEdges
  cases hblock : graph.block? task with
  | some block => exact @mem_listed_iff _ hgraph .input _ _ hblock _
  | none =>
      refine ⟨fun hmember => (nomatch hmember), fun hboth => ?_⟩
      obtain ⟨hedge, rfl⟩ := hboth
      obtain ⟨block, hknown⟩ := hgraph.end_known hedge .input
      exact nomatch hblock.symm.trans hknown

theorem mem_outputEdges_iff (hgraph : graph.WellFormed) {task : TaskId} {edge : Edge} :
    edge ∈ graph.outputEdges task ↔ graph.edge? edge.id = some edge ∧ edge.src.task = task := by
  unfold outputEdges
  cases hblock : graph.block? task with
  | some block => exact @mem_listed_iff _ hgraph .output _ _ hblock _
  | none =>
      refine ⟨fun hmember => (nomatch hmember), fun hboth => ?_⟩
      obtain ⟨hedge, rfl⟩ := hboth
      obtain ⟨block, hknown⟩ := hgraph.end_known hedge .output
      exact nomatch hblock.symm.trans hknown

theorem nodup_inputEdges (hgraph : graph.WellFormed) (task : TaskId) :
    (graph.inputEdges task).Nodup := by
  unfold inputEdges
  cases hblock : graph.block? task with
  | some block => exact @nodup_listed _ hgraph .input _ _ hblock
  | none => exact List.nodup_nil

theorem nodup_outputEdges (hgraph : graph.WellFormed) (task : TaskId) :
    (graph.outputEdges task).Nodup := by
  unfold outputEdges
  cases hblock : graph.block? task with
  | some block => exact @nodup_listed _ hgraph .output _ _ hblock
  | none => exact List.nodup_nil

theorem mem_producers_iff (hgraph : graph.WellFormed) {task producer : TaskId} :
    producer ∈ (graph.producers task).toList ↔
      ∃ edge, graph.edge? edge.id = some edge ∧ edge.src.task = producer ∧
        edge.dst.task = task := by
  rw [producers, Std.ExtTreeSet.mem_toList, Std.ExtTreeSet.mem_ofList, List.contains_iff_mem,
    List.mem_map]
  constructor
  · intro hmember
    obtain ⟨edge, hedge, hsrc⟩ := hmember
    obtain ⟨hknown, hdst⟩ := hgraph.mem_inputEdges_iff.mp hedge
    exact ⟨edge, hknown, hsrc, hdst⟩
  · intro hmember
    obtain ⟨edge, hknown, hsrc, hdst⟩ := hmember
    exact ⟨edge, hgraph.mem_inputEdges_iff.mpr ⟨hknown, hdst⟩, hsrc⟩

theorem mem_consumers_iff (hgraph : graph.WellFormed) {task consumer : TaskId} :
    consumer ∈ (graph.consumers task).toList ↔
      ∃ edge, graph.edge? edge.id = some edge ∧ edge.src.task = task ∧
        edge.dst.task = consumer := by
  rw [consumers, Std.ExtTreeSet.mem_toList, Std.ExtTreeSet.mem_ofList, List.contains_iff_mem,
    List.mem_map]
  constructor
  · intro hmember
    obtain ⟨edge, hedge, hdst⟩ := hmember
    obtain ⟨hknown, hsrc⟩ := hgraph.mem_outputEdges_iff.mp hedge
    exact ⟨edge, hknown, hsrc, hdst⟩
  · intro hmember
    obtain ⟨edge, hknown, hsrc, hdst⟩ := hmember
    exact ⟨edge, hgraph.mem_outputEdges_iff.mpr ⟨hknown, hsrc⟩, hdst⟩

theorem nodup_operands (graph : TaskGraph) (task : TaskId) : (graph.operands task).Nodup :=
  (nodup_toList _).filter _

/-- The operands of a block are the storage blocks that feed it and nothing else. -/
theorem mem_operands_iff (hgraph : graph.WellFormed) {task operand : TaskId} :
    operand ∈ graph.operands task ↔
      (∃ storage, graph.payload? operand = some (.storage storage)) ∧
        (∃ edge, graph.edge? edge.id = some edge ∧ edge.src.task = operand ∧
          edge.dst.task = task) ∧
        ∀ edge, graph.edge? edge.id = some edge → edge.src.task = operand →
          edge.dst.task = task := by
  rw [operands, List.mem_filter, feedsOnly, Bool.and_eq_true, isStorage_iff, decide_eq_true_eq,
    hgraph.mem_producers_iff]
  constructor
  · intro hmember
    obtain ⟨hfeeds, hstorage, honly⟩ := hmember
    refine ⟨hstorage, hfeeds, fun edge hedge hsrc => ?_⟩
    have hconsumer := hgraph.mem_consumers_iff.mpr ⟨edge, hedge, hsrc, rfl⟩
    rw [honly] at hconsumer
    exact List.mem_singleton.mp hconsumer
  · intro hmember
    obtain ⟨hstorage, hfeeds, honly⟩ := hmember
    refine ⟨hfeeds, hstorage, ?_⟩
    have hiff : ∀ consumer, consumer ∈ (graph.consumers operand).toList ↔ consumer = task := by
      intro consumer
      rw [hgraph.mem_consumers_iff]
      constructor
      · intro hconsumer
        obtain ⟨edge, hedge, hsrc, hdst⟩ := hconsumer
        exact hdst.symm.trans (honly edge hedge hsrc)
      · intro hconsumer
        obtain ⟨edge, hedge, hsrc, hdst⟩ := hfeeds
        exact ⟨edge, hedge, hsrc, hdst.trans hconsumer.symm⟩
    exact eq_singleton_of_mem_iff (nodup_toList _) hiff

end WellFormed

end TaskGraph

end TiledPlacement

import TiledPlacement.Proofs.Hardware.Usable
import TiledPlacement.Proofs.Placement.Routing
import TiledPlacement.Transfer.Run

/-!
Transfers of a placement. Each route leads along links of the hierarchy, all of which have some
bandwidth on a usable accelerator, so that the transfer of each routed edge can be queued.
-/

namespace TiledPlacement

theorem Coordinate.lt_of_firstDifferenceIn? {here there : List Position} {level : Nat}
    (hlength : here.length = there.length) (hfirst : firstDifferenceIn? here there = some level) :
    level < here.length := by
  induction here generalizing there level with
  | nil =>
      obtain rfl := List.length_eq_zero_iff.mp hlength.symm
      cases hfirst
  | cons position rest induction =>
      cases there with
      | nil => cases hlength
      | cons other others =>
          unfold firstDifferenceIn? at hfirst
          split at hfirst
          case isTrue =>
            obtain ⟨inner, hinner, rfl⟩ := Option.map_eq_some_iff.mp hfirst
            exact Nat.succ_lt_succ (induction (Nat.succ.inj hlength) hinner)
          case isFalse =>
            cases hfirst
            exact Nat.succ_pos _

namespace Route

theorem of_mem_hops {relation : Coordinate → Coordinate → Prop} {path : List Coordinate}
    {hop : Hop} (hchain : path.IsChain relation) (hhop : hop ∈ hops path) :
    hop.source ∈ path ∧ hop.target ∈ path ∧ relation hop.source hop.target := by
  induction path with
  | nil => cases hhop
  | cons first rest induction =>
      cases rest with
      | nil => cases hhop
      | cons second rest =>
          obtain ⟨hrelated, hchain⟩ := List.isChain_cons_cons.mp hchain
          rcases List.mem_cons.mp hhop with rfl | hlater
          · exact ⟨List.mem_cons_self, List.mem_cons_of_mem _ List.mem_cons_self, hrelated⟩
          · obtain ⟨hsource, htarget, hnext⟩ := induction hchain hlater
            exact ⟨List.mem_cons_of_mem _ hsource, List.mem_cons_of_mem _ htarget, hnext⟩

/-- A hop of an accepted path crosses a level of the hierarchy. -/
theorem exists_level_of_check {hardware : Hardware} {path : List Coordinate} {hop : Hop}
    (hcheck : check hardware path = .ok ()) (hhop : hop ∈ hops path) :
    ∃ level < hardware.levels.length, hop.level? = some level := by
  obtain ⟨hcolumns, hchain⟩ := check_eq_ok_iff.mp hcheck
  obtain ⟨hsource, htarget, hfree⟩ := of_mem_hops hchain hhop
  obtain ⟨level, hlevel, -⟩ := hopFault?_eq_none_iff_isUnitStep.mp hfree
  have hlength := (hcolumns _ hsource).length
  refine ⟨level, ?_, hlevel⟩
  rw [← hlength]
  exact Coordinate.lt_of_firstDifferenceIn? (hlength.trans (hcolumns _ htarget).length.symm) hlevel

end Route

namespace Simulation

theorem exists_link {hardware : Hardware} {simulation : Simulation Float} {hop : Hop} {level : Nat}
    (husable : hardware.Usable)
    (hbandwidths : simulation.bandwidths = hardware.levels.map (·.bandwidth))
    (hlevel : level < hardware.levels.length) (hhop : hop.level? = some level) :
    ∃ link, simulation.link hop = .ok link := by
  have hsome := (husable.levels _ (List.getElem_mem hlevel)).bandwidth
  have hless : Quantity.isLess Quantity.zero (hardware.levels[level].bandwidth) = true :=
    ((Bool.and_eq_true _ _).mp hsome).2
  refine ⟨⟨hop, hardware.levels[level].bandwidth⟩, ?_⟩
  unfold link
  rw [hhop, hbandwidths, Option.bind_some, List.getElem?_map, List.getElem?_eq_getElem hlevel,
    Option.map_some]
  dsimp only
  rw [Option.filter_some, if_pos hless]

theorem exists_add {hardware : Hardware} {simulation : Simulation Float} {edge : EdgeId}
    {path : List Coordinate} (husable : hardware.Usable)
    (hbandwidths : simulation.bandwidths = hardware.levels.map (·.bandwidth))
    (hnew : simulation.transfers.contains edge = false)
    (hcheck : Route.check hardware path = .ok ()) (bytes : Nat) (start : Float) :
    ∃ later, simulation.add edge bytes start path = .ok later ∧
      later.bandwidths = simulation.bandwidths ∧
        ∀ other, later.transfers.contains other = true →
          other = edge ∨ simulation.transfers.contains other = true := by
  obtain ⟨links, hlinks⟩ : ∃ links, (Route.hops path).mapM simulation.link = .ok links :=
    exists_mapM_ok fun hop hhop => by
      obtain ⟨level, hlevel, hcrossed⟩ := Route.exists_level_of_check hcheck hhop
      exact exists_link husable hbandwidths hlevel hcrossed
  unfold add
  rw [hnew, hlinks]
  refine ⟨_, rfl, rfl, fun other hother => ?_⟩
  rw [enqueue, Std.ExtTreeMap.contains_insert, Bool.or_eq_true, beq_iff_eq,
    Std.LawfulEqCmp.compare_eq_iff_eq] at hother
  exact hother.imp_left Eq.symm

end Simulation

namespace Placement

variable {placement : Placement}

theorem addTransfer_eq_ok {simulation later : Simulation Float} {edge : EdgeId}
    {path : List Coordinate} {bytes : Nat} (hbytes : placement.graph.edgeBytes edge = .ok bytes)
    (hadd : simulation.add edge bytes 0.0 path = .ok later) :
    placement.addTransfer simulation (edge, path) = .ok later :=
  bind_eq_ok_iff.mpr ⟨bytes, mapError_eq_ok_iff.mpr hbytes, mapError_eq_ok_iff.mpr hadd⟩

theorem exists_addAll (husable : placement.hardware.Usable)
    {entries : List (EdgeId × List Coordinate)} (honce : (entries.map Prod.fst).Nodup)
    (hentries : ∀ entry ∈ entries, (∃ bytes, placement.graph.edgeBytes entry.1 = .ok bytes) ∧
      Route.check placement.hardware entry.2 = .ok ())
    {simulation : Simulation Float}
    (hbandwidths : simulation.bandwidths = placement.hardware.levels.map (·.bandwidth))
    (hnew : ∀ entry ∈ entries, simulation.transfers.contains entry.1 = false) :
    ∃ later, entries.foldlM placement.addTransfer simulation = .ok later := by
  induction entries generalizing simulation with
  | nil => exact ⟨simulation, rfl⟩
  | cons entry rest induction =>
      obtain ⟨edge, path⟩ := entry
      obtain ⟨⟨bytes, hbytes⟩, hcheck⟩ := hentries (edge, path) List.mem_cons_self
      obtain ⟨hfirst, honce⟩ := List.nodup_cons.mp honce
      obtain ⟨middle, hadd, hsame, hqueued⟩ := Simulation.exists_add husable hbandwidths
        (hnew (edge, path) List.mem_cons_self) hcheck bytes 0.0
      have hstep := addTransfer_eq_ok hbytes hadd
      obtain ⟨later, hlater⟩ := induction honce
        (fun other hother => hentries other (List.mem_cons_of_mem _ hother))
        (hsame.trans hbandwidths) fun other hother => by
          rw [← Bool.not_eq_true]
          intro hcontains
          rcases hqueued other.1 hcontains with htwice | hbefore
          · exact hfirst (htwice ▸ List.mem_map_of_mem hother)
          · rw [hnew other (List.mem_cons_of_mem _ hother)] at hbefore
            cases hbefore
      exact ⟨later, by rw [List.foldlM_cons, hstep]; exact hlater⟩

/-- Every routed edge is in the graph and its route is accepted: all transfers can be queued. -/
theorem exists_simulation (husable : placement.hardware.Usable)
    (hgraph : placement.graph.WellFormed)
    (hroutes : ∀ id path, placement.route? id = some path → placement.Carries id path) :
    ∃ simulation, placement.simulation = .ok simulation := by
  refine exists_addAll husable ?_ (fun entry hentry => ?_) rfl fun _ _ => rfl
  · rw [List.Nodup, List.pairwise_map]
    exact Std.ExtTreeMap.distinct_keys_toList.imp fun hdistinct hsame =>
      hdistinct (Std.LawfulEqCmp.compare_eq_iff_eq.mpr hsame)
  · obtain ⟨edge, source, target, hedge, -, -, hshortest⟩ := hroutes entry.1 entry.2
      (Std.ExtTreeMap.mem_toList_iff_getElem?_eq_some.mp hentry)
    refine ⟨?_, hshortest.accepted⟩
    have hid := hgraph.edge_id hedge
    obtain ⟨block, hblock⟩ := hgraph.end_known (hid.symm ▸ hedge) .output
    refine ⟨block.precision.bytesFor edge.volume, bind_eq_ok_iff.mpr ⟨edge, ?_, ?_⟩⟩
    · exact TaskGraph.edge_eq_ok_iff.mpr hedge
    · exact bind_eq_ok_iff.mpr ⟨block, TaskGraph.block_eq_ok_iff.mpr hblock, rfl⟩

end Placement

end TiledPlacement

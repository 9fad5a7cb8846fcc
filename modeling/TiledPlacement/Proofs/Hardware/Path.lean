import Mathlib.Data.List.Nodup
import TiledPlacement.Proofs.Hardware.Numbering
import TiledPlacement.Proofs.Hardware.Routing

/-!
How long routes are. Every step of a dimension-ordered route stays in the hierarchy and ends one
unit nearer to the target, and no link leads nearer by more than one unit. So a route comes to its
target, visits no column twice, and there is no shorter path, unless positions of one level are so
far apart that a word does not hold their distance.
-/

namespace TiledPlacement

namespace Position

theorem distance_self (here : List Nat) : distance here here = 0 := by
  induction here with
  | nil => rfl
  | cons first rest induction => rw [distance, Nat.sub_self, induction]

theorem distance_eq_zero_iff {here there : List Nat} (hdims : here.length = there.length) :
    distance here there = 0 ↔ here = there := by
  refine ⟨fun hzero => ?_, fun hsame => hsame ▸ distance_self here⟩
  induction here generalizing there with
  | nil => exact (List.length_eq_zero_iff.mp hdims.symm).symm
  | cons first rest induction =>
      cases there with
      | nil => cases hdims
      | cons other others =>
          rw [distance] at hzero
          rw [induction (Nat.succ.inj hdims) (by omega), show first = other by omega]

theorem distance_triangle {here middle there : List Nat} (hfirst : here.length = middle.length)
    (hsecond : middle.length = there.length) :
    distance here there ≤ distance here middle + distance middle there := by
  induction here generalizing middle there with
  | nil => exact Nat.zero_le _
  | cons first rest induction =>
      cases middle with
      | nil => cases hfirst
      | cons second between =>
          cases there with
          | nil => cases hsecond
          | cons other others =>
              have hrest := induction (Nat.succ.inj hfirst) (Nat.succ.inj hsecond)
              simp only [distance]
              omega

theorem distance_of_step {here there next : List Nat}
    (hstep : stepComponents? here there = some next) : distance here next = 1 := by
  induction here generalizing there next with
  | nil => cases hstep
  | cons first rest induction =>
      cases there with
      | nil => cases hstep
      | cons other others =>
          unfold stepComponents? at hstep
          split at hstep
          case isTrue =>
            obtain ⟨inner, hinner, rfl⟩ := Option.map_eq_some_iff.mp hstep
            rw [distance, Nat.sub_self, induction hinner]
          case isFalse =>
            have hrest := distance_self rest
            split at hstep <;> cases hstep <;> rw [distance] <;> omega

/-- A step lies between the ends, so it stays within the radices. -/
theorem fits_of_step {radices here there next : List Nat}
    (hhere : MixedRadix.fits radices here = true) (hthere : MixedRadix.fits radices there = true)
    (hstep : stepComponents? here there = some next) : MixedRadix.fits radices next = true := by
  induction radices generalizing here there next with
  | nil =>
      cases here with
      | nil => cases hstep
      | cons => cases hhere
  | cons radix radices induction =>
      cases here with
      | nil => cases hstep
      | cons first rest =>
          cases there with
          | nil => cases hstep
          | cons other others =>
              simp only [MixedRadix.fits, Bool.and_eq_true, decide_eq_true_eq] at hhere hthere
              unfold stepComponents? at hstep
              split at hstep
              case isTrue =>
                obtain ⟨inner, hinner, rfl⟩ := Option.map_eq_some_iff.mp hstep
                have hrest := induction hhere.2 hthere.2 hinner
                simp only [MixedRadix.fits, Bool.and_eq_true, decide_eq_true_eq]
                exact ⟨hhere.1, hrest⟩
              case isFalse =>
                split at hstep <;> cases hstep <;>
                  simp only [MixedRadix.fits, Bool.and_eq_true, decide_eq_true_eq] <;>
                  exact ⟨by omega, hhere.2⟩

end Position

namespace Route

/-- Sum over the levels of the distances on them. -/
def distance : List Position → List Position → Nat
  | here :: rest, there :: others =>
      Position.distance here.components there.components + distance rest others
  | _, _ => 0

/-- The positions lie on the levels, one on each. -/
def InLevels (levels : List Level) (positions : List Position) : Prop :=
  List.Forall₂ (fun level position => level.contains position = true) levels positions

theorem distance_self (here : List Position) : distance here here = 0 := by
  induction here with
  | nil => rfl
  | cons position rest induction => rw [distance, Position.distance_self, induction]

theorem distance_eq_zero_iff {here there : List Position} (hdims : SameDims here there) :
    distance here there = 0 ↔ here = there := by
  refine ⟨fun hzero => ?_, fun hsame => hsame ▸ distance_self here⟩
  induction hdims with
  | nil => rfl
  | @cons position other rest others hfirst _ induction =>
      obtain ⟨hposition, hrest⟩ := Nat.add_eq_zero_iff.mp hzero
      have hcomponents := (Position.distance_eq_zero_iff hfirst).mp hposition
      rw [induction hrest, show position = other from congrArg Position.mk hcomponents]

theorem distance_triangle {here middle there : List Position} (hfirst : SameDims here middle)
    (hsecond : SameDims middle there) :
    distance here there ≤ distance here middle + distance middle there := by
  induction hfirst generalizing there with
  | nil => cases hsecond; exact Nat.zero_le _
  | cons hdims _ induction =>
      cases hsecond with
      | cons hothers hrest =>
          have hposition := Position.distance_triangle hdims hothers
          have hlater := induction hrest
          simp only [distance]
          omega

/-! What one step does. -/

/-- Each step ends one unit nearer to the target and one unit away from where it started. -/
theorem distance_of_step {here there next : List Position} (hstep : step? here there = some next) :
    distance here there = distance next there + 1 ∧ distance here next = 1 := by
  induction here generalizing there next with
  | nil => cases hstep
  | cons position rest induction =>
      cases there with
      | nil => cases hstep
      | cons other others =>
          unfold step? at hstep
          split at hstep
          case h_1 further hfurther =>
            cases hstep
            have hnearer := Position.distance_stepToward? hfurther
            have hmoved :=
              Position.distance_of_step (Position.stepToward?_eq_some_iff.mp hfurther).2
            rw [distance, distance, distance, hnearer, hmoved, distance_self]
            exact ⟨Nat.add_right_comm _ 1 _, rfl⟩
          case h_2 =>
            obtain ⟨inner, hinner, rfl⟩ := Option.map_eq_some_iff.mp hstep
            have hrest := induction hinner
            rw [distance, distance, distance, hrest.1, hrest.2, Position.distance_self]
            exact ⟨rfl, rfl⟩

theorem eq_of_settled {here there : List Position} (hdims : SameDims here there)
    (hsettled : step? here there = none) : here = there := by
  induction hdims with
  | nil => rfl
  | cons hfirst _ induction =>
      unfold step? at hsettled
      split at hsettled
      case h_1 => cases hsettled
      case h_2 hnone =>
        rw [(Position.stepToward?_eq_none_iff hfirst).mp hnone,
          induction (Option.map_eq_none_iff.mp hsettled)]

theorem contains_of_step {levels : List Level} {here there next : List Position}
    (hhere : InLevels levels here) (hthere : InLevels levels there)
    (hstep : step? here there = some next) : InLevels levels next := by
  induction hhere generalizing there next with
  | nil => cases hstep
  | cons hposition hrest induction =>
      cases hthere with
      | cons hother hothers =>
          unfold step? at hstep
          split at hstep
          case h_1 further hfurther =>
            cases hstep
            obtain ⟨-, hcomponents⟩ := Position.stepToward?_eq_some_iff.mp hfurther
            exact .cons (Position.fits_of_step hposition hother hcomponents) hrest
          case h_2 =>
            obtain ⟨inner, hinner, rfl⟩ := Option.map_eq_some_iff.mp hstep
            exact .cons hposition (induction hothers hinner)

/-! What a whole walk does. -/

/-- One step after the other until the target is reached. -/
inductive Walks (there : List Position) : List Position → List (List Position) → Prop
  | settled : Walks there there []
  | step {here next : List Position} {path : List (List Position)}
      (hstep : step? here there = some next) (hrest : Walks there next path) :
      Walks there here (next :: path)

theorem walks_walk {here there : List Position} (hdims : SameDims here there) :
    Walks there here (walk here there) := by
  -- Each step ends nearer to the target, so the induction is on the distance.
  generalize hfar : distance here there = far
  induction far generalizing here with
  | zero =>
      obtain rfl := (distance_eq_zero_iff hdims).mp hfar
      cases hstep : step? here here with
      | none =>
          rw [walk_of_settled hstep]
          exact .settled
      | some next => exact absurd ((distance_of_step hstep).1.symm.trans hfar) (Nat.succ_ne_zero _)
  | succ far induction =>
      cases hstep : step? here there with
      | none =>
          rw [eq_of_settled hdims hstep, distance_self] at hfar
          cases hfar
      | some next =>
          have hnearer := (distance_of_step hstep).1
          rw [walk_of_step hstep]
          exact .step hstep (induction (hdims.step hstep) (by omega))

namespace Walks

variable {here there : List Position} {path : List (List Position)}

theorem length (hwalks : Walks there here path) : path.length = distance here there := by
  induction hwalks with
  | settled => exact (distance_self there).symm
  | step hstep _ induction => rw [List.length_cons, induction, (distance_of_step hstep).1]

theorem getLast? (hwalks : Walks there here path) : (here :: path).getLast? = some there := by
  induction hwalks with
  | settled => rfl
  | step _ _ induction => rwa [List.getLast?_cons_cons]

theorem distance_lt (hwalks : Walks there here path) {place : List Position}
    (hplace : place ∈ path) : distance place there < distance here there := by
  induction hwalks with
  | settled => cases hplace
  | step hstep _ induction =>
      have hnearer := (distance_of_step hstep).1
      rcases List.mem_cons.mp hplace with rfl | hlater
      · omega
      · have hrest := induction hlater
        omega

theorem nodup (hwalks : Walks there here path) : (here :: path).Nodup := by
  induction hwalks with
  | settled => exact List.nodup_singleton there
  | step hstep hrest induction =>
      refine List.nodup_cons.mpr ⟨fun hrepeats => ?_, induction⟩
      exact absurd ((Walks.step hstep hrest).distance_lt hrepeats) (Nat.lt_irrefl _)

theorem isChain (hwalks : Walks there here path) :
    (here :: path).IsChain fun left right => distance left right = 1 := by
  induction hwalks with
  | settled => exact .singleton there
  | step hstep _ induction => exact .cons_cons (distance_of_step hstep).2 induction

theorem contains (hwalks : Walks there here path) {levels : List Level}
    (hhere : InLevels levels here) (hthere : InLevels levels there) :
    ∀ place ∈ here :: path, InLevels levels place := by
  induction hwalks with
  | settled =>
      intro place hplace
      rwa [List.mem_singleton.mp hplace]
  | step hstep _ induction =>
      intro place hplace
      rcases List.mem_cons.mp hplace with rfl | hlater
      · exact hhere
      · exact induction (contains_of_step hhere hthere hstep) place hlater

end Walks

/-! Which paths are accepted. -/

theorem hopFault?_eq_none_iff_isUnitStep {hop : Hop} :
    hopFault? hop = none ↔ ∃ level, hop.level? = some level ∧ hop.isUnitStep level = true := by
  unfold hopFault?
  cases hop.level? with
  | none => simp
  | some level => simp

theorem isUnitStep_zero {here there : Position} {rest others : List Position}
    (hdims : here.dims = there.dims)
    (hfits : Position.distance here.components there.components < wordCount) :
    Hop.isUnitStep ⟨⟨here :: rest⟩, ⟨there :: others⟩⟩ 0 = true ↔
      Position.distance here.components there.components = 1 ∧ rest = others := by
  simp [Hop.isUnitStep, Coordinate.level?, Position.manhattan?, hdims, word_of_lt hfits]

/-- On no level are the positions too far apart for a word to hold their distance. -/
def WithinReach (here there : List Position) : Prop :=
  List.Forall₂ (fun position other =>
    Position.distance position.components other.components < wordCount) here there

theorem withinReach_of_distance {here there : List Position} (hdims : SameDims here there)
    (hdistance : distance here there < wordCount) : WithinReach here there := by
  induction hdims with
  | nil => exact .nil
  | cons _ _ induction =>
      rw [distance] at hdistance
      exact .cons (by omega) (induction (by omega))

/-- A path may go on to the columns at distance one. -/
theorem hopFault?_eq_none_iff {here there : List Position} (hdims : SameDims here there)
    (hreach : WithinReach here there) :
    hopFault? ⟨⟨here⟩, ⟨there⟩⟩ = none ↔ distance here there = 1 := by
  rw [hopFault?_eq_none_iff_isUnitStep]
  induction hdims with
  | nil => simp [Hop.level?, Coordinate.firstDifference?, Coordinate.firstDifferenceIn?, distance]
  | @cons position other rest others hfirst hrest induction =>
      obtain ⟨hfits, hreach⟩ := List.forall₂_cons.mp hreach
      replace induction := induction hreach
      simp only [Hop.level?, Coordinate.firstDifference?, Coordinate.firstDifferenceIn?, distance]
        at induction ⊢
      by_cases hsame : position = other
      · subst hsame
        -- Both columns lie in one region of this level; the hop is found one level further in.
        rw [if_pos rfl, Position.distance_self, Nat.zero_add, ← induction]
        simp only [Option.map_eq_some_iff]
        constructor
        · rintro ⟨_, ⟨level, hlevel, rfl⟩, hunit⟩
          exact ⟨level, hlevel, hunit⟩
        · rintro ⟨level, hlevel, hunit⟩
          exact ⟨level + 1, ⟨level, hlevel, rfl⟩, hunit⟩
      · have hdiffers : Position.distance position.components other.components ≠ 0 := by
          rw [ne_eq, Position.distance_eq_zero_iff hfirst]
          exact fun hcomponents => hsame (congrArg Position.mk hcomponents)
        have hsettled := distance_eq_zero_iff hrest
        simp only [if_neg hsame, Option.some.injEq, exists_eq_left', isUnitStep_zero hfirst hfits,
          ← hsettled]
        omega

theorem hopFault?_of_distance {here there : List Position} (hdims : SameDims here there)
    (hdistance : distance here there = 1) : hopFault? ⟨⟨here⟩, ⟨there⟩⟩ = none := by
  have hfits : distance here there < wordCount := hdistance ▸ (by decide)
  exact (hopFault?_eq_none_iff hdims (withinReach_of_distance hdims hfits)).mpr hdistance

theorem columnFault?_eq_none_iff {hardware : Hardware} {place : Coordinate} :
    columnFault? hardware place = none ↔ hardware.IsColumn place := by
  unfold columnFault?
  split
  case isTrue hdepth =>
    refine iff_of_false (fun hnone => ?_) fun hcolumn => hdepth hcolumn.length
    cases hnone
  case isFalse hdepth =>
    have htake : place.take hardware.spaceDepth = place := by
      rw [← not_ne_iff.mp hdepth]
      exact congrArg Coordinate.mk (List.take_length (l := place.levels))
    have hcolumn : (hardware.columnIndex? place).isSome = true ↔
        hardware.IsColumn (place.take hardware.spaceDepth) := Hardware.columnIndex?_isSome_iff
    rw [htake] at hcolumn
    rw [← hcolumn, Hardware.hasColumn]
    cases (hardware.columnIndex? place).isSome <;> simp

theorem findSome?_hops_eq_none_iff {path : List Coordinate} :
    (hops path).findSome? hopFault? = none ↔
      path.IsChain fun here there => hopFault? ⟨here, there⟩ = none := by
  induction path with
  | nil => exact iff_of_true rfl .nil
  | cons first rest induction =>
      cases rest with
      | nil => exact iff_of_true rfl (.singleton first)
      | cons second rest =>
          rw [hops, List.findSome?_cons, List.isChain_cons_cons, ← induction]
          cases hopFault? ⟨first, second⟩ <;> simp

theorem sameDims_of_contains {levels : List Level} {here there : List Position}
    (hhere : InLevels levels here) (hthere : InLevels levels there) : SameDims here there := by
  induction hhere generalizing there with
  | nil => cases hthere; exact .nil
  | cons hposition _ induction =>
      cases hthere with
      | cons hother hothers =>
          refine .cons ?_ (induction hothers)
          exact (MixedRadix.length_of_fits hposition).trans (MixedRadix.length_of_fits hother).symm

theorem check_eq_ok_iff {hardware : Hardware} {path : List Coordinate} :
    check hardware path = .ok () ↔ (∀ place ∈ path, hardware.IsColumn place) ∧
      path.IsChain fun here there => hopFault? ⟨here, there⟩ = none := by
  have hcolumns : path.findSome? (columnFault? hardware) = none ↔
      ∀ place ∈ path, hardware.IsColumn place := by
    simp only [List.findSome?_eq_none_iff, columnFault?_eq_none_iff]
  have hchecked : check hardware path = .ok () ↔ path.findSome? (columnFault? hardware) = none ∧
      (hops path).findSome? hopFault? = none := by
    rw [check]
    cases path.findSome? (columnFault? hardware) <;>
      cases (hops path).findSome? hopFault? <;> simp
  rw [hchecked, hcolumns, findSome?_hops_eq_none_iff]

end Route

/-- How far apart two positions of a level can be. -/
def Level.span (level : Level) : Nat := (level.dims.map (· - 1)).sum

/-- A word holds the distance between any two positions of a level. -/
def Hardware.SpansBounded (hardware : Hardware) : Prop :=
  ∀ level ∈ hardware.levels, level.span < wordCount

instance (hardware : Hardware) : Decidable hardware.SpansBounded :=
  inferInstanceAs (Decidable (∀ level ∈ hardware.levels, _))

theorem Level.distance_le_span {level : Level} {here there : Position}
    (hhere : level.contains here = true) (hthere : level.contains there = true) :
    Position.distance here.components there.components ≤ level.span := by
  obtain ⟨here⟩ := here
  obtain ⟨there⟩ := there
  unfold contains at hhere hthere
  unfold span
  dsimp only at hhere hthere ⊢
  generalize level.dims = dims at hhere hthere ⊢
  induction dims generalizing here there with
  | nil => cases here <;> simp_all [MixedRadix.fits, Position.distance]
  | cons dim dims induction =>
      cases here with
      | nil => cases hhere
      | cons first rest =>
          cases there with
          | nil => cases hthere
          | cons other others =>
              simp only [MixedRadix.fits, Bool.and_eq_true, decide_eq_true_eq] at hhere hthere
              have hlater := induction rest others hhere.2 hthere.2
              rw [Position.distance, List.map_cons, List.sum_cons]
              omega

namespace Route

theorem withinReach_of_columns {levels : List Level}
    (hspans : ∀ level ∈ levels, level.span < wordCount) {here there : List Position}
    (hhere : InLevels levels here) (hthere : InLevels levels there) :
    WithinReach here there := by
  induction hhere generalizing there with
  | nil => cases hthere; exact .nil
  | cons hposition _ induction =>
      cases hthere with
      | cons hother hothers =>
          have hspan := hspans _ List.mem_cons_self
          refine .cons (Nat.lt_of_le_of_lt (Level.distance_le_span hposition hother) hspan) ?_
          exact induction (fun level hlevel => hspans level (List.mem_cons_of_mem _ hlevel)) hothers

/-- An accepted path has more columns than its ends are apart. -/
theorem distance_lt_length {hardware : Hardware} (hspans : hardware.SpansBounded)
    {path : List Coordinate} {source target : Coordinate} (hcheck : check hardware path = .ok ())
    (hhead : path.head? = some source) (hlast : path.getLast? = some target) :
    distance source.levels target.levels < path.length := by
  obtain ⟨hcolumns, hchain⟩ := check_eq_ok_iff.mp hcheck
  clear hcheck
  induction hchain generalizing source with
  | nil => cases hhead
  | singleton place =>
      obtain rfl := Option.some.inj hhead
      obtain rfl := Option.some.inj hlast
      exact Nat.lt_of_le_of_lt (Nat.le_of_eq (distance_self _)) Nat.one_pos
  | @cons_cons first second rest hlink hrest induction =>
      cases hhead
      rw [List.getLast?_cons_cons] at hlast
      have hlater := induction rfl hlast
        fun place hplace => hcolumns place (List.mem_cons_of_mem _ hplace)
      have htarget := hcolumns target
        (List.mem_cons_of_mem _ (List.mem_of_getLast? hlast))
      have hsecond := hcolumns second (List.mem_cons_of_mem _ List.mem_cons_self)
      have hfirst := hcolumns first List.mem_cons_self
      have hdims := sameDims_of_contains hfirst hsecond
      have hunit : distance first.levels second.levels = 1 :=
        (hopFault?_eq_none_iff hdims (withinReach_of_columns hspans hfirst hsecond)).mp hlink
      have htriangle := distance_triangle hdims (sameDims_of_contains hsecond htarget)
      rw [List.length_cons]
      omega

/-! Routes between columns. -/

/-- What is asked of a route between two columns. A path that crosses a level too far for words
could be shorter. -/
structure Shortest (hardware : Hardware) (source target : Coordinate)
    (path : List Coordinate) : Prop where
  head : path.head? = some source
  last : path.getLast? = some target
  accepted : check hardware path = .ok ()
  length : path.length = 1 + distance source.levels target.levels
  nodup : path.Nodup
  least : hardware.SpansBounded → ∀ other, other.head? = some source →
    other.getLast? = some target → check hardware other = .ok () → path.length ≤ other.length

theorem Walks.shortest {hardware : Hardware} {source target : Coordinate}
    {path : List (List Position)} (hsource : hardware.IsColumn source)
    (htarget : hardware.IsColumn target) (hwalks : Walks target.levels source.levels path) :
    Shortest hardware source target (source :: path.map Coordinate.mk) := by
  have hwhole : source :: path.map Coordinate.mk =
      (source.levels :: path).map Coordinate.mk := rfl
  have hlength : (source :: path.map Coordinate.mk).length =
      1 + distance source.levels target.levels := by
    rw [List.length_cons, List.length_map, hwalks.length, Nat.add_comm]
  constructor
  case head => rfl
  case last => rw [hwhole, List.getLast?_map, hwalks.getLast?, Option.map_some]
  case accepted =>
    have hinside := hwalks.contains hsource htarget
    rw [check_eq_ok_iff, hwhole]
    constructor
    · intro place hplace
      obtain ⟨levels, hlevels, rfl⟩ := List.mem_map.mp hplace
      exact hinside levels hlevels
    · rw [List.isChain_map]
      refine hwalks.isChain.imp_of_mem_imp fun here there hhere hthere => ?_
      exact hopFault?_of_distance (sameDims_of_contains (hinside here hhere) (hinside there hthere))
  case length => exact hlength
  case nodup =>
    rw [hwhole]
    exact List.Nodup.map (fun _ _ hsame => congrArg Coordinate.levels hsame) hwalks.nodup
  case least =>
    intro hspans other hhead hlast hcheck
    have hlong := distance_lt_length hspans hcheck hhead hlast
    omega

theorem between?_eq (hardware : Hardware) (source target : Coordinate) :
    between? hardware source target =
      if hardware.IsColumn (source.take hardware.spaceDepth) ∧
          hardware.IsColumn (target.take hardware.spaceDepth) then
        some (source.take hardware.spaceDepth ::
          (walk (source.levels.take hardware.spaceDepth)
            (target.levels.take hardware.spaceDepth)).map Coordinate.mk)
      else
        none := by
  have hcolumn : ∀ place : Coordinate, hardware.hasColumn (place.take hardware.spaceDepth) = true ↔
      hardware.IsColumn (place.take hardware.spaceDepth) := by
    intro place
    rw [Hardware.hasColumn, Hardware.columnIndex?_take, Hardware.columnIndex?_isSome_iff]
  simp only [between?, Bool.and_eq_true, hcolumn]
  rfl

theorem between?_eq_none_iff {hardware : Hardware} {source target : Coordinate} :
    between? hardware source target = none ↔
      ¬hardware.IsColumn (source.take hardware.spaceDepth) ∨
        ¬hardware.IsColumn (target.take hardware.spaceDepth) := by
  rw [between?_eq, ← Classical.not_and_iff_not_or_not]
  split
  case isTrue hcolumns => exact iff_of_false (Option.some_ne_none _) (not_not_intro hcolumns)
  case isFalse hcolumns => exact iff_of_true rfl hcolumns

theorem shortest_of_between? {hardware : Hardware} {source target : Coordinate}
    {path : List Coordinate} (hpath : between? hardware source target = some path) :
    Shortest hardware (source.take hardware.spaceDepth) (target.take hardware.spaceDepth) path := by
  rw [between?_eq, Option.ite_none_right_eq_some] at hpath
  obtain ⟨⟨hsource, htarget⟩, hpath⟩ := hpath
  rw [← Option.some.inj hpath]
  exact (walks_walk (sameDims_of_contains hsource htarget)).shortest hsource htarget

end Route

end TiledPlacement

import Mathlib.Algebra.Order.Ring.Int
import Mathlib.Data.List.Chain
import Mathlib.Data.List.Forall2
import Mathlib.Data.Prod.Lex
import Mathlib.Logic.Relation
import TiledPlacement.Hardware.Route
import TiledPlacement.Proofs.Hardware.Column

/-!
Dimension-ordered routes step by step, and the order in which they cross the links. A link is
ranked by the level that it crosses, then by the dimension, then by how far it is on in its
direction. Ranks ascend along every route, so transfers that wait for the next link of their route
never wait in a circle.
-/

namespace TiledPlacement

namespace Position

theorem stepComponents?_eq_none_iff {here there : List Nat} (hdims : here.length = there.length) :
    stepComponents? here there = none ↔ here = there := by
  induction here generalizing there with
  | nil =>
      cases there with
      | nil => simp [stepComponents?]
      | cons => cases hdims
  | cons first rest induction =>
      cases there with
      | nil => cases hdims
      | cons other others =>
          unfold stepComponents?
          split
          case isTrue hsame => simp [hsame, induction (Nat.succ.inj hdims)]
          case isFalse hdiffer => split <;> simp [hdiffer]

theorem length_stepComponents? {here there next : List Nat}
    (hstep : stepComponents? here there = some next) : next.length = here.length := by
  induction here generalizing there next with
  | nil => cases hstep
  | cons first rest induction =>
      cases there with
      | nil => cases hstep
      | cons other others =>
          unfold stepComponents? at hstep
          split at hstep
          case isTrue =>
            obtain ⟨inner, hinner, rfl⟩ := Option.map_eq_some_iff.mp hstep
            simp [induction hinner]
          case isFalse => split at hstep <;> cases hstep <;> rfl

theorem stepToward?_eq_some_iff {here there next : Position} :
    here.stepToward? there = some next ↔ here.dims = there.dims ∧
      stepComponents? here.components there.components = some next.components := by
  unfold stepToward?
  split
  case isTrue hdims =>
    simp only [hdims, true_and, Option.map_eq_some_iff]
    constructor
    · rintro ⟨components, hstep, rfl⟩
      exact hstep
    · exact fun hstep => ⟨next.components, hstep, rfl⟩
  case isFalse hdims => simp [hdims]

theorem stepToward?_eq_none_iff {here there : Position} (hdims : here.dims = there.dims) :
    here.stepToward? there = none ↔ here = there := by
  rw [stepToward?, if_pos hdims, Option.map_eq_none_iff, stepComponents?_eq_none_iff hdims]
  cases here
  cases there
  simp

end Position

namespace Route

open Position

/-! A route as a sequence of unit steps. -/

theorem steps_of_step {here there next : Position} (hstep : here.stepToward? there = some next) :
    steps here there = next :: steps next there := by
  rw [steps]
  split
  case h_1 hnone =>
    rw [hnone] at hstep
    cases hstep
  case h_2 other hother =>
    rw [hother] at hstep
    cases hstep
    rfl

theorem steps_of_settled {here there : Position} (hsettled : here.stepToward? there = none) :
    steps here there = [] := by
  rw [steps]
  split
  case h_1 => rfl
  case h_2 other hother =>
    rw [hother] at hsettled
    cases hsettled

/-- One unit step on the outermost level that is not settled. -/
def step? : List Position → List Position → Option (List Position)
  | here :: rest, there :: others =>
      match here.stepToward? there with
      | some next => some (next :: rest)
      | none => (step? rest others).map (here :: ·)
  | _, _ => none

def SameDims (here there : List Position) : Prop :=
  List.Forall₂ (fun here there => here.dims = there.dims) here there

theorem SameDims.step {here there next : List Position} (hdims : SameDims here there)
    (hstep : step? here there = some next) : SameDims next there := by
  induction hdims generalizing next with
  | nil => cases hstep
  | cons hfirst hrest induction =>
      unfold step? at hstep
      split at hstep
      case h_1 position hposition =>
        cases hstep
        obtain ⟨-, hcomponents⟩ := stepToward?_eq_some_iff.mp hposition
        exact .cons ((length_stepComponents? hcomponents).trans hfirst) hrest
      case h_2 =>
        obtain ⟨inner, hinner, rfl⟩ := Option.map_eq_some_iff.mp hstep
        exact .cons hfirst (induction hinner)

/-- A walk goes to where one step leads, and on from there. -/
theorem walk_of_step {here there next : List Position} (hstep : step? here there = some next) :
    walk here there = next :: walk next there := by
  induction here generalizing there next with
  | nil => cases hstep
  | cons position rest induction =>
      cases there with
      | nil => cases hstep
      | cons other others =>
          unfold step? at hstep
          split at hstep
          case h_1 further hfurther =>
            cases hstep
            rw [walk, walk, steps_of_step hfurther, List.getLast?_cons]
            rfl
          case h_2 hsettled =>
            obtain ⟨inner, hinner, rfl⟩ := Option.map_eq_some_iff.mp hstep
            rw [walk, walk, steps_of_settled hsettled, induction hinner]
            rfl

theorem walk_of_settled {here there : List Position} (hsettled : step? here there = none) :
    walk here there = [] := by
  induction here generalizing there with
  | nil => rfl
  | cons position rest induction =>
      cases there with
      | nil => rfl
      | cons other others =>
          unfold step? at hsettled
          split at hsettled
          case h_1 => cases hsettled
          case h_2 hnone =>
            rw [walk, steps_of_settled hnone, induction (Option.map_eq_none_iff.mp hsettled)]
            rfl

/-- Each element of a walk is the step from the one before. -/
theorem isChain_walk {here there : List Position} (hdims : SameDims here there) :
    (here :: walk here there).IsChain fun left right =>
      SameDims left there ∧ step? left there = some right := by
  generalize hlength : (walk here there).length = length
  induction length generalizing here with
  | zero =>
      rw [List.length_eq_zero_iff.mp hlength]
      exact .singleton here
  | succ length induction =>
      cases hstep : step? here there with
      | none =>
          rw [walk_of_settled hstep] at hlength
          cases hlength
      | some next =>
          rw [walk_of_step hstep] at hlength ⊢
          exact .cons_cons ⟨hdims, hstep⟩ (induction (hdims.step hstep) (Nat.succ.inj hlength))

/-- Columns of one hierarchy have positions of the same dimensions. -/
theorem sameDims_of_indexIn? {levels : List Level} {here there : List Position} {left right : Nat}
    (hhere : Hardware.indexIn? levels here = some left)
    (hthere : Hardware.indexIn? levels there = some right) :
    SameDims (here.take levels.length) (there.take levels.length) := by
  induction levels generalizing here there left right with
  | nil => exact .nil
  | cons level rest induction =>
      cases here with
      | nil => cases hhere
      | cons position positions =>
          cases there with
          | nil => cases hthere
          | cons other others =>
              rw [Hardware.indexIn?] at hhere hthere
              split at hhere
              case isFalse => cases hhere
              case isTrue hposition =>
                split at hthere
                case isFalse => cases hthere
                case isTrue hother =>
                  obtain ⟨inner, hinner, -⟩ := Option.map_eq_some_iff.mp hhere
                  obtain ⟨outer, houter, -⟩ := Option.map_eq_some_iff.mp hthere
                  refine .cons ?_ (induction hinner houter)
                  exact (MixedRadix.length_of_fits hposition).trans
                    (MixedRadix.length_of_fits hother).symm

/-! Ranks of links. -/

/-- The first dimension in which two neighbours differ, and how far on in its direction the step
between them begins. -/
def dimensionRank : List Nat → List Nat → ℕ × ℤ
  | here :: rest, there :: others =>
      if here = there then
        ((dimensionRank rest others).1 + 1, (dimensionRank rest others).2)
      else
        (0, if here < there then here else -here)
  | _, _ => (0, 0)

/-- The level that a link crosses and its rank on that level. -/
def levelRank : List Position → List Position → ℕ × (ℕ ×ₗ ℤ)
  | here :: rest, there :: others =>
      if here = there then
        ((levelRank rest others).1 + 1, (levelRank rest others).2)
      else
        (0, toLex (dimensionRank here.components there.components))
  | _, _ => (0, toLex (0, 0))

theorem toLex_succ_lt_iff {α : Type} [LT α] {left right : ℕ × α} :
    toLex (left.1 + 1, left.2) < toLex (right.1 + 1, right.2) ↔ toLex left < toLex right := by
  simp [Prod.Lex.toLex_lt_toLex]

theorem ne_of_stepComponents? {here there next : List Nat}
    (hstep : stepComponents? here there = some next) : here ≠ next := by
  induction here generalizing there next with
  | nil => cases hstep
  | cons first rest induction =>
      cases there with
      | nil => cases hstep
      | cons other others =>
          unfold stepComponents? at hstep
          split at hstep
          case isTrue =>
            obtain ⟨inner, hinner, rfl⟩ := Option.map_eq_some_iff.mp hstep
            simp [induction hinner]
          case isFalse hdiffer =>
            split at hstep
            case isTrue => cases hstep; simp
            case isFalse =>
              cases hstep
              simp only [ne_eq, List.cons.injEq, and_true]
              omega

theorem dimensionRank_lt {here there next after : List Nat}
    (hstep : stepComponents? here there = some next)
    (hafter : stepComponents? next there = some after) :
    toLex (dimensionRank here next) < toLex (dimensionRank next after) := by
  induction here generalizing there next after with
  | nil => cases hstep
  | cons first rest induction =>
      cases there with
      | nil => cases hstep
      | cons other others =>
          unfold stepComponents? at hstep
          split at hstep
          case isTrue hsame =>
            obtain ⟨inner, hinner, rfl⟩ := Option.map_eq_some_iff.mp hstep
            rw [stepComponents?, if_pos hsame] at hafter
            obtain ⟨outer, houter, rfl⟩ := Option.map_eq_some_iff.mp hafter
            simp only [dimensionRank, if_true, toLex_succ_lt_iff]
            exact induction hinner houter
          case isFalse hdiffer =>
            -- The dimension is settled after this step or goes on in the same direction.
            split at hstep
            case isTrue hless =>
              cases hstep
              unfold stepComponents? at hafter
              split at hafter
              case isTrue =>
                obtain ⟨inner, -, rfl⟩ := Option.map_eq_some_iff.mp hafter
                simp [dimensionRank, Prod.Lex.toLex_lt_toLex]
              case isFalse =>
                rw [if_pos (by omega)] at hafter
                cases hafter
                simp [dimensionRank, Prod.Lex.toLex_lt_toLex]
            case isFalse hmore =>
              cases hstep
              unfold stepComponents? at hafter
              split at hafter
              case isTrue =>
                obtain ⟨inner, -, rfl⟩ := Option.map_eq_some_iff.mp hafter
                have hfirst : first ≠ first - 1 := by omega
                simp [dimensionRank, Prod.Lex.toLex_lt_toLex, hfirst]
              case isFalse =>
                rw [if_neg (by omega)] at hafter
                cases hafter
                have hfirst : first ≠ first - 1 := by omega
                have hnext : first - 1 ≠ first - 1 - 1 := by omega
                simp [dimensionRank, Prod.Lex.toLex_lt_toLex, hfirst, hnext]
                omega

theorem ne_of_stepToward? {here there next : Position}
    (hstep : here.stepToward? there = some next) : here ≠ next := by
  intro hsame
  subst hsame
  exact ne_of_stepComponents? (stepToward?_eq_some_iff.mp hstep).2 rfl

theorem levelRank_lt {here there next after : List Position} (hdims : SameDims here there)
    (hstep : step? here there = some next) (hafter : step? next there = some after) :
    toLex (levelRank here next) < toLex (levelRank next after) := by
  induction hdims generalizing next after with
  | nil => cases hstep
  | cons hfirst hrest induction =>
      unfold step? at hstep
      split at hstep
      case h_1 position hposition =>
        cases hstep
        obtain ⟨-, hcomponents⟩ := stepToward?_eq_some_iff.mp hposition
        have hmoved := ne_of_stepToward? hposition
        unfold step? at hafter
        split at hafter
        case h_1 further hfurther =>
          cases hafter
          obtain ⟨-, hlater⟩ := stepToward?_eq_some_iff.mp hfurther
          have hless := dimensionRank_lt hcomponents hlater
          simpa [levelRank, hmoved, ne_of_stepToward? hfurther, Prod.Lex.toLex_lt_toLex] using hless
        case h_2 =>
          obtain ⟨outer, -, rfl⟩ := Option.map_eq_some_iff.mp hafter
          simp [levelRank, hmoved, Prod.Lex.toLex_lt_toLex]
      case h_2 hsettled =>
        obtain ⟨inner, hinner, rfl⟩ := Option.map_eq_some_iff.mp hstep
        simp only [step?, hsettled] at hafter
        obtain ⟨outer, houter, rfl⟩ := Option.map_eq_some_iff.mp hafter
        simp only [levelRank, if_true, toLex_succ_lt_iff]
        exact induction hinner houter

end Route

/-- Place of a link in the order in which routes cross links. -/
def Hop.rank (hop : Hop) : ℕ ×ₗ ℕ ×ₗ ℤ :=
  toLex (Route.levelRank hop.source.levels hop.target.levels)

namespace Route

/-- Whether the route between some two columns crosses one hop right after another. -/
def Continues (hardware : Hardware) (hop next : Hop) : Prop :=
  ∃ source target path, between? hardware source target = some path ∧ [hop, next] <:+: hops path

theorem isChain_between? {hardware : Hardware} {source target : Coordinate}
    {path : List Coordinate} (hpath : between? hardware source target = some path) :
    path.IsChain fun left right =>
      SameDims left.levels (target.take hardware.spaceDepth).levels ∧
        step? left.levels (target.take hardware.spaceDepth).levels = some right.levels := by
  unfold between? at hpath
  dsimp only at hpath
  split at hpath
  case isFalse => cases hpath
  case isTrue hcolumns =>
    cases hpath
    simp only [Bool.and_eq_true, Hardware.hasColumn, Hardware.columnIndex?_isSome,
      Option.isSome_iff_exists] at hcolumns
    obtain ⟨⟨left, hleft⟩, right, hright⟩ := hcolumns
    have hdims := sameDims_of_indexIn? hleft hright
    simp only [Coordinate.take, Hardware.spaceDepth, List.take_take, Nat.min_self] at hdims
    exact (List.isChain_cons_map Coordinate.mk).mpr (isChain_walk hdims)

theorem isChain_hops {path : List Coordinate} {last : List Position}
    (hpath : path.IsChain fun left right =>
      SameDims left.levels last ∧ step? left.levels last = some right.levels) :
    (hops path).IsChain fun hop next => hop.rank < next.rank := by
  induction hpath with
  | nil => exact .nil
  | singleton => exact .nil
  | cons_cons hfirst hrest induction =>
      rename_i first second rest
      cases hrest with
      | singleton => exact .singleton _
      | cons_cons hsecond hlater =>
          exact .cons_cons (levelRank_lt hfirst.1 hfirst.2 hsecond.2) induction

theorem rank_lt_of_continues {hardware : Hardware} {hop next : Hop}
    (hcontinues : Continues hardware hop next) : hop.rank < next.rank := by
  obtain ⟨source, target, path, hpath, before, after, hconsecutive⟩ := hcontinues
  have hascends := isChain_hops (isChain_between? hpath)
  rw [← hconsecutive] at hascends
  simpa using hascends.left_of_append.right_of_append

/-- Transfers on dimension-ordered routes never wait for one another in a circle, whichever columns
the routes lead between. -/
theorem acyclic_continues (hardware : Hardware) (hop : Hop) :
    ¬Relation.TransGen (Continues hardware) hop hop := by
  have hascends : ∀ next,
      Relation.TransGen (Continues hardware) hop next → hop.rank < next.rank := by
    intro next hwaits
    induction hwaits with
    | single hcontinues => exact rank_lt_of_continues hcontinues
    | tail hwaits hcontinues induction => exact induction.trans (rank_lt_of_continues hcontinues)
  exact fun hcycle => lt_irrefl _ (hascends hop hcycle)

end Route

end TiledPlacement

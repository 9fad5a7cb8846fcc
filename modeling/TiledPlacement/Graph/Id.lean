import Std.Data.ExtTreeMap
import Std.Data.ExtTreeSet

/-!
Identities of blocks and edges. Both kinds are numbered by one source, so that no number ever
names a block and an edge of the same graph.
-/

namespace TiledPlacement

structure TaskId where
  raw : Nat
  deriving DecidableEq, Repr

structure EdgeId where
  raw : Nat
  deriving DecidableEq, Repr

namespace TaskId

instance : Ord TaskId := ⟨fun left right => compare left.raw right.raw⟩

instance : Std.TransOrd TaskId where
  eq_swap := fun {left right} =>
    @Std.OrientedCmp.eq_swap Nat compare _ left.raw right.raw
  isLE_trans := fun {left middle right} =>
    @Std.TransCmp.isLE_trans Nat compare _ left.raw middle.raw right.raw

instance : Std.LawfulEqOrd TaskId where
  eq_of_compare := fun {left right} hequal => by
    cases left
    cases right
    exact congrArg TaskId.mk (Nat.compare_eq_eq.mp hequal)

def text (task : TaskId) : String := "T" ++ toString task.raw

instance : ToString TaskId := ⟨text⟩

end TaskId

namespace EdgeId

instance : Ord EdgeId := ⟨fun left right => compare left.raw right.raw⟩

instance : Std.TransOrd EdgeId where
  eq_swap := fun {left right} =>
    @Std.OrientedCmp.eq_swap Nat compare _ left.raw right.raw
  isLE_trans := fun {left middle right} =>
    @Std.TransCmp.isLE_trans Nat compare _ left.raw middle.raw right.raw

instance : Std.LawfulEqOrd EdgeId where
  eq_of_compare := fun {left right} hequal => by
    cases left
    cases right
    exact congrArg EdgeId.mk (Nat.compare_eq_eq.mp hequal)

def text (edge : EdgeId) : String := "E" ++ toString edge.raw

instance : ToString EdgeId := ⟨text⟩

end EdgeId

abbrev TaskMap (α : Type) := Std.ExtTreeMap TaskId α

abbrev EdgeMap (α : Type) := Std.ExtTreeMap EdgeId α

abbrev TaskSet := Std.ExtTreeSet TaskId

/-- Ids are words of 32 bits; this is the largest. -/
def largestId : Nat := 4294967295

/-- Hands out ids in ascending order and never one that it has seen. -/
structure IdSource where
  next : Nat
  deriving DecidableEq, Repr

namespace IdSource

def task (source : IdSource) : TaskId × IdSource :=
  (⟨source.next⟩, ⟨source.next + 1⟩)

def edge (source : IdSource) : EdgeId × IdSource :=
  (⟨source.next⟩, ⟨source.next + 1⟩)

def observe (source : IdSource) (raw : Nat) : IdSource :=
  ⟨Nat.max source.next (Nat.min (raw + 1) largestId)⟩

end IdSource

end TiledPlacement

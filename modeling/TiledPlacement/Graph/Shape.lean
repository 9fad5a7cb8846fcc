import TiledPlacement.Word

/-!
Shapes and regions of tensors. A shape has six logical axes and two further ones that record the
input extent of a sliding window before padding. An extent of zero says that the axis does not
apply, and such an axis is left out of every comparison.
-/

namespace TiledPlacement

inductive Axis
  | y
  | x
  | f
  | r
  | ky
  | kx
  | iy
  | ix
  deriving DecidableEq, Repr

namespace Axis

/-- The axes that count towards volumes and windows. -/
def logical : List Axis := [.y, .x, .f, .r, .ky, .kx]

def all : List Axis := [.y, .x, .f, .r, .ky, .kx, .iy, .ix]

def splittable : List Axis := [.y, .x, .f, .r]

def isLogical : Axis → Bool
  | .iy => false
  | .ix => false
  | _ => true

theorem mem_logical_iff (axis : Axis) : axis ∈ logical ↔ axis.isLogical = true := by
  cases axis <;> decide

theorem forall_splittable {property : Axis → Prop} :
    (∀ axis ∈ splittable, property axis) ↔
      property .y ∧ property .x ∧ property .f ∧ property .r := by
  simp [splittable]

def text : Axis → String
  | .y => "y"
  | .x => "x"
  | .f => "f"
  | .r => "r"
  | .ky => "ky"
  | .kx => "kx"
  | .iy => "iy"
  | .ix => "ix"

instance : ToString Axis := ⟨text⟩

end Axis

structure Shape where
  y : Nat := 0
  x : Nat := 0
  f : Nat := 0
  r : Nat := 0
  ky : Nat := 0
  kx : Nat := 0
  iy : Nat := 0
  ix : Nat := 0
  deriving DecidableEq, Repr

namespace Shape

def zero : Shape := {}

def plane (y x f : Nat) : Shape := { y, x, f }

def vector (f : Nat) : Shape := { f }

def get (shape : Shape) : Axis → Nat
  | .y => shape.y
  | .x => shape.x
  | .f => shape.f
  | .r => shape.r
  | .ky => shape.ky
  | .kx => shape.kx
  | .iy => shape.iy
  | .ix => shape.ix

def ofFunction (extent : Axis → Nat) : Shape where
  y := extent .y
  x := extent .x
  f := extent .f
  r := extent .r
  ky := extent .ky
  kx := extent .kx
  iy := extent .iy
  ix := extent .ix

@[simp] theorem get_ofFunction (extent : Axis → Nat) (axis : Axis) :
    (ofFunction extent).get axis = extent axis := by
  cases axis <;> rfl

theorem ext_get {left right : Shape} (hget : ∀ axis, left.get axis = right.get axis) :
    left = right := by
  obtain ⟨_, _, _, _, _, _, _, _⟩ := left
  obtain ⟨_, _, _, _, _, _, _, _⟩ := right
  have hy := hget .y
  have hx := hget .x
  have hf := hget .f
  have hr := hget .r
  have hky := hget .ky
  have hkx := hget .kx
  have hiy := hget .iy
  have hix := hget .ix
  simp only [get] at hy hx hf hr hky hkx hiy hix
  simp only [hy, hx, hf, hr, hky, hkx, hiy, hix]

def set (shape : Shape) (axis : Axis) (extent : Nat) : Shape :=
  ofFunction fun other => if other = axis then extent else shape.get other

theorem get_set (shape : Shape) (axis other : Axis) (extent : Nat) :
    (shape.set axis extent).get other = if other = axis then extent else shape.get other := by
  simp only [set, get_ofFunction]

def has (shape : Shape) (axis : Axis) : Bool := decide (0 < shape.get axis)

def product : List Nat → Nat
  | [] => 1
  | extent :: rest => extent * product rest

/-- Product of the logical extents that apply, zero if none does. -/
def elements (shape : Shape) : Nat :=
  match (Axis.logical.map shape.get).filter (fun extent => decide (0 < extent)) with
  | [] => 0
  | extents => product extents

/-- The number of elements as it is computed, in a word. -/
def volume (shape : Shape) : Nat := word shape.elements

theorem volume_eq_elements {shape : Shape} (hfits : shape.elements < wordCount) :
    shape.volume = shape.elements :=
  word_of_lt hfits

/-- Whether the extents are related along every logical axis that both shapes have. -/
def comparable (relation : Nat → Nat → Bool) (left right : Shape) : Bool :=
  Axis.logical.all fun axis =>
    !(left.has axis && right.has axis) || relation (left.get axis) (right.get axis)

def agreesWith (left right : Shape) : Bool :=
  comparable (fun a b => decide (a = b)) left right

def fitsWithin (left right : Shape) : Bool :=
  comparable (fun a b => decide (a ≤ b)) left right

/-- Difference along each axis, zero where `origin` is the larger. -/
def offsetFrom (shape origin : Shape) : Shape :=
  ofFunction fun axis => shape.get axis - origin.get axis

def add (left right : Shape) : Shape :=
  ofFunction fun axis => word (left.get axis + right.get axis)

instance : Add Shape := ⟨add⟩

def text (shape : Shape) : String :=
  let entries := Axis.all.filterMap fun axis =>
    if shape.has axis then some (axis.text ++ "=" ++ toString (shape.get axis)) else none
  "[" ++ String.intercalate ", " entries ++ "]"

instance : ToString Shape := ⟨text⟩

end Shape

/-!
Rectangular regions of a tensor. Intersection keeps the axes that both windows have;
`localize` and `project` carry a part of one window into other coordinates.
-/

structure Window where
  position : Shape := Shape.zero
  size : Shape := Shape.zero
  deriving DecidableEq, Repr

namespace Window

def full (shape : Shape) : Window := ⟨Shape.zero, shape⟩

def volume (window : Window) : Nat := window.size.volume

def stop (window : Window) (axis : Axis) : Nat :=
  window.position.get axis + window.size.get axis

/-- Where the window stops as it is computed, in a word. -/
def limit (window : Window) (axis : Axis) : Nat := word (window.stop axis)

theorem limit_eq_stop {window : Window} {axis : Axis} (hfits : window.stop axis < wordCount) :
    window.limit axis = window.stop axis :=
  word_of_lt hfits

theorem limit_le_stop (window : Window) (axis : Axis) : window.limit axis ≤ window.stop axis :=
  word_le _

def shares (left right : Window) (axis : Axis) : Bool :=
  axis.isLogical && (left.size.has axis && right.size.has axis)

def overlapStart (left right : Window) (axis : Axis) : Nat :=
  Nat.max (left.position.get axis) (right.position.get axis)

def overlapStop (left right : Window) (axis : Axis) : Nat :=
  Nat.min (left.limit axis) (right.limit axis)

/-- The common part of two windows, on the axes that both have; none if they are apart along
such an axis. -/
def intersect? (left right : Window) : Option Window :=
  if Axis.logical.all fun axis =>
      !shares left right axis ||
        decide (overlapStart left right axis < overlapStop left right axis) then
    some {
      position := Shape.ofFunction fun axis =>
        if shares left right axis then overlapStart left right axis else 0
      size := Shape.ofFunction fun axis =>
        if shares left right axis then
          overlapStop left right axis - overlapStart left right axis
        else 0 }
  else
    none

/-- Whether the window lies inside a tensor and has exactly the axes that the tensor has. -/
def within (window : Window) (shape : Shape) : Bool :=
  Axis.logical.all fun axis =>
    if shape.has axis then
      window.size.has axis && decide (window.limit axis ≤ shape.get axis)
    else
      decide (window.position.get axis = 0) && decide (window.size.get axis = 0)

def contains (window inner : Window) : Bool :=
  decide (window.intersect? inner = some inner)

/-- `inner` relative to the origin of the window. -/
def localize (window inner : Window) : Window :=
  ⟨inner.position.offsetFrom window.position, inner.size⟩

/-- The part of `target` that corresponds to the part `inner` of the window. -/
def project (window inner target : Window) : Window :=
  ⟨target.position + inner.position.offsetFrom window.position, inner.size⟩

def text (window : Window) : String := window.size.text ++ "@" ++ window.position.text

instance : ToString Window := ⟨text⟩

end Window

end TiledPlacement

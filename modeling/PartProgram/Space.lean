import PartProgram.Number.Scalar

/-!
# PartProgram.Space

Axes, points and the planes that arcs lie in. Turning the axes `x → y → z → x` takes each plane to
the next one, with its first, second and normal axis.
-/

namespace PartProgram

inductive Axis where
  | x
  | y
  | z
deriving DecidableEq, Repr

namespace Axis

def all : List Axis := [x, y, z]

def letter : Axis → Char
  | x => 'X'
  | y => 'Y'
  | z => 'Z'

/-- The letter of the arc centre offset along the axis. -/
def offsetLetter : Axis → Char
  | x => 'I'
  | y => 'J'
  | z => 'K'

def next : Axis → Axis
  | x => y
  | y => z
  | z => x

end Axis

structure Point (α : Type) where
  x : α
  y : α
  z : α
deriving Repr, BEq

namespace Point

variable {α : Type}

def get (p : Point α) : Axis → α
  | .x => p.x
  | .y => p.y
  | .z => p.z

/-- The point with the given coordinate on each axis. -/
def tabulate (f : Axis → α) : Point α := ⟨f .x, f .y, f .z⟩

def toList (p : Point α) : List α := [p.x, p.y, p.z]

end Point

abbrev Position := Point Float

def Position.origin : Position := ⟨0.0, 0.0, 0.0⟩

/-- A point of a plane. -/
structure PlanePoint (α : Type) where
  first : α
  second : α
deriving Repr, BEq

inductive Plane where
  | xy
  | zx
  | yz
deriving DecidableEq, Repr

namespace Plane

def all : List Plane := [xy, zx, yz]

def code : Plane → String
  | xy => "G17"
  | zx => "G18"
  | yz => "G19"

def ofCode? (code : String) : Option Plane := all.find? (·.code == code)

def first : Plane → Axis
  | xy => .x
  | zx => .z
  | yz => .y

def second : Plane → Axis
  | xy => .y
  | zx => .x
  | yz => .z

def normal : Plane → Axis
  | xy => .z
  | zx => .y
  | yz => .x

variable {α : Type}

/-- The part of a point that lies in the plane. -/
def project (p : Plane) (a : Point α) : PlanePoint α := ⟨a.get p.first, a.get p.second⟩

/-- The point over a point of the plane. -/
def lift (p : Plane) (a : PlanePoint α) (height : α) : Point α :=
  .tabulate fun axis =>
    if axis = p.first then a.first else if axis = p.second then a.second else height

end Plane

end PartProgram

import PartProgram.Number.Binary
import PartProgram.Number.Fault

/-!
# PartProgram.Number.Scalar

The numbers that geometry is written for. `Scalar α` lists the operations that drilling cycles,
arc centres and corner roundings need; doubles are the instance that runs, and an exact field with
square roots is another. What may fail says so in its type: a quotient by zero, a square that
leaves the range, the ceiling of something that is not finite.
-/

namespace PartProgram

open Number (Fault)

class Scalar (α : Type) extends Add α, Sub α, Mul α, Div α, Neg α, LT α, LE α where
  decLt : DecidableLT α
  decLe : DecidableLE α
  ofNat : Nat → α
  abs : α → α
  sqrt : α → α
  /-- length of the vector with these sides -/
  hypot : α → α → α
  /-- quotient, refused for a zero divisor -/
  divide : α → α → Except Fault α
  /-- square, refused where it leaves the range -/
  square : α → Except Fault α
  ceil : α → Except Fault Int

attribute [reducible, instance] Scalar.decLt Scalar.decLe

namespace Scalar

variable {α : Type} [Scalar α]

def zero : α := ofNat 0

/-- The larger of two numbers; the first one where they cannot be told apart. -/
def larger (a b : α) : α := if a < b then b else a

/-- The smaller of two numbers; the first one where they cannot be told apart. -/
def smaller (a b : α) : α := if b < a then b else a

def half (a : α) : α := a / ofNat 2

end Scalar

namespace Number

/-- The whole number next to a double, given how the size of it is rounded. -/
def toWhole (round : Bool → Nat → Nat → Int) (x : Float) : Except Fault Int :=
  if isNaN x then .error .notANumber
  else if isInfinite x then .error .infinite
  else
    let (num, den) := (magnitude x).ratio
    .ok (round (isNegative x) num den)

/-- The least whole number that is not below. -/
def ceil : Float → Except Fault Int :=
  toWhole fun negative num den =>
    if negative then -((num / den : Nat) : Int) else ((num + den - 1) / den : Nat)

/-- The whole part; what stands after the point is dropped. -/
def truncate : Float → Except Fault Int :=
  toWhole fun negative num den =>
    if negative then -((num / den : Nat) : Int) else (num / den : Nat)

/-- The value as a whole number, if it is one. -/
def whole? (x : Float) : Option Int :=
  if isNaN x || isInfinite x then none
  else
    let (num, den) := (magnitude x).ratio
    if num % den = 0 then some (if isNegative x then -((num / den : Nat) : Int) else (num / den : Nat))
    else none

/-- A natural as a double. -/
def ofNat (n : Nat) : Float := ofRatio false n 1

end Number

open Number in
instance : Scalar Float where
  decLt := inferInstance
  decLe := inferInstance
  ofNat := Number.ofNat
  abs := Float.abs
  sqrt := Float.sqrt
  hypot := Number.hypot
  divide a b := if b == 0.0 then .error .divisionByZero else .ok (a / b)
  square a := if isInfinite (a * a) && !isInfinite a then .error .squareOverflow else .ok (a * a)
  ceil := Number.ceil

end PartProgram

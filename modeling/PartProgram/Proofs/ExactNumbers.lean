import Mathlib.Algebra.Order.Floor.Ring
import PartProgram.Number.Scalar

/-!
# PartProgram.Proofs.ExactNumbers

Exact numbers. In an ordered field where every element has a ceiling, the operations that geometry
needs are the mathematical ones, and none but a quotient by zero is refused. A field does not have
every root, so the root is handed in: any function will do where no root is taken.
-/

namespace PartProgram.Scalar

variable {α : Type} [Field α] [LinearOrder α] [FloorRing α]

/-- The exact operations of a field with the given root. -/
@[reducible]
def exact (root : α → α) : Scalar α where
  decLt := inferInstance
  decLe := inferInstance
  ofNat n := n
  abs x := |x|
  sqrt := root
  hypot x y := root (x ^ 2 + y ^ 2)
  divide a b := if b = 0 then .error .divisionByZero else .ok (a / b)
  square a := .ok (a ^ 2)
  ceil x := .ok ⌈x⌉

variable {root : α → α}

theorem exact_zero : @zero α (exact root) = 0 := Nat.cast_zero

theorem exact_divide {a b : α} (h : b ≠ 0) : @divide α (exact root) a b = .ok (a / b) := if_neg h

theorem exact_half (a : α) : @half α (exact root) a = a / 2 :=
  congrArg (a / ·) Nat.cast_ofNat

theorem exact_larger (a b : α) : @larger α (exact root) a b = max a b :=
  (max_def_lt a b).symm

end PartProgram.Scalar

/-!
# PartProgram.Number.Binary

Doubles as exact dyadic numbers. A finite double is a sign and a magnitude `m * 2^e`; reading it
loses nothing, and `ofRatio` goes the other way: it gives the double nearest to a quotient of
naturals, a half going to the even neighbour. Roots and lengths are taken exactly and rounded
once at the end.
-/

namespace PartProgram.Number

/-- Powers of naturals are those of the core library, also where another library has its own. -/
@[default_instance 20000]
instance powNat : Pow Nat Nat := instPowNat

/-- The number `m * 2^e`. -/
structure Magnitude where
  m : Nat
  e : Int
deriving DecidableEq, Repr

/-- The sign bit; it is also set for a negative zero. -/
def isNegative (x : Float) : Bool := 2 ^ 63 ≤ x.toBits.toNat

def isNaN (x : Float) : Bool := 2047 * 2 ^ 52 < x.toBits.toNat % 2 ^ 63

def isInfinite (x : Float) : Bool := x.toBits.toNat % 2 ^ 63 == 2047 * 2 ^ 52

/-- The size of a finite double. -/
def magnitude (x : Float) : Magnitude :=
  let bits := x.toBits.toNat % 2 ^ 63
  let fraction := bits % 2 ^ 52
  match bits / 2 ^ 52 with
  | 0 => ⟨fraction, -1074⟩
  | exponent + 1 => ⟨2 ^ 52 + fraction, (exponent : Int) - 1074⟩

/-- Numerator and denominator of `m * 2^e`. -/
def Magnitude.ratio (a : Magnitude) : Nat × Nat :=
  (a.m * 2 ^ a.e.toNat, 2 ^ (-a.e).toNat)

/-- `num / den` as the nearest natural, a half going to the even one. -/
def roundDiv (num den : Nat) : Nat :=
  let q := num / den
  let r := num % den
  if 2 * r < den then q
  else if den < 2 * r then q + 1
  else q + q % 2

/-- `num / (den * 2^e)` as the nearest natural. -/
def roundShift (num den : Nat) (e : Int) : Nat :=
  roundDiv (num * 2 ^ (-e).toNat) (den * 2 ^ e.toNat)

/-- The bits of the double nearest to `num / den`, for `den` positive: a unit in the last place is
chosen so that the quotient has 53 bits, or is the least one there is. A carry out of the fraction
runs into the exponent, and past the largest exponent stands infinity. -/
def nearestBits (num den : Nat) : Nat :=
  if num = 0 then 0
  else
    let top : Int := (Nat.log2 num : Int) - (Nat.log2 den : Int)
    let full := den * 2 ^ top.toNat ≤ num * 2 ^ (-top).toNat
    let e : Int := max (if full then top - 52 else top - 53) (-1074)
    let m := roundShift num den e
    let bits := if m < 2 ^ 52 then m else m - 2 ^ 52 + (e + 1075).toNat * 2 ^ 52
    min bits (2047 * 2 ^ 52)

/-- The double nearest to `num / den`, with the given sign. -/
def ofRatio (negative : Bool) (num den : Nat) : Float :=
  .ofBits (.ofNat (nearestBits num den + if negative then 2 ^ 63 else 0))

/-- The integer square root, by one digit of base four at a time. -/
def floorSqrtDigits : Nat → Nat → Nat
  | 0, _ => 0
  | digits + 1, n =>
    let r := 2 * floorSqrtDigits digits (n / 4)
    if (r + 1) * (r + 1) ≤ n then r + 1 else r

def floorSqrt (n : Nat) : Nat := floorSqrtDigits (Nat.log2 n / 2 + 1) n

/-- The double nearest to `√n * 2^e`. The root is taken to sixty bits or more; what is left over
only matters for the side of a half it falls on. -/
def rootNearest (n : Nat) (e : Int) : Float :=
  let extra := (64 - Nat.log2 n / 2)
  let scaled := n * 4 ^ extra
  let r := floorSqrt scaled
  let doubled := 2 * r + if r * r = scaled then 0 else 1
  let e := e - extra - 1
  ofRatio false (doubled * 2 ^ e.toNat) (2 ^ (-e).toNat)

/-- Two magnitudes over one exponent. -/
def Magnitude.align (a b : Magnitude) : Nat × Nat × Int :=
  let e := min a.e b.e
  (a.m * 2 ^ (a.e - e).toNat, b.m * 2 ^ (b.e - e).toNat, e)

def infinity : Float := .ofBits (.ofNat (2047 * 2 ^ 52))

def notANumber : Float := .ofBits (.ofNat (4095 * 2 ^ 51))

/-- The length of the vector `(x, y)`, correctly rounded. An infinite side makes it infinite. -/
def hypot (x y : Float) : Float :=
  if isInfinite x || isInfinite y then infinity
  else if isNaN x || isNaN y then notANumber
  else
    let (a, b, e) := (magnitude x).align (magnitude y)
    if a = 0 then y.abs
    else if b = 0 then x.abs
    else rootNearest (a * a + b * b) e

end PartProgram.Number

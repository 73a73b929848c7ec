import PartProgram.Number.Binary

/-!
# PartProgram.Number.Angle

Sine, cosine, tangent and the angle of a vector. All are computed on naturals that count units of
`2^-192` and rounded to a double once, so an answer is the nearest double up to an error far below
half a unit in its last place.
-/

namespace PartProgram.Number

/-- The half turn, as the nearest double. -/
def pi : Float := 3.141592653589793

/-- The full turn. -/
def twoPi : Float := 2.0 * pi

/-- One, in units of `2^-192`. -/
def unit : Nat := 2 ^ 192

/-- The half turn in units of `2^-192`, rounded down. -/
def piUnits : Nat := 19720096697726538562396133364228268891463450865190089732560

/-- `1 - z/d(k) * (1 - z/d(k+1) * (…))`, cut after the given number of terms. -/
def alternating (z : Nat) (d : Nat → Nat) : Nat → Nat → Nat
  | 0, _ => unit
  | terms + 1, k => unit - z * alternating z d terms (k + 1) / unit / d k

/-- Sine of an angle between zero and an eighth turn. -/
def sineUnits (a : Nat) : Nat :=
  a * alternating (a * a / unit) (fun k => 2 * k * (2 * k + 1)) 24 1 / unit

/-- Cosine of an angle between zero and an eighth turn. -/
def cosineUnits (a : Nat) : Nat :=
  alternating (a * a / unit) (fun k => (2 * k - 1) * (2 * k)) 24 1

/-- A signed number of units. -/
structure Signed where
  negative : Bool
  size : Nat

def Signed.toFloat (a : Signed) : Float := ofRatio a.negative a.size unit

/-- Sine and cosine of a finite angle: the angle is taken to the nearest quarter turn and what is
left over is at most an eighth turn. -/
def sineCosine (x : Float) : Signed × Signed :=
  let (num, den) := (magnitude x).ratio
  let a := num * unit / den
  let quarters := (4 * a + piUnits) / (2 * piUnits)
  let corner := quarters * piUnits / 2
  let beyond := corner ≤ a
  let rest := if beyond then a - corner else corner - a
  let s : Signed := ⟨!beyond, sineUnits rest⟩
  let c : Signed := ⟨false, cosineUnits rest⟩
  let turn (v : Signed) : Signed := ⟨!v.negative, v.size⟩
  let (s, c) :=
    match quarters % 4 with
    | 0 => (s, c)
    | 1 => (c, turn s)
    | 2 => (turn s, turn c)
    | _ => (turn c, s)
  (⟨s.negative != isNegative x, s.size⟩, c)

/-- An angle so small that it is its own sine. -/
def isTiny (x : Float) : Bool :=
  let a := magnitude x
  (Nat.log2 a.m : Int) + a.e < -30

def sin (x : Float) : Float :=
  if isNaN x || isInfinite x then notANumber
  else if isTiny x then x
  else (sineCosine x).1.toFloat

def cos (x : Float) : Float :=
  if isNaN x || isInfinite x then notANumber
  else (sineCosine x).2.toFloat

def tan (x : Float) : Float :=
  if isNaN x || isInfinite x then notANumber
  else if isTiny x then x
  else
    let (s, c) := sineCosine x
    ofRatio (s.negative != c.negative) s.size c.size

/-- Euler's series for the arc tangent: `1 + 2/3 q (1 + 4/5 q (1 + …))`. -/
def eulerSeries (q : Nat) : Nat → Nat → Nat
  | 0, _ => unit
  | terms + 1, k => unit + q * eulerSeries q terms (k + 1) / unit * (2 * k) / (2 * k + 1)

/-- The angle whose tangent is `y / x`, for `y ≤ x` and `x` positive. -/
def slopeUnits (y x : Nat) : Nat :=
  let s := x * x + y * y
  (x * y * unit / s) * eulerSeries (y * y * unit / s) 160 1 / unit

/-- The angle of a vector in the first quadrant. -/
def quadrantUnits (y x : Nat) : Nat :=
  if y ≤ x then slopeUnits y x else piUnits / 2 - slopeUnits x y

/-- The angle of the vector `(x, y)` from the first axis, from minus to plus a half turn. It has
the sign of `y`; a zero counts with its sign, so the negative first axis has either end. -/
def atan2 (y x : Float) : Float :=
  if isNaN x || isNaN y then notANumber
  else
    let signed (size : Nat) : Float := ofRatio (isNegative y) size unit
    if isInfinite y then
      if isInfinite x then signed (if isNegative x then piUnits * 3 / 4 else piUnits / 4)
      else signed (piUnits / 2)
    else if isInfinite x then signed (if isNegative x then piUnits else 0)
    else
      let (b, a, _) := (magnitude y).align (magnitude x)
      if b = 0 then signed (if isNegative x then piUnits else 0)
      else if a = 0 then signed (piUnits / 2)
      else if isNegative x then signed (piUnits - quadrantUnits b a)
      else if b * 2 ^ 30 < a then ofRatio (isNegative y) b a
      else signed (quadrantUnits b a)

end PartProgram.Number

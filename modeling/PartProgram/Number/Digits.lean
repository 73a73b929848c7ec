import PartProgram.Number.Binary

/-!
# PartProgram.Number.Digits

Which decimal digits stand for a double. `significant n` rounds it to `n` digits, `shortest` takes
the fewest digits that read back to it, and `fixed n` rounds it to `n` places. All three work on
the exact value in naturals.
-/

namespace PartProgram.Number

/-- The number `digits * 10^(exponent + 1 - count)`: `count` digits, the first of them not zero and
worth `10^exponent`. Zero is `⟨0, 1, 0⟩`. -/
structure Digits where
  digits : Nat
  count : Nat
  exponent : Int
deriving DecidableEq, Repr

/-- `num / den` in units of `10^k`, as a quotient. -/
def inUnits (num den : Nat) (k : Int) : Nat × Nat :=
  (num * 10 ^ (-k).toNat, den * 10 ^ k.toNat)

/-- `10^k ≤ num / den`. -/
def reaches (num den : Nat) (k : Int) : Bool :=
  let (n, d) := inUnits num den k
  d ≤ n

/-- Steps up from `k` to the exponent of the first digit. -/
def raise (num den : Nat) : Nat → Int → Int
  | 0, k => k
  | fuel + 1, k => if reaches num den (k + 1) then raise num den fuel (k + 1) else k

/-- The exponent of the first digit of `num / den`: the one that the binary logarithm gives, less
two, and then at most a few steps up. -/
def leadingExponent (num den : Nat) : Int :=
  let bits : Int := (Nat.log2 num : Int) - (Nat.log2 den : Int)
  raise num den 6 (bits * 30103 / 100000 - 2)

/-- Rounding up may have given a power of ten with a digit too many. -/
def Digits.carry (digits count : Nat) (exponent : Int) : Digits :=
  if digits = 10 ^ count then ⟨digits / 10, count, exponent + 1⟩ else ⟨digits, count, exponent⟩

/-- `num / den` to `count` significant digits, a half going to the even digit. -/
def significantOf (num den count : Nat) : Digits :=
  if num = 0 then ⟨0, 1, 0⟩
  else
    let k := leadingExponent num den
    let (n, d) := inUnits num den (k + 1 - count)
    Digits.carry (roundDiv n d) count k

def significant (count : Nat) (x : Float) : Digits :=
  let (num, den) := (magnitude x).ratio
  significantOf num den count

/-- The numbers that round to a magnitude, as the ends of an interval in quarters of its unit. -/
def Magnitude.neighbourhood (a : Magnitude) : Nat × Nat :=
  (4 * a.m - (if a.m = 2 ^ 52 ∧ -1074 < a.e then 1 else 2), 4 * a.m + 2)

/-- Whether `digits * 10^k` reads back to the magnitude. Both ends of the interval belong to an even
one. -/
def Magnitude.readsBack (a : Magnitude) (digits : Nat) (k : Int) : Bool :=
  let (low, high) := a.neighbourhood
  let e := a.e - 2
  let scaled := digits * 10 ^ k.toNat * 2 ^ (-e).toNat
  let low := low * 10 ^ (-k).toNat * 2 ^ e.toNat
  let high := high * 10 ^ (-k).toNat * 2 ^ e.toNat
  if a.m % 2 = 0 then low ≤ scaled && scaled ≤ high else low < scaled && scaled < high

/-- The best number of `count` digits that reads back, if there is one: one of the two neighbours on
the grid, the nearer one if both do. -/
def Magnitude.shortestAt (a : Magnitude) (exponent : Int) (count : Nat) : Option Digits :=
  let (num, den) := a.ratio
  let k := exponent + 1 - count
  let (n, d) := inUnits num den k
  let below := n / d
  let above := below + 1
  let result (digits : Nat) := some (Digits.carry digits count exponent)
  match a.readsBack below k, a.readsBack above k with
  | true, true => result (if roundDiv n d = below then below else above)
  | true, false => result below
  | false, true => result above
  | false, false => none

/-- The fewest digits that read back; seventeen always do. -/
def shortest (x : Float) : Digits :=
  let a := magnitude x
  let (num, den) := a.ratio
  if num = 0 then ⟨0, 1, 0⟩
  else
    let exponent := leadingExponent num den
    ((List.range 17).findSome? fun n => a.shortestAt exponent (n + 1)).getD
      (significantOf num den 17)

/-- The size of a double in units of the given decimal place. -/
def fixed (places : Nat) (x : Float) : Nat :=
  let (num, den) := (magnitude x).ratio
  roundDiv (num * 10 ^ places) den

/-- A double rounded to decimal places and read back. -/
def roundPlaces (places : Nat) (x : Float) : Float :=
  if isNaN x || isInfinite x then x
  else ofRatio (isNegative x) (fixed places x) (10 ^ places)

end PartProgram.Number

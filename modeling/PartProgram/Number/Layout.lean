import PartProgram.Number.Digits

/-!
# PartProgram.Number.Layout

How chosen digits are written. A `Layout` is the list of decisions of one output format; `exact`,
`general` and the functions for fixed places and for scientific form are the formats of this
library.
-/

namespace PartProgram.Number

/-- The decisions of a format that chooses between positional and scientific form. -/
structure Layout where
  /-- positional form is used from this exponent of the first digit -/
  least : Int
  /-- up to below this one -/
  limit : Int
  /-- a whole number in positional form keeps the digit after its point -/
  keepsPoint : Bool

def digitChars (n : Nat) : List Char := (toString n).toList

def zeros (n : Nat) : List Char := List.replicate n '0'

/-- The digits with the last zeros left out. -/
def dropZeros (cs : List Char) : List Char :=
  (cs.reverse.dropWhile (· == '0')).reverse

/-- A whole part and what follows the point, which is left out with nothing after it. -/
def pointed (whole rest : List Char) : List Char :=
  if rest.isEmpty then whole else whole ++ '.' :: rest

/-- An exponent: its sign and at least two digits. -/
def exponentChars (e : Int) : List Char :=
  let digits := digitChars e.natAbs
  'e' :: (if e < 0 then '-' else '+') :: (if digits.length < 2 then '0' :: digits else digits)

def Digits.scientific (d : Digits) (rest : List Char → List Char) : List Char :=
  let cs := digitChars d.digits
  pointed (cs.take 1) (rest (cs.drop 1)) ++ exponentChars d.exponent

/-- Digits before and after the point of the positional form. -/
def Digits.positional (d : Digits) : List Char × List Char :=
  let cs := digitChars d.digits
  if d.exponent < 0 then (['0'], dropZeros (zeros (-d.exponent - 1).toNat ++ cs))
  else
    let n := d.exponent.toNat + 1
    (cs.take n ++ zeros (n - cs.length), dropZeros (cs.drop n))

def Layout.write (l : Layout) (d : Digits) : List Char :=
  if l.least ≤ d.exponent ∧ d.exponent < l.limit then
    let (whole, rest) := d.positional
    pointed whole (if l.keepsPoint && rest.isEmpty then ['0'] else rest)
  else d.scientific dropZeros

/-- Sign and text of a double, given how a finite size is written. -/
def signed (write : Float → List Char) (x : Float) : String :=
  if isNaN x then "nan"
  else
    let body := if isInfinite x then ['i', 'n', 'f'] else write x
    .ofList (if isNegative x then '-' :: body else body)

/-- Coordinates in full: the fewest digits that read back, positional from `10^-4` to below
`10^16`, and a whole number keeps one digit after the point. -/
def exactLayout : Layout := ⟨-4, 16, true⟩

def exact : Float → String := signed fun x => exactLayout.write (shortest x)

/-- Numbers in messages and codes: six significant digits without zeros at the end. -/
def generalLayout : Layout := ⟨-4, 6, false⟩

def general : Float → String := signed fun x => generalLayout.write (significant 6 x)

/-- The digits of a count of `10^-places`, at least one of them before the point. -/
def placed (places n : Nat) : List Char :=
  let cs := digitChars n
  let cs := zeros (places + 1 - cs.length) ++ cs
  pointed (cs.take (cs.length - places)) (cs.drop (cs.length - places))

/-- A fixed number of decimal places. -/
def fixedText (places : Nat) : Float → String := signed fun x => placed places (fixed places x)

/-- Scientific form with a fixed number of decimal places. -/
def scientificText (places : Nat) : Float → String := signed fun x =>
  let d := significant (places + 1) x
  d.scientific fun rest => rest ++ zeros (places - rest.length)

end PartProgram.Number

import PartProgram.Number.Binary
import PartProgram.Text.Blank
import PartProgram.Text.Digit

/-!
# PartProgram.Number.Numeral

Numbers as they are written. A word of a program carries a plain numeral: a sign, digits, a point.
Settings and arguments allow more, an exponent, underscores between digits and the names of
infinity and of what is not a number. Digits of every script count. The value is the nearest
double, so a numeral that is too large is infinite.
-/

namespace PartProgram.Number

open Text

def isSign (c : Char) : Bool := c = '+' || c = '-'

/-- Digits with a point before, among or after them, and the text that follows. -/
def magnitude? (cs : List Char) : Option (List Char × List Char) :=
  let (whole, rest) := spanDigits cs
  match rest with
  | '.' :: after =>
    let (places, rest) := spanDigits after
    if whole.isEmpty && places.isEmpty then none else some (whole ++ '.' :: places, rest)
  | _ => if whole.isEmpty then none else some (whole, rest)

/-- The longest numeral at the head of a text, and the text that follows. -/
def numeral? : List Char → Option (List Char × List Char)
  | [] => none
  | c :: rest =>
    if isSign c then (magnitude? rest).map fun (digits, rest) => (c :: digits, rest)
    else magnitude? (c :: rest)

/-- The digits of a numeral in one row, and how many of them follow the point. -/
def placesOf (cs : List Char) : List Char × Nat :=
  let (whole, rest) := spanDigits cs
  match rest with
  | '.' :: after =>
    let (places, _) := spanDigits after
    (whole ++ places, places.length)
  | _ => (whole, 0)

/-- Sign and what follows it. -/
def splitSign : List Char → Bool × List Char
  | [] => (false, [])
  | c :: rest => if isSign c then (c = '-', rest) else (false, c :: rest)

/-- The value of a plain numeral. -/
def numeralValue (cs : List Char) : Float :=
  let (negative, cs) := splitSign cs
  let (digits, places) := placesOf cs
  ofRatio negative (digitsValue digits) (10 ^ places)

/-- `m * 10^e` to the nearest double. Where the exponent alone decides, the power is not formed. -/
def ofDecimal (negative : Bool) (m : Nat) (e : Int) : Float :=
  let size : Int := (Nat.log2 m : Int) * 30103 / 100000 + e
  if m = 0 || size < -400 then ofRatio negative 0 1
  else if 400 < size then (if negative then -infinity else infinity)
  else ofRatio negative (m * 10 ^ e.toNat) (10 ^ (-e).toNat)

/-- One character as ASCII: digits and blanks of every script have their ASCII form, and nothing
else beyond ASCII belongs to a number. -/
def asciiForm? (c : Char) : Option Char :=
  if c.toNat < 127 then some c
  else if isBlank c then some ' '
  else (digit? c).map fun d => .ofNat ('0'.toNat + d)

def isAsciiBlank (c : Char) : Bool := c = ' ' || (9 ≤ c.toNat && c.toNat ≤ 13)

/-- The text without its underscores, each of which must have a digit on either side. -/
def dropUnderscores (previous : Char) : List Char → Option (List Char)
  | [] => if previous = '_' then none else some []
  | c :: rest =>
    if c = '_' then
      if previous.isDigit then dropUnderscores c rest else none
    else if previous = '_' && !c.isDigit then none
    else (dropUnderscores c rest).map (c :: ·)

/-- The exponent that ends a number, zero if there is none. -/
def exponent? : List Char → Option Int
  | [] => some 0
  | c :: rest =>
    if c = 'e' || c = 'E' then
      let (negative, digits) := splitSign rest
      if digits.isEmpty || !digits.all Char.isDigit then none
      else
        let size := digitsValue digits
        some (if negative then -size else size)
    else none

/-- Names of the values that have no digits. -/
def namedValue? (cs : List Char) : Option Float :=
  match String.ofList (cs.map Char.toLower) with
  | "inf" | "infinity" => some infinity
  | "nan" => some notANumber
  | _ => none

/-- A number as settings and arguments write it. -/
def parse? (s : String) : Option Float := do
  let ascii ← s.toList.mapM asciiForm?
  let body := ((ascii.dropWhile isAsciiBlank).reverse.dropWhile isAsciiBlank).reverse
  let body ← dropUnderscores ' ' body
  let (negative, body) := splitSign body
  match namedValue? body with
  | some x => some (if negative then -x else x)
  | none =>
    let (mantissa, rest) ← magnitude? body
    let e ← exponent? rest
    let (digits, places) := placesOf mantissa
    some (ofDecimal negative (digitsValue digits) (e - places))

end PartProgram.Number

import PartProgram.Fault

/-!
# PartProgram.Number.Printed

Numbers as they are written into a program: rounded to decimal places, without the zeros at the end
and without a point at the end. Zeros at the end are dropped from a whole number as well, which only
shows when no places are asked for.
-/

namespace PartProgram.Number

/-- The places of a coordinate. -/
def coordinatePlaces : Nat := 3

/-- The text without the points at its end. -/
def dropPoint (cs : List Char) : List Char := (cs.reverse.dropWhile (· == '.')).reverse

def printedChars (places : Nat) (x : Float) : List Char :=
  let cs := dropPoint (dropZeros (fixedText places x).toList)
  if cs.isEmpty || cs = ['-', '0'] then ['0'] else cs

/-- A number with at most the given places. -/
def printed (places : Nat) (x : Float) : String := .ofList (printedChars places x)

/-- The same with a sign in any case. -/
def printedSigned (places : Nat) (x : Float) : String :=
  let cs := printedChars places x
  .ofList (if cs.head? = some '-' then cs else '+' :: cs)

/-- A number of places that may turn out to be none at all. -/
def places (n : Int) : Except PartProgram.Fault Nat := if n < 0 then .error .places else .ok n.toNat

/-- A coordinate or feed. -/
def coordinate (x : Float) : String := printed coordinatePlaces x

/-- A coordinate of a conversational block. -/
def signedCoordinate (x : Float) : String := printedSigned coordinatePlaces x

end PartProgram.Number

import PartProgram.Text.Blank
import PartProgram.Text.Digit
import PartProgram.Text.WordCharacter

/-!
# PartProgram.Conversational.Numbering

Lines of a conversational program. Each block has its number in front, from zero on; the lines that
go on with a block are indented and have none.
-/

namespace PartProgram.Conversational

open Text

/-- Whether a line goes on with the block before it. -/
def isContinuation (line : String) : Bool := startsBlank line.toList

/-- A text without the number in front of it. A number has a blank after it. -/
def dropNumber (cs : List Char) : List Char :=
  let (digits, after) := spanDigits (trimLeft cs)
  if digits.isEmpty || !startsBlank after then cs else trimLeft after

/-- The text of a block. -/
def unnumbered (line : String) : String := .ofList (dropNumber line.toList)

def dropNumbers (ls : List String) : List String :=
  ls.map fun line => if isContinuation line then line else unnumbered line

def numberFrom (number : Nat) : List String → List String
  | [] => []
  | line :: rest =>
    if isContinuation line then line :: numberFrom number rest
    else (toString number ++ " " ++ unnumbered line) :: numberFrom (number + 1) rest

/-- The lines with new numbers. -/
def renumber (ls : List String) : List String := numberFrom 0 ls

def opening : String := "BEGIN PGM"

def closing : String := "END PGM"

def toolCall : String := "TOOL CALL"

/-- Whether a line opens a conversational program. -/
def isOpening (line : String) : Bool :=
  let body := trimLeft (dropNumber line.toList)
  opening.toList.isPrefixOf body && !(body.drop opening.length).head?.any isWordCharacter

/-- Whether a program is conversational: its first line that is not blank opens one. -/
def isConversational (ls : List String) : Bool :=
  (ls.find? fun line => !allBlank line.toList).any isOpening

end PartProgram.Conversational

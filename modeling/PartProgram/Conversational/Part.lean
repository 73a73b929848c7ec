import PartProgram.Conversational.Entry
import PartProgram.Conversational.Numbering

/-!
# PartProgram.Conversational.Part

A conversational program as the cycle definitions in it and the lines around them. A definition
takes the indented lines that follow its first line.
-/

namespace PartProgram.Conversational

open Text

/-- Whether a line opens a cycle definition that goes on. -/
def opensDefinition (line : String) : Bool :=
  let body := dropNumber line.toList
  !isContinuation line && definitionMark.toList.isPrefixOf body &&
    (trimRight body).getLast? == some '~'

inductive Part where
  | definition (first : String) (parameters : List String)
  | line (text : String)
deriving DecidableEq, Repr

namespace Part

def lines : Part → List String
  | definition first parameters => first :: parameters
  | line text => [text]

/-- The indented lines at the head of a program, and the parts after them. -/
def split : List String → List String × List Part
  | [] => ([], [])
  | text :: rest =>
    let (indented, parts) := split rest
    if isContinuation text then (text :: indented, parts)
    else if opensDefinition text then ([], definition text indented :: parts)
    else ([], line text :: indented.map line ++ parts)

def ofLines (ls : List String) : List Part :=
  let (indented, parts) := split ls
  indented.map line ++ parts

/-- Where the definitions stand: the first line of each and the line after its last. -/
def definitionSpans (start : Nat) : List Part → List (Nat × Nat)
  | [] => []
  | line _ :: rest => definitionSpans (start + 1) rest
  | definition _ parameters :: rest =>
    let stop := start + 1 + parameters.length
    (start, stop) :: definitionSpans stop rest

/-- The parts without the definitions that say again what the last definition before them said. -/
def dropRepeated (active : Option Part) : List Part → List Part
  | [] => []
  | line text :: rest => line text :: dropRepeated active rest
  | definition first parameters :: rest =>
    let d := definition first parameters
    if active == some d then dropRepeated active rest else d :: dropRepeated (some d) rest

end Part

end PartProgram.Conversational

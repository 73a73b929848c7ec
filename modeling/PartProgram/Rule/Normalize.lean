import PartProgram.Rule.Basic

/-!
# PartProgram.Rule.Normalize

Lines and comments that say nothing to the machine.
-/

namespace PartProgram.Rule

open Text

def removeEmptyLines (ls : Lines) : Lines := ls.filter fun line => !allBlank line.toList

def isGap (c : Char) : Bool := c = ' ' || c = '\t'

/-- Spaces and tabs in a row, at least so many of them, for which one blank is enough. -/
def recogniseGap (least : Nat) : Recogniser (List Char)
  | _, cs =>
    let n := (cs.takeWhile isGap).length
    if least ≤ n then some ([' '], n) else none

/-- The code of a line that has comments, without the gaps they leave. -/
def codeAlone (l : CommentedLine) : List Char :=
  trim (replaceAll (recogniseGap 2) (l.codeWith []))

/-- A line without its comments; nothing is left of a line that has nothing else. -/
def removeCommentsOf (line : String) : Option String :=
  let l := CommentedLine.ofChars line.toList
  if l.tail.isEmpty then some line
  else
    let code := codeAlone l
    if code.isEmpty then none else some (.ofList code)

def removeComments (ls : Lines) : Lines := ls.filterMap removeCommentsOf

end PartProgram.Rule

import PartProgram.Job
import PartProgram.Motion
import PartProgram.Notice

/-!
# PartProgram.Rule.Basic

Rules. A rule takes the lines of a program to new lines; many of them look at the walk
through the program to see what each line does.
-/

namespace PartProgram

/-- What a rule comes to. -/
abbrev Revised := Told Lines

/-- A rule that looks at the walk through the program. -/
def Revised.ofWalk (ls : Lines) (f : List Stop → Lines) : Revised := ⟨(walk ls).map f, []⟩

/-- The blocks of numbered lines, with nothing for a line that has none. -/
def readLines (first : Int) : Lines → List (String × Option Block)
  | [] => []
  | raw :: rest => (raw, Block.read? raw first) :: readLines (first + 1) rest

/-- The place of the last element of a kind. -/
def lastIndex? {α : Type} (isKind : α → Bool) : List α → Option Nat
  | [] => none
  | a :: rest =>
    match lastIndex? isKind rest with
    | some n => some (n + 1)
    | none => if isKind a then some 0 else none

/-- A list with other elements put in at a place. -/
def insertAt {α : Type} (place : Nat) (new as : List α) : List α :=
  as.take place ++ new ++ as.drop place

end PartProgram

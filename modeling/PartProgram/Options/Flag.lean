/-!
# PartProgram.Options.Flag

Switches that are known by name. A family of flags lists its members with their names and with how
they stand unless something is said; a setting of all of them is a function, and setting one leaves
the others alone.
-/

namespace PartProgram

class Flag (ι : Type) [DecidableEq ι] where
  all : List ι
  name : ι → String
  /-- how the switch stands unless something is said -/
  standard : ι → Bool

/-- A setting of every switch of a family. -/
abbrev Switches (ι : Type) := ι → Bool

namespace Switches

variable {ι : Type} [DecidableEq ι]

def set (s : Switches ι) (flag : ι) (on : Bool) : Switches ι :=
  fun other => if other = flag then on else s other

variable [Flag ι]

def standard : Switches ι := Flag.standard

def flag? (name : String) : Option ι := (Flag.all : List ι).find? (Flag.name · == name)

/-- Switches by name, in order. A name that is not known is passed over. -/
def setNamed (s : Switches ι) (changes : List (String × Bool)) : Switches ι :=
  changes.foldl (fun s (name, on) =>
    match flag? name with
    | some flag => s.set flag on
    | none => s) s

/-- The names that no switch of the family has. -/
def unknownNames (ι : Type) [DecidableEq ι] [Flag ι] (changes : List (String × Bool)) :
    List String :=
  (changes.map Prod.fst).filter fun name => (flag? name : Option ι).isNone

end Switches

/-- Puts an element where it belongs, after those that go before it or with it. -/
def insertSorted {α : Type} (before : α → α → Bool) (a : α) : List α → List α
  | [] => [a]
  | b :: rest => if before a b then a :: b :: rest else b :: insertSorted before a rest

/-- Stable sort: elements of one rank keep their order. -/
def sortBy {α : Type} (before : α → α → Bool) (as : List α) : List α :=
  as.foldl (fun sorted a => insertSorted before a sorted) []

end PartProgram

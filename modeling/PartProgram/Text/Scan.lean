/-!
# PartProgram.Text.Scan

Leftmost matches in a text. A `Recogniser` looks at a text from one position on and says what it
finds there and how many characters that takes; `scan` runs it along a text, and what it does not
find stays as single characters. Matches do not overlap.
-/

namespace PartProgram.Text

/-- What stands at the head of a text, given the character before it. -/
abbrev Recogniser (α : Type) := Option Char → List Char → Option (α × Nat)

variable {α : Type}

/-- The text from a position on, of which the next `skip` characters belong to a match already. -/
def scanFrom (recognise : Recogniser α) (previous : Option Char) : Nat → List Char → List (Char ⊕ α)
  | _, [] => []
  | skip + 1, c :: rest => scanFrom recognise (some c) skip rest
  | 0, c :: rest =>
    match recognise previous (c :: rest) with
    | some (a, n) => .inr a :: scanFrom recognise (some c) (n - 1) rest
    | none => .inl c :: scanFrom recognise (some c) 0 rest

def scan (recognise : Recogniser α) (cs : List Char) : List (Char ⊕ α) :=
  scanFrom recognise none 0 cs

/-- The matches alone. -/
def matchesOf (recognise : Recogniser α) (cs : List Char) : List α :=
  (scan recognise cs).filterMap fun
    | .inl _ => none
    | .inr a => some a

/-- The text with every match replaced. -/
def replaceAll (recognise : Recogniser (List Char)) (cs : List Char) : List Char :=
  (scan recognise cs).flatMap fun
    | .inl c => [c]
    | .inr new => new

/-- The first match, with the text before it and the text after it. -/
def firstMatch (recognise : List Char → Option (α × Nat)) :
    List Char → Option (List Char × α × List Char)
  | [] => none
  | c :: rest =>
    match recognise (c :: rest) with
    | some (a, n) => some ([], a, (c :: rest).drop n)
    | none => (firstMatch recognise rest).map fun (before, a, after) => (c :: before, a, after)

/-- How many characters of a text were taken to leave the rest. -/
def taken (cs rest : List Char) : Nat := cs.length - rest.length

end PartProgram.Text

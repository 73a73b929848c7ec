import PartProgram.Rule.Basic

/-!
# PartProgram.Rule.Corners

Corners between straight feed moves are rounded where the turn is neither slight nor sharp and both
moves are long enough. When a corner is rounded is decided for every kind of number, so what holds
of it in exact arithmetic can be said.
-/

namespace PartProgram.Rule

variable {α : Type} [Scalar α]

/-- The radius of every corner that is rounded. -/
def cornerRadius : α := Scalar.half (Scalar.ofNat 1)

/-- A move shorter than this has no direction. -/
def shortest : α := Scalar.ofNat 1 / Scalar.ofNat 1000000000

/-- A direction of length one in the plane, and how far a move goes in it. -/
structure Heading (α : Type) where
  first : α
  second : α
  length : α

/-- The heading of a move that keeps its height. -/
def heading? (start finish : Point α) : Option (Heading α) :=
  let dx := finish.x - start.x
  let dy := finish.y - start.y
  let length := Scalar.hypot dx dy
  if length < shortest ∨ ¬ (start.z ≤ finish.z ∧ finish.z ≤ start.z) then none
  else some ⟨dx / length, dy / length, length⟩

/-- The cosine of the angle by which the way turns from one heading to the next. -/
def turnCosine (a b : Heading α) : α := a.first * b.first + a.second * b.second

/-- A corner is rounded between moves of at least two radii that turn by 30 to 150 degrees, which is
where the square of the cosine is at most three quarters. -/
def isRoundable (a b : Heading α) : Bool :=
  let cosine := turnCosine a b
  ¬ Scalar.smaller a.length b.length < Scalar.ofNat 2 * cornerRadius ∧
    Scalar.ofNat 4 * (cosine * cosine) ≤ Scalar.ofNat 3

/-- Whether the corner between two moves that follow each other is rounded. -/
def roundsCorner (start corner next finish : Point α) : Bool :=
  match heading? start corner, heading? next finish with
  | some a, some b => isRoundable a b
  | _, _ => false

def cornerWord : Corner := ⟨'R', "0.5"⟩

/-- The straight feed move of a block. -/
def straightFeed? (r : Resolution) : Option Motion :=
  match r.effect with
  | .motion m => if m.action matches .linear then some m else none
  | _ => none

/-- The next line that works the machine. -/
def nextWork? (stops : List Stop) : Option Resolution :=
  stops.findSome? fun s => s.resolution?.filter Resolution.isWork

/-- The block with its corner rounded towards the lines that follow, if the corner asks for it. -/
def rounded? (s : Stop) (rest : List Stop) : Option Block := do
  let (b, r) ← s.found
  if b.corner.isSome then none
  else
    let m ← straightFeed? r
    let n ← (nextWork? rest).bind straightFeed?
    if roundsCorner m.start m.finish n.start n.finish then some { b with corner := some cornerWord }
    else none

def roundCornersOf : List Stop → Lines
  | [] => []
  | s :: rest => ((rounded? s rest).map Block.render).getD s.raw :: roundCornersOf rest

def roundCorners (ls : Lines) : Revised := .ofWalk ls roundCornersOf

end PartProgram.Rule

import PartProgram.Block
import PartProgram.Space

/-!
# PartProgram.Modal

What a machine remembers from block to block: how coordinates are meant, the plane of arcs, where
the tool is, the feed, and the way of moving that goes on until it is changed. A state is a value;
every block takes one to the next.
-/

namespace PartProgram

inductive Positioning where
  | absolute
  | incremental
deriving DecidableEq, Repr

def Positioning.code : Positioning → Code
  | absolute => "G90"
  | incremental => "G91"

/-- The words of a canned cycle, which hold until `G80`. -/
structure ActiveCycle where
  code : Code
  z : Float
  r : Float
  peck : Option Float := none
  dwell : Option Float := none
deriving Repr, BEq

structure Modal where
  positioning : Positioning := .absolute
  plane : Plane := .xy
  position : Position := .origin
  feed : Option Float := none
  /-- the way of moving that a block without a motion code repeats -/
  motion : Option Code := none
  cycle : Option ActiveCycle := none
deriving Repr

namespace Modal

def initial : Modal := {}

def movedTo (m : Modal) (p : Position) : Modal := { m with position := p }

/-- The effect of one code on the modes. A motion mode ends a canned cycle, `G80` ends the motion
mode as well, and a cycle code only ends the motion mode: the cycle itself begins when the block is
resolved. -/
def applyCode (m : Modal) (code : Code) : Modal :=
  if code = "G90" then { m with positioning := .absolute }
  else if code = "G91" then { m with positioning := .incremental }
  else if let some plane := Plane.ofCode? code then { m with plane := plane }
  else if code = "G80" then { m with cycle := none, motion := none }
  else if code ∈ Code.motionModes then { m with motion := some code, cycle := none }
  else if code ∈ Code.cycles then { m with motion := none }
  else m

/-- The code that moves a block is the one left in force. -/
def applyDominant (m : Modal) (b : Block) : Modal :=
  match b.dominant? with
  | some code => if code ∈ Code.motionModes then { m with motion := some code, cycle := none } else m
  | none => m

/-- The state after the modal words of a block, before it moves. -/
def apply (m : Modal) (b : Block) : Modal :=
  let m := ((b.codes 'G').foldl applyCode m).applyDominant b
  { m with feed := b.value 'F' <|> m.feed }

/-- The coordinate a block asks for on one axis: the word itself, or the word as a step from here.
Without a word the tool stays. -/
def targetOn (m : Modal) (b : Block) (axis : Axis) : Float :=
  let here := m.position.get axis
  match b.value axis.letter with
  | none => here
  | some value =>
    match m.positioning with
    | .absolute => value
    | .incremental => here + value

def target (m : Modal) (b : Block) : Position := .tabulate (m.targetOn b)

end Modal

/-- Whether the block names a linear axis. -/
def Block.hasAxis (b : Block) : Bool := b.has axisLetters

/-- Whether a block goes from one point to another: it names an axis on which they differ. -/
def Block.moves (b : Block) (start finish : Position) : Bool :=
  Axis.all.any fun axis => b.has [axis.letter] && start.get axis != finish.get axis

end PartProgram

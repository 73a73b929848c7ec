import PartProgram.Arc
import PartProgram.Number.Printed

/-!
# PartProgram.Conversational.Entry

Blocks of a conversational program and how they are written. A path block says where the tool goes,
how fast, and which auxiliary codes go with it. Coordinates and parameters always have a sign.
-/

namespace PartProgram.Conversational

open Number (coordinate signedCoordinate)

/-- A coordinate to go to, or a step along an axis. -/
structure Coordinate where
  axis : Axis
  isStep : Bool := false
  value : Float
deriving Repr

/-- A coordinate of a point. -/
def Coordinate.ofPoint (p : Position) (axis : Axis) : Coordinate :=
  { axis := axis, value := p.get axis }

def Coordinate.render (c : Coordinate) : String :=
  (if c.isStep then "I" else "") ++ .singleton c.axis.letter ++ signedCoordinate c.value

inductive PathFeed where
  | rapid
  | feed (value : Float)
  /-- the feed stays as it is -/
  | same
deriving Repr

def PathFeed.words : PathFeed → List String
  | rapid => ["FMAX"]
  | feed value => ["F" ++ coordinate value]
  | same => []

inductive Path where
  | straight
  /-- about the centre that was set last -/
  | about (direction : Direction)
  | withRadius (radius : Float) (direction : Direction)
deriving Repr

def rotation : Direction → String
  | .clockwise => "DR-"
  | .counterclockwise => "DR+"

def Path.keyword : Path → String
  | straight => "L"
  | about _ => "C"
  | withRadius _ _ => "CR"

/-- The words between the coordinates and the feed; the tool radius is never compensated. -/
def Path.words : Path → List String
  | straight => ["R0"]
  | about d => [rotation d, "R0"]
  | withRadius r d => ["R" ++ signedCoordinate r, rotation d, "R0"]

structure Move where
  path : Path := .straight
  coordinates : List Coordinate
  feed : PathFeed
  codes : List Code := []
deriving Repr

def Move.render (m : Move) : String :=
  " ".intercalate
    (m.path.keyword :: m.coordinates.map Coordinate.render ++ m.path.words ++ m.feed.words ++
      m.codes)

structure Parameter where
  number : Nat
  value : Float
  label : String
deriving Repr

def Parameter.render (p : Parameter) : String :=
  "  Q" ++ toString p.number ++ "=" ++ signedCoordinate p.value ++ " ;" ++ p.label

/-- A cycle and its parameters; it is worked where it is called. -/
structure Definition where
  number : Nat
  name : String
  parameters : List Parameter
deriving Repr

/-- Lines of which each one but the last says that the block goes on. -/
def continued : List String → List String
  | [] => []
  | [line] => [line]
  | line :: rest => (line ++ " ~") :: continued rest

def definitionMark : String := "CYCL DEF"

def Definition.lines (d : Definition) : List String :=
  continued ((definitionMark ++ " " ++ toString d.number ++ " " ++ d.name) ::
    d.parameters.map Parameter.render)

inductive Entry where
  | move (m : Move)
  /-- auxiliary codes alone -/
  | auxiliary (codes : List Code)
  | centre (first second : Coordinate)
  /-- a tool with its speed, or a new speed for the tool in use -/
  | toolCall (tool : Option Int) (speed : Option Float)
  | definition (d : Definition)
  | dwell (seconds : Float)
  | remark (text : String)
  | blankFrom (corner : Position)
  | blankTo (corner : Position)
  | opening (name : String)
  | closing (name : String)
deriving Repr

def corner (p : Position) : String :=
  " ".intercalate (Axis.all.map fun axis => (Coordinate.ofPoint p axis).render)

def Entry.lines : Entry → List String
  | move m => [m.render]
  | auxiliary codes => [" ".intercalate ("L" :: codes)]
  | centre first second => ["CC " ++ first.render ++ " " ++ second.render]
  | toolCall tool speed =>
    [" ".intercalate
      ("TOOL CALL" :: tool.toList.map toString ++ ["Z"] ++
        speed.toList.map fun s => "S" ++ coordinate s)]
  | definition d => d.lines
  | dwell seconds =>
    ["CYCL DEF 9.0 DWELL TIME", "CYCL DEF 9.1 DWELL " ++ coordinate seconds]
  | remark text => ["; " ++ text]
  | blankFrom p => ["BLK FORM 0.1 Z " ++ corner p]
  | blankTo p => ["BLK FORM 0.2 " ++ corner p]
  | opening name => ["BEGIN PGM " ++ name ++ " MM"]
  | closing name => ["END PGM " ++ name ++ " MM"]

end PartProgram.Conversational

import PartProgram.Motion

/-!
# PartProgram.Toolpath

The way of the tool as a list of waypoints. Every block of a program gives the points it passes
through, in order; a toolpath is what all blocks give, with the warnings and the cycles met on the
way and the box that holds every point.
-/

namespace PartProgram

open Number (isNaN)

inductive WaypointKind where
  | rapid
  | feed
  | arc
  | dwell
  | shape
deriving DecidableEq, Repr

def WaypointKind.name : WaypointKind → String
  | rapid => "rapid"
  | feed => "feed"
  | arc => "arc"
  | dwell => "dwell"
  | shape => "shape"

structure Waypoint where
  position : Position
  kind : WaypointKind
  line : Int
  feed : Option Float := none
  isRapid : Bool := false
  /-- on the first point of an arc -/
  arc : Option Arc := none
  cycle : Option FixedCycle := none
  /-- on the marker that opens a shape -/
  shape : Option ShapeInfo := none
  /-- on the points of a shape -/
  shapeKind : Option ShapeKind := none
  isMarker : Bool := false
  dwell : Option Float := none
deriving Repr

/-- The points of a block and what is to be said about them. -/
structure Emission where
  points : List Waypoint
  warnings : List Warning := []
deriving Repr

def PhaseKind.waypointKind : PhaseKind → WaypointKind
  | rapid => .rapid
  | feed => .feed
  | dwell => .dwell

/-- A phase of a cycle as a waypoint; a rapid has no feed. -/
def Phase.waypoint (p : Phase Float) (c : FixedCycle) (feed : Option Float) : Waypoint :=
  { position := ⟨p.x, p.y, p.z⟩
    kind := p.kind.waypointKind
    line := c.line
    feed := if p.kind = .rapid then none else feed
    isRapid := p.kind = .rapid
    cycle := some c
    dwell := p.dwell }

def FixedCycle.emission (c : FixedCycle) (feed : Option Float) : Except Fault Emission := do
  let e ← c.phases
  return ⟨e.phases.map fun p => p.waypoint c feed, e.warnings⟩

namespace Motion

/-- A point of the motion with nothing special about it. -/
def point (m : Motion) (position : Position) (kind : WaypointKind) : Waypoint :=
  { position := position, kind := kind, line := m.line, feed := m.feed }

def arcPoints (m : Motion) (a : Arc) : List Position → List Waypoint
  | [] => []
  | p :: rest => { m.point p .arc with arc := some a } :: rest.map (m.point · .arc)

/-- A shape stands between two markers, where the tool comes from and where it goes on. -/
def shapePoints (m : Motion) (kind : ShapeKind) (sizes : List (String × Float))
    (points : List Position) : List Waypoint :=
  { m.point m.start .shape with shape := some ⟨kind, sizes⟩, isMarker := true } ::
    (points.map fun p => { m.point p .shape with shapeKind := some kind }) ++
      [{ m.point m.finish .shape with isMarker := true }]

def emission (m : Motion) (resolution : Float) : Except Fault Emission :=
  match m.action with
  | .rapid => .ok { points := [{ m.point m.finish .rapid with isRapid := true }] }
  | .linear => .ok { points := [m.point m.finish .feed] }
  | .dwell seconds => .ok { points := [{ m.point m.finish .dwell with dwell := seconds }] }
  | .arc a => do
    let ends ← a.chordEnds m.start m.finish resolution
    return { points := m.arcPoints a ends }
  | .shape kind b => do
    match ← Shape.expand kind m.start m.finish b resolution with
    | .milled sizes points => return { points := m.shapePoints kind sizes points }
    | .skipped reason =>
      return {
        points := if b.moves m.start m.finish then [m.point m.finish .feed] else []
        warnings := [.shapeSkipped kind.code reason] }

end Motion

def Resolution.emission (r : Resolution) (settings : Settings) : Except Fault Emission :=
  match r.effect with
  | .none => .ok { points := [] }
  | .cycle c => c.emission r.state.feed
  | .motion m => m.emission settings.resolution

/-- A block on its way through the machine: the state it met and what came of it. -/
structure Passage where
  block : Block
  before : Modal
  resolution : Resolution
  emission : Emission
deriving Repr

namespace Passage

def points (p : Passage) : List Waypoint := p.emission.points

/-- What is said about the block: first how it was taken, then how it was expanded. -/
def warnings (p : Passage) : List LineWarning :=
  (p.resolution.warnings ++ p.emission.warnings).map fun w => ⟨p.block.line, w⟩

end Passage

/-- The passage of every block of numbered lines, from the given state. -/
def Modal.passFrom (settings : Settings) (m : Modal) (lineNumber : Int) :
    List String → Except Fault (List Passage)
  | [] => .ok []
  | raw :: rest =>
    match Block.read? raw lineNumber with
    | none => m.passFrom settings (lineNumber + 1) rest
    | some b => do
      let r ← m.resolve settings b
      let e ← r.emission settings
      let passages ← r.state.passFrom settings (lineNumber + 1) rest
      return ⟨b, m, r, e⟩ :: passages

/-- A box along the axes. -/
structure Bounds where
  minimum : Position
  maximum : Position
deriving Repr

namespace Bounds

/-- The lesser of two coordinates; what is not a number stays. -/
def least (a b : Float) : Float := if isNaN a || a ≤ b then a else b

def greatest (a b : Float) : Float := if isNaN a || b ≤ a then a else b

def join (f : Float → Float → Float) (p q : Position) : Position :=
  .tabulate fun axis => f (p.get axis) (q.get axis)

def ofPoints? : List Position → Option Bounds
  | [] => none
  | p :: rest => some ⟨rest.foldl (join least) p, rest.foldl (join greatest) p⟩

/-- Whether every coordinate lies between its two limits; what has no limit is not checked. -/
def within (minimum maximum point : List Float) : Bool :=
  (point.zip (minimum.zip maximum)).all fun (v, lo, hi) => lo ≤ v && v ≤ hi

def defaultTolerance : Float := 1e-9

def contains (b : Bounds) (point : List Float) (tolerance : Float) : Bool :=
  within (b.minimum.toList.map (· - tolerance)) (b.maximum.toList.map (· + tolerance)) point

end Bounds

structure Toolpath where
  points : List Waypoint
  warnings : List LineWarning
  cycles : List FixedCycle
  bounds : Option Bounds
deriving Repr

namespace Toolpath

def ofPassages (ps : List Passage) : Toolpath :=
  let points := ps.flatMap Passage.points
  { points := points
    warnings := ps.flatMap Passage.warnings
    cycles := ps.filterMap fun p => p.resolution.cycle?
    bounds := Bounds.ofPoints? (points.map Waypoint.position) }

/-- Whether there is no text in which a block could stand. -/
def isBlankText (text : String) : Bool := Text.allBlank text.toList

/-- The passages of a text that holds a block. -/
def passages (text : String) (settings : Settings) : Except Fault (List Passage) := do
  if isBlankText text then throw (.empty .noText)
  let ps ← Modal.initial.passFrom settings 1 (Text.lines text)
  if ps.isEmpty then throw (.empty .onlyComments)
  return ps

/-- The toolpath of a program text. -/
def ofText (text : String) (settings : Settings) : Except Fault Toolpath :=
  (passages text settings).map ofPassages

end Toolpath

end PartProgram

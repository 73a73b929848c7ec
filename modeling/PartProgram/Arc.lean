import PartProgram.Fault
import PartProgram.Modal
import PartProgram.Number.Angle
import PartProgram.Warning

/-!
# PartProgram.Arc

Circular moves. A block gives the centre by offsets from the start point or by a radius; from the
centre follow the angles of both ends and the sweep between them, which runs down for a clockwise
arc and up for a counter-clockwise one. An arc is cut into chords whose ends lie on it; the axis
normal to the plane goes along in proportion, so an arc may be a helix.
-/

namespace PartProgram

open Number (pi twoPi hypot atan2 ofNat)

inductive Direction where
  | clockwise
  | counterclockwise
deriving DecidableEq, Repr

namespace Direction

def code : Direction → Code
  | clockwise => "G2"
  | counterclockwise => "G3"

def ofCode? (code : Code) : Option Direction :=
  [clockwise, counterclockwise].find? (·.code == code)

end Direction

/-- The centre of an arc that was given by its radius. -/
structure RadiusCentre (α : Type) where
  centre : PlanePoint α
  /-- the radius in use, which reaches at least half way along the chord -/
  radius : α
  /-- half the chord, if the radius given was shorter -/
  tooShort : Option α
deriving Repr

/-- The centre of an arc of the given radius between two points. A negative radius asks for the long
way round. The centre of a short counter-clockwise arc lies to the left of the chord; the other
direction and the long way each change the side. -/
def radiusCentre {α : Type} [Scalar α] (start finish : PlanePoint α) (radius : α)
    (direction : Direction) (epsilon : α) : Except Number.Fault (RadiusCentre α) := do
  let dx := finish.first - start.first
  let dy := finish.second - start.second
  let chord := Scalar.hypot dx dy
  let halfChord := Scalar.half chord
  let given := Scalar.abs radius
  let short := decide (given < halfChord)
  let used := if short then halfChord + epsilon else given
  let square ← Scalar.square halfChord
  let height := Scalar.sqrt (Scalar.larger (used * used - square) Scalar.zero)
  let one : α := Scalar.ofNat 1
  let left := if direction = .counterclockwise then one else -one
  let side := if radius < Scalar.zero then -left else left
  let across ← Scalar.divide (side * height * dy) chord
  let along ← Scalar.divide (side * height * dx) chord
  return {
    centre :=
      ⟨Scalar.half (start.first + finish.first) - across,
        Scalar.half (start.second + finish.second) + along⟩
    radius := used
    tooShort := if short then some halfChord else none }

/-- An arc in its plane. -/
structure Arc where
  centre : PlanePoint Float
  radius : Float
  startAngle : Float
  endAngle : Float
  direction : Direction
  plane : Plane
  /-- distance of the end point from the centre -/
  endRadius : Float
  fullCircle : Bool := false
deriving Repr

namespace Arc

def sweep (a : Arc) : Float := a.endAngle - a.startAngle

def length (a : Arc) : Float := a.radius * a.sweep.abs

/-- How far the two radii of an arc may differ without a warning. -/
def mismatchTolerance : Float := 0.01

def defaultTolerance : Float := 0.001

def defaultEpsilon : Float := 0.001

/-- Length of the chords that arcs and shapes are cut into. -/
def defaultResolution : Float := 10.0

/-- No arc has fewer chords. -/
def minSegments : Int := 4

/-- The angle of the end point, moved by a full turn where the direction asks for it. -/
def turnedEnd (startAngle endAngle : Float) (direction : Direction) (fullCircle : Bool) : Float :=
  match direction, fullCircle with
  | .clockwise, true => startAngle - twoPi
  | .counterclockwise, true => startAngle + twoPi
  | .clockwise, false => if startAngle ≤ endAngle then endAngle - twoPi else endAngle
  | .counterclockwise, false => if endAngle ≤ startAngle then endAngle + twoPi else endAngle

/-- The arc about a centre, and a warning if its ends are not equally far from it. -/
def around (centre : PlanePoint Float) (radius : Float) (start finish : PlanePoint Float)
    (plane : Plane) (direction : Direction) (fullCircle : Bool) : Arc × List Warning :=
  let startAngle := atan2 (start.second - centre.second) (start.first - centre.first)
  let endAngle := atan2 (finish.second - centre.second) (finish.first - centre.first)
  let endRadius := hypot (finish.first - centre.first) (finish.second - centre.second)
  let mismatch := !fullCircle && mismatchTolerance < (endRadius - radius).abs
  ({ centre := centre
     radius := radius
     startAngle := startAngle
     endAngle := turnedEnd startAngle endAngle direction fullCircle
     direction := direction
     plane := plane
     endRadius := if fullCircle then radius else endRadius
     fullCircle := fullCircle },
    if mismatch then [.radiusMismatch endRadius radius] else [])

/-- The arc of a block, or the reason why the move is a straight one. Offsets count from the start
point in every positioning mode, and they go before a radius. -/
def resolve (start target : Position) (b : Block) (plane : Plane) (direction : Direction)
    (tolerance epsilon : Float) : Except Fault (Option Arc × List Warning) := do
  let s := plane.project start
  let e := plane.project target
  let coincident := decide (hypot (e.first - s.first) (e.second - s.second) < tolerance)
  if b.has [plane.first.offsetLetter, plane.second.offsetLetter] then
    let i := b.valueOrZero plane.first.offsetLetter
    let j := b.valueOrZero plane.second.offsetLetter
    let radius := hypot i j
    if radius ≤ 0.0 then return (none, [.zeroOffsets])
    let (arc, warnings) :=
      around ⟨s.first + i, s.second + j⟩ radius s e plane direction coincident
    return (some arc, warnings)
  else
    match b.value 'R' with
    | none => return (none, [.noCentreWords])
    | some radius =>
      if coincident then return (none, [.coincidentEnds])
      let found ← radiusCentre s e radius direction epsilon
      let (arc, warnings) := around found.centre found.radius s e plane direction false
      let clamped := found.tooShort.toList.map fun half => .radiusClamped radius.abs half found.radius
      return (some arc, clamped ++ warnings)

/-- How many chords an arc is cut into: none is longer than the resolution along the arc. -/
def segmentCount (radius sweep resolution : Float) : Except Fault Nat := do
  if resolution ≤ 0.0 then throw (.segment .arc resolution)
  let n ← Number.ceil (radius * sweep.abs / resolution)
  return (max minSegments n).toNat

/-- The fractions `0, 1/n, …, 1` of a way cut into `n` parts. -/
def fractions (n : Nat) : List Float :=
  (List.range n).map (fun i => ofNat i * (1.0 / ofNat n)) ++ [1.0]

/-- The point a fraction of the way along. -/
def pointAt (a : Arc) (start finish : Position) (t : Float) : Position :=
  let angle := a.startAngle + t * a.sweep
  let radius := a.radius + t * (a.endRadius - a.radius)
  let low := start.get a.plane.normal
  let high := finish.get a.plane.normal
  a.plane.lift
    ⟨a.centre.first + radius * Number.cos angle, a.centre.second + radius * Number.sin angle⟩
    (low + t * (high - low))

/-- The ends of the chords after the start point. The last one is the programmed end itself. -/
def chordEnds (a : Arc) (start finish : Position) (resolution : Float) :
    Except Fault (List Position) := do
  let n ← segmentCount a.radius a.sweep resolution
  return ((fractions n).tail.dropLast.map (a.pointAt start finish)) ++ [finish]

end Arc

end PartProgram

import PartProgram.Fault
import PartProgram.Modal
import PartProgram.Number.Angle
import PartProgram.Warning

/-!
# PartProgram.Shape

Shapes milled around the tool: circles, the upper part of a sphere, cones, and a strip along a rail.
A block gives the sizes by its words; a block that lacks one mills nothing and says why.
-/

namespace PartProgram

open Number (pi twoPi hypot ofNat)

inductive ShapeKind where
  | circleClockwise
  | circleCounterclockwise
  | sphere
  | cone
  | extrusion
deriving DecidableEq, Repr

namespace ShapeKind

def all : List ShapeKind := [circleClockwise, circleCounterclockwise, sphere, cone, extrusion]

def code : ShapeKind → Code
  | circleClockwise => "G12"
  | circleCounterclockwise => "G13"
  | sphere => "G13.1"
  | cone => "G13.2"
  | extrusion => "G13.3"

def ofCode? (code : Code) : Option ShapeKind := all.find? (·.code == code)

def family : ShapeKind → String
  | circleClockwise | circleCounterclockwise => "circle"
  | sphere => "sphere"
  | cone => "cone"
  | extrusion => "extrude"

end ShapeKind

/-- A shape with its sizes by name. -/
structure ShapeInfo where
  kind : ShapeKind
  sizes : List (String × Float)
deriving Repr

/-- What a shape block comes to. -/
inductive ShapeOutcome where
  | skipped (reason : String)
  | milled (sizes : List (String × Float)) (points : List Position)
deriving Repr

namespace Shape

def minRingSegments : Int := 16

def minConeLayers : Int := 4

/-- A closed ring of points about the centre at one height. -/
def ring (x y z radius : Float) (segments : Nat) (clockwise : Bool) : List Position :=
  let step := twoPi / ofNat segments
  (List.range (segments + 1)).map fun i =>
    let angle := ofNat i * step
    let angle := if clockwise then -angle else angle
    ⟨x + radius * Number.cos angle, y + radius * Number.sin angle, z⟩

def ringSegments (radius resolution : Float) : Except Number.Fault Nat := do
  let n ← Number.ceil (twoPi * radius / resolution)
  return (max minRingSegments n).toNat

/-- How many layers of half the resolution a height takes. -/
def layerCount (height resolution : Float) (least : Int) : Except Number.Fault Nat := do
  let layers ← Scalar.divide height (resolution / 2.0)
  let n ← Number.ceil layers
  return (max least n).toNat

/-- The part `i / n` of a whole. -/
def share (i n : Nat) : Float := ofNat i / ofNat n

/-- A size that a shape cannot do without. -/
def positive? (size : Option Float) : Option Float := size.filter (0.0 < ·)

/-- Rings from the rim inwards, one for each pass. -/
def circle (clockwise : Bool) (origin : Position) (b : Block) (resolution : Float) :
    Except Number.Fault ShapeOutcome := do
  let given := b.value 'D' <|> (b.value 'R').map (2.0 * ·)
  match positive? given with
  | none => return .skipped "circle milling needs a positive D (diameter) or R word"
  | some diameter =>
    let radius := diameter / 2.0
    let asked ←
      match b.value 'P' with
      | some p => if p == 0.0 then pure 1 else Number.truncate p
      | none => pure 1
    let passes := (max 1 asked).toNat
    let segments ← ringSegments radius resolution
    let rings := (List.range passes).flatMap fun p =>
      ring origin.x origin.y origin.z (radius * (1.0 - share p passes)) segments clockwise
    return .milled
      [("diameter", diameter), ("radius", radius), ("passes", ofNat passes)] rings

/-- Rings on the upper half of a sphere that rises to the tool; those below the height asked for are
not cut. -/
def sphere (origin : Position) (b : Block) (resolution : Float) :
    Except Number.Fault ShapeOutcome := do
  match positive? (b.value 'D') with
  | none => return .skipped "sphere milling needs a positive D (diameter) word"
  | some diameter =>
    let radius := diameter / 2.0
    let height := (b.value 'H').getD radius
    let latitudes ← layerCount height resolution 1
    let segments ← ringSegments radius resolution
    let rings := (List.range latitudes).flatMap fun i =>
      let phi := share i latitudes * pi * 0.5
      let z := origin.z - radius + radius * Number.sin phi
      if z < origin.z - height then []
      else ring origin.x origin.y z (radius * Number.cos phi) segments false
    return .milled [("diameter", diameter), ("radius", radius), ("height", height)] rings

/-- The height of a cone: given, or from its angle, or that of a cone of 45 degrees. -/
def coneHeight (b : Block) (radius : Float) : Except Number.Fault Float :=
  match b.value 'H', b.value 'A' with
  | some height, _ => .ok height
  | none, some angle =>
    if 0.0 < angle && angle < 90.0 then Scalar.divide radius (Number.tan (angle * (pi / 180.0)))
    else .ok radius
  | none, none => .ok radius

/-- Rings from the base down to the point. -/
def cone (origin : Position) (b : Block) (resolution : Float) :
    Except Number.Fault ShapeOutcome := do
  match positive? (b.value 'D') with
  | none => return .skipped "cone milling needs a positive D (base diameter) word"
  | some diameter =>
    let radius := diameter / 2.0
    let height ← coneHeight b radius
    let layers ← layerCount height resolution minConeLayers
    let rings ← (List.range (layers + 1)).mapM fun i => do
      let layerRadius := radius * (1.0 - share i layers)
      let z := origin.z - ofNat i * (height / ofNat layers)
      return ring origin.x origin.y z layerRadius (← ringSegments layerRadius resolution) false
    return .milled
      [("base_diameter", diameter), ("base_radius", radius), ("height", height)] rings.flatten

/-- The outline of a strip along the rail from the tool to the end of the block. -/
def extrusion (origin finish : Position) (b : Block) : ShapeOutcome :=
  match b.value 'W', b.value 'H', b.has ['X'] && b.has ['Y'] with
  | some width, some height, true =>
    let dx := finish.x - origin.x
    let dy := finish.y - origin.y
    let distance := hypot dx dy
    if distance == 0.0 then .skipped "extrusion rail has zero length"
    else
      let px := -dy / distance * (width / 2.0)
      let py := dx / distance * (width / 2.0)
      let first : Position := ⟨origin.x + px, origin.y + py, origin.z⟩
      .milled [("width", width), ("height", height), ("length", (b.value 'L').getD distance)]
        [first, ⟨origin.x - px, origin.y - py, origin.z⟩, ⟨finish.x - px, finish.y - py, finish.z⟩,
          ⟨finish.x + px, finish.y + py, finish.z⟩, first]
  | _, _, _ => .skipped "extrusion needs W, H, X and Y words"

/-- The shape of a block, with the tool at `origin` and the block leading to `finish`. -/
def expand (kind : ShapeKind) (origin finish : Position) (b : Block) (resolution : Float) :
    Except Fault ShapeOutcome := do
  if resolution ≤ 0.0 then throw (.segment .shape resolution)
  match kind with
  | .circleClockwise => circle true origin b resolution
  | .circleCounterclockwise => circle false origin b resolution
  | .sphere => sphere origin b resolution
  | .cone => cone origin b resolution
  | .extrusion => return extrusion origin finish b

end Shape

end PartProgram

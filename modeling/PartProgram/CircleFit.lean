import PartProgram.Number.Angle
import PartProgram.Space

/-!
# PartProgram.CircleFit

Circles through rows of points. The algebraic fit makes the squares of `x² + y² + ax + by + c`
small and comes from one linear system; the geometric fit makes the squares of the distances from
the circle small and is reached from the algebraic one step by step. A row of points is an arc when
all of them lie near the circle and run around it in one direction by less than a turn.
-/

namespace PartProgram

open Number (twoPi hypot atan2 ofNat isNegative infinity)

structure Circle where
  centre : PlanePoint Float
  radius : Float
deriving Repr

/-- An arc that a row of points lies on. -/
structure FittedArc where
  circle : Circle
  clockwise : Bool
deriving Repr

namespace CircleFit

/-- No point of a fitted arc is farther from it. -/
def tolerance : Float := 0.01

def maxRadius : Float := 5000.0

/-- A chain needs this many chords to become an arc. -/
def minChords : Nat := 5

def sum (xs : List Float) : Float := xs.foldl (· + ·) 0.0

def mean (xs : List Float) : Float := sum xs / ofNat xs.length

def centroid (ps : List (PlanePoint Float)) : PlanePoint Float :=
  ⟨mean (ps.map (·.first)), mean (ps.map (·.second))⟩

def about (o p : PlanePoint Float) : PlanePoint Float := ⟨p.first - o.first, p.second - o.second⟩

/-- The solution of two linear equations, unless they are dependent. -/
def solve (a b c d e f : Float) : Option (PlanePoint Float) :=
  let det := a * d - b * c
  if det == 0.0 then none else some ⟨(e * d - b * f) / det, (a * f - e * c) / det⟩

/-- The algebraic fit of points about their centroid; none for points on a line. -/
def algebraic (ps : List (PlanePoint Float)) : Option Circle := do
  let moment (f : PlanePoint Float → Float) : Float := sum (ps.map f)
  let uu := moment fun p => p.first * p.first
  let uv := moment fun p => p.first * p.second
  let vv := moment fun p => p.second * p.second
  let cube (f : PlanePoint Float → Float) : Float :=
    moment (fun p => f p * (p.first * p.first + p.second * p.second)) / 2.0
  let c ← solve uu uv uv vv (cube (·.first)) (cube (·.second))
  let squared := c.first * c.first + c.second * c.second + (uu + vv) / ofNat ps.length
  if 0.0 < squared then some ⟨c, squared.sqrt⟩ else none

/-- The sum of the squared distances from the best circle about a centre, and its radius. -/
def misfit (ps : List (PlanePoint Float)) (c : PlanePoint Float) : Float × Float :=
  let distances := ps.map fun p => hypot (p.first - c.first) (p.second - c.second)
  let radius := mean distances
  (sum (distances.map fun d => (d - radius) * (d - radius)), radius)

/-- The step that a linear model of the distances asks for. -/
def improve (ps : List (PlanePoint Float)) (c : PlanePoint Float) : Option (PlanePoint Float) :=
  let rays := ps.map fun p =>
    let d := hypot (p.first - c.first) (p.second - c.second)
    ((p.first - c.first) / d, (p.second - c.second) / d, d)
  let mx := mean (rays.map (·.1))
  let my := mean (rays.map (·.2.1))
  let md := mean (rays.map (·.2.2))
  let total (f : Float → Float → Float → Float) : Float :=
    sum (rays.map fun (x, y, d) => f (x - mx) (y - my) (d - md))
  let xy := total fun x y _ => x * y
  solve (total fun x _ _ => x * x) xy xy (total fun _ y _ => y * y)
    (total fun x _ d => x * d) (total fun _ y d => y * d)

/-- The first of `step`, half of it, a quarter, … that does not make the misfit larger. -/
def descend (ps : List (PlanePoint Float)) (c step : PlanePoint Float) (before : Float) :
    Nat → Option (PlanePoint Float)
  | 0 => none
  | halvings + 1 =>
    let next : PlanePoint Float := ⟨c.first + step.first, c.second + step.second⟩
    if (misfit ps next).1 ≤ before then some next
    else descend ps c ⟨step.first / 2.0, step.second / 2.0⟩ before halvings

/-- Steps below this share of the radius do not count. -/
def settled : Float := 1e-13

/-- Improves a centre until it stays where it is, or until its steps, of which `last` is the length
of the one before, neither shrink nor help. -/
def settle (ps : List (PlanePoint Float)) (last : Float) : Nat → PlanePoint Float → PlanePoint Float
  | 0, c => c
  | steps + 1, c =>
    match improve ps c with
    | none => c
    | some step =>
      let (before, radius) := misfit ps c
      let size := hypot step.first step.second
      if size ≤ settled * radius then c
      else
        match descend ps c step before 30 with
        | none => c
        | some next =>
          if last < 2.0 * size && before ≤ (misfit ps next).1 then c
          else settle ps size steps next

/-- The geometric fit, from a first circle. -/
def geometric (ps : List (PlanePoint Float)) (start : Circle) : Circle :=
  let c := settle ps infinity 100 start.centre
  ⟨c, (misfit ps c).2⟩

/-- The circle of a row of points. -/
def fitCircle (ps : List (PlanePoint Float)) (refine : Bool) : Option Circle :=
  let o := centroid ps
  let ps := ps.map (about o)
  (algebraic ps).map fun circle =>
    let circle := if refine then geometric ps circle else circle
    { circle with
      centre := ⟨circle.centre.first + o.first, circle.centre.second + o.second⟩ }

def isNear (circle : Circle) (p : PlanePoint Float) : Bool :=
  (hypot (p.first - circle.centre.first) (p.second - circle.centre.second) - circle.radius).abs ≤
    tolerance

/-- The differences of neighbours. -/
def steps (ps : List (PlanePoint Float)) : List (PlanePoint Float) :=
  (ps.zip ps.tail).map fun (p, q) => about p q

/-- By how much the row turns at each inner point: positive to the left. -/
def turns (ps : List (PlanePoint Float)) : List Float :=
  let chords := steps ps
  (chords.zip chords.tail).map fun (a, b) => a.first * b.second - a.second * b.first

/-- Turns below this are no turns. -/
def leastTurn : Float := 1e-12

/-- Whether every point turns, and all to one side. -/
def turnsOneWay (ts : List Float) : Bool :=
  ts.all (fun t => leastTurn ≤ t) || ts.all (fun t => t ≤ -leastTurn)

/-- Twice the area between two rays, positive to the left of the first. -/
def area (p q : PlanePoint Float) : Float := p.first * q.second - p.second * q.first

/-- How often the short way from one ray to the next goes across the negative first axis, where
angles jump by a full turn: once up, once down, or not at all. -/
def crossings (p q : PlanePoint Float) : Int :=
  match isNegative p.second, isNegative q.second with
  | false, true => if area q p < 0.0 then 1 else 0
  | true, false => if area p q < 0.0 then -1 else 0
  | _, _ => 0

/-- The sum of a function over neighbours. -/
def sumPairs (f : PlanePoint Float → PlanePoint Float → Int) : List (PlanePoint Float) → Int
  | p :: q :: rest => f p q + sumPairs f (q :: rest)
  | _ => 0

/-- The way around the centre from the first point to the last, each step the short way. -/
def travel (circle : Circle) (ps : List (PlanePoint Float)) : Float :=
  let rays := ps.map (about circle.centre)
  match rays, rays.getLast? with
  | first :: _, some last =>
    let turns := sumPairs crossings rays
    let way := atan2 last.second last.first - atan2 first.second first.first
    way + (if turns < 0 then -ofNat turns.natAbs else ofNat turns.natAbs) * twoPi
  | _, _ => 0.0

/-- An arc goes around by less than this. -/
def travelLimit : Float := twoPi * 0.99

/-- The arc that a row of points lies on, if it lies on one. -/
def fit (ps : List (PlanePoint Float)) (refine : Bool) : Option FittedArc := do
  if ps.length < 3 then none
  let circle ← fitCircle ps refine
  let ts := turns ps
  if circle.radius ≤ maxRadius && ps.all (isNear circle) && turnsOneWay ts &&
      (travel circle ps).abs < travelLimit then
    some ⟨circle, ts.any (· < 0.0)⟩
  else none

end CircleFit

end PartProgram

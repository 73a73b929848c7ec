import PartProgram.Arc

/-!
# PartProgram.Proofs.TurnedAxes

Arcs in other planes. When the axes are turned, `x` to `y` to `z` to `x`, and the words of a block
with them, an arc of one plane becomes an arc of the next one. Its plane tells which coordinates,
which offset letters and which normal axis count, so everything that is resolved from them in the
plane stays as it is, and the points on the arc are turned.

* `turnedLetter_offsetLetter`, `Plane.project_turned`, `Plane.lift_turned`: letters and planes turn
  with the axes.
* `Arc.resolve_turned`, `Arc.chordEnds_turned`: an arc is resolved and cut alike in all planes.
* `resolve_turned_axes`: both together.
-/

namespace PartProgram

/-! ## Turning -/

/-- The plane of the turned axes of a plane. -/
def Plane.turned : Plane → Plane
  | xy => yz
  | yz => zx
  | zx => xy

example : Plane.all.map (fun p => (p.code, p.turned.code)) =
    [("G17", "G19"), ("G18", "G17"), ("G19", "G18")] := rfl

/-- The point with each coordinate on the next axis. -/
def Point.turned {α : Type} (a : Point α) : Point α := ⟨a.z, a.x, a.y⟩

/-- Letters of coordinates and offsets go to those of the next axis. -/
def turnedLetter : Char → Char
  | 'X' => 'Y'
  | 'Y' => 'Z'
  | 'Z' => 'X'
  | 'I' => 'J'
  | 'J' => 'K'
  | 'K' => 'I'
  | c => c

def Word.turned (w : Word) : Word := { w with letter := turnedLetter w.letter }

def Block.turned (b : Block) : Block := { b with words := b.words.map Word.turned }

/-- The same arc in the plane of the turned axes. -/
def Arc.turned (a : Arc) : Arc := { a with plane := a.plane.turned }

/-! ## Words -/

/-- The letters that are turned. -/
def spatialLetters : List Char := ['X', 'Y', 'Z', 'I', 'J', 'K']

theorem turnedLetter_of_notMem {c : Char} (h : c ∉ spatialLetters) : turnedLetter c = c := by
  fun_cases turnedLetter c with
  | case7 => rfl
  | _ => exact absurd (by decide) h

/-- Three turns lead back. -/
theorem turnedLetter_thrice (c : Char) : turnedLetter (turnedLetter (turnedLetter c)) = c := by
  by_cases h : c ∈ spatialLetters
  · have hcases : c = 'X' ∨ c = 'Y' ∨ c = 'Z' ∨ c = 'I' ∨ c = 'J' ∨ c = 'K' := by
      simpa [spatialLetters] using h
    rcases hcases with rfl | rfl | rfl | rfl | rfl | rfl <;> rfl
  · rw [turnedLetter_of_notMem h, turnedLetter_of_notMem h, turnedLetter_of_notMem h]

theorem turnedLetter_inj {c d : Char} : turnedLetter c = turnedLetter d ↔ c = d := by
  refine ⟨fun h => ?_, congrArg turnedLetter⟩
  rw [← turnedLetter_thrice c, h, turnedLetter_thrice]

theorem turnedLetter_beq (c d : Char) : (turnedLetter c == turnedLetter d) = (c == d) := by
  rw [Bool.eq_iff_iff, beq_iff_eq, beq_iff_eq, turnedLetter_inj]

theorem contains_map_turnedLetter (letters : List Char) (c : Char) :
    (letters.map turnedLetter).contains (turnedLetter c) = letters.contains c := by
  rw [List.contains_eq_any_beq, List.any_map, List.contains_eq_any_beq]
  exact congrArg letters.any (funext fun d => turnedLetter_beq c d)

theorem turnedLetter_offsetLetter (axis : Axis) :
    turnedLetter axis.offsetLetter = axis.next.offsetLetter := by
  cases axis <;> rfl

namespace Block

variable (b : Block)

theorem value_turned (letter : Char) : b.turned.value (turnedLetter letter) = b.value letter := by
  have hletter : ((·.letter == turnedLetter letter) ∘ Word.turned) = (·.letter == letter) :=
    funext fun w => turnedLetter_beq w.letter letter
  rw [value, turned, List.find?_map, hletter, Option.map_map]
  rfl

theorem valueOrZero_turned (letter : Char) :
    b.turned.valueOrZero (turnedLetter letter) = b.valueOrZero letter := by
  rw [valueOrZero, value_turned, valueOrZero]

theorem has_turned (letters : List Char) :
    b.turned.has (letters.map turnedLetter) = b.has letters := by
  rw [has, turned, List.any_map, has]
  exact congrArg b.words.any (funext fun w => contains_map_turnedLetter letters w.letter)

end Block

/-! ## Planes -/

namespace Plane

variable {α : Type} (p : Plane)

theorem first_turned : p.turned.first = p.first.next := by
  cases p <;> rfl

theorem second_turned : p.turned.second = p.second.next := by
  cases p <;> rfl

theorem normal_turned : p.turned.normal = p.normal.next := by
  cases p <;> rfl

end Plane

theorem Point.get_turned {α : Type} (a : Point α) (axis : Axis) :
    a.turned.get axis.next = a.get axis := by
  cases axis <;> rfl

namespace Plane

variable {α : Type} (p : Plane)

theorem project_turned (a : Point α) : p.turned.project a.turned = p.project a := by
  rw [project, first_turned, second_turned, Point.get_turned, Point.get_turned, project]

theorem lift_turned (a : PlanePoint α) (height : α) :
    p.turned.lift a height = (p.lift a height).turned := by
  cases p <;> rfl

end Plane

/-! ## Arcs -/

namespace Arc

theorem around_turned (centre : PlanePoint Float) (radius : Float)
    (start finish : PlanePoint Float) (plane : Plane) (direction : Direction) (fullCircle : Bool) :
    around centre radius start finish plane.turned direction fullCircle =
      let (arc, warnings) := around centre radius start finish plane direction fullCircle
      (arc.turned, warnings) := rfl

theorem resolve_turned (start target : Position) (b : Block) (plane : Plane)
    (direction : Direction) (tolerance epsilon : Float) :
    resolve start.turned target.turned b.turned plane.turned direction tolerance epsilon =
      (resolve start target b plane direction tolerance epsilon).map fun (arc, warnings) =>
        (arc.map turned, warnings) := by
  have hfirst : plane.turned.first.offsetLetter = turnedLetter plane.first.offsetLetter := by
    rw [Plane.first_turned, turnedLetter_offsetLetter]
  have hsecond : plane.turned.second.offsetLetter = turnedLetter plane.second.offsetLetter := by
    rw [Plane.second_turned, turnedLetter_offsetLetter]
  have hhas : b.turned.has [turnedLetter plane.first.offsetLetter,
      turnedLetter plane.second.offsetLetter] =
        b.has [plane.first.offsetLetter, plane.second.offsetLetter] :=
    b.has_turned [plane.first.offsetLetter, plane.second.offsetLetter]
  have hradius : b.turned.value 'R' = b.value 'R' := b.value_turned 'R'
  simp only [resolve, Plane.project_turned, hfirst, hsecond, hhas, hradius,
    Block.valueOrZero_turned, around_turned]
  split
  · -- by offsets
    split <;> rfl
  · split
    · -- without a centre
      rfl
    · -- by a radius
      split
      · rfl
      · generalize (liftM (radiusCentre _ _ _ _ _) : Except Fault (RadiusCentre Float)) = found
        cases found <;> rfl

theorem pointAt_turned (a : Arc) (start finish : Position) (t : Float) :
    a.turned.pointAt start.turned finish.turned t = (a.pointAt start finish t).turned := by
  simp only [pointAt, turned, Plane.normal_turned, Point.get_turned, Plane.lift_turned]
  rfl

theorem chordEnds_turned (a : Arc) (start finish : Position) (resolution : Float) :
    a.turned.chordEnds start.turned finish.turned resolution =
      (a.chordEnds start finish resolution).map (List.map Point.turned) := by
  have hpoints : a.turned.pointAt start.turned finish.turned =
      Point.turned ∘ a.pointAt start finish := funext (a.pointAt_turned start finish)
  rw [chordEnds, chordEnds, hpoints]
  show (segmentCount a.radius a.sweep resolution >>= _) = _
  cases segmentCount a.radius a.sweep resolution with
  | error e => rfl
  | ok n =>
    refine congrArg Except.ok ?_
    rw [← List.map_map, List.map_append]
    rfl

end Arc

/-- When points and words are turned, an arc is resolved as before, with the same warnings, to the
same arc of the turned plane or to none, and it is cut into the same points, turned. -/
theorem resolve_turned_axes (start target : Position) (b : Block) (plane : Plane)
    (direction : Direction) (tolerance epsilon : Float) :
    Arc.resolve start.turned target.turned b.turned plane.turned direction tolerance epsilon =
        (Arc.resolve start target b plane direction tolerance epsilon).map
          (fun (arc, warnings) => (arc.map Arc.turned, warnings)) ∧
      ∀ (arc : Arc) (resolution : Float),
        (arc.turned.chordEnds start.turned target.turned resolution).map (start.turned :: ·) =
          (arc.chordEnds start target resolution).map fun ends =>
            (start :: ends).map Point.turned := by
  refine ⟨Arc.resolve_turned .., fun arc resolution => ?_⟩
  rw [Arc.chordEnds_turned]
  cases arc.chordEnds start target resolution <;> rfl

end PartProgram

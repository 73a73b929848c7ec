import PartProgram.Toolpath

/-!
# PartProgram.Interpreter

A program run point by point. Each pull goes on to the next waypoint and reads no further than it
must. The modal state on show moves to the state after a block when the point after the last one of
that block is asked for; warnings and cycles show from the first point of their block on. A run that
has ended, by a fault or with the program, stays ended.
-/

namespace PartProgram

structure Interpreter where
  settings : Settings
  /-- lines not read yet -/
  lines : List String
  /-- the number of the first of them -/
  lineNumber : Int := 1
  /-- the modal state on show -/
  state : Modal := .initial
  /-- points of the present block that were not pulled yet -/
  pending : List Waypoint := []
  /-- the state after the present block -/
  next : Modal := .initial
  /-- a block was read -/
  begun : Bool := false
  ended : Bool := false
  warnings : List LineWarning := []
  cycles : List FixedCycle := []

/-- What a pull gives. -/
inductive Pulled where
  | point (p : Waypoint)
  | done
  | fault (f : Fault)

namespace Interpreter

def ofText (text : String) (settings : Settings) : Except Fault Interpreter :=
  if Toolpath.isBlankText text then .error (.empty .noText)
  else .ok { settings := settings, lines := Text.lines text }

def stop (i : Interpreter) : Interpreter := { i with ended := true, pending := [], lines := [] }

/-- On to the next point, with the points of the last block all pulled. -/
def advance (i : Interpreter) (lineNumber : Int) : List String → Interpreter × Pulled
  | [] => (i.stop, if i.begun then .done else .fault (.empty .onlyComments))
  | raw :: rest =>
    match Block.read? raw lineNumber with
    | none => i.advance (lineNumber + 1) rest
    | some b =>
      let i := { i with begun := true }
      match i.state.resolve i.settings b with
      | .error f => (i.stop, .fault f)
      | .ok r =>
        let said := r.warnings.map fun w => ⟨lineNumber, w⟩
        let i :=
          { i with
            warnings := i.warnings ++ said
            cycles := i.cycles ++ r.cycle?.toList }
        match r.emission i.settings with
        | .error f => (i.stop, .fault f)
        | .ok e =>
          let said := e.warnings.map fun w => ⟨lineNumber, w⟩
          let i := { i with warnings := i.warnings ++ said }
          match e.points with
          | [] => { i with state := r.state }.advance (lineNumber + 1) rest
          | p :: points =>
            ({ i with
                pending := points, next := r.state, lines := rest, lineNumber := lineNumber + 1 },
              .point p)

def pull (i : Interpreter) : Interpreter × Pulled :=
  if i.ended then (i, .done)
  else
    match i.pending with
    | p :: points => ({ i with pending := points }, .point p)
    | [] => { i with state := i.next }.advance i.lineNumber i.lines

/-- Up to `n` pulls: the points, and how the run ended if it did. -/
def take (i : Interpreter) : Nat → Interpreter × List Waypoint × Option Pulled
  | 0 => (i, [], none)
  | n + 1 =>
    match i.pull with
    | (i, .point p) =>
      let (i, points, last) := i.take n
      (i, p :: points, last)
    | (i, last) => (i, [], some last)

end Interpreter

end PartProgram

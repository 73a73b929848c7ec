import PartProgram.Conversational.Numbering
import PartProgram.Job
import PartProgram.Motion

/-!
# PartProgram.Statistics

What an optimization has saved: lines, and the time that the blocks which are gone would have taken.
-/

namespace PartProgram

open Conversational (isConversational)

/-- How many lines work the machine. -/
def countWork (ls : Lines) : Except Fault Nat :=
  (walk ls).map fun stops =>
    (stops.filter fun s => s.resolution?.any Resolution.isWork).length

/-- One more feed in a count of feeds. -/
def tally (feed : Float) : List (Float × Nat) → List (Float × Nat)
  | [] => [(feed, 1)]
  | (f, n) :: rest => if f == feed then (f, n + 1) :: rest else (f, n) :: tally feed rest

/-- The first of the largest counts. -/
def mostFrequent : List (Float × Nat) → Option (Float × Nat)
  | [] => none
  | first :: rest => some (rest.foldl (fun best next => if best.2 < next.2 then next else best) first)

/-- The most frequent positive feed word of a program. -/
def dominantFeed (ls : Lines) : Option Float :=
  let feeds := (Block.readLinesFrom 1 ls).filterMap fun b =>
    (b.value 'F').filter fun feed => 0.0 < feed
  (mostFrequent (feeds.foldl (fun counts feed => tally feed counts) [])).map Prod.fst

structure Statistics where
  linesBefore : Nat
  linesAfter : Nat
  /-- how many lines of a hundred are gone -/
  reduction : Float
  /-- in seconds -/
  timeSaved : Float
deriving Repr

namespace Statistics

/-- How long a block is on average. -/
def averageBlockLength : Float := 10.0

/-- The share of lines that are gone, in percent. -/
def reductionOf (before after : Nat) : Float :=
  if before = 0 then 0.0
  else Scalar.larger 0.0 ((1.0 - Number.ofNat after / Number.ofNat before) * 100.0)

/-- How many blocks that work the machine are gone. -/
def removedWork (source gcode : Lines) : Except Fault Nat :=
  if isConversational source || isConversational gcode then .ok 0
  else do return (← countWork source) - (← countWork gcode)

/-- The statistics of a program before and after, `gcode` being what the machine follows after. -/
def measure (job : Job) (source output gcode : Lines) : Except Fault Statistics := do
  let removed ← removedWork source gcode
  let feed := (dominantFeed source).getD job.profile.rapidRate
  let seconds := Number.ofNat removed * averageBlockLength / feed * 60.0
  return {
    linesBefore := source.length
    linesAfter := output.length
    reduction := Number.roundPlaces 2 (reductionOf source.length output.length)
    timeSaved := Number.roundPlaces 3 seconds }

end Statistics

end PartProgram

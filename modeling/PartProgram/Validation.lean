import PartProgram.Conversational.Numbering
import PartProgram.Job
import PartProgram.Notice

/-!
# PartProgram.Validation

Safety of a program. Every waypoint is held against the travel limits and every feed word against
the limits of the control; a conversational program is looked at for its form alone. Errors make a
program invalid, notices do not.
-/

namespace PartProgram

open Conversational
open Number (general)

inductive SafetyError where
  | outside (line : Int) (position : Position) (envelope : Envelope)
  | noBlocks (program : EmptyProgram)
  | negativeFeed (line : Int) (feed : Float)
  | feedTooHigh (line : Int) (feed limit : Float)
  | noClosing
  | misplacedOpening

def SafetyError.message : SafetyError → String
  | outside n p e =>
    "Line " ++ toString n ++ ": position (" ++ ", ".intercalate (p.toList.map general) ++
      ") outside travel limits " ++ tupleText e.minimum ++ ".." ++ tupleText e.maximum
  | noBlocks program => program.message
  | negativeFeed n feed => "Line " ++ toString n ++ ": negative feed rate F" ++ general feed
  | feedTooHigh n feed limit =>
    "Line " ++ toString n ++ ": feed rate F" ++ general feed ++ " exceeds controller maximum " ++
      general limit
  | noClosing => "conversational program has no END PGM block"
  | misplacedOpening => "BEGIN PGM is not the first block of the conversational program"

/-- What there is to say about a program. -/
structure Report where
  errors : List SafetyError := []
  notices : List Notice := []

namespace Report

/-- A program is valid when nothing is wrong with it. -/
def isValid (r : Report) : Bool := r.errors.isEmpty

def append (a b : Report) : Report := ⟨a.errors ++ b.errors, a.notices ++ b.notices⟩

instance : Append Report := ⟨append⟩

end Report

namespace Validation

/-- The limits of a control. -/
def travelOf (c : Controller) : Envelope :=
  { minimum := c.profile.travelMin
    maximum := c.profile.travelMax
    apart := by cases c <;> decide +kernel }

/-- The limits of the options, or else those of the control. -/
def envelopeOf (job : Job) : Envelope := job.options.envelope.getD (travelOf job.controller)

/-- The first point of a block that lies outside; one is reported for each line. -/
def travelError? (e : Envelope) (p : Passage) : Option SafetyError :=
  (p.points.find? fun w => !e.contains w.position.toList).map fun w =>
    .outside w.line w.position e

/-- What is wrong with the first feed word of a block. -/
def feedError? (maxFeed : Float) (b : Block) : Option SafetyError :=
  match b.value 'F' with
  | none => none
  | some feed =>
    if feed < 0.0 then some (.negativeFeed b.line feed)
    else if maxFeed < feed then some (.feedTooHigh b.line feed maxFeed)
    else none

/-- Every point and every feed of a program. A program without blocks is an error of its own. -/
def motionReport (ls : Lines) (e : Envelope) (maxFeed : Float) : Except Fault Report :=
  let text := Text.joinLines ls
  match Toolpath.isBlankText text, Toolpath.passages text .standard with
  | false, .error (.empty program) => .ok { errors := [.noBlocks program] }
  | _, .error fault => .error fault
  | _, .ok passages =>
    .ok {
      errors :=
        passages.filterMap (travelError? e) ++
          (Block.readLinesFrom 1 ls).filterMap (feedError? maxFeed)
      notices := (passages.flatMap Passage.warnings).map .line }

def hasProgramEnd (ls : Lines) : Bool := (Block.readLinesFrom 1 ls).any Block.endsProgram

/-- What the machine would do. Conversational text is not followed. -/
def gcodeReport (job : Job) (gcode : Lines) (toConversational : Bool) : Except Fault Report := do
  if isConversational gcode then return { notices := [.uncheckedConversational] }
  let motion ← motionReport gcode (envelopeOf job) job.profile.maxFeed
  return motion ++
    { notices := if toConversational || hasProgramEnd gcode then [] else [.noEndCode] }

/-- Blocks may not be longer. -/
def maxBlockLength : Nat := 128

def longBlocks (number : Nat) : Lines → List Notice
  | [] => []
  | line :: rest =>
    let more := longBlocks (number + 1) rest
    if maxBlockLength < line.length then .longBlock number line.length maxBlockLength :: more
    else more

def mentions (mark : String) (ls : Lines) : Bool :=
  ls.any fun line => Text.holds mark.toList line.toList

/-- The form of the lines that are given out. -/
def outputReport (c : Controller) (output : Lines) : Report :=
  { notices := if c = .fanuc then longBlocks 1 output else [] } ++
    if isConversational output then
      { errors := if mentions closing output then [] else [.noClosing]
        notices := if mentions toolCall output then [] else [.noToolCall] }
    else if c = .heidenhain && mentions opening output then { errors := [.misplacedOpening] }
    else {}

/-- The report on a program that was optimized: `gcode` is what the machine follows, `output` what
is given out, and `said` what was said on the way. -/
def validate (job : Job) (gcode output : Lines) (said : List Notice) : Except Fault Report := do
  if !job.flag .safetyChecks then return { notices := said }
  let followed ← gcodeReport job gcode (isConversational output)
  return { notices := said } ++ followed ++ outputReport job.controller output

end Validation

end PartProgram

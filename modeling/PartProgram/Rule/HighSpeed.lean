import PartProgram.Rule.Basic

/-!
# PartProgram.Rule.HighSpeed

Smoothing for contours at high speed. It is switched on after the setup that opens a program and off
before its end. A program that says something about smoothing itself is left alone.
-/

namespace PartProgram.Rule

/-- Codes that say how a control smooths contours. -/
def smoothingCodes : List Code := ["G5.1", "G61.1", "G64"]

/-- Codes that set a machine up. -/
def setupCodes : List Code :=
  ["G17", "G18", "G19", "G20", "G21", "G40", "G49", "G54", "G80", "G90", "G91"]

def hasCode (codes : List Code) (b : Block) : Bool := (b.codes 'G').any codes.contains

/-- How many lines the setup takes that stands before the first move. -/
def setupLength (index length : Nat) : List (Option Block) → Nat
  | [] => length
  | none :: rest => setupLength (index + 1) length rest
  | some b :: rest =>
    if b.dominant?.isSome || b.hasAxis then length
    else setupLength (index + 1) (if hasCode setupCodes b then index + 1 else length) rest

def setupEnd (ls : Lines) : Nat := setupLength 0 0 ((readLines 1 ls).map Prod.snd)

/-- A block with a word on what it is for, unless comments are unwanted. -/
def labelled (job : Job) (block label : String) : String :=
  if job.flag .removeComments then block else block ++ " (" ++ label ++ ")"

/-- What is said after the setup. -/
def smoothingOn (job : Job) : Lines :=
  (if job.fanucFlag .useAi then [labelled job "G05.1 Q1" "AI CONTOUR CONTROL ON"] else []) ++
    (if job.fanucFlag .useNanoSmoothing then [labelled job "G05.1 Q3" "NANO SMOOTHING ON"] else []) ++
      [if job.fanucFlag .useHighPrecisionMode then labelled job "G61.1" "HIGH PRECISION"
        else labelled job "G64" "CUTTING MODE"]

/-- What is said before the end of the program. -/
def smoothingOff (job : Job) : Lines :=
  (if job.fanucFlag .useAi || job.fanucFlag .useNanoSmoothing then
      [labelled job "G05.1 Q0" "SMOOTHING OFF"]
    else []) ++
    if job.fanucFlag .useHighPrecisionMode then [labelled job "G64" "CUTTING MODE"] else []

/-- Whether some line says how contours are smoothed. -/
def saysSmoothing (ls : Lines) : Bool :=
  (Block.readLinesFrom 1 ls).any (hasCode smoothingCodes)

/-- Whether a line ends the program. -/
def endsProgram (line : String) : Bool := (Block.read? line 1).any Block.endsProgram

def useHighSpeedMode (job : Job) (ls : Lines) : Lines :=
  if saysSmoothing ls then ls
  else
    let opened := insertAt (setupEnd ls) (smoothingOn job) ls
    insertAt ((lastIndex? endsProgram opened).getD opened.length) (smoothingOff job) opened

end PartProgram.Rule

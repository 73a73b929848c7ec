import PartProgram.Word

/-!
# PartProgram.Warning

What the resolver has to say about a block that it could not take as written. Every warning names
its cause and the numbers it is about; the wording is `Warning.message`.
-/

namespace PartProgram

open Number (general fixedText)

inductive Warning where
  /-- the radius does not reach half way along the chord -/
  | radiusClamped (radius halfChord used : Float)
  | zeroOffsets
  | coincidentEnds
  | noCentreWords
  /-- the end point is not as far from the centre as the start point -/
  | radiusMismatch (atEnd atStart : Float)
  | retractAssumed (code : Code) (z : Float)
  | depthAssumed (code : Code) (r : Float)
  | noMotionMode
  | peckAssumed
  | unknownCycle (code : Code)
  | shapeSkipped (code : Code) (reason : String)
deriving Repr

def Warning.message : Warning → String
  | radiusClamped radius half used =>
    "arc radius " ++ general radius ++ " shorter than half chord " ++ general half ++
      "; clamped to " ++ general used
  | zeroOffsets => "arc center offsets are zero; treated as linear move"
  | coincidentEnds => "R-format arc with coincident end points; treated as linear move"
  | noCentreWords => "arc without I/J/K or R words; treated as linear move"
  | radiusMismatch atEnd atStart =>
    "arc end point is " ++ fixedText 4 atEnd ++ " from center but start radius is " ++
      fixedText 4 atStart ++ "; radius interpolated to reach the programmed end"
  | retractAssumed code z =>
    code ++ " without R; retract plane defaults to current Z " ++ general z
  | depthAssumed code r => code ++ " without Z; depth defaults to R " ++ general r
  | noMotionMode => "axis words without an active motion mode; treated as rapid"
  | peckAssumed => "peck drilling without a positive Q increment; drilled in one peck"
  | unknownCycle code => "unhandled cycle type " ++ code ++ "; expanded as plain drilling"
  | shapeSkipped code reason => code ++ " skipped: " ++ reason

/-- A warning with the line it is about. -/
structure LineWarning where
  line : Int
  warning : Warning
deriving Repr

def LineWarning.message (w : LineWarning) : String :=
  "Line " ++ toString w.line ++ ": " ++ w.warning.message

end PartProgram

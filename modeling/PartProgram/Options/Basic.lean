import PartProgram.Fault
import PartProgram.Options.Flag
import PartProgram.Toolpath

/-!
# PartProgram.Options.Basic

What an optimization is asked to do: switches for every control, switches of at most one dialect,
limits for the travel, and the name of a conversational program.
-/

namespace PartProgram

inductive GeneralFlag where
  | removeEmptyLines
  | removeComments
  | removeRedundantMoves
  | removeRedundantCodes
  | optimizeRapidMoves
  | consolidateCodes
  | optimizeFeedrates
  | useArcOptimization
  | useHighSpeedMode
  | safetyChecks
deriving DecidableEq, Repr

instance : Flag GeneralFlag where
  all :=
    [.removeEmptyLines, .removeComments, .removeRedundantMoves, .removeRedundantCodes,
      .optimizeRapidMoves, .consolidateCodes, .optimizeFeedrates, .useArcOptimization,
      .useHighSpeedMode, .safetyChecks]
  name
    | .removeEmptyLines => "remove_empty_lines"
    | .removeComments => "remove_comments"
    | .removeRedundantMoves => "remove_redundant_moves"
    | .removeRedundantCodes => "remove_redundant_codes"
    | .optimizeRapidMoves => "optimize_rapid_moves"
    | .consolidateCodes => "consolidate_gcodes"
    | .optimizeFeedrates => "optimize_feedrates"
    | .useArcOptimization => "use_arc_optimization"
    | .useHighSpeedMode => "use_high_speed_mode"
    | .safetyChecks => "safety_checks"
  standard
    | .removeComments | .useHighSpeedMode => false
    | _ => true

inductive FanucFlag where
  | useDecimalFormat
  | useModalCodes
  | useAi
  | useNanoSmoothing
  | useCornerRounding
  | useHighPrecisionMode
  | useCompactCode
deriving DecidableEq, Repr

instance : Flag FanucFlag where
  all :=
    [.useDecimalFormat, .useModalCodes, .useAi, .useNanoSmoothing, .useCornerRounding,
      .useHighPrecisionMode, .useCompactCode]
  name
    | .useDecimalFormat => "use_decimal_format"
    | .useModalCodes => "use_modal_g_codes"
    | .useAi => "use_ai"
    | .useNanoSmoothing => "use_nano_smoothing"
    | .useCornerRounding => "use_corner_rounding"
    | .useHighPrecisionMode => "use_high_precision_mode"
    | .useCompactCode => "use_compact_gcode"
  standard
    | .useDecimalFormat | .useModalCodes | .useCompactCode => true
    | _ => false

inductive HeidenhainFlag where
  | useConversationalFormat
  | useFunctionBlocks
  | useCycleDefine
  | useTcp
deriving DecidableEq, Repr

instance : Flag HeidenhainFlag where
  all := [.useConversationalFormat, .useFunctionBlocks, .useCycleDefine, .useTcp]
  name
    | .useConversationalFormat => "use_conversational_format"
    | .useFunctionBlocks => "use_function_blocks"
    | .useCycleDefine => "use_cycle_define"
    | .useTcp => "use_tcp"
  standard
    | .useTcp => false
    | _ => true

/-- Limits of the travel on each axis. No minimum reaches its maximum. -/
structure Envelope where
  minimum : List Float
  maximum : List Float
  apart : (minimum.zip maximum).any (fun (lo, hi) => decide (hi ≤ lo)) = false

namespace Envelope

def make (minimum maximum : List Float) : Except Fault Envelope :=
  if h : (minimum.zip maximum).any (fun (lo, hi) => decide (hi ≤ lo)) = false then
    .ok ⟨minimum, maximum, h⟩
  else .error (.options (.envelope minimum maximum))

/-- A coordinate without a limit is not checked. -/
def contains (e : Envelope) (point : List Float) : Bool :=
  Bounds.within e.minimum e.maximum point

end Envelope

structure Options where
  general : Switches GeneralFlag := .standard
  fanuc : Option (Switches FanucFlag) := none
  heidenhain : Option (Switches HeidenhainFlag) := none
  envelope : Option Envelope := none
  programName : String := "WORKPIECE"

namespace Options

/-- The name of a conversational program without the blanks around it. -/
def name (o : Options) : List Char := Text.trim o.programName.toList

/-- Options fit a control if they hold no other dialect and name the program by one word. -/
def checkFor (o : Options) (c : Controller) : Except Fault Unit :=
  if o.fanuc.isSome && c != .fanuc then .error (.options (.dialectSet .fanuc c))
  else if o.heidenhain.isSome && c != .heidenhain then
    .error (.options (.dialectSet .heidenhain c))
  else if o.name.isEmpty || o.name.contains ' ' then
    .error (.options (.programName o.programName))
  else .ok ()

/-- The switches of a dialect, as they stand unless the options say something. -/
def fanucSwitches (o : Options) : Switches FanucFlag := o.fanuc.getD .standard

def heidenhainSwitches (o : Options) : Switches HeidenhainFlag := o.heidenhain.getD .standard

end Options

end PartProgram

import PartProgram.Rule.Chains
import PartProgram.Rule.Consolidation
import PartProgram.Rule.Conversational
import PartProgram.Rule.Corners
import PartProgram.Rule.Feed
import PartProgram.Rule.HighSpeed
import PartProgram.Rule.Redundancy
import PartProgram.Rule.Registry
import PartProgram.Rule.Spelling

/-!
# PartProgram.Rule.Standard

The rules of an optimization: for each one its name and stage, the dialect it belongs to if it is
not for every control, the switch that turns it on, what it says when it has changed a program, and
what it does.
-/

namespace PartProgram

inductive StandardRule where
  | removeEmptyLines
  | removeComments
  | removeRedundantMoves
  | removeRedundantCodes
  | optimizeRapidMoves
  | consolidateCodes
  | optimizeFeedrates
  | useArcOptimization
  | dropMotionCodes
  | useHighSpeedMode
  | roundCorners
  | compactCode
  | decimalFormat
  | conversationalFormat
  | functionBlocks
  | tcpm
deriving DecidableEq, Repr

namespace StandardRule

def all : List StandardRule :=
  [removeEmptyLines, removeComments, removeRedundantMoves, removeRedundantCodes, optimizeRapidMoves,
    consolidateCodes, optimizeFeedrates, useArcOptimization, dropMotionCodes, useHighSpeedMode,
    roundCorners, compactCode, decimalFormat, conversationalFormat, functionBlocks, tcpm]

def name : StandardRule → String
  | removeEmptyLines => "remove_empty_lines"
  | removeComments => "remove_comments"
  | removeRedundantMoves => "remove_redundant_moves"
  | removeRedundantCodes => "remove_redundant_codes"
  | optimizeRapidMoves => "optimize_rapid_moves"
  | consolidateCodes => "consolidate_gcodes"
  | optimizeFeedrates => "optimize_feedrates"
  | useArcOptimization => "use_arc_optimization"
  | dropMotionCodes => "fanuc_modal_g_codes"
  | useHighSpeedMode => "fanuc_high_speed_mode"
  | roundCorners => "fanuc_corner_rounding"
  | compactCode => "fanuc_compact_gcode"
  | decimalFormat => "fanuc_decimal_format"
  | conversationalFormat => "heidenhain_conversational_format"
  | functionBlocks => "heidenhain_function_blocks"
  | tcpm => "heidenhain_tcpm"

def ofName? (s : String) : Option StandardRule := all.find? (·.name == s)

def stage : StandardRule → Stage
  | removeEmptyLines | removeComments => .normalize
  | removeRedundantMoves | removeRedundantCodes => .redundancy
  | optimizeRapidMoves | consolidateCodes => .consolidation
  | optimizeFeedrates | useArcOptimization => .feedAndArc
  | _ => .controller

def dialect? : StandardRule → Option Dialect
  | dropMotionCodes | useHighSpeedMode | roundCorners | compactCode | decimalFormat => some .fanuc
  | conversationalFormat | functionBlocks | tcpm => some .heidenhain
  | _ => none

def controllers (r : StandardRule) : List Controller := (r.dialect?.map Dialect.controller).toList

/-- What is said of a program that the rule has changed. -/
def improvement : StandardRule → String
  | removeEmptyLines => "Removed empty lines"
  | removeComments => "Removed comments"
  | removeRedundantMoves => "Removed moves that do not change the tool position"
  | removeRedundantCodes => "Removed restated modal codes and feed words"
  | optimizeRapidMoves => "Merged collinear rapid moves"
  | consolidateCodes => "Consolidated consecutive modal codes onto one line"
  | optimizeFeedrates => "Clamped feed rates to the controller range"
  | useArcOptimization => "Replaced near-circular linear chains with arcs"
  | dropMotionCodes => "Removed motion codes already in effect"
  | useHighSpeedMode => "Enabled high-speed contour control"
  | roundCorners => "Added corner rounding between contour moves"
  | compactCode => "Compacted code words and spacing"
  | decimalFormat => "Added decimal points to integer coordinates"
  | conversationalFormat => "Converted to Heidenhain conversational format"
  | functionBlocks => "Collapsed repeated cycle definitions into cycle calls"
  | tcpm => "Added TCPM tool centre point management"

/-- Whether the options of a job ask for the rule. -/
def isEnabled (r : StandardRule) (job : Job) : Bool :=
  match r with
  | removeEmptyLines => job.flag .removeEmptyLines
  | removeComments => job.flag .removeComments
  | removeRedundantMoves => job.flag .removeRedundantMoves
  | removeRedundantCodes => job.flag .removeRedundantCodes
  | optimizeRapidMoves => job.flag .optimizeRapidMoves
  | consolidateCodes => job.flag .consolidateCodes
  | optimizeFeedrates => job.flag .optimizeFeedrates
  | useArcOptimization => job.flag .useArcOptimization
  | dropMotionCodes => job.fanucFlag .useModalCodes
  | useHighSpeedMode => job.flag .useHighSpeedMode
  | roundCorners => job.fanucFlag .useCornerRounding
  | compactCode => job.fanucFlag .useCompactCode
  | decimalFormat => job.fanucFlag .useDecimalFormat
  | conversationalFormat => job.heidenhainFlag .useConversationalFormat
  | functionBlocks => job.heidenhainFlag .useFunctionBlocks
  | tcpm => job.heidenhainFlag .useTcp

def run (r : StandardRule) (job : Job) (ls : Lines) : Revised :=
  match r with
  | removeEmptyLines => pure (Rule.removeEmptyLines ls)
  | removeComments => pure (Rule.removeComments ls)
  | removeRedundantMoves => Rule.removeRedundantMoves ls
  | removeRedundantCodes => Rule.removeRedundantCodes ls
  | optimizeRapidMoves => Rule.optimizeRapidMoves ls
  | consolidateCodes => pure (Rule.consolidateCodes ls)
  | optimizeFeedrates => pure (Rule.optimizeFeedrates job ls)
  | useArcOptimization => Rule.useArcOptimization ls
  | dropMotionCodes => Rule.dropMotionCodes ls
  | useHighSpeedMode => pure (Rule.useHighSpeedMode job ls)
  | roundCorners => Rule.roundCorners ls
  | compactCode => pure (Rule.compactCode ls)
  | decimalFormat => pure (Rule.decimalFormat ls)
  | conversationalFormat => Rule.conversationalFormat job ls
  | functionBlocks => pure (Rule.functionBlocks ls)
  | tcpm => Rule.tcpm ls

/-- The place of a rule among the others: its stage, and there the order of the list. -/
def registration (r : StandardRule) (order : Nat) : Registration StandardRule :=
  ⟨r.name, r.stage, order, if r.controllers.isEmpty then none else some r.controllers, r⟩

end StandardRule

/-- The registry of the rules of an optimization. -/
def Registry.standard : Registry StandardRule :=
  { registrations := StandardRule.all.zipIdx.map fun (r, i) => r.registration i }

end PartProgram

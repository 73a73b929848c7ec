import PartProgram.Options.Builder
import PartProgram.Rule.Standard
import PartProgram.Statistics
import PartProgram.Validation

/-!
# PartProgram.Optimization

A program made over for a control. The rules that the options ask for run one after the other, each
on the lines of the one before; what they come to is counted and checked.
-/

namespace PartProgram

open Conversational (isConversational)

structure Optimization where
  lines : Lines
  statistics : Statistics
  report : Report
  /-- one entry for each rule that changed the program -/
  improvements : List String

/-- The program that came out, as a text. -/
def Optimization.code (o : Optimization) : String := Text.joinLines o.lines

/-- Lines on their way through the rules. -/
structure Progress where
  lines : Lines
  /-- the lines before the first rule for the control alone -/
  neutral : Option Lines := none
  improvements : List String := []

namespace Optimization

/-- Whether a rule has its turn. Of the rules for every control only one takes conversational text,
and other controls have none for it. -/
def hasTurn (job : Job) (conversational : Bool) (r : StandardRule) : Bool :=
  r.isEnabled job &&
    (!conversational ||
      (job.controller == .heidenhain && (r.stage == .controller || r == .removeEmptyLines)))

/-- One rule after the others. -/
def step (job : Job) (p : Progress) (r : StandardRule) : Told Progress := do
  let lines ← r.run job p.lines
  return {
    lines := lines
    neutral := if r.stage = .controller then p.neutral <|> some p.lines else p.neutral
    improvements :=
      if lines = p.lines then p.improvements else p.improvements ++ [r.improvement] }

def steps (job : Job) : List StandardRule → Progress → Told Progress
  | [], p => pure p
  | r :: rest, p => do steps job rest (← step job p r)

/-- The rules that have their turn, in order. -/
def rulesOf (job : Job) (conversational : Bool) : List StandardRule :=
  ((Registry.standard.rulesFor job.controller).map Registration.rule).filter
    (hasTurn job conversational)

/-- All rules on a program. -/
def applyRules (job : Job) (source : Lines) : Told Progress := do
  let conversational := isConversational source
  if conversational && job.controller != .heidenhain then
    Told.say (.leftConversational job.controller)
  steps job (rulesOf job conversational) { lines := source }

/-- What the machine follows: the lines before they were converted, or else the lines themselves. -/
def followed (source : Lines) (p : Progress) : Lines :=
  if isConversational p.lines && !isConversational source then p.neutral.getD p.lines else p.lines

/-- The optimization of the lines of a program. -/
def ofLines (job : Job) (source : Lines) : Except Fault Optimization := do
  let told := applyRules job source
  let p ← told.result
  let gcode := followed source p
  let statistics ← Statistics.measure job source p.lines gcode
  let report ← Validation.validate job gcode p.lines told.notices
  return {
    lines := p.lines, statistics := statistics, report := report, improvements := p.improvements }

end Optimization

/-- The optimization of a program text for the control that was asked for, if there is one. Options
that are not given are those of the control. -/
def optimize (source : String) (target : Except Fault Controller) (options : Option Options) :
    Except Fault Optimization := do
  if Toolpath.isBlankText source then throw (.empty .noText)
  let target ← target
  let options ← match options with
    | some options => pure options
    | none => Options.standardFor target
  options.checkFor target
  let lines := Text.lines source
  if (Block.readLinesFrom 1 lines).isEmpty then throw (.empty .onlyComments)
  Optimization.ofLines ⟨target, options⟩ lines

end PartProgram

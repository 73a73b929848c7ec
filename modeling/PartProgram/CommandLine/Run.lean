import PartProgram.CommandLine.Directory
import PartProgram.CommandLine.Request
import PartProgram.Optimization

/-!
# PartProgram.CommandLine.Run

A command at work. It reads its program from a directory and comes to an outcome: what is shown, what
is logged, which files are new, and the exit code, which is one for a program that is not safe and
two for a command that failed.
-/

namespace PartProgram.CommandLine

open Number (general fixedText)

structure Record where
  level : LogLevel
  message : String
deriving Repr

structure Outcome where
  exitCode : Nat := 0
  output : String := ""
  log : List Record := []
  /-- new files with their texts -/
  written : List (List String × String) := []
deriving Repr

inductive Failure where
  | fault (f : Fault)
  | file (f : FileFault)

instance : MonadLift (Except Fault) (Except Failure) where
  monadLift := Except.mapError .fault

instance : MonadLift (Except FileFault) (Except Failure) where
  monadLift := Except.mapError .file

/-- The name of the file for a result of the day. -/
def outputName (c : Controller) (day : String) : String :=
  "optimized_" ++ c.name ++ "_" ++ day ++ c.fileExtension

/-- The records that tell what an optimization came to. -/
def optimizationLog (o : Optimization) : List Record :=
  let s := o.statistics
  [⟨.info, toString s.linesBefore ++ " -> " ++ toString s.linesAfter ++ " lines (" ++
      general s.reduction ++ "% fewer), ~" ++ general s.timeSaved ++ "s saved"⟩] ++
    o.improvements.map (fun text => ⟨.info, "Improvement: " ++ text⟩) ++
    o.report.notices.map (fun n => ⟨.warning, n.message⟩) ++
    o.report.errors.map fun e => ⟨.error, e.message⟩

/-- The builder with what the request says. -/
def OptimizeRequest.builder (r : OptimizeRequest) (c : Controller) : Builder :=
  let b := Builder.new c
  let b := (r.preset.map b.applyPreset).getD b
  match r.programName with
  | some name => if name.isEmpty then b else { b with programName := some name }
  | none => b

def OptimizeRequest.options (r : OptimizeRequest) (c : Controller) : Except Fault Options :=
  Session.answer Builder.build (r.builder c)

def OptimizeRequest.run (r : OptimizeRequest) (d : Directory) (day : String) :
    Except Failure Outcome := do
  let c ← Controller.ofName r.controller
  let source ← d.read (.ofString r.file)
  let options ← r.options c
  let o ← optimize source (.ok c) (some options)
  let text := o.code ++ "\n"
  let result : Outcome :=
    { exitCode := if o.report.isValid then 0 else 1, log := optimizationLog o }
  match r.folder with
  | none => return { result with output := text }
  | some folder =>
    let path := Path.ofString folder
    let name := outputName c day
    let names ← d.newFile path name
    return { result with
      log := ⟨.info, "Wrote " ++ (path.child name).render⟩ :: result.log
      written := [(names, text)] }

def Waypoint.row (w : Waypoint) : String :=
  "\t".intercalate
    ([toString w.line, w.kind.name] ++ w.position.toList.map (fixedText 4)) ++ "\n"

def toolpathText (t : Toolpath) (showsPoints : Bool) : String :=
  String.join (if showsPoints then t.points.map Waypoint.row else []) ++
    "points: " ++ toString t.points.length ++ "\ncycles: " ++ toString t.cycles.length ++ "\n" ++
      match t.bounds with
      | none => ""
      | some b =>
        "bounds: " ++ tupleText b.minimum.toList ++ " .. " ++ tupleText b.maximum.toList ++ "\n"

def ToolpathRequest.run (r : ToolpathRequest) (d : Directory) : Except Failure Outcome := do
  let source ← d.read (.ofString r.file)
  let settings ← Settings.make r.resolution Arc.defaultTolerance Arc.defaultEpsilon
    Settings.standard.backBoringShift
  let t ← Toolpath.ofText source settings
  return {
    output := toolpathText t r.showsPoints
    log := t.warnings.map fun w => ⟨.warning, w.message⟩ }

def Command.file : Command → String
  | optimize r => r.file
  | toolpath r => r.file

def Command.run (c : Command) (d : Directory) (day : String) : Except Failure Outcome :=
  match c with
  | optimize r => r.run d day
  | toolpath r => r.run d

/-- Whether arithmetic left its range, which no command can report on. -/
def isBreakdown : Fault → Bool
  | .number .infinite | .number .squareOverflow | .number .divisionByZero => true
  | _ => false

/-- A failure as an outcome, unless it breaks the command off. -/
def failed (file : String) : Failure → Except Fault Outcome
  | .fault f =>
    if isBreakdown f then .error f
    else .ok { exitCode := 2, log := [⟨.error, f.message⟩] }
  | .file f =>
    .ok {
      exitCode := 2
      log := [⟨.error,
        "Cannot access " ++ (Path.ofString file).render ++ ": " ++ f.message⟩] }

/-- The outcome with the records that the level lets through. -/
def Outcome.atLevel (o : Outcome) (level : LogLevel) : Outcome :=
  { o with log := o.log.filter fun r => level.number ≤ r.level.number }

/-- What a command comes to, with a failure as an outcome. -/
def Command.outcome (c : Command) (d : Directory) (day : String) : Except Fault Outcome :=
  match c.run d day with
  | .ok o => .ok o
  | .error f => failed c.file f

/-- A request at work in a directory on a day. -/
def Request.run (r : Request) (d : Directory) (day : String) (tracing : Bool) :
    Except Fault Outcome :=
  (r.command.outcome d day).map (Outcome.atLevel · (r.verbosity.logLevel tracing))

/-- An argument list at work; one that is no request is refused without a word. -/
def run (arguments : List String) (d : Directory) (day : String) (tracing : Bool) :
    Except Fault Outcome :=
  match Request.parse? arguments with
  | some r => r.run d day tracing
  | none => .ok { exitCode := 2 }

end PartProgram.CommandLine

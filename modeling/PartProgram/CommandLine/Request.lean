import PartProgram.CommandLine.Arguments
import PartProgram.CommandLine.LogLevel
import PartProgram.Options.Preset
import PartProgram.Setting

/-!
# PartProgram.CommandLine.Request

What a command line asks for: to optimize a program for a control, or to lay out the way of its tool.
-/

namespace PartProgram.CommandLine

structure OptimizeRequest where
  file : String
  controller : String := Controller.generic.name
  preset : Option Preset := none
  programName : Option String := none
  /-- the folder for the result, which is shown if there is none -/
  folder : Option String := none
deriving Repr

structure ToolpathRequest where
  file : String
  resolution : Float := Arc.defaultResolution
  /-- whether every waypoint is shown -/
  showsPoints : Bool := false
deriving Repr

inductive Command where
  | optimize (r : OptimizeRequest)
  | toolpath (r : ToolpathRequest)
deriving Repr

structure Request where
  verbosity : Verbosity := {}
  command : Command
deriving Repr

inductive MainOption where
  | verbose
  | quiet
  | logLevel

def mainOptions : List (OptionNames MainOption) :=
  [⟨.verbose, ["-v", "--verbose"], false⟩, ⟨.quiet, ["-q", "--quiet"], false⟩,
    ⟨.logLevel, ["--log-level"], true⟩]

inductive OptimizeOption where
  | controller
  | preset
  | programName
  | folder

def optimizeOptions : List (OptionNames OptimizeOption) :=
  [⟨.controller, ["--controller"], true⟩, ⟨.preset, ["--preset"], true⟩,
    ⟨.programName, ["--program-name"], true⟩, ⟨.folder, ["--output-dir"], true⟩]

inductive ToolpathOption where
  | resolution
  | points

def toolpathOptions : List (OptionNames ToolpathOption) :=
  [⟨.resolution, ["--resolution"], true⟩, ⟨.points, ["--points"], false⟩]

/-- A value changed by the options among items, in order. -/
def applyOptions {κ σ : Type} (change : σ → κ → String → Option σ) (s : σ) :
    List (Item κ) → Option σ
  | [] => some s
  | .option key value :: rest => do applyOptions change (← change s key (value.getD "")) rest
  | _ :: rest => applyOptions change s rest

def Verbosity.change (v : Verbosity) (o : MainOption) (value : String) : Option Verbosity :=
  match o with
  | .verbose => some { v with verbose := v.verbose + 1 }
  | .quiet => some { v with quiet := true }
  | .logLevel => (LogLevel.ofName? value).map fun level => { v with level := some level }

def OptimizeRequest.change (r : OptimizeRequest) (o : OptimizeOption) (value : String) :
    Option OptimizeRequest :=
  match o with
  | .controller => some { r with controller := value }
  | .preset => (Preset.ofName? value).map fun p => { r with preset := some p }
  | .programName => some { r with programName := some value }
  | .folder => some { r with folder := some value }

def ToolpathRequest.change (r : ToolpathRequest) (o : ToolpathOption) (value : String) :
    Option ToolpathRequest :=
  match o with
  | .resolution => (Number.parse? value).map fun x => { r with resolution := x }
  | .points => some { r with showsPoints := true }

/-- The command of a name with its own arguments, of which one is the file. -/
def Command.parse? (name : String) (arguments : List String) : Option Command :=
  match name with
  | "optimize" => do
    let is ← items optimizeOptions false none arguments
    let file ← soleWord? is
    (applyOptions OptimizeRequest.change { file := file } is).map .optimize
  | "toolpath" => do
    let is ← items toolpathOptions false none arguments
    let file ← soleWord? is
    (applyOptions ToolpathRequest.change { file := file } is).map .toolpath
  | _ => none

/-- The request of an argument list, if it is one. -/
def Request.parse? (arguments : List String) : Option Request := do
  let is ← items mainOptions true none arguments
  let v ← applyOptions Verbosity.change {} is
  let name :: rest := wordsAfter is | none
  return { verbosity := v, command := ← Command.parse? name rest }

end PartProgram.CommandLine

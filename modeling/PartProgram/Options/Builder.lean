import PartProgram.Options.Preset
import PartProgram.Session

/-!
# PartProgram.Options.Builder

Options put together call by call for one control. A preset sets all switches, a call for single
switches changes those it names, and limits and program name stay through both.
-/

namespace PartProgram

structure Builder where
  controller : Controller
  general : Switches GeneralFlag := .standard
  fanuc : Option (Switches FanucFlag)
  heidenhain : Option (Switches HeidenhainFlag)
  envelope : Option Envelope := none
  programName : Option String := none

namespace Builder

def new (c : Controller) : Builder :=
  { controller := c
    fanuc := if c = .fanuc then some .standard else none
    heidenhain := if c = .heidenhain then some .standard else none }

/-- All switches as the preset has them, of a dialect only for its own control. -/
def applyPreset (b : Builder) (p : Preset) : Builder :=
  { b with
    general := p.general
    fanuc := b.fanuc.map fun _ => p.fanuc
    heidenhain := b.heidenhain.map fun _ => p.heidenhain }

/-- The options so far, before they are checked. -/
def options (b : Builder) : Options :=
  { general := b.general
    fanuc := b.fanuc
    heidenhain := b.heidenhain
    envelope := b.envelope
    programName := b.programName.getD "WORKPIECE" }

/-- What a call on a builder comes to. -/
abbrev Step (α : Type) := EStateM Fault Builder α

def preset (name : String) : Step Unit := do
  match Preset.ofName? name with
  | some p => modify (·.applyPreset p)
  | none => throw (.options (.unknownPreset name Preset.names))

/-- Names have to be those of switches of the family. -/
def checkNames (ι : Type) [DecidableEq ι] [Flag ι] (dialect : Option Dialect)
    (changes : List (String × Bool)) : Except Fault Unit :=
  let unknown := Switches.unknownNames ι changes
  if unknown.isEmpty then .ok ()
  else .error (.options (.unknownFlags dialect (sortBy (fun a b => decide (a < b)) unknown)))

def setGeneral (changes : List (String × Bool)) : Step Unit := do
  ofExcept (checkNames GeneralFlag none changes)
  modify fun b => { b with general := b.general.setNamed changes }

/-- Named switches of a dialect, on a builder that has a block of it. -/
def setDialect {ι : Type} [DecidableEq ι] [Flag ι] (dialect : Dialect)
    (block : Builder → Option (Switches ι)) (store : Builder → Switches ι → Builder)
    (changes : List (String × Bool)) : Step Unit := do
  let b ← get
  match block b with
  | none => throw (.options (.dialectRefused dialect b.controller))
  | some s =>
    ofExcept (checkNames ι (some dialect) changes)
    modify fun b => store b (s.setNamed changes)

def setFanuc : List (String × Bool) → Step Unit :=
  setDialect .fanuc fanuc fun b s => { b with fanuc := some s }

def setHeidenhain : List (String × Bool) → Step Unit :=
  setDialect .heidenhain heidenhain fun b s => { b with heidenhain := some s }

def setEnvelope (minimum maximum : List Float) : Step Unit := do
  let e ← ofExcept (Envelope.make minimum maximum)
  modify fun b => { b with envelope := some e }

def setProgramName (name : String) : Step Unit :=
  modify fun b => { b with programName := some name }

def build : Step Options := do
  let b ← get
  ofExcept (b.options.checkFor b.controller)
  return b.options

/-- The calls that a builder takes. -/
inductive Call where
  | preset (name : String)
  | general (changes : List (String × Bool))
  | fanuc (changes : List (String × Bool))
  | heidenhain (changes : List (String × Bool))
  | envelope (minimum maximum : List Float)
  | programName (name : String)
  | build

/-- A call on a builder. Only a call that builds answers options. -/
def perform : Call → Step (Option Options)
  | .preset name => do preset name; return none
  | .general changes => do setGeneral changes; return none
  | .fanuc changes => do setFanuc changes; return none
  | .heidenhain changes => do setHeidenhain changes; return none
  | .envelope minimum maximum => do setEnvelope minimum maximum; return none
  | .programName name => do setProgramName name; return none
  | .build => do return some (← build)

end Builder

/-- The options of a control for which nothing is said. -/
def Options.standardFor (c : Controller) : Except Fault Options :=
  Session.answer Builder.build (Builder.new c)

/-- The options of a preset for a control. -/
def Options.ofPreset (name : String) (c : Controller) : Except Fault Options :=
  Session.answer (do Builder.preset name; Builder.build) (Builder.new c)

end PartProgram

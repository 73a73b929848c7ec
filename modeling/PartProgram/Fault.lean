import PartProgram.Controller
import PartProgram.Number.Fault
import PartProgram.Number.Layout
import PartProgram.Text.Quoted

/-!
# PartProgram.Fault

Why there may be no answer at all. Malformed blocks never stop a program; they are warnings. What
stops one is an empty text, a setting or an option that cannot be, or arithmetic that has no result.
-/

namespace PartProgram

open Number (exact)

/-- Numbers in brackets with commas between; one number alone keeps its comma. -/
def tupleText (xs : List Float) : String :=
  match xs with
  | [x] => "(" ++ exact x ++ ",)"
  | xs => "(" ++ ", ".intercalate (xs.map exact) ++ ")"

inductive EmptyProgram where
  | noText
  | onlyComments
deriving DecidableEq, Repr

def EmptyProgram.message : EmptyProgram → String
  | noText => "Empty program: program text is empty"
  | onlyComments => "Empty program: program holds only comments"

/-- The dialects that have options of their own. -/
inductive Dialect where
  | fanuc
  | heidenhain
deriving DecidableEq, Repr

namespace Dialect

def label : Dialect → String
  | fanuc => "Fanuc"
  | heidenhain => "Heidenhain"

def controller : Dialect → Controller
  | fanuc => .fanuc
  | heidenhain => .heidenhain

end Dialect

inductive OptionsFault where
  /-- some minimum is not below its maximum -/
  | envelope (minimum maximum : List Float)
  /-- options hold a dialect that the control does not speak -/
  | dialectSet (dialect : Dialect) (target : Controller)
  /-- flags of a dialect that the control does not speak -/
  | dialectRefused (dialect : Dialect) (target : Controller)
  | programName (name : String)
  | unknownPreset (name : String) (known : List String)
  | unknownFlags (dialect : Option Dialect) (names : List String)
deriving Repr

def OptionsFault.message : OptionsFault → String
  | envelope lo hi =>
    "envelope minimum " ++ tupleText lo ++ " must be below maximum " ++ tupleText hi
  | dialectSet d c => d.label ++ " options set while targeting " ++ c.name
  | dialectRefused d c => d.label ++ " options cannot be used while targeting " ++ c.name
  | programName name => "program name " ++ Text.quoted name ++ " must be a single non-empty word"
  | unknownPreset name known =>
    "unknown preset " ++ Text.quoted name ++ " (known: " ++ ", ".intercalate known ++ ")"
  | unknownFlags d names =>
    "unknown " ++ (d.map (·.label ++ " ")).getD "" ++ "option(s): " ++ ", ".intercalate names

/-- What a segment length was given for. -/
inductive SegmentUse where
  | settings
  | arc
  | shape
deriving DecidableEq, Repr

def SegmentUse.label : SegmentUse → String
  | settings => "arc_resolution"
  | arc => "arc resolution"
  | shape => "shape resolution"

inductive Fault where
  | number (fault : Number.Fault)
  | empty (program : EmptyProgram)
  /-- a segment length that is not positive -/
  | segment (use : SegmentUse) (length : Float)
  /-- no control has this name, which is held as messages show it -/
  | unknownController (shown : String)
  | options (fault : OptionsFault)
  /-- a number of decimal places below zero -/
  | places
deriving Repr

def Fault.message : Fault → String
  | number fault => fault.message
  | empty program => program.message
  | segment use length => use.label ++ " must be positive, got " ++ exact length
  | unknownController shown =>
    "Unknown controller: " ++ shown ++ " (accepted: " ++
      ", ".intercalate (Controller.all.map Controller.name) ++ ")"
  | options fault => "Invalid options: " ++ fault.message
  | places => "Format specifier missing precision"

instance : MonadLift (Except Number.Fault) (Except Fault) where
  monadLift := Except.mapError Fault.number

/-- The control of a name. -/
def Controller.ofName (s : String) : Except Fault Controller :=
  match ofName? s with
  | some c => .ok c
  | none => .error (.unknownController (Text.quoted s))

end PartProgram

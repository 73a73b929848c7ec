import PartProgram.Fault
import PartProgram.Number.Numeral
import PartProgram.Number.Scalar

/-!
# PartProgram.Setting

Settings from the surroundings of a program, which are texts if they are there at all. A text that is
no number is passed over like a blank one.
-/

namespace PartProgram.Setting

/-- The number of a setting, or the one that holds without it. -/
def number (text : Option String) (standard : Float) : Float :=
  match text with
  | none => standard
  | some s => (Number.parse? s).getD standard

/-- The whole part of the number of a setting. -/
def whole (text : Option String) (standard : Float) : Except Fault Int :=
  (Number.truncate (number text standard)).mapError .number

/-- Whether a setting switches something on. -/
def isOn (text : Option String) : Bool :=
  text.any fun s => ["1", "true", "yes", "on"].contains (String.ofList (s.toList.map Char.toLower))

end PartProgram.Setting

import PartProgram.Conversational.Conversion
import PartProgram.Conversational.Part
import PartProgram.Rule.Basic

/-!
# PartProgram.Rule.Conversational

Rules for conversational programs: the conversion itself, one definition for a row of equal cycles,
and the management of the tool centre point for machines with rotary axes.
-/

namespace PartProgram.Rule

open Conversational

/-- A program that is conversational already stays as it is. -/
def conversationalFormat (job : Job) (ls : Lines) : Revised :=
  if isConversational ls then pure ls else convert job ls

/-- A cycle that is defined as it stands is only called. -/
def functionBlocks (ls : Lines) : Lines :=
  if !isConversational ls then ls
  else
    let parts := Part.ofLines (dropNumbers ls)
    let kept := Part.dropRepeated none parts
    if kept.length = parts.length then ls else renumber (kept.flatMap Part.lines)

def tcpmOn : String := "FUNCTION TCPM F TCP AXIS POS PATHCTRL AXIS"

def tcpmOff : String := "FUNCTION RESET TCPM"

def beginsWith (mark line : String) : Bool := mark.toList.isPrefixOf line.toList

/-- The tool centre point is managed from the first tool call to the end of the program. -/
def tcpm (ls : Lines) : Revised :=
  let plain := dropNumbers ls
  if !isConversational ls || plain.any (beginsWith "FUNCTION TCPM") then pure ls
  else
    match plain.findIdx? (beginsWith toolCall), lastIndex? (beginsWith closing) plain with
    | some tool, some finish =>
      pure (renumber (insertAt (tool + 1) [tcpmOn] (insertAt finish [tcpmOff] plain)))
    | _, _ => do
      Told.say .noRoomForTcpm
      return ls

end PartProgram.Rule

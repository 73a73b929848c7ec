import PartProgram.Fault
import PartProgram.Warning

/-!
# PartProgram.Notice

What there is to say about a program as a whole. A result may come with notices, and what was said on
the way to it stays said even when there is no result in the end.
-/

namespace PartProgram

/-- What rules and checks have to say about a program as a whole. -/
inductive Notice where
  | line (warning : LineWarning)
  /-- the thread of a tapping cycle needs a feed and a speed -/
  | pitchUnknown (line : Int)
  | shapeAsComment (line : Int) (code : Code)
  | cycleAsMoves (line : Int) (code : Code)
  | noRoomForTcpm
  /-- conversational text for a control that cannot take it -/
  | leftConversational (target : Controller)
  | uncheckedConversational
  | noEndCode
  | longBlock (line : Nat) (length limit : Nat)
  | noToolCall
  /-- said by the caller -/
  | given (text : String)
deriving Repr

def Notice.message : Notice → String
  | line w => w.message
  | pitchUnknown n =>
    "Line " ++ toString n ++ ": tapping pitch unknown without F and S; Q239 set to 0"
  | shapeAsComment n code =>
    "Line " ++ toString n ++ ": " ++ code ++ " has no conversational equivalent; left as comment"
  | cycleAsMoves n code =>
    "Line " ++ toString n ++ ": " ++ code ++ " has no cycle definition; expanded to path blocks"
  | noRoomForTcpm => "TCPM not added: program has no TOOL CALL or END PGM block"
  | leftConversational target =>
    "conversational input cannot be rewritten for " ++ target.name ++ "; left unchanged"
  | uncheckedConversational =>
    "input is already in conversational format; motion checks skipped"
  | noEndCode => "program has no end code (M30 or M2)"
  | longBlock n length limit =>
    "Line " ++ toString n ++ ": block is " ++ toString length ++ " characters, over the " ++
      toString limit ++ " limit"
  | noToolCall => "conversational program has no TOOL CALL block"
  | given text => text

/-- A result with what was said on the way to it. -/
structure Told (α : Type) where
  result : Except Fault α
  notices : List Notice := []

namespace Told

variable {α β : Type}

def bind (t : Told α) (f : α → Told β) : Told β :=
  match t.result with
  | .ok a => ⟨(f a).result, t.notices ++ (f a).notices⟩
  | .error fault => ⟨.error fault, t.notices⟩

instance : Monad Told where
  pure a := ⟨.ok a, []⟩
  bind := bind

instance : MonadLift (Except Fault) Told where
  monadLift e := ⟨e, []⟩

def say (n : Notice) : Told Unit := ⟨.ok (), [n]⟩

end Told

end PartProgram

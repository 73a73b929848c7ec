import PartProgram.Number.Printed
import PartProgram.Rule.Basic

/-!
# PartProgram.Rule.Feed

Feeds that the control can keep. A feed word is brought into the range of the machine; feeds per
turn have no lower limit but zero. Two words that come out alike need only one of them.
-/

namespace PartProgram.Rule

/-- The feed in effect after the lines so far, and whether feeds are per turn. -/
structure FeedMode where
  perTurn : Bool := false
  active : Option Float := none

/-- A feed in the range of the machine. -/
def clampFeed (p : Profile) (perTurn : Bool) (feed : Float) : Float :=
  Scalar.smaller (Scalar.larger feed (if perTurn then 0.0 else p.minFeed)) p.maxFeed

def FeedMode.meet (m : FeedMode) (b : Block) : FeedMode :=
  let codes := b.codes 'G'
  if codes.contains "G95" then { m with perTurn := true }
  else if codes.contains "G94" then { m with perTurn := false }
  else m

/-- The block with another number in its feed words. -/
def withFeed (b : Block) (feed : Float) : Block :=
  { b with
    words := b.words.map fun w => if w.letter == 'F' then ⟨'F', Number.coordinate feed⟩ else w }

def clampFeeds (p : Profile) (dropRestated : Bool) (m : FeedMode) :
    List (String × Option Block) → Lines
  | [] => []
  | (raw, none) :: rest => raw :: clampFeeds p dropRestated m rest
  | (raw, some b) :: rest =>
    let m := m.meet b
    match b.value 'F' with
    | none => raw :: clampFeeds p dropRestated m rest
    | some feed =>
      let clamped := clampFeed p m.perTurn feed
      let restated := dropRestated && m.active.any (clamped == ·)
      let after := clampFeeds p dropRestated { m with active := some clamped } rest
      if restated then
        let trimmed := b.without ["F"]
        if trimmed.isBare then after else trimmed.render :: after
      else if clamped == feed then raw :: after
      else (withFeed b clamped).render :: after

def optimizeFeedrates (job : Job) (ls : Lines) : Lines :=
  clampFeeds job.profile (job.flag .removeRedundantCodes) {} (readLines 1 ls)

end PartProgram.Rule

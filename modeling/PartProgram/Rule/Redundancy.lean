import PartProgram.Rule.Basic

/-!
# PartProgram.Rule.Redundancy

Moves that go nowhere, and modal words that are in force already.
-/

namespace PartProgram

/-- Nothing changed, given that only the axes of the block may have moved. -/
def Modal.unchangedBy (m : Modal) (b : Block) (after : Modal) : Bool :=
  m.positioning == after.positioning && m.plane == after.plane &&
    !b.moves m.position after.position && m.feed == after.feed && m.motion == after.motion &&
      m.cycle == after.cycle

namespace Rule

/-- A straight move with axes and feed and nothing else to it. -/
def isPlainMove (b : Block) : Bool :=
  b.onlyLetters ['G', 'X', 'Y', 'Z', 'F'] && b.onlyCodes ["G0", "G1"] && b.hasAxis &&
    b.corner.isNone

def isRedundantMove (s : Stop) : Bool :=
  match s.found with
  | none => false
  | some (b, r) => isPlainMove b && (r.isRapid || r.isLinear) && s.before.unchangedBy b r.state

def removeRedundantMoves (ls : Lines) : Revised :=
  .ofWalk ls fun stops => (stops.filter fun s => !isRedundantMove s).map Stop.raw

/-- The positioning and the plane that a program has stated so far. -/
structure Stated where
  positioning : Option Code := none
  plane : Option Code := none

/-- A code after those stated so far, and whether it repeats one. -/
def Stated.meet (s : Stated) (code : Code) : Stated × Bool :=
  if code = "G90" || code = "G91" then
    ({ s with positioning := some code }, s.positioning == some code)
  else if (Plane.ofCode? code).isSome then ({ s with plane := some code }, s.plane == some code)
  else (s, false)

/-- The codes among the given ones that repeat what was stated. -/
def Stated.repeated (s : Stated) : List Code → Stated × List Code
  | [] => (s, [])
  | code :: rest =>
    let (s, again) := s.meet code
    let (s, codes) := s.repeated rest
    (s, if again then code :: codes else codes)

/-- A feed word that says what the feed is already. -/
def repeatsFeed (before : Modal) (b : Block) : Bool :=
  match b.value 'F', before.feed with
  | some feed, some active => feed == active
  | _, _ => false

/-- The lines after those that stated `s`. A block left with nothing goes. -/
def trimStated (s : Stated) : List Stop → Lines
  | [] => []
  | stop :: rest =>
    match stop.block? with
    | none => stop.raw :: trimStated s rest
    | some b =>
      let (s, codes) := s.repeated (b.codes 'G')
      let drop := codes ++ if repeatsFeed stop.before b then ["F"] else []
      if drop.isEmpty then stop.raw :: trimStated s rest
      else
        let trimmed := b.without drop
        if trimmed.isBare then trimStated s rest else trimmed.render :: trimStated s rest

def removeRedundantCodes (ls : Lines) : Revised := .ofWalk ls (trimStated {})

/-- The motion code of a block that only says how the tool moves already. A block in a canned cycle
has none, since the code would end the cycle. -/
def restatedMotion? (before : Modal) (b : Block) : Option Code :=
  match before.cycle, (b.codes 'G').filter Code.motionModes.contains with
  | none, [code] => if before.motion == some code then some code else none
  | _, _ => none

/-- A line without the motion code it repeats. Nothing is left of a line with no other word and no
comment. -/
def dropMotionCode (s : Stop) : Option String :=
  match s.block? with
  | none => some s.raw
  | some b =>
    match restatedMotion? s.before b with
    | none => some s.raw
    | some code =>
      let trimmed := b.without [code]
      if trimmed.words.isEmpty && trimmed.comment.isNone then none else some trimmed.render

def dropMotionCodes (ls : Lines) : Revised := .ofWalk ls fun stops => stops.filterMap dropMotionCode

end Rule

end PartProgram

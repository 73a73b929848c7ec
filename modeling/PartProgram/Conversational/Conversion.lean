import PartProgram.Conversational.Definition
import PartProgram.Conversational.Numbering
import PartProgram.Job

/-!
# PartProgram.Conversational.Conversion

Programs in address words as conversational programs. Every block becomes the entries that do the
same; around them stand the opening with the workpiece blank, a tool call, and the closing.
-/

namespace PartProgram.Conversational

/-- What is known about tool and spindle. -/
structure Tooling where
  isCalled : Bool := false
  speed : Option Float := none
  /-- the first speed of the program -/
  firstSpeed : Option Float := none

def Tooling.meet (t : Tooling) (b : Block) : Tooling :=
  { isCalled := t.isCalled || b.has ['T']
    speed := b.value 'S' <|> t.speed
    firstSpeed := t.firstSpeed <|> b.value 'S' }

/-- The auxiliary codes of a block that still have to be said. A tool call changes the tool, and the
end of the program is its closing. -/
def extraCodes (b : Block) : List Code :=
  (b.codes 'M').filter fun code =>
    code != "M2" && code != "M30" && !(code == "M6" && b.has ['T'])

/-- The tool call of a block: for a tool, or for a speed on a block that goes nowhere. -/
def toolEntries (t : Tooling) (b : Block) (r : Resolution) : Except Fault (List Entry) :=
  match b.value 'T' with
  | some tool => do return [.toolCall (some (← Number.truncate tool)) (b.value 'S')]
  | none =>
    match b.value 'S' with
    | some speed => .ok (if t.isCalled && !r.isWork then [.toolCall none (some speed)] else [])
    | none => .ok []

def auxiliaryEntries (codes : List Code) : List Entry :=
  if codes.isEmpty then [] else [.auxiliary codes]

/-- The coordinates that a block names: where they lead, or the steps from where the tool was. -/
def blockCoordinates (b : Block) (state : Modal) (m : Motion) : List Coordinate :=
  (Axis.all.filter fun a => b.has [a.letter]).map fun a =>
    match state.positioning with
    | .absolute => .ofPoint m.finish a
    | .incremental => { axis := a, isStep := true, value := m.finish.get a - m.start.get a }

/-- A straight block needs a coordinate; without one the codes stand alone. -/
def straightEntries (coordinates : List Coordinate) (feed : PathFeed) (codes : List Code) :
    List Entry :=
  if coordinates.isEmpty then auxiliaryEntries codes
  else [.move { coordinates := coordinates, feed := feed, codes := codes }]

def feedWord (b : Block) : PathFeed :=
  match b.value 'F' with
  | some feed => .feed feed
  | none => .same

/-- An arc with its radius if the block gives that alone, else about its centre. -/
def arcEntries (b : Block) (m : Motion) (a : Arc) (codes : List Code) : List Entry :=
  let plane := a.plane
  let axes :=
    [plane.first, plane.second] ++ if (m.helicalEnd? plane).isSome then [plane.normal] else []
  let coordinates := axes.map (.ofPoint m.finish)
  match b.value 'R', b.has ['I', 'J', 'K'] with
  | some r, false =>
    let radius := if 0.0 ≤ r then a.radius else -a.radius
    [.move ⟨.withRadius radius a.direction, coordinates, feedWord b, codes⟩]
  | _, _ =>
    [.centre { axis := plane.first, value := a.centre.first }
        { axis := plane.second, value := a.centre.second },
      .move ⟨.about a.direction, coordinates, feedWord b, codes⟩]

/-- A phase of a cycle as a block of its own. -/
def phaseEntry (feed : Option Float) (p : Phase Float) : Entry :=
  let coordinates := Axis.all.map (.ofPoint ⟨p.x, p.y, p.z⟩)
  match p.kind with
  | .rapid => .move { coordinates := coordinates, feed := .rapid }
  | .feed =>
    let feed := feed.filter fun f => !(f == 0.0)
    .move { coordinates := coordinates, feed := (feed.map PathFeed.feed).getD .same }
  | .dwell => .dwell (seconds p.dwell)

/-- A cycle by its phases. -/
def expandedEntries (c : FixedCycle) (feed : Option Float) (codes : List Code) :
    Except Fault (List Entry) := do
  let e ← c.phases
  return e.phases.map (phaseEntry feed) ++ auxiliaryEntries codes

/-- A cycle as its definition and a call at the hole; a cycle without a definition by its phases. -/
def cycleEntries (job : Job) (c : FixedCycle) (feed speed : Option Float) (codes : List Code) :
    Told (List Entry) :=
  match c.kind with
  | none => do
    Told.say (.cycleAsMoves c.line c.code)
    expandedEntries c feed codes
  | some kind =>
    if job.heidenhainFlag .useCycleDefine then do
      let d ← Definition.ofCycle kind c.hole c.line feed speed
      let coordinates : List Coordinate :=
        [{ axis := .x, value := c.hole.x }, { axis := .y, value := c.hole.y }]
      return [.definition d,
        .move { coordinates := coordinates, feed := .rapid, codes := "M99" :: codes }]
    else expandedEntries c feed codes

def motionEntries (b : Block) (state : Modal) (m : Motion) (codes : List Code) :
    Told (List Entry) :=
  match m.action with
  | .rapid => pure (straightEntries (blockCoordinates b state m) .rapid codes)
  | .linear => pure (straightEntries (blockCoordinates b state m) (feedWord b) codes)
  | .arc a => pure (arcEntries b m a codes)
  | .dwell time => pure [.dwell (seconds time)]
  | .shape kind _ => do
    Told.say (.shapeAsComment b.line kind.code)
    return [.remark b.renderCode]

/-- What a block does, said as entries. -/
def effectEntries (job : Job) (t : Tooling) (b : Block) (r : Resolution) : Told (List Entry) :=
  match r.effect with
  | .none => pure (auxiliaryEntries (extraCodes b))
  | .cycle c => cycleEntries job c r.state.feed t.speed (extraCodes b)
  | .motion m => motionEntries b r.state m (extraCodes b)

/-- The entries of one line, given tool and spindle before it. -/
def stopEntries (job : Job) (t : Tooling) (s : Stop) : Told (List Entry) :=
  match s.found with
  | none => pure ((splitComment s.raw).2.toList.map .remark)
  | some (b, r) => do
    let tools ← toolEntries t b r
    let effects ← effectEntries job (t.meet b) b r
    return tools ++ effects ++ b.comment.toList.map .remark

/-- The entries of numbered lines, and what is known about tool and spindle after them. -/
def convertFrom (job : Job) (m : Modal) (t : Tooling) (lineNumber : Int) :
    Lines → Told (List Entry × Tooling)
  | [] => pure ([], t)
  | raw :: rest => do
    let s ← (m.stopAt .standard lineNumber raw : Except Fault Stop)
    let entries ← stopEntries job t s
    let t := (s.block?.map t.meet).getD t
    let (more, t) ← convertFrom job s.after t (lineNumber + 1) rest
    return (entries ++ more, t)

/-- The toolpath of the lines; nothing moves in a program without blocks. -/
def boundsOf (ls : Lines) : Except Fault (Option Bounds) :=
  match Toolpath.ofText (Text.joinLines ls) .standard with
  | .ok t => .ok t.bounds
  | .error (.empty _) => .ok none
  | .error fault => .error fault

/-- The greater corner of the workpiece, at least a unit away where the tool does not move. -/
def thicken (lo hi : Float) : Float := if hi - lo < 1e-6 then lo + 1.0 else hi

/-- The workpiece blank: the box that the tool moves in. -/
def blankEntries (bounds : Option Bounds) : List Entry :=
  let b := bounds.getD ⟨.origin, .origin⟩
  [.blankFrom b.minimum,
    .blankTo (.tabulate fun a => thicken (b.minimum.get a) (b.maximum.get a))]

/-- A whole program as entries. -/
def programEntries (job : Job) (ls : Lines) : Told (List Entry) := do
  let (body, t) ← convertFrom job .initial {} 1 ls
  let bounds ← boundsOf ls
  let name := String.ofList job.options.name
  let call : List Entry := if t.isCalled then [] else [.toolCall (some 1) t.firstSpeed]
  return .opening name :: blankEntries bounds ++ call ++ body ++ [.closing name]

/-- A whole program as numbered lines. -/
def convert (job : Job) (ls : Lines) : Told Lines := do
  return renumber ((← programEntries job ls).flatMap Entry.lines)

end PartProgram.Conversational

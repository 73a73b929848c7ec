import PartProgram.Arc
import PartProgram.Cycle
import PartProgram.Shape

/-!
# PartProgram.Motion

What one block does. `Modal.resolve` takes the state before a block to the state after it and to a
motion, a canned cycle, or nothing for a block that only sets modes. Every walk through a program is
a chain of these steps.
-/

namespace PartProgram

/-- What the caller may choose about arcs, shapes and cycles. The length of a chord is never zero or
less. -/
structure Settings where
  resolution : Float := Arc.defaultResolution
  fullCircleTolerance : Float := Arc.defaultTolerance
  radiusEpsilon : Float := Arc.defaultEpsilon
  /-- lateral shift for back boring, normally the offset of the bar -/
  backBoringShift : Float := 2.0
  resolution_not_le : ¬ resolution ≤ 0.0 := by decide

namespace Settings

def standard : Settings := {}

def make (resolution tolerance epsilon shift : Float) : Except Fault Settings :=
  if h : resolution ≤ 0.0 then .error (.segment .settings resolution)
  else .ok ⟨resolution, tolerance, epsilon, shift, h⟩

end Settings

inductive Action where
  | rapid
  | linear
  | arc (arc : Arc)
  | dwell (seconds : Option Float)
  | shape (kind : ShapeKind) (block : Block)
deriving Repr

structure Motion where
  start : Position
  finish : Position
  line : Int
  feed : Option Float
  action : Action
deriving Repr

/-- The end height of a helix, where it differs from the start. -/
def Motion.helicalEnd? (m : Motion) (plane : Plane) : Option Float :=
  let height := m.finish.get plane.normal
  if height != m.start.get plane.normal then some height else none

/-- What a block sets going. -/
inductive Effect where
  | none
  | motion (m : Motion)
  | cycle (c : FixedCycle)
deriving Repr

/-- The state after a block and what the block sets going. -/
structure Resolution where
  state : Modal
  effect : Effect := .none
  warnings : List Warning := []
deriving Repr

namespace Resolution

def motion? (r : Resolution) : Option Motion :=
  match r.effect with
  | .motion m => some m
  | _ => none

def cycle? (r : Resolution) : Option FixedCycle :=
  match r.effect with
  | .cycle c => some c
  | _ => none

def isRapid (r : Resolution) : Bool :=
  match r.effect with
  | .motion { action := .rapid, .. } => true
  | _ => false

def isLinear (r : Resolution) : Bool :=
  match r.effect with
  | .motion { action := .linear, .. } => true
  | _ => false

/-- Whether the block works the machine at all. -/
def isWork (r : Resolution) : Bool :=
  match r.effect with
  | .none => false
  | _ => true

end Resolution

namespace Modal

/-- The lateral shift of a cycle block. -/
def shift? (b : Block) (code : Code) (settings : Settings) : Option (Float × Float) :=
  if b.has ['I', 'J'] then some (b.valueOrZero 'I', b.valueOrZero 'J')
  else if code = CycleKind.backBoring.code then some (settings.backBoringShift, 0.0)
  else none

/-- A cycle at the target of the block. Words that the block leaves out are those of the active
cycle of the same code; without one the retract plane is the height the tool was at before the
block, and the depth is the retract plane. -/
def resolveCycle (settings : Settings) (before m : Modal) (code : Code) (b : Block) : Resolution :=
  let active := m.cycle.filter (·.code == code)
  let target := m.target b
  let r? := b.value 'R' <|> active.map ActiveCycle.r
  let z? := b.value 'Z' <|> active.map ActiveCycle.z
  let r := r?.getD before.position.z
  let z := z?.getD r
  let peck := (b.value 'Q' <|> active.bind ActiveCycle.peck).filter fun q => !decide (q ≤ 0.0)
  let dwell := b.value 'P' <|> active.bind ActiveCycle.dwell
  let hole : Hole Float :=
    { x := target.x
      y := target.y
      z := z
      r := r
      peck := peck
      dwell := dwell
      shift := shift? b code settings }
  { state :=
      { m with
        cycle := some ⟨code, z, r, peck, dwell⟩
        motion := none
        position := ⟨target.x, target.y, r⟩ }
    effect := .cycle ⟨code, CycleKind.ofCode? code, hole, b.raw, b.line⟩
    warnings :=
      (if r?.isNone then [.retractAssumed code r] else []) ++
        (if z?.isNone then [.depthAssumed code r] else []) }

/-- A straight move to the target of the block. A rapid has no feed. -/
def resolveStraight (before m : Modal) (b : Block) (action : Action) (feed : Option Float)
    (warnings : List Warning) : Resolution :=
  let target := m.target b
  ⟨m.movedTo target, .motion ⟨before.position, target, b.line, feed, action⟩, warnings⟩

def resolveRapid (before m : Modal) (b : Block) : Resolution :=
  resolveStraight before m b .rapid none []

/-- An arc to the target of the block, or a straight move if it has none. -/
def resolveArc (settings : Settings) (before m : Modal) (b : Block) (direction : Direction) :
    Except Fault Resolution := do
  let (arc, warnings) ← Arc.resolve before.position (m.target b) b m.plane direction
    settings.fullCircleTolerance settings.radiusEpsilon
  return resolveStraight before m b ((arc.map .arc).getD .linear) m.feed warnings

/-- A block that moves in the way of `code`, with the modal words of the block applied already. -/
def resolveCode (settings : Settings) (before m : Modal) (code : Code) (b : Block) :
    Except Fault Resolution :=
  if code ∈ Code.cycles then .ok (resolveCycle settings before m code b)
  else if code = "G0" then .ok (resolveRapid before m b)
  else if code = "G1" then .ok (resolveStraight before m b .linear m.feed [])
  else if let some direction := Direction.ofCode? code then
    resolveArc settings before m b direction
  else if code ∈ Code.dwell then
    let seconds := b.value 'P' <|> b.value 'X'
    .ok ⟨m, .motion ⟨before.position, before.position, b.line, m.feed, .dwell seconds⟩, []⟩
  else if let some kind := ShapeKind.ofCode? code then
    .ok (resolveStraight before m b (.shape kind b) m.feed [])
  else .ok ⟨m, .none, []⟩

/-- One block from the state before it. A block with axis words and no code that moves repeats the
active cycle or the active way of moving; with neither it is a rapid. A block with neither axis
words nor such a code goes nowhere. -/
def resolve (settings : Settings) (before : Modal) (b : Block) : Except Fault Resolution :=
  let m := before.apply b
  match b.dominant? with
  | some code => resolveCode settings before m code b
  | none =>
    if !b.hasAxis then .ok ⟨m, .none, []⟩
    else
      match m.cycle, m.motion with
      | some cycle, _ => .ok (resolveCycle settings before m cycle.code b)
      | none, some code => resolveCode settings before m code b
      | none, none =>
        .ok (resolveStraight before { m with motion := some "G0" } b .rapid none [.noMotionMode])

end Modal

/-- The state before a line, the block on it and what the block does; nothing but the state for a
line without a block. -/
structure Stop where
  raw : String
  before : Modal
  found : Option (Block × Resolution)
deriving Repr

namespace Stop

def block? (s : Stop) : Option Block := s.found.map Prod.fst

def resolution? (s : Stop) : Option Resolution := s.found.map Prod.snd

def after (s : Stop) : Modal := (s.resolution?.map Resolution.state).getD s.before

end Stop

/-- One line of a program, read in the given state. -/
def Modal.stopAt (settings : Settings) (m : Modal) (lineNumber : Int) (raw : String) :
    Except Fault Stop :=
  match Block.read? raw lineNumber with
  | none => .ok ⟨raw, m, none⟩
  | some b => do return ⟨raw, m, some (b, ← m.resolve settings b)⟩

/-- The walk through numbered lines. -/
def Modal.walkFrom (settings : Settings) (m : Modal) (lineNumber : Int) :
    List String → Except Fault (List Stop)
  | [] => .ok []
  | raw :: rest => do
    let stop ← m.stopAt settings lineNumber raw
    let stops ← stop.after.walkFrom settings (lineNumber + 1) rest
    return stop :: stops

/-- The walk through a program from the state a machine starts in. -/
def walk (lines : List String) : Except Fault (List Stop) :=
  Modal.initial.walkFrom .standard 1 lines

end PartProgram

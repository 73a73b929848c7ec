import PartProgram.Number.Scalar
import PartProgram.Warning

/-!
# PartProgram.Cycle

Canned cycles. One block stands for several moves at a hole: after a rapid to the retract plane
above it come the phases of the cycle. The phases are written for every kind of number, so what
holds of them in exact arithmetic can be said.
-/

namespace PartProgram

inductive CycleKind where
  | drilling
  | drillingDwell
  | peckDrilling
  | rightTapping
  | boring
  | boringDwell
  | backBoring
  | boringManualRetract
  | boringFeedRetract
deriving DecidableEq, Repr

namespace CycleKind

def all : List CycleKind :=
  [drilling, drillingDwell, peckDrilling, rightTapping, boring, boringDwell, backBoring,
    boringManualRetract, boringFeedRetract]

def code : CycleKind → Code
  | drilling => "G81"
  | drillingDwell => "G82"
  | peckDrilling => "G83"
  | rightTapping => "G84"
  | boring => "G85"
  | boringDwell => "G86"
  | backBoring => "G87"
  | boringManualRetract => "G88"
  | boringFeedRetract => "G89"

/-- The kind of a cycle code; the codes `G73` and `G76` have none. -/
def ofCode? (code : Code) : Option CycleKind := all.find? (·.code == code)

end CycleKind

/-- A hole and how it is worked. -/
structure Hole (α : Type) where
  x : α
  y : α
  /-- depth -/
  z : α
  /-- retract plane -/
  r : α
  peck : Option α := none
  dwell : Option α := none
  /-- lateral shift of the tool -/
  shift : Option (α × α) := none
deriving Repr

inductive PhaseKind where
  | rapid
  | feed
  | dwell
deriving DecidableEq, Repr

structure Phase (α : Type) where
  kind : PhaseKind
  x : α
  y : α
  z : α
  dwell : Option α := none
deriving Repr

namespace Hole

variable {α : Type}

def rapidTo (h : Hole α) (z : α) : Phase α := ⟨.rapid, h.x, h.y, z, none⟩

def feedTo (h : Hole α) (z : α) : Phase α := ⟨.feed, h.x, h.y, z, none⟩

def dwellAtDepth (h : Hole α) : Phase α := ⟨.dwell, h.x, h.y, h.z, h.dwell⟩

/-- The rapid to the retract plane that every cycle begins with. -/
def approach (h : Hole α) : Phase α := h.rapidTo h.r

def drillPhases (h : Hole α) : List (Phase α) := [h.feedTo h.z, h.rapidTo h.r]

variable [Scalar α]

/-- The depths of the pecks: one increment further each time, the last one at full depth. -/
def peckDepths (r z q : α) : Except Number.Fault (List α) := do
  let n ← Scalar.ceil (Scalar.abs (r - z) / q)
  return (List.range (max 1 n).toNat).map fun i =>
    Scalar.larger z (r - Scalar.ofNat (i + 1) * q)

/-- Each peck feeds to its depth and goes back to the retract plane. -/
def peckPhases (h : Hole α) (q : α) : Except Number.Fault (List (Phase α)) := do
  let depths ← peckDepths h.r h.z q
  return depths.flatMap fun depth => [h.feedTo depth, h.rapidTo h.r]

/-- The shift of a back boring bar for which nothing gives one. -/
def defaultShift : α × α := (Scalar.ofNat 2, Scalar.zero)

/-- Back boring goes down beside the hole, moves in under it and cuts upwards. -/
def backBorePhases (h : Hole α) : List (Phase α) :=
  let (sx, sy) := h.shift.getD defaultShift
  let ox := h.x + sx
  let oy := h.y + sy
  let top := Scalar.larger h.z (h.r - Scalar.hypot sx sy)
  [⟨.rapid, ox, oy, h.r, none⟩, ⟨.rapid, ox, oy, h.z, none⟩, h.feedTo h.z, h.feedTo top,
    ⟨.rapid, ox, oy, top, none⟩, ⟨.rapid, ox, oy, h.r, none⟩, h.rapidTo h.r]

/-- The peck increment, if it is not below zero or zero. -/
def increment? (h : Hole α) : Option α :=
  h.peck.filter fun q => !decide (q ≤ Scalar.zero)

end Hole

/-- The phases that follow the approach, and what is to be said about them. -/
structure Expansion (α : Type) where
  phases : List (Phase α)
  warnings : List Warning := []
deriving Repr

def CycleKind.expand {α : Type} [Scalar α] (kind : CycleKind) (h : Hole α) :
    Except Number.Fault (Expansion α) :=
  match kind with
  | drilling => .ok ⟨h.drillPhases, []⟩
  | drillingDwell | boringDwell | boringManualRetract =>
    .ok ⟨[h.feedTo h.z, h.dwellAtDepth, h.rapidTo h.r], []⟩
  | peckDrilling =>
    match h.increment? with
    | none => .ok ⟨h.drillPhases, [.peckAssumed]⟩
    | some q => do return ⟨← h.peckPhases q, []⟩
  | rightTapping | boring => .ok ⟨[h.feedTo h.z, h.feedTo h.r], []⟩
  | backBoring => .ok ⟨h.backBorePhases, []⟩
  | boringFeedRetract => .ok ⟨[h.feedTo h.z, h.dwellAtDepth, h.feedTo h.r], []⟩

/-- One use of a canned cycle. -/
structure FixedCycle where
  code : Code
  /-- a code without a kind is worked as plain drilling -/
  kind : Option CycleKind
  hole : Hole Float
  /-- the text of the block -/
  source : String
  line : Int
deriving Repr

namespace FixedCycle

/-- The phases after the approach. -/
def expand (c : FixedCycle) : Except Number.Fault (Expansion Float) :=
  match c.kind with
  | some kind => kind.expand c.hole
  | none => .ok ⟨c.hole.drillPhases, [.unknownCycle c.code]⟩

/-- All phases, with the approach. -/
def phases (c : FixedCycle) : Except Number.Fault (Expansion Float) := do
  let e ← c.expand
  return { e with phases := c.hole.approach :: e.phases }

end FixedCycle

end PartProgram

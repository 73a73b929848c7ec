import PartProgram.Conversational.Entry
import PartProgram.Cycle
import PartProgram.Notice

/-!
# PartProgram.Conversational.Definition

Canned cycles as cycle definitions. Every kind of cycle has a definition; depths count from the
retract plane, where the surface is taken to be.
-/

namespace PartProgram.Conversational

/-- The feed of a cycle for which none is in force. -/
def defaultPlunge : Float := 100.0

/-- A number that may be missing, zero then. -/
def orZero (value : Option Float) : Float := value.getD 0.0

/-- Times are words in milliseconds and parameters in seconds. -/
def seconds (time : Option Float) : Float := orZero time / 1000.0

/-- The thread pitch of a feed and a speed. -/
def pitch? (feed speed : Option Float) : Option Float := do
  let f ← feed
  let s ← speed
  if s == 0.0 then none else some (f / s)

namespace Definition

def named : CycleKind → Nat × String
  | .drilling | .drillingDwell => (200, "DRILLING")
  | .peckDrilling => (203, "UNIVERSAL DRILLING")
  | .rightTapping => (207, "RIGID TAPPING")
  | .boring | .boringFeedRetract => (201, "REAMING")
  | .boringDwell | .boringManualRetract => (202, "BORING")
  | .backBoring => (204, "BACK BORING")

def depth (h : Hole Float) : Float := h.z - h.r

def surface (h : Hole Float) : List Parameter :=
  [⟨203, h.r, "SURFACE COORDINATE"⟩, ⟨204, 0.0, "2ND SET-UP CLEARANCE"⟩]

def plungeFeed (feed : Float) : Parameter := ⟨206, feed, "FEED RATE FOR PLNGNG"⟩

def dwellAtDepth (h : Hole Float) : Parameter := ⟨211, seconds h.dwell, "DWELL TIME AT DEPTH"⟩

/-- A plunge in one go or in steps, with the dwell at the top. -/
def plunge (h : Hole Float) (feed step : Float) : List Parameter :=
  [plungeFeed feed, ⟨202, step, "PLUNGING DEPTH"⟩, ⟨210, 0.0, "DWELL TIME AT TOP"⟩] ++ surface h

/-- One step of a peck, or all the depth. -/
def peckStep (h : Hole Float) : Float :=
  match h.peck with
  | some q => if q == 0.0 then (depth h).abs else q
  | none => (depth h).abs

/-- The distance that a bar is off the centre. -/
def offCentre (h : Hole Float) : Except Fault Float := do
  let (x, y) := h.shift.getD (0.0, 0.0)
  let xx ← Scalar.square x
  let yy ← Scalar.square y
  return (xx + yy).sqrt

/-- The parameters after the clearance and the depth. -/
def parametersOf (kind : CycleKind) (h : Hole Float) (feed pitch : Float) :
    Except Fault (List Parameter) :=
  match kind with
  | .drilling | .drillingDwell => .ok (plunge h feed (depth h).abs ++ [dwellAtDepth h])
  | .peckDrilling =>
    .ok (plunge h feed (peckStep h) ++
      [⟨212, 0.0, "DECREMENT"⟩, ⟨213, 0.0, "BREAKS"⟩, ⟨205, 0.0, "MIN. PLUNGING DEPTH"⟩,
        dwellAtDepth h, ⟨208, 0.0, "RETRACTION FEED RATE"⟩, ⟨256, 0.0, "DIST FOR CHIP BRKNG"⟩])
  | .rightTapping => .ok (⟨239, pitch, "THREAD PITCH"⟩ :: surface h)
  | .boring | .boringFeedRetract | .boringDwell | .boringManualRetract =>
    .ok ([plungeFeed feed, dwellAtDepth h, ⟨208, feed, "RETRACTION FEED RATE"⟩] ++ surface h)
  | .backBoring => do
    return [⟨251, ← offCentre h, "OFF-CENTER DISTANCE"⟩, plungeFeed feed] ++ surface h

/-- The definition of a cycle with the feed and the speed in force. -/
def ofCycle (kind : CycleKind) (h : Hole Float) (line : Int) (feed speed : Option Float) :
    Told Definition := do
  let pitch := pitch? feed speed
  if kind = .rightTapping && pitch.isNone then Told.say (.pitchUnknown line)
  let rest ← parametersOf kind h (feed.getD defaultPlunge) (orZero pitch)
  let (number, name) := named kind
  return ⟨number, name,
    [⟨200, 0.0, "SET-UP CLEARANCE"⟩, ⟨201, depth h, "DEPTH"⟩] ++ rest⟩

end Definition

end PartProgram.Conversational

import PartProgram.Proofs.IdleMoves
import PartProgram.Rule.Consolidation

/-!
# PartProgram.Proofs.ReachedCoordinates

How a coordinate came about. A block brings an axis to a coordinate if it moves and names the axis;
a canned cycle also brings the tool to its retract plane. Nothing else changes where the tool is, so
on every axis the tool is where the last such block brought it. A move that is left out states this
coordinate again. Offsets, units and compensations are no part of a state, so their codes may stand
in between.

* `walkFrom_coordinate`: where the tool is before a line.
* `removeRedundantMoves_restates`: what a move states again that is left out.
-/

namespace PartProgram

open Number

/-- Whether a block with this effect brings the axis to a coordinate of its own. The `X` of a dwell
is a time. -/
def Effect.brings (e : Effect) (b : Block) (axis : Axis) : Bool :=
  match e with
  | .none => false
  | .motion ⟨_, _, _, _, .dwell _⟩ => false
  | .motion _ => b.has [axis.letter]
  | .cycle _ => axis = .z || b.has [axis.letter]

/-- The coordinate that a line brings the axis to. -/
def Stop.reached? (s : Stop) (axis : Axis) : Option Float :=
  if s.effect.brings s.block axis then some (s.after.position.get axis) else none

/-- The coordinate that the lines brought the axis to last. -/
def lastReached (axis : Axis) (stops : List Stop) : Option Float :=
  stops.reverse.findSome? (·.reached? axis)

/-- Codes for the offsets, the units and the compensations that coordinates are meant with. -/
def ModalGroup.isFrame : ModalGroup → Bool
  | units | cutterComp | lengthComp | workOffset => true
  | _ => false

def Code.isFrame (code : Code) : Bool := (ModalGroup.ofCode? code).any ModalGroup.isFrame

/-! ## What a line does to a coordinate -/

section

variable {settings : Settings} {before m : Modal} {b : Block} {code : Code} {r : Resolution}
  {axis : Axis}

/-- Where a block leads whose modal words have been heard: a dwell and a block without effect leave
the tool where it is, a cycle leaves it over the target, and every other motion at the target. -/
inductive Resolution.Leads (m : Modal) (b : Block) : Resolution → Prop where
  | still {state : Modal} {ws : List Warning} (position : state.position = m.position) :
      Leads m b ⟨state, .none, ws⟩
  | dwell {state : Modal} {start finish : Position} {line : Int} {feed seconds : Option Float}
      {ws : List Warning} (position : state.position = m.position) :
      Leads m b ⟨state, .motion ⟨start, finish, line, feed, .dwell seconds⟩, ws⟩
  | cycle {state : Modal} {c : FixedCycle} {ws : List Warning}
      (x : state.position.x = (m.target b).x) (y : state.position.y = (m.target b).y) :
      Leads m b ⟨state, .cycle c, ws⟩
  | straight {state : Modal} {mo : Motion} {ws : List Warning}
      (position : state.position = m.target b) (action : ∀ seconds, mo.action ≠ .dwell seconds) :
      Leads m b ⟨state, .motion mo, ws⟩

theorem resolveCode_leads (h : Modal.resolveCode settings before m code b = .ok r) :
    r.Leads m b := by
  cases resolveCode_cases h with
  | cycle => exact .cycle rfl rfl
  | @arc _ _ arc =>
    refine .straight rfl ?_
    cases arc <;> simp
  | dwell => exact .dwell rfl
  | none => exact .still rfl
  | _ => exact .straight rfl (by simp)

theorem resolve_leads (h : before.resolve settings b = .ok r) : r.Leads (before.apply b) b := by
  cases resolve_cases h with
  | code _ found => exact resolveCode_leads found
  | modal => exact .still rfl
  | cycle => exact .cycle rfl rfl
  | mode _ _ _ _ found => exact resolveCode_leads found
  | first => exact .straight rfl (by simp)

/-- A block moves no axis that it does not bring to a coordinate of its own. -/
theorem resolve_keeps (hr : before.resolve settings b = .ok r)
    (h : r.effect.brings b axis = false) :
    r.state.position.get axis = before.position.get axis := by
  have htarget (hunnamed : b.has [axis.letter] = false) :
      ((before.apply b).target b).get axis = before.position.get axis := by
    rw [Modal.target_unnamed hunnamed, Modal.apply_position]
  cases resolve_leads hr with
  | still position => rw [position, Modal.apply_position]
  | dwell position => rw [position, Modal.apply_position]
  | cycle hx hy =>
    have hboth : (decide (axis = .z) || b.has [axis.letter]) = false := h
    rw [Bool.or_eq_false_iff, decide_eq_false_iff_not] at hboth
    rw [← htarget hboth.2]
    cases axis with
    | x => exact hx
    | y => exact hy
    | z => exact absurd rfl hboth.1
  | @straight state mo ws position action =>
    obtain ⟨start, finish, line, feed, a⟩ := mo
    rw [position]
    cases a with
    | dwell seconds => exact absurd rfl (action seconds)
    | _ => exact htarget h

/-- A rapid and a feed move end at the target. -/
theorem resolve_target (hr : before.resolve settings b = .ok r)
    (h : r.isRapid = true ∨ r.isLinear = true) :
    r.state.position = (before.apply b).target b := by
  cases resolve_leads hr with
  | still => rcases h with h | h <;> cases h
  | dwell => rcases h with h | h <;> cases h
  | cycle => rcases h with h | h <;> cases h
  | straight position => exact position

/-- Codes for offsets, units and compensations change no state. -/
theorem applyCode_of_isFrame (m : Modal) (h : code.isFrame = true) : m.applyCode code = m := by
  unfold Code.isFrame ModalGroup.ofCode? at h
  split at h <;> first | rfl | cases h

end

/-! ## Where the tool is -/

section

variable {settings : Settings} {m : Modal} {n : Int} {raw : String} {ls : List String} {s : Stop}
  {pre post : List Stop}

theorem stopAt_coordinate (axis : Axis) (h : m.stopAt settings n raw = .ok s) :
    s.after.position.get axis = (s.reached? axis).getD (m.position.get axis) := by
  rw [Stop.reached?]
  split
  · rfl
  · rename_i hbrings
    rw [Bool.not_eq_true] at hbrings
    rw [Option.getD_none, ← (stopAt_eq_ok h).2.1]
    cases hfound : s.found with
    | none => rw [Stop.after, Stop.resolution?, hfound]; rfl
    | some found =>
      obtain ⟨b, r⟩ := found
      rw [Stop.effect_of_found hfound, Stop.block_of_some (Stop.block?_of_found hfound)] at hbrings
      rw [Stop.after_of_found hfound]
      exact resolve_keeps (stopAt_resolve h hfound) hbrings

theorem lastReached_cons (axis : Axis) (s : Stop) (stops : List Stop) :
    lastReached axis (s :: stops) = (lastReached axis stops <|> s.reached? axis) := by
  rw [lastReached, List.reverse_cons, List.findSome?_append, lastReached]
  simp

/-- Before a line the tool is, on every axis, where the lines before brought it last. -/
theorem walkFrom_coordinate (axis : Axis)
    (h : m.walkFrom settings n ls = .ok (pre ++ s :: post)) :
    s.before.position.get axis = (lastReached axis pre).getD (m.position.get axis) := by
  induction pre generalizing m n ls with
  | nil =>
    cases ls with
    | nil => cases h
    | cons raw rest =>
      simp only [Modal.walkFrom, bind_eq_ok, pure_eq_ok, List.nil_append, List.cons.injEq] at h
      obtain ⟨_, hs, _, -, rfl, rfl⟩ := h
      rw [(stopAt_eq_ok hs).2.1]
      rfl
  | cons t pre ih =>
    cases ls with
    | nil => cases h
    | cons raw rest =>
      simp only [Modal.walkFrom, bind_eq_ok, pure_eq_ok, List.cons_append, List.cons.injEq] at h
      obtain ⟨_, ht, _, hrest, rfl, rfl⟩ := h
      rw [ih hrest, stopAt_coordinate axis ht, lastReached_cons]
      cases lastReached axis pre <;> rfl

/-- The line that brought the axis to its coordinate, and none after it. -/
theorem lastReached_spec {axis : Axis} (h : ∃ t ∈ pre, (t.reached? axis).isSome = true) :
    ∃ early t mid x, pre = early ++ t :: mid ∧ t.reached? axis = some x ∧
      (∀ u ∈ mid, u.reached? axis = none) ∧ lastReached axis pre = some x := by
  obtain ⟨x, hx⟩ : ∃ x, lastReached axis pre = some x := by
    rw [← Option.isSome_iff_exists, lastReached, List.findSome?_isSome_iff]
    simpa using h
  obtain ⟨mid, t, early, hsplit, ht, hmid⟩ := List.findSome?_eq_some_iff.1 hx
  refine ⟨early.reverse, t, mid.reverse, x, ?_, ht, fun u hu => hmid u (by simpa using hu), hx⟩
  rw [← List.reverse_reverse pre, hsplit]
  simp

end

namespace Rule

variable {ls : Lines} {pre post : List Stop} {s : Stop} {axis : Axis}

/-! ## Moves that are left out -/

/-- A move that is left out has a word for each of its axes. In absolute positioning the word is
the coordinate where the tool is, in incremental positioning a step that does not lead away. -/
theorem isRedundantMove_words {settings : Settings} {m : Modal} {n : Int} {raw : String}
    (hs : m.stopAt settings n raw = .ok s) (hidle : isRedundantMove s = true)
    (hnamed : s.block.has [axis.letter] = true) :
    ∃ v, s.block.value axis.letter = some v ∧
      (s.before.position.get axis == s.after.position.get axis) = true ∧
      (s.before.positioning = .absolute → s.after.position.get axis = v) ∧
      (s.before.positioning = .incremental →
        s.after.position.get axis = s.before.position.get axis + v) := by
  obtain ⟨b, r, hfound, hstraight, hpositioning, -, hmoves, -⟩ := isRedundantMove_found hidle
  have hr := stopAt_resolve hs hfound
  rw [Stop.block_of_some (Stop.block?_of_found hfound)] at hnamed ⊢
  rw [Stop.after_of_found hfound]
  obtain ⟨v, hv⟩ : ∃ v, b.value axis.letter = some v := by
    cases hvalue : b.value axis.letter with
    | none =>
      rw [Block.value_eq_none_iff.1 hvalue] at hnamed
      cases hnamed
    | some v => exact ⟨v, rfl⟩
  have hheard : (s.before.apply b).positioning = s.before.positioning := by
    obtain ⟨p, motion, cycle, hstate⟩ := resolve_changes hr
    rw [hpositioning, hstate]
  have hunmoved : (s.before.position.get axis == r.state.position.get axis) = true := by
    have hall : axis ∈ Axis.all := by cases axis <;> simp [Axis.all]
    simpa [hnamed, bne] using List.any_eq_false.1 hmoves axis hall
  have htarget : r.state.position.get axis = (s.before.apply b).targetOn b axis := by
    rw [resolve_target hr hstraight, Modal.target, Point.get_tabulate]
  rw [Modal.targetOn, hv, hheard, Modal.apply_position] at htarget
  refine ⟨v, hv, hunmoved, fun h => ?_, fun h => ?_⟩
  · rw [htarget, h]
  · rw [htarget, h]

/-- A move that is left out states again, on each of its axes, the coordinate that the lines before
brought the axis to, if any of them did, whether by words for the axis or by the retract plane of a
cycle. None moved the axis in between. Codes for offsets, units and compensations change no state,
so they are not looked at. -/
theorem removeRedundantMoves_restates (hwalk : walk ls = .ok (pre ++ s :: post))
    (hidle : isRedundantMove s = true) (hnamed : s.block.has [axis.letter] = true)
    (hearlier : ∃ t ∈ pre, (t.reached? axis).isSome = true) :
    (∃ v early t mid x, s.block.value axis.letter = some v ∧ pre = early ++ t :: mid ∧
      t.reached? axis = some x ∧ (∀ u ∈ mid, u.reached? axis = none) ∧
      s.before.position.get axis = x ∧
      (s.before.positioning = .absolute → (x == v) = true) ∧
      (s.before.positioning = .incremental → (x == x + v) = true)) ∧
      ∀ code : Code, code.isFrame = true → ∀ m : Modal, m.applyCode code = m := by
  obtain ⟨k, hstop⟩ := walkFrom_stopAt hwalk s (by simp)
  obtain ⟨v, hv, hsame, habsolute, hincremental⟩ := isRedundantMove_words hstop hidle hnamed
  obtain ⟨early, t, mid, x, hpre, ht, hmid, hlast⟩ := lastReached_spec hearlier
  have hbefore := walkFrom_coordinate axis hwalk
  rw [hlast, Option.getD_some] at hbefore
  refine ⟨⟨v, early, t, mid, x, hv, hpre, ht, hmid, hbefore, fun h => ?_, fun h => ?_⟩,
    fun code hcode m => applyCode_of_isFrame m hcode⟩
  · rw [← hbefore, ← habsolute h]
    exact hsame
  · rw [hincremental h, hbefore] at hsame
    exact hsame

/-- The height that a rapid states again is the retract plane of a cycle, reached before the work
offset was changed. -/
theorem removeRedundantMoves_restates_retract :
    let ls := ["G81 X1 Z-5 R2", "G0 X3", "G55", "G0 Z2"]
    ∃ pre s, walk ls = .ok (pre ++ [s]) ∧ isRedundantMove s = true ∧
      (removeRedundantMoves ls).result = .ok ["G81 X1 Z-5 R2", "G0 X3", "G55"] ∧
      ∃ v early t mid x, s.block.value 'Z' = some v ∧ pre = early ++ t :: mid ∧
        t.reached? .z = some x ∧ (∀ u ∈ mid, u.reached? .z = none) ∧ (x == v) = true := by
  intro ls
  obtain ⟨stops, hwalk, hstops⟩ := exists_of_toOption (x := walk ls)
    (f := fun stops => (stops.map fun s => (isRedundantMove s, s.block.has ['Z'],
        (s.reached? .z).isSome, decide (s.before.positioning = .absolute)),
      (stops.filter fun s => !isRedundantMove s).map Stop.raw))
    (b := ([(false, true, true, true), (false, false, false, true), (false, false, false, true),
      (true, true, true, true)], ["G81 X1 Z-5 R2", "G0 X3", "G55"])) (by decide +kernel)
  obtain ⟨hfacts, hleft⟩ := Prod.mk.inj hstops
  simp only [List.map_eq_cons_iff, List.map_eq_nil_iff, Prod.mk.injEq, decide_eq_true_iff] at hfacts
  obtain ⟨a, _, rfl, ⟨-, -, ha, -⟩, b, _, rfl, -, c, _, rfl, -, s, _, rfl, ⟨hidle, hnamed, -, habs⟩,
    rfl⟩ := hfacts
  obtain ⟨⟨v, early, t, mid, x, hv, hpre, ht, hmid, -, habsolute, -⟩, -⟩ :=
    removeRedundantMoves_restates (show walk ls = .ok ([a, b, c] ++ [s]) from hwalk) hidle
      (show s.block.has [Axis.z.letter] = true from hnamed) ⟨a, by simp, ha⟩
  refine ⟨[a, b, c], s, hwalk, hidle, ?_, v, early, t, mid, x, hv, hpre, ht, hmid, habsolute habs⟩
  rw [removeRedundantMoves, Revised.ofWalk, hwalk, ← hleft]
  rfl

/-- Each axis of the block states again what a line before reached, with no code for offsets, units
or compensations since. -/
def RestatesReached (pre : List Stop) (s : Stop) : Prop :=
  ∀ axis : Axis, s.block.has [axis.letter] = true →
    ∃ early t mid x, pre = early ++ t :: mid ∧ t.reached? axis = some x ∧
      (x == s.after.position.get axis) = true ∧
      ∀ u ∈ mid, ∀ code ∈ u.block.codes 'G', code.isFrame = false

/-- Two of four moves are left out: the first states a coordinate that nothing before has reached,
and since the height that the second states the work offset was changed. -/
theorem removeRedundantMoves_not_reached :
    let ls := ["G0 Z5", "G0 X0", "G54", "G0 Z5"]
    ∃ a b c d, walk ls = .ok [a, b, c, d] ∧
      (removeRedundantMoves ls).result = .ok ["G0 Z5", "G54"] ∧
      isRedundantMove b = true ∧ ¬ RestatesReached [a] b ∧
      isRedundantMove d = true ∧ ¬ RestatesReached [a, b, c] d := by
  intro ls
  obtain ⟨stops, hwalk, hstops⟩ := exists_of_toOption (x := walk ls)
    (f := fun stops => (stops.map fun s => [isRedundantMove s, s.block.has ['X'], s.block.has ['Z'],
        (s.reached? .x).isSome, (s.reached? .z).isSome, (s.block.codes 'G').any Code.isFrame],
      (stops.filter fun s => !isRedundantMove s).map Stop.raw))
    (b := ([[false, false, true, false, true, false], [true, true, false, true, false, false],
      [false, false, false, false, false, true], [true, false, true, false, true, false]],
      ["G0 Z5", "G54"])) (by decide +kernel)
  obtain ⟨hfacts, hleft⟩ := Prod.mk.inj hstops
  simp only [List.map_eq_cons_iff, List.map_eq_nil_iff, List.cons.injEq] at hfacts
  obtain ⟨a, _, rfl, ⟨-, -, -, hax, -⟩, b, _, rfl, ⟨hb, hbx, -, -, hbz, -⟩, c, _, rfl,
    ⟨-, -, -, -, hcz, hcframe, -⟩, d, _, rfl, ⟨hd, -, hdz, -⟩, rfl⟩ := hfacts
  have hnone : ∀ {s : Stop} {axis : Axis} {x : Float}, (s.reached? axis).isSome = false →
      s.reached? axis ≠ some x := by
    intro s axis x h hx
    rw [hx] at h
    cases h
  refine ⟨a, b, c, d, hwalk, ?_, hb, fun hall => ?_, hd, fun hall => ?_⟩
  · rw [removeRedundantMoves, Revised.ofWalk, hwalk, ← hleft]
    rfl
  · obtain ⟨early, t, mid, x, hpre, ht, -⟩ := hall .x hbx
    have hmem : t ∈ [a] := by rw [hpre]; simp
    rw [List.mem_singleton.1 hmem] at ht
    exact hnone hax ht
  · obtain ⟨early, t, mid, x, hpre, ht, -, hmid⟩ := hall .z hdz
    have hc : c ∈ mid := by
      cases early with
      | nil =>
        obtain ⟨-, rfl⟩ := List.cons.inj hpre
        simp
      | cons e early =>
        have hmem : t ∈ [b, c] := by rw [(List.cons.inj hpre).2]; simp
        rcases List.mem_pair.1 hmem with rfl | rfl
        · exact absurd ht (hnone hbz)
        · exact absurd ht (hnone hcz)
    obtain ⟨code, hcode, hframe⟩ := List.any_eq_true.1 hcframe
    rw [hmid c hc code hcode] at hframe
    cases hframe

end Rule

end PartProgram

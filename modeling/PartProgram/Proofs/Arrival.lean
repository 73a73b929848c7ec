import PartProgram.Proofs.Resolving
import PartProgram.Toolpath

/-!
# PartProgram.Proofs.Arrival

Where a block leaves the tool. Modal words move nothing, so a block starts from where the tool is,
and `Resolution.Arrives` says how its motion or cycle and the state after it fit together. The
points of a block are then made apart from that state, by the phases of a cycle, the chords of an
arc or the markers of a shape: `emission_last` says that they end where the state says the tool is.

* `resolve_arrives`: what a block sets going ends where the state after it is.
* `emission_last`: the last point of a block is the position after it.
* `emission_still`: a block without points leaves every coordinate at the number it had.
-/

namespace PartProgram

/-- Every coordinate has the number it had. One that is not a number is the same one. -/
def Point.Unmoved (p q : Position) : Prop :=
  ∀ axis, p.get axis = q.get axis ∨ (p.get axis == q.get axis) = true

theorem Point.Unmoved.refl (p : Position) : p.Unmoved p := fun _ => .inl rfl

theorem Point.get_tabulate {α : Type} (f : Axis → α) (axis : Axis) :
    (Point.tabulate f).get axis = f axis := by
  cases axis <;> rfl

theorem Block.value_eq_none_iff {b : Block} {letter : Char} :
    b.value letter = none ↔ b.has [letter] = false := by
  simp [value, has]

/-! ## The state after a block -/

section Resolve

variable {settings : Settings} {before m : Modal} {b : Block} {code : Code} {r : Resolution}

@[simp] theorem Modal.movedTo_position (m : Modal) (p : Position) :
    (m.movedTo p).position = p := rfl

@[simp] theorem Modal.applyCode_position (m : Modal) (code : Code) :
    (m.applyCode code).position = m.position := by
  unfold Modal.applyCode
  split_ifs <;> first | rfl | (split <;> rfl)

@[simp] theorem Modal.applyCodes_position (m : Modal) (codes : List Code) :
    (codes.foldl Modal.applyCode m).position = m.position := by
  induction codes generalizing m with
  | nil => rfl
  | cons code rest ih => simp [ih]

@[simp] theorem Modal.applyDominant_position (m : Modal) (b : Block) :
    (m.applyDominant b).position = m.position := by
  unfold Modal.applyDominant
  split
  · split_ifs <;> rfl
  · rfl

@[simp] theorem Modal.apply_position (m : Modal) (b : Block) : (m.apply b).position = m.position := by
  simp [Modal.apply]

/-- An axis that the block does not name keeps its coordinate. -/
theorem Modal.target_unnamed {axis : Axis} (h : b.has [axis.letter] = false) :
    (m.target b).get axis = m.position.get axis := by
  rw [Modal.target, Point.get_tabulate, Modal.targetOn, Block.value_eq_none_iff.2 h]

/-- A motion goes from where the tool was to where the state after it is, along no axis that the
block does not name; a cycle ends over its hole, on the retract plane. -/
inductive Resolution.Arrives (before : Modal) (b : Block) : Resolution → Prop where
  | still {m : Modal} {ws : List Warning} (stays : m.position = before.position) :
      Arrives before b ⟨m, .none, ws⟩
  | cycle {m : Modal} {c : FixedCycle} {ws : List Warning} (line : c.line = b.line)
      (above : m.position = ⟨c.hole.x, c.hole.y, c.hole.r⟩) : Arrives before b ⟨m, .cycle c, ws⟩
  | motion {m : Modal} {mo : Motion} {ws : List Warning} (line : mo.line = b.line)
      (starts : mo.start = before.position) (finishes : m.position = mo.finish)
      (unnamed : ∀ axis, b.has [axis.letter] = false → mo.finish.get axis = mo.start.get axis)
      (own : ∀ kind b', mo.action = .shape kind b' → b' = b) : Arrives before b ⟨m, .motion mo, ws⟩

theorem resolveCycle_arrives :
    (Modal.resolveCycle settings before m code b).Arrives before b :=
  .cycle rfl rfl

theorem resolveStraight_arrives {action : Action} {feed : Option Float} {ws : List Warning}
    (hm : m.position = before.position) (own : ∀ kind b', action = .shape kind b' → b' = b) :
    (Modal.resolveStraight before m b action feed ws).Arrives before b :=
  .motion rfl rfl rfl (fun _ h => by rw [← hm]; exact Modal.target_unnamed h) own

theorem resolveCode_arrives (hm : m.position = before.position)
    (h : Modal.resolveCode settings before m code b = .ok r) : r.Arrives before b := by
  cases resolveCode_cases h with
  | cycle => exact resolveCycle_arrives
  | rapid => exact resolveStraight_arrives hm (by simp)
  | linear => exact resolveStraight_arrives hm (by simp)
  | @arc _ direction arc =>
    refine resolveStraight_arrives hm fun kind b' ha => ?_
    cases arc <;> simp at ha
  | dwell => exact .motion rfl rfl hm (fun _ _ => rfl) (by simp)
  | shape => exact resolveStraight_arrives hm (by rintro _ _ ⟨⟩; rfl)
  | none => exact .still hm

/-- What a block sets going ends where the state after the block is. -/
theorem resolve_arrives (h : before.resolve settings b = .ok r) : r.Arrives before b := by
  have hm : (before.apply b).position = before.position := before.apply_position b
  cases resolve_cases h with
  | code _ found => exact resolveCode_arrives hm found
  | modal => exact .still hm
  | cycle => exact resolveCycle_arrives
  | mode _ _ _ _ found => exact resolveCode_arrives hm found
  | first => exact resolveStraight_arrives hm (by simp)

theorem resolveCode_changes (h : Modal.resolveCode settings before m code b = .ok r) :
    ∃ p motion cycle, r.state = { m with position := p, motion := motion, cycle := cycle } := by
  cases resolveCode_cases h <;> exact ⟨_, _, _, rfl⟩

/-- Once the modal words are heard, a block changes no more than the position, the motion mode and
the cycle. -/
theorem resolve_changes (h : before.resolve settings b = .ok r) :
    ∃ p motion cycle,
      r.state = { before.apply b with position := p, motion := motion, cycle := cycle } := by
  cases resolve_cases h with
  | code _ found => exact resolveCode_changes found
  | mode _ _ _ _ found => exact resolveCode_changes found
  | _ => exact ⟨_, _, _, rfl⟩

end Resolve

/-! ## The points of a block -/

section Points

variable {settings : Settings} {before : Modal} {b : Block} {r : Resolution} {e : Emission}

/-- The phase stands over the hole at the height of the retract plane. -/
def Phase.IsRetracted {α : Type} (h : Hole α) (p : Phase α) : Prop :=
  p.x = h.x ∧ p.y = h.y ∧ p.z = h.r

theorem peckDepths_ne_nil {α : Type} [Scalar α] {r z q : α} {depths : List α}
    (h : Hole.peckDepths r z q = .ok depths) : depths ≠ [] := by
  simp only [Hole.peckDepths, bind_eq_ok, pure_eq_ok] at h
  obtain ⟨n, -, rfl⟩ := h
  have : 0 < (max 1 n).toNat := by omega
  simp only [ne_eq, List.map_eq_nil_iff, List.range_eq_nil]
  omega

theorem peckPhases_last {α : Type} [Scalar α] {h : Hole α} {q : α} {ps : List (Phase α)}
    (hp : h.peckPhases q = .ok ps) : ps.getLast? = some (h.rapidTo h.r) := by
  simp only [Hole.peckPhases, bind_eq_ok, pure_eq_ok] at hp
  obtain ⟨depths, hd, rfl⟩ := hp
  rw [← List.dropLast_concat_getLast (peckDepths_ne_nil hd)]
  simp

/-- Every cycle ends over its hole, on the retract plane. -/
theorem expand_last {α : Type} [Scalar α] {kind : CycleKind} {h : Hole α} {x : Expansion α}
    (hx : kind.expand h = .ok x) : ∃ p, x.phases.getLast? = some p ∧ p.IsRetracted h := by
  have plain : (h.rapidTo h.r).IsRetracted h := ⟨rfl, rfl, rfl⟩
  have fed : (h.feedTo h.r).IsRetracted h := ⟨rfl, rfl, rfl⟩
  cases kind with
  | peckDrilling =>
    simp only [CycleKind.expand] at hx
    split at hx
    · cases hx; exact ⟨_, rfl, plain⟩
    · simp only [bind_eq_ok, pure_eq_ok] at hx
      obtain ⟨ps, hps, rfl⟩ := hx
      exact ⟨_, peckPhases_last hps, plain⟩
  | rightTapping => cases hx; exact ⟨_, rfl, fed⟩
  | boring => cases hx; exact ⟨_, rfl, fed⟩
  | boringFeedRetract => cases hx; exact ⟨_, rfl, fed⟩
  | _ => cases hx; exact ⟨_, rfl, plain⟩

theorem phases_last {c : FixedCycle} {x : Expansion Float} (hx : c.phases = .ok x) :
    ∃ p, x.phases.getLast? = some p ∧ p.IsRetracted c.hole := by
  simp only [FixedCycle.phases, bind_eq_ok, pure_eq_ok] at hx
  obtain ⟨x', hx', rfl⟩ := hx
  obtain ⟨p, hlast, hp⟩ : ∃ p, x'.phases.getLast? = some p ∧ p.IsRetracted c.hole := by
    unfold FixedCycle.expand at hx'
    split at hx'
    · exact expand_last hx'
    · cases hx'; exact ⟨_, rfl, rfl, rfl, rfl⟩
  exact ⟨p, by simp [List.getLast?_cons, hlast], hp⟩

theorem arcPoints_positions (m : Motion) (a : Arc) (ps : List Position) :
    (m.arcPoints a ps).map Waypoint.position = ps := by
  cases ps with
  | nil => rfl
  | cons p rest => simp [Motion.arcPoints, Motion.point, Function.comp_def]

theorem chordEnds_last {a : Arc} {start finish : Position} {resolution : Float}
    {ps : List Position} (h : a.chordEnds start finish resolution = .ok ps) :
    ps.getLast? = some finish := by
  simp only [Arc.chordEnds, bind_eq_ok, pure_eq_ok] at h
  obtain ⟨n, -, rfl⟩ := h
  simp

/-- The points of a motion end where the motion does. It has none only if it is a shape that is
skipped and goes nowhere. -/
theorem motion_emission_last {m : Motion} {resolution : Float}
    (h : m.emission resolution = .ok e) :
    e.points.getLast?.map Waypoint.position = some m.finish ∨
      e.points = [] ∧ ∃ kind b, m.action = .shape kind b ∧ b.moves m.start m.finish = false := by
  unfold Motion.emission at h
  split at h
  · cases h; exact .inl rfl
  · cases h; exact .inl rfl
  · cases h; exact .inl rfl
  · simp only [bind_eq_ok, pure_eq_ok] at h
    obtain ⟨ends, hends, rfl⟩ := h
    left
    rw [← List.getLast?_map, arcPoints_positions, chordEnds_last hends]
  · rename_i kind b haction
    simp only [bind_eq_ok] at h
    obtain ⟨outcome, -, h⟩ := h
    split at h
    · cases h; left; simp [Motion.shapePoints, Motion.point, List.getLast?_cons]
    · cases h
      by_cases hmoves : b.moves m.start m.finish = true
      · left; simp [hmoves, Motion.point]
      · right; exact ⟨by simp [hmoves], kind, b, haction, by simpa using hmoves⟩

theorem unmoved_of_not_moves {start finish : Position}
    (unnamed : ∀ axis, b.has [axis.letter] = false → finish.get axis = start.get axis)
    (h : b.moves start finish = false) : start.Unmoved finish := by
  intro axis
  cases hnamed : b.has [axis.letter] with
  | false => exact .inl (unnamed axis hnamed).symm
  | true =>
    right
    have hall : axis ∈ Axis.all := by cases axis <;> simp [Axis.all]
    simpa [hnamed, bne] using List.any_eq_false.1 h axis hall

/-- The last point of a block, if it has any, is the position after the block. -/
theorem emission_last (hr : before.resolve settings b = .ok r)
    (he : r.emission settings = .ok e) {w : Waypoint} (hw : e.points.getLast? = some w) :
    w.position = r.state.position := by
  cases resolve_arrives hr with
  | still =>
    simp only [Resolution.emission, Except.ok.injEq] at he
    subst he; simp at hw
  | @cycle m c ws line above =>
    simp only [Resolution.emission, FixedCycle.emission, bind_eq_ok, liftM_eq_ok, pure_eq_ok] at he
    obtain ⟨x, hx, rfl⟩ := he
    obtain ⟨p, hlast, hx', hy', hz'⟩ := phases_last hx
    simp only [List.getLast?_map, hlast, Option.map_some, Option.some.injEq] at hw
    subst hw
    simp [Phase.waypoint, above, hx', hy', hz']
  | @motion m mo ws line starts finishes unnamed own =>
    rcases motion_emission_last he with hlast | ⟨hnil, -⟩
    · rw [hw] at hlast
      simpa [finishes] using hlast
    · simp [hnil] at hw

/-- A block without points leaves every coordinate at the number it had. -/
theorem emission_still (hr : before.resolve settings b = .ok r)
    (he : r.emission settings = .ok e) (hnil : e.points = []) :
    before.position.Unmoved r.state.position := by
  cases resolve_arrives hr with
  | still stays => rw [stays]; exact .refl _
  | cycle line above =>
    simp only [Resolution.emission, FixedCycle.emission, bind_eq_ok, liftM_eq_ok, pure_eq_ok] at he
    obtain ⟨x, hx, rfl⟩ := he
    obtain ⟨p, hlast, -⟩ := phases_last hx
    simp_all
  | motion line starts finishes unnamed own =>
    rcases motion_emission_last he with hlast | ⟨-, kind, b', haction, hmoves⟩
    · simp [hnil] at hlast
    · obtain rfl := own kind b' haction
      rw [finishes, ← starts]
      exact unmoved_of_not_moves unnamed hmoves

end Points

end PartProgram

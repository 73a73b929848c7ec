import PartProgram.Motion
import PartProgram.Proofs.Result

/-!
# PartProgram.Proofs.Resolving

All that a block can come to. A code that moves a block makes one of seven things of it; a block
without such a code repeats a cycle or a way of moving if it names an axis. What holds of every
block is proved case by case from here.

* `resolveCode_cases`: what a code makes of a block.
* `resolve_cases`: what a block comes to.
-/

namespace PartProgram

variable {settings : Settings} {before m : Modal} {b : Block} {code : Code} {r : Resolution}

/-- What a code makes of a block whose modal words were heard in `m`. -/
inductive Modal.CodeResolves (settings : Settings) (before m : Modal) (b : Block) :
    Code → Resolution → Prop where
  | cycle {code : Code} (isCycle : code ∈ Code.cycles) :
      CodeResolves settings before m b code (resolveCycle settings before m code b)
  | rapid : CodeResolves settings before m b "G0" (resolveStraight before m b .rapid none [])
  | linear : CodeResolves settings before m b "G1" (resolveStraight before m b .linear m.feed [])
  | arc {code : Code} {direction : Direction} {arc : Option Arc} {ws : List Warning}
      (isArc : Direction.ofCode? code = some direction)
      (found : Arc.resolve before.position (m.target b) b m.plane direction
        settings.fullCircleTolerance settings.radiusEpsilon = .ok (arc, ws)) :
      CodeResolves settings before m b code
        (resolveStraight before m b ((arc.map .arc).getD .linear) m.feed ws)
  | dwell {code : Code} (isDwell : code ∈ Code.dwell) :
      CodeResolves settings before m b code
        ⟨m, .motion ⟨before.position, before.position, b.line, m.feed,
          .dwell (b.value 'P' <|> b.value 'X')⟩, []⟩
  | shape {code : Code} {kind : ShapeKind} (isShape : ShapeKind.ofCode? code = some kind) :
      CodeResolves settings before m b code
        (resolveStraight before m b (.shape kind b) m.feed [])
  | none {code : Code} (noCycle : code ∉ Code.cycles) (noRapid : code ≠ "G0")
      (noLinear : code ≠ "G1") (noArc : Direction.ofCode? code = none) (noDwell : code ∉ Code.dwell)
      (noShape : ShapeKind.ofCode? code = none) :
      CodeResolves settings before m b code ⟨m, .none, []⟩

theorem resolveCode_cases (h : Modal.resolveCode settings before m code b = .ok r) :
    Modal.CodeResolves settings before m b code r := by
  unfold Modal.resolveCode at h
  split at h
  · rename_i isCycle
    cases h
    exact .cycle isCycle
  rename_i noCycle
  split at h
  · rename_i isRapid
    cases h
    rw [isRapid]
    exact .rapid
  rename_i noRapid
  split at h
  · rename_i isLinear
    cases h
    rw [isLinear]
    exact .linear
  rename_i noLinear
  split at h
  · rename_i isArc
    simp only [Modal.resolveArc, bind_eq_ok, pure_eq_ok] at h
    obtain ⟨⟨arc, ws⟩, found, rfl⟩ := h
    exact .arc isArc found
  rename_i noArc
  have noArc := Option.eq_none_iff_forall_ne_some.2 noArc
  split at h
  · rename_i isDwell
    cases h
    exact .dwell isDwell
  rename_i noDwell
  split at h
  · rename_i isShape
    cases h
    exact .shape isShape
  · rename_i noShape
    cases h
    exact .none noCycle noRapid noLinear noArc noDwell (Option.eq_none_iff_forall_ne_some.2 noShape)

/-- What a block comes to. The first block that moves the tool may do so without any way of moving
in force. -/
inductive Modal.Resolves (settings : Settings) (before : Modal) (b : Block) :
    Resolution → Prop where
  | code {code : Code} {r : Resolution} (dominant : b.dominant? = some code)
      (found : resolveCode settings before (before.apply b) code b = .ok r) :
      Resolves settings before b r
  | modal (dominant : b.dominant? = none) (axis : b.hasAxis = false) :
      Resolves settings before b ⟨before.apply b, .none, []⟩
  | cycle {c : ActiveCycle} (dominant : b.dominant? = none) (axis : b.hasAxis = true)
      (active : (before.apply b).cycle = some c) :
      Resolves settings before b (resolveCycle settings before (before.apply b) c.code b)
  | mode {code : Code} {r : Resolution} (dominant : b.dominant? = none) (axis : b.hasAxis = true)
      (inactive : (before.apply b).cycle = none) (motion : (before.apply b).motion = some code)
      (found : resolveCode settings before (before.apply b) code b = .ok r) :
      Resolves settings before b r
  | first (dominant : b.dominant? = none) (axis : b.hasAxis = true)
      (inactive : (before.apply b).cycle = none) (motion : (before.apply b).motion = none) :
      Resolves settings before b (resolveStraight before
        { before.apply b with motion := some "G0" } b .rapid none [.noMotionMode])

theorem resolve_cases (h : before.resolve settings b = .ok r) :
    Modal.Resolves settings before b r := by
  simp only [Modal.resolve] at h
  split at h
  · rename_i dominant
    exact .code dominant h
  rename_i dominant
  cases axis : b.hasAxis with
  | false =>
    rw [axis] at h
    cases h
    exact .modal dominant axis
  | true =>
    rw [axis] at h
    simp only [Bool.not_true, Bool.false_eq_true, if_false] at h
    split at h
    · rename_i active
      cases h
      exact .cycle dominant axis active
    · rename_i inactive motion
      exact .mode dominant axis inactive motion h
    · rename_i inactive motion
      cases h
      exact .first dominant axis inactive motion

end PartProgram

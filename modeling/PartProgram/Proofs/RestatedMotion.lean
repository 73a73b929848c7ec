import PartProgram.Proofs.ReachedModes
import PartProgram.Proofs.RestatedModes
import PartProgram.Proofs.Steady

/-!
# PartProgram.Proofs.RestatedMotion

What a program still does once motion codes that are in force have been left out. The code moves
its block, before all others on it; without the code the block is moved by another one that stands
there, and if none does, by the mode in force, but only if it names an axis.

* `Stop.KeepsMotion`: the code that a block repeats can go.
* `motionTrim_doesTheSame_iff`: such a block, and no other, does the same without the code, but for
  a straight move to where the tool is.
* `dropMotionCodes_aligned_iff`: a program from which the codes were dropped moves as before if
  every block keeps its motion.
-/

namespace PartProgram

instance : DecidableEq Position := fun p q =>
  decidable_of_iff (p.x = q.x ∧ p.y = q.y ∧ p.z = q.z) (by cases p; cases q; simp)

/-- A straight move to where the tool is, or nothing at all. -/
def Effect.isStill : Effect → Bool
  | .none => true
  | .motion { start, finish, action := .rapid, .. } => start = finish
  | .motion { start, finish, action := .linear, .. } => start = finish
  | _ => false

def Effect.isArc : Effect → Bool
  | .motion { action := .arc _, .. } => true
  | _ => false

/-- A motion from one point to another, of any form. -/
def Effect.isMove : Effect → Bool
  | .motion { action := .rapid, .. } => true
  | .motion { action := .linear, .. } => true
  | .motion { action := .arc _, .. } => true
  | _ => false

/-- The effects that may be lost. -/
def Effect.IsStill (e : Effect) : Prop := e.isStill = true

/-- What a program sets going, apart from straight moves to where the tool is. -/
def progress (stops : List Stop) : List Effect := workOf (fun e => !e.isStill) stops

/-- The motion code that the block at a stop only repeats. -/
def Stop.restated? (s : Stop) : Option Code := s.block?.bind (Rule.restatedMotion? s.before)

/-- The block at a stop can do without the motion code: no other code stands on it that moves a
block; the mode is not ended before the block moves, or ended and taken up again as the mode of a
block that has none; and without an axis word there is no arc to lose, a full circle in place. -/
structure Stop.Spares (s : Stop) (code : Code) : Prop where
  alone : ∀ c ∈ s.block.codes 'G', c ∈ Code.byDominance → c = code
  stays : "G80" ∉ s.block.codes 'G' ∨ code = "G0" ∧ s.block.hasAxis = true
  moves : s.block.hasAxis = true ∨ s.effect.isArc = false

instance (s : Stop) (code : Code) : Decidable (s.Spares code) :=
  decidable_of_iff
    ((∀ c ∈ s.block.codes 'G', c ∈ Code.byDominance → c = code) ∧
      ("G80" ∉ s.block.codes 'G' ∨ code = "G0" ∧ s.block.hasAxis = true) ∧
      (s.block.hasAxis = true ∨ s.effect.isArc = false))
    ⟨fun ⟨alone, stays, moves⟩ => ⟨alone, stays, moves⟩,
      fun ⟨alone, stays, moves⟩ => ⟨alone, stays, moves⟩⟩

/-- A motion code that a block repeats can go. -/
def Stop.KeepsMotion (s : Stop) : Prop := ∀ code ∈ s.restated?, s.Spares code

instance (s : Stop) : Decidable s.KeepsMotion := by
  unfold Stop.KeepsMotion
  infer_instance

namespace Rule

/-- A stop without the motion code that it repeats. -/
def motionTrim (s : Stop) : Trim := ⟨s, s.restated?.toList, dropMotionCode s⟩

variable {settings : Settings} {m m' before : Modal} {b : Block} {code : Code} {r : Resolution}
  {s : Stop} {n : Int} {ls : Lines} {stops : List Stop}

/-! ## Blocks that repeat a motion code -/

namespace Restates

variable (h : Restates before b code)

include h

theorem eq_of_mem {c : Code} (hc : c ∈ b.codes 'G') (hmode : c ∈ Code.motionModes) : c = code := by
  have hmem : c ∈ (b.codes 'G').filter Code.motionModes.contains :=
    List.mem_filter.2 ⟨hc, List.contains_iff_mem.2 hmode⟩
  rw [h.only] at hmem
  exact List.mem_singleton.1 hmem

/-- The code moves its block. -/
theorem dominant : b.dominant? = some code := by
  obtain ⟨d, hd, hdominant⟩ := dominant_of_motionMode h.mem h.mode
  have hmem : (b.codes 'G').contains d = true := List.find?_some hdominant
  rw [hdominant, h.eq_of_mem (List.contains_iff_mem.1 hmem) hd]

theorem resolve_eq : before.resolve settings b =
    Modal.resolveCode settings before (before.apply b) code b := by
  simp only [Modal.resolve, h.dominant]

/-- The other codes stay. -/
theorem codes_without : (b.without [code]).codes 'G' = (b.codes 'G').filter (· != code) := by
  have hlong : ∀ code ∈ Code.motionModes, "G" ∉ [code] := by decide
  rw [Block.codes_without (hlong code h.mode)]
  refine List.filter_congr fun c _ => ?_
  rw [Bool.eq_iff_iff]
  simp

theorem mem_codes_without {c : Code} :
    c ∈ (b.without [code]).codes 'G' ↔ c ∈ b.codes 'G' ∧ c ≠ code := by
  rw [h.codes_without]
  simp

theorem alike : b.Alike (b.without [code]) := by
  have hhead : ∀ code ∈ Code.motionModes, code.toList.head? = some 'G' := by decide
  refine b.alike_without fun mark hmark => ?_
  rw [List.mem_singleton.1 hmark]
  exact .inl (hhead code h.mode)

theorem feed_without : (b.without [code]).value 'F' = b.value 'F' := by
  have hhead : ∀ code ∈ Code.motionModes, code ≠ "F" ∧ code.toList.head? ≠ some 'F' := by decide
  refine Block.value_without fun w _ hletter => ⟨fun hall => ?_, fun hcode => ?_⟩
  · rw [hletter] at hall
    exact (hhead code h.mode).1 (List.mem_singleton.1 hall).symm
  · refine (hhead code h.mode).2 ?_
    rw [← List.mem_singleton.1 hcode]
    simp [Word.code, hletter]

/-- The code says nothing of positioning and plane. -/
theorem mode_without : ∀ g ∈ ModeGroup.all,
    g.mode (before.apply (b.without [code])) = g.mode (before.apply b) := by
  intro g hg
  have hapart : ∀ g ∈ ModeGroup.all, ∀ code ∈ Code.motionModes, g.isCode code = false := by decide
  rw [mode_apply _ _ g hg, mode_apply _ _ g hg, h.codes_without]
  unfold ModeGroup.inForce
  rw [List.filter_filter]
  refine congrArg (fun codes => (List.getLast? codes).getD _) (List.filter_congr fun c _ => ?_)
  by_cases hc : c = code
  · rw [hc, hapart g hg code h.mode]
    rfl
  · simp [hc]

theorem dominant?_without_eq_none :
    (b.without [code]).dominant? = none ↔ ∀ c ∈ b.codes 'G', c ∈ Code.byDominance → c = code := by
  rw [Block.dominant?, List.find?_eq_none]
  simp only [List.contains_iff_mem, h.mem_codes_without, not_and, not_not]
  exact ⟨fun hall c hc hmoves => hall c hmoves hc, fun hall c hmoves hc => hall c hc hmoves⟩

end Restates

/-! ## What is left in force -/

theorem applyCode_quiet (hcode : code ∉ Code.byDominance) :
    (m.applyCode code).motion = (if code = "G80" then none else m.motion) ∧
      (m.applyCode code).cycle = if code = "G80" then none else m.cycle := by
  have hmode : code ∉ Code.motionModes :=
    fun h => hcode ((by decide : ∀ c ∈ Code.motionModes, c ∈ Code.byDominance) code h)
  have hcycle : code ∉ Code.cycles :=
    fun h => hcode ((by decide : ∀ c ∈ Code.cycles, c ∈ Code.byDominance) code h)
  unfold Modal.applyCode
  by_cases hend : code = "G80"
  · subst hend
    exact ⟨rfl, rfl⟩
  rw [if_neg hend, if_neg hmode, if_neg hcycle, if_neg hend, if_neg hend]
  split
  · exact ⟨rfl, rfl⟩
  split
  · exact ⟨rfl, rfl⟩
  split <;> exact ⟨rfl, rfl⟩

/-- Codes that move no block only ever end the way of moving. -/
theorem applyCodes_quiet {codes : List Code} (hcodes : ∀ c ∈ codes, c ∉ Code.byDominance) :
    (codes.foldl Modal.applyCode m).motion = (if "G80" ∈ codes then none else m.motion) ∧
      (codes.foldl Modal.applyCode m).cycle = if "G80" ∈ codes then none else m.cycle := by
  induction codes generalizing m with
  | nil => exact ⟨rfl, rfl⟩
  | cons c rest ih =>
    obtain ⟨hmotion, hcycle⟩ := applyCode_quiet (m := m) (hcodes c (.head _))
    obtain ⟨hmotion', hcycle'⟩ := ih (m := m.applyCode c) fun c hc => hcodes c (.tail _ hc)
    rw [List.foldl_cons, hmotion', hcycle', hmotion, hcycle]
    by_cases hc : c = "G80"
    · subst hc
      simp
    · have hmem : "G80" ∈ c :: rest ↔ "G80" ∈ rest := by simp [Ne.symm hc]
      simp only [hmem, if_neg hc, and_self]

namespace Restates

variable (h : Restates before b code)

include h

/-- Without the code, and with no other one to move the block, the mode is in force until it is
ended. -/
theorem modes_without (hno : (b.without [code]).dominant? = none) :
    (before.apply (b.without [code])).motion =
        (if "G80" ∈ b.codes 'G' then none else some code) ∧
      (before.apply (b.without [code])).cycle = none := by
  have hquiet : ∀ c ∈ (b.without [code]).codes 'G', c ∉ Code.byDominance := by
    intro c hc hmoves
    obtain ⟨hmem, hne⟩ := h.mem_codes_without.1 hc
    exact hne (h.dominant?_without_eq_none.1 hno c hmem hmoves)
  have hend : "G80" ∈ (b.without [code]).codes 'G' ↔ "G80" ∈ b.codes 'G' := by
    have hapart : ∀ code ∈ Code.motionModes, "G80" ≠ code := by decide
    rw [h.mem_codes_without]
    exact and_iff_left (hapart code h.mode)
  obtain ⟨hmotion, hcycle⟩ := applyCodes_quiet (m := before) hquiet
  have hdominant : ∀ m : Modal, m.applyDominant (b.without [code]) = m := by
    intro m
    unfold Modal.applyDominant
    rw [hno]
  unfold Modal.apply
  rw [hdominant]
  refine ⟨?_, ?_⟩
  · show (((b.without [code]).codes 'G').foldl Modal.applyCode before).motion = _
    simp only [hmotion, hend, h.motion]
  · show (((b.without [code]).codes 'G').foldl Modal.applyCode before).cycle = _
    simp only [hcycle, h.cycle, ite_self]

/-- But for the motion mode, the block hears the same. -/
theorem apply_without (hno : (b.without [code]).dominant? = none) :
    (before.apply b).Agrees Eq { before.apply (b.without [code]) with motion := some code } := by
  obtain ⟨hmotion, hcycle⟩ := apply_of_motionMode (m := before) h.dominant h.mode
  refine ⟨?_, ?_, ?_, ?_, hmotion.symm, ?_⟩
  · exact Positioning.code_injective (h.mode_without _ (.head _))
  · exact Plane.code_injective (h.mode_without _ (.tail _ (.head _)))
  · show (before.apply (b.without [code])).position = _
    rw [Modal.apply_position, Modal.apply_position]
  · show _ = (before.apply (b.without [code])).feed
    rw [Modal.apply_feed, Modal.apply_feed, h.feed_without]
  · show (before.apply (b.without [code])).cycle = _
    rw [(h.modes_without hno).2, hcycle]

/-- What the block does without the code. -/
theorem resolve_without (hno : (b.without [code]).dominant? = none) :
    before.resolve settings (b.without [code]) =
      if b.hasAxis then
        if "G80" ∈ b.codes 'G' then
          .ok (Modal.resolveStraight before
            { before.apply (b.without [code]) with motion := some "G0" } (b.without [code]) .rapid none
            [.noMotionMode])
        else
          Modal.resolveCode settings before (before.apply (b.without [code])) code (b.without [code])
      else .ok ⟨before.apply (b.without [code]), .none, []⟩ := by
  obtain ⟨hmotion, hcycle⟩ := h.modes_without hno
  simp only [Modal.resolve, hno, h.alike.hasAxis, hmotion, hcycle]
  by_cases haxis : b.hasAxis = true
  · by_cases hend : "G80" ∈ b.codes 'G'
    · simp only [haxis, hend, Bool.not_true, Bool.false_eq_true, if_false, if_true]
    · simp only [haxis, hend, Bool.not_true, Bool.false_eq_true, if_false, if_true]
  · simp [haxis]

end Restates

/-! ## What a code moves -/

/-- A motion mode moves its block straight or along an arc. -/
theorem resolveCode_motionMode (hmode : code ∈ Code.motionModes)
    (h : Modal.resolveCode settings before m code b = .ok r) :
    ∃ action feed ws, r = Modal.resolveStraight before m b action feed ws ∧
      (action = .rapid ∨ action = .linear ∨ ∃ a, action = .arc a) := by
  have hkinds : ∀ code ∈ Code.motionModes, code ∉ Code.cycles ∧ code ∉ Code.dwell ∧
      ShapeKind.ofCode? code = none ∧
        (code ≠ "G0" → code ≠ "G1" → Direction.ofCode? code ≠ none) := by decide
  obtain ⟨hcycle, hdwell, hshape, harc⟩ := hkinds code hmode
  cases resolveCode_cases h with
  | cycle isCycle => exact absurd isCycle hcycle
  | rapid => exact ⟨.rapid, none, [], rfl, .inl rfl⟩
  | linear => exact ⟨.linear, m.feed, [], rfl, .inr (.inl rfl)⟩
  | @arc _ _ arc =>
    refine ⟨_, _, _, rfl, .inr ?_⟩
    cases arc with
    | none => exact .inl rfl
    | some a => exact .inr ⟨a, rfl⟩
  | dwell isDwell => exact absurd isDwell hdwell
  | shape isShape =>
    rw [hshape] at isShape
    cases isShape
  | none _ noRapid noLinear noArc => exact absurd noArc (harc noRapid noLinear)

/-- Any other code that moves a block begins a cycle, waits or mills a shape. -/
theorem resolveCode_other (hmoves : code ∈ Code.byDominance) (hno : code ∉ Code.motionModes)
    (h : Modal.resolveCode settings before m code b = .ok r) :
    r.state.cycle ≠ none ∨ r.effect ≠ .none ∧ r.effect.isMove = false := by
  have hkinds : ∀ code ∈ Code.byDominance, code ∉ Code.motionModes →
      code ≠ "G0" ∧ code ≠ "G1" ∧ Direction.ofCode? code = none ∧
        (code ∉ Code.cycles → code ∉ Code.dwell → ShapeKind.ofCode? code ≠ none) := by decide
  obtain ⟨hrapid, hlinear, harc, hshape⟩ := hkinds code hmoves hno
  cases resolveCode_cases h with
  | cycle => exact .inl (by simp [Modal.resolveCycle])
  | rapid => exact absurd rfl hrapid
  | linear => exact absurd rfl hlinear
  | arc isArc =>
    rw [harc] at isArc
    cases isArc
  | dwell => exact .inr ⟨Effect.noConfusion, rfl⟩
  | shape => exact .inr ⟨Effect.noConfusion, rfl⟩
  | none noCycle _ _ _ noDwell noShape => exact absurd noShape (hshape noCycle noDwell)

theorem isMove_of_agrees {e e' : Effect} (h : e.Agrees Eq e') : e'.isMove = e.isMove := by
  cases h with
  | none => rfl
  | cycle => rfl
  | @motion mo mo' start finish feed action =>
    obtain ⟨start₀, finish₀, line₀, feed₀, action₀⟩ := mo
    obtain ⟨start₁, finish₁, line₁, feed₁, action₁⟩ := mo'
    cases action <;> rfl

theorem target_of_no_axis (haxis : b.hasAxis = false) (m : Modal) : m.target b = m.position := by
  have hvalue : ∀ axis : Axis, b.value axis.letter = none := by
    intro axis
    rw [Block.hasAxis, Block.has_eq_any_value, List.any_eq_false] at haxis
    have hmem : axis.letter ∈ axisLetters := by cases axis <;> decide
    simpa using haxis _ hmem
  have hcoordinate : m.targetOn b = m.position.get := by
    funext axis
    rw [Modal.targetOn, hvalue]
  rw [Modal.target, hcoordinate]
  rfl

/-! ## Blocks that can do without the code -/

namespace Restates

variable (h : Restates before b code)

include h

/-- Without the code the mode stays in force, if the block does not end it. -/
theorem apply_agrees (hno : (b.without [code]).dominant? = none) (hend : "G80" ∉ b.codes 'G') :
    (before.apply b).Agrees Eq (before.apply (b.without [code])) := by
  have hmotion := (h.modes_without hno).1
  rw [if_neg hend] at hmotion
  have happly := h.apply_without hno
  rw [← hmotion] at happly
  exact happly

/-- A block with an axis word is moved by the mode, or as a rapid where the mode was ended. -/
theorem exists_resolve_of_axis (hr : before.resolve settings b = .ok r)
    (hno : (b.without [code]).dominant? = none) (haxis : b.hasAxis = true)
    (hstays : "G80" ∉ b.codes 'G' ∨ code = "G0") :
    ∃ r', before.resolve settings (b.without [code]) = .ok r' ∧ r.Agrees Eq r' := by
  rw [h.resolve_eq] at hr
  rw [h.resolve_without hno, if_pos haxis]
  by_cases hend : "G80" ∈ b.codes 'G'
  · obtain rfl := hstays.resolve_left (not_not_intro hend)
    cases hr
    rw [if_pos hend]
    exact ⟨_, rfl, resolveStraight_agrees h.alike (h.apply_without hno) rfl .rapid rfl⟩
  · rw [if_neg hend]
    exact resolveCode_agrees rfl h.alike (h.apply_agrees hno hend) rfl hr

/-- A block without an axis word does nothing, and did nothing but for an arc. -/
theorem exists_resolve_of_no_axis (hr : before.resolve settings b = .ok r)
    (hno : (b.without [code]).dominant? = none) (haxis : b.hasAxis = false)
    (hend : "G80" ∉ b.codes 'G') (harc : r.effect.isArc = false) :
    ∃ r', before.resolve settings (b.without [code]) = .ok r' ∧ r.state.Agrees Eq r'.state ∧
      r.effect.IsStill ∧ r'.effect = .none := by
  have happly := h.apply_agrees hno hend
  have htarget := target_of_no_axis haxis (before.apply b)
  rw [h.resolve_eq] at hr
  rw [h.resolve_without hno, if_neg (Bool.eq_false_iff.1 haxis)]
  obtain ⟨action, feed, ws, rfl, haction⟩ := resolveCode_motionMode h.mode hr
  refine ⟨_, rfl, { happly with position := ?_ }, ?_, rfl⟩
  · show _ = (before.apply b).target b
    rw [htarget, happly.position]
  · have hfinish : before.position = (before.apply b).target b := by
      rw [htarget, Modal.apply_position]
    rcases haction with rfl | rfl | ⟨a, rfl⟩
    · exact decide_eq_true hfinish
    · exact decide_eq_true hfinish
    · cases harc

/-- A block that moves the same without the code, or stays where it is. -/
theorem exists_resolve (hr : before.resolve settings b = .ok r)
    (hno : (b.without [code]).dominant? = none)
    (hstays : "G80" ∉ b.codes 'G' ∨ code = "G0" ∧ b.hasAxis = true)
    (hmoves : b.hasAxis = true ∨ r.effect.isArc = false) :
    ∃ r', before.resolve settings (b.without [code]) = .ok r' ∧ r.state.Agrees Eq r'.state ∧
      (r.effect.Agrees Eq r'.effect ∨ r.effect.IsStill ∧ r'.effect = .none) := by
  by_cases haxis : b.hasAxis = true
  · obtain ⟨r', hr', hagrees⟩ := h.exists_resolve_of_axis hr hno haxis (hstays.imp_right And.left)
    exact ⟨r', hr', hagrees.state, .inl hagrees.effect⟩
  · have hend : "G80" ∉ b.codes 'G' := hstays.resolve_right fun hstays => haxis hstays.2
    obtain ⟨r', hr', hstate, hlost⟩ := h.exists_resolve_of_no_axis hr hno
      (Bool.eq_false_iff.2 haxis) hend (hmoves.resolve_left haxis)
    exact ⟨r', hr', hstate, .inr hlost⟩

section DoesTheSame

variable {r' : Resolution} (hr : before.resolve settings b = .ok r)
  (hr' : before.resolve settings (b.without [code]) = .ok r') (hstate : r.state.Agrees Eq r'.state)
  (heffect : r.effect.Agrees Eq r'.effect ∨ r.effect.IsStill ∧ r'.effect = .none)

include hr hr' hstate

include heffect in
/-- No other code can move a block that does the same without this one. -/
theorem dominant?_of_doesTheSame : (b.without [code]).dominant? = none := by
  have hcycle := (resolve_of_motionMode hr h.dominant h.mode).2
  rw [h.resolve_eq] at hr
  have hmove : r.effect.isMove = true := by
    obtain ⟨action, feed, ws, rfl, rfl | rfl | ⟨a, rfl⟩⟩ := resolveCode_motionMode h.mode hr <;> rfl
  rw [Option.eq_none_iff_forall_ne_some]
  intro d hd
  have hmem := List.contains_iff_mem.1 (List.find?_some hd)
  obtain ⟨hmem, hne⟩ := h.mem_codes_without.1 hmem
  have hother : d ∉ Code.motionModes := fun hmode => hne (h.eq_of_mem hmem hmode)
  simp only [Modal.resolve, hd] at hr'
  rcases resolveCode_other (List.mem_of_find?_eq_some hd) hother hr' with hbegins | ⟨hsome, hno⟩
  · exact hbegins (hstate.cycle.trans hcycle)
  rcases heffect with heffect | ⟨-, hnone⟩
  · rw [isMove_of_agrees heffect, hmove] at hno
    cases hno
  · exact hsome hnone

/-- A block that does the same without the code and ends the mode is a rapid. -/
theorem stays_of_doesTheSame (hno : (b.without [code]).dominant? = none) :
    "G80" ∉ b.codes 'G' ∨ code = "G0" ∧ b.hasAxis = true := by
  by_cases hend : "G80" ∈ b.codes 'G'
  · right
    have hmotion := (resolve_of_motionMode hr h.dominant h.mode).1
    have hmotion' := (h.modes_without hno).1
    rw [if_pos hend] at hmotion'
    rw [h.resolve_without hno] at hr'
    by_cases haxis : b.hasAxis = true
    · rw [if_pos haxis, if_pos hend] at hr'
      cases hr'
      exact ⟨Option.some.inj (hmotion.symm.trans hstate.motion.symm), haxis⟩
    · rw [if_neg haxis] at hr'
      cases hr'
      have hlost := hstate.motion.symm.trans hmotion'
      rw [hmotion] at hlost
      cases hlost
  · exact .inl hend

omit hstate in
include heffect in
/-- A block that does the same without the code and names no axis is no arc. -/
theorem moves_of_doesTheSame (hno : (b.without [code]).dominant? = none) :
    b.hasAxis = true ∨ r.effect.isArc = false := by
  by_cases haxis : b.hasAxis = true
  · exact .inl haxis
  right
  rw [h.resolve_without hno, if_neg haxis] at hr'
  cases hr'
  rw [h.resolve_eq] at hr
  obtain ⟨action, feed, ws, rfl, rfl | rfl | ⟨a, rfl⟩⟩ := resolveCode_motionMode h.mode hr
  · rfl
  · rfl
  · rcases heffect with hagrees | ⟨hstill, -⟩
    · cases hagrees
    · cases hstill

end DoesTheSame

end Restates

/-- A stop does the same without the code that it repeats exactly if it keeps its motion. -/
theorem motionTrim_doesTheSame_iff (hstop : s.before.stopAt settings n s.raw = .ok s) :
    (motionTrim s).DoesTheSame Eq Effect.IsStill settings ↔ s.KeepsMotion := by
  unfold Stop.KeepsMotion
  cases hcode : s.restated? with
  | none =>
    refine iff_of_true (doesTheSame_of_kept_eq ⟨fun _ => rfl, Eq.symm, Eq.trans⟩ hstop ?_) (by simp)
    rw [Trim.kept, motionTrim, hcode]
    exact Block.without_nil _
  | some code =>
    obtain ⟨b, hb, hrestated⟩ := Option.bind_eq_some_iff.1 hcode
    obtain ⟨⟨b', r⟩, hfound, rfl⟩ := Option.map_eq_some_iff.1 hb
    have h := restates_of_restatedMotion? hrestated
    have hr := stopAt_resolve hstop hfound
    have hblock := Stop.block_of_some hb
    have hafter := Stop.after_of_found hfound
    have heffect := Stop.effect_of_found hfound
    have hkept : (motionTrim s).kept = b'.without [code] := by
      rw [Trim.kept, motionTrim, hcode, hblock]
      rfl
    unfold Trim.DoesTheSame
    rw [hkept]
    simp only [motionTrim, hafter, heffect, Option.mem_some, forall_eq']
    constructor
    · rintro ⟨r', hr', hstate, heffects⟩
      have hno := h.dominant?_of_doesTheSame hr hr' hstate heffects
      refine ⟨?_, ?_, ?_⟩
      · rw [hblock]
        exact h.dominant?_without_eq_none.1 hno
      · rw [hblock]
        exact h.stays_of_doesTheSame hr hr' hstate hno
      · rw [hblock, heffect]
        exact h.moves_of_doesTheSame hr hr' heffects hno
    · rintro ⟨halone, hstays, hmoves⟩
      rw [hblock] at halone hstays hmoves
      rw [heffect] at hmoves
      exact h.exists_resolve hr (h.dominant?_without_eq_none.2 halone) hstays hmoves

/-! ## Whole programs -/

theorem motionTrim_valid (hstop : s.before.stopAt settings n s.raw = .ok s) :
    (motionTrim s).Valid := by
  obtain ⟨-, -, hblock⟩ := stopAt_eq_ok hstop
  unfold Trim.Valid Trim.kept motionTrim dropMotionCode Stop.restated?
  cases hb : s.block? with
  | none =>
    rw [hb] at hblock
    rw [Stop.block_of_none hb]
    exact holdsWords_of_read?_none hblock.symm
  | some b =>
    rw [hb] at hblock
    rw [Stop.block_of_some hb, Option.bind_some]
    cases hcode : restatedMotion? s.before b with
    | none =>
      simp only [hcode, Option.toList_none, Block.without_nil]
      exact holdsWords_of_read? hblock.symm
    | some code =>
      simp only [hcode, Option.toList_some]
      cases hgone : (b.without [code]).words.isEmpty && (b.without [code]).comment.isNone with
      | true =>
        rw [if_pos rfl]
        simp only [Bool.and_eq_true, List.isEmpty_iff] at hgone
        exact hgone.1
      | false =>
        rw [if_neg Bool.false_ne_true]
        exact ((Block.wellFormed_of_read? hblock.symm).without [code]).holdsWords

theorem isStill_of_agrees {e e' : Effect} (h : e.Agrees Eq e') : e'.isStill = e.isStill := by
  cases h with
  | none => rfl
  | cycle => rfl
  | @motion mo mo' start finish feed action =>
    obtain ⟨start₀, finish₀, line₀, feed₀, action₀⟩ := mo
    obtain ⟨start₁, finish₁, line₁, feed₁, action₁⟩ := mo'
    cases start
    cases finish
    cases action <;> rfl

theorem motionTrims_aligned_iff (hwalk : walk ls = .ok stops) :
    Aligned Eq Effect.IsStill .standard .initial 1 (stops.map motionTrim) ↔
      ∀ s ∈ stops, s.KeepsMotion := by
  have hequivalence : Equivalence (@Eq (Option Float)) := ⟨fun _ => rfl, Eq.symm, Eq.trans⟩
  have hlost : Effect.IsStill .none := rfl
  have hstops : walk ls = .ok ((stops.map motionTrim).map Trim.stop) := by
    have hmap : (stops.map motionTrim).map Trim.stop = stops := by
      rw [List.map_map]
      exact List.map_id _
    rw [hmap]
    exact hwalk
  have hvalid : ∀ t ∈ stops.map motionTrim, t.Valid := by
    intro t ht
    obtain ⟨s, hs, rfl⟩ := List.mem_map.1 ht
    obtain ⟨k, hstop⟩ := walkFrom_stopAt hwalk s hs
    exact motionTrim_valid hstop
  rw [aligned_iff hequivalence hlost hvalid hstops (.refl hequivalence _), List.forall_mem_map]
  refine forall₂_congr fun s hs => ?_
  obtain ⟨k, hstop⟩ := walkFrom_stopAt hwalk s hs
  exact motionTrim_doesTheSame_iff hstop

/-- The lines that are left when restated motion codes are dropped do what the program did from the
same states, line for line and apart from straight moves to where the tool is, exactly if every
block keeps its motion. The program that is left then makes the same moves and cycles, one after the
other. -/
theorem dropMotionCodes_aligned_iff (hwalk : walk ls = .ok stops) :
    (dropMotionCodes ls).result = .ok ((stops.map motionTrim).filterMap Trim.left) ∧
      (Aligned Eq Effect.IsStill .standard .initial 1 (stops.map motionTrim) ↔
        ∀ s ∈ stops, s.KeepsMotion) ∧
      ((∀ s ∈ stops, s.KeepsMotion) → ∃ out stops', (dropMotionCodes ls).result = .ok out ∧
        walk out = .ok stops' ∧
          List.Forall₂ (Effect.Agrees Eq) (progress stops) (progress stops')) := by
  have hresult : (dropMotionCodes ls).result =
      .ok ((stops.map motionTrim).filterMap Trim.left) := by
    rw [dropMotionCodes, Revised.ofWalk, hwalk, List.filterMap_map]
    rfl
  refine ⟨hresult, motionTrims_aligned_iff hwalk, fun hkeeps => ?_⟩
  have hlost : Effect.IsStill .none := rfl
  obtain ⟨stops', hwalk', hwork⟩ := aligned_work (fun e => !e.isStill) hlost
    (fun e he => congrArg not he) (fun e e' h => by rw [isStill_of_agrees h])
    ((motionTrims_aligned_iff hwalk).2 hkeeps)
  refine ⟨_, stops', hresult, hwalk', ?_⟩
  have hmap : (stops.map motionTrim).map Trim.stop = stops := by
    rw [List.map_map]
    exact List.map_id _
  rw [hmap] at hwork
  exact hwork

/-- Codes that go from moves and arcs, with a block of which nothing is left, and one from a rapid that
ends its mode. -/
theorem dropMotionCodes_aligned_shortened :
    let ls := ["G1 X1 F100", "G1 X2 (on)", "G01", "G2 X4 I1 J0", "G2 G91 X2 I1 J0", "G0 Y5", "G0 G80 Y9"]
    let out := ["G1 X1 F100", "X2 ; on", "G2 X4 I1 J0", "G91 X2 I1 J0", "G0 Y5", "G80 Y9"]
    ∃ stops stops', walk ls = .ok stops ∧ (dropMotionCodes ls).result = .ok out ∧
      walk out = .ok stops' ∧
        List.Forall₂ (Effect.Agrees Eq) (progress stops) (progress stops') := by
  intro ls out
  obtain ⟨stops, hwalk, hkeeps⟩ := exists_of_toOption (x := walk ls)
    (f := fun stops => decide (∀ s ∈ stops, s.KeepsMotion)) (b := true) (by decide +kernel)
  obtain ⟨out', hout', hlines⟩ := exists_of_toOption (x := (dropMotionCodes ls).result)
    (f := id) (b := out) (by decide +kernel)
  obtain ⟨-, -, hmoves⟩ := dropMotionCodes_aligned_iff hwalk
  obtain ⟨out'', stops', hresult, hwalk', hwork⟩ := hmoves (of_decide_eq_true hkeeps)
  rw [hout'] at hresult
  cases hresult
  have hlines : out' = out := hlines
  subst hlines
  exact ⟨stops, stops', hwalk, hout', hwalk', hwork⟩

/-- A full circle names no axis. Without its code it is no move at all, and the second of two circles
is lost. -/
theorem dropMotionCodes_circle_lost :
    ∃ stops out stops', walk ["G2 X10 Y0 I5 J0 F100", "G2 I5 J0"] = .ok stops ∧
      (dropMotionCodes ["G2 X10 Y0 I5 J0 F100", "G2 I5 J0"]).result = .ok out ∧
      walk out = .ok stops' ∧
        ¬ List.Forall₂ (Effect.Agrees Eq) (progress stops) (progress stops') := by
  obtain ⟨stops, hwalk, htwo⟩ := exists_of_toOption
    (x := walk ["G2 X10 Y0 I5 J0 F100", "G2 I5 J0"]) (f := fun stops => (progress stops).length)
    (b := 2) (by decide +kernel)
  obtain ⟨out, hout, hlines⟩ := exists_of_toOption
    (x := (dropMotionCodes ["G2 X10 Y0 I5 J0 F100", "G2 I5 J0"]).result) (f := id)
    (b := ["G2 X10 Y0 I5 J0 F100", "I5 J0"]) (by decide +kernel)
  obtain ⟨stops', hwalk', hone⟩ := exists_of_toOption
    (x := walk ["G2 X10 Y0 I5 J0 F100", "I5 J0"]) (f := fun stops => (progress stops).length)
    (b := 1) (by decide +kernel)
  cases hlines
  refine ⟨stops, _, stops', hwalk, hout, hwalk', fun hwork => ?_⟩
  have hlength := hwork.length_eq
  rw [htwo, hone] at hlength
  exact absurd hlength (by decide)

end Rule

end PartProgram

import PartProgram.Proofs.Arrival

/-!
# PartProgram.Proofs.Agreement

Blocks that do the same. Two blocks are alike if they say the same with every letter but `G` and
`F`, which are heard before a block moves. What a block moves is then up to the state that its codes
leave and the code that moves it: alike blocks that move the same way from states that agree have
effects that agree, and leave states that agree. How closely feeds have to agree is a parameter.

* `expand_alike`: alike blocks mill the same shape.
* `resolveCode_agrees`: alike blocks that move by one code.
* `resolve_agrees_of_apply`: alike blocks whose codes leave states that agree.
* `resolve_agrees`: a block does the same from states that agree.
-/

namespace PartProgram

/-- The blocks say the same with every letter but `G` and `F`. -/
def Block.Alike (b b' : Block) : Prop :=
  ∀ letter, letter ≠ 'G' → letter ≠ 'F' → b'.value letter = b.value letter

section Agreement

variable (same : Option Float → Option Float → Prop)

/-- The states are one but for their feeds, which are the same. -/
structure Modal.Agrees (m m' : Modal) : Prop where
  positioning : m'.positioning = m.positioning
  plane : m'.plane = m.plane
  position : m'.position = m.position
  feed : same m.feed m'.feed
  motion : m'.motion = m.motion
  cycle : m'.cycle = m.cycle

inductive Action.Agrees : Action → Action → Prop where
  | rapid : Agrees .rapid .rapid
  | linear : Agrees .linear .linear
  | arc (a : Arc) : Agrees (.arc a) (.arc a)
  | dwell (seconds : Option Float) : Agrees (.dwell seconds) (.dwell seconds)
  | shape (kind : ShapeKind) {b b' : Block} (sizes : b.Alike b') :
      Agrees (.shape kind b) (.shape kind b')

/-- The blocks set the same going: only the places of the blocks in the text may differ. -/
inductive Effect.Agrees : Effect → Effect → Prop where
  | none : Agrees .none .none
  | motion {mo mo' : Motion} (start : mo'.start = mo.start) (finish : mo'.finish = mo.finish)
      (feed : same mo.feed mo'.feed) (action : mo.action.Agrees mo'.action) :
      Agrees (.motion mo) (.motion mo')
  | cycle {c c' : FixedCycle} (code : c'.code = c.code) (kind : c'.kind = c.kind)
      (hole : c'.hole = c.hole) : Agrees (.cycle c) (.cycle c')

structure Resolution.Agrees (r r' : Resolution) : Prop where
  state : r.state.Agrees same r'.state
  effect : r.effect.Agrees same r'.effect

end Agreement

variable {same : Option Float → Option Float → Prop} {b b' : Block} {m m' before before' : Modal}
  {settings : Settings} {code : Code} {r : Resolution}

/-! ## Alike blocks -/

theorem Block.Alike.refl (b : Block) : b.Alike b := fun _ _ _ => rfl

theorem Block.Alike.symm (h : b.Alike b') : b'.Alike b :=
  fun letter hG hF => (h letter hG hF).symm

theorem Block.Alike.trans {b'' : Block} (h : b.Alike b') (h' : b'.Alike b'') : b.Alike b'' :=
  fun letter hG hF => (h' letter hG hF).trans (h letter hG hF)

theorem Block.alike_of_words (h : b'.words = b.words) : b.Alike b' := by
  intro letter _ _
  rw [Block.value, Block.value, h]

theorem Block.codes_of_first {w : Word} (hwords : b'.words = w :: b.words) :
    b'.codes w.letter = w.code :: b.codes w.letter := by
  rw [codes, hwords, List.filter_cons_of_pos (by simp), List.map_cons, codes]

theorem Block.value_of_first {w : Word} {letter : Char} (hwords : b'.words = w :: b.words)
    (hletter : letter ≠ w.letter) : b'.value letter = b.value letter := by
  rw [value, hwords, List.find?_cons_of_neg (by simpa using hletter.symm), value]

theorem Block.has_eq_any_value (b : Block) (letters : List Char) :
    b.has letters = letters.any fun letter => (b.value letter).isSome := by
  rw [Bool.eq_iff_iff]
  simp only [has, value, List.any_eq_true, List.contains_iff_mem, Option.isSome_map,
    List.find?_isSome, beq_iff_eq]
  constructor
  · rintro ⟨w, hw, hletter⟩
    exact ⟨w.letter, hletter, w, hw, rfl⟩
  · rintro ⟨_, hletter, w, hw, rfl⟩
    exact ⟨w, hw, hletter⟩

theorem Block.Alike.has (h : b.Alike b') {letters : List Char} (hG : 'G' ∉ letters)
    (hF : 'F' ∉ letters) : b'.has letters = b.has letters := by
  rw [has_eq_any_value, has_eq_any_value, Bool.eq_iff_iff, List.any_eq_true, List.any_eq_true]
  refine exists_congr fun letter => and_congr_right fun hletter => ?_
  rw [h letter (fun heq => hG (heq ▸ hletter)) fun heq => hF (heq ▸ hletter)]

theorem Block.Alike.hasAxis (h : b.Alike b') : b'.hasAxis = b.hasAxis :=
  h.has (by decide) (by decide)

theorem Block.Alike.valueOrZero (h : b.Alike b') {letter : Char} (hG : letter ≠ 'G')
    (hF : letter ≠ 'F') : b'.valueOrZero letter = b.valueOrZero letter := by
  rw [Block.valueOrZero, Block.valueOrZero, h letter hG hF]

/-- Alike blocks mill the same shape. -/
theorem expand_alike (h : b.Alike b') (kind : ShapeKind) (origin finish : Position)
    (resolution : Float) :
    Shape.expand kind origin finish b' resolution = Shape.expand kind origin finish b resolution := by
  have hvalue : ∀ letter ∈ ['D', 'R', 'P', 'H', 'A', 'W', 'L'], b'.value letter = b.value letter := by
    intro letter hletter
    refine h letter ?_ ?_ <;> rintro rfl <;> revert hletter <;> decide
  simp only [List.mem_cons, List.not_mem_nil, or_false, forall_eq_or_imp, forall_eq] at hvalue
  obtain ⟨hD, hR, hP, hH, hA, hW, hL⟩ := hvalue
  have hX : b'.has ['X'] = b.has ['X'] := h.has (by decide) (by decide)
  have hY : b'.has ['Y'] = b.has ['Y'] := h.has (by decide) (by decide)
  cases kind <;> simp only [Shape.expand, Shape.circle, Shape.sphere, Shape.cone, Shape.coneHeight,
    Shape.extrusion, hD, hR, hP, hH, hA, hW, hL, hX, hY]

/-! ## Agreement is an equivalence -/

section Equivalence

variable (hsame : Equivalence same)

include hsame

theorem Modal.Agrees.refl (m : Modal) : m.Agrees same m :=
  ⟨rfl, rfl, rfl, hsame.refl _, rfl, rfl⟩

theorem Modal.Agrees.symm (h : m.Agrees same m') : m'.Agrees same m :=
  ⟨h.positioning.symm, h.plane.symm, h.position.symm, hsame.symm h.feed, h.motion.symm,
    h.cycle.symm⟩

theorem Modal.Agrees.trans {m'' : Modal} (h : m.Agrees same m') (h' : m'.Agrees same m'') :
    m.Agrees same m'' :=
  ⟨h'.positioning.trans h.positioning, h'.plane.trans h.plane, h'.position.trans h.position,
    hsame.trans h.feed h'.feed, h'.motion.trans h.motion, h'.cycle.trans h.cycle⟩

omit hsame in
theorem Action.Agrees.refl (a : Action) : a.Agrees a := by
  cases a with
  | rapid => exact .rapid
  | linear => exact .linear
  | arc a => exact .arc a
  | dwell seconds => exact .dwell seconds
  | shape kind b => exact .shape kind (.refl b)

omit hsame in
theorem Action.Agrees.symm {a a' : Action} (h : a.Agrees a') : a'.Agrees a := by
  cases h with
  | rapid => exact .rapid
  | linear => exact .linear
  | arc a => exact .arc a
  | dwell seconds => exact .dwell seconds
  | shape kind sizes => exact .shape kind sizes.symm

omit hsame in
theorem Action.Agrees.trans {a a' a'' : Action} (h : a.Agrees a') (h' : a'.Agrees a'') :
    a.Agrees a'' := by
  cases h with
  | shape kind sizes =>
    cases h' with
    | shape _ sizes' => exact .shape kind (sizes.trans sizes')
  | _ => exact h'

theorem Effect.Agrees.refl (e : Effect) : e.Agrees same e := by
  cases e with
  | none => exact .none
  | motion mo => exact .motion rfl rfl (hsame.refl _) (.refl _)
  | cycle c => exact .cycle rfl rfl rfl

theorem Effect.Agrees.symm {e e' : Effect} (h : e.Agrees same e') : e'.Agrees same e := by
  cases h with
  | none => exact .none
  | motion start finish feed action =>
    exact .motion start.symm finish.symm (hsame.symm feed) action.symm
  | cycle code kind hole => exact .cycle code.symm kind.symm hole.symm

theorem Effect.Agrees.trans {e e' e'' : Effect} (h : e.Agrees same e') (h' : e'.Agrees same e'') :
    e.Agrees same e'' := by
  cases h with
  | none => exact h'
  | motion start finish feed action =>
    cases h' with
    | motion start' finish' feed' action' =>
      exact .motion (start'.trans start) (finish'.trans finish) (hsame.trans feed feed')
        (action.trans action')
  | cycle code kind hole =>
    cases h' with
    | cycle code' kind' hole' =>
      exact .cycle (code'.trans code) (kind'.trans kind) (hole'.trans hole)

end Equivalence

/-! ## Blocks that move alike -/

theorem target_agrees (hb : b.Alike b') (hm : m.Agrees same m') : m'.target b' = m.target b := by
  refine congrArg Point.tabulate (funext fun axis => ?_)
  have hvalue : b'.value axis.letter = b.value axis.letter := by
    refine hb _ ?_ ?_ <;> cases axis <;> decide
  rw [Modal.targetOn, Modal.targetOn, hvalue, hm.position, hm.positioning]

theorem resolveCycle_agrees (hb : b.Alike b') (hm : m.Agrees same m')
    (hposition : before'.position = before.position) :
    (Modal.resolveCycle settings before m code b).Agrees same
      (Modal.resolveCycle settings before' m' code b') := by
  have hR : b'.value 'R' = b.value 'R' := hb _ (by decide) (by decide)
  have hZ : b'.value 'Z' = b.value 'Z' := hb _ (by decide) (by decide)
  have hQ : b'.value 'Q' = b.value 'Q' := hb _ (by decide) (by decide)
  have hP : b'.value 'P' = b.value 'P' := hb _ (by decide) (by decide)
  have hshift : Modal.shift? b' code settings = Modal.shift? b code settings := by
    rw [Modal.shift?, Modal.shift?, hb.has (by decide) (by decide),
      hb.valueOrZero (by decide) (by decide), hb.valueOrZero (by decide) (by decide)]
  have htarget := target_agrees hb hm
  refine ⟨⟨hm.positioning, hm.plane, ?_, hm.feed, rfl, ?_⟩, .cycle rfl rfl ?_⟩ <;>
    simp only [Modal.resolveCycle, hm.cycle, hR, hZ, hQ, hP, hshift, htarget, hposition]

theorem resolveStraight_agrees {action action' : Action} {feed feed' : Option Float}
    {ws ws' : List Warning} (hb : b.Alike b') (hm : m.Agrees same m')
    (hposition : before'.position = before.position) (haction : action.Agrees action')
    (hfeed : same feed feed') :
    (Modal.resolveStraight before m b action feed ws).Agrees same
      (Modal.resolveStraight before' m' b' action' feed' ws') := by
  have htarget := target_agrees hb hm
  exact ⟨⟨hm.positioning, hm.plane, htarget, hm.feed, hm.motion, hm.cycle⟩,
    .motion hposition htarget hfeed haction⟩

/-- The centre words of an arc are among those that alike blocks share. -/
theorem arcResolve_alike (hb : b.Alike b') (start target : Position) (plane : Plane)
    (direction : Direction) (tolerance epsilon : Float) :
    Arc.resolve start target b' plane direction tolerance epsilon =
      Arc.resolve start target b plane direction tolerance epsilon := by
  have hoffset : ∀ axis : Axis, axis.offsetLetter ≠ 'G' ∧ axis.offsetLetter ≠ 'F' := by
    intro axis
    cases axis <;> decide
  have hhas : b'.has [plane.first.offsetLetter, plane.second.offsetLetter] =
      b.has [plane.first.offsetLetter, plane.second.offsetLetter] := by
    cases plane <;> exact hb.has (by decide) (by decide)
  have hR : b'.value 'R' = b.value 'R' := hb _ (by decide) (by decide)
  rw [Arc.resolve, Arc.resolve, hhas, hR, hb.valueOrZero (hoffset _).1 (hoffset _).2,
    hb.valueOrZero (hoffset _).1 (hoffset _).2]

theorem resolveArc_agrees {direction : Direction} (hb : b.Alike b') (hm : m.Agrees same m')
    (hposition : before'.position = before.position)
    (h : Modal.resolveArc settings before m b direction = .ok r) :
    ∃ r', Modal.resolveArc settings before' m' b' direction = .ok r' ∧ r.Agrees same r' := by
  simp only [Modal.resolveArc, bind_eq_ok, pure_eq_ok] at h ⊢
  obtain ⟨⟨arc, ws⟩, harc, rfl⟩ := h
  refine ⟨_, ⟨(arc, ws), ?_, rfl⟩, resolveStraight_agrees hb hm hposition ?_ hm.feed⟩
  · rw [hposition, target_agrees hb hm, hm.plane, arcResolve_alike hb, harc]
  · cases arc with
    | none => exact .linear
    | some a => exact .arc a

/-- Alike blocks that one code moves do the same in states that agree. -/
theorem resolveCode_agrees (hnone : same none none) (hb : b.Alike b') (hm : m.Agrees same m')
    (hposition : before'.position = before.position)
    (h : Modal.resolveCode settings before m code b = .ok r) :
    ∃ r', Modal.resolveCode settings before' m' code b' = .ok r' ∧ r.Agrees same r' := by
  unfold Modal.resolveCode at h ⊢
  split at h
  · rename_i hcycle
    cases h
    exact ⟨_, if_pos hcycle, resolveCycle_agrees hb hm hposition⟩
  rename_i hcycle
  rw [if_neg hcycle]
  split at h
  · rename_i hrapid
    cases h
    exact ⟨_, if_pos hrapid, resolveStraight_agrees hb hm hposition .rapid hnone⟩
  rename_i hrapid
  rw [if_neg hrapid]
  split at h
  · rename_i hlinear
    cases h
    exact ⟨_, if_pos hlinear, resolveStraight_agrees hb hm hposition .linear hm.feed⟩
  rename_i hlinear
  rw [if_neg hlinear]
  split at h
  · exact resolveArc_agrees hb hm hposition h
  split at h
  · rename_i hdwell
    cases h
    rw [if_pos hdwell]
    have hP : b'.value 'P' = b.value 'P' := hb _ (by decide) (by decide)
    have hX : b'.value 'X' = b.value 'X' := hb _ (by decide) (by decide)
    refine ⟨_, rfl, hm, .motion hposition hposition hm.feed ?_⟩
    rw [hP, hX]
    exact .dwell _
  rename_i hdwell
  rw [if_neg hdwell]
  split at h
  · rename_i kind _
    cases h
    exact ⟨_, rfl, resolveStraight_agrees hb hm hposition (.shape kind hb) hm.feed⟩
  · cases h
    exact ⟨_, rfl, hm, .none⟩

/-! ## Blocks in states that agree -/

theorem applyCode_agrees (hm : m.Agrees same m') (code : Code) :
    (m.applyCode code).Agrees same (m'.applyCode code) := by
  unfold Modal.applyCode
  split
  · exact { hm with positioning := rfl }
  split
  · exact { hm with positioning := rfl }
  split
  · exact { hm with plane := rfl }
  split
  · exact { hm with motion := rfl, cycle := rfl }
  split
  · exact { hm with motion := rfl, cycle := rfl }
  split
  · exact { hm with motion := rfl }
  · exact hm

theorem applyCodes_agrees (hm : m.Agrees same m') (codes : List Code) :
    (codes.foldl Modal.applyCode m).Agrees same (codes.foldl Modal.applyCode m') := by
  induction codes generalizing m m' with
  | nil => exact hm
  | cons code rest ih => exact ih (applyCode_agrees hm code)

theorem applyDominant_agrees (hm : m.Agrees same m') (b : Block) :
    (m.applyDominant b).Agrees same (m'.applyDominant b) := by
  unfold Modal.applyDominant
  split
  · split
    · exact { hm with motion := rfl, cycle := rfl }
    · exact hm
  · exact hm

theorem apply_agrees (hsame : Equivalence same) (hm : m.Agrees same m') (b : Block) :
    (m.apply b).Agrees same (m'.apply b) := by
  have hcodes := applyDominant_agrees (applyCodes_agrees hm (b.codes 'G')) b
  refine { hcodes with feed := ?_ }
  unfold Modal.apply
  cases b.value 'F' with
  | none => exact hcodes.feed
  | some x => exact hsame.refl _

theorem apply_of_words (h : b'.words = b.words) (m : Modal) : m.apply b' = m.apply b := by
  unfold Modal.apply Modal.applyDominant Block.dominant? Block.codes Block.value
  rw [h]

theorem dominant?_of_words (h : b'.words = b.words) : b'.dominant? = b.dominant? := by
  unfold Block.dominant? Block.codes
  rw [h]

/-- Alike blocks that the same code moves do the same if their codes leave states that agree. -/
theorem resolve_agrees_of_apply (hnone : same none none) (hb : b.Alike b')
    (hdominant : b'.dominant? = b.dominant?) (happly : (m.apply b).Agrees same (m'.apply b'))
    (h : m.resolve settings b = .ok r) :
    ∃ r', m'.resolve settings b' = .ok r' ∧ r.Agrees same r' := by
  have hposition : m'.position = m.position := by
    rw [← Modal.apply_position m' b', happly.position, Modal.apply_position]
  simp only [Modal.resolve, hdominant, hb.hasAxis] at h ⊢
  split at h
  · exact resolveCode_agrees hnone hb happly hposition h
  · split_ifs at h with haxis
    · cases h
      rw [if_pos haxis]
      exact ⟨_, rfl, happly, .none⟩
    rw [if_neg haxis, happly.cycle, happly.motion]
    split at h
    · cases h
      exact ⟨_, rfl, resolveCycle_agrees hb happly hposition⟩
    · exact resolveCode_agrees hnone hb happly hposition h
    · cases h
      exact ⟨_, rfl, resolveStraight_agrees hb { happly with motion := rfl, cycle := rfl }
        hposition .rapid hnone⟩

/-- A block does the same from states that agree, wherever it stands in the text. -/
theorem resolve_agrees (hsame : Equivalence same) (hwords : b'.words = b.words)
    (hm : m.Agrees same m') (h : m.resolve settings b = .ok r) :
    ∃ r', m'.resolve settings b' = .ok r' ∧ r.Agrees same r' := by
  refine resolve_agrees_of_apply (hsame.refl _) (Block.alike_of_words hwords)
    (dominant?_of_words hwords) ?_ h
  rw [apply_of_words hwords]
  exact apply_agrees hsame hm b

end PartProgram

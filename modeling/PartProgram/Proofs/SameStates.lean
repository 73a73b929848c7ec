import PartProgram.Proofs.Leftovers
import PartProgram.Proofs.SameNumbers
import PartProgram.Proofs.Tracing

/-!
# PartProgram.Proofs.SameStates

States that are the same by their numbers. A rule compares states by their numbers, so a state may
stand for another one in which a zero has the other sign. A block does the same from both: it moves
in the same way to the same place, and leaves states that are the same again. Only the angle at
which an arc begins or ends may be off by a full turn, since the sign of a zero decides on which end
of the negative axis a point lies.

* `resolve_same`: a block does the same from states that are the same.
* `stopAt_same`: so does a line, wherever it stands.
-/

namespace PartProgram

open Number

/-! ## The same numbers in place -/

section Optional

variable {α : Type} {R : α → α → Prop} {x y z : Option α}

theorem optionRel_refl (hR : ∀ a, R a a) (x : Option α) : Option.Rel R x x := by
  cases x with
  | none => exact .none
  | some a => exact .some (hR a)

theorem optionRel_symm (hR : ∀ {a b}, R a b → R b a) (h : Option.Rel R x y) :
    Option.Rel R y x := by
  cases h with
  | none => exact .none
  | some h => exact .some (hR h)

theorem optionRel_trans (hR : ∀ {a b c}, R a b → R b c → R a c) (h : Option.Rel R x y)
    (h' : Option.Rel R y z) : Option.Rel R x z := by
  cases h with
  | none => exact h'
  | some h => cases h' with
    | some h' => exact .some (hR h h')

variable [BEq α]

theorem optionRel_of_beq (hR : ∀ {a b : α}, (a == b) = true → R a b) (h : (x == y) = true) :
    Option.Rel R x y := by
  cases x with
  | none => cases y with
    | none => exact .none
    | some b => cases h
  | some a => cases y with
    | none => cases h
    | some b => exact .some (hR h)

/-- Comparisons do not see the difference between values if they do not see it where the values are
there. -/
theorem optionRel_beq {x' y' : Option α}
    (hR : ∀ {a a' b b' : α}, R a a' → R b b' → (a' == b') = (a == b)) (h : Option.Rel R x x')
    (h' : Option.Rel R y y') : (x' == y') = (x == y) := by
  cases h with
  | none => cases h' <;> rfl
  | some h => cases h' with
    | none => rfl
    | some h' => exact hR h h'

end Optional

theorem sameFeed_some {x y : Float} : SameFeed (some x) (some y) ↔ SameNumber x y := by
  rw [SameFeed, SameNumber, Option.some.injEq]
  rfl

/-- Optional numbers are the same where both are missing or both are there and the same. -/
theorem sameFeed_iff {a a' : Option Float} : SameFeed a a' ↔ Option.Rel SameNumber a a' := by
  constructor
  · intro h
    cases a with
    | none => cases a' with
      | none => exact .none
      | some x' => rcases h with h | h <;> cases h
    | some x => cases a' with
      | none => rcases h with h | h <;> cases h
      | some x' => exact .some (sameFeed_some.1 h)
  · intro h
    cases h with
    | none => exact .refl none
    | some h => exact sameFeed_some.2 h

theorem Point.Unmoved.symm {p q : Position} (h : p.Unmoved q) : q.Unmoved p :=
  fun axis => SameNumber.symm (h axis)

theorem Point.Unmoved.trans {p q r : Position} (h : p.Unmoved q) (h' : q.Unmoved r) :
    p.Unmoved r :=
  fun axis => SameNumber.trans (h axis) (h' axis)

structure PlanePoint.Same (p q : PlanePoint Float) : Prop where
  first : SameNumber p.first q.first
  second : SameNumber p.second q.second

structure ActiveCycle.Same (c c' : ActiveCycle) : Prop where
  code : c'.code = c.code
  z : SameNumber c.z c'.z
  r : SameNumber c.r c'.r
  peck : SameFeed c.peck c'.peck
  dwell : SameFeed c.dwell c'.dwell

structure Hole.Same (h h' : Hole Float) : Prop where
  x : SameNumber h.x h'.x
  y : SameNumber h.y h'.y
  z : SameNumber h.z h'.z
  r : SameNumber h.r h'.r
  peck : SameFeed h.peck h'.peck
  dwell : SameFeed h.dwell h'.dwell
  shift : h'.shift = h.shift

/-- The states have the same modes and the same numbers. -/
structure Modal.Same (m m' : Modal) : Prop where
  positioning : m'.positioning = m.positioning
  plane : m'.plane = m.plane
  position : m.position.Unmoved m'.position
  feed : SameFeed m.feed m'.feed
  motion : m'.motion = m.motion
  cycle : Option.Rel ActiveCycle.Same m.cycle m'.cycle

/-- The arcs lie on one circle and run one way. -/
structure Arc.Same (a a' : Arc) : Prop where
  centre : a.centre.Same a'.centre
  radius : a'.radius = a.radius
  endRadius : a'.endRadius = a.endRadius
  direction : a'.direction = a.direction
  plane : a'.plane = a.plane
  fullCircle : a'.fullCircle = a.fullCircle

inductive Action.Same : Action → Action → Prop where
  | rapid : Same .rapid .rapid
  | linear : Same .linear .linear
  | arc {a a' : Arc} (same : a.Same a') : Same (.arc a) (.arc a')
  | dwell (seconds : Option Float) : Same (.dwell seconds) (.dwell seconds)
  | shape (kind : ShapeKind) {b b' : Block} (words : b'.words = b.words) :
      Same (.shape kind b) (.shape kind b')

/-- The same is set going, from and to the same place. -/
inductive Effect.Same : Effect → Effect → Prop where
  | none : Same .none .none
  | motion {mo mo' : Motion} (start : mo.start.Unmoved mo'.start)
      (finish : mo.finish.Unmoved mo'.finish) (feed : SameFeed mo.feed mo'.feed)
      (action : mo.action.Same mo'.action) : Same (.motion mo) (.motion mo')
  | cycle {c c' : FixedCycle} (code : c'.code = c.code) (kind : c'.kind = c.kind)
      (hole : c.hole.Same c'.hole) : Same (.cycle c) (.cycle c')

structure Resolution.Same (r r' : Resolution) : Prop where
  state : r.state.Same r'.state
  effect : r.effect.Same r'.effect

/-- The line stands at both stops, is met in the same state and does the same. -/
structure Stop.Same (s s' : Stop) : Prop where
  raw : s'.raw = s.raw
  before : s.before.Same s'.before
  after : s.after.Same s'.after
  effect : s.effect.Same s'.effect

variable {settings : Settings} {m m' m'' before before' : Modal} {b b' : Block} {code : Code}
  {r : Resolution}

namespace ActiveCycle.Same

variable {c c' c'' : ActiveCycle}

theorem refl (c : ActiveCycle) : c.Same c := ⟨rfl, .refl _, .refl _, .refl _, .refl _⟩

theorem symm (h : c.Same c') : c'.Same c :=
  ⟨h.code.symm, h.z.symm, h.r.symm, h.peck.symm, h.dwell.symm⟩

theorem trans (h : c.Same c') (h' : c'.Same c'') : c.Same c'' :=
  ⟨h'.code.trans h.code, h.z.trans h'.z, h.r.trans h'.r, h.peck.trans h'.peck,
    h.dwell.trans h'.dwell⟩

/-- Cycles that compare equal are the same. -/
theorem of_beq (h : (c == c') = true) : c.Same c' := by
  have hparts : (c.code == c'.code && (c.z == c'.z && (c.r == c'.r && (c.peck == c'.peck &&
      c.dwell == c'.dwell)))) = true := h
  simp only [Bool.and_eq_true, beq_iff_eq] at hparts
  obtain ⟨hcode, hz, hr, hpeck, hdwell⟩ := hparts
  exact ⟨hcode.symm, .inr hz, .inr hr, .inr hpeck, .inr hdwell⟩

end ActiveCycle.Same

namespace Modal.Same

theorem refl (m : Modal) : m.Same m :=
  ⟨rfl, rfl, .refl _, .refl _, rfl, optionRel_refl .refl _⟩

theorem symm (h : m.Same m') : m'.Same m :=
  ⟨h.positioning.symm, h.plane.symm, h.position.symm, h.feed.symm, h.motion.symm,
    optionRel_symm .symm h.cycle⟩

theorem trans (h : m.Same m') (h' : m'.Same m'') : m.Same m'' :=
  ⟨h'.positioning.trans h.positioning, h'.plane.trans h.plane, h.position.trans h'.position,
    h.feed.trans h'.feed, h'.motion.trans h.motion, optionRel_trans .trans h.cycle h'.cycle⟩

end Modal.Same

/-! ## Where a block leads -/

theorem target_same (hwords : b'.words = b.words) (hm : m.Same m') :
    (m.target b).Unmoved (m'.target b') := by
  intro axis
  have hvalue : b'.value axis.letter = b.value axis.letter := by
    rw [Block.value, Block.value, hwords]
  rw [Modal.target, Modal.target, Point.get_tabulate, Point.get_tabulate, Modal.targetOn,
    Modal.targetOn, hvalue, hm.positioning]
  cases b.value axis.letter with
  | none => exact hm.position axis
  | some value => cases m.positioning with
    | absolute => exact SameNumber.refl value
    | incremental => exact SameNumber.add (hm.position axis) (.refl value)

theorem SameFeed.or {a a' : Option Float} (x? : Option Float) (h : SameFeed a a') :
    SameFeed (x? <|> a) (x? <|> a') := by
  cases x? with
  | none => exact h
  | some x => exact .refl _

theorem SameFeed.getD {a a' : Option Float} {x x' : Float} (h : SameFeed a a')
    (hx : SameNumber x x') : SameNumber (a.getD x) (a'.getD x') := by
  cases sameFeed_iff.1 h with
  | none => exact hx
  | some hsome => exact hsome

/-- A peck increment is dropped on either side or on both. -/
theorem SameFeed.filter_positive {a a' : Option Float} (h : SameFeed a a') :
    SameFeed (a.filter fun q => !decide (q ≤ 0.0)) (a'.filter fun q => !decide (q ≤ 0.0)) := by
  cases sameFeed_iff.1 h with
  | none => exact .refl none
  | some hsome =>
    simp only [Option.filter, hsome.le_iff 0.0]
    split
    · exact sameFeed_some.2 hsome
    · exact .refl none

theorem resolveCycle_same (hwords : b'.words = b.words) (hm : m.Same m')
    (hposition : before.position.Unmoved before'.position) :
    (Modal.resolveCycle settings before m code b).Same
      (Modal.resolveCycle settings before' m' code b') := by
  have hvalue : ∀ letter, b'.value letter = b.value letter := fun letter => by
    rw [Block.value, Block.value, hwords]
  have hshift : Modal.shift? b' code settings = Modal.shift? b code settings := by
    have hb := Block.alike_of_words hwords
    rw [Modal.shift?, Modal.shift?, hb.has (by decide) (by decide),
      hb.valueOrZero (by decide) (by decide), hb.valueOrZero (by decide) (by decide)]
  have htarget := target_same hwords hm
  have hactive : Option.Rel ActiveCycle.Same (m.cycle.filter (·.code == code))
      (m'.cycle.filter (·.code == code)) := by
    have hcycle := hm.cycle
    generalize m.cycle = c at hcycle ⊢
    generalize m'.cycle = c' at hcycle ⊢
    cases hcycle with
    | none => exact .none
    | @some c c' hc =>
      simp only [Option.filter, hc.code]
      split
      · exact .some hc
      · exact .none
  simp only [Modal.resolveCycle, hvalue, hshift]
  generalize m.cycle.filter (·.code == code) = active at hactive ⊢
  generalize m'.cycle.filter (·.code == code) = active' at hactive ⊢
  obtain ⟨hr, hz, hpeck, hdwell⟩ : SameFeed (active.map ActiveCycle.r) (active'.map ActiveCycle.r) ∧
      SameFeed (active.map ActiveCycle.z) (active'.map ActiveCycle.z) ∧
      SameFeed (active.bind ActiveCycle.peck) (active'.bind ActiveCycle.peck) ∧
      SameFeed (active.bind ActiveCycle.dwell) (active'.bind ActiveCycle.dwell) := by
    cases hactive with
    | none => exact ⟨.refl _, .refl _, .refl _, .refl _⟩
    | some hc => exact ⟨sameFeed_some.2 hc.r, sameFeed_some.2 hc.z, hc.peck, hc.dwell⟩
  have hretract := (hr.or (b.value 'R')).getD (hposition .z)
  have hdepth := (hz.or (b.value 'Z')).getD hretract
  have hpeck := (hpeck.or (b.value 'Q')).filter_positive
  have hdwell := hdwell.or (b.value 'P')
  refine ⟨⟨hm.positioning, hm.plane, fun axis => ?_, hm.feed, rfl, .some ⟨rfl, hdepth, hretract,
    hpeck, hdwell⟩⟩, .cycle rfl rfl ⟨htarget .x, htarget .y, hdepth, hretract, hpeck, hdwell, rfl⟩⟩
  cases axis with
  | x => exact htarget .x
  | y => exact htarget .y
  | z => exact hretract

theorem resolveStraight_same {action action' : Action} {feed feed' : Option Float}
    {ws ws' : List Warning} (hwords : b'.words = b.words) (hm : m.Same m')
    (hposition : before.position.Unmoved before'.position) (haction : action.Same action')
    (hfeed : SameFeed feed feed') :
    (Modal.resolveStraight before m b action feed ws).Same
      (Modal.resolveStraight before' m' b' action' feed' ws') := by
  have htarget := target_same hwords hm
  exact ⟨⟨hm.positioning, hm.plane, htarget, hm.feed, hm.motion, hm.cycle⟩,
    .motion hposition htarget hfeed haction⟩

/-! ## Arcs -/

section Arcs

variable {s s' e e' : PlanePoint Float} {radius epsilon : Float} {direction : Direction}

theorem project_same {p q : Position} (h : p.Unmoved q) (plane : Plane) :
    (plane.project p).Same (plane.project q) := ⟨h _, h _⟩

theorem distance_same (hs : s.Same s') (he : e.Same e') :
    hypot (e'.first - s'.first) (e'.second - s'.second) =
      hypot (e.first - s.first) (e.second - s.second) :=
  (SameNumber.hypot (he.first.sub hs.first) (he.second.sub hs.second)).symm

theorem around_same {centre centre' : PlanePoint Float} (plane : Plane) (fullCircle : Bool)
    (hcentre : centre.Same centre') (he : e.Same e') :
    (Arc.around centre radius s e plane direction fullCircle).1.Same
      (Arc.around centre' radius s' e' plane direction fullCircle).1 := by
  have hend := distance_same hcentre he
  refine ⟨hcentre, rfl, ?_, rfl, rfl, rfl⟩
  simp only [Arc.around, hend]

theorem divide_same {a a' c q : Float} (ha : SameNumber a a') (h : Scalar.divide a c = .ok q) :
    ∃ q', Scalar.divide a' c = .ok q' ∧ SameNumber q q' := by
  simp only [Scalar.divide] at h ⊢
  split at h
  · cases h
  · rename_i hc
    cases h
    exact ⟨a' / c, if_neg hc, ha.div c⟩

theorem radiusCentre_same {found : RadiusCentre Float} (hs : s.Same s') (he : e.Same e')
    (h : radiusCentre s e radius direction epsilon = .ok found) :
    ∃ found', radiusCentre s' e' radius direction epsilon = .ok found' ∧
      found.centre.Same found'.centre ∧ found'.radius = found.radius := by
  have hchord : Scalar.hypot (e'.first - s'.first) (e'.second - s'.second) =
      Scalar.hypot (e.first - s.first) (e.second - s.second) := distance_same hs he
  simp only [radiusCentre, bind_eq_ok, pure_eq_ok] at h
  obtain ⟨square, hsquare, across, hacross, along, halong, rfl⟩ := h
  obtain ⟨across', hacross', hsame⟩ :=
    divide_same (SameNumber.mul (.refl _) (he.second.sub hs.second)) hacross
  obtain ⟨along', halong', hsame'⟩ :=
    divide_same (SameNumber.mul (.refl _) (he.first.sub hs.first)) halong
  simp only [radiusCentre, hchord, bind_eq_ok, pure_eq_ok]
  refine ⟨_, ⟨square, hsquare, across', hacross', along', halong', rfl⟩, ⟨?_, ?_⟩, rfl⟩
  · exact ((hs.first.add he.first).div _).sub hsame
  · exact ((hs.second.add he.second).div _).add hsame'

theorem arcResolve_same {start start' target target' : Position} {plane : Plane} {tolerance : Float}
    {found : Option Arc × List Warning} (hwords : b'.words = b.words) (hs : start.Unmoved start')
    (ht : target.Unmoved target')
    (h : Arc.resolve start target b plane direction tolerance epsilon = .ok found) :
    ∃ found', Arc.resolve start' target' b' plane direction tolerance epsilon = .ok found' ∧
      Option.Rel Arc.Same found.1 found'.1 := by
  have hs := project_same hs plane
  have ht := project_same ht plane
  rw [arcResolve_alike (Block.alike_of_words hwords)]
  simp only [Arc.resolve, distance_same hs ht] at h ⊢
  split at h
  · rename_i hoffset
    rw [if_pos hoffset]
    split at h
    · rename_i hzero
      cases h
      rw [if_pos hzero]
      exact ⟨_, rfl, .none⟩
    · rename_i hzero
      cases h
      rw [if_neg hzero]
      refine ⟨_, rfl, .some (around_same plane _ ⟨?_, ?_⟩ ht)⟩
      · exact hs.first.add (.refl _)
      · exact hs.second.add (.refl _)
  · rename_i hoffset
    rw [if_neg hoffset]
    split at h
    · cases h
      exact ⟨_, rfl, .none⟩
    · split at h
      · rename_i hends
        cases h
        rw [if_pos hends]
        exact ⟨_, rfl, .none⟩
      · rename_i radius _ hends
        rw [if_neg hends]
        simp only [bind_eq_ok, pure_eq_ok, liftM_eq_ok] at h ⊢
        obtain ⟨centre, hcentre, rfl⟩ := h
        obtain ⟨centre', hcentre', hsame, hradius⟩ := radiusCentre_same hs ht hcentre
        refine ⟨_, ⟨centre', hcentre', rfl⟩, .some ?_⟩
        rw [hradius]
        exact around_same plane false hsame ht

end Arcs

theorem resolveArc_same {direction : Direction} (hwords : b'.words = b.words) (hm : m.Same m')
    (hposition : before.position.Unmoved before'.position)
    (h : Modal.resolveArc settings before m b direction = .ok r) :
    ∃ r', Modal.resolveArc settings before' m' b' direction = .ok r' ∧ r.Same r' := by
  simp only [Modal.resolveArc, bind_eq_ok, pure_eq_ok] at h ⊢
  obtain ⟨⟨arc, ws⟩, harc, rfl⟩ := h
  obtain ⟨⟨arc', ws'⟩, harc', hsame⟩ :=
    arcResolve_same hwords hposition (target_same hwords hm) harc
  refine ⟨_, ⟨(arc', ws'), ?_, rfl⟩, resolveStraight_same hwords hm hposition ?_ hm.feed⟩
  · rw [hm.plane]
    exact harc'
  · cases hsame with
    | none => exact .linear
    | some ha => exact .arc ha

/-- A block that one code moves does the same from states that are the same. -/
theorem resolveCode_same (hwords : b'.words = b.words) (hm : m.Same m')
    (hposition : before.position.Unmoved before'.position)
    (h : Modal.resolveCode settings before m code b = .ok r) :
    ∃ r', Modal.resolveCode settings before' m' code b' = .ok r' ∧ r.Same r' := by
  unfold Modal.resolveCode at h ⊢
  split at h
  · rename_i hcycle
    cases h
    exact ⟨_, if_pos hcycle, resolveCycle_same hwords hm hposition⟩
  rename_i hcycle
  rw [if_neg hcycle]
  split at h
  · rename_i hrapid
    cases h
    exact ⟨_, if_pos hrapid, resolveStraight_same hwords hm hposition .rapid (.refl none)⟩
  rename_i hrapid
  rw [if_neg hrapid]
  split at h
  · rename_i hlinear
    cases h
    exact ⟨_, if_pos hlinear, resolveStraight_same hwords hm hposition .linear hm.feed⟩
  rename_i hlinear
  rw [if_neg hlinear]
  split at h
  · exact resolveArc_same hwords hm hposition h
  split at h
  · rename_i hdwell
    cases h
    rw [if_pos hdwell, Block.value, Block.value, Block.value, Block.value, hwords]
    exact ⟨_, rfl, hm, .motion hposition hposition hm.feed (.dwell _)⟩
  rename_i hdwell
  rw [if_neg hdwell]
  split at h
  · rename_i kind _
    cases h
    exact ⟨_, rfl, resolveStraight_same hwords hm hposition (.shape kind hwords) hm.feed⟩
  · cases h
    exact ⟨_, rfl, hm, .none⟩

/-! ## Blocks in states that are the same -/

theorem applyCode_same (hm : m.Same m') (code : Code) :
    (m.applyCode code).Same (m'.applyCode code) := by
  unfold Modal.applyCode
  split
  · exact { hm with positioning := rfl }
  split
  · exact { hm with positioning := rfl }
  split
  · exact { hm with plane := rfl }
  split
  · exact { hm with motion := rfl, cycle := .none }
  split
  · exact { hm with motion := rfl, cycle := .none }
  split
  · exact { hm with motion := rfl }
  · exact hm

theorem applyCodes_same (hm : m.Same m') (codes : List Code) :
    (codes.foldl Modal.applyCode m).Same (codes.foldl Modal.applyCode m') := by
  induction codes generalizing m m' with
  | nil => exact hm
  | cons code rest ih => exact ih (applyCode_same hm code)

theorem applyDominant_same (hm : m.Same m') (b : Block) :
    (m.applyDominant b).Same (m'.applyDominant b) := by
  unfold Modal.applyDominant
  split
  · split
    · exact { hm with motion := rfl, cycle := .none }
    · exact hm
  · exact hm

theorem apply_same (hm : m.Same m') (b : Block) : (m.apply b).Same (m'.apply b) := by
  have hcodes := applyDominant_same (applyCodes_same hm (b.codes 'G')) b
  exact { hcodes with feed := hcodes.feed.or (b.value 'F') }

/-- A block does the same from states that are the same, wherever it stands in the text. -/
theorem resolve_same (hwords : b'.words = b.words) (hm : m.Same m')
    (h : m.resolve settings b = .ok r) :
    ∃ r', m'.resolve settings b' = .ok r' ∧ r.Same r' := by
  have happly : (m.apply b).Same (m'.apply b') := by
    rw [apply_of_words hwords]
    exact apply_same hm b
  have hposition := hm.position
  have haxis : b'.hasAxis = b.hasAxis := (Block.alike_of_words hwords).hasAxis
  simp only [Modal.resolve, dominant?_of_words hwords, haxis] at h ⊢
  split at h
  · exact resolveCode_same hwords happly hposition h
  split_ifs at h with hnone
  · cases h
    rw [if_pos hnone]
    exact ⟨_, rfl, happly, .none⟩
  rw [if_neg hnone]
  have hcycle := happly.cycle
  rw [happly.motion]
  generalize (m.apply b).cycle = c at h hcycle
  generalize (m'.apply b').cycle = c' at hcycle ⊢
  cases hcycle with
  | some hc =>
    cases h
    refine ⟨_, rfl, ?_⟩
    rw [hc.code]
    exact resolveCycle_same hwords happly hposition
  | none =>
    cases hmotion : (m.apply b).motion with
    | some code =>
      rw [hmotion] at h
      exact resolveCode_same hwords happly hposition h
    | none =>
      rw [hmotion] at h
      cases h
      exact ⟨_, rfl, resolveStraight_same hwords { happly with motion := rfl, cycle := .none }
        hposition .rapid (.refl none)⟩

/-- What stands on a line does not depend on where the line stands. -/
theorem Block.read?_at {raw : String} {n : Int} (n' : Int) :
    read? raw n' = (read? raw n).map fun b => { b with line := n' } := by
  simp only [read?, Option.map_map]
  rfl

/-- A line does the same from states that are the same, wherever it stands in the text. -/
theorem stopAt_same {n : Int} {raw : String} {s : Stop} (n' : Int) (hm : m.Same m')
    (h : m.stopAt settings n raw = .ok s) :
    ∃ s', m'.stopAt settings n' raw = .ok s' ∧ s.Same s' := by
  rw [Modal.stopAt] at h ⊢
  split at h
  · rename_i hread
    cases h
    rw [Block.read?_at (n := n) n', hread]
    exact ⟨_, rfl, rfl, hm, hm, .none⟩
  · rename_i b hread
    simp only [bind_eq_ok, pure_eq_ok] at h
    obtain ⟨r, hr, rfl⟩ := h
    have hwords : { b with line := n' }.words = b.words := rfl
    obtain ⟨r', hr', hsame⟩ := resolve_same hwords hm hr
    rw [Block.read?_at (n := n) n', hread]
    simp only [Option.map_some, bind_eq_ok, pure_eq_ok]
    exact ⟨_, ⟨r', hr', rfl⟩, rfl, hm, hsame.state, hsame.effect⟩

end PartProgram

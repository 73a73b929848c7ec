import PartProgram.Proofs.ArcWords
import PartProgram.Proofs.Chords
import PartProgram.Proofs.SameStates

/-!
# PartProgram.Proofs.RestoredMode

The way of moving that an arc takes away. A chain of feed moves leaves the code of feed moves in
force, the arc that is written for it leaves its own. Until the next feed move says its code again,
or another code makes that needless, the state after the lines that were written differs from the
state after the program in this one mode. No line in between moves by it.

* `resolve_inMode`, `resolve_inMode_of_sets`: what a block does in another mode.
* `stopAt_lags`: what becomes of a line that stays.
* `stopAt_arc`: what an arc does for its chain.
* `replaceChains_does`: a program with arcs.
-/

namespace PartProgram

open Number

variable {settings : Settings} {m m' : Modal} {b b' : Block} {code : Code} {r : Resolution}
  {s : Stop} {n n' : Int} {raw : String}

/-! ## Blocks in another mode -/

/-- Codes after which it does not matter how the tool moved before. -/
def Code.modeSetting : List Code := "G80" :: (Code.motionModes ++ Code.cycles)

/-- No code of the block says how the tool is to move from now on. -/
def Block.KeepsMode (b : Block) : Prop := ∀ c ∈ b.codes 'G', c ∉ Code.modeSetting

/-- The state with another way of moving. -/
def Modal.inMode (m : Modal) (mode : Option Code) : Modal := { m with motion := mode }

def Resolution.inMode (r : Resolution) (mode : Option Code) : Resolution :=
  { r with state := r.state.inMode mode }

variable (mode : Option Code)

theorem applyCode_inMode_of_mem (hcode : code ∈ Code.modeSetting) (m : Modal) :
    (m.inMode mode).applyCode code = m.applyCode code := by
  rcases List.mem_cons.1 hcode with rfl | hcode
  · rfl
  rcases List.mem_append.1 hcode with hmode | hcycle
  · rw [applyCode_motionMode hmode, applyCode_motionMode hmode]
    rfl
  · simp only [Code.cycles, List.mem_cons, List.not_mem_nil, or_false] at hcycle
    rcases hcycle with rfl | rfl | rfl | rfl | rfl | rfl | rfl | rfl | rfl | rfl | rfl <;> rfl

theorem applyCode_inMode (hcode : code ∉ Code.modeSetting) (m : Modal) :
    (m.inMode mode).applyCode code = (m.applyCode code).inMode mode ∧
      (m.applyCode code).motion = m.motion ∧ (m.applyCode code).cycle = m.cycle := by
  simp only [Code.modeSetting, List.mem_cons, List.mem_append, not_or] at hcode
  obtain ⟨hend, hmode, hcycle⟩ := hcode
  unfold Modal.applyCode
  split
  · exact ⟨rfl, rfl, rfl⟩
  split
  · exact ⟨rfl, rfl, rfl⟩
  split
  · exact ⟨rfl, rfl, rfl⟩
  · exact ⟨rfl, rfl, rfl⟩

theorem applyCodes_inMode_of_mem {codes : List Code} (h : ∃ c ∈ codes, c ∈ Code.modeSetting)
    (m : Modal) :
    codes.foldl Modal.applyCode (m.inMode mode) = codes.foldl Modal.applyCode m := by
  induction codes generalizing m with
  | nil =>
    obtain ⟨c, hc, -⟩ := h
    cases hc
  | cons c rest ih =>
    rw [List.foldl_cons, List.foldl_cons]
    by_cases hc : c ∈ Code.modeSetting
    · rw [applyCode_inMode_of_mem mode hc]
    · obtain ⟨d, hd, hset⟩ := h
      have hrest : d ∈ rest := (List.mem_cons.1 hd).resolve_left fun heq => hc (heq ▸ hset)
      rw [(applyCode_inMode mode hc m).1, ih ⟨d, hrest, hset⟩]

theorem applyCodes_inMode {codes : List Code} (h : ∀ c ∈ codes, c ∉ Code.modeSetting) (m : Modal) :
    codes.foldl Modal.applyCode (m.inMode mode) = (codes.foldl Modal.applyCode m).inMode mode ∧
      (codes.foldl Modal.applyCode m).motion = m.motion ∧
      (codes.foldl Modal.applyCode m).cycle = m.cycle := by
  induction codes generalizing m with
  | nil => exact ⟨rfl, rfl, rfl⟩
  | cons c rest ih =>
    obtain ⟨hcode, hmotion, hcycle⟩ := applyCode_inMode mode (h c (.head _)) m
    obtain ⟨hcodes, hmotion', hcycle'⟩ := ih (fun c hc => h c (.tail _ hc)) (m.applyCode c)
    rw [List.foldl_cons, List.foldl_cons, hcode, hcodes, hmotion', hcycle', hmotion, hcycle]
    exact ⟨rfl, rfl, rfl⟩

/-- A block that sets the mode leaves nothing of the one before. -/
theorem apply_inMode_of_sets (h : ¬ b.KeepsMode) (m : Modal) :
    (m.inMode mode).apply b = m.apply b := by
  have hset : ∃ c ∈ b.codes 'G', c ∈ Code.modeSetting := by
    simpa [Block.KeepsMode] using h
  rw [Modal.apply, applyCodes_inMode_of_mem mode hset]
  rfl

theorem Block.KeepsMode.dominant (h : b.KeepsMode) :
    ∀ c, b.dominant? = some c → c ∉ Code.modeSetting := fun c hc =>
  h c (List.contains_iff_mem.1 (List.find?_some hc))

/-- Any other block leaves motion mode and cycle as they are. -/
theorem apply_inMode (h : b.KeepsMode) (m : Modal) :
    (m.inMode mode).apply b = (m.apply b).inMode mode ∧ (m.apply b).motion = m.motion ∧
      (m.apply b).cycle = m.cycle := by
  have hdominant : ∀ m : Modal, m.applyDominant b = m := by
    intro m
    unfold Modal.applyDominant
    split
    · rename_i c hc
      have hmode : c ∉ Code.motionModes := fun hmem =>
        h.dominant c hc (.tail _ (List.mem_append_left _ hmem))
      rw [if_neg hmode]
    · rfl
  obtain ⟨hcodes, hmotion, hcycle⟩ := applyCodes_inMode mode h m
  rw [Modal.apply, Modal.apply, hdominant, hdominant, hcodes]
  exact ⟨rfl, hmotion, hcycle⟩

theorem resolveCode_inMode (hcode : code ∉ Code.cycles) (before m : Modal) (b : Block) :
    Modal.resolveCode settings (before.inMode mode) (m.inMode mode) code b =
      (Modal.resolveCode settings before m code b).map (·.inMode mode) := by
  unfold Modal.resolveCode
  rw [if_neg hcode, if_neg hcode]
  split
  · rfl
  split
  · rfl
  split
  · rename_i direction _
    have htarget : (m.inMode mode).target b = m.target b := rfl
    simp only [Modal.resolveArc, htarget]
    show (Arc.resolve before.position (m.target b) b m.plane direction _ _ >>= _) = _
    cases Arc.resolve before.position (m.target b) b m.plane direction
      settings.fullCircleTolerance settings.radiusEpsilon <;> rfl
  split
  · rfl
  split <;> rfl

/-- A block that sets the mode does the same in any mode. -/
theorem resolve_inMode_of_sets (h : ¬ b.KeepsMode) (m : Modal) :
    (m.inMode mode).resolve settings b = m.resolve settings b := by
  rw [Modal.resolve, apply_inMode_of_sets mode h]
  rfl

/-- A block that does not, and that does not move by the mode either, leaves the mode it is met
in. -/
theorem resolve_inMode (h : b.KeepsMode) (hstill : b.dominant? = none → b.hasAxis = false)
    (m : Modal) :
    (m.inMode mode).resolve settings b = (m.resolve settings b).map (·.inMode mode) := by
  rw [Modal.resolve, Modal.resolve, (apply_inMode mode h m).1]
  cases hdominant : b.dominant? with
  | none =>
    simp only [hstill hdominant]
    rfl
  | some c =>
    have hcycle : c ∉ Code.cycles := fun hmem =>
      h.dominant c hdominant (.tail _ (List.mem_append_right _ hmem))
    exact resolveCode_inMode mode hcycle m (m.apply b) b

theorem stopAt_of_resolve (hread : Block.read? raw n = some b)
    (hr : m.resolve settings b = .ok r) :
    m.stopAt settings n raw = .ok ⟨raw, m, some (b, r)⟩ := by
  rw [Modal.stopAt, hread]
  simp only [hr]
  rfl

theorem walkFrom_cons {ls : Lines} {stops : List Stop} (hs : m.stopAt settings n raw = .ok s)
    (hrest : s.after.walkFrom settings (n + 1) ls = .ok stops) :
    m.walkFrom settings n (raw :: ls) = .ok (s :: stops) := by
  simp only [Modal.walkFrom, bind_eq_ok, pure_eq_ok]
  exact ⟨s, hs, stops, hrest, rfl⟩

namespace Rule

/-! ## Lines that stay -/

/-- The code of a feed move, as a word. -/
def feedModeWord : Word := ⟨'G', "1"⟩

theorem codes_feedMode (hwords : b'.words = feedModeWord :: b.words) :
    b'.codes 'G' = "G1" :: b.codes 'G' := by
  have hcode : feedModeWord.code = "G1" := by decide
  rw [← hcode]
  exact Block.codes_of_first hwords

/-- The line with the code in front is read with it. -/
theorem read?_withFeedMode (hread : Block.read? raw n = some b) :
    ∃ b', Block.read? (b.withFirst feedModeWord).render n = some b' ∧
      b'.words = feedModeWord :: b.words := by
  have hwords : HoldsWords (b.withFirst feedModeWord).render (feedModeWord :: b.words) :=
    (wellFormed_withFeedMode (Block.wellFormed_of_read? hread)).holdsWords
  have hwords := hwords n
  cases hread' : Block.read? (b.withFirst feedModeWord).render n with
  | none =>
    rw [hread'] at hwords
    cases hwords
  | some b' =>
    rw [hread'] at hwords
    exact ⟨b', rfl, hwords⟩

section

variable (hmotion : m.motion = some "G1") (hcycle : m.cycle = none) (hkeeps : b.KeepsMode)

include hmotion hcycle hkeeps

/-- Where feed moves are in force, a block that names an axis and has no code that moves it is
one. -/
theorem resolve_feedMode (hno : b.dominant? = none) (haxis : b.hasAxis = true) :
    m.resolve settings b =
      .ok (Modal.resolveStraight m (m.apply b) b .linear (m.apply b).feed []) := by
  obtain ⟨-, hsame, hnone⟩ := apply_inMode none hkeeps m
  rw [hmotion] at hsame
  rw [hcycle] at hnone
  simp only [Modal.resolve, hno, haxis, hsame, hnone]
  rfl

/-- The code of a feed move in front brings the mode back in which the block was met. -/
theorem apply_withFeedMode (hno : b.dominant? = none)
    (hwords : b'.words = feedModeWord :: b.words) :
    b'.dominant? = some "G1" ∧ (m.inMode mode).apply b' = m.apply b := by
  obtain ⟨-, hsame, hnone⟩ := applyCodes_inMode none hkeeps m
  have hcodes := codes_feedMode hwords
  have hdominant : b'.dominant? = some "G1" := by
    have hfirst : "G1" ∈ b'.codes 'G' := by
      rw [hcodes]
      exact .head _
    obtain ⟨d, hd, hdominant⟩ := dominant_of_motionMode hfirst (by decide)
    have hmem := List.contains_iff_mem.1 (List.find?_some hdominant)
    rw [hcodes] at hmem
    rcases List.mem_cons.1 hmem with rfl | hmem
    · exact hdominant
    · exact absurd (.tail _ (List.mem_append_left _ hd)) (hkeeps d hmem)
  have hfirst : (m.inMode mode).applyCode "G1" = m := by
    rw [applyCode_motionMode (by decide)]
    show { m with motion := some "G1", cycle := none } = m
    rw [← hmotion, ← hcycle]
  have hlast : ((b.codes 'G').foldl Modal.applyCode m).applyDominant b' =
      (b.codes 'G').foldl Modal.applyCode m := by
    rw [Modal.applyDominant, hdominant]
    show { (b.codes 'G').foldl Modal.applyCode m with motion := some "G1", cycle := none } = _
    rw [← hmotion, ← hcycle, ← hsame, ← hnone]
  refine ⟨hdominant, ?_⟩
  rw [Modal.apply, hcodes, List.foldl_cons, hfirst, hlast, Block.value_of_first hwords (by decide),
    Modal.apply, Modal.applyDominant, hno]

/-- With the code of a feed move in front it is the same one in any mode. -/
theorem resolve_withFeedMode (hno : b.dominant? = none) (haxis : b.hasAxis = true)
    (hwords : b'.words = feedModeWord :: b.words) (hline : b'.line = b.line) :
    (m.inMode mode).resolve settings b' = m.resolve settings b := by
  obtain ⟨hdominant, happly⟩ := apply_withFeedMode mode hmotion hcycle hkeeps hno hwords
  have htarget : (m.apply b).target b' = (m.apply b).target b := by
    refine congrArg Point.tabulate (funext fun axis => ?_)
    rw [Modal.targetOn, Modal.targetOn, Block.value_of_first hwords (by cases axis <;> decide)]
  rw [resolve_feedMode hmotion hcycle hkeeps hno haxis, Modal.resolve, happly, hdominant]
  show Except.ok (Modal.resolveStraight _ _ b' _ _ _) = _
  rw [Modal.resolveStraight, Modal.resolveStraight, htarget, hline]
  rfl

end

/-- A block that keeps the mode begins no cycle, and after it feed moves are in force as before. -/
theorem resolve_keepsMode (hmotion : m.motion = some "G1") (hcycle : m.cycle = none)
    (hkeeps : b.KeepsMode) (hr : m.resolve settings b = .ok r) :
    r.cycle? = none ∧ r.state.motion = some "G1" ∧ r.state.cycle = none := by
  obtain ⟨-, hsame, hnone⟩ := apply_inMode none hkeeps m
  rw [hmotion] at hsame
  rw [hcycle] at hnone
  have hcode : ∀ {c}, Modal.resolveCode settings m (m.apply b) c b = .ok r → c ∉ Code.cycles →
      r.cycle? = none ∧ r.state.motion = some "G1" ∧ r.state.cycle = none := by
    intro c hc hno
    obtain ⟨hmode, hend⟩ := resolveCode_modes hno hc
    refine ⟨?_, hmode.trans hsame, hend.trans hnone⟩
    cases resolveCode_cases hc with
    | cycle isCycle => exact absurd isCycle hno
    | _ => rfl
  cases resolve_cases hr with
  | code dominant found =>
    exact hcode found fun hmem =>
      hkeeps.dominant _ dominant (.tail _ (List.mem_append_right _ hmem))
  | modal => exact ⟨rfl, hsame, hnone⟩
  | cycle _ _ active =>
    rw [hnone] at active
    cases active
  | mode _ _ _ motion found =>
    rw [hsame] at motion
    cases motion
    exact hcode found (by decide)
  | first _ _ _ motion =>
    rw [hsame] at motion
    cases motion

/-- A block that sets the mode to a cycle begins one, unless a motion mode moves it. -/
theorem cycle?_of_sets (hsets : ¬ b.KeepsMode)
    (hexplicit : (b.codes 'G').any ["G0", "G1", "G2", "G3", "G80"].contains = false)
    (hr : m.resolve settings b = .ok r) : r.cycle?.isSome = true := by
  obtain ⟨c, hc, hset⟩ : ∃ c ∈ b.codes 'G', c ∈ Code.modeSetting := by
    simpa [Block.KeepsMode] using hsets
  have hother : ∀ c ∈ b.codes 'G', c ∉ ["G0", "G1", "G2", "G3", "G80"] := by
    simpa [List.any_eq_false] using hexplicit
  have hsplit : ∀ c ∈ Code.modeSetting, c ∉ ["G0", "G1", "G2", "G3", "G80"] → c ∈ Code.cycles := by
    decide
  have hmodes : ∀ c ∈ Code.motionModes, c ∈ ["G0", "G1", "G2", "G3", "G80"] := by decide
  obtain ⟨d, hd, hdominant⟩ := dominant_of_cycle hc (hsplit c hset (hother c hc))
    fun c hc hmode => hother c hc (hmodes c hmode)
  rw [Modal.resolve, hdominant] at hr
  simp only [Modal.resolveCode, if_pos hd] at hr
  cases hr
  rfl

section

variable (hfound : s.found = some (b, r))

include hfound

theorem restoreFeedMode_of_sets (hsets : ¬ b.KeepsMode) (hr : m.resolve settings b = .ok r) :
    restoreFeedMode true s = (s.raw, false) := by
  have hdone : ((b.codes 'G').any ["G0", "G1", "G2", "G3", "G80"].contains ||
      r.cycle?.isSome) = true := by
    cases hexplicit : (b.codes 'G').any ["G0", "G1", "G2", "G3", "G80"].contains with
    | true => rfl
    | false => exact cycle?_of_sets hsets hexplicit hr
  simp only [restoreFeedMode, hfound, hdone, if_true]

variable (hmotion : m.motion = some "G1") (hcycle : m.cycle = none) (hkeeps : b.KeepsMode)
  (hr : m.resolve settings b = .ok r)

include hmotion hcycle hkeeps hr

theorem restoreFeedMode_of_keepsMode : restoreFeedMode true s =
    if b.dominant? = none ∧ b.hasAxis = true then ((b.withFirst feedModeWord).render, false)
    else (s.raw, true) := by
  have hset : ∀ c ∈ ["G0", "G1", "G2", "G3", "G80"], c ∈ Code.modeSetting := by decide
  have hexplicit : (b.codes 'G').any ["G0", "G1", "G2", "G3", "G80"].contains = false := by
    rw [List.any_eq_false]
    intro c hc hmem
    exact hkeeps c hc (hset c (List.contains_iff_mem.1 hmem))
  have hlinear : (r.isLinear && b.dominant?.isNone) =
      decide (b.dominant? = none ∧ b.hasAxis = true) := by
    cases hdominant : b.dominant? with
    | some c => simp
    | none =>
      cases haxis : b.hasAxis with
      | true =>
        rw [resolve_feedMode hmotion hcycle hkeeps hdominant haxis] at hr
        cases hr
        rfl
      | false =>
        simp only [Modal.resolve, hdominant, haxis] at hr
        cases hr
        rfl
  simp only [restoreFeedMode, hfound, hexplicit,
    (resolve_keepsMode hmotion hcycle hkeeps hr).1, hlinear, Option.isSome_none, Bool.or_self,
    Bool.false_eq_true, if_false, decide_eq_true_eq]
  rfl

end

/-- The state after the lines that were written is that of the program, or, as long as the feed mode
is lost, that of the program in another mode, where the program is in the mode of feed moves. -/
inductive Lags : Bool → Modal → Modal → Prop where
  | level {m m' : Modal} (same : m.Same m') : Lags false m m'
  | behind {m m' : Modal} (mode : Option Code) (motion : m.motion = some "G1")
      (cycle : m.cycle = none) (same : (m.inMode mode).Same m') : Lags true m m'

section

variable {lost : Bool}

theorem Lags.positioning (h : Lags lost m m') : m'.positioning = m.positioning := by
  cases h with
  | level same => exact same.positioning
  | behind _ _ _ same => exact same.positioning

theorem Lags.plane (h : Lags lost m m') : m'.plane = m.plane := by
  cases h with
  | level same => exact same.plane
  | behind _ _ _ same => exact same.plane

theorem Lags.position (h : Lags lost m m') : m.position.Unmoved m'.position := by
  cases h with
  | level same => exact same.position
  | behind _ _ _ same => exact same.position

theorem Lags.feed (h : Lags lost m m') : SameFeed m.feed m'.feed := by
  cases h with
  | level same => exact same.feed
  | behind _ _ _ same => exact same.feed

/-- As long as the feed mode is lost, a line that stays does what it did where feed moves are in
force, whatever the mode it is met in. -/
theorem stopAt_inMode (hmotion : m.motion = some "G1") (hcycle : m.cycle = none)
    (hs : m.stopAt settings n raw = .ok s) :
    ∃ s', (m.inMode mode).stopAt settings n (restoreFeedMode true s).1 = .ok s' ∧
      s'.effect = s.effect ∧
        ∀ m', s'.after.Same m' → Lags (restoreFeedMode true s).2 s.after m' := by
  obtain ⟨hraw, hbefore, hblock⟩ := stopAt_eq_ok hs
  cases hfound : s.found with
  | none =>
    have hline : restoreFeedMode true s = (raw, true) := by simp [restoreFeedMode, hfound, hraw]
    have hread : Block.read? raw n = none := by rw [← hblock, Stop.block?, hfound]; rfl
    have hafter : s.after = m := by rw [Stop.after, Stop.resolution?, hfound, ← hbefore]; rfl
    rw [hline, hafter]
    refine ⟨⟨raw, m.inMode mode, none⟩, ?_, ?_, fun m' => .behind mode hmotion hcycle⟩
    · rw [Modal.stopAt, hread]
    · rw [Stop.effect, Stop.effect, Stop.resolution?, Stop.resolution?, hfound]
  | some found =>
    obtain ⟨b, r⟩ := found
    have hr := stopAt_resolve hs hfound
    rw [hbefore] at hr
    rw [Stop.block?_of_found hfound] at hblock
    have heffect := Stop.effect_of_found hfound
    have hafter := Stop.after_of_found hfound
    by_cases hkeeps : b.KeepsMode
    · rw [restoreFeedMode_of_keepsMode hfound hmotion hcycle hkeeps hr]
      split_ifs with hmoves
      · -- the block moves by the mode and is written with its code
        obtain ⟨b', hread, hwords⟩ := read?_withFeedMode hblock.symm
        have hline : b'.line = b.line :=
          (Block.read?_line hread).trans (Block.read?_line hblock.symm).symm
        have hr' : (m.inMode mode).resolve settings b' = .ok r := by
          rw [resolve_withFeedMode mode hmotion hcycle hkeeps hmoves.1 hmoves.2 hwords hline, hr]
        refine ⟨_, stopAt_of_resolve hread hr', heffect.symm, fun m' hsame => ?_⟩
        rw [hafter]
        exact .level hsame
      · -- the block does not move by the mode, and the mode stays lost
        have hstill : b.dominant? = none → b.hasAxis = false := fun hno =>
          Bool.eq_false_iff.2 fun haxis => hmoves ⟨hno, haxis⟩
        have hr' : (m.inMode mode).resolve settings b = .ok (r.inMode mode) := by
          rw [resolve_inMode mode hkeeps hstill m, hr]
          rfl
        rw [hraw]
        refine ⟨_, stopAt_of_resolve hblock.symm hr', heffect.symm, fun m' hsame => ?_⟩
        obtain ⟨-, hmode, hend⟩ := resolve_keepsMode hmotion hcycle hkeeps hr
        rw [hafter]
        exact .behind mode hmode hend hsame
    · -- after this block it does not matter which mode it was met in
      rw [restoreFeedMode_of_sets hfound hkeeps hr]
      have hr' : (m.inMode mode).resolve settings b = .ok r := by
        rw [resolve_inMode_of_sets mode hkeeps, hr]
      rw [hraw]
      refine ⟨_, stopAt_of_resolve hblock.symm hr', heffect.symm, fun m' hsame => ?_⟩
      rw [hafter]
      exact .level hsame

/-- A line that stays does what it did, and states that lag behind each other go on to do so. -/
theorem stopAt_lags (n' : Int) (h : Lags lost m m') (hs : m.stopAt settings n raw = .ok s) :
    ∃ s', m'.stopAt settings n' (restoreFeedMode lost s).1 = .ok s' ∧
      s.effect.Same s'.effect ∧ Lags (restoreFeedMode lost s).2 s.after s'.after := by
  cases h with
  | level same =>
    obtain ⟨s', hs', hsame⟩ := stopAt_same n' same hs
    have hline : restoreFeedMode false s = (raw, false) := by
      rw [← (stopAt_eq_ok hs).1]
      rfl
    rw [hline]
    exact ⟨s', hs', hsame.effect, .level hsame.after⟩
  | behind mode motion cycle same =>
    obtain ⟨s₁, hs₁, heffect, hlags⟩ := stopAt_inMode mode motion cycle hs
    obtain ⟨s', hs', hsame⟩ := stopAt_same n' same hs₁
    refine ⟨s', hs', ?_, hlags _ hsame.after⟩
    rw [← heffect]
    exact hsame.effect

end

/-! ## Chains -/

/-- An arc that is written as a straight move is warned of. -/
theorem warnings_of_no_arc {start target : Position} {plane : Plane} {direction : Direction}
    {tolerance epsilon : Float} {ws : List Warning}
    (h : Arc.resolve start target b plane direction tolerance epsilon = .ok (none, ws)) :
    ws ≠ [] := by
  simp only [Arc.resolve] at h
  split at h
  · split at h <;> cases h
    simp
  · split at h
    · cases h
      simp
    · split at h
      · cases h
        simp
      · simp only [bind_eq_ok, pure_eq_ok] at h
        obtain ⟨found, -, h⟩ := h
        cases h

/-- Only the code of a feed move makes a block a straight feed move, if there is no warning. -/
theorem resolveCode_isLinear {before : Modal}
    (h : Modal.resolveCode settings before m code b = .ok r) (hlinear : r.isLinear = true)
    (hwarnings : r.warnings = []) : code = "G1" := by
  cases resolveCode_cases h with
  | linear => rfl
  | @arc _ _ arc ws _ found =>
    cases arc with
    | none => exact absurd hwarnings (warnings_of_no_arc found)
    | some a => cases hlinear
  | _ => cases hlinear

/-- What feed moves at one height make of a state, if the first of them says a feed or keeps the one
in force, and the others say none. -/
structure FeedMoved (m m' : Modal) (feed? : Option Float) : Prop where
  positioning : m'.positioning = m.positioning
  plane : m'.plane = m.plane
  height : SameNumber m.position.z m'.position.z
  feed : m'.feed = (feed? <|> m.feed)
  motion : m'.motion = some "G1"
  cycle : m'.cycle = none

theorem FeedMoved.trans {m'' : Modal} {feed? : Option Float} (h : FeedMoved m m' feed?)
    (h' : FeedMoved m' m'' none) : FeedMoved m m'' feed? :=
  ⟨h'.positioning.trans h.positioning, h'.plane.trans h.plane, h.height.trans h'.height,
    h'.feed.trans h.feed, h'.motion, h'.cycle⟩

/-- What a chord does. -/
structure ChordDoes (t : Stop) (b : Block) : Prop where
  block : t.block? = some b
  absolute : t.before.positioning = .absolute
  after : FeedMoved t.before t.after (b.value 'F')
  effect : ∃ mo, t.effect = .motion mo ∧ mo.action = .linear ∧ mo.feed = t.after.feed

theorem chordDoes {t : Stop} (hs : t.before.stopAt settings n t.raw = .ok t)
    (h : isChord t = true) : ∃ b, ChordDoes t b := by
  rw [isChord] at h
  split at h
  · cases h
  rename_i b r hfound
  simp only [Bool.and_eq_true, List.isEmpty_iff, beq_iff_eq] at h
  obtain ⟨⟨⟨⟨⟨⟨⟨⟨⟨⟨-, hcodes⟩, -⟩, -⟩, -⟩, -⟩, hlinear⟩, hwarnings⟩, habsolute⟩, -⟩, hheight⟩ := h
  have hr := stopAt_resolve hs hfound
  have hone : ∀ c ∈ b.codes 'G', c = "G1" := by
    simpa [Block.onlyCodes] using hcodes
  obtain ⟨happly, hstraight⟩ : t.before.apply b = { t.before with
      motion := some "G1", cycle := none, feed := b.value 'F' <|> t.before.feed } ∧
      r = Modal.resolveStraight t.before (t.before.apply b) b .linear
        (t.before.apply b).feed [] := by
    by_cases hnil : b.codes 'G' = []
    · obtain ⟨hdominant, happly⟩ := apply_of_no_code hnil t.before
      cases resolve_cases hr with
      | code dominant =>
        rw [hdominant] at dominant
        cases dominant
      | modal => cases hlinear
      | cycle => cases hlinear
      | mode _ _ inactive motion found =>
        obtain rfl := resolveCode_isLinear found hlinear hwarnings
        cases found
        rw [happly] at inactive motion ⊢
        exact ⟨by rw [← inactive, ← motion], rfl⟩
      | first => cases hlinear
    · obtain ⟨hdominant, happly⟩ := apply_of_one_code (by decide) hnil hone t.before
      rw [Modal.resolve, hdominant] at hr
      cases hr
      exact ⟨happly, rfl⟩
  have hafter : t.after = r.state := Stop.after_of_found hfound
  refine ⟨b, Stop.block?_of_found hfound, habsolute, ?_, ?_⟩
  · rw [hafter, hstraight, happly]
    refine ⟨rfl, rfl, ?_, rfl, rfl, rfl⟩
    rw [hstraight, happly] at hheight
    exact SameNumber.symm (.inr hheight)
  · rw [Stop.effect_of_found hfound, hafter, hstraight]
    exact ⟨_, rfl, rfl, rfl⟩

/-- A chain goes on in the mode and with the feed of its first chord. -/
theorem feedMoved_chain {feed? : Option Float} {rest : List Stop}
    (hfirst : FeedMoved m s.after feed?)
    (hjoined : (s :: rest).IsChain fun s t => s.after = t.before)
    (hdoes : ∀ t ∈ rest, ∃ b, ChordDoes t b)
    (hfeed : ∀ t ∈ rest, t.block?.any (·.has ['F']) = false) :
    ∃ last, (s :: rest).getLast? = some last ∧ FeedMoved m last.after feed? ∧
      ∀ t ∈ s :: rest, t.after.feed = last.after.feed := by
  induction rest generalizing s with
  | nil => exact ⟨s, rfl, hfirst, by simp⟩
  | cons t rest ih =>
    obtain ⟨hnext, hrest⟩ := List.isChain_cons_cons.1 hjoined
    obtain ⟨b, hblock, -, hafter, -⟩ := hdoes t (.head _)
    have hsilent : b.value 'F' = none := by
      rw [Block.value_eq_none_iff]
      simpa [hblock] using hfeed t (.head _)
    rw [hsilent, ← hnext] at hafter
    obtain ⟨last, hlast, hmoved, hfeeds⟩ := ih (hfirst.trans hafter) hrest
      (fun t ht => hdoes t (.tail _ ht)) (fun t ht => hfeed t (.tail _ ht))
    refine ⟨last, by rw [List.getLast?_cons_cons, hlast], hmoved, ?_⟩
    exact List.forall_mem_cons.2 ⟨hafter.feed.symm.trans (hfeeds t (.head _)), hfeeds⟩

/-- The points of a chain end where its last chord does. -/
theorem getLast?_corners {rest : List Stop} {last : Stop}
    (h : (s :: rest).getLast? = some last) :
    (corners (s :: rest)).getLast? = some (flat last.after.position) := by
  rw [corners, List.getLast?_cons, List.getLast?_map, h]
  rfl

namespace Piece

/-- The end of a chain is read as the point that it was printed from. -/
def EndsExactly : Piece → Prop
  | kept .. => True
  | arc chain _ => ∀ last ∈ chain.getLast?,
      PrintsExactly last.after.position.x ∧ PrintsExactly last.after.position.y

instance (p : Piece) : Decidable p.EndsExactly :=
  match p with
  | kept .. => inferInstanceAs (Decidable True)
  | arc .. => by
    unfold EndsExactly
    infer_instance

/-- What a piece of the program did is done by the line that is written for it. A line that stays
sets the same going and ends at the same point with the same feed; an arc is one motion, from where
its chain begins to where it ends, with the feed of each of its chords. -/
inductive Does : Piece → Stop → Prop where
  | kept {s s' : Stop} {line : String} (raw : s'.raw = line) (effect : s.effect.Same s'.effect)
      (finish : s.after.position.Unmoved s'.after.position)
      (feed : SameFeed s.after.feed s'.after.feed) : Does (.kept s line) s'
  | arc {chain : List Stop} {block : String} {first last s' : Stop} {mo : Motion}
      (raw : s'.raw = block) (head : chain.head? = some first)
      (getLast : chain.getLast? = some last) (effect : s'.effect = .motion mo)
      (start : first.before.position.Unmoved mo.start)
      (finish : last.after.position.Unmoved mo.finish)
      (feed : ∀ t ∈ chain, ∃ mo', t.effect = .motion mo' ∧ mo'.action = .linear ∧
        SameFeed mo'.feed mo.feed) : Does (.arc chain block) s'

end Piece

section

variable {fit : Fit} {lost : Bool} {skip : Nat} {stops : List Stop} {rest : List Stop}
  {block : String}

/-- A point whose coordinates are printed exactly is met again. -/
theorem unmoved_of_printsExactly {p : Position} {z : Float} (hx : PrintsExactly p.x)
    (hy : PrintsExactly p.y) (hz : SameNumber p.z z) :
    p.Unmoved ⟨numeralValue (coordinate p.x).toList, numeralValue (coordinate p.y).toList, z⟩ := by
  intro axis
  cases axis with
  | x => exact hx.same
  | y => exact hy.same
  | z => exact hz

/-- An arc does what its chain did, and leaves its own code in force. -/
theorem stopAt_arc (n' : Int) (hreplaces : Replaces fit s rest block)
    (hstops : ∀ t ∈ s :: rest, ∃ k, t.before.stopAt settings k t.raw = .ok t)
    (hjoined : (s :: rest).IsChain fun s t => s.after = t.before) (h : Lags lost s.before m')
    (hexact : (Piece.arc (s :: rest) block).EndsExactly) :
    ∃ s' last, m'.stopAt settings n' block = .ok s' ∧ (Piece.arc (s :: rest) block).Does s' ∧
      (s :: rest).getLast? = some last ∧ Lags true last.after s'.after := by
  have hdoes : ∀ t ∈ s :: rest, ∃ b, ChordDoes t b := fun t ht => by
    obtain ⟨k, hstop⟩ := hstops t ht
    exact chordDoes hstop (hreplaces.chords t ht)
  obtain ⟨b, hfirst⟩ := hdoes s (.head _)
  obtain ⟨last, hlast, hmoved, hfeeds⟩ := feedMoved_chain hfirst.after hjoined
    (fun t ht => hdoes t (.tail _ ht)) hreplaces.noFeed
  obtain ⟨hx, hy⟩ := hexact last hlast
  obtain ⟨arc, finish, -, hfinish, rfl⟩ := hreplaces.fitted
  rw [getLast?_corners hlast, Option.some.injEq] at hfinish
  subst hfinish
  rw [hfirst.block, Option.bind_some]
  have hfeed : ∀ w, b.words.find? (·.letter == 'F') = some w → IsFeedWord w := by
    obtain ⟨k, hstop⟩ := hstops s (.head _)
    have hread : Block.read? s.raw k = some b := by
      rw [← (stopAt_eq_ok hstop).2.2, hfirst.block]
    exact isFeedWord_of_read hread
  obtain ⟨b', hread, hwords⟩ := exists_read?_arcBlock arc (flat s.before.position)
    (flat last.after.position) hfeed n'
  obtain ⟨r, mo, hr, heffect, hstart, hpoint, hspeed, hstate⟩ := resolve_arc hfeed hwords
    settings (h.positioning.trans hfirst.absolute) hx.isFinite hy.isFinite
  have hmove : last.after.position.Unmoved mo.finish := by
    rw [hpoint]
    exact unmoved_of_printsExactly hx hy (hmoved.height.symm.trans (h.position .z))
  have hsame : SameFeed last.after.feed mo.feed := by
    rw [hspeed, hmoved.feed]
    exact h.feed.or _
  refine ⟨_, last, stopAt_of_resolve hread hr, ?_, hlast, ?_⟩
  · refine .arc rfl rfl hlast heffect ?_ hmove fun t ht => ?_
    · rw [hstart]
      exact h.position
    · obtain ⟨b', ht'⟩ := hdoes t ht
      obtain ⟨mo', heffect', haction, hfeed'⟩ := ht'.effect
      refine ⟨mo', heffect', haction, ?_⟩
      rw [hfeed', hfeeds t ht]
      exact hsame
  · refine .behind (some (arcCode arc)) hmoved.motion hmoved.cycle ?_
    show Modal.Same _ r.state
    rw [hstate]
    refine ⟨h.positioning.trans hmoved.positioning.symm, h.plane.trans hmoved.plane.symm, hmove,
      hsame, rfl, ?_⟩
    rw [Modal.inMode, hmoved.cycle]
    exact .none

/-- The walk through a program with arcs does what the program did, piece by piece. -/
theorem walkFrom_pieces (n' : Int)
    (hstops : ∀ s ∈ stops, ∃ k, s.before.stopAt settings k s.raw = .ok s)
    (hjoined : stops.IsChain fun s t => s.after = t.before)
    (h : ∀ t ∈ (stops.drop skip).head?, Lags lost t.before m')
    (hexact : ∀ p ∈ pieces fit lost skip stops, p.EndsExactly) :
    ∃ stops', m'.walkFrom settings n' (replaceChains fit lost skip stops) = .ok stops' ∧
      List.Forall₂ Piece.Does (pieces fit lost skip stops) stops' := by
  -- states are compared before the next line that is in no chain, which the skipped ones lead to
  induction stops generalizing lost skip m' n' with
  | nil => cases skip <;> exact ⟨[], rfl, .nil⟩
  | cons s rest ih =>
    have hrest := fun t ht => hstops t (.tail s ht)
    cases skip with
    | succ skip => exact ih n' hrest hjoined.tail h hexact
    | zero =>
      have hlags : Lags lost s.before m' := h s rfl
      rw [pieces] at hexact ⊢
      rw [replaceChains]
      cases hchain : chainAt? fit s rest with
      | some found =>
        obtain ⟨block, more⟩ := found
        rw [hchain] at hexact
        obtain ⟨hends, hlater⟩ := List.forall_mem_cons.1 hexact
        obtain ⟨s', last, hs', hdoes, hlast, hlags'⟩ := stopAt_arc n' (replaces_of_chainAt? hchain)
          (fun t ht => hstops t (List.mem_of_mem_take (i := more + 1) ht))
          (hjoined.take (more + 1)) hlags hends
        have hnext : ∀ t ∈ (rest.drop more).head?, Lags true t.before s'.after := by
          have hsplit : s :: rest = (s :: rest.take more) ++ rest.drop more := by simp
          rw [hsplit, List.isChain_append] at hjoined
          intro t ht
          rw [← hjoined.2.2 last hlast t ht]
          exact hlags'
        obtain ⟨stops', hwalk, hall⟩ := ih (n' + 1) hrest hjoined.tail hnext hlater
        exact ⟨s' :: stops', walkFrom_cons hs' hwalk, .cons hdoes hall⟩
      | none =>
        rw [hchain] at hexact
        obtain ⟨-, hlater⟩ := List.forall_mem_cons.1 hexact
        obtain ⟨k, hstop⟩ := hstops s (.head _)
        obtain ⟨s', hs', heffect, hlags'⟩ := stopAt_lags n' hlags hstop
        have hnext : ∀ t ∈ (rest.drop 0).head?,
            Lags (restoreFeedMode lost s).2 t.before s'.after := by
          intro t ht
          cases rest with
          | nil => cases ht
          | cons u rest =>
            cases ht
            rw [← (List.isChain_cons_cons.1 hjoined).1]
            exact hlags'
        obtain ⟨stops', hwalk, hall⟩ := ih (n' + 1) hrest hjoined.tail hnext hlater
        refine ⟨s' :: stops', walkFrom_cons hs' hwalk, .cons (.kept ?_ heffect ?_ ?_) hall⟩
        · exact (stopAt_eq_ok hs').1
        · exact hlags'.position
        · exact hlags'.feed

/-- If every chain ends at coordinates that are printed exactly, then the walk through the program
with arcs, however they were fitted, does at each line that stays what the program did there, and at
each arc what its chain did. The rule is the case of `CircleFit.fit`. -/
theorem replaceChains_does {ls : Lines} (fit : Fit) (hwalk : walk ls = .ok stops)
    (hexact : ∀ p ∈ pieces fit false 0 stops, p.EndsExactly) :
    ∃ stops', (Revised.ofWalk ls (replaceChains fit false 0)).result =
        .ok (stops'.map Stop.raw) ∧ walk (stops'.map Stop.raw) = .ok stops' ∧
      (pieces fit false 0 stops).flatMap Piece.stops = stops ∧
        List.Forall₂ Piece.Does (pieces fit false 0 stops) stops' := by
  have hstart : ∀ t ∈ (stops.drop 0).head?, Lags false t.before .initial := by
    intro t ht
    rw [walkFrom_head hwalk t ht]
    exact .level (.refl _)
  obtain ⟨stops', hwalk', hdoes⟩ := walkFrom_pieces 1 (walkFrom_stopAt hwalk)
    (walkFrom_isChain hwalk) hstart hexact
  have hraw := walkFrom_raw hwalk'
  refine ⟨stops', ?_, ?_, flatMap_stops_pieces, hdoes⟩
  · rw [hraw, Revised.ofWalk, hwalk]
    rfl
  · rw [hraw]
    exact hwalk'

/-- Chords that become an arc, after which a blank line and a dwell leave the feed mode lost until a
feed move without a code says it again. -/
theorem replaceChains_does_resumed :
    let ls := coarse ++ ["", "G4 P1", "X9 Y-3", "X12"]
    let out := ["G0 X5 Y0", "G3 X-4 Y-3 I-5 J0 F100", "", "G4 P1", "G1 X9 Y-3", "X12"]
    ∃ stops stops', walk ls = .ok stops ∧
      (∀ p ∈ pieces CircleFit.fit false 0 stops, p.EndsExactly) ∧
      (useArcOptimization ls).result = .ok out ∧ walk out = .ok stops' ∧
        List.Forall₂ Piece.Does (pieces CircleFit.fit false 0 stops) stops' := by
  intro ls out
  obtain ⟨stops, hwalk, hcheck⟩ := exists_of_toOption (x := walk ls)
    (f := fun stops =>
      let ps := pieces CircleFit.fit false 0 stops
      (decide (∀ p ∈ ps, p.EndsExactly), ps.map Piece.line)) (b := (true, out)) (by decide +kernel)
  obtain ⟨hexact, hlines⟩ := Prod.mk.inj hcheck
  have hexact := of_decide_eq_true hexact
  obtain ⟨stops', hresult, hwalk', -, hdoes⟩ := replaceChains_does CircleFit.fit hwalk hexact
  have hraw : stops'.map Stop.raw = out := by
    rw [Revised.ofWalk, hwalk] at hresult
    rw [← hlines, map_line_pieces]
    exact (Except.ok.inj hresult).symm
  rw [hraw] at hresult hwalk'
  exact ⟨stops, stops', hwalk, hexact, hresult, hwalk', hdoes⟩

end

end Rule

end PartProgram

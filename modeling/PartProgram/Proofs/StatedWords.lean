import PartProgram.Proofs.KeptText

/-!
# PartProgram.Proofs.StatedWords

Programs that only state again what they have stated. The rule for restated words takes a
positioning or a plane away that was said before, and a block with no other word goes with it. Such
a block moves nothing: from rest the machine comes to no motion mode and no feed through blocks like
this, so all lines of a program can go only where all of them are of this kind.

* `RestatesOnly`: every line is blank or states again what was stated.
* `hasText_trimStated`: when the rule for restated words leaves text.
-/

namespace PartProgram

open Text

/-- Every line is blank, or has a block all of whose words state a positioning or a plane that was
stated already, with neither comment nor corner word. -/
def RestatesOnly (s : Rule.Stated) : List (String × Option Block) → Prop
  | [] => True
  | (raw, none) :: rest => allBlank raw.toList = true ∧ RestatesOnly s rest
  | (_, some b) :: rest =>
    (b.words ≠ [] ∧ (∀ w ∈ b.words, w.code ∈ (s.repeated (b.codes 'G')).2) ∧ b.comment = none ∧
      b.corner = none) ∧ RestatesOnly (s.repeated (b.codes 'G')).1 rest

instance decidableRestatesOnly (s : Rule.Stated) :
    (lines : List (String × Option Block)) → Decidable (RestatesOnly s lines)
  | [] => .isTrue trivial
  | (raw, none) :: rest =>
    have := decidableRestatesOnly s rest
    inferInstanceAs (Decidable (allBlank raw.toList = true ∧ RestatesOnly s rest))
  | (_, some b) :: rest =>
    have := decidableRestatesOnly (s.repeated (b.codes 'G')).1 rest
    inferInstanceAs (Decidable ((b.words ≠ [] ∧
      (∀ w ∈ b.words, w.code ∈ (s.repeated (b.codes 'G')).2) ∧ b.comment = none ∧
        b.corner = none) ∧ RestatesOnly (s.repeated (b.codes 'G')).1 rest))

/-- The codes that state a positioning or a plane. -/
def statedCodes : List Code := ["G90", "G91", "G17", "G18", "G19"]

namespace Rule

variable {s : Stated} {m m' : Modal} {b : Block} {code : Code} {raw : String} {n : Int}
  {settings : Settings} {ls : Lines} {stops : List Stop}

/-! ## Blocks that state -/

theorem mem_statedCodes_of_repeated {codes : List Code} (h : code ∈ (s.repeated codes).2) :
    code ∈ statedCodes := by
  induction codes generalizing s with
  | nil => cases h
  | cons c rest ih =>
    have hmeet : (s.meet c).2 = true → c ∈ statedCodes := by
      unfold Stated.meet
      intro hagain
      split at hagain
      · rename_i hpositioning
        simp only [Bool.or_eq_true, decide_eq_true_eq] at hpositioning
        rcases hpositioning with rfl | rfl <;> decide
      · split at hagain
        · rename_i hplane
          obtain ⟨plane, hfind⟩ := Option.isSome_iff_exists.1 hplane
          have hcode : plane.code = c := by simpa using List.find?_some hfind
          rw [← hcode]
          cases plane <;> decide
        · cases hagain
    simp only [Stated.repeated] at h
    split at h
    · rename_i hagain
      cases h with
      | head => exact hmeet hagain
      | tail _ h => exact ih h
    · exact ih h

theorem Word.letter_of_stated {w : Word} (h : w.code ∈ statedCodes) : w.letter = 'G' := by
  have hhead : ∀ code ∈ statedCodes, code.toList.head? = some 'G' := by decide
  have hletter := hhead _ h
  rw [Word.code, String.toList_append] at hletter
  simpa using hletter

/-- All words of a block state a positioning or a plane. -/
def States (b : Block) : Prop := ∀ w ∈ b.words, w.code ∈ statedCodes

theorem States.has (h : States b) {letters : List Char} (hG : 'G' ∉ letters) :
    b.has letters = false := by
  rw [Block.has, List.any_eq_false]
  intro w hw
  rw [Word.letter_of_stated (h w hw)]
  simpa using hG

theorem States.value (h : States b) {letter : Char} (hG : letter ≠ 'G') :
    b.value letter = none := by
  rw [Block.value, Option.map_eq_none_iff, List.find?_eq_none]
  intro w hw
  rw [Word.letter_of_stated (h w hw)]
  simpa using Ne.symm hG

theorem States.codes (h : States b) (hcode : code ∈ b.codes 'G') : code ∈ statedCodes := by
  obtain ⟨w, hw, -, rfl⟩ := mem_codes hcode
  exact h w hw

theorem States.dominant? (h : States b) : b.dominant? = none := by
  rw [Block.dominant?, List.find?_eq_none]
  intro code hcode hmem
  have hapart : ∀ code ∈ statedCodes, code ∉ Code.byDominance := by decide
  exact hapart code (h.codes (List.contains_iff_mem.1 hmem)) hcode

theorem applyCode_of_stated (hcode : code ∈ statedCodes) :
    (m.applyCode code).motion = m.motion ∧ (m.applyCode code).feed = m.feed := by
  have hother : ∀ code ∈ statedCodes,
      code ≠ "G80" ∧ code ∉ Code.motionModes ∧ code ∉ Code.cycles := by decide
  obtain ⟨hend, hmode, hcycle⟩ := hother code hcode
  unfold Modal.applyCode
  split
  · exact ⟨rfl, rfl⟩
  split
  · exact ⟨rfl, rfl⟩
  split
  · exact ⟨rfl, rfl⟩
  · exact ⟨rfl, rfl⟩

theorem applyCodes_of_stated {codes : List Code} (h : ∀ code ∈ codes, code ∈ statedCodes) :
    (codes.foldl Modal.applyCode m).motion = m.motion ∧
      (codes.foldl Modal.applyCode m).feed = m.feed := by
  induction codes generalizing m with
  | nil => exact ⟨rfl, rfl⟩
  | cons code rest ih =>
    obtain ⟨hmotion, hfeed⟩ := applyCode_of_stated (m := m) (h code (.head _))
    obtain ⟨hmotion', hfeed'⟩ := ih (m := m.applyCode code) fun c hc => h c (.tail _ hc)
    exact ⟨hmotion'.trans hmotion, hfeed'.trans hfeed⟩

/-- A block that only states moves nothing and leaves motion mode and feed. -/
theorem States.resolve (h : States b) (settings : Settings) (m : Modal) :
    ∃ m', m.resolve settings b = .ok ⟨m', .none, []⟩ ∧ m'.motion = m.motion ∧
      m'.feed = m.feed := by
  have haxis : b.hasAxis = false := h.has (by decide)
  obtain ⟨hmotion, hfeed⟩ := applyCodes_of_stated (m := m) fun code hcode => h.codes hcode
  refine ⟨m.apply b, ?_, ?_, ?_⟩
  · simp only [Modal.resolve, h.dominant?, haxis, Bool.not_false, if_true]
  · simp only [Modal.apply, Modal.applyDominant, h.dominant?]
    exact hmotion
  · simp only [Modal.apply, Modal.applyDominant, h.dominant?, h.value (by decide : 'F' ≠ 'G')]
    exact hfeed

/-! ## Restated words -/

/-- Only codes that are repeated go, never all words of a letter. -/
theorem singleton_not_mem_repeated (s : Stated) (said : List String) (c : Char) :
    .singleton c ∉ (s.repeated said).2 := by
  intro hmem
  have hlong : ∀ code ∈ statedCodes, code.length ≠ 1 := by decide
  exact hlong _ (mem_statedCodes_of_repeated hmem) (by simp)

/-- Where no feed is in effect, a block goes only if all its words state again what was stated. -/
theorem leftOf_eq_none_iff (raw : String) (hfeed : m.feed = none) :
    leftOf raw b (restated s m b) = none ↔
      b.words ≠ [] ∧ (∀ w ∈ b.words, w.code ∈ (s.repeated (b.codes 'G')).2) ∧ b.comment = none ∧
        b.corner = none := by
  have hrepeats : repeatsFeed m b = false := by
    rw [repeatsFeed, hfeed]
    cases b.value 'F' <;> rfl
  have hdrop : restated s m b = (s.repeated (b.codes 'G')).2 := by
    simp [restated, hrepeats]
  have hsingle := singleton_not_mem_repeated s (b.codes 'G')
  rw [hdrop, leftOf]
  generalize hcodes : (s.repeated (b.codes 'G')).2 = drop at hsingle
  have hgone : (b.without drop).words = [] ↔ ∀ w ∈ b.words, w.code ∈ drop := by
    simp only [Block.without, List.filter_eq_nil_iff, Bool.and_eq_true, Bool.not_eq_true',
      List.contains_eq_mem, decide_eq_false_iff_not, not_and, not_not]
    exact ⟨fun h w hw => h w hw (hsingle w.letter), fun h w hw _ => h w hw⟩
  have hbare : (b.without drop).isBare = true ↔
      (∀ w ∈ b.words, w.code ∈ drop) ∧ b.comment = none ∧ b.corner = none := by
    rw [← hgone]
    simp [Block.isBare, Block.without, and_assoc]
  cases drop with
  | nil =>
    simp only [List.isEmpty_nil, if_true, reduceCtorEq, false_iff, not_and]
    intro hwords hall
    obtain ⟨w, hw⟩ := List.exists_mem_of_ne_nil _ hwords
    cases hall w hw
  | cons code rest =>
    have hwords : b.words ≠ [] := by
      have hmem : code ∈ (s.repeated (b.codes 'G')).2 := by
        rw [hcodes]
        exact .head _
      obtain ⟨w, hw, -, -⟩ := mem_codes (Stated.repeated_subset s _ hmem)
      exact List.ne_nil_of_mem hw
    rw [← hbare]
    cases hleft : (b.without (code :: rest)).isBare with
    | false => simp
    | true => simp [hwords]

theorem allBlank_leftOf {drop : List String} {l : String} (hread : Block.read? raw n = some b)
    (h : leftOf raw b drop = some l) : allBlank l.toList = false := by
  rw [leftOf] at h
  split at h
  · cases h
    exact Block.allBlank_of_read? hread
  · split at h
    · cases h
    · rename_i hbare
      cases h
      refine Block.allBlank_render (fun w hw => ?_) (by simpa using hbare)
      exact Block.letters_of_read? hread w (List.mem_of_mem_filter hw)

theorem States.stopAt (m : Modal) (settings : Settings) (h : States b)
    (hread : Block.read? raw n = some b) :
    ∃ m', m.stopAt settings n raw = .ok ⟨raw, m, some (b, ⟨m', .none, []⟩)⟩ ∧
      m'.motion = m.motion ∧ m'.feed = m.feed := by
  obtain ⟨m', hresolve, hmodes⟩ := h.resolve settings m
  refine ⟨m', ?_, hmodes⟩
  rw [Modal.stopAt, hread]
  simp only [hresolve, bind_eq_ok, pure_eq_ok]
  exact ⟨_, rfl, rfl⟩

theorem states_of_repeated (h : ∀ w ∈ b.words, w.code ∈ (s.repeated (b.codes 'G')).2) :
    States b := fun w hw => mem_statedCodes_of_repeated (h w hw)

/-- The rule for restated words leaves nothing of a program exactly if it only states again what it
has stated. -/
theorem hasText_trimStated (hfeed : m.feed = none)
    (hwalk : m.walkFrom settings n ls = .ok stops) :
    ¬ HasText (trimStated s stops) ↔ RestatesOnly s (readLines n ls) := by
  induction ls generalizing m n s stops with
  | nil =>
    cases hwalk
    simp [trimStated, readLines, RestatesOnly]
  | cons raw rest ih =>
    simp only [Modal.walkFrom, bind_eq_ok, pure_eq_ok] at hwalk
    obtain ⟨stop, hstop, more, hmore, rfl⟩ := hwalk
    obtain ⟨hraw, hbefore, hblock⟩ := stopAt_eq_ok hstop
    cases hread : Block.read? raw n with
    | none =>
      rw [Modal.stopAt, hread] at hstop
      cases hstop
      rw [trimStated_cons_none s rfl, hasText_cons, not_or, Bool.not_eq_false, readLines, hread,
        RestatesOnly, ih (m := m) hfeed hmore]
    | some b =>
      rw [hread] at hblock
      rw [trimStated_cons_some s hblock, hraw, hbefore, readLines, hread, RestatesOnly,
        ← leftOf_eq_none_iff raw hfeed]
      cases hleft : leftOf raw b (restated s m b) with
      | some l => simp [allBlank_leftOf hread hleft]
      | none =>
        obtain ⟨-, hwords, -, -⟩ := (leftOf_eq_none_iff raw hfeed).1 hleft
        obtain ⟨m', hstop', -, hfeed'⟩ :=
          States.stopAt m settings (states_of_repeated hwords) hread
        rw [hstop'] at hstop
        cases hstop
        simpa using ih (m := m') (hfeed'.trans hfeed) hmore

/-- Redundant moves that go leave a program as it is where it only states again. -/
theorem restatesOnly_filter (hmotion : m.motion = none)
    (hwalk : m.walkFrom settings n ls = .ok stops) :
    RestatesOnly s (readLines n ((stops.filter fun s => !isRedundantMove s).map Stop.raw)) ↔
      RestatesOnly s (readLines n ls) := by
  induction ls generalizing m n s stops with
  | nil =>
    cases hwalk
    exact .rfl
  | cons raw rest ih =>
    simp only [Modal.walkFrom, bind_eq_ok, pure_eq_ok] at hwalk
    obtain ⟨stop, hstop, more, hmore, rfl⟩ := hwalk
    have hstays := isRedundantMove_of_no_motion hstop hmotion
    rw [List.filter_cons_of_pos (by simp [hstays]), List.map_cons, (stopAt_eq_ok hstop).1,
      readLines, readLines]
    cases hread : Block.read? raw n with
    | none =>
      rw [Modal.stopAt, hread] at hstop
      cases hstop
      exact and_congr_right fun _ => ih (m := m) hmotion hmore
    | some b =>
      refine and_congr_right fun hgoes => ?_
      obtain ⟨m', hstop', hmotion', -⟩ :=
        States.stopAt m settings (states_of_repeated hgoes.2.1) hread
      rw [hstop'] at hstop
      cases hstop
      exact ih (m := m') (hmotion'.trans hmotion) hmore

/-- A program that only states again can be followed. -/
theorem walkFrom_of_restatesOnly (m : Modal) (settings : Settings)
    (h : RestatesOnly s (readLines n ls)) : ∃ stops, m.walkFrom settings n ls = .ok stops := by
  induction ls generalizing m n s with
  | nil => exact ⟨[], rfl⟩
  | cons raw rest ih =>
    simp only [Modal.walkFrom, bind_eq_ok, pure_eq_ok]
    rw [readLines] at h
    cases hread : Block.read? raw n with
    | none =>
      rw [hread] at h
      obtain ⟨stops, hstops⟩ := ih m h.2
      refine ⟨_, ⟨raw, m, none⟩, ?_, stops, hstops, rfl⟩
      rw [Modal.stopAt, hread]
    | some b =>
      rw [hread] at h
      obtain ⟨m', hstop, -⟩ :=
        States.stopAt m settings (states_of_repeated h.1.2.1) hread
      obtain ⟨stops, hstops⟩ := ih m' h.2
      exact ⟨_, _, hstop, stops, hstops, rfl⟩

end Rule

end PartProgram

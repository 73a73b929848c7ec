import PartProgram.Proofs.FeedSafety
import PartProgram.Proofs.ReachedModes

/-!
# PartProgram.Proofs.KeptText

Text that stays in a program. A rule may drop lines, but hardly any can drop all of them: what a
rule finds restated, joined or replaced stands behind a line that stays. Only comments and modal
words may go altogether.

* `StandardRule.hasText_run`: the rules that keep text in a program that has some.
-/

namespace PartProgram

open Text Conversational

/-- Some line is not blank. -/
def HasText (ls : Lines) : Prop := ∃ l ∈ ls, allBlank l.toList = false

theorem not_hasText_iff {ls : Lines} : ¬ HasText ls ↔ ∀ l ∈ ls, allBlank l.toList = true := by
  simp [HasText]

@[simp] theorem hasText_nil : ¬ HasText [] := by simp [HasText]

@[simp] theorem hasText_cons {l : String} {ls : Lines} :
    HasText (l :: ls) ↔ allBlank l.toList = false ∨ HasText ls := by
  simp [HasText]

@[simp] theorem hasText_reverse {ls : Lines} : HasText ls.reverse ↔ HasText ls := by
  simp [HasText]

theorem HasText.mono {ls ls' : Lines} (h : HasText ls) (hsub : ls ⊆ ls') : HasText ls' := by
  obtain ⟨l, hl, htext⟩ := h
  exact ⟨l, hsub hl, htext⟩

theorem allBlank_eq_false {cs : List Char} {c : Char} (hc : c ∈ cs) (hblank : isBlank c = false) :
    allBlank cs = false := by
  rw [allBlank, List.all_eq_false]
  exact ⟨c, hc, by simp [hblank]⟩

theorem allBlank_trim (cs : List Char) : allBlank (trim cs) = allBlank cs := by
  cases hcs : allBlank cs with
  | true =>
    rw [trim_of_allBlank hcs]
    rfl
  | false =>
    have hne : trim cs ≠ [] := by
      rw [Ne, trim_eq_nil_iff, hcs]
      exact Bool.false_ne_true
    obtain ⟨c, hc, hblank⟩ := (snug_trim hne).head
    exact allBlank_eq_false (List.mem_of_head? hc) hblank

/-- Joined lines are a blank text where all of them are blank. -/
theorem isBlankText_joinLines_iff {ls : Lines} :
    Toolpath.isBlankText (joinLines ls) = true ↔ ¬ HasText ls := by
  rw [not_hasText_iff, Toolpath.isBlankText]
  constructor
  · intro h l hl
    simp only [allBlank, List.all_eq_true] at h ⊢
    exact fun c hc => h c (mem_of_mem_joinLines hl c hc)
  · intro h
    induction ls with
    | nil => rfl
    | cons l rest ih =>
      have hl := h l (.head _)
      have hrest := ih fun l' hl' => h l' (.tail _ hl')
      cases rest with
      | nil => simpa [joinLines] using hl
      | cons l' rest =>
        have hfeed : isBlank '\n' = true := by decide
        rw [toList_joinLines_cons_cons]
        simp only [allBlank, List.all_append, List.all_cons, hfeed, Bool.and_eq_true] at hl hrest ⊢
        exact ⟨hl, trivial, hrest⟩

theorem HasText.of_isConversational {ls : Lines} (h : isConversational ls = true) : HasText ls := by
  obtain ⟨op, hop, -⟩ := (Option.any_eq_true _ _).1 h
  have htext := List.find?_some hop
  exact ⟨op, List.mem_of_find?_eq_some hop, by simpa using htext⟩

/-! ## Blocks -/

namespace Block

variable {raw : String} {n : Int} {b : Block}

theorem allBlank_of_read? (h : read? raw n = some b) : allBlank raw.toList = false := by
  rw [Bool.eq_false_iff]
  intro hblank
  rw [read?_of_allBlank hblank] at h
  cases h

theorem letters_of_read? (h : read? raw n = some b) : ∀ w ∈ b.words, w.letter ∈ addressLetters := by
  obtain ⟨code, -, rfl⟩ := Option.map_eq_some_iff.1 h
  intro w hw
  exact List.contains_iff_mem.1 (List.mem_filter.1 hw).2

theorem mem_joined_of_mem {parts : List String} {p : String} {c : Char} (hp : p ∈ parts)
    (hc : c ∈ p.toList) : c ∈ joined parts := by
  cases hp with
  | head =>
    rw [joined_cons]
    exact List.mem_append_left _ hc
  | tail _ hp =>
    rw [joined_cons, spaced]
    exact List.mem_append_right _ (List.mem_flatMap.2 ⟨p, hp, .tail _ hc⟩)

/-- A block with something left to write is no blank line. -/
theorem allBlank_render (hletters : ∀ w ∈ b.words, w.letter ∈ addressLetters)
    (hbare : b.isBare = false) : allBlank b.render.toList = false := by
  have hcode : ∀ c ∈ joined b.parts, c ∈ b.render.toList := by
    intro c hc
    have hmem : c ∈ b.renderCode.toList := hc
    rw [render]
    cases b.comment with
    | none => exact hmem
    | some s =>
      dsimp only
      split
      · rename_i hempty
        rw [String.isEmpty_iff.1 hempty] at hmem
        cases hmem
      · simp [hmem]
  cases hcomment : b.comment with
  | some s =>
    refine allBlank_eq_false (c := ';') ?_ (by decide)
    rw [render, hcomment]
    dsimp only
    split <;> simp
  | none =>
    cases hcorner : b.corner with
    | some k =>
      refine allBlank_eq_false (c := ',') (hcode _ ?_) (by decide)
      refine mem_joined_of_mem (p := k.render) (by simp [parts, hcorner]) ?_
      simp [Corner.render]
    | none =>
      have hwords : b.words ≠ [] := by
        intro hnil
        rw [isBare, hcomment, hcorner, hnil] at hbare
        cases hbare
      obtain ⟨w, hw⟩ := List.exists_mem_of_ne_nil _ hwords
      have hmark : w.letter ∈ codeMarks := List.mem_append_right _ (hletters w hw)
      refine allBlank_eq_false (c := w.letter) (hcode _ ?_) (IsCodeChar.not_blank (.inr hmark))
      refine mem_joined_of_mem (p := w.render) ?_ (by simp [Word.toList_render])
      exact List.mem_append_left _ (List.mem_append_right _ (List.mem_map_of_mem hw))

end Block

/-! ## Rules that keep text -/

namespace Rule

variable {ls ls' : Lines} {stops : List Stop}

theorem hasText_removeEmptyLines (h : HasText ls) : HasText (removeEmptyLines ls) := by
  obtain ⟨l, hl, htext⟩ := h
  exact ⟨l, List.mem_filter.2 ⟨hl, by simp [htext]⟩, htext⟩

/-- The first line with text stands where the walk began. -/
theorem walkFrom_text {m : Modal} {settings : Settings} {n : Int}
    (hwalk : m.walkFrom settings n ls = .ok stops) (h : HasText ls) :
    ∃ s ∈ stops, allBlank s.raw.toList = false ∧ ∃ k, m.stopAt settings k s.raw = .ok s := by
  induction ls generalizing n stops with
  | nil => exact absurd h hasText_nil
  | cons raw rest ih =>
    simp only [Modal.walkFrom, bind_eq_ok, pure_eq_ok] at hwalk
    obtain ⟨s, hs, more, hmore, rfl⟩ := hwalk
    obtain ⟨hraw, hbefore, hblock⟩ := stopAt_eq_ok hs
    cases hblank : allBlank raw.toList with
    | false => exact ⟨s, .head _, by rw [hraw, hblank], n, by rw [hraw, hs]⟩
    | true =>
      have hafter : s.after = m := by
        rw [Block.read?_of_allBlank hblank, Stop.block?, Option.map_eq_none_iff] at hblock
        rw [Stop.after, Stop.resolution?, hblock, hbefore]
        rfl
      rw [hafter] at hmore
      obtain ⟨t, ht, htext⟩ := ih hmore (by simpa [hblank] using h)
      exact ⟨t, .tail _ ht, htext⟩

theorem hasText_raws (hwalk : walk ls = .ok stops) :
    HasText ls ↔ ∃ s ∈ stops, allBlank s.raw.toList = false := by
  rw [← walkFrom_raw hwalk]
  simp [HasText]

theorem walk_letters (hwalk : walk ls = .ok stops) :
    ∀ s ∈ stops, ∀ b, s.block? = some b → allBlank s.raw.toList = false ∧
      ∀ w ∈ b.words, w.letter ∈ addressLetters := by
  intro s hs b hb
  obtain ⟨k, hread⟩ := walkFrom_block hwalk s hs b hb
  exact ⟨Block.allBlank_of_read? hread, Block.letters_of_read? hread⟩

/-- A plain move brings a way of moving in where none was. -/
theorem motion_of_plainMove {settings : Settings} {m : Modal} {b : Block} {r : Resolution}
    (hm : m.motion = none) (hplain : isPlainMove b = true) (hr : m.resolve settings b = .ok r)
    (hstraight : r.isRapid = true ∨ r.isLinear = true) : r.state.motion ≠ none := by
  simp only [isPlainMove, Bool.and_eq_true] at hplain
  obtain ⟨⟨⟨-, hcodes⟩, haxis⟩, -⟩ := hplain
  have hmodes : ∀ code ∈ b.codes 'G', code ∈ Code.motionModes := by
    intro code hcode
    have hknown : ∀ code ∈ ["G0", "G1"], code ∈ Code.motionModes := by decide
    exact hknown code (List.contains_iff_mem.1 (List.all_eq_true.1 hcodes code hcode))
  have hdominant : ∀ code, b.dominant? = some code → code ∈ Code.motionModes := fun code hd =>
    hmodes code (List.contains_iff_mem.1 (List.find?_some hd))
  have happly (hd : b.dominant? = none) : (m.apply b).motion = none := by
    have hnil : b.codes 'G' = [] := by
      rw [List.eq_nil_iff_forall_not_mem]
      intro code hcode
      obtain ⟨d, -, hfound⟩ := dominant_of_motionMode hcode (hmodes code hcode)
      rw [hd] at hfound
      cases hfound
    simp [Modal.apply, Modal.applyDominant, hd, hnil, hm]
  cases resolve_cases hr with
  | code hd =>
    rw [(resolve_of_motionMode hr hd (hdominant _ hd)).1]
    simp
  | modal _ axis =>
    rw [haxis] at axis
    cases axis
  | cycle => rcases hstraight with h | h <;> cases h
  | mode hd _ _ motion =>
    rw [happly hd] at motion
    cases motion
  | first =>
    intro hnone
    cases hnone

/-- Where no way of moving is in force, no move is redundant. -/
theorem isRedundantMove_of_no_motion {settings : Settings} {m : Modal} {n : Int} {raw : String}
    {s : Stop} (hs : m.stopAt settings n raw = .ok s) (hmotion : m.motion = none) :
    isRedundantMove s = false := by
  rw [← (stopAt_eq_ok hs).2.1] at hmotion
  cases hfound : s.found with
  | none => rw [isRedundantMove, hfound]
  | some found =>
  obtain ⟨b, r⟩ := found
  have hr := stopAt_resolve hs hfound
  rw [isRedundantMove, hfound, Bool.eq_false_iff]
  intro h
  simp only [Bool.and_eq_true, Bool.or_eq_true] at h
  obtain ⟨⟨hplain, hstraight⟩, hsame⟩ := h
  simp only [Modal.unchangedBy, Bool.and_eq_true] at hsame
  have hmoved := motion_of_plainMove hmotion hplain hr hstraight
  have hunmoved := eq_of_beq hsame.1.2
  rw [hmotion] at hunmoved
  exact hmoved hunmoved.symm

theorem hasText_removeRedundantMoves (h : HasText ls)
    (hrun : (removeRedundantMoves ls).result = .ok ls') : HasText ls' := by
  obtain ⟨stops, hwalk, rfl⟩ := map_eq_ok.1 hrun
  obtain ⟨s, hs, htext, k, hstop⟩ := walkFrom_text hwalk h
  have hstays : isRedundantMove s = false := isRedundantMove_of_no_motion hstop rfl
  exact ⟨s.raw, List.mem_map_of_mem (List.mem_filter.2 ⟨hs, by simp [hstays]⟩), htext⟩

theorem hasText_dropMotionCodes (h : HasText ls)
    (hrun : (dropMotionCodes ls).result = .ok ls') : HasText ls' := by
  obtain ⟨stops, hwalk, rfl⟩ := map_eq_ok.1 hrun
  obtain ⟨s, hs, htext, k, hstop⟩ := walkFrom_text hwalk h
  have hmotion : s.before.motion = none := by
    rw [(stopAt_eq_ok hstop).2.1]
    rfl
  have hstays : dropMotionCode s = some s.raw := by
    rcases dropMotionCode_cases s with ⟨-, hstays⟩ | ⟨b, code, -, hcode, -⟩
    · exact hstays
    · have hsame := (restates_of_restatedMotion? hcode).motion
      rw [hmotion] at hsame
      cases hsame
  exact ⟨s.raw, List.mem_filterMap.2 ⟨s, hs, hstays⟩, htext⟩

theorem hasText_roundCorners (h : HasText ls) (hrun : (roundCorners ls).result = .ok ls') :
    HasText ls' := by
  obtain ⟨stops, hwalk, rfl⟩ := map_eq_ok.1 hrun
  obtain ⟨s, hs, htext⟩ := (hasText_raws hwalk).1 h
  have hletters := walk_letters hwalk
  clear hwalk hrun
  induction stops with
  | nil => cases hs
  | cons t rest ih =>
    rw [roundCornersOf, hasText_cons]
    cases hs with
    | tail _ hs => exact .inr (ih hs fun t ht => hletters t (.tail _ ht))
    | head =>
      left
      cases hround : rounded? s rest with
      | none => exact htext
      | some b' =>
        obtain ⟨b, hb, -, rfl⟩ := rounded?_spec hround
        refine Block.allBlank_render (hletters s (.head _) b hb).2 ?_
        simp [Block.isBare]

/-- A pass that holds the lines written so far keeps their text and that of every line it meets. -/
theorem hasText_foldl {ι σ : Type} {add : σ → ι → σ} {written : σ → Lines} {isText : ι → Prop}
    {is : List ι}
    (hold : ∀ s, ∀ i ∈ is, HasText (written s) ∨ isText i → HasText (written (add s i)))
    {s : σ} (h : HasText (written s) ∨ ∃ i ∈ is, isText i) :
    HasText (written (is.foldl add s)) := by
  induction is generalizing s with
  | nil => simpa using h
  | cons i is ih =>
    have hold' := fun s j hj => hold s j (.tail _ hj)
    rw [List.foldl_cons]
    rcases h with h | ⟨j, hj, h⟩
    · exact ih hold' (.inl (hold s i (.head _) (.inl h)))
    · cases hj with
      | head => exact ih hold' (.inl (hold s i (.head _) (.inr h)))
      | tail _ hj => exact ih hold' (.inr ⟨j, hj, h⟩)

theorem asRapid_letters {b : Block} (h : ∀ w ∈ b.words, w.letter ∈ addressLetters) :
    (∀ w ∈ (asRapid b).words, w.letter ∈ addressLetters) ∧ (asRapid b).isBare = false := by
  rw [asRapid]
  split
  · rename_i hrapid
    obtain ⟨w, hw, -, -⟩ := mem_codes (List.contains_iff_mem.1 hrapid)
    refine ⟨h, ?_⟩
    have hwords : b.words ≠ [] := List.ne_nil_of_mem hw
    simp [Block.isBare, hwords]
  · refine ⟨?_, by simp [Block.isBare, Block.withFirst]⟩
    intro w hw
    cases hw with
    | head => decide
    | tail _ hw => exact h w hw

theorem hasText_optimizeRapidMoves (h : HasText ls)
    (hrun : (optimizeRapidMoves ls).result = .ok ls') : HasText ls' := by
  obtain ⟨stops, hwalk, rfl⟩ := map_eq_ok.1 hrun
  have hletters := walk_letters hwalk
  rw [hasText_reverse]
  refine hasText_foldl ?_ (.inr ((hasText_raws hwalk).1 h))
  intro r s hs hwritten
  have hraw : HasText (s.raw :: r.written) := hasText_cons.2 hwritten.symm
  rw [Rapids.add]
  split
  · rename_i b hb hplain
    have hmerged := asRapid_letters (hletters s hs b hb).2
    split
    · exact hraw
    · dsimp only
      split
      · exact hasText_cons.2 (.inl (Block.allBlank_render hmerged.1 hmerged.2))
      · exact hraw
  · exact hraw

/-- Codes stand in a line that only states modal codes. -/
theorem text_of_modalOnly {b? : Option Block} {codes : List Code} (h : modalOnly? b? = some codes) :
    ∃ code ∈ codes, 'G' ∈ code.toList := by
  cases b? with
  | none => cases h
  | some b =>
    simp only [modalOnly?] at h
    split at h
    · cases h
    · rename_i hmodal
      cases h
      simp only [Bool.or_eq_true, not_or, Bool.not_eq_true, Bool.not_eq_false'] at hmodal
      obtain ⟨⟨⟨⟨⟨hwords, -⟩, -⟩, honly⟩, -⟩, -⟩ := hmodal
      obtain ⟨w, hw⟩ := List.exists_mem_of_ne_nil b.words (by simpa using hwords)
      have hletter : w.letter = 'G' := by simpa using List.all_eq_true.1 honly w hw
      refine ⟨w.code, List.mem_map_of_mem (List.mem_filter.2 ⟨hw, by simp [hletter]⟩), ?_⟩
      simp [Word.code, hletter]

theorem hasText_consolidateCodes (h : HasText ls) : HasText (consolidateCodes ls) := by
  rw [consolidateCodes, hasText_reverse]
  have hlines : ∃ line ∈ readLines 1 ls, allBlank line.1.toList = false := by
    rw [HasText, ← readLines_map_fst 1 ls] at h
    simpa using h
  refine hasText_foldl ?_ (.inr hlines)
  intro m line hline hwritten
  have hraw : HasText (line.1 :: m.written) := hasText_cons.2 hwritten.symm
  rw [ModalLines.add]
  split
  · exact hraw
  · rename_i codes hcodes
    split
    · exact hraw
    · rename_i before hbefore
      split
      · obtain ⟨code, hcode, hG⟩ := text_of_modalOnly hcodes
        have hmem : 'G' ∈ joined (before ++ codes) :=
          Block.mem_joined_of_mem (List.mem_append_right _ hcode) hG
        exact hasText_cons.2 (.inl (allBlank_eq_false hmem (by decide)))
      · exact hraw

/-- With no feed in effect, a block with a feed leaves text. -/
theorem clampedLine_text {p : Profile} {dropRestated : Bool} {m : FeedMode} {raw : String}
    {n : Int} {b : Block} {feed : Float} (hactive : m.active = none)
    (hread : Block.read? raw n = some b) (hvalue : b.value 'F' = some feed) :
    ∃ l, clampedLine p dropRestated m raw b feed = some l ∧ allBlank l.toList = false := by
  simp only [clampedLine, hactive, Option.any_none, Bool.and_false, Bool.false_eq_true, if_false]
  split
  · exact ⟨raw, rfl, Block.allBlank_of_read? hread⟩
  · refine ⟨_, rfl, Block.allBlank_render ?_ ?_⟩
    · intro w hw
      obtain ⟨v, hv, rfl⟩ := List.mem_map.1 hw
      split
      · show 'F' ∈ addressLetters
        decide
      · exact Block.letters_of_read? hread v hv
    · obtain ⟨w, hw, -, -⟩ := value_eq_some hvalue
      have hwords : b.words ≠ [] := List.ne_nil_of_mem hw
      simp [Block.isBare, withFeed, hwords]

theorem hasText_clampFeeds {p : Profile} {dropRestated : Bool} {m : FeedMode}
    {lines : List (String × Option Block)} (hactive : m.active = none)
    (hread : ∀ line ∈ lines, ∃ k, Block.read? line.1 k = line.2)
    (h : ∃ line ∈ lines, allBlank line.1.toList = false) :
    HasText (clampFeeds p dropRestated m lines) := by
  induction lines generalizing m with
  | nil => simp at h
  | cons line rest ih =>
    obtain ⟨raw, b?⟩ := line
    have hrest := fun line hline => hread line (.tail _ hline)
    obtain ⟨k, hk⟩ := hread _ (.head _)
    cases b? with
    | none =>
      rw [clampFeeds, hasText_cons]
      cases hblank : allBlank raw.toList with
      | false => exact .inl rfl
      | true => exact .inr (ih hactive hrest (by simpa [hblank] using h))
    | some b =>
      cases hvalue : b.value 'F' with
      | none =>
        simp only [clampFeeds, hvalue]
        exact hasText_cons.2 (.inl (Block.allBlank_of_read? hk))
      | some feed =>
        have hmeet : (m.meet b).active = none := by
          rw [FeedMode.meet]
          split_ifs <;> exact hactive
        obtain ⟨l, hl, htext⟩ := clampedLine_text hmeet hk hvalue
        rw [clampFeeds_cons_some _ _ _ hvalue, hl]
        exact hasText_cons.2 (.inl htext)

theorem hasText_optimizeFeedrates {job : Job} (h : HasText ls) :
    HasText (optimizeFeedrates job ls) := by
  refine hasText_clampFeeds rfl (fun line hline => read_of_mem_readLines hline) ?_
  rw [HasText, ← readLines_map_fst 1 ls] at h
  simpa using h

theorem allBlank_arcBlock (arc : FittedArc) (start finish : PlanePoint Float)
    (feed : Option Word) : allBlank (arcBlock arc start finish feed).toList = false := by
  refine allBlank_eq_false (c := 'G') ?_ (by decide)
  refine Block.mem_joined_of_mem (p := if arc.clockwise then "G2" else "G3") (by simp) ?_
  split <;> decide

theorem allBlank_restoreFeedMode {lost : Bool} {s : Stop} (htext : allBlank s.raw.toList = false)
    (hletters : ∀ b, s.block? = some b → ∀ w ∈ b.words, w.letter ∈ addressLetters) :
    allBlank (restoreFeedMode lost s).1.toList = false := by
  unfold restoreFeedMode
  split
  · rename_i b r hfound
    dsimp only
    split_ifs
    · exact htext
    · refine Block.allBlank_render ?_ (by simp [Block.isBare, Block.withFirst])
      intro w hw
      cases hw with
      | head => decide
      | tail _ hw => exact hletters b (by rw [Stop.block?, hfound]; rfl) w hw
    · exact htext
  · exact htext

/-- The lines that an arc takes in stand behind the first of them, which the arc is written for. -/
theorem hasText_replaceChains (fit : Fit) {lost : Bool}
    (hletters : ∀ s ∈ stops, ∀ b, s.block? = some b → allBlank s.raw.toList = false ∧
      ∀ w ∈ b.words, w.letter ∈ addressLetters)
    (h : ∃ s ∈ stops, allBlank s.raw.toList = false) :
    HasText (replaceChains fit lost 0 stops) := by
  induction stops generalizing lost with
  | nil => simp at h
  | cons s rest ih =>
    rw [replaceChains]
    split
    · rename_i block more hchain
      have hblock : ∃ arc start finish feed, block = arcBlock arc start finish feed := by
        simp only [chainAt?] at hchain
        split at hchain
        · cases hchain
        · split_ifs at hchain
          simp only [Option.bind_eq_bind, Option.bind_eq_some_iff] at hchain
          obtain ⟨arc, -, finish, -, hsome⟩ := hchain
          cases hsome
          exact ⟨_, _, _, _, rfl⟩
      obtain ⟨arc, start, finish, feed, rfl⟩ := hblock
      exact hasText_cons.2 (.inl (allBlank_arcBlock _ _ _ _))
    · rw [hasText_cons]
      cases hblank : allBlank s.raw.toList with
      | false =>
        exact .inl (allBlank_restoreFeedMode hblank fun b hb => (hletters s (.head _) b hb).2)
      | true =>
        exact .inr (ih (fun t ht => hletters t (.tail _ ht)) (by simpa [hblank] using h))

theorem hasText_useArcOptimization (h : HasText ls)
    (hrun : (useArcOptimization ls).result = .ok ls') : HasText ls' := by
  obtain ⟨stops, hwalk, rfl⟩ := map_eq_ok.1 hrun
  exact hasText_replaceChains CircleFit.fit (walk_letters hwalk) ((hasText_raws hwalk).1 h)

theorem allBlank_compactLine (l : String) :
    allBlank (compactLine l).toList = allBlank l.toList := by
  have hzeros := (respelled_zerosLine (CommentedLine.ofChars l.toList)).allBlank
  have hgaps := (respelled_gapsLine (CommentedLine.ofChars l.toList)).allBlank
  rw [CommentedLine.mapCode_ofChars] at hzeros
  have hchars : (compactLine l).toList = trim (mapCodeText compact l).toList :=
    String.toList_ofList
  rw [hchars, allBlank_trim, mapCodeText, String.toList_ofList, ← hgaps, ← hzeros]

theorem allBlank_pointLine (l : String) : allBlank (pointLine l).toList = allBlank l.toList := by
  have hsame := (respelled_mapCode (f := id) (g := pointLengths)
    (fun code _ _ => respelled_replaceAll respells_wholeLength code)
    (CommentedLine.ofChars l.toList)).allBlank
  rw [CommentedLine.mapCode_ofChars] at hsame
  rw [pointLine, mapCodeText, String.toList_ofList, ← hsame]

theorem hasText_map {f : String → String} (hf : ∀ l, allBlank (f l).toList = allBlank l.toList) :
    HasText (ls.map f) ↔ HasText ls := by
  simp [HasText, hf]

theorem allBlank_labelled (job : Job) {block : String} (h : 'G' ∈ block.toList) (label : String) :
    allBlank (labelled job block label).toList = false := by
  refine allBlank_eq_false (c := 'G') ?_ (by decide)
  rw [labelled]
  split
  · exact h
  · simp [h]

/-- Smoothing is switched on in a program that says nothing of it, whatever else it holds. -/
theorem hasText_useHighSpeedMode (job : Job) (ls : Lines) : HasText (useHighSpeedMode job ls) := by
  rw [useHighSpeedMode]
  split
  · rename_i hcode
    obtain ⟨b, hb, -⟩ := List.any_eq_true.1 hcode
    obtain ⟨i, raw, hi, hread⟩ := Block.mem_readLinesFrom.1 hb
    exact ⟨raw, List.mem_of_getElem? hi, Block.allBlank_of_read? hread⟩
  · have hmode : ∃ l ∈ smoothingOn job, allBlank l.toList = false := by
      refine ⟨_, List.mem_append_right _ (List.mem_singleton.2 rfl), ?_⟩
      split
      · exact allBlank_labelled job (by decide) _
      · exact allBlank_labelled job (by decide) _
    have hinsert : ∀ (place : Nat) (new as : Lines), HasText new ∨ HasText as →
        HasText (insertAt place new as) := by
      intro place new as h
      rcases h with h | h
      · exact h.mono fun l hl => by simp [insertAt, hl]
      · refine h.mono fun l hl => ?_
        rw [← List.take_append_drop place as, List.mem_append] at hl
        simp only [insertAt, List.mem_append]
        tauto
    exact hinsert _ _ _ (.inr (hinsert _ _ _ (.inl hmode)))

end Rule

namespace Conversational

theorem hasText_renumber {ls : Lines} (h : HasText ls) : HasText (renumber ls) := by
  have hfrom : ∀ n, HasText (numberFrom n ls) := by
    induction ls with
    | nil => exact absurd h hasText_nil
    | cons l rest ih =>
      intro n
      rw [numberFrom]
      split
      · rw [hasText_cons] at h ⊢
        exact h.imp_right fun h => ih h n
      · obtain ⟨d, hd⟩ := List.exists_mem_of_ne_nil _ (toList_toString_ne_nil n)
        refine hasText_cons.2 (.inl (allBlank_eq_false (c := d) ?_ ?_))
        · rw [number_append, String.toList_ofList]
          exact List.mem_append_left _ (List.mem_append_left _ hd)
        · exact isBlank_of_isDigit (isDigit_of_mem_toString hd)
  exact hfrom 0

theorem Renumbers.hasText {ls ls' : Lines} (h : Renumbers ls ls')
    (hleft : isConversational ls = false → ls' = ls) (htext : HasText ls) : HasText ls' := by
  cases hls : isConversational ls with
  | false =>
    rw [hleft hls]
    exact htext
  | true =>
    rcases h with rfl | ⟨plain, rfl, hplain⟩
    · exact htext
    · obtain ⟨front, hopens⟩ := isConversational_iff_opens.1 hls
      have hconversational := isConversational_of_opens (hplain front hopens)
      exact hasText_renumber (.of_isConversational hconversational)

end Conversational

namespace StandardRule

/-- A rule keeps text in a program, except for comments and for modal words. -/
theorem hasText_run {r : StandardRule} {job : Job} {ls ls' : Lines}
    (hcomments : r ≠ .removeComments) (hcodes : r ≠ .removeRedundantCodes) (h : HasText ls)
    (hrun : (r.run job ls).result = .ok ls') : HasText ls' := by
  have hpure : ∀ {out : Lines}, (pure out : Told Lines).result = .ok ls' → HasText out →
      HasText ls' := by
    intro out hout htext
    rw [← Told.result_pure_eq_ok.1 hout]
    exact htext
  cases r with
  | removeEmptyLines => exact hpure hrun (Rule.hasText_removeEmptyLines h)
  | removeComments => exact absurd rfl hcomments
  | removeRedundantMoves => exact Rule.hasText_removeRedundantMoves h hrun
  | removeRedundantCodes => exact absurd rfl hcodes
  | optimizeRapidMoves => exact Rule.hasText_optimizeRapidMoves h hrun
  | consolidateCodes => exact hpure hrun (Rule.hasText_consolidateCodes h)
  | optimizeFeedrates => exact hpure hrun (Rule.hasText_optimizeFeedrates h)
  | useArcOptimization => exact Rule.hasText_useArcOptimization h hrun
  | dropMotionCodes => exact Rule.hasText_dropMotionCodes h hrun
  | useHighSpeedMode => exact hpure hrun (Rule.hasText_useHighSpeedMode job ls)
  | roundCorners => exact Rule.hasText_roundCorners h hrun
  | compactCode => exact hpure hrun ((Rule.hasText_map Rule.allBlank_compactLine).2 h)
  | decimalFormat => exact hpure hrun ((Rule.hasText_map Rule.allBlank_pointLine).2 h)
  | conversationalFormat =>
    simp only [run, Rule.conversationalFormat] at hrun
    split at hrun
    · exact hpure hrun h
    · exact .of_isConversational (isConversational_of_convert hrun)
  | functionBlocks =>
    refine hpure hrun ((renumbers_functionBlocks ls).hasText (fun hls => ?_) h)
    simp [Rule.functionBlocks, hls]
  | tcpm =>
    refine (renumbers_tcpm hrun).hasText (fun hls => ?_) h
    simp only [run, Rule.tcpm, hls, Bool.not_false, Bool.true_or, if_true] at hrun
    exact (Told.result_pure_eq_ok.1 hrun).symm

end StandardRule

theorem Optimization.hasText_ran {job : Job} {turn : StandardRule → Bool}
    {rules : List StandardRule} {ls ls' : Lines} (hcomments : .removeComments ∉ rules)
    (hcodes : .removeRedundantCodes ∉ rules) (h : HasText ls) (hran : Ran job turn rules ls ls') :
    HasText ls' := by
  induction rules generalizing ls with
  | nil =>
    rw [hran]
    exact h
  | cons r rest ih =>
    obtain ⟨mid, hmid, hran⟩ := hran
    rw [List.mem_cons, not_or] at hcomments hcodes
    refine ih hcomments.2 hcodes.2 ?_ hran
    split at hmid
    · exact StandardRule.hasText_run (Ne.symm hcomments.1) (Ne.symm hcodes.1) h hmid
    · rw [hmid]
      exact h

end PartProgram

import PartProgram.Proofs.BlankLines
import PartProgram.Proofs.RuleFaults
import PartProgram.Proofs.StatedWords

/-!
# PartProgram.Proofs.EmptyPrograms

Programs that are reported empty. A text without a block is empty for the toolpath and for the
optimization alike. The optimization looks for text a second time, in what the machine follows once
the rules are through; the rules can leave it with nothing where a program does no more than state
positioning and plane again and again, and then a program with blocks is reported empty as well.

* `LeavesNothing`: the programs that the rules leave nothing of, though the safety checks want some.
* `optimize_empty_iff`: when an optimization reports an empty program.
-/

namespace PartProgram

open Text Conversational

/-- Nothing is left of a program for the machine to follow, and the safety checks want something. -/
structure LeavesNothing (job : Job) (source : Lines) : Prop where
  checked : job.flag .safetyChecks = true
  trims : job.flag .removeRedundantCodes = true
  /-- no smoothing is put in -/
  unsmoothed : ¬ (job.controller = .fanuc ∧ job.flag .useHighSpeedMode = true)
  inBlocks : isConversational source = false
  walks : ∃ stops, walk source = .ok stops
  restates : RestatesOnly {} (readLines 1 (source.filterMap (plainLine job)))

/-! ## Texts without blocks -/

theorem mem_of_mem_linesAfter (line cs : List Char) :
    ∀ l ∈ linesAfter line cs, ∀ c ∈ l, c ∈ line ∨ c ∈ cs := by
  fun_induction linesAfter line cs with
  | case1 line hempty => simp
  | case2 line hempty => simp
  | case3 line rest ih =>
    intro l hl c hc
    cases hl with
    | head => exact .inl (List.mem_reverse.1 hc)
    | tail _ hl =>
      rcases ih l hl c hc with h | h
      · cases h
      · exact .inr (.tail _ (.tail _ h))
  | case4 line c rest hc hend ih =>
    intro l hl d hd
    cases hl with
    | head => exact .inl (List.mem_reverse.1 hd)
    | tail _ hl =>
      rcases ih l hl d hd with h | h
      · cases h
      · exact .inr (.tail _ h)
  | case5 line c rest hc hend ih =>
    intro l hl d hd
    rcases ih l hl d hd with h | h
    · cases h with
      | head => exact .inr (.head _)
      | tail _ h => exact .inl h
    · exact .inr (.tail _ h)

/-- The characters of the lines stand in the text. -/
theorem mem_of_mem_lines {text l : String} (h : l ∈ lines text) :
    ∀ c ∈ l.toList, c ∈ text.toList := by
  simp only [lines, List.mem_map] at h
  obtain ⟨cs, hcs, rfl⟩ := h
  intro c hc
  rw [String.toList_ofList] at hc
  rcases mem_of_mem_linesAfter [] _ cs hcs c hc with h | h
  · cases h
  · exact h

theorem blocks_of_blankText {text : String} (h : Toolpath.isBlankText text = true) (n : Int) :
    Block.readLinesFrom n (lines text) = [] := by
  rw [List.eq_nil_iff_forall_not_mem]
  intro b hb
  obtain ⟨i, raw, hi, hread⟩ := Block.mem_readLinesFrom.1 hb
  have hraw : allBlank raw.toList = true := by
    simp only [Toolpath.isBlankText, allBlank, List.all_eq_true] at h ⊢
    exact fun c hc => h c (mem_of_mem_lines (List.mem_of_getElem? hi) c hc)
  rw [Block.read?_of_allBlank hraw] at hread
  cases hread

/-- The toolpath of a text is reported empty exactly if the text has no block. -/
theorem ofText_empty_iff {text : String} {settings : Settings} :
    (∃ e, Toolpath.ofText text settings = .error (.empty e)) ↔
      Block.readLinesFrom 1 (lines text) = [] := by
  have hmap : (∃ e, Toolpath.ofText text settings = .error (.empty e)) ↔
      ∃ e, Toolpath.passages text settings = .error (.empty e) := by
    rw [Toolpath.ofText]
    cases Toolpath.passages text settings <;> simp [Except.map]
  rw [hmap, Toolpath.passages]
  cases hblank : Toolpath.isBlankText text with
  | true =>
    simp [blocks_of_blankText hblank, throw, throwThe, MonadExceptOf.throw, bind, Except.bind]
  | false =>
    cases hrun : Modal.initial.passFrom settings 1 (lines text) with
    | error fault =>
      have hnever := passFrom_neverEmpty settings .initial 1 (lines text)
      have hblocks : Block.readLinesFrom 1 (lines text) ≠ [] := by
        intro hnil
        have hok : Modal.initial.passFrom settings 1 (lines text) = .ok [] :=
          passFrom_eq_ok_iff.2 ⟨hnil.symm, .initial, .nil⟩
        rw [hrun] at hok
        cases hok
      simp only [bind, Except.bind, hblocks, iff_false, not_exists]
      intro e heq
      exact hnever e (hrun.trans heq)
    | ok ps =>
      have hmap := (passFrom_eq_ok_iff.1 hrun).1
      rw [← hmap]
      cases ps with
      | nil => simp [bind, Except.bind, throw, throwThe, MonadExceptOf.throw]
      | cons p ps => simp [bind, Except.bind, pure, Except.pure]

theorem Told.exists_bind {α β : Type} {t : Told α} {f : α → Told β} {a : α}
    (ht : t.result = .ok a) (hf : ∃ b, (f a).result = .ok b) : ∃ b, (t >>= f).result = .ok b := by
  obtain ⟨b, hb⟩ := hf
  exact ⟨b, Told.result_bind_eq_ok.2 ⟨a, ht, hb⟩⟩

/-! ## What the rules for every control leave -/

namespace Optimization

/-- The rules for every control that follow the one for restated words. -/
def laterNeutralRules : List StandardRule :=
  [.optimizeRapidMoves, .consolidateCodes, .optimizeFeedrates, .useArcOptimization]

variable {job : Job} {turn : StandardRule → Bool} {source ls mid ls' : Lines} {p : Progress}

theorem ran_unique {rules : List StandardRule} {a b : Lines} (ha : Ran job turn rules ls a)
    (hb : Ran job turn rules ls b) : a = b := by
  induction rules generalizing ls with
  | nil => exact Eq.trans ha (Eq.symm hb)
  | cons r rest ih =>
    obtain ⟨mid, hmid, ha⟩ := ha
    obtain ⟨mid', hmid', hb⟩ := hb
    have hsame : mid' = mid := by
      split at hmid
      · rename_i hturn
        rw [if_pos hturn, hmid] at hmid'
        exact (Except.ok.inj hmid').symm
      · rename_i hturn
        rw [if_neg hturn] at hmid'
        exact hmid'.trans hmid.symm
    rw [hsame] at hb
    exact ih ha hb

theorem ran_join {rules rest : List StandardRule} (h : Ran job turn rules ls mid)
    (hrest : Ran job turn rest mid ls') : Ran job turn (rules ++ rest) ls ls' := by
  induction rules generalizing ls with
  | nil =>
    have hmid : mid = ls := h
    rwa [hmid] at hrest
  | cons r rules ih =>
    obtain ⟨next, hnext, h⟩ := h
    exact ⟨next, hnext, ih h⟩

/-- Rules that come to lines one after the other make progress to these lines. -/
theorem steps_of_ran {rules : List StandardRule} (h : Ran job turn rules p.lines ls') :
    ∃ p', (steps job (rules.filter turn) p).result = .ok p' ∧ p'.lines = ls' := by
  induction rules generalizing p with
  | nil => exact ⟨p, Told.result_pure_eq_ok.2 rfl, Eq.symm h⟩
  | cons r rest ih =>
    obtain ⟨mid, hmid, h⟩ := h
    cases hturn : turn r with
    | false =>
      rw [hturn, if_neg Bool.false_ne_true] at hmid
      rw [hmid] at h
      rw [List.filter_cons_of_neg (by simp [hturn])]
      exact ih h
    | true =>
      rw [if_pos hturn] at hmid
      obtain ⟨q, hq, hlines⟩ : ∃ q, (step job p r).result = .ok q ∧ q.lines = mid :=
        ⟨_, Told.result_bind_eq_ok.2 ⟨mid, hmid, Told.result_pure_eq_ok.2 rfl⟩, rfl⟩
      rw [← hlines] at h
      obtain ⟨p', hp', hlines'⟩ := ih h
      rw [List.filter_cons_of_pos hturn, steps]
      exact ⟨p', Told.result_bind_eq_ok.2 ⟨q, hq, hp'⟩, hlines'⟩

theorem dropLineEnd_of_noLineEnd {raw : String} (h : NoLineEnd raw) :
    Block.dropLineEnd raw.toList = raw.toList := by
  have hends : isLineEnd '\r' = true ∧ isLineEnd '\n' = true := by decide
  have hkept : raw.toList.reverse.dropWhile (fun c => c = '\r' || c = '\n') =
      raw.toList.reverse := by
    rw [List.dropWhile_eq_self_iff]
    intro hlen
    have hmem : raw.toList.reverse[0] ∈ raw.toList := List.mem_reverse.1 (List.getElem_mem _)
    have hno := h _ hmem
    intro hend
    rcases Bool.or_eq_true _ _ |>.mp hend with hc | hc
    · rw [of_decide_eq_true hc, hends.1] at hno
      cases hno
    · rw [of_decide_eq_true hc, hends.2] at hno
      cases hno
  rw [Block.dropLineEnd, hkept, List.reverse_reverse]

/-- The code alone is blank exactly if the code is. -/
theorem allBlank_codeAlone (line : CommentedLine) :
    allBlank (Rule.codeAlone line) = allBlank (line.codeWith [' ']) := by
  have hgaps := (respelled_replaceAll (Rule.respells_gap (by decide : 1 ≤ 2)) (line.codeWith [])
    endsNumeral_nil (Respelled.refl [])).allBlank
  rw [List.append_nil, List.append_nil] at hgaps
  rw [Rule.codeAlone, allBlank_trim, ← hgaps]
  have hblank : isBlank ' ' = true := by decide
  simp [allBlank, CommentedLine.codeWith, List.all_flatMap, hblank]

theorem removeCommentsOf_text {raw : String} {n : Int} {b : Block} (hends : NoLineEnd raw)
    (hread : Block.read? raw n = some b) :
    ∃ line, Rule.removeCommentsOf raw = some line ∧ allBlank line.toList = false := by
  rw [Rule.removeCommentsOf]
  split
  · exact ⟨raw, rfl, Block.allBlank_of_read? hread⟩
  · obtain ⟨code, hcode, -⟩ := Option.map_eq_some_iff.1 hread
    have hline : Block.dropLineEnd raw.toList = raw.toList := dropLineEnd_of_noLineEnd hends
    rw [hline] at hcode
    simp only [Block.code?] at hcode
    split at hcode
    · cases hcode
    · rename_i hbare
      have halone : allBlank (Rule.codeAlone (CommentedLine.ofChars raw.toList)) = false := by
        rw [allBlank_codeAlone, Bool.eq_false_iff, Ne, ← trim_eq_nil_iff]
        intro hnil
        exact hbare (by simp [hnil])
      have hne : (Rule.codeAlone (CommentedLine.ofChars raw.toList)).isEmpty = false := by
        cases hempty : (Rule.codeAlone (CommentedLine.ofChars raw.toList)).isEmpty with
        | false => rfl
        | true =>
          rw [List.isEmpty_iff.1 hempty] at halone
          cases halone
      refine ⟨_, if_neg (by simp [hne]), ?_⟩
      rw [String.toList_ofList, halone]

/-- A line with a block keeps text when the comments go. -/
theorem plainLine_text {raw : String} {n : Int} {b : Block} (job : Job) (hends : NoLineEnd raw)
    (hread : Block.read? raw n = some b) :
    ∃ line, plainLine job raw = some line ∧ allBlank line.toList = false := by
  have htext := Block.allBlank_of_read? hread
  rw [plainLine, htext, Bool.and_false, if_neg Bool.false_ne_true]
  split
  · exact removeCommentsOf_text hends hread
  · exact ⟨raw, rfl, htext⟩

theorem plainLines_text (hends : ∀ l ∈ source, NoLineEnd l)
    (hblocks : Block.readLinesFrom 1 source ≠ []) :
    HasText (source.filterMap (plainLine job)) := by
  obtain ⟨b, hb⟩ := List.exists_mem_of_ne_nil _ hblocks
  obtain ⟨i, raw, hi, hread⟩ := Block.mem_readLinesFrom.1 hb
  have hraw := List.mem_of_getElem? hi
  obtain ⟨line, hline, htext⟩ := plainLine_text job (hends raw hraw) hread
  exact ⟨line, List.mem_filterMap.2 ⟨raw, hraw, hline⟩, htext⟩

/-- The rules for every control leave nothing of a program with blocks exactly if restated words go
and it only states again what it has stated. -/
theorem hasText_neutralRules
    (hturn : ∀ r : StandardRule, r.dialect? = none → turn r = r.isEnabled job)
    (hends : ∀ l ∈ source, NoLineEnd l) (hblocks : Block.readLinesFrom 1 source ≠ [])
    (hran : Ran job turn neutralRules source mid) :
    ¬ HasText mid ↔ job.flag .removeRedundantCodes = true ∧
      RestatesOnly {} (readLines 1 (source.filterMap (plainLine job))) := by
  obtain ⟨l₁, hempty, l₂, hcomments, l₃, hmoves, l₄, hcodes, hrest⟩ := hran
  rw [hturn _ rfl] at hempty hcomments hmoves hcodes
  have hplain := plain_lines hempty hcomments
  have hkept : HasText l₄ → HasText mid := fun h =>
    hasText_ran (by decide) (by decide) h (hrest : Ran job turn laterNeutralRules l₄ mid)
  have hblank : ¬ HasText l₄ → ¬ HasText mid := by
    intro h
    obtain ⟨ls', hran', hblank⟩ := ran_blank job turn laterNeutralRules
      (fun hmem => absurd hmem (by decide)) (fun hmem => absurd hmem (by decide)) h
    rw [ran_unique hrest hran']
    exact hblank
  have hmoved : HasText l₂ → HasText l₃ := by
    intro h
    split at hmoves
    · exact Rule.hasText_removeRedundantMoves h hmoves
    · rwa [hmoves]
  have hsame : RestatesOnly {} (readLines 1 l₃) ↔ RestatesOnly {} (readLines 1 l₂) := by
    split at hmoves
    · obtain ⟨stops, hwalk, rfl⟩ := map_eq_ok.1 hmoves
      exact Rule.restatesOnly_filter rfl hwalk
    · rw [hmoves]
  rw [← hplain, ← hsame]
  rw [StandardRule.isEnabled] at hcodes
  cases hflag : job.flag .removeRedundantCodes with
  | false =>
    rw [hflag, if_neg Bool.false_ne_true] at hcodes
    have htext : HasText l₂ := by
      rw [hplain]
      exact plainLines_text hends hblocks
    rw [hcodes] at hkept
    simp [hkept (hmoved htext)]
  | true =>
    rw [hflag, if_pos rfl] at hcodes
    obtain ⟨stops, hwalk, hl₄⟩ := map_eq_ok.1 hcodes
    rw [← Rule.hasText_trimStated rfl hwalk, hl₄]
    constructor
    · exact fun h => ⟨rfl, fun htext => h (hkept htext)⟩
    · exact fun h => hblank h.2

/-- Where a program only states again, every rule comes to an end. -/
theorem exists_ran_neutralRules (hturn : ∀ r : StandardRule, r.dialect? = none →
      turn r = r.isEnabled job) (hflag : job.flag .removeRedundantCodes = true)
    (h : RestatesOnly {} (readLines 1 (source.filterMap (plainLine job)))) :
    ∃ mid, Ran job turn neutralRules source mid ∧ ¬ HasText mid := by
  obtain ⟨l₁, hempty⟩ : ∃ l₁, if turn .removeEmptyLines then
      ((StandardRule.removeEmptyLines).run job source).result = .ok l₁ else l₁ = source := by
    split
    · exact ⟨_, rfl⟩
    · exact ⟨_, rfl⟩
  obtain ⟨l₂, hcomments⟩ : ∃ l₂, if turn .removeComments then
      ((StandardRule.removeComments).run job l₁).result = .ok l₂ else l₂ = l₁ := by
    split
    · exact ⟨_, rfl⟩
    · exact ⟨_, rfl⟩
  have hplain : l₂ = source.filterMap (plainLine job) := by
    refine @plain_lines _ _ _ l₁ ?_ ?_
    · rw [hturn _ rfl] at hempty
      exact hempty
    · rw [hturn _ rfl] at hcomments
      exact hcomments
  rw [← hplain] at h
  obtain ⟨l₃, hmoves, h₃⟩ : ∃ l₃, (if turn .removeRedundantMoves then
      ((StandardRule.removeRedundantMoves).run job l₂).result = .ok l₃ else l₃ = l₂) ∧
        RestatesOnly {} (readLines 1 l₃) := by
    split
    · obtain ⟨stops, hwalk⟩ := Rule.walkFrom_of_restatesOnly .initial .standard h
      exact ⟨_, map_eq_ok.2 ⟨stops, hwalk, rfl⟩, (Rule.restatesOnly_filter rfl hwalk).2 h⟩
    · exact ⟨l₂, rfl, h⟩
  obtain ⟨stops, hwalk⟩ := Rule.walkFrom_of_restatesOnly .initial .standard h₃
  have hblank := (Rule.hasText_trimStated rfl hwalk).2 h₃
  have hcodes : if turn .removeRedundantCodes then
      ((StandardRule.removeRedundantCodes).run job l₃).result =
        .ok (Rule.trimStated {} stops) else Rule.trimStated {} stops = l₃ := by
    rw [hturn _ rfl, StandardRule.isEnabled, hflag, if_pos rfl]
    exact map_eq_ok.2 ⟨stops, hwalk, rfl⟩
  obtain ⟨mid, hrest, hmid⟩ := ran_blank job turn laterNeutralRules
    (fun hmem => absurd hmem (by decide)) (fun hmem => absurd hmem (by decide)) hblank
  exact ⟨mid, ⟨l₁, hempty, l₂, hcomments, l₃, hmoves, _, hcodes, hrest⟩, hmid⟩

/-! ## What the rules for one control leave -/

/-- Nothing can be converted as well. -/
theorem convert_blank (job : Job) (h : ¬ HasText ls) :
    ∃ ls', (convert job ls).result = .ok ls' := by
  have hbounds : boundsOf ls = .ok none := by
    rw [boundsOf, Toolpath.ofText, Toolpath.passages, isBlankText_joinLines_iff.2 h]
    rfl
  have hfrom : ∀ (n : Int) (t : Tooling),
      ∃ entries, (convertFrom job .initial t n ls).result = .ok entries := by
    clear hbounds
    induction ls with
    | nil => exact fun n t => ⟨_, rfl⟩
    | cons raw rest ih =>
      intro n t
      rw [hasText_cons, not_or, Bool.not_eq_false] at h
      have hstop : Modal.initial.stopAt .standard n raw = .ok (Rule.idleStop .initial raw) := by
        rw [Modal.stopAt, Block.read?_of_allBlank h.1]
        rfl
      obtain ⟨⟨more, t'⟩, hmore⟩ := ih h.2 (n + 1) t
      refine Told.exists_bind ((Told.result_lift _).trans hstop) ?_
      exact Told.exists_bind rfl (Told.exists_bind hmore ⟨_, rfl⟩)
  obtain ⟨⟨body, t⟩, hbody⟩ := hfrom 1 {}
  obtain ⟨entries, hentries⟩ : ∃ entries, (programEntries job ls).result = .ok entries :=
    Told.exists_bind hbody (Told.exists_bind hbounds ⟨_, rfl⟩)
  exact Told.exists_bind hentries ⟨_, rfl⟩

/-- The rules that number a conversational program anew never stop. -/
theorem exists_ran_numbering (job : Job) (turn : StandardRule → Bool) (ls : Lines) :
    ∃ ls', Ran job turn [.functionBlocks, .tcpm] ls ls' := by
  have hblocks : ∃ mid, if turn .functionBlocks then
      ((StandardRule.functionBlocks).run job ls).result = .ok mid else mid = ls := by
    split
    · exact ⟨_, rfl⟩
    · exact ⟨_, rfl⟩
  obtain ⟨mid, hmid⟩ := hblocks
  have htcpm : ∃ ls', if turn .tcpm then
      ((StandardRule.tcpm).run job mid).result = .ok ls' else ls' = mid := by
    split
    · simp only [StandardRule.run, Rule.tcpm]
      split
      · exact ⟨_, rfl⟩
      · split
        · exact ⟨_, rfl⟩
        · exact ⟨_, rfl⟩
    · exact ⟨_, rfl⟩
  obtain ⟨ls', hls'⟩ := htcpm
  exact ⟨ls', mid, hmid, ls', hls', rfl⟩

theorem exists_ran_controlRules (h : ¬ HasText mid)
    (hspeed : ¬ (job.controller = .fanuc ∧ turn .useHighSpeedMode = true)) :
    ∃ ls', Ran job turn (controlRules job.controller) mid ls' := by
  cases hc : job.controller with
  | fanuc =>
    have hoff : turn .useHighSpeedMode = false := by
      rw [Bool.eq_false_iff]
      exact fun hon => hspeed ⟨hc, hon⟩
    obtain ⟨ls', hran, -⟩ := ran_blank job turn blockRules
      (fun _ => hoff) (fun hmem => absurd hmem (by decide)) h
    exact ⟨ls', hran⟩
  | heidenhain =>
    have hformat : ∃ next, if turn .conversationalFormat then
        ((StandardRule.conversationalFormat).run job mid).result = .ok next else next = mid := by
      split
      · simp only [StandardRule.run, Rule.conversationalFormat, not_isConversational_blank h,
          Bool.false_eq_true, if_false]
        exact convert_blank job h
      · exact ⟨_, rfl⟩
    obtain ⟨next, hnext⟩ := hformat
    obtain ⟨ls', hran⟩ := exists_ran_numbering job turn next
    exact ⟨ls', next, hnext, hran⟩
  | _ => exact ⟨mid, rfl⟩

/-- Blank lines stay blank or become a conversational program, unless smoothing is put in. -/
theorem controlRules_blank (h : ¬ HasText mid)
    (hspeed : ¬ (job.controller = .fanuc ∧ turn .useHighSpeedMode = true))
    (hran : Ran job turn (controlRules job.controller) mid ls') :
    isConversational ls' = true ∨ ¬ HasText ls' := by
  by_cases hformat : job.controller = .heidenhain ∧ turn .conversationalFormat = true
  · left
    obtain ⟨hc, hturn⟩ := hformat
    rw [hc] at hran
    obtain ⟨next, hnext, hran⟩ := hran
    rw [if_pos hturn, StandardRule.run, Rule.conversationalFormat, not_isConversational_blank h,
      if_neg Bool.false_ne_true] at hnext
    obtain ⟨front, hopens, hne⟩ := opens_of_convert hnext
    obtain ⟨last, hblocks, htcpm, -⟩ := renumbers_ran hran
    exact isConversational_of_opens (htcpm.opens (hblocks.opens hopens hne) hne)
  · right
    have hnoSpeed : .useHighSpeedMode ∈ controlRules job.controller →
        turn .useHighSpeedMode = false := by
      have hall : ∀ c : Controller, .useHighSpeedMode ∈ controlRules c → c = .fanuc := by
        intro c
        cases c <;> decide
      intro hmem
      rw [Bool.eq_false_iff]
      exact fun hon => hspeed ⟨hall _ hmem, hon⟩
    have hnoFormat : .conversationalFormat ∈ controlRules job.controller →
        turn .conversationalFormat = false := by
      have hall : ∀ c : Controller, .conversationalFormat ∈ controlRules c → c = .heidenhain := by
        intro c
        cases c <;> decide
      intro hmem
      rw [Bool.eq_false_iff]
      exact fun hon => hformat ⟨hall _ hmem, hon⟩
    obtain ⟨ls'', hran', hblank⟩ := ran_blank job turn _ hnoSpeed hnoFormat h
    rw [ran_unique hran hran']
    exact hblank

/-- Smoothing is no conversational program, however it is spelled. -/
theorem not_isConversational_spelled (h : ∀ l ∈ ls, Rule.IsSmoothing l)
    (hran : Ran job turn [.compactCode, .decimalFormat] ls ls') : isConversational ls' = false := by
  obtain ⟨l₁, hcompact, l₂, hpoints, hlast⟩ := hran
  have hl₁ : l₁ = ls ∨ l₁ = ls.map Rule.compactLine := by
    split at hcompact
    · exact .inr (Told.result_pure_eq_ok.1 hcompact).symm
    · exact .inl hcompact
  have hl₂ : l₂ = l₁ ∨ l₂ = l₁.map Rule.pointLine := by
    split at hpoints
    · exact .inr (Told.result_pure_eq_ok.1 hpoints).symm
    · exact .inl hpoints
  have hclosed : ∀ l ∈ l₂, isOpening l = false := by
    intro l hl
    rcases hl₂ with rfl | rfl <;> rcases hl₁ with rfl | rfl
    · exact (Rule.isOpening_of_isSmoothing (h l hl)).1
    · obtain ⟨k, hk, rfl⟩ := List.mem_map.1 hl
      exact (Rule.isOpening_of_isSmoothing (h k hk)).2.1
    · obtain ⟨k, hk, rfl⟩ := List.mem_map.1 hl
      exact (Rule.isOpening_of_isSmoothing (h k hk)).2.2.1
    · obtain ⟨k', hk', rfl⟩ := List.mem_map.1 hl
      obtain ⟨k, hk, rfl⟩ := List.mem_map.1 hk'
      exact (Rule.isOpening_of_isSmoothing (h k hk)).2.2.2
  rw [hlast, Bool.eq_false_iff]
  intro hconversational
  obtain ⟨op, hop, hopening⟩ := (Option.any_eq_true _ _).1 hconversational
  rw [hclosed op (List.mem_of_find?_eq_some hop)] at hopening
  cases hopening

/-- Smoothing that is put into nothing is text and no conversational program. -/
theorem blockRules_smoothing (h : ¬ HasText mid) (hspeed : turn .useHighSpeedMode = true)
    (hran : Ran job turn blockRules mid ls') : HasText ls' ∧ isConversational ls' = false := by
  obtain ⟨l₁, hmotion, l₂, hsmooth, l₃, hround, hspelled⟩ := hran
  rw [if_pos hspeed] at hsmooth
  have hl₂ : l₂ = Rule.useHighSpeedMode job l₁ := (Told.result_pure_eq_ok.1 hsmooth).symm
  have htext : HasText l₂ := by
    rw [hl₂]
    exact Rule.hasText_useHighSpeedMode job l₁
  have hrest : Ran job turn [.roundCorners, .compactCode, .decimalFormat] l₂ ls' :=
    ⟨l₃, hround, hspelled⟩
  refine ⟨hasText_ran (by decide) (by decide) htext hrest, ?_⟩
  have hblank : ¬ HasText l₁ := by
    split at hmotion
    · obtain ⟨ls, hrun, hls⟩ := StandardRule.run_blank (r := .dropMotionCodes) job
        (by decide) (by decide) h
      rw [hrun] at hmotion
      cases hmotion
      exact hls
    · rwa [hmotion]
  have hall : ∀ l ∈ l₂, Rule.IsSmoothing l := by
    rw [hl₂]
    exact Rule.isSmoothing_useHighSpeedMode hblank
  have hsame : l₃ = l₂ := by
    split at hround
    · exact Rule.roundCorners_of_isSmoothing hall hround
    · exact hround
  rw [hsame] at hspelled
  exact not_isConversational_spelled hall hspelled

/-! ## What the machine follows -/

theorem hasTurn_false (r : StandardRule) : hasTurn job false r = r.isEnabled job := by
  simp [hasTurn]

/-- The machine has nothing to follow exactly if smoothing is not put in, restated words go, and the
program only states again what it has stated. -/
theorem hasText_followed (hsource : isConversational source = false)
    (hends : ∀ l ∈ source, NoLineEnd l) (hblocks : Block.readLinesFrom 1 source ≠ [])
    (h : (applyRules job source).result = .ok p) :
    ¬ HasText (followed source p) ↔
      ¬ (job.controller = .fanuc ∧ job.flag .useHighSpeedMode = true) ∧
        job.flag .removeRedundantCodes = true ∧
          RestatesOnly {} (readLines 1 (source.filterMap (plainLine job))) := by
  obtain ⟨mid, hneutral, hcontrol, hmid⟩ := applyRules_stages h
  rw [hsource] at hneutral hcontrol
  rw [← hasText_neutralRules (fun r _ => hasTurn_false r) hends hblocks hneutral]
  have hspeed : hasTurn job false .useHighSpeedMode = job.flag .useHighSpeedMode :=
    hasTurn_false .useHighSpeedMode
  have hfollowed : followed source p = if isConversational p.lines then mid else p.lines := by
    simp [followed, hsource, hmid]
  have hkept : HasText mid → HasText p.lines := by
    intro htext
    refine hasText_ran ?_ ?_ htext hcontrol <;> cases job.controller <;> decide
  rw [hfollowed]
  constructor
  · intro hblank
    have hnone : ¬ HasText mid := by
      intro htext
      split at hblank
      · exact hblank htext
      · exact hblank (hkept htext)
    refine ⟨?_, hnone⟩
    rintro ⟨hc, hon⟩
    rw [hc] at hcontrol
    obtain ⟨htext, hlost⟩ := blockRules_smoothing hnone (hspeed.trans hon) hcontrol
    rw [hlost, if_neg Bool.false_ne_true] at hblank
    exact hblank htext
  · rintro ⟨hoff, hnone⟩
    rw [← hspeed] at hoff
    split
    · exact hnone
    · rename_i hlost
      exact (controlRules_blank hnone hoff hcontrol).resolve_left hlost

end Optimization

/-! ## Reports of an empty program -/

section

variable {job : Job} {source gcode output : Lines} {said : List Notice}

/-- The safety checks report an empty program where the machine has nothing to follow. -/
theorem validate_empty_iff :
    (∃ e, Validation.validate job gcode output said = .error (.empty e)) ↔
      job.flag .safetyChecks = true ∧ isConversational gcode = false ∧ ¬ HasText gcode := by
  rw [Validation.validate]
  cases job.flag .safetyChecks with
  | false => simp [pure, Except.pure]
  | true =>
    rw [Validation.gcodeReport]
    cases isConversational gcode with
    | true => simp [bind, Except.bind, pure, Except.pure]
    | false =>
      have hmotion : ∀ e maxFeed, (∃ program,
          Validation.motionReport gcode e maxFeed = .error (.empty program)) ↔ ¬ HasText gcode := by
        intro e maxFeed
        rw [← isBlankText_joinLines_iff, Validation.motionReport]
        cases hblank : Toolpath.isBlankText (joinLines gcode) with
        | true =>
          have hnone : Toolpath.passages (joinLines gcode) .standard = .error (.empty .noText) := by
            rw [Toolpath.passages, hblank]
            rfl
          rw [hnone]
          simp
        | false =>
          cases hpassages : Toolpath.passages (joinLines gcode) .standard with
          | ok ps => simp
          | error fault => cases fault <;> simp
      rw [← hmotion (Validation.envelopeOf job) job.profile.maxFeed]
      cases Validation.motionReport gcode (Validation.envelopeOf job) job.profile.maxFeed with
      | error fault => simp [bind, Except.bind]
      | ok report => simp [bind, Except.bind, pure, Except.pure]

theorem hasText_of_conversational {p : Progress} (hsource : isConversational source = true)
    (h : (Optimization.applyRules job source).result = .ok p) :
    HasText (Optimization.followed source p) := by
  have hfollowed : Optimization.followed source p = p.lines := by
    simp [Optimization.followed, hsource]
  have htext : HasText source := .of_isConversational hsource
  rw [hfollowed]
  by_cases hc : job.controller = .heidenhain
  · refine Optimization.hasText_ran (by decide) (by decide) ?_ (conversational_stages hc hsource h)
    split
    · exact Rule.hasText_removeEmptyLines htext
    · exact htext
  · rw [applyRules_of_conversational hc hsource h]
    exact htext

/-- Where the rules leave nothing, they come to an end. -/
theorem LeavesNothing.applyRules (h : LeavesNothing job source) :
    ∃ p, (Optimization.applyRules job source).result = .ok p := by
  obtain ⟨mid, hneutral, hblank⟩ := Optimization.exists_ran_neutralRules
    (fun r _ => Optimization.hasTurn_false r) h.trims h.restates
  have hunsmoothed : ¬ (job.controller = .fanuc ∧
      Optimization.hasTurn job false .useHighSpeedMode = true) := by
    rw [Optimization.hasTurn_false]
    exact h.unsmoothed
  obtain ⟨ls', hcontrol⟩ := Optimization.exists_ran_controlRules hblank hunsmoothed
  obtain ⟨p, hp, -⟩ := Optimization.steps_of_ran (p := { lines := source })
    (Optimization.ran_join hneutral hcontrol)
  rw [Optimization.applyRules_result, h.inBlocks, Optimization.rulesOf_eq, ← List.filter_append]
  exact ⟨p, hp⟩

theorem measure_ok (job : Job) (output : Lines) (hwalk : ∃ stops, walk source = .ok stops)
    (h : ¬ HasText gcode) :
    ∃ s, Statistics.measure job source output gcode = .ok s := by
  obtain ⟨before, hbefore⟩ := countWork_ok_iff.2 hwalk
  obtain ⟨after, hafter⟩ :=
    countWork_ok_iff.2 ⟨gcode.map (Rule.idleStop .initial), Rule.walkFrom_blank h⟩
  obtain ⟨removed, hremoved⟩ : ∃ n, Statistics.removedWork source gcode = .ok n := by
    rw [Statistics.removedWork]
    split
    · exact ⟨0, rfl⟩
    · exact ⟨_, bind_eq_ok.2 ⟨before, hbefore, bind_eq_ok.2 ⟨after, hafter, rfl⟩⟩⟩
  exact ⟨_, bind_eq_ok.2 ⟨removed, hremoved, rfl⟩⟩

theorem walk_of_measure {s : Statistics} (hsource : isConversational source = false)
    (hgcode : isConversational gcode = false)
    (h : Statistics.measure job source output gcode = .ok s) :
    ∃ stops, walk source = .ok stops := by
  simp only [Statistics.measure, Statistics.removedWork, hsource, hgcode, Bool.or_self,
    Bool.false_eq_true, if_false, bind_eq_ok, pure_eq_ok] at h
  obtain ⟨removed, ⟨n, hn, -⟩, -⟩ := h
  exact countWork_ok_iff.1 ⟨n, hn⟩

theorem leavesNothing_iff {p : Progress} (hends : ∀ l ∈ source, NoLineEnd l)
    (hblocks : Block.readLinesFrom 1 source ≠ [])
    (h : (Optimization.applyRules job source).result = .ok p) :
    LeavesNothing job source ↔ job.flag .safetyChecks = true ∧
      isConversational (Optimization.followed source p) = false ∧
        ¬ HasText (Optimization.followed source p) ∧ ∃ stops, walk source = .ok stops := by
  constructor
  · intro hnothing
    have hblank := (Optimization.hasText_followed hnothing.inBlocks hends hblocks h).2
      ⟨hnothing.unsmoothed, hnothing.trims, hnothing.restates⟩
    exact ⟨hnothing.checked, not_isConversational_blank hblank, hblank, hnothing.walks⟩
  · rintro ⟨hchecked, -, hblank, hwalks⟩
    have hsource : isConversational source = false := by
      rw [Bool.eq_false_iff]
      exact fun hsource => hblank (hasText_of_conversational hsource h)
    obtain ⟨hspeed, htrims, hrestates⟩ :=
      (Optimization.hasText_followed hsource hends hblocks h).1 hblank
    exact ⟨hchecked, htrims, hspeed, hsource, hwalks, hrestates⟩

/-- Once the work is counted, a program that nothing is left of has been walked. -/
theorem validate_empty_iff_of_measure {p : Progress} {s : Statistics} (told : List Notice)
    (h : (Optimization.applyRules job source).result = .ok p)
    (hmeasure : Statistics.measure job source output (Optimization.followed source p) = .ok s) :
    (∃ e, Validation.validate job (Optimization.followed source p) output told =
        .error (.empty e)) ↔
      job.flag .safetyChecks = true ∧
        isConversational (Optimization.followed source p) = false ∧
          ¬ HasText (Optimization.followed source p) ∧ ∃ stops, walk source = .ok stops := by
  rw [validate_empty_iff]
  refine and_congr_right fun _ => and_congr_right fun hlost => ?_
  refine ⟨fun hblank => ⟨hblank, ?_⟩, And.left⟩
  have hsource : isConversational source = false := by
    rw [Bool.eq_false_iff]
    exact fun hsource => hblank (hasText_of_conversational hsource h)
  exact walk_of_measure hsource hlost hmeasure

/-- The optimization of lines with a block reports an empty program exactly if it leaves nothing. -/
theorem ofLines_empty_iff (hends : ∀ l ∈ source, NoLineEnd l)
    (hblocks : Block.readLinesFrom 1 source ≠ []) :
    (∃ e, Optimization.ofLines job source = .error (.empty e)) ↔ LeavesNothing job source := by
  rw [Optimization.ofLines]
  dsimp only
  cases hrules : (Optimization.applyRules job source).result with
  | error fault =>
    constructor
    · rintro ⟨e, he⟩
      have hfault : fault = .empty e := Except.error.inj he
      exact absurd (hrules.trans (by rw [hfault])) (applyRules_neverEmpty job source e)
    · intro h
      obtain ⟨p, hp⟩ := h.applyRules
      rw [hrules] at hp
      cases hp
  | ok p =>
    rw [leavesNothing_iff hends hblocks hrules]
    simp only [bind, Except.bind]
    cases hmeasure : Statistics.measure job source p.lines (Optimization.followed source p) with
    | error fault =>
      constructor
      · rintro ⟨e, he⟩
        have hfault : fault = .empty e := Except.error.inj he
        exact absurd (hmeasure.trans (by rw [hfault])) (measure_neverEmpty source p.lines _ e)
      · rintro ⟨-, -, hblank, hwalk⟩
        obtain ⟨s, hs⟩ := measure_ok job p.lines hwalk hblank
        rw [hmeasure] at hs
        cases hs
    | ok s =>
      rw [← validate_empty_iff_of_measure (Optimization.applyRules job source).notices hrules
        hmeasure]
      cases Validation.validate job (Optimization.followed source p) p.lines
          (Optimization.applyRules job source).notices with
      | error fault => simp
      | ok report => simp [pure, Except.pure]

end

/-- An optimization reports an empty program exactly if the toolpath does, or if the program has
blocks of which nothing is left. -/
theorem optimize_empty_iff {source : String} {c : Controller} {o : Options}
    (hcheck : o.checkFor c = .ok ()) (settings : Settings) :
    (∃ e, optimize source (.ok c) (some o) = .error (.empty e)) ↔
      (∃ e, Toolpath.ofText source settings = .error (.empty e)) ∨
        LeavesNothing ⟨c, o⟩ (lines source) := by
  rw [ofText_empty_iff, optimize]
  cases hblank : Toolpath.isBlankText source with
  | true =>
    simp [blocks_of_blankText hblank, throw, throwThe, MonadExceptOf.throw, bind, Except.bind]
  | false =>
    by_cases hblocks : Block.readLinesFrom 1 (lines source) = []
    · simp [hcheck, hblocks, bind, Except.bind, pure, Except.pure, throw, throwThe,
        MonadExceptOf.throw]
    · have hends : ∀ l ∈ lines source, NoLineEnd l := fun l hl => noLineEnd_of_mem_lines hl
      rw [← ofLines_empty_iff hends hblocks]
      simp [hcheck, hblocks, bind, Except.bind, pure, Except.pure]

/-- Every block states what it or a block before it has stated, so nothing is left, though the
machine has a toolpath without points. -/
theorem optimize_empty_restated :
    (∃ t, Toolpath.ofText "G17 G17\n\nG90 G90 G17" .standard = .ok t) ∧
      ∃ e, optimize "G17 G17\n\nG90 G90 G17" (.ok .generic) (some {}) = .error (.empty e) := by
  have hnothing : LeavesNothing ⟨.generic, {}⟩ (lines "G17 G17\n\nG90 G90 G17") :=
    { checked := by decide
      trims := by decide
      unsmoothed := by decide
      inBlocks := by decide +kernel
      walks := exists_eq_ok (by decide +kernel)
      restates := by decide +kernel }
  have hcheck : Options.checkFor {} .generic = .ok () := rfl
  exact ⟨exists_eq_ok (by decide +kernel), (optimize_empty_iff hcheck .standard).2 (.inr hnothing)⟩

/-- A block that says `G90` twice says it again, so it goes, and the program with it. -/
theorem optimize_empty_despite_block :
    ¬ ∀ source c (o : Options), Block.readLinesFrom 1 (lines source) ≠ [] → o.checkFor c = .ok () →
      ∀ e, optimize source (.ok c) (some o) ≠ .error (.empty e) := by
  intro hclaim
  have hblocks : Block.readLinesFrom 1 (lines "G90 G90") ≠ [] := by decide +kernel
  have hcheck : Options.checkFor {} .generic = .ok () := rfl
  have hempty : ¬ NeverEmpty (optimize "G90 G90" (.ok .generic) (some {})) := by decide +kernel
  exact hempty (hclaim _ _ _ hblocks hcheck)

end PartProgram

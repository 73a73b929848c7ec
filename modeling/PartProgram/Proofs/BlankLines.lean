import PartProgram.Proofs.KeptText

/-!
# PartProgram.Proofs.BlankLines

Programs of blank lines. A walk finds nothing in them, so every rule leaves them as they are, except
that smoothing is switched on for high speed, and a conversational program is made even of nothing.

* `StandardRule.run_blank`: the rules that leave blank lines blank.
* `Rule.isOpening_of_isSmoothing`: what is put in for high speed does not make a program
  conversational.
-/

namespace PartProgram

open Text Conversational

namespace Rule

variable {ls : Lines}

/-- A stop at a line without a block. -/
def idleStop (m : Modal) (l : String) : Stop := ⟨l, m, none⟩

theorem map_idleStop_raw (m : Modal) (ls : Lines) : (ls.map (idleStop m)).map Stop.raw = ls := by
  rw [List.map_map]
  exact List.map_id ls

theorem walkFrom_blank {m : Modal} {settings : Settings} {n : Int} (h : ¬ HasText ls) :
    m.walkFrom settings n ls = .ok (ls.map (idleStop m)) := by
  induction ls generalizing n with
  | nil => rfl
  | cons l rest ih =>
    rw [hasText_cons, not_or, Bool.not_eq_false] at h
    have hread : Block.read? l n = none := Block.read?_of_allBlank h.1 n
    have hstop : m.stopAt settings n l = .ok (idleStop m l) := by rw [Modal.stopAt, hread]; rfl
    have hafter : (idleStop m l).after = m := rfl
    simp only [Modal.walkFrom, hstop, bind_eq_ok, pure_eq_ok]
    exact ⟨_, rfl, _, by rw [hafter]; exact ih h.2, rfl⟩

theorem readLines_blank {n : Int} (h : ¬ HasText ls) :
    readLines n ls = ls.map fun l => (l, none) := by
  induction ls generalizing n with
  | nil => rfl
  | cons l rest ih =>
    rw [hasText_cons, not_or, Bool.not_eq_false] at h
    rw [readLines, Block.read?_of_allBlank h.1 n, ih h.2, List.map_cons]

theorem ofWalk_blank {f : List Stop → Lines} (h : ¬ HasText ls)
    (hf : f (ls.map (idleStop .initial)) = ls) : (Revised.ofWalk ls f).result = .ok ls :=
  map_eq_ok.2 ⟨_, walkFrom_blank h, hf⟩

theorem removeCommentsOf_blank {l : String} (h : allBlank l.toList = true) :
    removeCommentsOf l = some l := by
  rw [removeCommentsOf_eq_some_iff, CommentedLine.ofChars_of_no_mark]
  intro c hc
  have hblank := List.all_eq_true.1 h c hc
  refine ⟨?_, ?_⟩ <;> rintro rfl <;> exact absurd hblank (by decide)

theorem trimStated_idle (s : Stated) (m : Modal) (ls : Lines) :
    trimStated s (ls.map (idleStop m)) = ls := by
  induction ls with
  | nil => rfl
  | cons l rest ih =>
    rw [List.map_cons, trimStated_cons_none s rfl, ih]
    rfl

theorem foldl_idle {ι σ : Type} {add : σ → ι → σ} {line : String → ι} (written : σ → Lines)
    (hadd : ∀ s l, written (add s (line l)) = l :: written s) (s : σ) (ls : Lines) :
    written ((ls.map line).foldl add s) = ls.reverse ++ written s := by
  induction ls generalizing s with
  | nil => rfl
  | cons l rest ih =>
    rw [List.map_cons, List.foldl_cons, ih, hadd]
    simp

theorem clampFeeds_idle (p : Profile) (dropRestated : Bool) (m : FeedMode) (ls : Lines) :
    clampFeeds p dropRestated m (ls.map fun l => (l, none)) = ls := by
  induction ls with
  | nil => rfl
  | cons l rest ih => rw [List.map_cons, clampFeeds, ih]

theorem replaceChains_idle (fit : Fit) (m : Modal) (ls : Lines) :
    replaceChains fit false 0 (ls.map (idleStop m)) = ls := by
  induction ls with
  | nil => rfl
  | cons l rest ih =>
    have hchain : chainAt? fit (idleStop m l) (rest.map (idleStop m)) = none := rfl
    rw [List.map_cons, replaceChains, hchain, restoreFeedMode_false]
    show l :: replaceChains fit false 0 (rest.map (idleStop m)) = l :: rest
    rw [ih]

/-- Where nothing feeds straight, there is no corner to round. -/
theorem roundCornersOf_of_no_straight {stops : List Stop}
    (h : ∀ s ∈ stops, ∀ b r, s.found = some (b, r) → straightFeed? r = none) :
    roundCornersOf stops = stops.map Stop.raw := by
  induction stops with
  | nil => rfl
  | cons s rest ih =>
    have hround : rounded? s rest = none := by
      rw [rounded?]
      cases hfound : s.found with
      | none => rfl
      | some found =>
        obtain ⟨b, r⟩ := found
        have hnone := h s (.head _) b r hfound
        simp [hnone]
    rw [roundCornersOf, hround, List.map_cons, ih fun t ht => h t (.tail _ ht)]
    rfl

theorem roundCornersOf_idle (m : Modal) (ls : Lines) :
    roundCornersOf (ls.map (idleStop m)) = ls := by
  rw [roundCornersOf_of_no_straight, map_idleStop_raw]
  intro s hs b r hfound
  obtain ⟨l, -, rfl⟩ := List.mem_map.1 hs
  cases hfound

end Rule

theorem not_isConversational_blank {ls : Lines} (h : ¬ HasText ls) :
    isConversational ls = false := by
  rw [Bool.eq_false_iff]
  exact fun hconversational => h (.of_isConversational hconversational)

namespace StandardRule

open Rule

/-- Blank lines stay blank, unless smoothing is switched on or they are converted. -/
theorem run_blank {r : StandardRule} {ls : Lines} (job : Job) (hspeed : r ≠ .useHighSpeedMode)
    (hformat : r ≠ .conversationalFormat) (h : ¬ HasText ls) :
    ∃ ls', (r.run job ls).result = .ok ls' ∧ ¬ HasText ls' := by
  cases r with
  | removeEmptyLines =>
    exact ⟨_, rfl, fun htext => h (htext.mono fun l hl => List.mem_of_mem_filter hl)⟩
  | removeComments =>
    have hsame : Rule.removeComments ls = ls := by
      refine filterMap_eq_self_iff.2 fun l hl => removeCommentsOf_blank ?_
      exact not_hasText_iff.1 h l hl
    exact ⟨ls, Told.result_pure_eq_ok.2 hsame, h⟩
  | removeRedundantMoves =>
    refine ⟨ls, ofWalk_blank h ?_, h⟩
    have hstays : ∀ s ∈ ls.map (idleStop .initial), (!isRedundantMove s) = true := by
      intro s hs
      obtain ⟨l, -, rfl⟩ := List.mem_map.1 hs
      rfl
    rw [List.filter_eq_self.2 hstays, map_idleStop_raw]
  | removeRedundantCodes => exact ⟨ls, ofWalk_blank h (trimStated_idle {} _ ls), h⟩
  | optimizeRapidMoves =>
    refine ⟨ls, ofWalk_blank h ?_, h⟩
    rw [foldl_idle Rapids.written fun r l => rfl]
    simp
  | consolidateCodes =>
    refine ⟨ls, Told.result_pure_eq_ok.2 ?_, h⟩
    rw [Rule.consolidateCodes, readLines_blank h,
      foldl_idle ModalLines.written fun m l => rfl]
    simp
  | optimizeFeedrates =>
    refine ⟨ls, Told.result_pure_eq_ok.2 ?_, h⟩
    rw [Rule.optimizeFeedrates, readLines_blank h, clampFeeds_idle]
  | useArcOptimization => exact ⟨ls, ofWalk_blank h (replaceChains_idle _ _ ls), h⟩
  | dropMotionCodes =>
    refine ⟨ls, ofWalk_blank h ?_, h⟩
    rw [List.filterMap_map]
    exact filterMap_eq_self_iff.2 fun l _ => rfl
  | useHighSpeedMode => exact absurd rfl hspeed
  | roundCorners => exact ⟨ls, ofWalk_blank h (roundCornersOf_idle _ ls), h⟩
  | compactCode => exact ⟨_, rfl, fun htext => h ((hasText_map allBlank_compactLine).1 htext)⟩
  | decimalFormat => exact ⟨_, rfl, fun htext => h ((hasText_map allBlank_pointLine).1 htext)⟩
  | conversationalFormat => exact absurd rfl hformat
  | functionBlocks =>
    refine ⟨ls, Told.result_pure_eq_ok.2 ?_, h⟩
    simp [Rule.functionBlocks, not_isConversational_blank h]
  | tcpm =>
    refine ⟨ls, ?_, h⟩
    simp only [run, Rule.tcpm, not_isConversational_blank h, Bool.not_false, Bool.true_or, if_true]
    exact Told.result_pure_eq_ok.2 rfl

end StandardRule

theorem Optimization.ran_blank (job : Job) (turn : StandardRule → Bool)
    (rules : List StandardRule) {ls : Lines}
    (hspeed : .useHighSpeedMode ∈ rules → turn .useHighSpeedMode = false)
    (hformat : .conversationalFormat ∈ rules → turn .conversationalFormat = false)
    (h : ¬ HasText ls) : ∃ ls', Ran job turn rules ls ls' ∧ ¬ HasText ls' := by
  induction rules generalizing ls with
  | nil => exact ⟨ls, rfl, h⟩
  | cons r rest ih =>
    have hrest : ∀ mid, ¬ HasText mid → ∃ ls', Ran job turn rest mid ls' ∧ ¬ HasText ls' :=
      fun mid => ih (fun hmem => hspeed (.tail _ hmem)) (fun hmem => hformat (.tail _ hmem))
    cases hturn : turn r with
    | false =>
      obtain ⟨ls', hran, hblank⟩ := hrest ls h
      exact ⟨ls', ⟨ls, by rw [hturn]; simp, hran⟩, hblank⟩
    | true =>
      have hother : r ≠ .useHighSpeedMode ∧ r ≠ .conversationalFormat := by
        refine ⟨?_, ?_⟩ <;> rintro rfl
        · rw [hspeed (.head _)] at hturn
          cases hturn
        · rw [hformat (.head _)] at hturn
          cases hturn
      obtain ⟨mid, hmid, hblank⟩ := StandardRule.run_blank job hother.1 hother.2 h
      obtain ⟨ls', hran, hblank'⟩ := hrest mid hblank
      exact ⟨ls', ⟨mid, by rw [if_pos hturn]; exact hmid, hran⟩, hblank'⟩

/-! ## Smoothing of nothing -/

namespace Rule

/-- A line of a program that held none before smoothing was put in. -/
def IsSmoothing (l : String) : Prop := allBlank l.toList = true ∨ l ∈ smoothingLines

section

variable {job : Job} {ls ls' : Lines} {l : String}

theorem mem_insertAt {place : Nat} {new as : Lines} (h : l ∈ insertAt place new as) :
    l ∈ new ∨ l ∈ as := by
  simp only [insertAt, List.mem_append] at h
  rcases h with (h | h) | h
  · exact .inr (List.mem_of_mem_take h)
  · exact .inl h
  · exact .inr (List.mem_of_mem_drop h)

theorem isSmoothing_useHighSpeedMode (h : ¬ HasText ls) :
    ∀ l ∈ useHighSpeedMode job ls, IsSmoothing l := by
  have hblank := not_hasText_iff.1 h
  intro l hl
  rw [useHighSpeedMode] at hl
  split at hl
  · exact .inl (hblank l hl)
  · rcases mem_insertAt hl with hl | hl
    · exact .inr (mem_smoothing job l (List.mem_append_right _ hl))
    · rcases mem_insertAt hl with hl | hl
      · exact .inr (mem_smoothing job l (List.mem_append_left _ hl))
      · exact .inl (hblank l hl)

/-- How a block moves does not depend on where its line stands. -/
theorem moves_of_read? {raw : String} {n : Int} {b : Block} (h : Block.read? raw n = some b) :
    (Block.read? raw 1).map (fun b => (b.dominant?, b.hasAxis)) =
      some (b.dominant?, b.hasAxis) := by
  rw [Block.read?_map (fun _ _ => rfl) raw 1 n, h]
  rfl

/-- Blocks of smoothing move nothing. -/
theorem not_moves_of_isSmoothing {raw : String} {n : Int} {b : Block} (h : IsSmoothing raw)
    (hread : Block.read? raw n = some b) : b.dominant? = none ∧ b.hasAxis = false := by
  have hidle : ∀ l ∈ smoothingLines, (Block.read? l 1).map (fun b => (b.dominant?, b.hasAxis)) =
      some (none, false) := by decide +kernel
  rcases h with hblank | hput
  · rw [Block.read?_of_allBlank hblank] at hread
    cases hread
  · have hmoves := moves_of_read? hread
    rw [hidle raw hput] at hmoves
    simpa using (Option.some.inj hmoves).symm

/-- There is no corner to round in smoothing. -/
theorem roundCorners_of_isSmoothing (h : ∀ l ∈ ls, IsSmoothing l)
    (hrun : (roundCorners ls).result = .ok ls') : ls' = ls := by
  obtain ⟨stops, hwalk, rfl⟩ := map_eq_ok.1 hrun
  have hraws := walkFrom_raw hwalk
  have hstraight : ∀ s ∈ stops, ∀ b r, s.found = some (b, r) → straightFeed? r = none := by
    intro s hs b r hfound
    obtain ⟨k, hstop⟩ := walkFrom_stopAt hwalk s hs
    have hread := (stopAt_eq_ok hstop).2.2
    rw [Stop.block?, hfound, Option.map_some] at hread
    have hmem : s.raw ∈ ls := by
      rw [← hraws]
      exact List.mem_map_of_mem hs
    obtain ⟨hdominant, haxis⟩ := not_moves_of_isSmoothing (h s.raw hmem) hread.symm
    have hresolve := stopAt_resolve hstop hfound
    simp only [Modal.resolve, hdominant, haxis, Bool.not_false, if_true] at hresolve
    cases hresolve
    rfl
  rw [← hraws]
  exact roundCornersOf_of_no_straight hstraight

/-- No line of smoothing opens a conversational program, however it is spelled. -/
theorem isOpening_of_isSmoothing (h : IsSmoothing l) :
    isOpening l = false ∧ isOpening (compactLine l) = false ∧ isOpening (pointLine l) = false ∧
      isOpening (pointLine (compactLine l)) = false := by
  rcases h with h | h
  · have hblank : ∀ m : String, allBlank m.toList = true → isOpening m = false := by
      intro m hm
      rw [Bool.eq_false_iff]
      intro hopening
      rw [allBlank_of_isOpening hopening] at hm
      cases hm
    refine ⟨hblank _ h, hblank _ ?_, hblank _ ?_, hblank _ ?_⟩
    · rw [allBlank_compactLine, h]
    · rw [allBlank_pointLine, h]
    · rw [allBlank_pointLine, allBlank_compactLine, h]
  · have hall : ∀ l ∈ smoothingLines, isOpening l = false ∧ isOpening (compactLine l) = false ∧
        isOpening (pointLine l) = false ∧ isOpening (pointLine (compactLine l)) = false := by
      decide +kernel
    exact hall l h

end

end Rule

end PartProgram

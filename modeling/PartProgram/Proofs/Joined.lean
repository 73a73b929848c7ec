import PartProgram.Proofs.Tracing

/-!
# PartProgram.Proofs.Joined

Rules that join a line with the one before it. Neither rapids nor modal codes on lines of their own
hold feed words, so the feed words up to a joined line are those up to the last of the lines that it
stands for. It takes the mark of that line.

* `optimizeRapidMoves_follows`, `consolidateCodes_follows`: what the two rules carry over.
-/

namespace PartProgram

open Text

/-! ## Lines written one after the other -/

/-- The feed words of lines, the last one first. -/
def heard (written : Lines) : FeedTrack := written.foldr (fun l t => t.read l) {}

theorem heard_cons (l : String) (ls : Lines) : heard (l :: ls) = (heard ls).read l := by
  rw [heard, List.foldr_cons, heard]

section

variable {ι : Type} {Q : FeedTrack → String → ι → Prop} {t : FeedTrack} {l : String} {o : ι}
  {ls : Lines} {os : List ι}

theorem Traces.concat (h : Traces Q t ls os) (noFeed : '\n' ∉ l.toList)
    (here : Q ((ls.foldl FeedTrack.read t).read l) l o) : Traces Q t (ls ++ [l]) (os ++ [o]) := by
  induction h with
  | nil t => exact .cons noFeed here (.nil _)
  | cons noFeed' here' _ ih =>
    rw [List.foldl_cons] at here
    exact .cons noFeed' here' (ih here)

theorem Traces.front (h : Traces Q t (ls ++ [l]) os) :
    ∃ kept, Traces Q t ls kept ∧ kept.Sublist os := by
  induction ls generalizing t os with
  | nil => exact ⟨[], .nil t, List.nil_sublist os⟩
  | cons m ls ih =>
    cases h with
    | cons noFeed here htail =>
      obtain ⟨kept, htraces, hsub⟩ := ih htail
      exact ⟨_ :: kept, .cons noFeed here htraces, hsub.cons_cons _⟩

/-- The lines, the last one first, came about from lines with these marks. -/
def Grown (Q : FeedTrack → String → ι → Prop) (written : Lines) (done : List ι) : Prop :=
  Follows Q {} written.reverse done

theorem Grown.add {written : Lines} {done : List ι} (h : Grown Q written done)
    (noFeed : '\n' ∉ l.toList) (here : Q ((heard written).read l) l o) :
    Grown Q (l :: written) (done ++ [o]) := by
  obtain ⟨kept, htraces, hsub⟩ := h
  refine ⟨kept ++ [o], ?_, hsub.append_right [o]⟩
  rw [List.reverse_cons]
  refine htraces.concat noFeed ?_
  rwa [List.foldl_reverse]

theorem Grown.tail {written : Lines} {done : List ι} (h : Grown Q (l :: written) done) :
    Grown Q written done := by
  obtain ⟨kept, htraces, hsub⟩ := h
  rw [List.reverse_cons] at htraces
  obtain ⟨kept', htraces', hsub'⟩ := htraces.front
  exact ⟨kept', htraces', hsub'.trans hsub⟩

end

namespace Rule

variable {ι : Type} {Q Q' : FeedTrack → String → ι → Prop} {t : FeedTrack} {o : ι} {ls ls' : Lines}
  {os done : List ι}

/-! ## Rapids -/

/-- Words of a rapid say nothing of feeds. -/
theorem silent_of_rapid {ws : List Saying} (hletters : ∀ w ∈ ws, w.1 ∈ ['G', 'X', 'Y', 'Z'])
    (hcodes : ∀ code ∈ codesSaid ws, code = "G0") (t : FeedTrack) : t.hear ws = t := by
  refine FeedTrack.hear_of_silent (modeSaid_eq_none fun code hcode => ?_)
    (feedSaid_eq_none fun w hw heq => ?_)
  · rw [hcodes code hcode]
    exact ⟨by decide, by decide⟩
  · exact absurd (hletters w hw) (by rw [heq]; decide)

theorem onlyLetters_said {b : Block} {letters : List Char} (h : b.onlyLetters letters = true) :
    ∀ w ∈ b.words.map Word.said, w.1 ∈ letters := by
  simpa [Block.onlyLetters, Word.said] using h

/-- The code of a rapid, as a word. -/
theorem rapidWord : (⟨'G', "0"⟩ : Word).WellFormed ∧ ∃ w, Word.said ⟨'G', "0"⟩ = w ∧ w.1 = 'G' ∧
    String.singleton w.1 ++ codeNumber w.2 = "G0" := by
  have hletter : 'G' ∈ addressLetters := by decide +kernel
  have hread : Number.numeral? "0".toList = some ("0".toList, []) := by decide +kernel
  exact ⟨⟨hletter, (numeral?_spec hread).2⟩, _, rfl, rfl, by decide +kernel⟩

theorem wellFormed_asRapid {b : Block} (h : b.WellFormed) : (asRapid b).WellFormed := by
  rw [asRapid]
  split
  · exact h
  · refine ⟨fun w hw => ?_, h.corner, h.comment⟩
    cases hw with
    | head => exact rapidWord.1
    | tail _ hw => exact h.words w hw

theorem isPlainRapid_found {s : Stop} (h : isPlainRapid s = true) :
    ∃ b r, s.found = some (b, r) ∧ b.onlyLetters ['G', 'X', 'Y', 'Z'] = true ∧
      (∀ code ∈ b.codes 'G', code = "G0") ∧ r.isRapid = true ∧ r.warnings = [] ∧
      s.before.positioning = .absolute := by
  rw [isPlainRapid] at h
  split at h
  · cases h
  rename_i b r hfound
  simp only [Bool.and_eq_true, List.isEmpty_iff, beq_iff_eq] at h
  obtain ⟨⟨⟨⟨⟨⟨⟨hletters, hcodes⟩, hrapid⟩, hwarnings⟩, -⟩, -⟩, habsolute⟩, -⟩ := h
  refine ⟨b, r, hfound, hletters, fun code hcode => ?_, hrapid, hwarnings, habsolute⟩
  simpa using List.all_eq_true.1 hcodes code hcode

/-- A plain rapid, and the rapid it becomes when it takes in another one. -/
theorem plainRapid_words {s : Stop} {b : Block} {n : Int} (hs : isPlainRapid s = true)
    (hb : s.block? = some b) (hread : Block.read? s.raw n = some b) :
    (∀ t : FeedTrack, t.read s.raw = t) ∧ (∀ t : FeedTrack, t.read (asRapid b).render = t) ∧
      '\n' ∉ (asRapid b).render.toList ∧ otherSayings (asRapid b).render = otherSayings s.raw := by
  have hline := Block.sayings_of_read? hread
  have hwell := Block.wellFormed_of_read? hread
  obtain ⟨b', r, hfound, hletters, hcodes, -⟩ := isPlainRapid_found hs
  have hsame : b = b' := by simpa [Stop.block?, hfound] using hb.symm
  subst hsame
  have hletters := onlyLetters_said hletters
  rw [← Block.codesSaid_eq] at hcodes
  obtain ⟨-, z, hz, hletter, hcode⟩ := rapidWord
  have hwell' := wellFormed_asRapid hwell
  have hwords : sayings (asRapid b).render = b.words.map Word.said ∨
      sayings (asRapid b).render = z :: b.words.map Word.said := by
    rw [Block.sayings_render hwell', asRapid]
    split
    · exact .inl rfl
    · rw [Block.withFirst, List.map_cons, hz]
      exact .inr rfl
  refine ⟨fun t => ?_, fun t => ?_, Block.feed_not_mem_render hwell', ?_⟩
  · rw [FeedTrack.read, hline]
    exact silent_of_rapid hletters hcodes t
  · rw [FeedTrack.read]
    rcases hwords with hwords | hwords
    · rw [hwords]
      exact silent_of_rapid hletters hcodes t
    · rw [hwords]
      refine silent_of_rapid (fun w hw => ?_) (fun code hmem => ?_) t
      · cases hw with
        | head =>
          rw [hletter]
          decide
        | tail _ hw => exact hletters w hw
      · obtain ⟨w, hw, hG, hsaid⟩ := mem_codesSaid.1 hmem
        cases hw with
        | head => exact hsaid.symm.trans hcode
        | tail _ hw => exact hcodes code (mem_codesSaid.2 ⟨w, hw, hG, hsaid⟩)
  · rw [otherSayings, otherSayings, hline]
    rcases hwords with hwords | hwords
    · rw [hwords]
    · rw [hwords, List.filter_cons_of_neg (by simp [hletter])]

/-- Rapids as they are written, with their marks and their feeds. -/
structure RapidsGrown (Q : FeedTrack → String → ι → Prop) (r : Rapids) (done : List ι)
    (t : FeedTrack) : Prop where
  grown : Grown Q r.written done
  track : heard r.written = t
  silent : r.open?.isSome = true → ∃ l older, r.written = l :: older ∧ ∀ t : FeedTrack, t.read l = t

theorem rapidsGrown_add {r : Rapids} {s : Stop}
    (hQ : ∀ ⦃t l l' o⦄, otherSayings l' = otherSayings l → Q t l o → Q' t l' o)
    (h : RapidsGrown Q' r done t) (noFeed : '\n' ∉ s.raw.toList)
    (hblock : ∃ n, s.block? = Block.read? s.raw n) (here : Q (t.read s.raw) s.raw o) :
    RapidsGrown Q' (r.add s) (done ++ [o]) (t.read s.raw) := by
  have hkeep : ∀ opened : Option (Position × Position),
      (opened.isSome = true → ∀ t : FeedTrack, t.read s.raw = t) →
        RapidsGrown Q' ⟨s.raw :: r.written, opened⟩ (done ++ [o]) (t.read s.raw) := by
    intro opened hopened
    refine ⟨h.grown.add noFeed ?_, ?_, fun hsome => ⟨s.raw, r.written, rfl, hopened hsome⟩⟩
    · rw [h.track]
      exact hQ rfl here
    · rw [heard_cons, h.track]
  obtain ⟨n, hread⟩ := hblock
  simp only [Rapids.add]
  split
  · rename_i b hb hrapid
    rw [hb] at hread
    obtain ⟨hsilent, hsilent', hfeed, hothers⟩ := plainRapid_words hrapid hb hread.symm
    split
    · exact hkeep _ fun _ => hsilent
    · rename_i start middle hopen
      split
      · obtain ⟨l, older, hwritten, hlast⟩ := h.silent (by rw [hopen]; rfl)
        have hold : heard older = t := by
          rw [← h.track, hwritten, heard_cons, hlast]
        have holder : Grown Q' older done := by
          have := h.grown
          rw [hwritten] at this
          exact this.tail
        rw [hwritten, List.tail_cons]
        refine ⟨holder.add hfeed ?_, ?_, fun _ => ⟨_, older, rfl, hsilent'⟩⟩
        · rw [hold, hsilent']
          rw [hsilent] at here
          exact hQ hothers here
        · rw [heard_cons, hsilent, hsilent', hold]
      · exact hkeep _ fun _ => hsilent
  · exact hkeep none fun hsome => by cases hsome

theorem optimizeRapidMoves_follows
    (hQ : ∀ ⦃t l l' o⦄, otherSayings l' = otherSayings l → Q t l o → Q' t l' o)
    (h : Traces Q {} ls os) (hrun : (optimizeRapidMoves ls).result = .ok ls') :
    Follows Q' {} ls' os := by
  have hstops : ∀ stops : List Stop, ∀ {r : Rapids} {t done os}, RapidsGrown Q' r done t →
      Walked t stops → Traces Q t (stops.map Stop.raw) os →
        Grown Q' (stops.foldl Rapids.add r).written (done ++ os) := by
    intro stops
    induction stops with
    | nil =>
      intro r t done os hr _ htraces
      cases htraces
      simpa using hr.grown
    | cons s rest ih =>
      intro r t done os hr hwalked htraces
      cases hwalked with
      | cons before after block hrest =>
        cases htraces with
        | cons noFeed here htail =>
          have hnext := rapidsGrown_add hQ hr noFeed block here
          have := ih hnext hrest htail
          rwa [List.append_assoc] at this
  simp only [optimizeRapidMoves, Revised.ofWalk, map_eq_ok] at hrun
  obtain ⟨stops, hwalk, rfl⟩ := hrun
  have hstart : RapidsGrown Q' {} [] {} := ⟨Follows.nil Q' {}, rfl, fun h => by cases h⟩
  refine hstops stops hstart (walk_walked hwalk) ?_
  rwa [walkFrom_raw hwalk]

/-! ## Modal codes -/

/-- A line states these codes, and says nothing else. -/
structure StatesCodes (l : String) (codes : List Code) : Prop where
  letters : ∀ w ∈ sayings l, w.1 = 'G'
  said : codesSaid (sayings l) = codes
  groups : ∀ code ∈ codes, (ModalGroup.ofCode? code).isSome = true

theorem StatesCodes.feedSaid {l : String} {codes : List Code} (h : StatesCodes l codes) :
    feedSaid (sayings l) = none := by
  refine feedSaid_eq_none fun w hw => ?_
  rw [h.letters w hw]
  decide

theorem StatesCodes.others {l : String} {codes : List Code} (h : StatesCodes l codes) :
    otherSayings l = [] := by
  rw [otherSayings, List.filter_eq_nil_iff]
  intro w hw
  simp [h.letters w hw]

/-- All codes that belong to a group. -/
def groupedCodes : List Code :=
  ["G17", "G18", "G19", "G20", "G21", "G40", "G49", "G54", "G55", "G56", "G57", "G58", "G59", "G80",
    "G90", "G91", "G94", "G95", "G98", "G99"]

theorem mem_groupedCodes {code : Code} (h : (ModalGroup.ofCode? code).isSome = true) :
    code ∈ groupedCodes := by
  unfold ModalGroup.ofCode? at h
  split at h <;> simp [groupedCodes] at h ⊢

/-- The code of a group as a word. -/
def codeWord (code : Code) : Word := ⟨'G', .ofList (code.toList.drop 1)⟩

theorem codeWord_of_mem {code : Code} (h : code ∈ groupedCodes) :
    (codeWord code).WellFormed ∧ (codeWord code).render = code ∧ (codeWord code).code = code := by
  have hread : ∀ code ∈ groupedCodes, (Number.numeral? (code.toList.drop 1) =
      some (code.toList.drop 1, [])) ∧ (codeWord code).render = code ∧
        (codeWord code).code = code := by
    decide
  have hletter : 'G' ∈ addressLetters := by decide
  obtain ⟨hnumeral, hrender, hcode⟩ := hread code h
  refine ⟨⟨hletter, ?_⟩, hrender, hcode⟩
  rw [codeWord, String.toList_ofList]
  exact (numeral?_spec hnumeral).2

/-- A block that states codes and nothing else. -/
def codeBlock (codes : List Code) : Block := ⟨"", 1, codes.map codeWord, none, none, none⟩

section

variable {codes : List Code} (h : ∀ code ∈ codes, (ModalGroup.ofCode? code).isSome = true)
include h

theorem wellFormed_codeBlock : (codeBlock codes).WellFormed := by
  refine ⟨fun w hw => ?_, fun c hc => ?_, fun s hs => ?_⟩
  · obtain ⟨code, hcode, rfl⟩ := List.mem_map.1 hw
    exact (codeWord_of_mem (mem_groupedCodes (h code hcode))).1
  · cases hc
  · cases hs

theorem render_codeBlock : (codeBlock codes).render = " ".intercalate codes := by
  have hcodes : codes.map (Word.render ∘ codeWord) = codes :=
    (List.map_congr_left fun code hcode =>
      (codeWord_of_mem (mem_groupedCodes (h code hcode))).2.1).trans (List.map_id _)
  simp [codeBlock, Block.render, Block.renderCode, hcodes]

/-- Codes of some groups on one line. -/
theorem intercalate_states :
    '\n' ∉ (" ".intercalate codes).toList ∧ StatesCodes (" ".intercalate codes) codes := by
  have hwell := wellFormed_codeBlock h
  have hwords := Block.sayings_render hwell
  have hfeed := Block.feed_not_mem_render hwell
  rw [render_codeBlock h] at hwords hfeed
  refine ⟨hfeed, fun w hw => ?_, ?_, h⟩
  · rw [hwords] at hw
    simp only [codeBlock, List.map_map, List.mem_map] at hw
    obtain ⟨code, -, rfl⟩ := hw
    rfl
  · rw [hwords, Block.codesSaid_eq]
    have hall : (codes.map codeWord).filter (·.letter == 'G') = codes.map codeWord := by
      rw [List.filter_eq_self]
      intro w hw
      obtain ⟨code, -, rfl⟩ := List.mem_map.1 hw
      rfl
    simp only [codeBlock, Block.codes, hall, List.map_map]
    exact (List.map_congr_left fun code hcode =>
      (codeWord_of_mem (mem_groupedCodes (h code hcode))).2.2).trans (List.map_id _)

end

/-- A line with nothing but modal codes. -/
theorem modalOnly?_states {l : String} {n : Int} {codes : List Code}
    (h : modalOnly? (Block.read? l n) = some codes) : StatesCodes l codes := by
  cases hread : Block.read? l n with
  | none => simp [hread, modalOnly?] at h
  | some b =>
    have hline := Block.sayings_of_read? hread
    simp only [hread, modalOnly?] at h
    split at h
    · cases h
    · rename_i hnot
      simp only [Bool.or_eq_true, Bool.not_eq_true', not_or, Bool.not_eq_false] at hnot
      obtain ⟨⟨⟨-, hletters⟩, hgroups⟩, -⟩ := hnot
      cases h
      refine ⟨fun w hw => ?_, ?_, fun code hcode => ?_⟩
      · rw [hline] at hw
        simpa using onlyLetters_said hletters w hw
      · rw [hline, Block.codesSaid_eq]
      · exact List.all_eq_true.1 hgroups _ (List.mem_map_of_mem hcode)

/-- Codes that share no group say at most one feed mode. -/
theorem modeSaid_joined {us vs ws : List Saying} (hcodes : codesSaid ws = codesSaid us ++ codesSaid vs)
    (hdisjoint : disjointGroups (codesSaid us) (codesSaid vs) = true) :
    modeSaid ws = (modeSaid vs <|> modeSaid us) := by
  have hmode : ∀ a b, ModalGroup.ofCode? a = ModalGroup.ofCode? b → a ∈ codesSaid us →
      b ∉ codesSaid vs := by
    intro a b hsame ha hb
    simp only [disjointGroups, List.all_eq_true, bne_iff_ne] at hdisjoint
    exact hdisjoint a ha b hb hsame
  simp only [modeSaid, hcodes, List.contains_iff_mem, List.mem_append]
  have hturn := hmode "G95" "G94" rfl
  have hminute := hmode "G94" "G95" rfl
  by_cases hus : "G95" ∈ codesSaid us
  · simp [hus, hturn hus, hmode "G95" "G95" rfl hus]
  · by_cases hus' : "G94" ∈ codesSaid us
    · simp [hus, hus', hminute hus', hmode "G94" "G94" rfl hus']
    · simp [hus, hus']

/-- Words without feeds are heard one after the other as they are heard together. -/
theorem hear_joined (t : FeedTrack) {us vs ws : List Saying} (hus : feedSaid us = none)
    (hvs : feedSaid vs = none) (hws : feedSaid ws = none)
    (hmode : modeSaid ws = (modeSaid vs <|> modeSaid us)) : t.hear ws = (t.hear us).hear vs := by
  simp only [FeedTrack.hear, hus, hvs, hws, hmode]
  cases modeSaid vs <;> rfl

/-- Codes on one line are read as the codes of one line after those of the other. -/
theorem read_joined {first second line : String} {codes codes' : List Code}
    (hfirst : StatesCodes first codes) (hsecond : StatesCodes second codes')
    (hline : StatesCodes line (codes ++ codes')) (hdisjoint : disjointGroups codes codes' = true)
    (t : FeedTrack) : t.read line = (t.read first).read second := by
  have hcodes : codesSaid (sayings line) =
      codesSaid (sayings first) ++ codesSaid (sayings second) := by
    rw [hline.said, hfirst.said, hsecond.said]
  have hmode := modeSaid_joined hcodes (by rw [hfirst.said, hsecond.said]; exact hdisjoint)
  exact hear_joined t hfirst.feedSaid hsecond.feedSaid hline.feedSaid hmode

/-- Modal codes as they are written, with their marks and their feeds. -/
structure CodesGrown (Q : FeedTrack → String → ι → Prop) (m : ModalLines) (done : List ι)
    (t : FeedTrack) : Prop where
  grown : Grown Q m.written done
  track : heard m.written = t
  stated : ∀ codes, m.open? = some codes → ∃ l older, m.written = l :: older ∧ StatesCodes l codes

theorem codesGrown_add {m : ModalLines} {l : String} {n : Int}
    (hQ : ∀ ⦃t l l' o⦄, otherSayings l' = otherSayings l → Q t l o → Q' t l' o)
    (h : CodesGrown Q' m done t) (noFeed : '\n' ∉ l.toList) (here : Q (t.read l) l o) :
    CodesGrown Q' (m.add (l, Block.read? l n)) (done ++ [o]) (t.read l) := by
  have hkeep : ∀ opened : Option (List Code), (∀ codes, opened = some codes → StatesCodes l codes) →
      CodesGrown Q' ⟨l :: m.written, opened⟩ (done ++ [o]) (t.read l) := by
    intro opened hopened
    refine ⟨h.grown.add noFeed ?_, ?_, fun codes hsome => ⟨l, m.written, rfl, hopened codes hsome⟩⟩
    · rw [h.track]
      exact hQ rfl here
    · rw [heard_cons, h.track]
  simp only [ModalLines.add]
  split
  · exact hkeep none fun codes hsome => by cases hsome
  · rename_i codes hcodes
    have hstates := modalOnly?_states hcodes
    have hopen : ∀ codes', some codes = some codes' → StatesCodes l codes' := fun codes' hsome => by
      cases hsome
      exact hstates
    split
    · exact hkeep _ hopen
    · rename_i before hbefore
      split
      · rename_i hdisjoint
        obtain ⟨last, older, hwritten, hlast⟩ := h.stated before hbefore
        obtain ⟨hfeed, hjoined⟩ := intercalate_states
          fun code (hcode : code ∈ before ++ codes) =>
            (List.mem_append.1 hcode).elim (hlast.groups code) (hstates.groups code)
        have hold : (heard older).read last = t := by
          rw [← h.track, hwritten, heard_cons]
        have hread : (heard older).read (" ".intercalate (before ++ codes)) = t.read l := by
          rw [read_joined hlast hstates hjoined hdisjoint, hold]
        have holder : Grown Q' older done := by
          have := h.grown
          rw [hwritten] at this
          exact this.tail
        rw [hwritten, List.tail_cons]
        refine ⟨holder.add hfeed ?_, ?_, fun codes' hsome => ?_⟩
        · rw [hread]
          exact hQ (by rw [hjoined.others, hstates.others]) here
        · rw [heard_cons, hread]
        · cases hsome
          exact ⟨_, older, rfl, hjoined⟩
      · exact hkeep _ hopen

theorem consolidateCodes_follows
    (hQ : ∀ ⦃t l l' o⦄, otherSayings l' = otherSayings l → Q t l o → Q' t l' o)
    (h : Traces Q {} ls os) : Follows Q' {} (consolidateCodes ls) os := by
  have hlines : ∀ {m : ModalLines} {t ls os} {n : Int} {done : List ι}, CodesGrown Q' m done t →
      Traces Q t ls os →
        Grown Q' ((readLines n ls).foldl ModalLines.add m).written (done ++ os) := by
    intro m t ls os n done hm htraces
    induction htraces generalizing m n done with
    | nil =>
      rw [List.append_nil]
      exact hm.grown
    | cons noFeed here _ ih =>
      have := ih (n := n + 1) (codesGrown_add (n := n) hQ hm noFeed here)
      rwa [List.append_assoc] at this
  exact hlines (m := {}) ⟨Follows.nil Q' {}, rfl, fun codes hsome => by cases hsome⟩ h

end Rule

end PartProgram

import PartProgram.Proofs.Joined
import PartProgram.Proofs.Settled
import PartProgram.Proofs.Steady

/-!
# PartProgram.Proofs.FeedLaw

The feeds of an optimized program. Of feed words in a row with one number the rules keep the first
one, and it is the first one that they bring into the range of the machine: the feed of a line is
the feed in effect there in the source only as far as the feed modes of the two words have one
range.

* `Origin`: a line of a program before it is optimized, and the feed words up to it.
* `optimize_feed`: the feed in effect at every line that an optimization gives out.
-/

namespace PartProgram

open Text Conversational

/-! ## Origins -/

/-- A line of a source, without its comments if they go, and the feed words up to it. -/
structure Origin where
  line : String
  /-- the feed words as they are written in the source -/
  written : FeedTrack
  /-- the feed words that are read when the comments are gone -/
  plain : FeedTrack

namespace Origin

/-- The feed word in effect at a line of the source, in the range for the mode of its own block. -/
def lastFeed (p : Profile) (o : Origin) : Option Float := o.written.last.map (Rule.clampWord p)

/-- The first of the feed words in a row with one number, in the range for the mode of its own
block. -/
def firstFeed (p : Profile) (o : Origin) : Option Float := o.plain.first.map (Rule.clampWord p)

end Origin

/-- What is left of a line when empty lines and comments are gone, if they go. -/
def plainLine (job : Job) (raw : String) : Option String :=
  if job.flag .removeEmptyLines && allBlank raw.toList then none
  else if job.flag .removeComments then Rule.removeCommentsOf raw
  else some raw

def originsFrom (job : Job) (written plain : FeedTrack) : Lines → List Origin
  | [] => []
  | raw :: rest =>
    match plainLine job raw with
    | none => originsFrom job (written.read raw) plain rest
    | some line =>
      Origin.mk line (written.read raw) (plain.read line) ::
        originsFrom job (written.read raw) (plain.read line) rest

/-- The lines of a source that are left when empty lines and comments are gone. -/
def origins (job : Job) (source : Lines) : List Origin := originsFrom job {} {} source

theorem feed_not_mem_removeCommentsOf {l l' : String} (h : Rule.removeCommentsOf l = some l')
    (hfeed : '\n' ∉ l.toList) : '\n' ∉ l'.toList := by
  simp only [Rule.removeCommentsOf] at h
  split at h
  · cases h
    exact hfeed
  · split at h
    · cases h
    · rw [← Option.some.inj h, String.toList_ofList, Rule.codeAlone]
      refine feed_not_mem_trim fun hmem => ?_
      have hgaps := respelled_replaceAll (Rule.respells_gap (by decide : 1 ≤ 2))
        ((CommentedLine.ofChars l.toList).codeWith []) endsNumeral_nil (Respelled.refl [])
      rw [List.append_nil, List.append_nil] at hgaps
      rcases CommentedLine.mem_codeWith (hgaps.feed_mem.2 hmem) with hc | hc
      · cases hc
      · rw [CommentedLine.mapCode_ofChars] at hc
        exact hfeed hc

theorem feed_not_mem_plainLine {job : Job} {raw line : String} (h : plainLine job raw = some line)
    (hfeed : '\n' ∉ raw.toList) : '\n' ∉ line.toList := by
  rw [plainLine] at h
  split_ifs at h
  · exact feed_not_mem_removeCommentsOf h hfeed
  · cases h
    exact hfeed

/-! ## What rules leave of feeds -/

/-- A line has the words of its origin, and so much is true of the feed words up to it. -/
def Keeps (P : FeedTrack → Origin → Prop) (t : FeedTrack) (l : String) (o : Origin) : Prop :=
  otherSayings l = otherSayings o.line ∧ P t o

/-- Every feed is said as often as in the source, moves that go nowhere apart. -/
def SaysFirst (t : FeedTrack) (o : Origin) : Prop := t.first = o.plain.first

/-- Of feed words in a row with one number only the first one is left. -/
def SaysFirstOnly (t : FeedTrack) (o : Origin) : Prop := t.last = o.plain.first

/-- The feed is the first one of its row, in the range of a machine. -/
def SaysInRange (p : Profile) (t : FeedTrack) (o : Origin) : Prop :=
  SameFeed t.feed (o.firstFeed p)

theorem originsFrom_traces {job : Job} {source : Lines} (written plain : FeedTrack)
    (hfeed : ∀ raw ∈ source, '\n' ∉ raw.toList) :
    Traces (Keeps SaysFirst) plain (source.filterMap (plainLine job))
      (originsFrom job written plain source) := by
  induction source generalizing written plain with
  | nil => exact .nil plain
  | cons raw rest ih =>
    have hrest := fun written plain => ih written plain fun l hl => hfeed l (.tail _ hl)
    rw [originsFrom]
    cases hline : plainLine job raw with
    | none =>
      rw [List.filterMap_cons_none hline]
      exact hrest _ _
    | some line =>
      rw [List.filterMap_cons_some hline]
      exact .cons (feed_not_mem_plainLine hline (hfeed raw (.head _))) ⟨rfl, rfl⟩ (hrest _ _)

/-- What is true of the feeds at every line stays so under rules that leave other words alone. -/
theorem keeps_others {P : FeedTrack → Origin → Prop} ⦃t : FeedTrack⦄ ⦃l l' : String⦄ ⦃o : Origin⦄
    (hothers : otherSayings l' = otherSayings l) (h : Keeps P t l o) : Keeps P t l' o :=
  ⟨hothers.trans h.1, h.2⟩

/-- The feed at a line that comes out: a line that was put in moves nothing, and any other has the
first feed of its row. It is the feed in effect in the source exactly if both words of the row come
to one feed. -/
def FeedLaw (p : Profile) (t : FeedTrack) (l : String) : Option Origin → Prop
  | none => Rule.IsStill l
  | some o =>
    otherSayings l = otherSayings o.line ∧ SameFeed t.feed (o.firstFeed p) ∧
      (SameFeed t.feed (o.lastFeed p) ↔ SameFeed (o.firstFeed p) (o.lastFeed p))

section

variable {job : Job} {turn : StandardRule → Bool} {source ls ls' : Lines} {os : List Origin}
  {P : FeedTrack → Origin → Prop}

/-- A rule that leaves the feeds alone may have its turn or not. -/
theorem Follows.ran {ι : Type} {Q : FeedTrack → String → ι → Prop} {os : List ι} {r : StandardRule}
    (hrun : if turn r then (r.run job ls).result = .ok ls' else ls' = ls)
    (h : Follows Q {} ls os)
    (hrule : ∀ kept, Traces Q {} ls kept → (r.run job ls).result = .ok ls' →
      Follows Q {} ls' kept) : Follows Q {} ls' os := by
  split at hrun
  · exact h.trans fun kept hkept => hrule kept hkept hrun
  · rwa [hrun]

/-- The lines without empty ones and without comments, each if the job asks for it. -/
theorem plain_lines {mid : Lines}
    (hempty : if job.flag .removeEmptyLines then
      ((StandardRule.removeEmptyLines).run job source).result = .ok mid else mid = source)
    (hcomments : if job.flag .removeComments then
      ((StandardRule.removeComments).run job mid).result = .ok ls else ls = mid) :
    ls = source.filterMap (plainLine job) := by
  have hmid : mid = source.filter fun raw =>
      !(job.flag .removeEmptyLines && allBlank raw.toList) := by
    split at hempty
    · rename_i hflag
      rw [StandardRule.run, Told.result_pure_eq_ok] at hempty
      rw [hflag, ← hempty]
      simp [Rule.removeEmptyLines]
    · rename_i hflag
      rw [hempty]
      simp [hflag]
  have hls : ls = mid.filterMap fun raw =>
      if job.flag .removeComments then Rule.removeCommentsOf raw else some raw := by
    split at hcomments
    · rename_i hflag
      rw [StandardRule.run, Told.result_pure_eq_ok] at hcomments
      rw [← hcomments]
      simp [Rule.removeComments, hflag]
    · rename_i hflag
      rw [hcomments]
      simp [hflag]
  rw [hls, hmid, List.filterMap_filter]
  refine List.filterMap_congr fun raw _ => ?_
  rw [plainLine]
  cases job.flag .removeEmptyLines && allBlank raw.toList <;> simp

/-- The rules for every control bring the first feed of every row into the range of the machine. -/
theorem neutralRules_feed (hturn : ∀ r : StandardRule, r.dialect? = none → turn r = r.isEnabled job)
    (hcodes : job.flag .removeRedundantCodes = true) (hfeeds : job.flag .optimizeFeedrates = true)
    (harcs : job.flag .useArcOptimization = false) (noFeed : ∀ raw ∈ source, '\n' ∉ raw.toList)
    (h : Optimization.Ran job turn Optimization.neutralRules source ls) :
    Follows (Keeps (SaysInRange job.profile)) {} ls (origins job source) := by
  obtain ⟨l₁, hempty, l₂, hcomments, l₃, hmoves, l₄, hrestated, l₅, hrapids, l₆, hmodal, l₇, hclamped,
    l₈, hchains, rfl⟩ := h
  rw [hturn _ rfl] at hempty hcomments hrestated hclamped hchains
  have hplain : Follows (Keeps SaysFirst) {} l₂ (origins job source) := by
    rw [plain_lines hempty hcomments]
    exact (originsFrom_traces {} {} noFeed).follows
  have hmoved : Follows (Keeps SaysFirst) {} l₃ (origins job source) :=
    hplain.ran hmoves fun kept hkept hrun => Rule.removeRedundantMoves_follows
      (fun t t' l o hfirst hhere => ⟨hhere.1, hfirst.trans hhere.2⟩) hkept hrun
  have honce : Follows (Keeps SaysFirstOnly) {} l₄ (origins job source) := by
    rw [StandardRule.isEnabled, if_pos hcodes] at hrestated
    exact hmoved.trans fun kept hkept => Rule.removeRedundantCodes_follows
      (fun t t' l l' o hlast hothers hhere => ⟨hothers.trans hhere.1, hlast.trans hhere.2⟩)
      hkept hrestated
  have hjoined : Follows (Keeps SaysFirstOnly) {} l₅ (origins job source) :=
    honce.ran hrapids fun kept hkept hrun =>
      Rule.optimizeRapidMoves_follows keeps_others hkept hrun
  have hstated : Follows (Keeps SaysFirstOnly) {} l₆ (origins job source) :=
    hjoined.ran hmodal fun kept hkept hrun => by
      rw [← Told.result_pure_eq_ok.1 hrun]
      exact Rule.consolidateCodes_follows keeps_others hkept
  have hranged : Follows (Keeps (SaysInRange job.profile)) {} l₇ (origins job source) := by
    rw [StandardRule.isEnabled, if_pos hfeeds] at hclamped
    rw [← Told.result_pure_eq_ok.1 hclamped]
    refine hstated.trans fun kept hkept => Rule.optimizeFeedrates_follows ?_ hkept
    intro t t' l l' o hsame hothers hhere
    refine ⟨hothers.trans hhere.1, ?_⟩
    rw [SaysInRange, Origin.firstFeed, ← hhere.2]
    exact hsame
  rw [StandardRule.isEnabled, harcs, if_neg Bool.false_ne_true] at hchains
  rwa [hchains]

/-- A line keeps the words of its origin, or was put in and moves nothing. -/
def KeepsOrStill (P : FeedTrack → Origin → Prop) (t : FeedTrack) (l : String) :
    Option Origin → Prop
  | none => Rule.IsStill l
  | some o => Keeps P t l o

theorem keepsOrStill_words ⦃t : FeedTrack⦄ ⦃l l' : String⦄ ⦃o : Option Origin⦄
    (hwords : sayings l' = sayings l) (h : KeepsOrStill P t l o) : KeepsOrStill P t l' o := by
  cases o with
  | none =>
    obtain ⟨hmode, hfeed, hstill, hcodes⟩ := h
    rw [← hwords] at hmode hfeed hstill hcodes
    exact ⟨hmode, hfeed, hstill, hcodes⟩
  | some o => exact ⟨by rw [otherSayings, hwords, ← h.1, otherSayings], h.2⟩

/-- The rules for one control leave the feeds alone. -/
theorem blockRules_feed (h : Follows (Keeps P) {} ls os)
    (hran : Optimization.Ran job turn Optimization.blockRules ls ls') :
    ∃ marks, Traces (KeepsOrStill P) {} ls' marks ∧ (marks.filterMap id).Sublist os := by
  obtain ⟨l₁, hmotion, l₂, hspeed, l₃, hcorners, l₄, hcompact, l₅, hpoints, rfl⟩ := hran
  obtain ⟨kept, hkept, hsub⟩ := h.ran hmotion fun kept hkept hrun =>
    Rule.dropMotionCodes_follows (fun t l l' o _ hothers hhere => keeps_others hothers hhere)
      hkept hrun
  have hmarked : Traces (KeepsOrStill P) {} l₁ (kept.map some) :=
    hkept.marks fun t l o hhere => hhere
  have hsmooth : ∃ marks, Traces (KeepsOrStill P) {} l₂ marks ∧ marks.filterMap id = kept := by
    have hall : (kept.map some).filterMap id = kept := by simp
    split at hspeed
    · rw [← Told.result_pure_eq_ok.1 hspeed]
      obtain ⟨marks, hmarks, hsame⟩ :=
        Rule.useHighSpeedMode_traces job (fun t l hstill => hstill) hmarked
      exact ⟨marks, hmarks, hsame.trans hall⟩
    · rw [hspeed]
      exact ⟨_, hmarked, hall⟩
  obtain ⟨marks, hmarks, rfl⟩ := hsmooth
  have hcornered : Traces (KeepsOrStill P) {} l₃ marks := by
    split at hcorners
    · exact Rule.roundCorners_traces keepsOrStill_words hmarks hcorners
    · rwa [hcorners]
  have hshort : Traces (KeepsOrStill P) {} l₄ marks := by
    split at hcompact
    · rw [← Told.result_pure_eq_ok.1 hcompact]
      exact Rule.compactCode_traces keepsOrStill_words hcornered
    · rwa [hcompact]
  refine ⟨marks, ?_, hsub⟩
  split at hpoints
  · rw [← Told.result_pure_eq_ok.1 hpoints]
    exact Rule.decimalFormat_traces keepsOrStill_words hshort
  · rwa [hpoints]

end

/-- The feed in effect at every line that an optimization gives out. A line comes from a line of the
source with the same words, in their order, unless it was put in and moves nothing; of feed words in
a row with one number it follows the first one, brought into the range for the mode of its own
block. That is the feed in effect in the source exactly where the last one of the row comes to the
same. -/
theorem optimize_feed {source : String} {c : Controller} {o : Options} {r : Optimization}
    (h : optimize source (.ok c) (some o) = .ok r) (hc : c ≠ .heidenhain)
    (hblocks : isConversational (lines source) = false)
    (hcodes : o.general .removeRedundantCodes = true)
    (hfeeds : o.general .optimizeFeedrates = true)
    (harcs : o.general .useArcOptimization = false) :
    ∃ marks, Traces (FeedLaw c.profile) {} r.lines marks ∧
      (marks.filterMap id).Sublist (origins ⟨c, o⟩ (lines source)) := by
  obtain ⟨-, -, -, hof⟩ := optimize_eq_ok.1 h
  simp only [Optimization.ofLines, bind_eq_ok, pure_eq_ok] at hof
  obtain ⟨p, hp, s, -, report, -, rfl⟩ := hof
  rw [Optimization.applyRules_result, hblocks] at hp
  obtain ⟨turn, hrules, hturn⟩ := Optimization.rulesOf_blocks ⟨c, o⟩ hc
  rw [hrules] at hp
  obtain ⟨mid, hneutral, hcontrol⟩ := Optimization.ran_append (Optimization.ran_of_steps hp)
  have hnoFeed : ∀ raw ∈ lines source, '\n' ∉ raw.toList := fun raw hraw =>
    Rule.noFeed_of_noLineEnd (noLineEnd_of_mem_lines hraw)
  have hranged := neutralRules_feed hturn hcodes hfeeds harcs hnoFeed hneutral
  obtain ⟨marks, hmarks, hsub⟩ := blockRules_feed hranged hcontrol
  refine ⟨marks, hmarks.imp fun t l mark hhere => ?_, hsub⟩
  cases mark with
  | none => exact hhere
  | some origin =>
    obtain ⟨hothers, hfeed⟩ := hhere
    exact ⟨hothers, hfeed, hfeed.symm.trans, hfeed.trans⟩

/-- The options without arcs in the place of lines. -/
def straightOptions : Options := { general := Switches.standard.set .useArcOptimization false }

/-- Restated feeds of one mode follow the law, with a comment in between. -/
theorem optimize_feed_restated :
    ∃ r marks, optimize "G1 X1 F0.5\n(on)\nX2 F0.5\nM30" (.ok .generic) (some straightOptions) =
        .ok r ∧
      r.code = "G1 X1 F1\n(on)\nX2\nM30" ∧ Traces (FeedLaw Controller.generic.profile) {} r.lines marks ∧
      (marks.filterMap id).Sublist
        (origins ⟨.generic, straightOptions⟩ (lines "G1 X1 F0.5\n(on)\nX2 F0.5\nM30")) := by
  obtain ⟨r, hr⟩ := exists_eq_ok (x := optimize "G1 X1 F0.5\n(on)\nX2 F0.5\nM30" (.ok .generic)
    (some straightOptions)) (by decide +kernel)
  have hcode : (optimize "G1 X1 F0.5\n(on)\nX2 F0.5\nM30" (.ok .generic)
      (some straightOptions)).toOption.map Optimization.code =
        some "G1 X1 F1\n(on)\nX2\nM30" := by decide +kernel
  rw [hr] at hcode
  obtain ⟨marks, hmarks, hsub⟩ := optimize_feed hr (by decide) (by decide +kernel) (by decide)
    (by decide) (by decide)
  exact ⟨r, marks, hr, Option.some.inj hcode, hmarks, hsub⟩

/-- The law with the feed in effect in the source at every line. -/
def WrittenLaw (p : Profile) (t : FeedTrack) (l : String) : Option Origin → Prop
  | none => Rule.IsStill l
  | some o => otherSayings l = otherSayings o.line ∧ SameFeed t.feed (o.lastFeed p)

/-- A feed below the range is restated per turn, where it is in range: its word is left out, and the
move goes on with the lowest feed per minute. -/
theorem optimize_feed_not_written :
    ¬ ∀ source c o r, optimize source (.ok c) (some o) = .ok r → c ≠ .heidenhain →
      isConversational (lines source) = false → o.general .removeRedundantCodes = true →
      o.general .optimizeFeedrates = true → o.general .useArcOptimization = false →
      ∃ marks, Traces (WrittenLaw c.profile) {} r.lines marks ∧
        (marks.filterMap id).Sublist (origins ⟨c, o⟩ (lines source)) := by
  intro hclaim
  obtain ⟨r, hr⟩ := exists_eq_ok (x := optimize "G1 X1 F0.5\nG95 G1 X2 F0.5\nM30" (.ok .generic)
    (some straightOptions)) (by decide +kernel)
  have hlines : (optimize "G1 X1 F0.5\nG95 G1 X2 F0.5\nM30" (.ok .generic)
      (some straightOptions)).toOption.map Optimization.lines =
        some ["G1 X1 F1", "G95 G1 X2", "M30"] := by decide +kernel
  rw [hr] at hlines
  obtain ⟨marks, hmarks, hsub⟩ := hclaim _ _ _ r hr (by decide) (by decide +kernel) (by decide)
    (by decide) (by decide)
  rw [Option.some.inj hlines] at hmarks
  cases hmarks with
  | cons _ _ hrest =>
    cases hrest with
    | @cons _ _ mark _ _ _ hhere _ =>
      cases mark with
      | none =>
        have hmoves : ((sayings "G95 G1 X2").any fun w => axisLetters.contains w.1) = true := by
          decide +kernel
        obtain ⟨w, hw, haxis⟩ := List.any_eq_true.1 hmoves
        exact hhere.still w hw (List.contains_iff_mem.1 haxis)
      | some origin =>
        obtain ⟨hothers, hfeed⟩ := hhere
        have hmem : origin ∈ origins ⟨.generic, straightOptions⟩
            (lines "G1 X1 F0.5\nG95 G1 X2 F0.5\nM30") := hsub.subset (by simp)
        have hall : (origins ⟨.generic, straightOptions⟩
            (lines "G1 X1 F0.5\nG95 G1 X2 F0.5\nM30")).all (fun origin =>
              otherSayings "G95 G1 X2" != otherSayings origin.line ||
                (((({} : FeedTrack).read "G1 X1 F1").read "G95 G1 X2").feed !=
                  origin.lastFeed Controller.generic.profile)) = true := by decide +kernel
        have hsame : (otherSayings "G95 G1 X2" == otherSayings "G95 G1 X2") = true ∧
            (((({} : FeedTrack).read "G1 X1 F1").read "G95 G1 X2").feed ==
              ((({} : FeedTrack).read "G1 X1 F1").read "G95 G1 X2").feed) = true := by
          decide +kernel
        have hdiffer := List.all_eq_true.1 hall origin hmem
        rw [← hothers, bne, hsame.1, Bool.not_true, Bool.false_or, bne, hfeed.beq hsame.2] at hdiffer
        cases hdiffer

end PartProgram

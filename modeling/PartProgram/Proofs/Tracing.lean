import PartProgram.Proofs.Feeds
import PartProgram.Proofs.Idle

/-!
# PartProgram.Proofs.Tracing

Lines that came about from other lines. Every line of a program has a mark, and a rule that leaves
lines out and writes lines anew leaves their marks in order. What holds of a line, its mark and the
feed words up to it is carried over to the lines that come out.

* `Traces`: what holds of lines, their marks and the feeds.
* `removeRedundantMoves_follows`, `removeRedundantCodes_follows`, `optimizeFeedrates_follows`: the
  rules that change the feed words.
-/

namespace PartProgram

open Text

/-! ## Equal feeds -/

/-- Feeds with one number, or none on either side. -/
def SameFeed (a b : Option Float) : Prop := a = b ∨ (a == b) = true

namespace SameFeed

variable {a b c : Option Float}

theorem refl (a : Option Float) : SameFeed a a := .inl rfl

theorem of_beq {x y : Float} (h : (x == y) = true) : SameFeed (some x) (some y) := .inr h

theorem symm (h : SameFeed a b) : SameFeed b a := by
  rcases h with rfl | h
  · exact refl a
  · cases a with
    | none => cases b with
      | none => exact refl none
      | some y => cases h
    | some x => cases b with
      | none => cases h
      | some y => exact .inr ((Number.beq_comm y x).trans h)

theorem trans (hab : SameFeed a b) (hbc : SameFeed b c) : SameFeed a c := by
  rcases hab with rfl | hab
  · exact hbc
  rcases hbc with rfl | hbc
  · exact .inr hab
  cases a with
  | none => cases b with
    | none => exact .inr hbc
    | some y => cases hab
  | some x => cases b with
    | none => cases hab
    | some y => cases c with
      | none => cases hbc
      | some z => exact .inr ((Number.beq_congr hab z).trans hbc)

theorem beq (h : SameFeed a b) (ha : (a == a) = true) : (a == b) = true := by
  rcases h with rfl | h
  · exact ha
  · exact h

theorem any_beq (h : SameFeed a b) (x : Float) : a.any (x == ·) = b.any (x == ·) := by
  rcases h with rfl | h
  · rfl
  cases a with
  | none => cases b with
    | none => rfl
    | some y => cases h
  | some y => cases b with
    | none => cases h
    | some z =>
      show (x == y) = (x == z)
      rw [Number.beq_comm x y, Number.beq_comm x z]
      exact Number.beq_congr h x

end SameFeed

/-! ## Lines and marks -/

section

variable {ι : Type}

/-- Every line holds no feed character, and so much is true of it, of its mark and of the feed words
up to it. -/
inductive Traces (Q : FeedTrack → String → ι → Prop) : FeedTrack → Lines → List ι → Prop where
  | nil (t : FeedTrack) : Traces Q t [] []
  | cons {t : FeedTrack} {l : String} {o : ι} {ls : Lines} {os : List ι}
      (noFeed : '\n' ∉ l.toList) (here : Q (t.read l) l o) (rest : Traces Q (t.read l) ls os) :
      Traces Q t (l :: ls) (o :: os)

/-- The lines came about from marked ones, in their order. -/
def Follows (Q : FeedTrack → String → ι → Prop) (t : FeedTrack) (ls : Lines) (os : List ι) : Prop :=
  ∃ kept, Traces Q t ls kept ∧ kept.Sublist os

variable {Q Q' : FeedTrack → String → ι → Prop} {t t' : FeedTrack} {l : String} {o : ι} {ls : Lines}
  {os : List ι}

theorem Traces.follows (h : Traces Q t ls os) : Follows Q t ls os := ⟨os, h, .refl os⟩

theorem Traces.imp (hQ : ∀ t l o, Q t l o → Q' t l o) (h : Traces Q t ls os) :
    Traces Q' t ls os := by
  induction h with
  | nil t => exact .nil t
  | cons noFeed here _ ih => exact .cons noFeed (hQ _ _ _ here) ih

/-- Lines with other marks. -/
theorem Traces.marks {κ : Type} {Q' : FeedTrack → String → κ → Prop} {f : ι → κ}
    (hQ : ∀ t l o, Q t l o → Q' t l (f o)) (h : Traces Q t ls os) : Traces Q' t ls (os.map f) := by
  induction h with
  | nil t => exact .nil t
  | cons noFeed here _ ih => exact .cons noFeed (hQ _ _ _ here) ih

theorem Traces.noFeed (h : Traces Q t ls os) : ∀ l ∈ ls, '\n' ∉ l.toList := by
  induction h with
  | nil => simp
  | cons noFeed _ _ ih => simpa using ⟨noFeed, ih⟩

theorem Follows.nil (Q : FeedTrack → String → ι → Prop) (t : FeedTrack) : Follows Q t [] [] :=
  (Traces.nil t).follows

theorem Follows.drop (h : Follows Q t ls os) (o : ι) : Follows Q t ls (o :: os) := by
  obtain ⟨kept, htraces, hsub⟩ := h
  exact ⟨kept, htraces, hsub.cons o⟩

theorem Follows.keep (noFeed : '\n' ∉ l.toList) (here : Q (t.read l) l o)
    (h : Follows Q (t.read l) ls os) : Follows Q t (l :: ls) (o :: os) := by
  obtain ⟨kept, htraces, hsub⟩ := h
  exact ⟨o :: kept, .cons noFeed here htraces, hsub.cons_cons o⟩

theorem Follows.trans {ls' : Lines} (h : Follows Q t ls os)
    (hnext : ∀ kept, Traces Q t ls kept → Follows Q' t' ls' kept) : Follows Q' t' ls' os := by
  obtain ⟨kept, htraces, hsub⟩ := h
  obtain ⟨kept', htraces', hsub'⟩ := hnext kept htraces
  exact ⟨kept', htraces', hsub'.trans hsub⟩

/-- A line with a mark may stay, change or go; what is left of it says some words. -/
theorem Follows.left {out : Option String} {ws : List Saying}
    (hwords : (out.map sayings).getD [] = ws) (noFeed : ∀ l, out = some l → '\n' ∉ l.toList)
    (here : ∀ l, out = some l → Q (t.hear ws) l o) (h : Follows Q (t.hear ws) ls os) :
    Follows Q t (out.toList ++ ls) (o :: os) := by
  cases out with
  | none =>
    rw [Option.map_none, Option.getD_none] at hwords
    subst hwords
    exact h.drop o
  | some l =>
    rw [Option.map_some, Option.getD_some] at hwords
    subst hwords
    exact Follows.keep (noFeed l rfl) (here l rfl) h

end

/-! ## Moves that go -/

/-- Two programs of which only moves that go nowhere tell the feeds apart. -/
structure SameFirst (t' t : FeedTrack) : Prop where
  perTurn : t'.perTurn = t.perTurn
  first : t'.first = t.first
  feed : SameFeed t'.feed t.feed

theorem SameFirst.hear {t' t : FeedTrack} (h : SameFirst t' t) (ws : List Saying) :
    SameFirst (t'.hear ws) (t.hear ws) := by
  have hturn : (t'.hear ws).perTurn = (t.hear ws).perTurn := by
    rw [FeedTrack.hear_perTurn, FeedTrack.hear_perTurn, h.perTurn]
  cases hfeed : feedSaid ws with
  | none =>
    refine ⟨hturn, ?_, ?_⟩
    · rw [FeedTrack.hear_first_of_none hfeed, FeedTrack.hear_first_of_none hfeed, h.first]
    · rw [FeedTrack.hear_feed, FeedTrack.hear_feed, hfeed]
      exact h.feed
  | some x =>
    have hlast : (t'.hear ws).last = (t.hear ws).last := by
      rw [FeedTrack.hear_last_of_some hfeed, FeedTrack.hear_last_of_some hfeed, hturn]
    refine ⟨hturn, ?_, ?_⟩
    · rw [FeedTrack.hear_first_of_some hfeed, FeedTrack.hear_first_of_some hfeed, hlast, h.first,
        h.feed.any_beq]
    · rw [FeedTrack.feed, FeedTrack.feed, hlast]
      exact .refl _

namespace Rule

variable {ι : Type} {Q Q' : FeedTrack → String → ι → Prop} {t t' : FeedTrack} {ls ls' : Lines}
  {os : List ι} {stops : List Stop}

/-- The codes on a block, if no other codes may stand there. -/
theorem codes_subset {b : Block} {codes : List Code} (h : b.onlyCodes codes = true) :
    ∀ code ∈ codesSaid (b.words.map Word.said), code ∈ codes := by
  rw [Block.codesSaid_eq]
  simpa [Block.onlyCodes] using h

theorem modeSaid_eq_none {ws : List Saying} (h : ∀ code ∈ codesSaid ws, code ≠ "G95" ∧ code ≠ "G94") :
    modeSaid ws = none := by
  have hturn : "G95" ∉ codesSaid ws := fun hmem => (h _ hmem).1 rfl
  have hminute : "G94" ∉ codesSaid ws := fun hmem => (h _ hmem).2 rfl
  simp [modeSaid, hturn, hminute]

/-- A move that goes nowhere says no other feed than the one before it. -/
theorem sameFirst_read {s : Stop} (hs : isRedundantMove s = true) (h : SameFirst t' t)
    (hbefore : s.before.feed = t.feed) (hafter : s.after.feed = (t.read s.raw).feed)
    (hblock : ∃ n, s.block? = Block.read? s.raw n) : SameFirst t' (t.read s.raw) := by
  obtain ⟨n, hread⟩ := hblock
  simp only [isRedundantMove] at hs
  split at hs
  · cases hs
  · rename_i b r hfound
    simp only [Stop.block?, hfound, Option.map_some] at hread
    have hwords := Block.sayings_of_read? hread.symm
    simp only [Bool.and_eq_true, isPlainMove, Modal.unchangedBy] at hs
    obtain ⟨⟨⟨⟨⟨-, hcodes⟩, -⟩, -⟩, -⟩, ⟨⟨-, hfeed⟩, -⟩, -⟩ := hs
    have hmode : modeSaid (sayings s.raw) = none := by
      refine modeSaid_eq_none fun code hcode => ?_
      rw [hwords] at hcode
      have hmem := codes_subset hcodes code hcode
      simp only [List.mem_cons, List.not_mem_nil, or_false] at hmem
      rcases hmem with rfl | rfl <;> exact ⟨by decide, by decide⟩
    have hsame : (t.feed == (t.read s.raw).feed) = true := by
      rw [← hbefore, ← hafter]
      simpa [Stop.after, Stop.resolution?, hfound] using hfeed
    refine ⟨?_, ?_, h.feed.trans (.inr hsame)⟩
    · rw [FeedTrack.read, FeedTrack.hear_perTurn, hmode, h.perTurn]
      rfl
    · rw [h.first, FeedTrack.read]
      cases hvalue : feedSaid (sayings s.raw) with
      | none => rw [FeedTrack.hear_first_of_none hvalue]
      | some x =>
        have hrestates : t.feed.any (x == ·) = true := by
          rw [FeedTrack.read, FeedTrack.hear_feed, hvalue] at hsame
          cases hactive : t.feed with
          | none =>
            rw [hactive] at hsame
            cases hsame
          | some y =>
            rw [hactive] at hsame
            exact (Number.beq_comm x y).trans hsame
        rw [FeedTrack.hear_first_of_some hvalue, hrestates, if_pos rfl]

theorem removeRedundantMoves_follows
    (hQ : ∀ ⦃t t' l o⦄, t'.first = t.first → Q t l o → Q' t' l o) (h : Traces Q {} ls os)
    (hrun : (removeRedundantMoves ls).result = .ok ls') : Follows Q' {} ls' os := by
  have hstops : ∀ stops : List Stop, ∀ {t t' os}, SameFirst t' t → Walked t stops →
      Traces Q t (stops.map Stop.raw) os →
        Follows Q' t' ((stops.filter fun s => !isRedundantMove s).map Stop.raw) os := by
    intro stops
    induction stops with
    | nil =>
      intro t t' os _ _ htraces
      cases htraces
      exact Follows.nil Q' t'
    | cons s rest ih =>
      intro t t' os hsame hwalked htraces
      cases hwalked with
      | cons before after block hrest =>
        cases htraces with
        | cons noFeed here htail =>
          cases hredundant : isRedundantMove s with
          | true =>
            have hnext := sameFirst_read hredundant hsame before after block
            have := (ih hnext hrest htail).drop
            simpa [hredundant] using this _
          | false =>
            have hnext := hsame.hear (sayings s.raw)
            have := Follows.keep (Q := Q') noFeed (hQ hnext.first here) (ih hnext hrest htail)
            simpa [hredundant] using this
  simp only [removeRedundantMoves, Revised.ofWalk, map_eq_ok] at hrun
  obtain ⟨stops, hwalk, rfl⟩ := hrun
  refine hstops stops ⟨rfl, rfl, .refl _⟩ (walk_walked hwalk) ?_
  rwa [walkFrom_raw hwalk]

/-! ## Words that go -/

/-- Whether a word is kept when the words of some letters and codes are taken out. -/
def keepsSaying (marks : List String) (w : Saying) : Bool :=
  !marks.contains (.singleton w.1) && !marks.contains (.singleton w.1 ++ codeNumber w.2)

theorem said_without (b : Block) (marks : List String) :
    (b.without marks).words.map Word.said =
      (b.words.map Word.said).filter (keepsSaying marks) := by
  rw [List.filter_map]
  rfl

/-- The letters and codes that some rule takes out. -/
def goingMarks : List String :=
  ["F", "G0", "G1", "G2", "G3", "G90", "G91", "G17", "G18", "G19"]

section

variable {marks : List String} {ws : List Saying}

theorem head?_singleton_append (c : Char) (s : String) :
    (String.singleton c ++ s).toList.head? = some c := by simp

/-- A word with another letter than `G` and `F` stays. -/
theorem keepsSaying_of_other (hmarks : marks ⊆ goingMarks) {w : Saying}
    (hw : (w.1 != 'G' && w.1 != 'F') = true) : keepsSaying marks w = true := by
  have hheads : ∀ mark ∈ goingMarks, mark.toList.head? = some 'G' ∨ mark.toList.head? = some 'F' := by
    decide
  simp only [Bool.and_eq_true, bne_iff_ne] at hw
  have hout : ∀ mark, mark.toList.head? = some w.1 → mark ∉ marks := by
    intro mark hhead hmem
    rcases hheads mark (hmarks hmem) with h | h
    · rw [hhead] at h
      exact hw.1 (Option.some.inj h)
    · rw [hhead] at h
      exact hw.2 (Option.some.inj h)
  have hletter := hout (.singleton w.1) (by simp)
  have hcode := hout _ (head?_singleton_append w.1 (codeNumber w.2))
  simp [keepsSaying, hletter, hcode]

theorem filter_others (hmarks : marks ⊆ goingMarks) (ws : List Saying) :
    (ws.filter (keepsSaying marks)).filter (fun w => w.1 != 'G' && w.1 != 'F') =
      ws.filter fun w => w.1 != 'G' && w.1 != 'F' := by
  rw [List.filter_filter]
  refine List.filter_congr fun w _ => ?_
  cases hw : w.1 != 'G' && w.1 != 'F' with
  | true => rw [keepsSaying_of_other hmarks hw, Bool.and_true]
  | false => rw [Bool.false_and]

/-- The codes for the feed mode stay. -/
theorem modeSaid_filter (hmarks : marks ⊆ goingMarks) (ws : List Saying) :
    modeSaid (ws.filter (keepsSaying marks)) = modeSaid ws := by
  have hkeeps : ∀ code, code ∉ goingMarks →
      (code ∈ codesSaid (ws.filter (keepsSaying marks)) ↔ code ∈ codesSaid ws) := by
    intro code hcode
    simp only [mem_codesSaid, List.mem_filter]
    refine exists_congr fun w => ⟨fun ⟨hw, hsaid⟩ => ⟨hw.1, hsaid⟩, fun ⟨hw, hletter, hsaid⟩ => ?_⟩
    have hG : String.singleton w.1 ∉ marks := by
      rw [hletter]
      exact fun hmem => absurd (hmarks hmem) (by decide)
    have hout : String.singleton w.1 ++ codeNumber w.2 ∉ marks := by
      rw [hsaid]
      exact fun hmem => hcode (hmarks hmem)
    exact ⟨⟨hw, by simp [keepsSaying, hG, hout]⟩, hletter, hsaid⟩
  exact modeSaid_congr (hkeeps "G95" (by decide)) (hkeeps "G94" (by decide))

/-- Feed words stay unless their letter goes. -/
theorem feedSaid_filter_of_not (hmarks : marks ⊆ goingMarks) (hF : "F" ∉ marks) (ws : List Saying) :
    feedSaid (ws.filter (keepsSaying marks)) = feedSaid ws := by
  refine feedSaid_filter fun w _ hw => ?_
  have hheads : ∀ mark ∈ goingMarks, mark.toList.head? = some 'F' → mark = "F" := by decide
  have hcode : String.singleton w.1 ++ codeNumber w.2 ∉ marks := by
    intro hmem
    have hhead := head?_singleton_append w.1 (codeNumber w.2)
    rw [hw] at hhead hmem
    rw [hheads _ (hmarks hmem) hhead] at hmem
    exact hF hmem
  have hletter : String.singleton w.1 ∉ marks := by
    rw [hw]
    exact hF
  simp [keepsSaying, hcode, hletter]

theorem feedSaid_filter_of_mem (hF : "F" ∈ marks) (ws : List Saying) :
    feedSaid (ws.filter (keepsSaying marks)) = none := by
  refine feedSaid_eq_none fun w hw heq => ?_
  have hkeep := (List.mem_filter.1 hw).2
  have hletter : String.singleton w.1 ∈ marks := by
    rw [heq]
    exact hF
  simp [keepsSaying, hletter] at hkeep

end

/-- What is left of a line without some words says the other words. -/
theorem leftOf_words {raw : String} {b : Block} {n : Int} (hread : Block.read? raw n = some b)
    (hfeed : '\n' ∉ raw.toList) (drop : List String) :
    ((leftOf raw b drop).map sayings).getD [] = (b.without drop).words.map Word.said ∧
      ∀ l, leftOf raw b drop = some l → '\n' ∉ l.toList := by
  have hwell := Block.wellFormed_of_read? hread
  have hwell' := hwell.without drop
  rw [leftOf]
  by_cases hempty : drop.isEmpty = true
  · have hnone : drop = [] := List.isEmpty_iff.1 hempty
    subst hnone
    have hall : (b.without []).words = b.words := List.filter_eq_self.2 fun _ _ => by simp
    refine ⟨?_, fun l hl => by cases hl; exact hfeed⟩
    rw [if_pos hempty, Option.map_some, Option.getD_some, Block.sayings_of_read? hread, hall]
  · rw [if_neg hempty]
    by_cases hbare : (b.without drop).isBare = true
    · rw [if_pos hbare]
      refine ⟨?_, fun l hl => by cases hl⟩
      simp only [Block.isBare, Bool.and_eq_true, List.isEmpty_iff] at hbare
      rw [hbare.1.1]
      rfl
    · rw [if_neg hbare]
      refine ⟨?_, fun l hl => by cases hl; exact Block.feed_not_mem_render hwell'⟩
      rw [Option.map_some, Option.getD_some, Block.sayings_render hwell']

/-! ## Restated words that go -/

theorem meet_again {s : Stated} {code : Code} (h : (s.meet code).2 = true) :
    code ∈ ["G90", "G91", "G17", "G18", "G19"] := by
  simp only [Stated.meet] at h
  split_ifs at h with hpositioning hplane
  · simp only [Bool.or_eq_true, decide_eq_true_eq] at hpositioning
    rcases hpositioning with rfl | rfl <;> decide
  · obtain ⟨plane, hplane⟩ := Option.isSome_iff_exists.1 hplane
    have hcode := List.find?_some hplane
    rw [beq_iff_eq] at hcode
    rw [← hcode]
    cases plane <;> decide

theorem repeated_stated (s : Stated) (codes : List Code) :
    ∀ code ∈ (s.repeated codes).2, code ∈ ["G90", "G91", "G17", "G18", "G19"] := by
  induction codes generalizing s with
  | nil => simp [Stated.repeated]
  | cons code rest ih =>
    simp only [Stated.repeated]
    split
    · rename_i hagain
      intro c hc
      cases hc with
      | head => exact meet_again hagain
      | tail _ hc => exact ih _ c hc
    · exact ih _

theorem restated_going (s : Stated) (before : Modal) (b : Block) :
    restated s before b ⊆ goingMarks ∧
      ("F" ∈ restated s before b ↔ repeatsFeed before b = true) := by
  have hcodes := repeated_stated s (b.codes 'G')
  have hF : "F" ∉ (s.repeated (b.codes 'G')).2 := fun hmem => absurd (hcodes _ hmem) (by decide)
  have hsub : ∀ code ∈ ["G90", "G91", "G17", "G18", "G19"], code ∈ goingMarks := by decide
  rw [restated]
  constructor
  · refine List.append_subset.2 ⟨fun code hcode => hsub code (hcodes code hcode), ?_⟩
    split <;> simp [goingMarks]
  · rw [List.mem_append]
    cases hrepeats : repeatsFeed before b <;> simp [hF]

/-- Two programs, one of which says every feed once only. -/
structure SaysOnce (t' t : FeedTrack) : Prop where
  perTurn : t'.perTurn = t.perTurn
  last : t'.last = t.first

/-- What is left of a block says a feed that is not in effect, and the feed mode. -/
theorem saysOnce_hear {t' t : FeedTrack} (h : SaysOnce t' t) {s : Stated} {before : Modal} {b : Block}
    (hbefore : before.feed = t.feed) :
    SaysOnce (t'.hear ((b.without (restated s before b)).words.map Word.said))
      (t.hear (b.words.map Word.said)) := by
  obtain ⟨hmarks, hF⟩ := restated_going s before b
  rw [said_without]
  generalize restated s before b = marks at hmarks hF
  have hturn : (t'.hear ((b.words.map Word.said).filter (keepsSaying marks))).perTurn =
      (t.hear (b.words.map Word.said)).perTurn := by
    rw [FeedTrack.hear_perTurn, FeedTrack.hear_perTurn, modeSaid_filter hmarks, h.perTurn]
  refine ⟨hturn, ?_⟩
  cases hvalue : feedSaid (b.words.map Word.said) with
  | none =>
    have hnone : feedSaid ((b.words.map Word.said).filter (keepsSaying marks)) = none := by
      by_cases hmem : "F" ∈ marks
      · exact feedSaid_filter_of_mem hmem _
      · rw [feedSaid_filter_of_not hmarks hmem, hvalue]
    rw [FeedTrack.hear_last_of_none hnone, FeedTrack.hear_first_of_none hvalue, h.last]
  | some x =>
    have hrepeats : repeatsFeed before b = t.feed.any (x == ·) := by
      rw [Block.feedSaid_eq] at hvalue
      rw [repeatsFeed, hvalue, hbefore]
      cases t.feed <;> rfl
    rw [hrepeats] at hF
    rw [FeedTrack.hear_first_of_some hvalue]
    by_cases hmem : "F" ∈ marks
    · rw [FeedTrack.hear_last_of_none (feedSaid_filter_of_mem hmem _), if_pos (hF.1 hmem), h.last]
    · have hsome := (feedSaid_filter_of_not hmarks hmem (b.words.map Word.said)).trans hvalue
      rw [if_neg fun hrestates => hmem (hF.2 hrestates), FeedTrack.hear_last_of_some hvalue, ← hturn,
        FeedTrack.hear_last_of_some hsome]

theorem read_of_block_none {s : Stop} (hblock : ∃ n, s.block? = Block.read? s.raw n)
    (hnone : s.block? = none) (t : FeedTrack) : t.read s.raw = t := by
  obtain ⟨n, hread⟩ := hblock
  rw [FeedTrack.read, Block.sayings_of_read?_none (hread.symm.trans hnone), FeedTrack.hear_nil]

theorem trimStated_follows
    (hQ : ∀ ⦃t t' l l' o⦄, t'.last = t.first → otherSayings l' = otherSayings l → Q t l o →
      Q' t' l' o)
    (s : Stated) (hsame : SaysOnce t' t) (hwalked : Walked t stops)
    (h : Traces Q t (stops.map Stop.raw) os) : Follows Q' t' (trimStated s stops) os := by
  induction stops generalizing s t t' os with
  | nil =>
    cases h
    exact Follows.nil Q' t'
  | cons stop rest ih =>
    cases hwalked with
    | cons before after block hrest =>
      cases h with
      | cons noFeed here htail =>
        cases hb : stop.block? with
        | none =>
          have hread := read_of_block_none block hb
          rw [hread] at hrest htail here
          rw [trimStated_cons_none s hb]
          refine Follows.keep noFeed ?_ ?_
          · rw [hread]
            exact hQ hsame.last rfl here
          · rw [hread]
            exact ih s hsame hrest htail
        | some b =>
          obtain ⟨n, hread⟩ := block
          rw [hb] at hread
          obtain ⟨hwords, hfeeds⟩ := leftOf_words hread.symm noFeed (restated s stop.before b)
          have hline := Block.sayings_of_read? hread.symm
          have hnext := saysOnce_hear hsame (s := s) (b := b) before
          rw [← hline] at hnext
          rw [trimStated_cons_some s hb]
          refine Follows.left hwords hfeeds (fun l hl => ?_) (ih _ hnext hrest htail)
          refine hQ hnext.last ?_ here
          rw [hl, Option.map_some, Option.getD_some] at hwords
          rw [otherSayings, otherSayings, hwords, hline, said_without,
            filter_others (restated_going s stop.before b).1]

theorem removeRedundantCodes_follows
    (hQ : ∀ ⦃t t' l l' o⦄, t'.last = t.first → otherSayings l' = otherSayings l → Q t l o →
      Q' t' l' o)
    (h : Traces Q {} ls os) (hrun : (removeRedundantCodes ls).result = .ok ls') :
    Follows Q' {} ls' os := by
  simp only [removeRedundantCodes, Revised.ofWalk, map_eq_ok] at hrun
  obtain ⟨stops, hwalk, rfl⟩ := hrun
  refine trimStated_follows hQ {} ⟨rfl, rfl⟩ (walk_walked hwalk) ?_
  rwa [walkFrom_raw hwalk]

/-! ## Feeds brought into range -/

/-- A feed word, brought into the range of a machine. -/
def clampWord (p : Profile) (w : FeedWord) : Float := clampFeed p w.perTurn w.value

/-- The feeds of a program before and after they are brought into range. -/
structure InRange (p : Profile) (m : FeedMode) (t' t : FeedTrack) : Prop where
  perTurn : m.perTurn = t.perTurn
  active : m.active = t.last.map (clampWord p)
  feed : SameFeed t'.feed m.active

theorem meet_perTurn {m : FeedMode} {t : FeedTrack} (h : m.perTurn = t.perTurn) (b : Block) :
    (m.meet b).perTurn = (t.hear (b.words.map Word.said)).perTurn ∧ (m.meet b).active = m.active := by
  rw [FeedTrack.hear_perTurn, modeSaid, Block.codesSaid_eq, ← h]
  simp only [FeedMode.meet]
  split_ifs <;> exact ⟨rfl, rfl⟩

theorem withFeed_said (b : Block) (x : Float) :
    (withFeed b x).words.map Word.said = (b.words.map Word.said).map fun w =>
      if w.1 == 'F' then ('F', Number.numeralValue (Number.coordinate x).toList) else w := by
  rw [withFeed, List.map_map, List.map_map]
  refine List.map_congr_left fun w _ => ?_
  by_cases hw : w.letter = 'F'
  · simp [Word.said, hw, Word.value]
  · simp [Word.said, hw]

theorem feedSaid_withFeed {ws : List Saying} {x : Float} (y : Float) (h : feedSaid ws = some x) :
    feedSaid (ws.map fun w => if w.1 == 'F' then ('F', y) else w) = some y := by
  induction ws with
  | nil => cases h
  | cons w ws ih =>
    by_cases hw : w.1 = 'F'
    · simp [feedSaid, hw]
    · have hrest : feedSaid ws = some x := by simpa [feedSaid, hw] using h
      simpa [feedSaid, hw] using ih hrest

theorem others_withFeed (ws : List Saying) (y : Float) :
    (ws.map fun w => if w.1 == 'F' then ('F', y) else w).filter
        (fun w => w.1 != 'G' && w.1 != 'F') = ws.filter fun w => w.1 != 'G' && w.1 != 'F' := by
  induction ws with
  | nil => rfl
  | cons w ws ih =>
    by_cases hw : w.1 = 'F'
    · simpa [hw] using ih
    · cases hother : w.1 != 'G' && w.1 != 'F' with
      | true => simpa [hw, hother] using ih
      | false => simpa [hw, hother] using ih

/-- A line with a feed word is answered by any words that leave its feed, in range, in effect. -/
theorem InRange.answered {p : Profile} {m : FeedMode} {t' t s : FeedTrack} {raw : String} {b : Block}
    {feed : Float} {n : Int} (h : InRange p m t' t) (hread : Block.read? raw n = some b)
    (hvalue : b.value 'F' = some feed)
    (hs : SameFeed s.feed (some (clampFeed p (m.meet b).perTurn feed))) :
    InRange p { m.meet b with active := some (clampFeed p (m.meet b).perTurn feed) } s
      (t.read raw) := by
  have hline := Block.sayings_of_read? hread
  have hsaid : feedSaid (sayings raw) = some feed := by rw [hline, Block.feedSaid_eq, hvalue]
  have hturn := (meet_perTurn h.perTurn b).1
  rw [← hline] at hturn
  have hlast : (t.read raw).last = some ⟨feed, (m.meet b).perTurn⟩ := by
    rw [FeedTrack.read, FeedTrack.hear_last_of_some hsaid, hturn]
  exact ⟨hturn, by rw [hlast]; rfl, hs⟩

/-- Without its feed words a block leaves the feed in effect. -/
theorem InRange.feed_without {p : Profile} {m : FeedMode} {t' t : FeedTrack} {x : Float}
    (h : InRange p m t' t) (b : Block) (hx : (m.meet b).active.any (x == ·) = true) :
    SameFeed (t'.hear ((b.without ["F"]).words.map Word.said)).feed (some x) := by
  obtain ⟨y, hy, hsame⟩ := (Option.any_eq_true (x == ·) _).1 hx
  have hnone := feedSaid_filter_of_mem (List.mem_singleton_self "F") (b.words.map Word.said)
  have hold := h.feed
  rw [← (meet_perTurn h.perTurn b).2, hy] at hold
  rw [said_without, FeedTrack.hear_feed, hnone]
  exact hold.trans (SameFeed.of_beq hsame).symm

theorem others_without_feed (b : Block) :
    (((b.without ["F"]).words.map Word.said).filter fun w => w.1 != 'G' && w.1 != 'F') =
      (b.words.map Word.said).filter fun w => w.1 != 'G' && w.1 != 'F' := by
  rw [said_without, filter_others (by simp [goingMarks])]

/-- What comes out of a line with a feed word says the feed in range, if that is not said already,
and else what the line says. -/
theorem clampedLine_words {c : Controller} (dropRestated : Bool) {m : FeedMode} {t' t : FeedTrack}
    {raw : String} {b : Block} {feed : Float} {n : Int} (hread : Block.read? raw n = some b)
    (hvalue : b.value 'F' = some feed) (h : InRange c.profile m t' t) :
    ∃ ws, ((clampedLine c.profile dropRestated (m.meet b) raw b feed).map sayings).getD [] = ws ∧
      ('\n' ∉ raw.toList → ∀ l, clampedLine c.profile dropRestated (m.meet b) raw b feed = some l →
        '\n' ∉ l.toList) ∧
      InRange c.profile
        { m.meet b with active := some (clampFeed c.profile (m.meet b).perTurn feed) }
        (t'.hear ws) (t.read raw) ∧
      (ws.filter fun w => w.1 != 'G' && w.1 != 'F') = otherSayings raw := by
  have hline := Block.sayings_of_read? hread
  have hsaid : feedSaid (b.words.map Word.said) = some feed := by rw [Block.feedSaid_eq, hvalue]
  have hwell := Block.wellFormed_of_read? hread
  have hwell' := hwell.without ["F"]
  rw [otherSayings, hline]
  rcases clampedLine_cases c.profile dropRestated (m.meet b) raw b feed with
    ⟨hdrop, ⟨hbare, hleft⟩ | hleft⟩ | ⟨-, ⟨hsame, hleft⟩ | ⟨hdiffer, hleft⟩⟩
  · -- the feed is said already, and its words were all the line says
    have hfeed := h.feed_without b (Bool.and_eq_true_iff.1 hdrop).2
    have hothers := others_without_feed b
    simp only [Block.isBare, Bool.and_eq_true, List.isEmpty_iff] at hbare
    rw [hbare.1.1] at hfeed hothers
    rw [hleft]
    refine ⟨[], rfl, ?_, h.answered hread hvalue hfeed, hothers⟩
    rintro _ l ⟨⟩
  · -- the feed is said already, and its words go
    rw [hleft]
    have hfeed := h.feed_without b (Bool.and_eq_true_iff.1 hdrop).2
    refine ⟨(b.without ["F"]).words.map Word.said, ?_, ?_, h.answered hread hvalue hfeed,
      others_without_feed b⟩
    · rw [Option.map_some, Option.getD_some, Block.sayings_render hwell']
    · rintro _ l ⟨⟩
      exact Block.feed_not_mem_render hwell'
  · -- the feed is in range as it stands
    rw [hleft]
    refine ⟨b.words.map Word.said, hline, ?_, h.answered hread hvalue ?_, rfl⟩
    · rintro noFeed l ⟨⟩
      exact noFeed
    · rw [FeedTrack.hear_feed, hsaid]
      exact (SameFeed.of_beq hsame).symm
  · -- the feed is written anew
    obtain ⟨hnumeral, hx⟩ := clampFeed_numeral hvalue (Bool.eq_false_iff.1 hdiffer)
    have hfed := withFeed_wellFormed hwell hnumeral
    rw [hleft]
    refine ⟨(withFeed b (clampFeed c.profile (m.meet b).perTurn feed)).words.map Word.said, ?_, ?_,
      h.answered hread hvalue ?_, ?_⟩
    · rw [Option.map_some, Option.getD_some, Block.sayings_render hfed]
    · rintro _ l ⟨⟩
      exact Block.feed_not_mem_render hfed
    · rw [FeedTrack.hear_feed, withFeed_said, feedSaid_withFeed _ hsaid]
      exact (SameFeed.of_beq hx).symm
    · rw [withFeed_said, others_withFeed]

theorem clampFeeds_follows {c : Controller} {dropRestated : Bool} {m : FeedMode} {n : Int}
    (hQ : ∀ ⦃t t' l l' o⦄, SameFeed t'.feed (t.last.map (clampWord c.profile)) →
      otherSayings l' = otherSayings l → Q t l o → Q' t' l' o)
    (hrange : InRange c.profile m t' t) (h : Traces Q t ls os) :
    Follows Q' t' (clampFeeds c.profile dropRestated m (readLines n ls)) os := by
  have hstep : ∀ {m : FeedMode} {t' t : FeedTrack}, InRange c.profile m t' t →
      SameFeed t'.feed (t.last.map (clampWord c.profile)) := fun h => by
    rw [← h.active]
    exact h.feed
  induction h generalizing m n t' with
  | nil t => exact Follows.nil Q' t'
  | @cons t l o ls os noFeed here htail ih =>
    cases hread : Block.read? l n with
    | none =>
      have hsilent : ∀ s : FeedTrack, s.read l = s := fun s => by
        rw [FeedTrack.read, Block.sayings_of_read?_none hread, FeedTrack.hear_nil]
      rw [hsilent t] at here ih
      simp only [readLines, hread, clampFeeds]
      refine Follows.keep noFeed ?_ ?_
      · rw [hsilent t']
        exact hQ (hstep hrange) rfl here
      · rw [hsilent t']
        exact ih hrange
    | some b =>
      have hline := Block.sayings_of_read? hread
      cases hvalue : b.value 'F' with
      | none =>
        obtain ⟨hturn, hactive⟩ := meet_perTurn hrange.perTurn b
        have hnone : feedSaid (sayings l) = none := by rw [hline, Block.feedSaid_eq, hvalue]
        rw [← hline] at hturn
        have hnext : InRange c.profile (m.meet b) (t'.read l) (t.read l) := by
          refine ⟨hturn, ?_, ?_⟩
          · rw [hactive, hrange.active, FeedTrack.read, FeedTrack.hear_last_of_none hnone]
          · rw [hactive, FeedTrack.read, FeedTrack.hear_feed, hnone]
            exact hrange.feed
        simp only [readLines, hread, clampFeeds, hvalue]
        exact Follows.keep noFeed (hQ (hstep hnext) rfl here) (ih hnext)
      | some feed =>
        obtain ⟨ws, hwords, hfeeds, hnext, hothers⟩ := clampedLine_words dropRestated hread hvalue
          hrange
        rw [readLines, hread, clampFeeds_cons_some _ _ _ hvalue]
        refine Follows.left hwords (hfeeds noFeed) (fun l' hl' => ?_) (ih hnext)
        refine hQ (hstep hnext) ?_ here
        rw [hl', Option.map_some, Option.getD_some] at hwords
        rw [otherSayings, hwords, hothers]

theorem optimizeFeedrates_follows {job : Job}
    (hQ : ∀ ⦃t t' l l' o⦄, SameFeed t'.feed (t.last.map (clampWord job.profile)) →
      otherSayings l' = otherSayings l → Q t l o → Q' t' l' o)
    (h : Traces Q {} ls os) : Follows Q' {} (optimizeFeedrates job ls) os :=
  clampFeeds_follows hQ ⟨rfl, rfl, .refl _⟩ h

end Rule

end PartProgram

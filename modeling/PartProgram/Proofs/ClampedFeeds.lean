import PartProgram.Proofs.UnknownWords

/-!
# PartProgram.Proofs.ClampedFeeds

Programs whose feeds are brought into the range of a machine. Every line leaves at most one line, on
which nothing is changed but feed words. Two words that come out as one feed need only one of them,
so the feed in effect is not always said by the last line that comes out; but after every line it is
the last feed word, brought into the range for its feed mode. A program that came out has nothing to
be brought into range and nothing to be left out.

* `remarkOn_render`, `restOn_render`: what a written block says beside its feeds.
* `feed_leftFeeds`: the feed in effect after every line.
* `feedsInRange_leftFeeds`: nothing is left to be done for the lines that come out.
* `optimizeFeedrates_clamps`: what comes of a program.
-/

namespace PartProgram

open Text

/-! ## What lines say beside feeds -/

/-- What the comments of a line say, with a block on it or without. -/
def remarkOn (line : String) : Option String :=
  (CommentedLine.ofChars (Block.dropLineEnd line.toList)).remark?

/-- The block on a line; one that says nothing where there is none. -/
def blockOn (line : String) : Block := (Block.read? line 1).getD .empty

/-- The words that a control knows on a line, without the feed words. -/
def restOn (line : String) : List Word := (blockOn line).words.filter (·.letter != 'F')

/-- The feed words of a program. -/
def feedTrack (ls : Lines) : FeedTrack := ls.foldl FeedTrack.read {}

/-- A line is left with its other words, its comments, its corner word and its number; it goes only
if it has none of the first three but feed words. -/
inductive LosesFeeds (line : String) : Option String → Prop where
  | gone (block : Block.read? line 1 ≠ none) (words : restOn line = [])
      (comment : remarkOn line = none) (corner : (blockOn line).corner = none) :
      LosesFeeds line none
  | stays {left : String} (words : restOn left = restOn line)
      (comment : remarkOn left = remarkOn line)
      (corner : (blockOn left).corner = (blockOn line).corner)
      (number : (blockOn left).number = (blockOn line).number) : LosesFeeds line (some left)

theorem LosesFeeds.refl (line : String) : LosesFeeds line (some line) := .stays rfl rfl rfl rfl

section

variable {line : String} {n : Int} {b : Block}

theorem remarkOn_of_read? (h : Block.read? line n = some b) : remarkOn line = b.comment := by
  simp only [Block.read?, Option.map_eq_some_iff] at h
  obtain ⟨code, -, rfl⟩ := h
  rfl

theorem blockOn_of_read? (h : Block.read? line n = some b) :
    blockOn line = { b with line := 1 } := by
  rw [blockOn, Block.read?_at (n := n) 1, h]
  rfl

/-- The comment of a written block is read again, also if nothing else is written. -/
theorem remarkOn_render (h : b.WellFormed) : remarkOn b.render = b.comment := by
  by_cases hparts : b.parts = []
  · cases hcomment : b.comment with
    | none =>
      rw [Block.render, hcomment, Block.renderCode_of_parts_nil hparts]
      decide
    | some s =>
      obtain ⟨hsnug, -⟩ := h.comment s hcomment
      obtain ⟨hline, hchars⟩ := h.render_of_parts_nil hparts hcomment
      have htrim : trim (' ' :: s.toList) = s.toList := by
        have hblank : ∀ c ∈ [' '], isBlank c = true := List.all_eq_true.1 (by decide)
        have hnil : ∀ c ∈ ([] : List Char), isBlank c = true := by simp
        simpa using hsnug.trim hblank hnil
      have hne : s.toList.isEmpty = false := by
        rw [Bool.eq_false_iff, ne_eq, List.isEmpty_iff]
        exact hsnug.ne_nil
      rw [remarkOn, dropLineEnd_of_snug hline, hchars]
      simp [CommentedLine.remark?, CommentedLine.remarks, Comment.text, htrim, hne]
  · obtain ⟨-, -, -, hremark⟩ := h.ofChars hparts
    rw [remarkOn, dropLineEnd_of_snug (h.snug_render hparts), hremark]

theorem blockOn_render (h : b.WellFormed) :
    (blockOn b.render).words = b.words ∧ (blockOn b.render).corner = b.corner ∧
      (blockOn b.render).number = b.number := by
  by_cases hparts : b.parts = []
  · have hread := Block.read?_render_of_parts_nil h hparts 1
    simp only [Block.parts, List.append_eq_nil_iff, List.map_eq_nil_iff,
      Option.toList_eq_nil_iff] at hparts
    obtain ⟨⟨hnumber, hwords⟩, hcorner⟩ := hparts
    rw [blockOn, hread, hwords, hcorner, hnumber]
    exact ⟨rfl, rfl, rfl⟩
  · rw [blockOn, Block.read?_render h hparts 1]
    exact ⟨rfl, rfl, rfl⟩

theorem words_without_feed (b : Block) :
    (b.without ["F"]).words = b.words.filter (·.letter != 'F') := by
  rw [Block.without]
  refine List.filter_congr fun w _ => ?_
  by_cases hw : w.letter = 'F'
  · simp [hw]
  · have hletter : String.singleton w.letter ≠ "F" := fun heq => hw (by
      have := congrArg (fun s => s.toList.head?) heq
      simpa using this)
    have hcode : w.code ≠ "F" := fun heq => hw (by
      have := congrArg (fun s => s.toList.head?) heq
      simpa [Word.code] using this)
    simp [hw, hletter, hcode]

theorem restOn_render (h : b.WellFormed) :
    restOn b.render = b.words.filter (·.letter != 'F') := by
  rw [restOn, (blockOn_render h).1]

theorem losesFeeds_render {b' : Block} (hread : Block.read? line n = some b) (h : b'.WellFormed)
    (hwords : b'.words.filter (·.letter != 'F') = b.words.filter (·.letter != 'F'))
    (hcomment : b'.comment = b.comment) (hcorner : b'.corner = b.corner)
    (hnumber : b'.number = b.number) : LosesFeeds line (some b'.render) := by
  obtain ⟨-, hcorner', hnumber'⟩ := blockOn_render h
  refine .stays ?_ ?_ ?_ ?_
  · rw [restOn_render h, hwords, restOn, blockOn_of_read? hread]
  · rw [remarkOn_render h, hcomment, remarkOn_of_read? hread]
  · rw [hcorner', hcorner, blockOn_of_read? hread]
  · rw [hnumber', hnumber, blockOn_of_read? hread]

end

namespace Rule

section

variable {c : Controller} {p : Profile} {dropRestated : Bool} {m m' : FeedMode} {t t' : FeedTrack}
  {raw : String} {b b' : Block} {feed : Float} {n k : Int} {ls : Lines}

/-! ## What is left of a line -/

theorem filter_withFeed (b : Block) (x : Float) :
    (withFeed b x).words.filter (·.letter != 'F') = b.words.filter (·.letter != 'F') := by
  rw [withFeed]
  induction b.words with
  | nil => rfl
  | cons w ws ih =>
    by_cases hw : w.letter = 'F'
    · simpa [hw] using ih
    · simpa [hw] using ih

theorem losesFeeds_clampedLine (hread : Block.read? raw n = some b)
    (hvalue : b.value 'F' = some feed) :
    LosesFeeds raw (clampedLine c.profile dropRestated m raw b feed) := by
  have hwell := Block.wellFormed_of_read? hread
  have hblock := blockOn_of_read? hread
  rcases clampedLine_cases c.profile dropRestated m raw b feed with
    ⟨-, ⟨hbare, hleft⟩ | hleft⟩ | ⟨-, ⟨-, hleft⟩ | ⟨hdiffer, hleft⟩⟩
  · rw [hleft]
    simp only [Block.isBare, Bool.and_eq_true, List.isEmpty_iff, Option.isNone_iff_eq_none] at hbare
    obtain ⟨⟨hwords, hcomment⟩, hcorner⟩ := hbare
    refine .gone ?_ ?_ ?_ ?_
    · rw [Block.read?_at (n := n) 1, hread]
      exact Option.some_ne_none _
    · rw [restOn, hblock, ← words_without_feed]
      exact hwords
    · rw [remarkOn_of_read? hread]
      exact hcomment
    · rw [hblock]
      exact hcorner
  · rw [hleft]
    refine losesFeeds_render hread (hwell.without ["F"]) ?_ rfl rfl rfl
    rw [words_without_feed, List.filter_filter]
    simp
  · rw [hleft]
    exact .refl raw
  · rw [hleft]
    have hnumeral := (clampFeed_numeral hvalue (Bool.eq_false_iff.1 hdiffer)).1
    exact losesFeeds_render hread (withFeed_wellFormed hwell hnumeral) (filter_withFeed b _) rfl rfl
      rfl

theorem losesFeeds_leftFeeds (c : Controller) (dropRestated : Bool) (m : FeedMode) (n : Int)
    (ls : Lines) :
    List.Forall₂ LosesFeeds ls (leftFeeds c.profile dropRestated m (readLines n ls)) := by
  induction ls generalizing m n with
  | nil => exact .nil
  | cons raw rest ih =>
    rw [readLines]
    cases hread : Block.read? raw n with
    | none => exact .cons (.refl raw) (ih m _)
    | some b =>
      rw [leftFeeds]
      cases hvalue : b.value 'F' with
      | none => exact .cons (.refl raw) (ih _ _)
      | some feed => exact .cons (losesFeeds_clampedLine hread hvalue) (ih _ _)

/-! ## The feed in effect -/

/-- What is left of a line is heard. -/
def hearLeft (t : FeedTrack) (left : Option String) : FeedTrack :=
  t.hear ((left.map sayings).getD [])

theorem hearLeft_some (t : FeedTrack) (l : String) : hearLeft t (some l) = t.read l := by
  rw [hearLeft, Option.map_some, Option.getD_some, FeedTrack.read]

theorem foldl_read_reduceOption (t : FeedTrack) (left : List (Option String)) :
    left.reduceOption.foldl FeedTrack.read t = left.foldl hearLeft t := by
  induction left generalizing t with
  | nil => rfl
  | cons o left ih =>
    cases o with
    | none =>
      rw [List.reduceOption_cons_of_none, ih]
      rfl
    | some l => rw [List.reduceOption_cons_of_some, List.foldl_cons, ih, List.foldl_cons, hearLeft_some]

theorem InRange.same (h : InRange p m t' t) : SameFeed t'.feed (t.last.map (clampWord p)) := by
  rw [← h.active]
  exact h.feed

theorem inRange_read_none (h : InRange p m t' t) (hread : Block.read? raw n = none) :
    InRange p m (t'.read raw) (t.read raw) := by
  have hsilent : ∀ s : FeedTrack, s.read raw = s := fun s => by
    rw [FeedTrack.read, Block.sayings_of_read?_none hread, FeedTrack.hear_nil]
  rwa [hsilent, hsilent]

theorem inRange_read_some (h : InRange p m t' t) (hread : Block.read? raw n = some b)
    (hvalue : b.value 'F' = none) : InRange p (m.meet b) (t'.read raw) (t.read raw) := by
  have hline := Block.sayings_of_read? hread
  obtain ⟨hturn, hactive⟩ := meet_perTurn h.perTurn b
  have hnone : feedSaid (sayings raw) = none := by rw [hline, Block.feedSaid_eq, hvalue]
  rw [← hline] at hturn
  refine ⟨hturn, ?_, ?_⟩
  · rw [hactive, h.active, FeedTrack.read, FeedTrack.hear_last_of_none hnone]
  · rw [hactive, FeedTrack.read, FeedTrack.hear_feed, hnone]
    exact h.feed

/-- After every line the feed in effect is the last feed word of the program, brought into range. -/
theorem feed_leftFeeds (h : InRange c.profile m t' t) (i : Nat) :
    SameFeed (((leftFeeds c.profile dropRestated m (readLines n ls)).take i).foldl hearLeft t').feed
      (((ls.take i).foldl FeedTrack.read t).last.map (clampWord c.profile)) := by
  induction ls generalizing m t t' n i with
  | nil => simpa [readLines, leftFeeds] using h.same
  | cons raw rest ih =>
    cases i with
    | zero => exact h.same
    | succ i =>
      rw [readLines, List.take_succ_cons, List.foldl_cons]
      cases hread : Block.read? raw n with
      | none =>
        rw [leftFeeds, List.take_succ_cons, List.foldl_cons, hearLeft_some]
        exact ih (inRange_read_none h hread) i
      | some b =>
        cases hvalue : b.value 'F' with
        | none =>
          simp only [leftFeeds, hvalue, List.take_succ_cons, List.foldl_cons, hearLeft_some]
          exact ih (inRange_read_some h hread hvalue) i
        | some feed =>
          simp only [leftFeeds, hvalue, List.take_succ_cons, List.foldl_cons]
          obtain ⟨ws, hws, -, hnext, -⟩ := clampedLine_words dropRestated hread hvalue h
          rw [hearLeft, hws]
          exact ih hnext i

/-! ## Nothing left to be done -/

theorem codes_of_words (h : b'.words = b.words) (letter : Char) :
    b'.codes letter = b.codes letter := by
  rw [Block.codes, Block.codes, h]

theorem value_of_words (h : b'.words = b.words) (letter : Char) :
    b'.value letter = b.value letter := by
  rw [Block.value, Block.value, h]

/-- Two states of the rule between which the lines to come make no difference. -/
structure SameMode (m m' : FeedMode) : Prop where
  perTurn : m'.perTurn = m.perTurn
  active : SameFeed m'.active m.active

theorem SameMode.meet (h : SameMode m m') (hcodes : b'.codes 'G' = b.codes 'G') :
    SameMode (m.meet b) (m'.meet b') := by
  have hactive : ∀ (m : FeedMode) (b : Block), (m.meet b).active = m.active := by
    intro m b
    rw [FeedMode.meet]
    split_ifs <;> rfl
  refine ⟨?_, ?_⟩
  · simp only [FeedMode.meet, hcodes]
    split_ifs
    · rfl
    · rfl
    · exact h.perTurn
  · rw [hactive, hactive]
    exact h.active

theorem meet_of_no_codes (m : FeedMode) (h : b.codes 'G' = []) : m.meet b = m := by
  simp [FeedMode.meet, h]

theorem codes_without_feed (b : Block) : (b.without ["F"]).codes 'G' = b.codes 'G' := by
  rw [Block.codes, words_without_feed, List.filter_filter, Block.codes]
  refine congrArg _ (List.filter_congr fun w _ => ?_)
  by_cases hw : w.letter = 'G' <;> simp [hw]

theorem codes_withFeed (b : Block) (x : Float) : (withFeed b x).codes 'G' = b.codes 'G' := by
  rw [Block.codes, Block.codes, withFeed]
  induction b.words with
  | nil => rfl
  | cons w ws ih =>
    by_cases hF : w.letter = 'F'
    · simpa [hF] using ih
    · by_cases hG : w.letter = 'G' <;> simpa [hF, hG] using ih

theorem value_withFeed {x : Float} (hvalue : b.value 'F' = some feed) :
    (withFeed b x).value 'F' = some (Number.numeralValue (Number.coordinate x).toList) := by
  rw [← Block.feedSaid_eq, withFeed_said]
  exact feedSaid_withFeed _ (by rw [Block.feedSaid_eq, hvalue])

/-- A feed that is written anew is in range when it is read again. -/
theorem clampFeed_again (c : Controller) {perTurn : Bool} (hvalue : b.value 'F' = some feed)
    (hdiffer : (clampFeed c.profile perTurn feed == feed) = false) :
    let x := clampFeed c.profile perTurn feed
    let y := Number.numeralValue (Number.coordinate x).toList
    (clampFeed c.profile perTurn y == y) = true ∧ (clampFeed c.profile perTurn y == x) = true := by
  have hlimits : ∀ x ∈ [if perTurn then 0.0 else c.profile.minFeed, c.profile.maxFeed],
      let y := Number.numeralValue (Number.coordinate x).toList
      (clampFeed c.profile perTurn y == y) = true ∧
        (clampFeed c.profile perTurn y == x) = true := by
    cases c <;> cases perTurn <;> decide +kernel
  refine hlimits _ ((clampFeed_cases c.profile perTurn feed).resolve_left fun hsame => ?_)
  rw [hsame, Number.beq_self (Block.value_isNumber hvalue)] at hdiffer
  cases hdiffer

theorem SameMode.restates (h : SameMode m m') {x y : Float} (hxy : (y == x) = true) :
    m'.active.any (y == ·) = m.active.any (x == ·) := by
  rw [h.active.any_beq]
  cases m.active with
  | none => rfl
  | some z => exact Number.beq_congr hxy z

/-- A feed that is in effect already may be said again or not. -/
theorem SameMode.restated (h : SameMode m m') {x : Float} (hsaid : m.active.any (x == ·) = true) :
    SameMode { m with active := some x } m' := by
  obtain ⟨z, hz, hsame⟩ := (Option.any_eq_true _ _).1 hsaid
  have hactive := h.active
  rw [hz] at hactive
  exact ⟨h.perTurn, hactive.trans (SameFeed.of_beq hsame).symm⟩

/-- Nothing is to be done for a line, and it leads to a state like the given one. -/
inductive Passes (p : Profile) (dropRestated : Bool) (m : FeedMode) (k : Int) (l : String)
    (next : FeedMode) : Prop where
  | intro (m' : FeedMode) (same : SameMode next m')
      (rest : ∀ rest, FeedsInRange p dropRestated m (readLines k (l :: rest)) ↔
        FeedsInRange p dropRestated m' (readLines (k + 1) rest))

theorem passes_of_none (p : Profile) (dropRestated : Bool) (hread : Block.read? raw k = none)
    (h : SameMode m m') : Passes p dropRestated m' k raw m := by
  refine ⟨m', h, fun rest => ?_⟩
  rw [readLines, hread, FeedsInRange]

theorem passes_of_no_feed (p : Profile) (dropRestated : Bool) (hread : Block.read? raw k = some b)
    (hvalue : b.value 'F' = none) (h : SameMode m (m'.meet b)) :
    Passes p dropRestated m' k raw m := by
  refine ⟨m'.meet b, h, fun rest => ?_⟩
  rw [readLines, hread]
  simp only [FeedsInRange, hvalue]

/-- A feed in range that is not said again. -/
theorem passes_of_feed {x : Float} (hread : Block.read? raw k = some b') (h : SameMode m m')
    (hcodes : b'.codes 'G' = b.codes 'G') (hvalue : b'.value 'F' = some feed)
    (hsame : (clampFeed p (m.meet b).perTurn feed == feed) = true)
    (hx : (clampFeed p (m.meet b).perTurn feed == x) = true)
    (hfresh : (dropRestated && (m.meet b).active.any (x == ·)) = false) :
    Passes p dropRestated m' k raw { m.meet b with active := some x } := by
  have hmeet := h.meet hcodes
  refine ⟨{ m'.meet b' with active := some (clampFeed p (m.meet b).perTurn feed) },
    ⟨hmeet.perTurn, SameFeed.of_beq hx⟩, fun rest => ?_⟩
  rw [readLines, hread]
  simp only [FeedsInRange, hvalue, hmeet.perTurn, hmeet.restates hx, hsame, hfresh, true_and]

/-- A block from which the feed words went, as the feed is said already. -/
theorem passes_without_feed {x : Float} (hwell : b.WellFormed) (h : SameMode m m')
    (hsaid : (m.meet b).active.any (x == ·) = true) :
    Passes p dropRestated m' k (b.without ["F"]).render { m.meet b with active := some x } := by
  have hwell' := hwell.without ["F"]
  by_cases hparts : (b.without ["F"]).parts = []
  · have hwords : (b.without ["F"]).words = [] := by
      by_contra hwords
      exact Block.parts_ne_nil (.inl hwords) hparts
    have hcodes : b.codes 'G' = [] := by
      rw [← codes_without_feed, Block.codes, hwords]
      rfl
    rw [meet_of_no_codes m hcodes] at hsaid ⊢
    exact passes_of_none p dropRestated (Block.read?_render_of_parts_nil hwell' hparts k)
      (h.restated hsaid)
  · have hvalue : (b.without ["F"]).value 'F' = none := by
      rw [Block.value, words_without_feed, Option.map_eq_none_iff, List.find?_eq_none]
      intro w hw
      simpa using (List.mem_filter.1 hw).2
    refine passes_of_no_feed p dropRestated (Block.read?_render hwell' hparts k)
      ((value_of_words rfl 'F').trans hvalue) ?_
    exact (h.meet ((codes_of_words rfl 'G').trans (codes_without_feed b))).restated hsaid

/-- For a line that is left of a line with a feed word nothing is to be done; a line that is gone
leads nowhere. -/
theorem passes_clampedLine (c : Controller) (dropRestated : Bool)
    (hread : Block.read? raw n = some b) (hvalue : b.value 'F' = some feed) (h : SameMode m m')
    (k : Int) :
    let next : FeedMode :=
      { m.meet b with active := some (clampFeed c.profile (m.meet b).perTurn feed) }
    match clampedLine c.profile dropRestated (m.meet b) raw b feed with
    | none => SameMode next m'
    | some l => Passes c.profile dropRestated m' k l next := by
  have hwell := Block.wellFormed_of_read? hread
  intro next
  rcases clampedLine_cases c.profile dropRestated (m.meet b) raw b feed with
    ⟨hdrop, ⟨hbare, hleft⟩ | hleft⟩ | ⟨hfresh, ⟨hsame, hleft⟩ | ⟨hdiffer, hleft⟩⟩
  · simp only [Block.isBare, Bool.and_eq_true, List.isEmpty_iff] at hbare
    have hcodes : b.codes 'G' = [] := by
      rw [← codes_without_feed, Block.codes, hbare.1.1]
      rfl
    rw [hleft]
    simp only [next]
    rw [meet_of_no_codes m hcodes] at hdrop ⊢
    exact h.restated (Bool.and_eq_true_iff.1 hdrop).2
  · rw [hleft]
    exact passes_without_feed hwell h (Bool.and_eq_true_iff.1 hdrop).2
  · have hread' : Block.read? raw k = some { b with line := k } := by
      rw [Block.read?_at (n := n) k, hread]
      rfl
    have hself : (clampFeed c.profile (m.meet b).perTurn feed ==
        clampFeed c.profile (m.meet b).perTurn feed) = true :=
      (Number.beq_congr hsame _).trans ((Number.beq_comm feed _).trans hsame)
    rw [hleft]
    exact passes_of_feed hread' h (codes_of_words rfl 'G') ((value_of_words rfl 'F').trans hvalue)
      hsame hself hfresh
  · obtain ⟨hsame, hx⟩ := clampFeed_again c hvalue hdiffer
    have hnumeral := (clampFeed_numeral hvalue (Bool.eq_false_iff.1 hdiffer)).1
    have hfed : (withFeed b (clampFeed c.profile (m.meet b).perTurn feed)).words ≠ [] := by
      rw [withFeed, ne_eq, List.map_eq_nil_iff]
      intro hnil
      simp [Block.value, hnil] at hvalue
    have hread' := Block.read?_render (withFeed_wellFormed hwell hnumeral)
      (Block.parts_ne_nil (.inl hfed)) k
    rw [hleft]
    exact passes_of_feed hread' h ((codes_of_words rfl 'G').trans (codes_withFeed b _))
      ((value_of_words rfl 'F').trans (value_withFeed hvalue)) hsame hx hfresh

/-- Of what is left of a program nothing is left to be done. -/
theorem feedsInRange_leftFeeds (h : SameMode m m') :
    FeedsInRange c.profile dropRestated m'
      (readLines k (leftFeeds c.profile dropRestated m (readLines n ls)).reduceOption) := by
  induction ls generalizing m m' n k with
  | nil => trivial
  | cons raw rest ih =>
    rw [readLines]
    cases hread : Block.read? raw n with
    | none =>
      have hat : Block.read? raw k = none := by
        rw [Block.read?_at (n := n) k, hread]
        rfl
      obtain ⟨m₁, hnext, hiff⟩ := passes_of_none c.profile dropRestated hat h
      rw [leftFeeds, List.reduceOption_cons_of_some, hiff]
      exact ih hnext
    | some b =>
      have hat : Block.read? raw k = some { b with line := k } := by
        rw [Block.read?_at (n := n) k, hread]
        rfl
      cases hvalue : b.value 'F' with
      | none =>
        obtain ⟨m₁, hnext, hiff⟩ := passes_of_no_feed c.profile dropRestated hat
          ((value_of_words rfl 'F').trans hvalue) (h.meet (codes_of_words rfl 'G'))
        simp only [leftFeeds, hvalue]
        rw [List.reduceOption_cons_of_some, hiff]
        exact ih hnext
      | some feed =>
        have hline := passes_clampedLine c dropRestated hread hvalue h k
        simp only [leftFeeds, hvalue]
        cases hleft : clampedLine c.profile dropRestated (m.meet b) raw b feed with
        | none =>
          rw [hleft] at hline
          rw [List.reduceOption_cons_of_none]
          exact ih hline
        | some l =>
          rw [hleft] at hline
          obtain ⟨m₁, hnext, hiff⟩ := hline
          rw [List.reduceOption_cons_of_some, hiff]
          exact ih hnext

/-- Feeds that were brought into range stay as they are. -/
theorem optimizeFeedrates_idempotent (job : Job) (ls : Lines) :
    optimizeFeedrates job (optimizeFeedrates job ls) = optimizeFeedrates job ls := by
  refine optimizeFeedrates_eq_self_iff.2 ?_
  have hleft := reduceOption_leftFeeds job.profile (job.flag .removeRedundantCodes) {}
    (readLines 1 ls)
  rw [optimizeFeedrates, ← hleft]
  exact feedsInRange_leftFeeds ⟨rfl, .refl _⟩

/-- Of every line at most one line is left, with its other words in order, its comments, its corner
word and its number; it goes only if there are none of the first three. After every line of the
program the feed in effect in the lines that are left is the last feed word of the program, brought
into the range of the machine for the feed mode of its block; of several feed words on a block the
first one counts. What is left stays as it is when feeds are brought into range again. -/
theorem optimizeFeedrates_clamps (job : Job) (ls : Lines) :
    ∃ left : List (Option String), optimizeFeedrates job ls = left.reduceOption ∧
      List.Forall₂ LosesFeeds ls left ∧
      (∀ i, SameFeed (feedTrack (left.take i).reduceOption).feed
        ((feedTrack (ls.take i)).last.map (clampWord job.profile))) ∧
      optimizeFeedrates job (optimizeFeedrates job ls) = optimizeFeedrates job ls := by
  refine ⟨leftFeeds job.profile (job.flag .removeRedundantCodes) {} (readLines 1 ls), ?_, ?_,
    fun i => ?_, optimizeFeedrates_idempotent job ls⟩
  · exact (reduceOption_leftFeeds _ _ _ _).symm
  · exact losesFeeds_leftFeeds job.controller _ _ 1 ls
  · rw [feedTrack, foldl_read_reduceOption]
    exact feed_leftFeeds ⟨rfl, rfl, .refl _⟩ i

/-- A feed above the limit of a machine is said once, and the line of the next one goes. -/
example : optimizeFeedrates ⟨.generic, {}⟩ ["G1 X1 F99999", "F20000", "G95 X2 F0.5", "G94 F0.5"] =
    ["G1 X1 F10000", "G95 X2 F0.5", "G94 F1"] := by
  decide +kernel

end

end Rule

end PartProgram

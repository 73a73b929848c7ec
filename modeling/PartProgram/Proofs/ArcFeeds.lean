import PartProgram.Proofs.FirstFeed
import PartProgram.Proofs.Printing
import PartProgram.Rule.Chains

/-!
# PartProgram.Proofs.ArcFeeds

The feeds of a program with arcs in the place of chains. An arc takes the feed word of the first
chord of its chain, and no other part of it is read as one, not even a coordinate that has become
infinite. So every line that comes out says the feed of a line that went in.

* `feedSaid_arcBlock`: the feed of an arc.
* `useArcOptimization_feeds`: the feeds of all lines.
-/

namespace PartProgram

open Text Number

/-! ## Coordinates -/

/-- Only the name of infinity has an `f` in it, and that at its end. -/
theorem coordinate_cases (x : Float) :
    'f' ∉ (coordinate x).toList ∨ ∃ as, (coordinate x).toList = as ++ ['f'] ∧ 'f' ∉ as := by
  rw [coordinate, printed, String.toList_ofList]
  by_cases hfinite : isNaN x = false ∧ isInfinite x = false
  · left
    intro hmem
    have hplaced : 'f' ∈ placed coordinatePlaces (fixed coordinatePlaces x) := by
      rcases mem_printedChars hmem with h | h
      · cases h
      · simp only [fixedText, signed, hfinite.1, hfinite.2, Bool.false_eq_true, if_false,
          String.toList_ofList] at h
        split at h
        · simpa using h
        · exact h
    rcases mem_placed hplaced with h | h <;> exact absurd h (by decide)
  · have hname := printedChars_name coordinatePlaces hfinite
    simp only [floatNames, List.mem_cons, List.not_mem_nil, or_false] at hname
    rcases hname with hname | hname | hname <;> rw [hname]
    · exact .inl (by decide)
    · exact .inr ⟨['i', 'n'], by decide, by decide⟩
    · exact .inr ⟨['-', 'i', 'n'], by decide, by decide⟩

theorem feedLetter_not_mem_upperCase {as : List Char} (h : ∀ c ∈ as, IsPrintChar c)
    (hf : 'f' ∉ as) : 'F' ∉ upperCase as := by
  intro hmem
  obtain ⟨c, hc, hupper⟩ := List.mem_flatMap.1 hmem
  rcases h c hc with hdigit | hmark
  · rw [upperChar_of_isDigit hdigit, List.mem_singleton] at hupper
    rw [← hupper] at hdigit
    exact absurd hdigit (by decide)
  · have hall : ∀ c ∈ ".-+einaf".toList, 'F' ∈ upperChar c → c = 'f' :=
      forall_mem_of_all (by decide)
    rw [hall c hmark hupper] at hc
    exact hf hc

/-- No numeral follows, whether after blanks or at once. -/
def NoNumeral (rest : List Char) : Prop := numeral? (trimLeft rest) = none

/-- A coordinate says no feed. -/
theorem firstFeed_coordinate (x : Float) {rest : List Char} (h : NoNumeral rest) :
    firstFeed (upperCase (coordinate x).toList ++ rest) = firstFeed rest := by
  have hprint : ∀ c ∈ (coordinate x).toList, IsPrintChar c :=
    fun c hc => isPrintChar_of_mem_coordinate hc
  rcases coordinate_cases x with hf | ⟨as, has, hf⟩
  · exact firstFeed_append (feedLetter_not_mem_upperCase hprint hf) rest
  · have hbefore : 'F' ∉ upperCase as := feedLetter_not_mem_upperCase
      (fun c hc => hprint c (by rw [has]; exact List.mem_append_left _ hc)) hf
    have hlast : upperCase ['f'] = ['F'] := by decide
    rw [has, upperCase_append, hlast, List.append_assoc, firstFeed_append hbefore]
    exact firstFeed_letter h

theorem noNumeral_cons {c : Char} (hblank : isBlank c = false) (hsign : isSign c = false)
    (hdigit : isDigit c = false) (hpoint : c ≠ '.') (rest : List Char) :
    NoNumeral (' ' :: c :: rest) := by
  have hspace : isBlank ' ' = true := by decide
  have htrim : trimLeft (' ' :: c :: rest) = c :: rest := by simp [trimLeft, hspace, hblank]
  rw [NoNumeral, htrim, Option.eq_none_iff_forall_ne_some]
  rintro ⟨t, after⟩ hread
  obtain ⟨happend, hnumeral⟩ := numeral?_spec hread
  obtain ⟨d, t, rfl⟩ := List.exists_cons_of_ne_nil hnumeral.ne_nil
  cases happend
  rcases hnumeral.chars c (.head _) with h | h | h
  · rw [hdigit] at h
    cases h
  · exact hpoint h
  · rw [hsign] at h
    cases h

/-! ## Arcs -/

namespace Rule

/-- The marks of comments and corners, and the end of a line. -/
def partingMarks : List Char := ['(', ';', ',', '\n']

theorem partingMarks_spec {d : Char} (h : d ∈ partingMarks) :
    isDigit d = false ∧ isSign d = false ∧ d ≠ '.' ∧ d ≠ 'F' ∧ d ≠ ' ' ∧ ¬ IsPrintChar d := by
  have hall : ∀ d ∈ partingMarks, isDigit d = false ∧ isSign d = false ∧ d ≠ '.' ∧ d ≠ 'F' ∧
      d ≠ ' ' ∧ d ∉ ".-+einaf".toList := forall_mem_of_all (by decide)
  obtain ⟨hdigit, hsign, hpoint, hletter, hspace, hmark⟩ := hall d h
  exact ⟨hdigit, hsign, hpoint, hletter, hspace, not_isPrintChar hdigit hmark⟩

/-- The letters of the coordinates of an arc. -/
def arcLetters : List String := ["X", "Y", "I", "J"]

theorem arcLetters_spec {letter : String} (h : letter ∈ arcLetters) :
    ∃ c, letter.toList = [c] ∧ upperChar c = [c] ∧ isBlank c = false ∧ isSign c = false ∧
      isDigit c = false ∧ c ≠ '.' ∧ c ≠ 'F' ∧ c ∉ partingMarks := by
  simp only [arcLetters, List.mem_cons, List.not_mem_nil, or_false] at h
  rcases h with rfl | rfl | rfl | rfl <;>
    exact ⟨_, rfl, by decide, by decide, by decide, by decide, by decide, by decide, by decide⟩

/-- Coordinates with a blank before each of them. -/
def spacedCoordinates (cs : List (String × Float)) : List Char :=
  spaced (cs.map fun p => p.1 ++ coordinate p.2)

theorem spacedCoordinates_cons (p : String × Float) (cs : List (String × Float)) :
    spacedCoordinates (p :: cs) =
      ' ' :: (p.1.toList ++ (coordinate p.2).toList ++ spacedCoordinates cs) := by
  simp [spacedCoordinates, spaced_cons]

theorem noNumeral_coordinates {cs : List (String × Float)} (h : ∀ p ∈ cs, p.1 ∈ arcLetters)
    {rest : List Char} (hrest : NoNumeral rest) :
    NoNumeral (upperCase (spacedCoordinates cs) ++ rest) := by
  cases cs with
  | nil => exact hrest
  | cons p cs =>
    obtain ⟨c, hletter, hupper, hblank, hsign, hdigit, hpoint, -, -⟩ :=
      arcLetters_spec (h p (.head _))
    have hspace : upperChar ' ' = [' '] := by decide
    have hchars : upperCase (spacedCoordinates (p :: cs)) = ' ' :: c ::
        upperCase ((coordinate p.2).toList ++ spacedCoordinates cs) := by
      simp [spacedCoordinates_cons, upperCase, hletter, hupper, hspace]
    rw [hchars]
    exact noNumeral_cons hblank hsign hdigit hpoint _

theorem firstFeed_coordinates {cs : List (String × Float)} (h : ∀ p ∈ cs, p.1 ∈ arcLetters)
    {rest : List Char} (hrest : NoNumeral rest) :
    firstFeed (upperCase (spacedCoordinates cs) ++ rest) = firstFeed rest := by
  induction cs with
  | nil => rfl
  | cons p cs ih =>
    have hcs := fun q hq => h q (List.mem_cons_of_mem p hq)
    obtain ⟨c, hletter, hupper, -, -, -, -, hc, -⟩ := arcLetters_spec (h p (.head _))
    have hF : 'F' ∉ [' ', c] := by simp [Ne.symm hc]
    have hspace : upperChar ' ' = [' '] := by decide
    have hchars : upperCase (spacedCoordinates (p :: cs)) ++ rest = [' ', c] ++
        (upperCase (coordinate p.2).toList ++ (upperCase (spacedCoordinates cs) ++ rest)) := by
      simp [spacedCoordinates_cons, upperCase, hletter, hupper, hspace]
    rw [hchars, firstFeed_append hF, firstFeed_coordinate _ (noNumeral_coordinates hcs hrest),
      ih hcs]

/-- The code of an arc, by its parts. -/
theorem toList_arcBlock (arc : FittedArc) (start finish : PlanePoint Float) (feed : Option Word) :
    ∃ (code : String) (cs : List (String × Float)), code ∈ ["G2", "G3"] ∧
      (∀ p ∈ cs, p.1 ∈ arcLetters) ∧ (arcBlock arc start finish feed).toList =
        code.toList ++ (spacedCoordinates cs ++ spaced (feed.toList.map Word.render)) := by
  refine ⟨if arc.clockwise then "G2" else "G3",
    [("X", finish.first), ("Y", finish.second), ("I", arc.circle.centre.first - start.first),
      ("J", arc.circle.centre.second - start.second)], ?_, by simp [arcLetters], ?_⟩
  · split <;> decide
  · rw [spacedCoordinates, ← spaced_append, ← joined_cons]
    rfl

/-- The feed word of an arc, if it has one, is one that was read. -/
def IsFeedWord (w : Word) : Prop := w.WellFormed ∧ w.letter = 'F'

theorem isFeedWord_of_read {raw : String} {n : Int} {b : Block}
    (hread : Block.read? raw n = some b) :
    ∀ w, b.words.find? (·.letter == 'F') = some w → IsFeedWord w := fun w hw =>
  ⟨(Block.wellFormed_of_read? hread).words w (List.mem_of_find?_eq_some hw),
    by simpa using List.find?_some hw⟩

section

variable {feed : Option Word} (hfeed : ∀ w, feed = some w → IsFeedWord w)

include hfeed

theorem noNumeral_feed : NoNumeral (upperCase (spaced (feed.toList.map Word.render))) := by
  cases feed with
  | none => rfl
  | some w =>
    have hspace : upperChar ' ' = [' '] := by decide
    have hupper : upperChar 'F' = ['F'] := by decide
    have hchars : upperCase (spaced [w.render]) = ' ' :: 'F' :: upperCase w.text.toList := by
      simp [spaced, upperCase, Word.toList_render, (hfeed w rfl).2, hspace, hupper]
    rw [Option.toList_some, List.map_singleton, hchars]
    exact noNumeral_cons (by decide) (by decide) (by decide) (by decide) _

theorem firstFeed_feed :
    firstFeed (upperCase (spaced (feed.toList.map Word.render))) = feed.map Word.value := by
  cases feed with
  | none => rfl
  | some w =>
    obtain ⟨hwell, hletter⟩ := hfeed w rfl
    have hupper : upperCase (' ' :: w.render.toList) = ' ' :: w.render.toList := by
      refine upperCase_of_codeChars fun c hc => ?_
      rcases List.mem_cons.1 hc with rfl | hc
      · exact .inl rfl
      · exact .inr (hwell.codeChars c hc)
    rw [Option.toList_some, List.map_singleton, spaced_cons]
    simp only [spaced, List.flatMap_nil, List.append_nil, hupper]
    rw [firstFeed_cons (by decide), firstFeed_word hwell hletter]
    rfl

theorem mark_not_mem_arcBlock (arc : FittedArc) (start finish : PlanePoint Float) {d : Char}
    (hd : d ∈ partingMarks) : d ∉ (arcBlock arc start finish feed).toList := by
  obtain ⟨hdigit, hsign, hpoint, hF, hspace, hprint⟩ := partingMarks_spec hd
  obtain ⟨code, cs, hcode, hcs, htext⟩ := toList_arcBlock arc start finish feed
  rw [htext]
  intro hmem
  rcases List.mem_append.1 hmem with h | h
  · simp only [List.mem_cons, List.not_mem_nil, or_false] at hcode
    rcases hcode with rfl | rfl <;> exact forall_mem_of_all (P := (· ∉ _)) (by decide) d hd h
  rcases List.mem_append.1 h with h | h
  · rcases mem_spaced h with rfl | ⟨text, htext, h⟩
    · exact hspace rfl
    · obtain ⟨p, hp, rfl⟩ := List.mem_map.1 htext
      obtain ⟨c, hletter, -, -, -, -, -, -, hc⟩ := arcLetters_spec (hcs p hp)
      rw [String.toList_append, hletter, List.singleton_append, List.mem_cons] at h
      rcases h with rfl | h
      · exact hc hd
      · exact hprint (isPrintChar_of_mem_coordinate h)
  · rcases mem_spaced h with rfl | ⟨text, htext, h⟩
    · exact hspace rfl
    · simp only [List.mem_map, Option.mem_toList] at htext
      obtain ⟨w, hw, rfl⟩ := htext
      obtain ⟨hwell, hletter⟩ := hfeed w hw
      rw [Word.toList_render, hletter, List.mem_cons] at h
      rcases h with rfl | h
      · exact hF rfl
      · rcases hwell.numeral.chars d h with h | h | h
        · rw [hdigit] at h
          cases h
        · exact hpoint h
        · rw [hsign] at h
          cases h

/-- An arc says the feed of its feed word. -/
theorem feedSaid_arcBlock (arc : FittedArc) (start finish : PlanePoint Float) :
    feedSaid (sayings (arcBlock arc start finish feed)) = feed.map Word.value := by
  have hmark := fun d (hd : d ∈ partingMarks) => mark_not_mem_arcBlock hfeed arc start finish hd
  obtain ⟨code, cs, hcode, hcs, htext⟩ := toList_arcBlock arc start finish feed
  have hplain : codeOf (arcBlock arc start finish feed).toList =
      (arcBlock arc start finish feed).toList := by
    have hall : ∀ c ∈ (arcBlock arc start finish feed).toList, c ≠ '(' ∧ c ≠ ';' := by
      intro c hc
      constructor
      · rintro rfl
        exact hmark _ (by decide) hc
      · rintro rfl
        exact hmark _ (by decide) hc
    have := codeOf_append hall []
    rwa [codeOf_nil, List.append_nil] at this
  have hsilent : ∀ code ∈ ["G2", "G3"], 'F' ∉ upperCase code.toList := by decide
  rw [feedSaid_sayings (hmark _ (by decide)), hplain, feedOfCode,
    splitCorner_none (hmark _ (by decide)), htext, upperCase_append,
    firstFeed_append (hsilent code hcode), upperCase_append,
    firstFeed_coordinates hcs (noNumeral_feed hfeed), firstFeed_feed hfeed]

end

/-! ## Chains -/

section

variable {fit : Fit} {stops : List Stop}

/-- A line of a program says what its stop has read. -/
def IsRead (s : Stop) : Prop := '\n' ∉ s.raw.toList ∧ ∃ n, s.block? = Block.read? s.raw n

/-- A line that says the feed of some stop. -/
def SaysFeedOf (stops : List Stop) (l : String) : Prop :=
  '\n' ∉ l.toList ∧ ∃ s ∈ stops, feedSaid (sayings l) = feedSaid (sayings s.raw)

theorem SaysFeedOf.mono {stops' : List Stop} {l : String} (h : SaysFeedOf stops l)
    (hsub : stops ⊆ stops') : SaysFeedOf stops' l := by
  obtain ⟨noFeed, s, hs, hfeed⟩ := h
  exact ⟨noFeed, s, hsub hs, hfeed⟩

theorem chainAt?_feed {s : Stop} {rest : List Stop} {block : String} {more : Nat} (hs : IsRead s)
    (h : chainAt? fit s rest = some (block, more)) : SaysFeedOf [s] block := by
  obtain ⟨-, n, hread⟩ := hs
  simp only [chainAt?] at h
  split at h
  · cases h
  · rename_i b r hfound
    simp only [Stop.block?, hfound, Option.map_some] at hread
    split at h
    · cases h
    split at h
    · cases h
    · simp only [Option.bind_eq_bind, Option.bind_eq_some_iff, Option.pure_def, Option.some.injEq,
        Prod.mk.injEq] at h
      obtain ⟨arc, -, finish, -, rfl, -⟩ := h
      have hfeed := isFeedWord_of_read hread.symm
      refine ⟨mark_not_mem_arcBlock hfeed _ _ _ (by decide), s, List.mem_singleton_self s, ?_⟩
      rw [feedSaid_arcBlock hfeed, Block.sayings_of_read? hread.symm, Block.feedSaid_eq]
      rfl

/-- A block that says the feed mode again. -/
theorem wellFormed_withFeedMode {b : Block} (h : b.WellFormed) :
    (b.withFirst ⟨'G', "1"⟩).WellFormed := by
  have hletter : 'G' ∈ addressLetters := by decide
  have hnumeral : numeral? "1".toList = some ("1".toList, []) := by decide
  have hG : Word.WellFormed ⟨'G', "1"⟩ := ⟨hletter, (numeral?_spec hnumeral).2⟩
  exact ⟨List.forall_mem_cons.2 ⟨hG, h.words⟩, h.corner, h.comment⟩

theorem restoreFeedMode_feed {s : Stop} (lost : Bool) (hs : IsRead s) :
    SaysFeedOf [s] (restoreFeedMode lost s).1 := by
  obtain ⟨noFeed, n, hread⟩ := hs
  have hsame : SaysFeedOf [s] s.raw := ⟨noFeed, s, List.mem_singleton_self s, rfl⟩
  simp only [restoreFeedMode]
  split
  · rename_i b r hfound
    simp only [Stop.block?, hfound, Option.map_some] at hread
    have hwell := Block.wellFormed_of_read? hread.symm
    have hwell' := wellFormed_withFeedMode hwell
    split
    · exact hsame
    · split
      · refine ⟨Block.feed_not_mem_render hwell', s, List.mem_singleton_self s, ?_⟩
        rw [Block.sayings_render hwell', Block.sayings_of_read? hread.symm]
        rfl
      · exact hsame
  · exact hsame

theorem replaceChains_feeds (lost : Bool) (skip : Nat) (h : ∀ s ∈ stops, IsRead s) :
    ∀ l ∈ replaceChains fit lost skip stops, SaysFeedOf stops l := by
  induction stops generalizing lost skip with
  | nil => cases skip <;> simp [replaceChains]
  | cons s rest ih =>
    have hrest := fun lost skip => ih lost skip fun s hs => h s (.tail _ hs)
    have hlater : ∀ {lost skip l}, l ∈ replaceChains fit lost skip rest →
        SaysFeedOf (s :: rest) l := fun hl => (hrest _ _ _ hl).mono (List.subset_cons_self s rest)
    have hfirst : ∀ {l}, SaysFeedOf [s] l → SaysFeedOf (s :: rest) l := fun hl =>
      hl.mono (by simp)
    cases skip with
    | succ skip => exact fun l hl => hlater hl
    | zero =>
      intro l hl
      simp only [replaceChains] at hl
      split at hl
      · rename_i block more hchain
        rcases List.mem_cons.1 hl with rfl | hl
        · exact hfirst (chainAt?_feed (h s (.head _)) hchain)
        · exact hlater hl
      · rcases List.mem_cons.1 hl with rfl | hl
        · exact hfirst (restoreFeedMode_feed lost (h s (.head _)))
        · exact hlater hl

end

theorem isRead_of_walked {t : FeedTrack} {stops : List Stop} (h : Walked t stops)
    (noFeed : ∀ s ∈ stops, '\n' ∉ s.raw.toList) : ∀ s ∈ stops, IsRead s := by
  induction h with
  | nil => simp
  | cons before after block _ ih =>
    intro s hs
    rcases List.mem_cons.1 hs with rfl | hs
    · exact ⟨noFeed _ (.head _), block⟩
    · exact ih (fun s hs => noFeed s (.tail _ hs)) s hs

/-- Every line of a program with arcs says the feed of a line of the program. -/
theorem useArcOptimization_feeds {ls ls' : Lines} (noFeed : ∀ l ∈ ls, '\n' ∉ l.toList)
    (h : (useArcOptimization ls).result = .ok ls') :
    ∀ l' ∈ ls', '\n' ∉ l'.toList ∧ ∃ l ∈ ls, feedSaid (sayings l') = feedSaid (sayings l) := by
  simp only [useArcOptimization, Revised.ofWalk, map_eq_ok] at h
  obtain ⟨stops, hwalk, rfl⟩ := h
  have hraw : ∀ s ∈ stops, s.raw ∈ ls := by
    intro s hs
    rw [← walkFrom_raw hwalk]
    exact List.mem_map_of_mem hs
  have hread := isRead_of_walked (walk_walked hwalk) fun s hs => noFeed s.raw (hraw s hs)
  intro l' hl'
  obtain ⟨hfeed, s, hs, hsame⟩ := replaceChains_feeds false 0 hread l' hl'
  exact ⟨hfeed, s.raw, hraw s hs, hsame⟩

end Rule

end PartProgram

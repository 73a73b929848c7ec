import PartProgram.Proofs.ArcFeeds
import PartProgram.Proofs.ReachedModes
import PartProgram.Proofs.Readback
import PartProgram.Proofs.SameNumbers

/-!
# PartProgram.Proofs.ArcWords

The words of an arc that was written for a chain. A control reads the code, the coordinates that are
finite and the feed word; what is infinite or not a number is written as a name, which it passes
over.

* `wordsOf_coordinate`: a coordinate among other words.
* `Rule.read?_arcBlock`: the block that is read from an arc.
-/

namespace PartProgram

open Text Number

/-! ## Coordinates -/

theorem isNumeral_coordinate {x : Float} (h : IsFinite x) : IsNumeral (coordinate x).toList := by
  obtain ⟨whole, places, hne, hwhole, hplaces, -, -, hprinted⟩ :=
    printedChars_eq h (by decide : 0 < coordinatePlaces)
  have hmagnitude := isMagnitude_decimal hne hwhole hplaces
  rw [coordinate, printed, String.toList_ofList, hprinted]
  dsimp only
  split_ifs
  · exact .plain (.whole (List.cons_ne_nil _ _) (by simp; decide))
  · exact .signed (by decide) hmagnitude
  · exact .plain (.whole (List.cons_ne_nil _ _) (by simp; decide))
  · exact .plain hmagnitude

theorem coordinate_name {x : Float} (h : ¬ IsFinite x) : (coordinate x).toList ∈ floatNames := by
  rw [coordinate, printed, String.toList_ofList]
  exact printedChars_name coordinatePlaces h

/-- The coordinate is read as the number it was printed from. -/
def PrintsExactly (x : Float) : Prop := (numeralValue (coordinate x).toList == x) = true

instance (x : Float) : Decidable (PrintsExactly x) := inferInstanceAs (Decidable (_ = true))

/-- The names of what is not finite are no numbers. -/
theorem PrintsExactly.isFinite {x : Float} (h : PrintsExactly x) : IsFinite x := by
  by_contra hnot
  have hzero : isInfinite (numeralValue (coordinate x).toList) = false ∧
      isNaN (numeralValue (coordinate x).toList) = false := by
    have hnames : ∀ name ∈ floatNames,
        isInfinite (numeralValue name) = false ∧ isNaN (numeralValue name) = false := by
      decide
    exact hnames _ (coordinate_name hnot)
  obtain ⟨hinfinite, hnan, -⟩ := SameNumber.size (.inr h)
  exact hnot ⟨by rw [← hnan, hzero.2], by rw [← hinfinite, hzero.1]⟩

theorem PrintsExactly.same {x : Float} (h : PrintsExactly x) :
    SameNumber x (numeralValue (coordinate x).toList) :=
  SameNumber.symm (.inr h)

/-- The word for a coordinate, if it is read as one. -/
def coordinateWords (letter : Char) (x : Float) : List Word :=
  if isNaN x || isInfinite x then [] else [⟨letter, coordinate x⟩]

theorem coordinateWords_of_isFinite {x : Float} (h : IsFinite x) (letter : Char) :
    coordinateWords letter x = [⟨letter, coordinate x⟩] := by
  simp [coordinateWords, h.1, h.2]

theorem coordinateWords_of_not {x : Float} (h : ¬ IsFinite x) (letter : Char) :
    coordinateWords letter x = [] := by
  have hname : isNaN x = true ∨ isInfinite x = true := by
    by_contra hnone
    simp only [not_or, Bool.not_eq_true] at hnone
    exact h hnone
  simp [coordinateWords, hname]

theorem noNumeral_head {c : Char} (hblank : isBlank c = false) (hsign : isSign c = false)
    (hdigit : isDigit c = false) (hpoint : c ≠ '.') (rest : List Char) : NoNumeral (c :: rest) := by
  have hspace : isBlank ' ' = true := by decide
  have h := noNumeral_cons hblank hsign hdigit hpoint rest
  simpa [NoNumeral, trimLeft, hspace] using h

/-- No word begins where no numeral follows. -/
theorem wordsOf_cons_of_noNumeral {rest : List Char} (h : NoNumeral rest) (c : Char) :
    wordsOf (c :: rest) = wordsOf rest := by
  rw [NoNumeral] at h
  exact wordsOf_cons_of_none (by simp [Block.recogniseWord, h])

/-- A coordinate among other words. -/
theorem wordsOf_coordinate {letter : Char} (hletter : letter ∈ addressLetters) (x : Float)
    {rest : List Char} (hends : EndsNumeral rest) (hrest : NoNumeral rest) :
    wordsOf (letter :: (upperCase (coordinate x).toList ++ rest)) =
      coordinateWords letter x ++ wordsOf rest := by
  by_cases hfinite : IsFinite x
  · have hnumeral := isNumeral_coordinate hfinite
    have hwell : Word.WellFormed ⟨letter, coordinate x⟩ := ⟨hletter, hnumeral⟩
    have hupper := upperCase_of_codeChars fun c hc => .inr (hnumeral.codeChars c hc)
    have hwords := wordsOf_render hwell hends
    rw [Word.toList_render] at hwords
    rw [coordinateWords_of_isFinite hfinite, hupper]
    exact hwords
  · rw [coordinateWords_of_not hfinite, List.nil_append]
    have hN : ∀ cs, NoNumeral ('N' :: cs) :=
      noNumeral_head (by decide) (by decide) (by decide) (by decide)
    have hA : ∀ cs, NoNumeral ('A' :: cs) :=
      noNumeral_head (by decide) (by decide) (by decide) (by decide)
    have hI : ∀ cs, NoNumeral ('I' :: cs) :=
      noNumeral_head (by decide) (by decide) (by decide) (by decide)
    have hF : ∀ cs, NoNumeral ('F' :: cs) :=
      noNumeral_head (by decide) (by decide) (by decide) (by decide)
    have hname := coordinate_name hfinite
    simp only [floatNames, List.mem_cons, List.not_mem_nil, or_false] at hname
    rcases hname with hname | hname | hname <;> rw [hname]
    · have hupper : upperCase ['n', 'a', 'n'] = ['N', 'A', 'N'] := by decide
      rw [hupper, List.cons_append, List.cons_append, List.cons_append, List.nil_append,
        wordsOf_cons_of_noNumeral (hN _), wordsOf_cons_of_noNumeral (hA _),
        wordsOf_cons_of_noNumeral (hN _), wordsOf_cons_of_noNumeral hrest]
    · have hupper : upperCase ['i', 'n', 'f'] = ['I', 'N', 'F'] := by decide
      rw [hupper, List.cons_append, List.cons_append, List.cons_append, List.nil_append,
        wordsOf_cons_of_noNumeral (hI _), wordsOf_cons_of_noNumeral (hN _),
        wordsOf_cons_of_noNumeral (hF _), wordsOf_cons_of_noNumeral hrest]
    · have hupper : upperCase ['-', 'i', 'n', 'f'] = ['-', 'I', 'N', 'F'] := by decide
      have hminus : ∀ cs, NoNumeral ('-' :: 'I' :: cs) := by
        intro cs
        have hblank : isBlank '-' = false := by decide
        have hsign : isSign '-' = true := by decide
        have hdigit : isDigit 'I' = false := by decide
        simp [NoNumeral, trimLeft, hblank, numeral?, hsign, magnitude?, spanDigits, hdigit]
      rw [hupper, List.cons_append, List.cons_append, List.cons_append, List.cons_append,
        List.nil_append, wordsOf_cons_of_noNumeral (hminus _), wordsOf_cons_of_noNumeral (hI _),
        wordsOf_cons_of_noNumeral (hN _), wordsOf_cons_of_noNumeral (hF _),
        wordsOf_cons_of_noNumeral hrest]

/-! ## Arcs -/

namespace Rule

theorem endsNumeral_coordinates (cs : List (String × Float)) {rest : List Char}
    (hrest : EndsNumeral rest) : EndsNumeral (upperCase (spacedCoordinates cs) ++ rest) := by
  cases cs with
  | nil => exact hrest
  | cons p cs =>
    have hspace : upperChar ' ' = [' '] := by decide
    have hchars : upperCase (spacedCoordinates (p :: cs)) ++ rest =
        ' ' :: (upperCase (p.1.toList ++ (coordinate p.2).toList ++ spacedCoordinates cs) ++
          rest) := by
      simp [spacedCoordinates_cons, upperCase, hspace]
    rw [hchars]
    exact endsNumeral_cons (by decide) (by decide)

theorem wordsOf_coordinates_cons {letter : String} {c : Char} (hc : letter.toList = [c])
    (hletter : letter ∈ arcLetters) (x : Float) {cs : List (String × Float)}
    (hcs : ∀ p ∈ cs, p.1 ∈ arcLetters) {rest : List Char} (hends : EndsNumeral rest)
    (hrest : NoNumeral rest) :
    wordsOf (upperCase (spacedCoordinates ((letter, x) :: cs)) ++ rest) =
      coordinateWords c x ++ wordsOf (upperCase (spacedCoordinates cs) ++ rest) := by
  obtain ⟨d, hd, hupper, -⟩ := arcLetters_spec hletter
  obtain rfl : c = d := by
    rw [hc] at hd
    exact (List.cons.inj hd).1
  have haddress : c ∈ addressLetters := by
    simp only [arcLetters, List.mem_cons, List.not_mem_nil, or_false] at hletter
    rcases hletter with rfl | rfl | rfl | rfl <;> cases hc <;> decide
  have hspace : upperChar ' ' = [' '] := by decide
  have hchars : upperCase (spacedCoordinates ((letter, x) :: cs)) ++ rest = ' ' :: c ::
      (upperCase (coordinate x).toList ++ (upperCase (spacedCoordinates cs) ++ rest)) := by
    simp [spacedCoordinates_cons, upperCase, hc, hupper, hspace]
  rw [hchars, wordsOf_cons_of_not_letter (by decide),
    wordsOf_coordinate haddress x (endsNumeral_coordinates cs hends)
      (noNumeral_coordinates hcs hrest)]

/-- The code of an arc. -/
def arcCode (arc : FittedArc) : Code := if arc.clockwise then "G2" else "G3"

theorem arcCode_mem (arc : FittedArc) : arcCode arc ∈ Code.motionModes := by
  rw [arcCode]
  split <;> decide

/-- The words that are read from an arc. -/
def arcWords (arc : FittedArc) (start finish : PlanePoint Float) (feed : Option Word) : List Word :=
  ⟨'G', if arc.clockwise then "2" else "3"⟩ ::
    (coordinateWords 'X' finish.first ++ (coordinateWords 'Y' finish.second ++
      (coordinateWords 'I' (arc.circle.centre.first - start.first) ++
        (coordinateWords 'J' (arc.circle.centre.second - start.second) ++ feed.toList))))

theorem wordsOf_feed {feed : Option Word} (hfeed : ∀ w, feed = some w → IsFeedWord w) :
    wordsOf (upperCase (spaced (feed.toList.map Word.render))) = feed.toList := by
  cases feed with
  | none => rfl
  | some w =>
    obtain ⟨hwell, -⟩ := hfeed w rfl
    have hupper : upperCase (' ' :: w.render.toList) = ' ' :: w.render.toList := by
      refine upperCase_of_codeChars fun c hc => ?_
      rcases List.mem_cons.1 hc with rfl | hc
      · exact .inl rfl
      · exact .inr (hwell.codeChars c hc)
    have hwords := wordsOf_render hwell endsNumeral_nil
    rw [List.append_nil, wordsOf_nil] at hwords
    have hchars : spaced (Option.toList (some w) |>.map Word.render) = ' ' :: w.render.toList := by
      simp [spaced]
    rw [hchars, hupper, wordsOf_cons_of_not_letter (by decide), hwords]
    rfl

variable {arc : FittedArc} {start finish : PlanePoint Float} {feed : Option Word}

theorem toList_arcBlock_eq : (arcBlock arc start finish feed).toList = (arcCode arc).toList ++
    (spacedCoordinates [("X", finish.first), ("Y", finish.second),
        ("I", arc.circle.centre.first - start.first),
        ("J", arc.circle.centre.second - start.second)] ++
      spaced (feed.toList.map Word.render)) := by
  rw [spacedCoordinates, ← spaced_append, ← joined_cons]
  rfl

/-- What is found in an arc. -/
theorem wordsOf_arcBlock (hfeed : ∀ w, feed = some w → IsFeedWord w) :
    wordsOf (upperCase (arcBlock arc start finish feed).toList) =
      arcWords arc start finish feed := by
  have hends : EndsNumeral (upperCase (spaced (feed.toList.map Word.render))) := by
    cases feed with
    | none => exact endsNumeral_nil
    | some w => exact endsNumeral_cons (by decide) (by decide)
  have hno := noNumeral_feed hfeed
  have hletters : ∀ p ∈ [("X", finish.first), ("Y", finish.second),
      ("I", arc.circle.centre.first - start.first),
      ("J", arc.circle.centre.second - start.second)], p.1 ∈ arcLetters := by simp [arcLetters]
  have hcode : ∀ rest, EndsNumeral rest → wordsOf (upperCase (arcCode arc).toList ++ rest) =
      ⟨'G', if arc.clockwise then "2" else "3"⟩ :: wordsOf rest := by
    intro rest hrest
    have hG : 'G' ∈ addressLetters := by decide
    have hnumeral : ∀ t ∈ ["2", "3"], numeral? t.toList = some (t.toList, []) := by decide
    cases hclockwise : arc.clockwise with
    | true =>
      have hupper : upperCase (arcCode arc).toList = (⟨'G', "2"⟩ : Word).render.toList := by
        rw [arcCode, hclockwise]
        decide
      rw [hupper]
      exact wordsOf_render ⟨hG, (numeral?_spec (hnumeral "2" (by simp))).2⟩ hrest
    | false =>
      have hupper : upperCase (arcCode arc).toList = (⟨'G', "3"⟩ : Word).render.toList := by
        rw [arcCode, hclockwise]
        decide
      rw [hupper]
      exact wordsOf_render ⟨hG, (numeral?_spec (hnumeral "3" (by simp))).2⟩ hrest
  rw [toList_arcBlock_eq, upperCase_append, upperCase_append,
    hcode _ (endsNumeral_coordinates _ hends),
    wordsOf_coordinates_cons (c := 'X') rfl (by simp [arcLetters]) _ (by simp [arcLetters]) hends
      hno,
    wordsOf_coordinates_cons (c := 'Y') rfl (by simp [arcLetters]) _ (by simp [arcLetters]) hends
      hno,
    wordsOf_coordinates_cons (c := 'I') rfl (by simp [arcLetters]) _ (by simp [arcLetters]) hends
      hno,
    wordsOf_coordinates_cons (c := 'J') rfl (by simp [arcLetters]) _ (by simp) hends hno]
  have hnil : upperCase (spacedCoordinates []) = [] := rfl
  rw [hnil, List.nil_append, wordsOf_feed hfeed, arcWords]

theorem letter_of_mem_coordinateWords {letter : Char} {x : Float} {w : Word}
    (h : w ∈ coordinateWords letter x) : w.letter = letter := by
  rw [coordinateWords] at h
  split at h
  · cases h
  · rw [List.mem_singleton.1 h]

theorem letter_of_mem_arcWords (hfeed : ∀ w, feed = some w → IsFeedWord w) {w : Word}
    (h : w ∈ arcWords arc start finish feed) : w.letter ∈ ['G', 'X', 'Y', 'I', 'J', 'F'] := by
  simp only [arcWords, List.mem_cons, List.mem_append, Option.mem_toList] at h
  rcases h with rfl | h | h | h | h | h
  · simp
  · simp [letter_of_mem_coordinateWords h]
  · simp [letter_of_mem_coordinateWords h]
  · simp [letter_of_mem_coordinateWords h]
  · simp [letter_of_mem_coordinateWords h]
  · simp [(hfeed w h).2]

/-- Every part of an arc is written without blanks. -/
theorem snug_arcBlock (hfeed : ∀ w, feed = some w → IsFeedWord w) :
    Snug (arcBlock arc start finish feed).toList := by
  refine snug_joined (List.append_ne_nil_of_left_ne_nil (List.cons_ne_nil _ _) _) fun p hp => ?_
  have hcoordinate : ∀ (letter : String) (x : Float), letter ∈ arcLetters →
      Snug (letter ++ coordinate x).toList := by
    intro letter x hletter
    obtain ⟨c, hc, -, hblank, -⟩ := arcLetters_spec hletter
    rw [String.toList_append, hc, List.singleton_append]
    refine snug_of_forall (List.cons_ne_nil _ _) fun d hd => ?_
    rcases List.mem_cons.1 hd with rfl | hd
    · exact hblank
    · rcases isPrintChar_of_mem_coordinate hd with hdigit | hmark
      · exact isBlank_of_isDigit hdigit
      · exact forall_mem_of_all (P := (isBlank · = false)) (by decide) d hmark
  simp only [List.mem_append, List.mem_cons, List.not_mem_nil, or_false, List.mem_map,
    Option.mem_toList] at hp
  rcases hp with (rfl | rfl | rfl | rfl | rfl) | ⟨w, hw, rfl⟩
  · split <;> exact snug_of_forall (by simp) (by simp; decide)
  · exact hcoordinate _ _ (by simp [arcLetters])
  · exact hcoordinate _ _ (by simp [arcLetters])
  · exact hcoordinate _ _ (by simp [arcLetters])
  · exact hcoordinate _ _ (by simp [arcLetters])
  · obtain ⟨hwell, -⟩ := hfeed w hw
    exact snug_of_forall (by simp [Word.render]) fun c hc => (hwell.codeChars c hc).not_blank

/-- The block that is read from an arc. -/
theorem read?_arcBlock (hfeed : ∀ w, feed = some w → IsFeedWord w) (n : Int) :
    Block.read? (arcBlock arc start finish feed) n =
      some ⟨arcBlock arc start finish feed, n, arcWords arc start finish feed, none, none,
        none⟩ := by
  have hmark := fun d (hd : d ∈ partingMarks) =>
    mark_not_mem_arcBlock hfeed arc start finish hd
  have hsnug : Snug (arcBlock arc start finish feed).toList := snug_arcBlock hfeed
  have hplain : ∀ c ∈ (arcBlock arc start finish feed).toList, c ≠ '(' ∧ c ≠ ';' := by
    intro c hc
    constructor
    · rintro rfl
      exact hmark _ (by decide) hc
    · rintro rfl
      exact hmark _ (by decide) hc
  obtain ⟨c, rest, hhead, hc⟩ : ∃ c rest, (arcBlock arc start finish feed).toList = c :: rest ∧
      c = 'G' := by
    rw [toList_arcBlock_eq, arcCode]
    split <;> exact ⟨'G', _, rfl, rfl⟩
  have hpercent : (arcBlock arc start finish feed).toList ≠ ['%'] := by
    rw [hhead, hc]
    simp
  have hsplit : Block.splitNumber (arcBlock arc start finish feed).toList =
      (none, (arcBlock arc start finish feed).toList) := by
    rw [hhead]
    exact splitNumber_none (by rw [hc]; decide) (by rw [hc]; decide)
  have htrim : trim (arcBlock arc start finish feed).toList =
      (arcBlock arc start finish feed).toList := by
    have hnil : ∀ c ∈ ([] : List Char), isBlank c = true := by simp
    simpa using hsnug.trim hnil hnil
  have hcode : Block.code? ⟨(arcBlock arc start finish feed).toList, []⟩ =
      some (arcBlock arc start finish feed).toList := by
    simp [Block.code?, CommentedLine.codeWith, htrim, hsnug.ne_nil, hpercent]
  have hfilter : ((arcWords arc start finish feed).filter fun w =>
      addressLetters.contains w.letter) = arcWords arc start finish feed := by
    refine List.filter_eq_self.2 fun w hw => ?_
    rw [List.contains_iff_mem]
    exact forall_mem_of_all (P := (· ∈ addressLetters)) (by decide) _
      (letter_of_mem_arcWords hfeed hw)
  rw [Block.read?, dropLineEnd_of_snug hsnug, CommentedLine.ofChars_of_no_mark hplain, hcode,
    Option.map_some]
  simp only [hsplit, splitCorner_none (hmark _ (by decide)), Block.addressWords]
  rw [← wordsOf, wordsOf_arcBlock hfeed, hfilter, String.ofList_toList]
  rfl

theorem exists_read?_arcBlock (arc : FittedArc) (start finish : PlanePoint Float)
    (hfeed : ∀ w, feed = some w → IsFeedWord w) (n : Int) :
    ∃ b, Block.read? (arcBlock arc start finish feed) n = some b ∧
      b.words = arcWords arc start finish feed :=
  ⟨_, read?_arcBlock hfeed n, rfl⟩

/-! ## What an arc says -/

theorem find?_coordinateWords {letter letter' : Char} (hne : letter ≠ letter') (x : Float) :
    (coordinateWords letter x).find? (·.letter == letter') = none := by
  rw [List.find?_eq_none]
  intro w hw
  simpa [letter_of_mem_coordinateWords hw] using hne

section

variable (hfeed : ∀ w, feed = some w → IsFeedWord w) {b : Block}
  (hwords : b.words = arcWords arc start finish feed)

include hfeed hwords

theorem codes_arc : b.codes 'G' = [arcCode arc] := by
  have hfilter : ∀ {letter x}, letter ≠ 'G' →
      (coordinateWords letter x).filter (·.letter == 'G') = [] := by
    intro letter x hne
    rw [List.filter_eq_nil_iff]
    intro w hw
    simpa [letter_of_mem_coordinateWords hw] using hne
  have hlast : feed.toList.filter (·.letter == 'G') = [] := by
    cases feed with
    | none => rfl
    | some w => simp [(hfeed w rfl).2]
  rw [Block.codes, hwords, arcWords, List.filter_cons_of_pos (by rfl), List.filter_append,
    List.filter_append, List.filter_append, List.filter_append, hfilter (by decide),
    hfilter (by decide), hfilter (by decide), hfilter (by decide), hlast, arcCode]
  split <;> decide

theorem dominant?_arc : b.dominant? = some (arcCode arc) := by
  rw [Block.dominant?, codes_arc hfeed hwords, arcCode]
  split <;> rfl

theorem value_arc_feed : b.value 'F' = feed.map Word.value := by
  have hfind : feed.toList.find? (·.letter == 'F') = feed := by
    cases feed with
    | none => rfl
    | some w => simp [(hfeed w rfl).2]
  rw [Block.value, hwords, arcWords, List.find?_cons_of_neg (by simp), List.find?_append,
    List.find?_append, List.find?_append, List.find?_append, find?_coordinateWords (by decide),
    find?_coordinateWords (by decide), find?_coordinateWords (by decide),
    find?_coordinateWords (by decide), hfind]
  rfl

/-- No axis is named but those of the coordinates. -/
theorem value_arc_other {letter : Char} (h : letter ∉ ['G', 'X', 'Y', 'I', 'J', 'F']) :
    b.value letter = none := by
  rw [Block.value_eq_none_iff, Block.has, hwords, List.any_eq_false]
  intro w hw hmem
  have hletter := letter_of_mem_arcWords hfeed hw
  simp only [List.contains_iff_mem, List.mem_singleton] at hmem
  rw [hmem] at hletter
  exact h hletter

omit hfeed in
theorem value_arc_first (h : IsFinite finish.first) :
    b.value 'X' = some (numeralValue (coordinate finish.first).toList) := by
  rw [Block.value, hwords, arcWords, coordinateWords_of_isFinite h,
    List.find?_cons_of_neg (by simp)]
  rfl

omit hfeed in
theorem value_arc_second (h : IsFinite finish.second) :
    b.value 'Y' = some (numeralValue (coordinate finish.second).toList) := by
  rw [Block.value, hwords, arcWords, coordinateWords_of_isFinite h,
    List.find?_cons_of_neg (by simp), List.find?_append, find?_coordinateWords (by decide)]
  rfl

/-- An arc says its code and its feed. -/
theorem apply_arc (m : Modal) : m.apply b =
    { m with
      motion := some (arcCode arc), cycle := none, feed := feed.map Word.value <|> m.feed } := by
  have hcodes := codes_arc hfeed hwords
  obtain ⟨-, happly⟩ := apply_of_one_code (arcCode_mem arc) (by rw [hcodes]; simp)
    (by rw [hcodes]; simp) m
  rw [happly, value_arc_feed hfeed hwords]

/-- Where coordinates are absolute, an arc is aimed at its end as it is written. -/
theorem target_arc {m : Modal} (habsolute : m.positioning = .absolute)
    (hfirst : IsFinite finish.first) (hsecond : IsFinite finish.second) :
    (m.apply b).target b = ⟨numeralValue (coordinate finish.first).toList,
      numeralValue (coordinate finish.second).toList, m.position.z⟩ := by
  have hpositioning : (m.apply b).positioning = .absolute := by
    rw [apply_arc hfeed hwords m, ← habsolute]
  have hx : (m.apply b).targetOn b .x = numeralValue (coordinate finish.first).toList := by
    rw [Modal.targetOn, show Axis.x.letter = 'X' from rfl, value_arc_first hwords hfirst,
      hpositioning]
  have hy : (m.apply b).targetOn b .y = numeralValue (coordinate finish.second).toList := by
    rw [Modal.targetOn, show Axis.y.letter = 'Y' from rfl, value_arc_second hwords hsecond,
      hpositioning]
  have hz : (m.apply b).targetOn b .z = m.position.z := by
    rw [Modal.targetOn, show Axis.z.letter = 'Z' from rfl,
      value_arc_other hfeed hwords (by decide), Modal.apply_position]
    rfl
  rw [Modal.target, Point.tabulate, hx, hy, hz]

/-- With no radius there is nothing to fail: an arc without offsets is a straight move. -/
theorem exists_resolve_of_no_radius (start target : Position) (plane : Plane)
    (direction : Direction) (settings : Settings) :
    ∃ found, Arc.resolve start target b plane direction settings.fullCircleTolerance
      settings.radiusEpsilon = .ok found := by
  have hradius : b.value 'R' = none := value_arc_other hfeed hwords (by decide)
  simp only [Arc.resolve, hradius]
  by_cases hoffsets : b.has [plane.first.offsetLetter, plane.second.offsetLetter] = true
  · rw [if_pos hoffsets]
    split <;> exact ⟨_, rfl⟩
  · rw [if_neg hoffsets]
    exact ⟨_, rfl⟩

/-- Where coordinates are absolute, an arc leads to its end, whatever its centre. -/
theorem resolve_arc {m : Modal} (settings : Settings) (habsolute : m.positioning = .absolute)
    (hfirst : IsFinite finish.first) (hsecond : IsFinite finish.second) :
    ∃ r mo, m.resolve settings b = .ok r ∧ r.effect = .motion mo ∧ mo.start = m.position ∧
      mo.finish = ⟨numeralValue (coordinate finish.first).toList,
        numeralValue (coordinate finish.second).toList, m.position.z⟩ ∧
      mo.feed = (feed.map Word.value <|> m.feed) ∧
      r.state = { m with
        position := mo.finish, motion := some (arcCode arc), cycle := none, feed := mo.feed } := by
  have happly := apply_arc hfeed hwords m
  have htarget := target_arc hfeed hwords habsolute hfirst hsecond
  obtain ⟨found, hfound⟩ := exists_resolve_of_no_radius hfeed hwords m.position
    ((m.apply b).target b) (m.apply b).plane
    (if arc.clockwise then .clockwise else .counterclockwise) settings
  have hresolve : m.resolve settings b = .ok (Modal.resolveStraight m (m.apply b) b
      ((found.1.map .arc).getD .linear) (m.apply b).feed found.2) := by
    have hdirection : Direction.ofCode? (arcCode arc) =
        some (if arc.clockwise then .clockwise else .counterclockwise) := by
      rw [arcCode]
      split <;> decide
    have hcode : arcCode arc ∉ Code.cycles ∧ arcCode arc ≠ "G0" ∧ arcCode arc ≠ "G1" := by
      rw [arcCode]
      split <;> decide
    simp only [Modal.resolve, dominant?_arc hfeed hwords, Modal.resolveCode, if_neg hcode.1,
      if_neg hcode.2.1, if_neg hcode.2.2, hdirection, Modal.resolveArc, hfound]
    rfl
  refine ⟨_, _, hresolve, rfl, rfl, htarget, by rw [happly], ?_⟩
  rw [Modal.resolveStraight, Modal.movedTo, happly]

end

end Rule

end PartProgram

import PartProgram.Proofs.Feeds
import PartProgram.Proofs.Numbering

/-!
# PartProgram.Proofs.FirstFeed

The first feed word of a line, read off the text. No text in front of a line changes it as long as
that text holds no `F`, no corner and no comment, so a block number that is put in front of a line
or taken away leaves the feed of the line alone.

* `firstFeed_append`: a text without the letter of a feed says none.
* `feedSaid_sayings`: the feed of a line is that of its code.
* `feedSaid_ignoresNumber`: the feed of a line is that of the line with any number in front.
-/

namespace PartProgram

open Text Number Conversational

/-! ## Texts -/

/-- The number of the first feed word of a text in upper case. -/
def firstFeed (cs : List Char) : Option Float :=
  ((wordsOf cs).find? (·.letter == 'F')).map Word.value

theorem isWordLetter_of_isDigit {c : Char} (h : isDigit c = true) : Block.isWordLetter c = false :=
  forall_digit (P := fun c => Block.isWordLetter c = false) (by decide +kernel)
    (by decide +kernel) h

theorem IsNumeral.not_letter {t : List Char} (h : IsNumeral t) {c : Char} (hc : c ∈ t) :
    Block.isWordLetter c = false := by
  rcases h.chars c hc with hdigit | rfl | hsign
  · exact isWordLetter_of_isDigit hdigit
  · decide
  · simp only [isSign, Bool.or_eq_true, decide_eq_true_eq] at hsign
    rcases hsign with rfl | rfl <;> decide

/-- No feed is found at a character that is not its letter: if a word is found there, it ends before
the next letter. -/
theorem firstFeed_cons {c : Char} (hc : c ≠ 'F') (rest : List Char) :
    firstFeed (c :: rest) = firstFeed rest := by
  cases hletter : Block.isWordLetter c with
  | false => rw [firstFeed, wordsOf_cons_of_not_letter hletter, firstFeed]
  | true =>
    cases hread : numeral? (trimLeft rest) with
    | none =>
      have hnone : Block.recogniseWord none (c :: rest) = none := by
        simp [Block.recogniseWord, hread]
      rw [firstFeed, wordsOf_cons_of_none hnone, firstFeed]
    | some found =>
      obtain ⟨t, after⟩ := found
      obtain ⟨happend, hnumeral⟩ := numeral?_spec hread
      have hsilent : ∀ d ∈ rest.takeWhile isBlank ++ t, Block.isWordLetter d = false := by
        intro d hd
        rcases List.mem_append.1 hd with hd | hd
        · exact isWordLetter_of_isBlank (List.all_eq_true.1 List.all_takeWhile d hd)
        · exact hnumeral.not_letter hd
      have hrest : rest = (rest.takeWhile isBlank ++ t) ++ after := by
        rw [List.append_assoc, ← happend, trimLeft, List.takeWhile_append_dropWhile]
      have hsame : wordsOf rest = wordsOf after := by
        conv => lhs; rw [hrest]
        exact wordsOf_append hsilent after
      rw [firstFeed, wordsOf_cons_of_some hletter hread, firstFeed, hsame,
        List.find?_cons_of_neg (by simpa using hc)]

theorem firstFeed_append {as : List Char} (h : 'F' ∉ as) (cs : List Char) :
    firstFeed (as ++ cs) = firstFeed cs := by
  induction as with
  | nil => rfl
  | cons a as ih =>
    simp only [List.mem_cons, not_or] at h
    rw [List.cons_append, firstFeed_cons (Ne.symm h.1), ih h.2]

/-- The letter of a feed without a number after it. -/
theorem firstFeed_letter {rest : List Char} (h : numeral? (trimLeft rest) = none) :
    firstFeed ('F' :: rest) = firstFeed rest := by
  have hnone : Block.recogniseWord none ('F' :: rest) = none := by simp [Block.recogniseWord, h]
  rw [firstFeed, wordsOf_cons_of_none hnone, firstFeed]

theorem firstFeed_word {w : Word} (hw : w.WellFormed) (hletter : w.letter = 'F') :
    firstFeed w.render.toList = some w.value := by
  have hwords := wordsOf_render hw endsNumeral_nil
  rw [List.append_nil, wordsOf_nil] at hwords
  simp [firstFeed, hwords, hletter]

/-! ## Codes -/

/-- The number of the first feed word of a code, whose corner is no feed. -/
def feedOfCode (code : List Char) : Option Float :=
  firstFeed (upperCase (Block.splitCorner code).2)

/-- A text in front of a code that has no part in its feed. -/
structure IsMargin (as : List Char) : Prop where
  noCorner : ',' ∉ as
  noFeed : 'F' ∉ upperCase as

theorem IsMargin.feedOfCode {as : List Char} (h : IsMargin as) (cs : List Char) :
    feedOfCode (as ++ cs) = feedOfCode cs := by
  rw [PartProgram.feedOfCode, splitCorner_append h.noCorner, upperCase_append,
    firstFeed_append h.noFeed, PartProgram.feedOfCode]

theorem upperCase_numbering {as : List Char} (h : IsNumbering as) : upperCase as = as := by
  have hchar : ∀ c ∈ as, upperChar c = [c] := by
    intro c hc
    rcases h c hc with hblank | hdigit
    · exact upperChar_of_isBlank hblank
    · exact upperChar_of_isDigit hdigit
  rw [Text.upperCase, List.flatMap_congr hchar, List.flatMap_singleton']

theorem isMargin_of_isNumbering {as : List Char} (h : IsNumbering as) : IsMargin as where
  noCorner := h.not_mem (by decide) (by decide)
  noFeed := by
    rw [upperCase_numbering h]
    exact h.not_mem (by decide) (by decide)

theorem IsMargin.append {as bs : List Char} (ha : IsMargin as) (hb : IsMargin bs) :
    IsMargin (as ++ bs) where
  noCorner := by simp [ha.noCorner, hb.noCorner]
  noFeed := by simp [upperCase_append, ha.noFeed, hb.noFeed]

theorem eq_of_toUpper {c : Char} (h : c.toUpper = 'N') : c = 'N' ∨ c = 'n' := by
  by_cases hlower : 'a'.val ≤ c.val ∧ c.val ≤ 'z'.val
  · right
    have hletters : ∀ i < 26, (Char.ofNat (97 + i)).toUpper = 'N' → Char.ofNat (97 + i) = 'n' := by
      decide
    simp only [UInt32.le_iff_toNat_le] at hlower
    have hlow : 97 ≤ c.toNat := hlower.1
    have hhigh : c.toNat ≤ 122 := hlower.2
    have hletter := hletters (c.toNat - 97) (by omega)
    rw [Nat.add_sub_cancel' hlow, Char.ofNat_toNat] at hletter
    exact hletter h
  · have hsame : c.toUpper = c := dif_neg hlower
    exact .inl (hsame.symm.trans h)

/-- A block number has no part in the feed of its code, whether it is read as one or as a word. -/
theorem feedOfCode_splitNumber (code : List Char) :
    feedOfCode (Block.splitNumber code).2 = feedOfCode code := by
  cases htrim : trimLeft code with
  | nil => simp [Block.splitNumber, htrim]
  | cons c rest =>
    simp only [Block.splitNumber, htrim]
    split
    · rename_i hnumber
      simp only [Bool.and_eq_true, decide_eq_true_eq] at hnumber
      obtain ⟨happend, hdigits, -⟩ := spanDigits_spec rest
      have hblanks : IsMargin (code.takeWhile isBlank) :=
        isMargin_of_isNumbering (isNumbering_takeWhile code)
      have hletter : IsMargin [c] := by
        rcases eq_of_toUpper hnumber.1 with rfl | rfl <;> exact ⟨by decide, by decide⟩
      have hnumbers : IsMargin (spanDigits rest).1 :=
        isMargin_of_isNumbering fun d hd => .inr (hdigits d hd)
      have hcode : code = (code.takeWhile isBlank ++ [c] ++ (spanDigits rest).1) ++
          (spanDigits rest).2 := by
        rw [List.append_assoc, ← happend, List.append_assoc, List.singleton_append, ← htrim,
          trimLeft, List.takeWhile_append_dropWhile]
      conv => rhs; rw [hcode]
      exact (((hblanks.append hletter).append hnumbers).feedOfCode _).symm
    · rfl

/-- The first feed word among all address words is the one that a control knows. -/
theorem feedSaid_addressWords (code : List Char) :
    feedSaid (((Block.addressWords code).filter fun w =>
      addressLetters.contains w.letter).map Word.said) = firstFeed (upperCase code) := by
  have hF : addressLetters.contains 'F' = true := by decide
  have hknown : ∀ w : Word, decide (addressLetters.contains w.letter = true ∧
      ((fun s : Saying => s.1 == 'F') ∘ Word.said) w = true) = (w.letter == 'F') := by
    intro w
    by_cases hw : w.letter = 'F'
    · simp only [Function.comp_apply, Word.said, hw, hF, beq_self_eq_true, and_self, decide_true]
    · simp [Word.said, hw]
  rw [feedSaid, List.find?_map, List.find?_filter, Option.map_map, funext hknown]
  rfl

theorem feedSaid_saidOfCode (code : List Char) :
    feedSaid (saidOfCode code).2.2 = feedOfCode code := by
  rw [← feedOfCode_splitNumber]
  exact feedSaid_addressWords _

theorem feedOfCode_trim {cs : List Char} (noFeed : '\n' ∉ cs) :
    feedOfCode (trim cs) = feedOfCode cs := by
  have hleft : '\n' ∉ trimLeft cs := fun hmem => noFeed (List.dropWhile_subset _ hmem)
  have hblanks : IsMargin (cs.takeWhile isBlank) :=
    isMargin_of_isNumbering (isNumbering_takeWhile cs)
  have hsplit : cs.takeWhile isBlank ++ trimLeft cs = cs := List.takeWhile_append_dropWhile
  rw [trim, ← feedSaid_saidOfCode, (respelled_trimRight hleft).saidOfCode, feedSaid_saidOfCode,
    ← hblanks.feedOfCode, hsplit]

/-! ## Lines -/

/-- The feed of a line is that of its code. -/
theorem feedSaid_sayings {l : String} (noFeed : '\n' ∉ l.toList) :
    feedSaid (sayings l) = feedOfCode (codeOf l.toList) := by
  have hcode := feed_not_mem_codeOf noFeed
  obtain ⟨hnone, hsome⟩ := Block.said_read? noFeed 1
  by_cases hnothing : SaysNothing (codeOf l.toList)
  · rw [Block.sayings_of_read?_none (hnone hnothing), ← feedOfCode_trim hcode]
    rcases hnothing with h | h
    · rw [h]
      rfl
    · rw [h]
      decide
  · obtain ⟨b, hread, hsaid⟩ := Option.map_eq_some_iff.1 (hsome hnothing)
    have hwords := congrArg (fun s => s.2.2) hsaid
    rw [Block.sayings_of_read? hread, ← feedOfCode_trim hcode, ← feedSaid_saidOfCode, ← hwords]
    rfl

/-- Digits and blanks in front of a line have no part in its feed. -/
theorem feedSaid_numbering {as cs : List Char} (has : IsNumbering as) (noFeed : '\n' ∉ as ++ cs) :
    feedSaid (sayings (.ofList (as ++ cs))) = feedSaid (sayings (.ofList cs)) := by
  have hcs : '\n' ∉ cs := fun hmem => noFeed (List.mem_append_right _ hmem)
  have hmarks : ∀ c ∈ as, c ≠ '(' ∧ c ≠ ';' := by
    intro c hc
    constructor
    · rintro rfl
      exact has.not_mem (by decide) (by decide) hc
    · rintro rfl
      exact has.not_mem (by decide) (by decide) hc
  rw [feedSaid_sayings (by rwa [String.toList_ofList]),
    feedSaid_sayings (by rwa [String.toList_ofList]), String.toList_ofList, String.toList_ofList,
    codeOf_append hmarks, (isMargin_of_isNumbering has).feedOfCode]

/-- What holds of the feed of a line holds whatever number stands in front of the line. -/
theorem feedSaid_ignoresNumber (P : Option Float → Prop) :
    IgnoresNumber fun l => '\n' ∉ l.toList ∧ P (feedSaid (sayings l)) where
  drop l h := by
    obtain ⟨as, has, hl⟩ := unnumbered_spec l
    obtain ⟨noFeed, hP⟩ := h
    rw [hl, String.toList_ofList] at noFeed
    refine ⟨fun hmem => noFeed (List.mem_append_right _ hmem), ?_⟩
    rwa [hl, feedSaid_numbering has noFeed, String.ofList_toList] at hP
  number n l h := by
    have has := isNumbering_number n
    have noFeed : '\n' ∉ ((toString n).toList ++ [' ']) ++ l.toList := by
      intro hmem
      rcases List.mem_append.1 hmem with hc | hc
      · rcases List.mem_append.1 hc with hc | hc
        · exact absurd (isDigit_of_mem_toString hc) (by decide)
        · exact absurd hc (by decide)
      · exact h.1 hc
    rw [number_append, String.toList_ofList, feedSaid_numbering has noFeed, String.ofList_toList]
    exact ⟨noFeed, h.2⟩

end PartProgram

import PartProgram.Proofs.Respelling

/-!
# PartProgram.Proofs.Rereading

What a control reads from a line that is spelled in another way. It goes through the line in steps:
comments, block number, corner and words; each step finds the same in both texts, and leaves texts
that are respellings of each other again.

* `Respelled.wordsOf`: the words of a respelled text.
* `Respelled.read?`: the block of a respelled line.
-/

namespace PartProgram

open Text Number

/-! ## Upper case -/

theorem toNat_ofNat_cases (n : Nat) : (Char.ofNat n).toNat = n ∨ (Char.ofNat n).toNat = 0 := by
  by_cases h : n.isValidChar
  · left
    exact congrArg Char.toNat (dif_pos h)
  · right
    exact congrArg Char.toNat (dif_neg h)

/-- A character apart from the ranges of all digits is no digit. -/
theorem isDigit_eq_false {d : Char} (hascii : ¬ (48 ≤ d.toNat ∧ d.toNat ≤ 57))
    (hother : ∀ first ∈ zeroDigits, ¬ (first ≤ d.toNat ∧ d.toNat < first + 10)) :
    isDigit d = false := by
  cases hd : isDigit d with
  | false => rfl
  | true =>
    rcases isDigit_cases hd with h | ⟨-, first, hfirst, h⟩
    · exact absurd h hascii
    · exact absurd h (hother first hfirst)

/-- A run of characters with an upper case of their own comes out behind the ASCII digits, and not
among the digits of any script. -/
theorem caseRun_moved {r : CaseRun} (hr : r ∈ caseRuns) {n : Nat} (hcovers : r.covers n = true) :
    isNumberChar (Char.ofNat ((n : Int) + r.distance).toNat) = false := by
  have hruns : caseRuns.all (fun r => decide (57 < (r.first : Int) + r.distance) &&
      zeroDigits.all fun first => decide (0 < first) &&
        (decide ((r.last : Int) + r.distance < first) ||
          decide ((first : Int) + 10 ≤ r.first + r.distance))) = true := by decide +kernel
  simp only [List.all_eq_true, Bool.or_eq_true, Bool.and_eq_true, decide_eq_true_eq] at hruns
  obtain ⟨hlow, hranges⟩ := hruns r hr
  simp only [CaseRun.covers, Bool.and_eq_true, decide_eq_true_eq] at hcovers
  have hmoved := toNat_ofNat_cases ((n : Int) + r.distance).toNat
  have hne : ∀ d : Char, 0 < d.toNat → d.toNat ≤ 57 →
      Char.ofNat ((n : Int) + r.distance).toNat ≠ d := by
    rintro d hpos hd rfl
    omega
  rw [isNumberChar_eq_false]
  refine ⟨isDigit_eq_false (by omega) fun first hfirst => ?_, hne '.' (by decide) (by decide), ?_⟩
  · have := hranges first hfirst
    omega
  · simp [isSign, hne '+' (by decide) (by decide), hne '-' (by decide) (by decide)]

/-- A character with another upper case has nothing of a number there. -/
theorem upperChar_cases (c : Char) :
    upperChar c = [c] ∨ upperChar c ≠ [] ∧ ∀ d ∈ upperChar c, isNumberChar d = false := by
  have hascii : (List.range 128).all (fun n => decide ((Char.ofNat n).toUpper = Char.ofNat n) ||
      !isNumberChar (Char.ofNat n).toUpper) = true := by decide +kernel
  have hexpansions : expansions.all (fun e => !e.2.toList.isEmpty &&
      e.2.toList.all fun d => !isNumberChar d) = true := by decide +kernel
  simp only [List.all_eq_true, List.mem_range, Bool.or_eq_true, Bool.and_eq_true,
    Bool.not_eq_true', decide_eq_true_eq] at hascii hexpansions
  simp only [upperChar]
  by_cases hsmall : c.toNat < 128
  · rw [if_pos hsmall]
    have hc := hascii c.toNat hsmall
    rw [Char.ofNat_toNat] at hc
    rcases hc with hc | hc
    · exact .inl (by rw [hc])
    · exact .inr ⟨by simp, by simpa using hc⟩
  · rw [if_neg hsmall]
    cases hlookup : expansions.lookup c.toNat with
    | some s =>
      obtain ⟨before, after, hlist, -⟩ := List.lookup_eq_some_iff.1 hlookup
      obtain ⟨hne, hs⟩ := hexpansions (c.toNat, s) (by rw [hlist]; simp)
      exact .inr ⟨by simpa using hne, hs⟩
    | none =>
      cases hfind : caseRuns.find? (·.covers c.toNat) with
      | none => exact .inl rfl
      | some r =>
        have hcovers := List.find?_some hfind
        refine .inr ⟨by simp, fun d hd => ?_⟩
        rw [List.mem_singleton.1 hd]
        exact caseRun_moved (List.mem_of_find?_eq_some hfind) hcovers

theorem endsNumeral_upperCase {cs : List Char} (h : EndsNumeral cs) :
    EndsNumeral (upperCase cs) := by
  cases cs with
  | nil => exact h
  | cons c cs =>
    rw [upperCase, List.flatMap_cons]
    rcases upperChar_cases c with hupper | ⟨hne, hupper⟩
    · rw [hupper]
      exact endsNumeral_cons (h.1 c rfl) (by simpa using h.2)
    · obtain ⟨d, ds, hcons⟩ := List.exists_cons_of_ne_nil hne
      obtain ⟨hdigit, hpoint, -⟩ := isNumberChar_eq_false.1 (hupper d (by rw [hcons]; exact .head _))
      rw [hcons]
      exact endsNumeral_cons hdigit hpoint

/-- Blanks have no other case. -/
theorem upperChar_of_isBlank {c : Char} (h : isBlank c = true) : upperChar c = [c] := by
  have hascii : (List.range 128).all (fun n => !isBlank (.ofNat n) ||
      decide (upperChar (.ofNat n) = [.ofNat n])) = true := by decide +kernel
  have hother : blankRanges.all (fun r => decide (r.2 < 128) ||
      (expansions.all (fun e => decide (e.1 < r.1) || decide (r.2 < e.1)) &&
        caseRuns.all fun run => decide (run.last < r.1) || decide (r.2 < run.first))) = true := by
    decide +kernel
  simp only [List.all_eq_true, List.mem_range, Bool.or_eq_true, Bool.and_eq_true,
    Bool.not_eq_true', decide_eq_true_eq] at hascii hother
  by_cases hsmall : c.toNat < 128
  · have hc := hascii c.toNat hsmall
    rw [Char.ofNat_toNat, h] at hc
    simpa using hc
  · obtain ⟨r, hr, hin⟩ := List.any_eq_true.1 h
    simp only [Bool.and_eq_true, decide_eq_true_eq] at hin
    obtain hlarge | ⟨hexpansions, hruns⟩ := hother r hr
    · omega
    · have hlookup : expansions.lookup c.toNat = none := by
        rw [List.lookup_eq_none_iff]
        intro e he
        have := hexpansions e he
        simp only [bne_iff_ne, ne_eq]
        omega
      have hfind : caseRuns.find? (·.covers c.toNat) = none := by
        rw [List.find?_eq_none]
        intro run hrun
        have := hruns run hrun
        simp only [CaseRun.covers, Bool.and_eq_true, decide_eq_true_eq, not_and]
        omega
      simp only [upperChar, hlookup, hfind, if_neg hsmall]

theorem upperCase_append (cs ds : List Char) :
    upperCase (cs ++ ds) = upperCase cs ++ upperCase ds := List.flatMap_append

theorem Respelled.upperCase {cs ds : List Char} (h : Respelled cs ds) :
    Respelled (upperCase cs) (upperCase ds) := by
  have hblanks : ∀ {as : List Char}, Blanks as → Text.upperCase as = as := by
    intro as ha
    induction as with
    | nil => rfl
    | cons a as ih =>
      have ih := ih fun c hc => ha c (.tail _ hc)
      rw [Text.upperCase] at ih ⊢
      rw [List.flatMap_cons, ih, upperChar_of_isBlank (ha a (.head _)).1]
      rfl
  have hnumeral : ∀ {u : List Char}, IsNumeral u → Text.upperCase u = u :=
    fun hu => upperCase_of_codeChars fun c hc => .inr (hu.codeChars c hc)
  induction h with
  | ends ha hb =>
    rw [hblanks ha, hblanks hb]
    exact .ends ha hb
  | char c _ ih => exact append_left (upperChar c) ih
  | gap hane hbne ha hb _ ih =>
    rw [upperCase_append, upperCase_append, hblanks ha, hblanks hb]
    exact .gap hane hbne ha hb ih
  | @number c u v cs ds hc hu hv hvalue hcs hds _ ih =>
    have hword : ∀ {u : List Char}, IsNumeral u → ∀ cs,
        Text.upperCase (c :: (u ++ cs)) = c :: (u ++ Text.upperCase cs) := by
      intro u hu cs
      have hrest := upperCase_append u cs
      rw [hnumeral hu] at hrest
      rw [← hrest, Text.upperCase, List.flatMap_cons, (respelledLetter_spec hc).2.2.2.1]
      rfl
    rw [hword hu, hword hv]
    exact .number hc hu hv hvalue (endsNumeral_upperCase hcs) (endsNumeral_upperCase hds) ih

/-! ## Words -/

/-- What a word says, however its number is written. -/
def Word.said (w : Word) : Char × Float := (w.letter, w.value)

theorem wordsOf_append {as : List Char} (h : ∀ c ∈ as, Block.isWordLetter c = false)
    (cs : List Char) : wordsOf (as ++ cs) = wordsOf cs := by
  induction as with
  | nil => rfl
  | cons a as ih =>
    rw [List.cons_append, wordsOf_cons_of_not_letter (h a (.head _)),
      ih fun c hc => h c (.tail _ hc)]

theorem isWordLetter_of_isBlank {c : Char} (h : isBlank c = true) :
    Block.isWordLetter c = false := by
  cases hc : Block.isWordLetter c with
  | false => rfl
  | true =>
    simp only [Block.isWordLetter, Bool.or_eq_true, Bool.and_eq_true, decide_eq_true_eq,
      Char.le_def, UInt32.le_iff_toNat_le] at hc
    obtain ⟨r, hr, hin⟩ := List.any_eq_true.1 h
    simp only [Bool.and_eq_true, decide_eq_true_eq] at hin
    have hranges : ∀ r ∈ blankRanges, r.2 < 65 ∨ 90 < r.1 := by decide
    have hrange := hranges r hr
    rcases hc with (⟨hlow, hhigh⟩ | rfl) | rfl
    · have hlow : 65 ≤ c.toNat := hlow
      have hhigh : c.toNat ≤ 90 := hhigh
      omega
    · exact absurd h (by decide)
    · exact absurd h (by decide)

namespace Respelled

variable {cs ds : List Char}

/-- Respelled texts hold words of the same letters and values. -/
theorem wordsOf (h : Respelled cs ds) :
    (wordsOf cs).map Word.said = (wordsOf ds).map Word.said := by
  have hblanks : ∀ {as : List Char}, Blanks as → ∀ xs,
      PartProgram.wordsOf (as ++ xs) = PartProgram.wordsOf xs :=
    fun ha => wordsOf_append fun c hc => isWordLetter_of_isBlank (ha c hc).1
  induction hn : cs.length using Nat.strongRecOn generalizing cs ds with
  | ind n ih =>
    subst hn
    cases h with
    | ends ha hb =>
      have hnil : ∀ {as : List Char}, Blanks as → PartProgram.wordsOf as = [] := by
        intro as ha
        have := hblanks ha []
        rwa [List.append_nil] at this
      rw [hnil ha, hnil hb]
    | @char c cs ds htail =>
      have hrest := ih cs.length (by simp) htail rfl
      cases hc : Block.isWordLetter c with
      | false => rwa [wordsOf_cons_of_not_letter hc, wordsOf_cons_of_not_letter hc]
      | true =>
        cases hread : Number.numeral? (Text.trimLeft cs) with
        | none =>
          have hread' := htail.trimLeft.numeral?_none hread
          rwa [wordsOf_cons_of_none (by simp [Block.recogniseWord, hread]),
            wordsOf_cons_of_none (by simp [Block.recogniseWord, hread'])]
        | some found =>
          obtain ⟨t, xs⟩ := found
          obtain ⟨ys, hread', hxy⟩ := htail.trimLeft.numeral? hread
          have hlength : xs.length ≤ cs.length := by
            have hspec := congrArg List.length (numeral?_spec hread).1
            have hdrop := (List.dropWhile_sublist isBlank (l := cs)).length_le
            rw [List.length_append, Text.trimLeft] at hspec
            omega
          rw [wordsOf_cons_of_some hc hread, wordsOf_cons_of_some hc hread', List.map_cons,
            List.map_cons, ih xs.length (by rw [List.length_cons]; omega) hxy rfl]
    | @gap as bs cs ds hane hbne ha hb htail =>
      have hpos := List.length_pos_iff.2 hane
      rw [hblanks ha, hblanks hb]
      exact ih cs.length (by rw [List.length_append]; omega) htail rfl
    | @number c u v cs ds hc hu hv hvalue hcs hds htail =>
      have hletter := (respelledLetter_spec hc).2.2.1
      have hlt : cs.length < (c :: (u ++ cs)).length := by
        simp only [List.length_cons, List.length_append]
        omega
      have hread : ∀ {u : List Char}, IsNumeral u → ∀ {xs}, EndsNumeral xs →
          Number.numeral? (Text.trimLeft (u ++ xs)) = some (u, xs) := by
        intro u hu xs hxs
        rw [trimLeft_append hu, hu.read hxs]
      rw [wordsOf_cons_of_some hletter (hread hu hcs), wordsOf_cons_of_some hletter (hread hv hds),
        List.map_cons, List.map_cons, ih cs.length hlt htail rfl]
      simp only [Word.said, Word.value, String.toList_ofList, hvalue]

end Respelled

/-! ## Block number and corner -/

theorem toUpper_of_isBlank {c : Char} (h : isBlank c = true) : c.toUpper = c := by
  obtain ⟨r, hr, hin⟩ := List.any_eq_true.1 h
  simp only [Bool.and_eq_true, decide_eq_true_eq] at hin
  have hranges : ∀ r ∈ blankRanges, r.2 < 97 ∨ 122 < r.1 := by decide
  have hrange := hranges r hr
  refine dif_neg fun hlower => ?_
  simp only [UInt32.le_iff_toNat_le] at hlower
  have hlow : 97 ≤ c.toNat := hlower.1
  have hhigh : c.toNat ≤ 122 := hlower.2
  omega

theorem not_isBlank_of_toUpper {c d : Char} (h : c.toUpper = d) (hd : isBlank d = false) :
    isBlank c = false := by
  cases hc : isBlank c with
  | false => rfl
  | true =>
    rw [toUpper_of_isBlank hc] at h
    rw [h, hd] at hc
    cases hc

/-- The letter of a block number is the first character of the text that is not blank. -/
def StartsNumber (cs : List Char) : Prop := ∃ c rest, trimLeft cs = c :: rest ∧ c.toUpper = 'N'

theorem splitNumber_of_not {cs : List Char} (h : ¬ StartsNumber cs) :
    Block.splitNumber cs = (none, cs) := by
  cases htrim : trimLeft cs with
  | nil => simp [Block.splitNumber, htrim]
  | cons c rest =>
    have hc : c.toUpper ≠ 'N' := fun hc => h ⟨c, rest, htrim, hc⟩
    simp [Block.splitNumber, htrim, hc]

namespace Respelled

variable {cs ds : List Char}

theorem startsNumber (h : Respelled cs ds) {c : Char} {rest : List Char}
    (htrim : Text.trimLeft cs = c :: rest) (hc : c.toUpper = 'N') :
    ∃ rest', Text.trimLeft ds = c :: rest' ∧ Respelled rest rest' := by
  have hletter : c ∉ respelledLetters := by
    intro hmem
    have hall : respelledLetters.all (fun c => c.toUpper != 'N') = true := by decide
    simpa [hc] using List.all_eq_true.1 hall c hmem
  have hsame := h.trimLeft
  rw [htrim] at hsame
  exact hsame.tail (not_isBlank_of_toUpper hc (by decide)) hletter

/-- Respelled texts begin with one block number, and go on as respellings. -/
theorem splitNumber (h : Respelled cs ds) :
    (Block.splitNumber cs).1 = (Block.splitNumber ds).1 ∧
      Respelled (Block.splitNumber cs).2 (Block.splitNumber ds).2 := by
  by_cases hstart : StartsNumber cs
  · obtain ⟨c, rest, htrim, hc⟩ := hstart
    obtain ⟨rest', htrim', htail⟩ := h.startsNumber htrim hc
    obtain ⟨hdigits, hafter⟩ := htail.spanDigits
    simp only [Block.splitNumber, htrim, htrim', hdigits]
    split
    · exact ⟨rfl, hafter⟩
    · exact ⟨rfl, h⟩
  · have hstart' : ¬ StartsNumber ds := by
      rintro ⟨c, rest, htrim, hc⟩
      obtain ⟨rest', htrim', -⟩ := h.symm.startsNumber htrim hc
      exact hstart ⟨c, rest', htrim', hc⟩
    rw [splitNumber_of_not hstart, splitNumber_of_not hstart']
    exact ⟨rfl, h⟩

end Respelled

/-- What a corner says, however its number is written. -/
def Corner.said (c : Corner) : Char × Float := (c.letter, numeralValue c.text.toList)

theorem drop_taken {cs rest : List Char} (h : rest <:+ cs) : cs.drop (taken cs rest) = rest := by
  obtain ⟨before, rfl⟩ := h
  simp [taken]

theorem numeral?_suffix {cs t rest : List Char} (h : numeral? cs = some (t, rest)) : rest <:+ cs :=
  ⟨t, (numeral?_spec h).1.symm⟩

theorem trimLeft_suffix (cs : List Char) : trimLeft cs <:+ cs := List.dropWhile_suffix isBlank

theorem suffix_of_corner {cs rest t after : List Char} {c : Char} (htrim : trimLeft cs = c :: rest)
    (hread : numeral? (trimLeft rest) = some (t, after)) : after <:+ ',' :: cs := by
  have hrest : rest <:+ trimLeft cs := ⟨[c], by rw [htrim]; rfl⟩
  exact (numeral?_suffix hread).trans ((trimLeft_suffix rest).trans
    (hrest.trans ((trimLeft_suffix cs).trans (List.suffix_cons _ _))))

/-- A corner word, by its parts. -/
theorem recogniseCorner_eq_some {cs : List Char} {k : Corner} {n : Nat}
    (h : Block.recogniseCorner (',' :: cs) = some (k, n)) :
    ∃ c rest t after, trimLeft cs = c :: rest ∧ (c.toUpper = 'R' ∨ c.toUpper = 'C') ∧
      numeral? (trimLeft rest) = some (t, after) ∧ k = ⟨c.toUpper, .ofList t⟩ ∧
        (',' :: cs).drop n = after := by
  simp only [Block.recogniseCorner, if_true] at h
  cases htrim : trimLeft cs with
  | nil => simp [htrim] at h
  | cons c rest =>
    simp only [htrim] at h
    split at h
    · rename_i hletter
      simp only [Option.map_eq_some_iff, Prod.exists, Prod.mk.injEq] at h
      obtain ⟨t, after, hread, rfl, rfl⟩ := h
      exact ⟨c, rest, t, after, rfl, by simpa using hletter, hread, rfl,
        drop_taken (suffix_of_corner htrim hread)⟩
    · cases h

/-- Where the parts of a corner word are, the corner word is found and no more is taken. -/
theorem exists_recogniseCorner {cs : List Char} {c : Char} {rest t after : List Char}
    (htrim : trimLeft cs = c :: rest) (hletter : c.toUpper = 'R' ∨ c.toUpper = 'C')
    (hread : numeral? (trimLeft rest) = some (t, after)) :
    ∃ n, Block.recogniseCorner (',' :: cs) = some (⟨c.toUpper, .ofList t⟩, n) ∧
      (',' :: cs).drop n = after := by
  refine ⟨taken (',' :: cs) after, ?_, drop_taken (suffix_of_corner htrim hread)⟩
  simp only [Block.recogniseCorner, if_true, htrim, hread]
  simp only [Bool.or_eq_true, decide_eq_true_eq, hletter, if_true, Option.map_some]

namespace Respelled

variable {cs ds : List Char}

/-- A corner at one place of a text is at the same place of a respelling. -/
theorem recogniseCorner (h : Respelled cs ds) {k : Corner} {n : Nat}
    (hk : Block.recogniseCorner (',' :: cs) = some (k, n)) :
    ∃ k' n', Block.recogniseCorner (',' :: ds) = some (k', n') ∧ k.said = k'.said ∧
      Respelled ((',' :: cs).drop n) ((',' :: ds).drop n') := by
  obtain ⟨c, rest, t, after, htrim, hletter, hread, rfl, hdrop⟩ := recogniseCorner_eq_some hk
  rw [hdrop]
  have hsame := h.trimLeft
  rw [htrim] at hsame
  have hblank : isBlank c = false := by
    rcases hletter with hc | hc <;> exact not_isBlank_of_toUpper hc (by decide)
  rcases hsame.head_cases hblank with ⟨rest', htrim', htail⟩ |
    ⟨u, v, xs, ys, rfl, htrim', -, hu, hv, hvalue, hxs, hys, htail⟩
  · obtain ⟨after', hread', hafter⟩ := htail.trimLeft.numeral? hread
    obtain ⟨n', hn', hdrop'⟩ := exists_recogniseCorner htrim' hletter hread'
    exact ⟨_, n', hn', rfl, by rwa [hdrop']⟩
  · rw [trimLeft_append hu, hu.read hxs] at hread
    cases hread
    have hread' : Number.numeral? (Text.trimLeft (v ++ ys)) = some (v, ys) := by
      rw [trimLeft_append hv, hv.read hys]
    obtain ⟨n', hn', hdrop'⟩ := exists_recogniseCorner htrim' hletter hread'
    exact ⟨_, n', hn', by simp [Corner.said, hvalue], by rwa [hdrop']⟩

theorem recogniseCorner_none (h : Respelled cs ds)
    (hnone : Block.recogniseCorner (',' :: cs) = none) :
    Block.recogniseCorner (',' :: ds) = none := by
  rw [Option.eq_none_iff_forall_ne_some]
  rintro ⟨k', n'⟩ hk'
  obtain ⟨k, n, hk, -⟩ := h.symm.recogniseCorner hk'
  rw [hnone] at hk
  cases hk

end Respelled

theorem recogniseCorner_of_ne {c : Char} (h : c ≠ ',') (cs : List Char) :
    Block.recogniseCorner (c :: cs) = none := by simp [Block.recogniseCorner, h]

theorem splitCorner_nil : Block.splitCorner [] = (none, []) := rfl

theorem splitCorner_cons_of_some {cs : List Char} {k : Corner} {n : Nat}
    (h : Block.recogniseCorner (',' :: cs) = some (k, n)) :
    Block.splitCorner (',' :: cs) = (some k, ' ' :: (',' :: cs).drop n) := by
  simp [Block.splitCorner, firstMatch, h]

theorem splitCorner_cons_of_none {c : Char} {cs : List Char}
    (h : Block.recogniseCorner (c :: cs) = none) :
    Block.splitCorner (c :: cs) = ((Block.splitCorner cs).1, c :: (Block.splitCorner cs).2) := by
  simp only [Block.splitCorner, firstMatch, h]
  cases firstMatch Block.recogniseCorner cs <;> rfl

theorem splitCorner_append {as : List Char} (h : ',' ∉ as) (cs : List Char) :
    Block.splitCorner (as ++ cs) = ((Block.splitCorner cs).1, as ++ (Block.splitCorner cs).2) := by
  induction as with
  | nil => rfl
  | cons a as ih =>
    simp only [List.mem_cons, not_or] at h
    rw [List.cons_append, splitCorner_cons_of_none (recogniseCorner_of_ne (Ne.symm h.1) _), ih h.2]
    rfl

theorem endsNumeral_splitCorner {cs : List Char} (h : EndsNumeral cs) :
    EndsNumeral (Block.splitCorner cs).2 := by
  cases cs with
  | nil => exact endsNumeral_nil
  | cons c cs =>
    cases hfound : Block.recogniseCorner (c :: cs) with
    | none =>
      rw [splitCorner_cons_of_none hfound]
      exact h
    | some found =>
      by_cases hc : c = ','
      · subst hc
        rw [splitCorner_cons_of_some hfound]
        exact endsNumeral_cons (by decide) (by decide)
      · rw [recogniseCorner_of_ne hc] at hfound
        cases hfound

/-- Respelled texts hold the same corner, and say the same around it. -/
theorem Respelled.splitCorner {cs ds : List Char} (h : Respelled cs ds) :
    (Block.splitCorner cs).1.map Corner.said = (Block.splitCorner ds).1.map Corner.said ∧
      Respelled (Block.splitCorner cs).2 (Block.splitCorner ds).2 := by
  have hblanks : ∀ {as : List Char}, Blanks as → ',' ∉ as :=
    fun ha hmem => absurd (ha _ hmem).1 (by decide)
  have hnumeral : ∀ {u : List Char}, IsNumeral u → ',' ∉ u := by
    intro u hu hmem
    rcases hu.chars _ hmem with h | h | h <;> exact absurd h (by decide)
  induction h with
  | ends ha hb =>
    have hsplit : ∀ {as : List Char}, Blanks as → Block.splitCorner as = (none, as) := by
      intro as ha
      have := splitCorner_append (hblanks ha) []
      simpa [splitCorner_nil] using this
    rw [hsplit ha, hsplit hb]
    exact ⟨rfl, .ends ha hb⟩
  | @char c cs ds htail ih =>
    by_cases hc : c = ','
    · subst hc
      cases hfound : Block.recogniseCorner (',' :: cs) with
      | some found =>
        obtain ⟨k', n', hfound', hsaid, hrest⟩ := htail.recogniseCorner hfound
        rw [splitCorner_cons_of_some hfound, splitCorner_cons_of_some hfound']
        exact ⟨congrArg some hsaid, .char ' ' hrest⟩
      | none =>
        rw [splitCorner_cons_of_none hfound,
          splitCorner_cons_of_none (htail.recogniseCorner_none hfound)]
        exact ⟨ih.1, .char ',' ih.2⟩
    · rw [splitCorner_cons_of_none (recogniseCorner_of_ne hc _),
        splitCorner_cons_of_none (recogniseCorner_of_ne hc _)]
      exact ⟨ih.1, .char c ih.2⟩
  | gap hane hbne ha hb _ ih =>
    rw [splitCorner_append (hblanks ha), splitCorner_append (hblanks hb)]
    exact ⟨ih.1, .gap hane hbne ha hb ih.2⟩
  | @number c u v cs ds hc hu hv hvalue hcs hds _ ih =>
    have hword : ∀ {u : List Char}, IsNumeral u → ∀ xs, Block.splitCorner (c :: (u ++ xs)) =
        ((Block.splitCorner xs).1, c :: (u ++ (Block.splitCorner xs).2)) := by
      intro u hu xs
      have hcomma : ',' ∉ c :: u := by
        simp only [List.mem_cons, not_or]
        refine ⟨?_, hnumeral hu⟩
        rintro rfl
        exact absurd hc (by decide)
      exact splitCorner_append hcomma xs
    rw [hword hu, hword hv]
    exact ⟨ih.1, .number hc hu hv hvalue (endsNumeral_splitCorner hcs)
      (endsNumeral_splitCorner hds) ih.2⟩

/-! ## Lines -/

/-- The block number, the corner and the words of a code text. -/
def saidOfCode (code : List Char) : Option Nat × Option (Char × Float) × List (Char × Float) :=
  let (number, code) := Block.splitNumber code
  let (corner, code) := Block.splitCorner code
  (number, corner.map Corner.said, ((Block.addressWords code).filter fun w =>
    addressLetters.contains w.letter).map Word.said)

theorem Respelled.saidOfCode {cs ds : List Char} (h : Respelled cs ds) :
    saidOfCode cs = saidOfCode ds := by
  obtain ⟨hnumber, hafter⟩ := h.splitNumber
  obtain ⟨hcorner, hcode⟩ := hafter.splitCorner
  have hwords := hcode.upperCase.wordsOf
  have hfilter : ∀ ws : List Word, (ws.filter fun w => addressLetters.contains w.letter).map
      Word.said = (ws.map Word.said).filter fun s => addressLetters.contains s.1 := by
    intro ws
    rw [List.filter_map]
    rfl
  simp only [PartProgram.saidOfCode, hnumber, hcorner, hfilter, Block.addressWords]
  rw [← PartProgram.wordsOf, ← PartProgram.wordsOf, hwords]

theorem eq_trimRight_append (cs : List Char) :
    ∃ as, (∀ c ∈ as, isBlank c = true) ∧ cs = trimRight cs ++ as := by
  refine ⟨(cs.reverse.takeWhile isBlank).reverse, fun c hc => ?_, ?_⟩
  · have hall := List.all_takeWhile (l := cs.reverse) (p := isBlank)
    exact List.all_eq_true.1 hall c (List.mem_reverse.1 hc)
  · rw [trimRight, ← List.reverse_append, List.takeWhile_append_dropWhile, List.reverse_reverse]

theorem respelled_trimRight {cs : List Char} (hfeed : '\n' ∉ cs) : Respelled (trimRight cs) cs := by
  obtain ⟨as, has, hcs⟩ := eq_trimRight_append cs
  have hblanks : Blanks as := by
    refine fun c hc => ⟨has c hc, ?_⟩
    rintro rfl
    exact hfeed (by rw [hcs]; exact List.mem_append_right _ hc)
  have := Respelled.append_blanks (trimRight cs) hblanks
  rwa [← hcs] at this

theorem feed_not_mem_trim {cs : List Char} (h : '\n' ∉ cs) : '\n' ∉ trim cs := by
  intro hmem
  have hleft : '\n' ∈ trimLeft cs := (trimRight_isPrefix (trimLeft cs)).subset hmem
  exact h (List.dropWhile_subset isBlank hleft)

theorem trim_eq_nil_iff {cs : List Char} : trim cs = [] ↔ allBlank cs = true := by
  constructor
  · intro h
    obtain ⟨as, has, hcs⟩ := eq_trimRight_append (trimLeft cs)
    have hleft : trimLeft cs = as := by
      rw [trim] at h
      rw [hcs, h]
      rfl
    cases hcut : trimLeft cs with
    | nil => exact List.all_eq_true.2 (List.dropWhile_eq_nil_iff.1 hcut)
    | cons c rest =>
      have hhead : isBlank c = false := head_dropWhile_isBlank cs (by rw [← trimLeft, hcut]; rfl)
      rw [has c (by rw [← hleft, hcut]; exact .head _)] at hhead
      cases hhead
  · exact trim_of_allBlank

/-- Only one character stands on a line. -/
theorem trim_eq_singleton_iff {cs : List Char} {c : Char} (hc : isBlank c = false) :
    trim cs = [c] ↔ ∃ as, trimLeft cs = c :: as ∧ allBlank as = true := by
  constructor
  · intro h
    obtain ⟨as, has, hcs⟩ := eq_trimRight_append (trimLeft cs)
    rw [trim] at h
    rw [h] at hcs
    exact ⟨as, hcs, List.all_eq_true.2 has⟩
  · rintro ⟨as, hcs, has⟩
    have hdrop : as.reverse.dropWhile isBlank = [] :=
      List.dropWhile_eq_nil_iff.2 fun a ha => List.all_eq_true.1 has a (List.mem_reverse.1 ha)
    simp [trim, hcs, trimRight, List.dropWhile_append, hdrop, hc]

/-- The code of a line says nothing: it is blank, or a tape marker. -/
def SaysNothing (code : List Char) : Prop := trim code = [] ∨ trim code = ['%']

theorem Respelled.saysNothing {cs ds : List Char} (h : Respelled cs ds) (hcs : SaysNothing cs) :
    SaysNothing ds := by
  rcases hcs with hcs | hcs
  · rw [trim_eq_nil_iff, h.allBlank] at hcs
    exact .inl (trim_eq_nil_iff.2 hcs)
  · obtain ⟨as, hleft, has⟩ := (trim_eq_singleton_iff (by decide)).1 hcs
    have hsame := h.trimLeft
    rw [hleft] at hsame
    obtain ⟨bs, hright, htail⟩ := hsame.tail (by decide) (by decide)
    rw [htail.allBlank] at has
    exact .inr ((trim_eq_singleton_iff (by decide)).2 ⟨bs, hright, has⟩)

theorem saidOfCode_trim {cs ds : List Char} (h : Respelled cs ds) (hcs : '\n' ∉ cs)
    (hds : '\n' ∉ ds) : saidOfCode (trim cs) = saidOfCode (trim ds) := by
  have hleft : ∀ {xs : List Char}, '\n' ∉ xs → '\n' ∉ trimLeft xs :=
    fun hxs hmem => hxs (List.dropWhile_subset _ hmem)
  have hcut := (respelled_trimRight (hleft hcs)).saidOfCode
  have hcut' := (respelled_trimRight (hleft hds)).saidOfCode
  rw [trim, trim, hcut, hcut', h.trimLeft.saidOfCode]

theorem CommentedLine.mem_codeWith {l : CommentedLine} {gap : List Char} {c : Char}
    (h : c ∈ l.codeWith gap) : c ∈ gap ∨ c ∈ l.mapCode id := by
  simp only [codeWith, mapCode, List.mem_append, List.mem_flatMap, Prod.exists, id] at h ⊢
  rcases h with h | ⟨comment, code, hmem, h⟩
  · exact .inr (.inl h)
  · rcases h with h | h
    · exact .inl h
    · exact .inr (.inr ⟨comment, code, hmem, .inr h⟩)

theorem feed_not_mem_codeOf {cs : List Char} (h : '\n' ∉ cs) : '\n' ∉ codeOf cs := by
  intro hmem
  rcases CommentedLine.mem_codeWith hmem with hc | hc
  · exact absurd hc (by decide)
  · rw [CommentedLine.mapCode_ofChars] at hc
    exact h hc

namespace Block

/-- What a block says to the machine, however its numbers are written. -/
def said (b : Block) : Option Nat × Option (Char × Float) × List (Char × Float) :=
  (b.number, b.corner.map Corner.said, b.words.map Word.said)

theorem code?_eq_none {cs : List Char} (h : SaysNothing (codeOf cs)) :
    code? (CommentedLine.ofChars cs) = none := by
  rw [codeOf] at h
  rcases h with h | h <;> simp [code?, h]

theorem code?_eq_some {cs : List Char} (h : ¬ SaysNothing (codeOf cs)) :
    code? (CommentedLine.ofChars cs) = some (trim (codeOf cs)) := by
  simp only [SaysNothing, codeOf, not_or] at h
  simp [code?, h.1, h.2, codeOf]

theorem read?_of_saysNothing {raw : String} (h : SaysNothing (codeOf (dropLineEnd raw.toList)))
    (n : Int) : read? raw n = none := by
  rw [read?, code?_eq_none h]
  rfl

theorem said_of_read? {raw : String} (h : ¬ SaysNothing (codeOf (dropLineEnd raw.toList)))
    (n : Int) :
    (read? raw n).map said = some (saidOfCode (trim (codeOf (dropLineEnd raw.toList)))) := by
  simp only [read?, code?_eq_some h, Option.map_some, said, saidOfCode]

theorem eq_dropLineEnd_append (cs : List Char) :
    ∃ as, (∀ c ∈ as, isBlank c = true) ∧ cs = dropLineEnd cs ++ as := by
  refine ⟨(cs.reverse.takeWhile fun c => c = '\r' || c = '\n').reverse, fun c hc => ?_, ?_⟩
  · have hall := List.all_eq_true.1 (List.all_takeWhile (l := cs.reverse)
      (p := fun c => c = '\r' || c = '\n')) c (List.mem_reverse.1 hc)
    simp only [Bool.or_eq_true, decide_eq_true_eq] at hall
    rcases hall with rfl | rfl <;> decide
  · rw [dropLineEnd, ← List.reverse_append, List.takeWhile_append_dropWhile, List.reverse_reverse]

theorem respelled_dropLineEnd {cs : List Char} (hfeed : '\n' ∉ cs) :
    Respelled (dropLineEnd cs) cs := by
  obtain ⟨as, has, hcs⟩ := eq_dropLineEnd_append cs
  have hblanks : Blanks as := by
    refine fun c hc => ⟨has c hc, ?_⟩
    rintro rfl
    exact hfeed (by rw [hcs]; exact List.mem_append_right _ hc)
  have := Respelled.append_blanks (dropLineEnd cs) hblanks
  rwa [← hcs] at this

/-- What is read from a line depends on its code alone; the end of the line does not matter. -/
theorem said_read? {l : String} (hfeed : '\n' ∉ l.toList) (n : Int) :
    (SaysNothing (codeOf l.toList) → read? l n = none) ∧
      (¬ SaysNothing (codeOf l.toList) →
        (read? l n).map said = some (saidOfCode (trim (codeOf l.toList)))) := by
  have hdrop : '\n' ∉ dropLineEnd l.toList := fun hmem => hfeed (mem_of_mem_dropLineEnd hmem)
  have hsame := (respelled_dropLineEnd hfeed).codeOf hdrop
  constructor
  · intro hnothing
    exact read?_of_saysNothing (hsame.symm.saysNothing hnothing) n
  · intro hsome
    rw [said_of_read? fun hnothing => hsome (hsame.saysNothing hnothing)]
    rw [saidOfCode_trim hsame (feed_not_mem_codeOf hdrop) (feed_not_mem_codeOf hfeed)]

/-- Lines whose codes say the same are read alike. -/
theorem said_read?_congr {l m : String} (hl : '\n' ∉ l.toList) (hm : '\n' ∉ m.toList)
    (hnothing : SaysNothing (codeOf l.toList) ↔ SaysNothing (codeOf m.toList))
    (hsaid : saidOfCode (trim (codeOf l.toList)) = saidOfCode (trim (codeOf m.toList))) (n : Int) :
    (read? l n).map said = (read? m n).map said := by
  obtain ⟨hnone, hsome⟩ := said_read? hl n
  obtain ⟨hnone', hsome'⟩ := said_read? hm n
  by_cases h : SaysNothing (codeOf l.toList)
  · rw [hnone h, hnone' (hnothing.1 h)]
  · rw [hsome h, hsome' fun h' => h (hnothing.2 h'), hsaid]

/-- Blanks around a line are not read. -/
theorem said_read?_trimmed {l : String} (hfeed : '\n' ∉ l.toList) (n : Int) :
    (read? (trimmed l) n).map said = (read? l n).map said := by
  have hleft : '\n' ∉ trimLeft l.toList := fun hmem => hfeed (List.dropWhile_subset _ hmem)
  have hright := respelled_trimRight hleft
  have htrimmed : '\n' ∉ (trimmed l).toList := by
    rw [trimmed, String.toList_ofList]
    exact feed_not_mem_trim hfeed
  have hcode : trim (codeOf (trimLeft l.toList)) = trim (codeOf l.toList) := by
    have hsplit : l.toList.takeWhile isBlank ++ trimLeft l.toList = l.toList :=
      List.takeWhile_append_dropWhile
    have hblank : ∀ c ∈ l.toList.takeWhile isBlank, isBlank c = true :=
      List.all_eq_true.1 List.all_takeWhile
    have hmarks : ∀ c ∈ l.toList.takeWhile isBlank, c ≠ '(' ∧ c ≠ ';' := by
      intro c hc
      have hc := hblank c hc
      constructor
      · rintro rfl
        exact absurd hc (by decide)
      · rintro rfl
        exact absurd hc (by decide)
    conv => rhs; rw [← hsplit, codeOf_append hmarks]
    rw [trim, trim, trimLeft_append_of_blank hblank]
  have hsame : Respelled (codeOf (trimmed l).toList) (codeOf (trimLeft l.toList)) := by
    refine Respelled.codeOf ?_ htrimmed
    rwa [trimmed, String.toList_ofList]
  refine said_read?_congr htrimmed hfeed ?_ ?_ n
  · have hnothing : SaysNothing (codeOf (trimmed l).toList) ↔
        SaysNothing (codeOf (trimLeft l.toList)) := ⟨hsame.saysNothing, hsame.symm.saysNothing⟩
    rw [hnothing, SaysNothing, SaysNothing, hcode]
  · rw [saidOfCode_trim hsame (feed_not_mem_codeOf htrimmed) (feed_not_mem_codeOf hleft), hcode]

end Block

/-- A control reads from a respelled line what it reads from the line. -/
theorem Respelled.read? {l m : String} (h : Respelled l.toList m.toList) (hfeed : '\n' ∉ l.toList)
    (n : Int) : (Block.read? l n).map Block.said = (Block.read? m n).map Block.said := by
  have hfeed' : '\n' ∉ m.toList := fun hmem => hfeed (h.feed_mem.2 hmem)
  have hsame := h.codeOf hfeed
  exact Block.said_read?_congr hfeed hfeed' ⟨hsame.saysNothing, hsame.symm.saysNothing⟩
    (saidOfCode_trim hsame (feed_not_mem_codeOf hfeed) (feed_not_mem_codeOf hfeed')) n

theorem Respelled.read?_ofList {cs ds : List Char} (h : Respelled cs ds) (hfeed : '\n' ∉ cs)
    (n : Int) :
    (Block.read? (.ofList cs) n).map Block.said = (Block.read? (.ofList ds) n).map Block.said := by
  refine Respelled.read? ?_ ?_ n
  · rw [String.toList_ofList, String.toList_ofList]
    exact h
  · rw [String.toList_ofList]
    exact hfeed

end PartProgram

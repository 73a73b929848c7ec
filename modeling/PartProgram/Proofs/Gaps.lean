import PartProgram.Proofs.KeptComments

/-!
# PartProgram.Proofs.Gaps

Texts that are the same up to the width of one gap, which may be closed in one of them. As long as
no number goes on across the gap, a control finds the same block number, corner and words in both,
each written as it was. Behind the letter of a block number even a single blank makes a difference.

* `numeral?_append`: what is read of a text that no number leaves.
* `contentOf_gap`: what is read of both texts.
* `contentOf_trim`: blanks around a code are not read.
-/

namespace PartProgram

open Text Number

/-! ## Numbers that go on -/

/-- No number at the end of the first text goes on in the second. -/
def Apart (as xs : List Char) : Prop :=
  EndsNumeral xs ∨ ∃ c ∈ as.getLast?, isNumberChar c = false

theorem Apart.endsNumeral {as xs : List Char} (h : Apart as xs)
    (hall : ∀ c ∈ as, isNumberChar c = true) : EndsNumeral xs := by
  rcases h with h | ⟨c, hc, hnot⟩
  · exact h
  · rw [hall c (List.mem_of_mem_getLast? hc)] at hnot
    cases hnot

theorem Apart.cons {as xs : List Char} (h : Apart as xs) (a : Char) : Apart (a :: as) xs := by
  rcases h with h | ⟨c, hc, hnot⟩
  · exact .inl h
  · refine .inr ⟨c, ?_, hnot⟩
    rw [Option.mem_def] at hc ⊢
    rw [List.getLast?_cons, hc]
    rfl

theorem Apart.of_append {bs as xs : List Char} (h : Apart (bs ++ as) xs) (hne : as ≠ []) :
    Apart as xs := by
  refine h.imp_right ?_
  rintro ⟨c, hc, hnot⟩
  refine ⟨c, ?_, hnot⟩
  rwa [List.getLast?_append_of_ne_nil _ hne] at hc

/-- What stands behind a number is apart from what the number is apart from. -/
theorem Apart.drop {bs as xs : List Char} (h : Apart (bs ++ as) xs)
    (hbs : ∀ b ∈ bs, isNumberChar b = true) : Apart as xs := by
  cases as with
  | nil => exact .inl (h.endsNumeral (by simpa using hbs))
  | cons a as => exact h.of_append (List.cons_ne_nil a as)

theorem Apart.tail {a : Char} {as xs : List Char} (h : Apart (a :: as) xs)
    (ha : isNumberChar a = true) : Apart as xs := by
  have happend : Apart ([a] ++ as) xs := h
  exact happend.drop (by simpa using ha)

theorem spanDigits_append_of_apart {as xs : List Char} (h : Apart as xs) :
    spanDigits (as ++ xs) = ((spanDigits as).1, (spanDigits as).2 ++ xs) := by
  induction as with
  | nil => exact spanDigits_of_noDigitHead (h.endsNumeral (by simp)).1
  | cons a as ih =>
    cases ha : isDigit a with
    | false =>
      have hhead : ∀ ys, NoDigitHead (a :: ys) := by simp [NoDigitHead, ha]
      rw [List.cons_append, spanDigits_of_noDigitHead (hhead _),
        spanDigits_of_noDigitHead (hhead _)]
      rfl
    | true =>
      have hrest := ih (h.tail (by simp [isNumberChar, ha]))
      simp only [spanDigits, Prod.mk.injEq] at hrest
      simp [spanDigits, ha, hrest]

theorem Apart.spanDigits {as xs : List Char} (h : Apart as xs) :
    Apart (Text.spanDigits as).2 xs := by
  obtain ⟨happend, hdigits, -⟩ := spanDigits_spec as
  rw [happend] at h
  exact h.drop fun c hc => by simp [isNumberChar, hdigits c hc]

theorem magnitude?_append {as xs : List Char} (h : Apart as xs) :
    magnitude? (as ++ xs) = (magnitude? as).map fun x => (x.1, x.2 ++ xs) := by
  have hspan := spanDigits_append_of_apart h
  have hrest := h.spanDigits
  by_cases hpoint : ∃ after, (spanDigits as).2 = '.' :: after
  · obtain ⟨after, hafter⟩ := hpoint
    rw [hafter] at hrest
    have hplaces := spanDigits_append_of_apart (hrest.tail (by decide))
    simp only [magnitude?, hspan, hafter, List.cons_append, hplaces]
    split <;> rfl
  · have hnone : ∀ after, (spanDigits as).2 ≠ '.' :: after := fun after h => hpoint ⟨after, h⟩
    have hnone' : ∀ after, (spanDigits (as ++ xs)).2 ≠ '.' :: after := by
      rw [hspan]
      cases hcut : (spanDigits as).2 with
      | nil =>
        rw [hcut] at hrest
        have hends := (hrest.endsNumeral (by simp)).2
        rintro after rfl
        exact hends rfl
      | cons c cs =>
        intro after heq
        rw [List.cons_append, List.cons.injEq] at heq
        rw [hcut, heq.1] at hnone
        exact hnone cs rfl
    rw [magnitude?_of_no_point hnone, magnitude?_of_no_point hnone', hspan]
    split <;> rfl

/-- What is read of a text, where no number at its end goes on. -/
theorem numeral?_append {as xs : List Char} (hne : as ≠ []) (h : Apart as xs) :
    numeral? (as ++ xs) = (numeral? as).map fun x => (x.1, x.2 ++ xs) := by
  obtain ⟨a, as, rfl⟩ := List.exists_cons_of_ne_nil hne
  cases ha : isSign a with
  | false =>
    have := magnitude?_append h
    rw [List.cons_append] at this
    simp [numeral?, ha, this]
  | true =>
    have hrest : Apart as xs := h.tail (by simp [isNumberChar, ha])
    simp only [List.cons_append, numeral?, ha, if_true, magnitude?_append hrest, Option.map_map]
    rfl

/-! ## Gaps -/

/-- Texts with one gap of another width, or with it in one of them only. No number goes on there:
the text behind the gap does not begin with more of one, or the character before it belongs to
none. -/
inductive GapApart : List Char → List Char → Prop where
  | gap {cs ds : List Char} : trimLeft cs = trimLeft ds → EndsNumeral cs → EndsNumeral ds →
      GapApart cs ds
  | behind {c : Char} {cs ds : List Char} : isNumberChar c = false → trimLeft cs = trimLeft ds →
      GapApart (c :: cs) (c :: ds)
  | char (c : Char) {cs ds : List Char} : GapApart cs ds → GapApart (c :: cs) (c :: ds)

/-- Texts that go on alike behind a letter, where a number may begin with a gap before it. -/
def SameTail (cs ds : List Char) : Prop := trimLeft cs = trimLeft ds ∨ GapApart cs ds

theorem exists_blank_append (cs : List Char) :
    ∃ as, (∀ c ∈ as, isBlank c = true) ∧ cs = as ++ trimLeft cs :=
  ⟨cs.takeWhile isBlank, List.all_eq_true.1 List.all_takeWhile,
    List.takeWhile_append_dropWhile.symm⟩

namespace GapApart

variable {cs ds : List Char}

theorem refl (cs : List Char) : GapApart cs cs := by
  induction cs with
  | nil => exact .gap rfl endsNumeral_nil endsNumeral_nil
  | cons c cs ih => exact .char c ih

theorem symm (h : GapApart cs ds) : GapApart ds cs := by
  induction h with
  | gap htrim hcs hds => exact .gap htrim.symm hds hcs
  | behind hc htrim => exact .behind hc htrim.symm
  | char c _ ih => exact .char c ih

theorem append_left (as : List Char) (h : GapApart cs ds) : GapApart (as ++ cs) (as ++ ds) := by
  induction as with
  | nil => exact h
  | cons a as ih => exact .char a ih

/-- Texts that begin alike, and go on alike behind blanks. -/
theorem of_append {as xs ys : List Char} (htrim : trimLeft xs = trimLeft ys)
    (hxs : Apart as xs) (hys : Apart as ys) : GapApart (as ++ xs) (as ++ ys) := by
  by_cases hlast : ∃ c ∈ as.getLast?, isNumberChar c = false
  · obtain ⟨c, hc, hnot⟩ := hlast
    obtain ⟨front, rfl⟩ := List.getLast?_eq_some_iff.1 hc
    rw [List.append_assoc, List.append_assoc]
    exact append_left front (.behind hnot htrim)
  · exact append_left as (.gap htrim (hxs.resolve_right hlast) (hys.resolve_right hlast))

/-- The texts before the gap and behind it. -/
theorem exists_append (h : GapApart cs ds) : ∃ as xs ys, cs = as ++ xs ∧ ds = as ++ ys ∧
    trimLeft xs = trimLeft ys ∧ Apart as xs ∧ Apart as ys := by
  induction h with
  | gap htrim hcs hds => exact ⟨[], _, _, rfl, rfl, htrim, .inl hcs, .inl hds⟩
  | @behind c cs ds hc htrim =>
    exact ⟨[c], cs, ds, rfl, rfl, htrim, .inr ⟨c, rfl, hc⟩, .inr ⟨c, rfl, hc⟩⟩
  | char c _ ih =>
    obtain ⟨as, xs, ys, rfl, rfl, htrim, hxs, hys⟩ := ih
    exact ⟨c :: as, xs, ys, rfl, rfl, htrim, hxs.cons c, hys.cons c⟩

end GapApart

namespace SameTail

variable {cs ds : List Char}

theorem symm (h : SameTail cs ds) : SameTail ds cs := h.imp Eq.symm GapApart.symm

/-- Behind blanks the texts are the same, or they begin with the same characters before the gap. -/
theorem cases (h : SameTail cs ds) : trimLeft cs = trimLeft ds ∨
    ∃ as xs ys, as ≠ [] ∧ trimLeft cs = as ++ xs ∧ trimLeft ds = as ++ ys ∧
      trimLeft xs = trimLeft ys ∧ Apart as xs ∧ Apart as ys := by
  rcases h with h | h
  · exact .inl h
  · obtain ⟨as, xs, ys, rfl, rfl, htrim, hxs, hys⟩ := h.exists_append
    obtain ⟨bs, hbs, hsplit⟩ := exists_blank_append as
    rw [hsplit, List.append_assoc, List.append_assoc, trimLeft_append_of_blank hbs,
      trimLeft_append_of_blank hbs]
    cases hcut : trimLeft as with
    | nil => exact .inl htrim
    | cons a rest =>
      have hhead : isBlank a = false := head_dropWhile_isBlank as (by rw [← trimLeft, hcut]; rfl)
      rw [hcut] at hsplit
      rw [hsplit] at hxs hys
      exact .inr ⟨a :: rest, xs, ys, by simp, by simp [trimLeft, hhead], by simp [trimLeft, hhead],
        htrim, hxs.of_append (by simp), hys.of_append (by simp)⟩

/-- Both texts begin with one number, or with none. -/
theorem numeral?_cases (h : SameTail cs ds) :
    (numeral? (trimLeft cs) = none ∧ numeral? (trimLeft ds) = none) ∨
      ∃ t xs ys, numeral? (trimLeft cs) = some (t, xs) ∧ numeral? (trimLeft ds) = some (t, ys) ∧
        GapApart xs ys := by
  rcases h.cases with h | ⟨as, xs, ys, hne, hcs, hds, htrim, hxs, hys⟩
  · rw [h]
    cases hread : numeral? (trimLeft ds) with
    | none => exact .inl ⟨rfl, rfl⟩
    | some found => exact .inr ⟨found.1, found.2, found.2, rfl, rfl, .refl _⟩
  · rw [hcs, hds, numeral?_append hne hxs, numeral?_append hne hys]
    cases hread : numeral? as with
    | none => exact .inl ⟨rfl, rfl⟩
    | some found =>
      obtain ⟨happend, hnumeral⟩ := numeral?_spec hread
      rw [happend] at hxs hys
      exact .inr ⟨found.1, found.2 ++ xs, found.2 ++ ys, rfl, rfl,
        .of_append htrim (hxs.drop hnumeral.isNumberChar) (hys.drop hnumeral.isNumberChar)⟩

/-- Both texts begin with one letter that they go on alike behind. -/
theorem letter (h : SameTail cs ds) {c : Char} {xs : List Char} (hcs : trimLeft cs = c :: xs) :
    ∃ ys, trimLeft ds = c :: ys ∧ SameTail xs ys := by
  rcases h.cases with h | ⟨as, us, vs, hne, hcs', hds, htrim, hus, hvs⟩
  · exact ⟨xs, h.symm.trans hcs, .inl rfl⟩
  · obtain ⟨a, as, rfl⟩ := List.exists_cons_of_ne_nil hne
    rw [hcs, List.cons_append, List.cons.injEq] at hcs'
    obtain ⟨rfl, rfl⟩ := hcs'
    refine ⟨as ++ vs, hds, ?_⟩
    cases as with
    | nil => exact .inl htrim
    | cons b bs =>
      have htail : ∀ {zs}, Apart ([c] ++ b :: bs) zs → Apart (b :: bs) zs :=
        fun h => h.of_append (by simp)
      exact .inr (.of_append htrim (htail hus) (htail hvs))

end SameTail

/-! ## Words -/

theorem wordsOf_trimLeft (cs : List Char) : wordsOf (trimLeft cs) = wordsOf cs := by
  obtain ⟨as, has, hsplit⟩ := exists_blank_append cs
  conv => rhs; rw [hsplit]
  rw [wordsOf_append fun c hc => isWordLetter_of_isBlank (has c hc)]

/-- A gap is not part of any word. -/
theorem GapApart.wordsOf {cs ds : List Char} (h : GapApart cs ds) : wordsOf cs = wordsOf ds := by
  have htail : ∀ {xs ys}, trimLeft xs = trimLeft ys →
      PartProgram.wordsOf xs = PartProgram.wordsOf ys := by
    intro xs ys htrim
    rw [← wordsOf_trimLeft, htrim, wordsOf_trimLeft]
  induction hn : cs.length using Nat.strongRecOn generalizing cs ds with
  | ind n ih =>
    subst hn
    have hcons : ∀ c xs ys, SameTail xs ys → cs = c :: xs →
        PartProgram.wordsOf (c :: xs) = PartProgram.wordsOf (c :: ys) := by
      rintro c xs ys hsame rfl
      have hrest : PartProgram.wordsOf xs = PartProgram.wordsOf ys :=
        hsame.elim htail fun h => ih xs.length (by simp) h rfl
      cases hc : Block.isWordLetter c with
      | false => rwa [wordsOf_cons_of_not_letter hc, wordsOf_cons_of_not_letter hc]
      | true =>
        rcases hsame.numeral?_cases with ⟨hxs, hys⟩ | ⟨t, us, vs, hxs, hys, hafter⟩
        · rwa [wordsOf_cons_of_none (by simp [Block.recogniseWord, hxs]),
            wordsOf_cons_of_none (by simp [Block.recogniseWord, hys])]
        · have hlength := ((numeral?_suffix hxs).trans (trimLeft_suffix xs)).length_le
          rw [wordsOf_cons_of_some hc hxs, wordsOf_cons_of_some hc hys,
            ih us.length (by rw [List.length_cons]; omega) hafter rfl]
    cases h with
    | gap htrim => exact htail htrim
    | behind _ htrim => exact hcons _ _ _ (.inl htrim) rfl
    | char c hrest => exact hcons _ _ _ (.inr hrest) rfl

theorem upperCase_of_blank {as : List Char} (h : ∀ c ∈ as, isBlank c = true) :
    upperCase as = as := by
  induction as with
  | nil => rfl
  | cons a as ih =>
    rw [upperCase, List.flatMap_cons, upperChar_of_isBlank (h a (.head _)), ← upperCase,
      ih fun c hc => h c (.tail _ hc)]
    rfl

theorem GapApart.upperCase {cs ds : List Char} (h : GapApart cs ds) :
    GapApart (upperCase cs) (upperCase ds) := by
  have htail : ∀ {xs ys}, Text.trimLeft xs = Text.trimLeft ys →
      Text.trimLeft (Text.upperCase xs) = Text.trimLeft (Text.upperCase ys) := by
    have hblank : ∀ xs, Text.trimLeft (Text.upperCase xs) =
        Text.trimLeft (Text.upperCase (Text.trimLeft xs)) := by
      intro xs
      obtain ⟨as, has, hsplit⟩ := exists_blank_append xs
      conv =>
        lhs
        rw [hsplit, upperCase_append, upperCase_of_blank has, trimLeft_append_of_blank has]
    intro xs ys htrim
    rw [hblank xs, htrim, ← hblank ys]
  induction h with
  | gap htrim hcs hds =>
    exact .gap (htail htrim) (endsNumeral_upperCase hcs) (endsNumeral_upperCase hds)
  | @behind c cs ds hc htrim =>
    have hlast : ∀ zs, Apart (upperChar c) zs := by
      intro zs
      rcases upperChar_cases c with hupper | ⟨hne, hupper⟩
      · exact .inr ⟨c, by rw [hupper]; rfl, hc⟩
      · exact .inr ⟨_, List.getLast?_eq_some_getLast hne, hupper _ (List.getLast_mem hne)⟩
    exact .of_append (htail htrim) (hlast _) (hlast _)
  | char c _ ih => exact .append_left (upperChar c) ih

/-! ## Corner -/

/-- Behind the comma of a corner the texts hold the same corner, and go on alike. -/
theorem SameTail.recogniseCorner {cs ds : List Char} (h : SameTail cs ds) {k : Corner} {n : Nat}
    (hk : Block.recogniseCorner (',' :: cs) = some (k, n)) :
    ∃ n', Block.recogniseCorner (',' :: ds) = some (k, n') ∧
      GapApart ((',' :: cs).drop n) ((',' :: ds).drop n') := by
  obtain ⟨c, rest, t, after, htrim, hletter, hread, rfl, hdrop⟩ := recogniseCorner_eq_some hk
  obtain ⟨rest', htrim', hrest⟩ := h.letter htrim
  rcases hrest.numeral?_cases with ⟨hnone, -⟩ | ⟨t', xs, ys, hxs, hys, hafter⟩
  · rw [hread] at hnone
    cases hnone
  · rw [hread] at hxs
    cases hxs
    obtain ⟨n', hn', hdrop'⟩ := exists_recogniseCorner htrim' hletter hys
    exact ⟨n', hn', by rwa [hdrop, hdrop']⟩

theorem SameTail.recogniseCorner_none {cs ds : List Char} (h : SameTail cs ds)
    (hnone : Block.recogniseCorner (',' :: cs) = none) :
    Block.recogniseCorner (',' :: ds) = none := by
  rw [Option.eq_none_iff_forall_ne_some]
  rintro ⟨k, n⟩ hk
  obtain ⟨n', hk', -⟩ := h.symm.recogniseCorner hk
  rw [hnone] at hk'
  cases hk'

theorem splitCorner_blank_append {as : List Char} (has : ∀ c ∈ as, isBlank c = true)
    (cs : List Char) :
    Block.splitCorner (as ++ cs) = ((Block.splitCorner cs).1, as ++ (Block.splitCorner cs).2) :=
  splitCorner_append (fun hmem => absurd (has _ hmem) (by decide)) cs

theorem splitCorner_trimLeft (cs : List Char) :
    (Block.splitCorner (trimLeft cs)).1 = (Block.splitCorner cs).1 ∧
      trimLeft (Block.splitCorner (trimLeft cs)).2 = trimLeft (Block.splitCorner cs).2 := by
  obtain ⟨as, has, hsplit⟩ := exists_blank_append cs
  have hcs := splitCorner_blank_append has (trimLeft cs)
  rw [← hsplit] at hcs
  rw [hcs, trimLeft_append_of_blank has]
  exact ⟨rfl, rfl⟩

theorem splitCorner_of_trimLeft_eq {cs ds : List Char} (h : trimLeft cs = trimLeft ds) :
    (Block.splitCorner cs).1 = (Block.splitCorner ds).1 ∧
      trimLeft (Block.splitCorner cs).2 = trimLeft (Block.splitCorner ds).2 := by
  obtain ⟨hcorner, hcode⟩ := splitCorner_trimLeft cs
  obtain ⟨hcorner', hcode'⟩ := splitCorner_trimLeft ds
  rw [← hcorner, ← hcode, h]
  exact ⟨hcorner', hcode'⟩

/-- Behind a character the corner is looked for at the character, and then in the rest. -/
theorem splitCorner_cons_of_sameTail {c : Char} {cs ds : List Char} (h : SameTail cs ds)
    (hcorner : (Block.splitCorner cs).1 = (Block.splitCorner ds).1)
    (hcode : GapApart (c :: (Block.splitCorner cs).2) (c :: (Block.splitCorner ds).2)) :
    (Block.splitCorner (c :: cs)).1 = (Block.splitCorner (c :: ds)).1 ∧
      GapApart (Block.splitCorner (c :: cs)).2 (Block.splitCorner (c :: ds)).2 := by
  by_cases hc : c = ','
  · subst hc
    cases hfound : Block.recogniseCorner (',' :: cs) with
    | some found =>
      obtain ⟨n', hfound', hafter⟩ := h.recogniseCorner hfound
      rw [splitCorner_cons_of_some hfound, splitCorner_cons_of_some hfound']
      exact ⟨rfl, .char ' ' hafter⟩
    | none =>
      rw [splitCorner_cons_of_none hfound, splitCorner_cons_of_none (h.recogniseCorner_none hfound)]
      exact ⟨hcorner, hcode⟩
  · rw [splitCorner_cons_of_none (recogniseCorner_of_ne hc _),
      splitCorner_cons_of_none (recogniseCorner_of_ne hc _)]
    exact ⟨hcorner, hcode⟩

/-- The texts hold the same corner, and the same gap is around it or in front of it. -/
theorem GapApart.splitCorner {cs ds : List Char} (h : GapApart cs ds) :
    (Block.splitCorner cs).1 = (Block.splitCorner ds).1 ∧
      GapApart (Block.splitCorner cs).2 (Block.splitCorner ds).2 := by
  induction h with
  | gap htrim hcs hds =>
    obtain ⟨hcorner, hcode⟩ := splitCorner_of_trimLeft_eq htrim
    exact ⟨hcorner, .gap hcode (endsNumeral_splitCorner hcs) (endsNumeral_splitCorner hds)⟩
  | behind hc htrim =>
    obtain ⟨hcorner, hcode⟩ := splitCorner_of_trimLeft_eq htrim
    exact splitCorner_cons_of_sameTail (.inl htrim) hcorner (.behind hc hcode)
  | char c hrest ih => exact splitCorner_cons_of_sameTail (.inr hrest) ih.1 (.char c ih.2)

/-! ## Code -/

/-- The block number, the corner and the known words of a code text, each as it is written. -/
def contentOf (code : List Char) : Option Nat × Option Corner × List Word :=
  let (number, code) := Block.splitNumber code
  let (corner, code) := Block.splitCorner code
  (number, corner, (Block.addressWords code).filter fun w => addressLetters.contains w.letter)

/-- The texts behind a gap of one code, wide and narrow. No number goes on across it, and it does
not stand between the letter and the digits of a block number. -/
structure IsGap (as xs ys : List Char) : Prop where
  same : trimLeft xs = trimLeft ys
  wide : Apart as xs
  narrow : Apart as ys
  number : ∀ c, trimLeft as = [c] → c.toUpper = 'N' → NoDigitHead xs ∧ NoDigitHead ys

/-- Blanks in front of a block number are not read. -/
theorem splitNumber_cases (cs : List Char) :
    (∀ ds, trimLeft ds = trimLeft cs → Block.splitNumber ds = (none, ds)) ∨
      ∃ n after, ∀ ds, trimLeft ds = trimLeft cs → Block.splitNumber ds = (some n, after) := by
  cases hcut : trimLeft cs with
  | nil => exact .inl fun ds hds => by simp [Block.splitNumber, hds]
  | cons c rest =>
    by_cases h : c.toUpper = 'N' ∧ (spanDigits rest).1.isEmpty = false
    · exact .inr ⟨digitsValue (spanDigits rest).1, (spanDigits rest).2,
        fun ds hds => by simp [Block.splitNumber, hds, h]⟩
    · refine .inl fun ds hds => ?_
      simp only [Block.splitNumber, hds]
      exact if_neg (by simpa using h)

theorem IsGap.splitNumber {as xs ys : List Char} (h : IsGap as xs ys) :
    (Block.splitNumber (as ++ xs)).1 = (Block.splitNumber (as ++ ys)).1 ∧
      GapApart (Block.splitNumber (as ++ xs)).2 (Block.splitNumber (as ++ ys)).2 := by
  have hsame : GapApart (as ++ xs) (as ++ ys) := .of_append h.same h.wide h.narrow
  obtain ⟨bs, hbs, hsplit⟩ := exists_blank_append as
  have htrim : ∀ zs, trimLeft (as ++ zs) = trimLeft (trimLeft as ++ zs) := by
    intro zs
    conv => lhs; rw [hsplit, List.append_assoc, trimLeft_append_of_blank hbs]
  cases hcut : trimLeft as with
  | nil =>
    have heq : trimLeft (as ++ xs) = trimLeft (as ++ ys) := by
      rw [htrim, htrim, hcut]
      exact h.same
    rcases splitNumber_cases (as ++ ys) with hnone | ⟨n, after, hsome⟩
    · rw [hnone _ heq, hnone _ rfl]
      exact ⟨rfl, hsame⟩
    · rw [hsome _ heq, hsome _ rfl]
      exact ⟨rfl, .refl _⟩
  | cons c rest =>
    have hblank : isBlank c = false := head_dropWhile_isBlank as (by rw [← trimLeft, hcut]; rfl)
    have htrim' : ∀ zs, trimLeft (as ++ zs) = c :: (rest ++ zs) := by
      intro zs
      rw [htrim, hcut]
      simp [trimLeft, hblank]
    by_cases hletter : c.toUpper = 'N'
    · cases rest with
      | nil =>
        obtain ⟨hxs, hys⟩ := h.number c hcut hletter
        simp only [Block.splitNumber, htrim', List.nil_append, spanDigits_of_noDigitHead hxs,
          spanDigits_of_noDigitHead hys]
        simpa using hsame
      | cons d ds =>
        have hrest : ∀ {zs}, Apart as zs → Apart (d :: ds) zs := by
          intro zs hzs
          rw [hsplit, hcut, List.append_cons] at hzs
          exact hzs.of_append (by simp)
        have hwide := hrest h.wide
        have hnarrow := hrest h.narrow
        simp only [Block.splitNumber, htrim', spanDigits_append_of_apart hwide,
          spanDigits_append_of_apart hnarrow]
        split
        · exact ⟨rfl, .of_append h.same hwide.spanDigits hnarrow.spanDigits⟩
        · exact ⟨rfl, hsame⟩
    · simpa [Block.splitNumber, htrim', hletter] using hsame

/-- A control reads the same from both texts. -/
theorem contentOf_gap {as xs ys : List Char} (h : IsGap as xs ys) :
    contentOf (as ++ xs) = contentOf (as ++ ys) := by
  obtain ⟨hnumber, hafter⟩ := h.splitNumber
  obtain ⟨hcorner, hcode⟩ := hafter.splitCorner
  have hwords := hcode.upperCase.wordsOf
  simp only [contentOf, hnumber, hcorner, Block.addressWords]
  rw [← wordsOf, ← wordsOf, hwords]

/-- Where blanks stand behind both texts, the gap is one. -/
theorem isGap_of_blank {as xs ys : List Char} (hsame : trimLeft xs = trimLeft ys)
    (hxs : ∀ c ∈ xs.head?, isBlank c = true) (hys : ∀ c ∈ ys.head?, isBlank c = true) :
    IsGap as xs ys := by
  have hends : ∀ {zs : List Char}, (∀ c ∈ zs.head?, isBlank c = true) → EndsNumeral zs := by
    intro zs hzs
    cases zs with
    | nil => exact endsNumeral_nil
    | cons z zs =>
      have hz := hzs z rfl
      refine endsNumeral_cons ?_ ?_
      · cases hdigit : isDigit z with
        | false => rfl
        | true =>
          rw [isBlank_of_isDigit hdigit] at hz
          cases hz
      · rintro rfl
        exact absurd hz (by decide)
  exact ⟨hsame, .inl (hends hxs), .inl (hends hys), fun _ _ _ => ⟨(hends hxs).1, (hends hys).1⟩⟩

theorem contentOf_trimLeft (code : List Char) : contentOf (trimLeft code) = contentOf code := by
  obtain ⟨as, has, hsplit⟩ := exists_blank_append code
  have htwice : trimLeft (trimLeft code) = trimLeft code := by
    conv => rhs; rw [hsplit, trimLeft_append_of_blank has]
  rcases splitNumber_cases code with hnone | ⟨n, after, hsome⟩
  · have hcorner := splitCorner_blank_append has (trimLeft code)
    rw [← hsplit] at hcorner
    have hupper := upperCase_append as (Block.splitCorner (trimLeft code)).2
    rw [upperCase_of_blank has] at hupper
    have hwords := wordsOf_append (fun c hc => isWordLetter_of_isBlank (has c hc))
      (upperCase (Block.splitCorner (trimLeft code)).2)
    rw [contentOf, contentOf, hnone code rfl, hnone (trimLeft code) htwice]
    simp only [hcorner, Block.addressWords, hupper]
    rw [← wordsOf, ← wordsOf, hwords]
  · rw [contentOf, contentOf, hsome code rfl, hsome (trimLeft code) htwice]

theorem contentOf_trim (code : List Char) : contentOf (trim code) = contentOf code := by
  obtain ⟨as, has, hright⟩ := eq_trimRight_append (trimLeft code)
  have hgap : IsGap (trimRight (trimLeft code)) as [] := by
    refine isGap_of_blank ?_ (fun c hc => has c (List.mem_of_mem_head? hc)) (by simp)
    rw [trimLeft, trimLeft, List.dropWhile_nil, List.dropWhile_eq_nil_iff]
    exact has
  have hcut := contentOf_gap hgap
  rw [← hright, List.append_nil, contentOf_trimLeft] at hcut
  exact hcut.symm

end PartProgram

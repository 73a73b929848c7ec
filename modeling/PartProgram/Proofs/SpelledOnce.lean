import PartProgram.Proofs.FirstFeed
import PartProgram.Proofs.Formatting
import PartProgram.Proofs.KeptComments

/-!
# PartProgram.Proofs.SpelledOnce

The spelling rules change how a line is written and nothing that it says. A rule for numbers knows
what it looks for by the letter, by the character in front and by the digits that follow; it leaves
all of these as they are wherever it changes nothing, and it does not find again what it wrote. So
the lines it gives have nothing left to change, and their comments are those of the lines it got.

* `Rewritten.findsNothing`: numbers that were written anew are not found again.
* `Rule.isCompact_compactLine`, `Rule.hasPoints_pointLine`: lines with nothing left to change.
* `Rule.onlySpells_compactCode_decimalFormat`: both rules keep what a block tells, and run once
  for all.
-/

namespace PartProgram

open Text Number

/-! ## Nothing found -/

section

variable {α : Type} {recognise : Recogniser α}

/-- Nothing is found anywhere in a text, given the character before it. -/
def FindsNothing (recognise : Recogniser α) : Option Char → List Char → Prop
  | _, [] => True
  | previous, c :: rest =>
    recognise previous (c :: rest) = none ∧ FindsNothing recognise (some c) rest

theorem findsNothing_iff {cs : List Char} :
    FindsNothing recognise none cs ↔ matchesOf recognise cs = [] := by
  have hscan : ∀ previous, FindsNothing recognise previous cs ↔
      ∀ x ∈ scanFrom recognise previous 0 cs, x.isLeft = true := by
    induction cs with
    | nil => simp [FindsNothing, scanFrom]
    | cons c cs ih =>
      intro previous
      rw [FindsNothing, ih]
      cases h : recognise previous (c :: cs) <;> simp [scanFrom, h]
  rw [hscan, matchesOf_eq_nil_iff]
  rfl

theorem scanFrom_length (previous : Option Char) (cs rest : List Char) :
    scanFrom recognise previous cs.length (cs ++ rest) =
      scanFrom recognise (cs.getLast?.or previous) 0 rest := by
  induction cs generalizing previous with
  | nil => rfl
  | cons c cs ih =>
    rw [List.length_cons, List.cons_append, scanFrom, ih]
    cases cs with
    | nil => rfl
    | cons d ds => simp [List.getLast?_cons]

end

namespace Rule

/-! ## Numbers ahead -/

/-- The sign and the digits at the head of a text, and whether a number without a point ends there. -/
def numberAhead (cs : List Char) : List Char × List Char × Bool :=
  let sign := (cs.take 1).filter isSign
  let (digits, after) := spanDigits (cs.drop sign.length)
  (sign, digits, endsWhole after)

/-- A sign or none. -/
def IsSigns (sign : List Char) : Prop := sign = [] ∨ ∃ c, sign = [c] ∧ isSign c = true

theorem numberAhead_spec {cs sign digits : List Char} {whole : Bool}
    (h : numberAhead cs = (sign, digits, whole)) :
    ∃ after, cs = sign ++ (digits ++ after) ∧ IsSigns sign ∧ (∀ c ∈ digits, isDigit c = true) ∧
      NoDigitHead after ∧ endsWhole after = whole := by
  obtain ⟨hsplit, hdigits, hnone⟩ := spanDigits_spec (cs.drop ((cs.take 1).filter isSign).length)
  simp only [numberAhead, Prod.mk.injEq] at h
  obtain ⟨rfl, rfl, rfl⟩ := h
  have hsign : cs = (cs.take 1).filter isSign ++ cs.drop ((cs.take 1).filter isSign).length ∧
      IsSigns ((cs.take 1).filter isSign) := by
    cases cs with
    | nil => exact ⟨rfl, .inl rfl⟩
    | cons c cs => cases hc : isSign c <;> simp [hc, IsSigns]
  refine ⟨_, ?_, hsign.2, hdigits, hnone, rfl⟩
  rw [← hsplit]
  exact hsign.1

theorem numberAhead_digits {sign digits after : List Char} (hsign : IsSigns sign)
    (hne : digits ≠ []) (hdigits : ∀ c ∈ digits, isDigit c = true) (hafter : NoDigitHead after) :
    numberAhead (sign ++ (digits ++ after)) = (sign, digits, endsWhole after) := by
  have hspan := spanDigits_append hdigits hafter
  rcases hsign with rfl | ⟨c, rfl, hc⟩
  · obtain ⟨d, digits, rfl⟩ := List.exists_cons_of_ne_nil hne
    have hd := isSign_of_isDigit (hdigits d (.head _))
    rw [List.cons_append] at hspan
    simp [numberAhead, hd, hspan]
  · simp [numberAhead, hc, hspan]

theorem noDigitHead_of_endsWhole {cs : List Char} (h : endsWhole cs = true) : NoDigitHead cs := by
  have := (endsNumeral_of_endsWhole h endsNumeral_nil).1
  rwa [List.append_nil] at this

theorem endsWhole_eq_of_head {cs ds : List Char}
    (h : cs.head?.any (fun c => isDigit c || c = '.') = ds.head?.any fun c => isDigit c || c = '.') :
    endsWhole cs = endsWhole ds := by
  rw [endsWhole, endsWhole, h]

theorem isSign_of_isBlank {c : Char} (h : isBlank c = true) : isSign c = false := by
  simp only [isSign, Bool.or_eq_false_iff, decide_eq_false_iff_not]
  constructor <;>
  · rintro rfl
    exact absurd h (by decide)

theorem numberAhead_unsigned {cs : List Char} (h : cs.head?.any isSign = false) :
    numberAhead cs = ([], (spanDigits cs).1, endsWhole (spanDigits cs).2) := by
  cases cs with
  | nil => rfl
  | cons c cs =>
    have hc : isSign c = false := by simpa using h
    simp [numberAhead, hc]

/-- Respelled texts go on with the same digits, and a number ends behind both or neither. -/
theorem digitsAhead_respelled {cs ds : List Char} (h : Respelled cs ds) :
    (spanDigits cs).1 = (spanDigits ds).1 ∧
      endsWhole (spanDigits cs).2 = endsWhole (spanDigits ds).2 := by
  obtain ⟨hdigits, hrest⟩ := h.spanDigits
  refine ⟨hdigits, endsWhole_eq_of_head (hrest.head? fun c hc => ?_)⟩
  simp only [Bool.or_eq_false_iff, decide_eq_false_iff_not]
  refine ⟨?_, by rintro rfl; exact absurd hc (by decide)⟩
  cases hd : isDigit c with
  | false => rfl
  | true => exact absurd (isBlank_of_isDigit hd) (by simp [hc])

/-- Respelled texts go on with the same number. -/
theorem numberAhead_respelled {cs ds : List Char} (h : Respelled cs ds) :
    numberAhead cs = numberAhead ds := by
  have hhead := h.head? fun _ => isSign_of_isBlank
  cases hsign : cs.head?.any isSign with
  | false =>
    rw [hsign] at hhead
    rw [numberAhead_unsigned hsign, numberAhead_unsigned hhead.symm, (digitsAhead_respelled h).1,
      (digitsAhead_respelled h).2]
  | true =>
    cases cs with
    | nil => cases hsign
    | cons c cs =>
      have hc : isSign c = true := by simpa using hsign
      have hnot : isBlank c = false := by
        cases hb : isBlank c with
        | false => rfl
        | true => exact absurd (isSign_of_isBlank hb) (by simp [hc])
      have hletter : c ∉ respelledLetters := by
        simp only [isSign, Bool.or_eq_true, decide_eq_true_eq] at hc
        rcases hc with rfl | rfl <;> decide
      obtain ⟨ds', rfl, htail⟩ := h.tail hnot hletter
      simp [numberAhead, hc, (digitsAhead_respelled htail).1, (digitsAhead_respelled htail).2]

/-- What ends a code goes on with no number. -/
theorem numberAhead_append {rest : List Char} (h : EndsCode rest) (cs : List Char) :
    numberAhead (cs ++ rest) = numberAhead cs := by
  have hrest : ∀ c ∈ rest.head?, isDigit c = false ∧ c ≠ '.' ∧ isSign c = false := by
    intro c hc
    rcases h c hc with hblank | rfl
    · refine ⟨?_, ?_, ?_⟩
      · cases hd : isDigit c with
        | false => rfl
        | true => exact absurd (isBlank_of_isDigit hd) (by simp [hblank])
      · rintro rfl
        exact absurd hblank (by decide)
      · simp only [isSign, Bool.or_eq_false_iff, decide_eq_false_iff_not]
        constructor <;>
        · rintro rfl
          exact absurd hblank (by decide)
    · decide
  have hspan : ∀ xs : List Char, (spanDigits (xs ++ rest)).1 = (spanDigits xs).1 ∧
      endsWhole (spanDigits (xs ++ rest)).2 = endsWhole (spanDigits xs).2 := by
    intro xs
    induction xs with
    | nil =>
      cases rest with
      | nil => simp
      | cons c rest =>
        obtain ⟨hd, hpoint, -⟩ := hrest c rfl
        simp [spanDigits, hd, endsWhole, hpoint]
    | cons x xs ih =>
      simp only [spanDigits] at ih
      cases hx : isDigit x with
      | true => simpa [spanDigits, hx] using ih
      | false => simp [spanDigits, hx, endsWhole]
  cases cs with
  | nil =>
    cases rest with
    | nil => rfl
    | cons c rest =>
      obtain ⟨hd, hpoint, hsign⟩ := hrest c rfl
      simp [numberAhead, spanDigits, hd, endsWhole, hpoint, hsign]
  | cons c cs =>
    cases hc : isSign c with
    | true => simp [numberAhead, hc, hspan cs]
    | false => simpa [numberAhead, hc] using hspan (c :: cs)

/-! ## Rules for numbers -/

/-- A recogniser that writes the number of a word in another way, and finds it by the letter, by
what is in front and by the number ahead. It does not find again what it wrote. -/
structure IsNumberRule (recognise : Recogniser (List Char)) : Prop where
  found : ∀ previous cs new n, recognise previous cs = some (new, n) →
    ∃ c u v after, cs = c :: (u ++ after) ∧ new = c :: v ∧ n = u.length + 1 ∧
      c ∈ respelledLetters ∧ IsNumeral u ∧ IsNumeral v ∧ numeralValue u = numeralValue v ∧
        EndsNumeral after ∧ ∀ p ys, EndsNumeral ys → recognise p (c :: (v ++ ys)) = none
  letter : ∀ previous c cs, c ∉ respelledLetters → recognise previous (c :: cs) = none
  ahead : ∀ {p q c xs ys}, beginsWord p = beginsWord q → numberAhead xs = numberAhead ys →
    recognise p (c :: xs) = none → recognise q (c :: ys) = none

/-- A text with its numbers written anew: characters at which nothing is found stay. -/
inductive Rewritten (recognise : Recogniser (List Char)) :
    Option Char → List Char → List Char → Prop where
  | nil (previous : Option Char) : Rewritten recognise previous [] []
  | char {previous : Option Char} {c : Char} {cs ds : List Char} :
      recognise previous (c :: cs) = none → Rewritten recognise (some c) cs ds →
        Rewritten recognise previous (c :: cs) (c :: ds)
  | number {previous : Option Char} {c : Char} {u v cs ds : List Char} : c ∈ respelledLetters →
      IsNumeral u → IsNumeral v → numeralValue u = numeralValue v → EndsNumeral cs →
        (∀ p ys, EndsNumeral ys → recognise p (c :: (v ++ ys)) = none) →
          Rewritten recognise u.getLast? cs ds →
            Rewritten recognise previous (c :: (u ++ cs)) (c :: (v ++ ds))

theorem beginsWord_getLast? {u : List Char} (h : IsNumeral u) : beginsWord u.getLast? = true := by
  rw [beginsWord, Bool.not_eq_true', Option.any_eq_false]
  intro c hc
  have hletter := h.not_letter (List.mem_of_getLast? hc)
  simp only [Block.isWordLetter, Bool.or_eq_false_iff] at hletter
  simpa using hletter.1.1

theorem plain_numeral {u : List Char} (h : IsNumeral u) : Plain u := by
  intro c hc
  rcases h.chars c hc with hdigit | rfl | hsign
  · simp [ne_of_isDigit hdigit (by decide : isDigit '(' = false),
      ne_of_isDigit hdigit (by decide : isDigit ')' = false),
      ne_of_isDigit hdigit (by decide : isDigit ';' = false),
      ne_of_isDigit hdigit (by decide : isDigit '\n' = false)]
  · decide
  · simp only [isSign, Bool.or_eq_true, decide_eq_true_eq] at hsign
    rcases hsign with rfl | rfl <;> decide

theorem plain_word {c : Char} {u : List Char} (hc : c ∈ respelledLetters) (hu : IsNumeral u) :
    Plain (c :: u) := by
  intro d hd
  rcases List.mem_cons.1 hd with rfl | hd
  · have hother := (respelledLetter_spec hc).2.2.2.2
    simp only [List.mem_cons, List.not_mem_nil, or_false, not_or] at hother ⊢
    simp [hother]
  · exact plain_numeral hu d hd

namespace IsNumberRule

variable {recognise : Recogniser (List Char)}

theorem rewritten_replaceAll (h : IsNumberRule recognise) (code : List Char) :
    Rewritten recognise none code (replaceAll recognise code) := by
  have hscan : ∀ n previous, ∀ code : List Char, code.length = n → Rewritten recognise previous code
      ((scanFrom recognise previous 0 code).flatMap (Sum.elim (fun c => [c]) id)) := by
    intro n
    induction n using Nat.strongRecOn with
    | ind n ih =>
      intro previous code hn
      subst hn
      cases code with
      | nil => exact .nil previous
      | cons c rest =>
        cases hfound : recognise previous (c :: rest) with
        | none =>
          simpa [scanFrom, hfound] using
            Rewritten.char hfound (ih rest.length (by simp) (some c) rest rfl)
        | some found =>
          obtain ⟨new, n⟩ := found
          obtain ⟨c', u, v, after, heq, rfl, rfl, hc, hu, hv, hvalue, hends, hagain⟩ :=
            h.found _ _ _ _ hfound
          rw [List.cons.injEq] at heq
          obtain ⟨rfl, rfl⟩ := heq
          have hlast : u.getLast?.or (some c) = u.getLast? := by
            obtain ⟨d, u, rfl⟩ := List.exists_cons_of_ne_nil hu.ne_nil
            simp [List.getLast?_cons]
          have hrest := ih after.length (by simp only [List.length_cons, List.length_append]; omega)
            u.getLast? after rfl
          simp only [scanFrom, hfound, Nat.add_sub_cancel, scanFrom_length, hlast,
            List.flatMap_cons]
          exact .number hc hu hv hvalue hends hagain hrest
  have hpieces : replaceAll recognise code =
      (scan recognise code).flatMap (Sum.elim (fun c => [c]) id) :=
    List.flatMap_congr fun piece _ => by cases piece <;> rfl
  rw [hpieces]
  exact hscan code.length none code rfl

end IsNumberRule

namespace Rewritten

variable {recognise : Recogniser (List Char)} {previous : Option Char} {cs ds : List Char}

theorem respelled (h : Rewritten recognise previous cs ds) : Respelled cs ds := by
  induction h with
  | nil => exact .refl []
  | char _ _ ih => exact .char _ ih
  | number hc hu hv hvalue hends _ _ ih => exact .number hc hu hv hvalue hends (ih.endsNumeral hends) ih

theorem sameMarks (h : Rewritten recognise previous cs ds) : SameMarks cs ds := by
  induction h with
  | nil => exact .nil
  | char _ _ ih => exact .char _ ih
  | number hc hu hv _ _ _ _ ih =>
    exact .row (List.cons_ne_nil _ _) (List.cons_ne_nil _ _) (plain_word hc hu) (plain_word hc hv) ih

end Rewritten

namespace IsNumberRule

variable {recognise : Recogniser (List Char)} {p q : Option Char} {cs : List Char}

/-- Nothing is found in a numeral, so the search goes on behind it. -/
theorem findsNothing_numeral (h : IsNumberRule recognise) {v : List Char} (hv : IsNumeral v)
    (hrest : FindsNothing recognise v.getLast? cs) (p : Option Char) :
    FindsNothing recognise p (v ++ cs) := by
  have hletter : ∀ c ∈ v, c ∉ respelledLetters := by
    intro c hc hmem
    have hnot := hv.not_letter hc
    rw [(respelledLetter_spec hmem).2.2.1] at hnot
    cases hnot
  obtain ⟨d, v, rfl⟩ := List.exists_cons_of_ne_nil hv.ne_nil
  clear hv
  induction v generalizing d p with
  | nil => exact ⟨h.letter _ _ _ (hletter d (.head _)), hrest⟩
  | cons e v ih =>
    rw [List.getLast?_cons_cons] at hrest
    exact ⟨h.letter _ _ _ (hletter d (.head _)),
      ih (some d) e hrest fun c hc => hletter c (.tail _ hc)⟩

/-- Numbers that were written anew are not found again. -/
theorem findsNothing_of_rewritten (h : IsNumberRule recognise) {ds : List Char}
    (hsame : Rewritten recognise p cs ds) (hp : beginsWord p = beginsWord q) :
    FindsNothing recognise q ds := by
  induction hsame generalizing q with
  | nil => exact trivial
  | char hnone hrest ih =>
    exact ⟨h.ahead hp (numberAhead_respelled hrest.respelled) hnone, ih rfl⟩
  | @number previous c u v cs ds hc hu hv hvalue hends hagain hrest ih =>
    refine ⟨hagain _ _ (hrest.respelled.endsNumeral hends), h.findsNothing_numeral hv (ih ?_) _⟩
    rw [beginsWord_getLast? hu, beginsWord_getLast? hv]

theorem findsNothing_replaceAll (h : IsNumberRule recognise) (code : List Char) :
    FindsNothing recognise none (replaceAll recognise code) :=
  h.findsNothing_of_rewritten (h.rewritten_replaceAll code) rfl

/-- What is behind the end of a code does not matter. -/
theorem findsNothing_of_append (h : IsNumberRule recognise) {rest : List Char}
    (hrest : EndsCode rest) (hcs : FindsNothing recognise p (cs ++ rest)) :
    FindsNothing recognise p cs := by
  induction cs generalizing p with
  | nil => exact trivial
  | cons c cs ih => exact ⟨h.ahead rfl (numberAhead_append hrest cs) hcs.1, ih hcs.2⟩

theorem findsNothing_congr (h : IsNumberRule recognise) (hp : beginsWord p = beginsWord q)
    (hcs : FindsNothing recognise p cs) : FindsNothing recognise q cs := by
  cases cs with
  | nil => exact trivial
  | cons c cs => exact ⟨h.ahead hp rfl hcs.1, hcs.2⟩

theorem beginsWord_of_isBlank {c : Char} (h : isBlank c = true) : beginsWord (some c) = true := by
  have hletter := isWordLetter_of_isBlank h
  simp only [Block.isWordLetter, Bool.or_eq_false_iff] at hletter
  simp [beginsWord, hletter.1.1]

/-- Nor do blanks in front of it. -/
theorem findsNothing_of_blank_append (h : IsNumberRule recognise) {as : List Char}
    (has : ∀ c ∈ as, isBlank c = true) (hp : beginsWord p = true)
    (hcs : FindsNothing recognise p (as ++ cs)) : FindsNothing recognise none cs := by
  induction as generalizing p with
  | nil => exact h.findsNothing_congr hp hcs
  | cons a as ih =>
    exact ih (fun c hc => has c (.tail _ hc)) (beginsWord_of_isBlank (has a (.head _))) hcs.2

end IsNumberRule

/-! ## The two rules for numbers -/

theorem takeWhile_zeros_append {cs : List Char} (n : Nat) (hcs : cs.head? ≠ some '0') :
    (List.replicate n '0' ++ cs).takeWhile (· == '0') = List.replicate n '0' := by
  have hall : ∀ x ∈ List.replicate n '0', (x == '0') = true := by
    intro x hx
    simp [List.eq_of_mem_replicate hx]
  rw [List.takeWhile_append_of_pos hall]
  cases cs with
  | nil => simp
  | cons x cs =>
    have hx : x ≠ '0' := by simpa using hcs
    simp [hx]

/-- A row of zeros and one more digit is found, whatever digit it is. -/
theorem recogniseLeadingZeros_row {previous : Option Char} {c d : Char} {after : List Char}
    {zeros : Nat} (hbegins : beginsWord previous = true) (hletter : c = 'G' ∨ c = 'M')
    (hd : isDigit d = true) (hwhole : endsWhole after = true) :
    recogniseLeadingZeros previous (c :: (List.replicate (zeros + 1) '0' ++ d :: after)) =
      some ([c, d], zeros + 3) := by
  have hafter := noDigitHead_of_endsWhole hwhole
  have hguard : (beginsWord previous && (decide (c = 'G') || decide (c = 'M'))) = true := by
    simpa [hbegins] using hletter
  by_cases hdzero : d = '0'
  · -- the last digit is a zero as well, and what follows it is no digit
    subst hdzero
    have hhead : after.head? ≠ some '0' := by
      intro hhead
      have := hafter '0' hhead
      rw [hd] at this
      cases this
    rw [← replicate_zeros_succ]
    simp only [recogniseLeadingZeros, hguard, if_true, takeWhile_zeros_append _ hhead,
      List.length_replicate]
    cases after with
    | nil => simp
    | cons e after => simp [hafter e rfl, hwhole]
  · have hhead : (d :: after).head? ≠ some '0' := by simpa using hdzero
    simp only [recogniseLeadingZeros, hguard, if_true, takeWhile_zeros_append _ hhead,
      List.length_replicate]
    simp [hd, hwhole]

theorem recogniseLeadingZeros_eq_some {previous : Option Char} {c : Char} {rest new : List Char}
    {n : Nat} : recogniseLeadingZeros previous (c :: rest) = some (new, n) ↔
      beginsWord previous = true ∧ (c = 'G' ∨ c = 'M') ∧ ∃ zeros d after,
        rest = List.replicate (zeros + 1) '0' ++ d :: after ∧ isDigit d = true ∧
          endsWhole after = true ∧ new = [c, d] ∧ n = zeros + 3 := by
  refine ⟨leadingZeros_of_recognise, ?_⟩
  rintro ⟨hbegins, hletter, zeros, d, after, rfl, hd, hwhole, rfl, rfl⟩
  exact recogniseLeadingZeros_row hbegins hletter hd hwhole

/-- Zeros in front are found by the number ahead. -/
theorem isSome_recogniseLeadingZeros {previous : Option Char} {c : Char} {rest : List Char} :
    (recogniseLeadingZeros previous (c :: rest)).isSome = true ↔
      beginsWord previous = true ∧ (c = 'G' ∨ c = 'M') ∧ ∃ zeros d,
        numberAhead rest = ([], List.replicate (zeros + 1) '0' ++ [d], true) := by
  rw [Option.isSome_iff_exists]
  simp only [Prod.exists, recogniseLeadingZeros_eq_some]
  constructor
  · rintro ⟨new, n, hbegins, hletter, zeros, d, after, rfl, hd, hwhole, -⟩
    refine ⟨hbegins, hletter, zeros, d, ?_⟩
    have h := numberAhead_digits (.inl rfl) (by simp) (isDigit_of_mem_row (n := zeros + 1) hd)
      (noDigitHead_of_endsWhole hwhole)
    simpa [hwhole] using h
  · rintro ⟨hbegins, hletter, zeros, d, hahead⟩
    obtain ⟨after, rfl, -, hdigits, -, hwhole⟩ := numberAhead_spec hahead
    exact ⟨_, _, hbegins, hletter, zeros, d, after, by simp, hdigits d (by simp), hwhole, rfl, rfl⟩

theorem isNumberRule_leadingZeros : IsNumberRule recogniseLeadingZeros where
  found previous cs new n h := by
    cases cs with
    | nil => cases h
    | cons c rest =>
      obtain ⟨-, hletter, zeros, d, after, rfl, hd, hwhole, rfl, rfl⟩ :=
        recogniseLeadingZeros_eq_some.1 h
      have hdigits := isDigit_of_mem_row (n := zeros + 1) hd
      have hone : ∀ x ∈ [d], isDigit x = true := fun x hx => by rwa [List.mem_singleton.1 hx]
      have hends := endsNumeral_of_endsWhole hwhole endsNumeral_nil
      rw [List.append_nil] at hends
      refine ⟨c, List.replicate (zeros + 1) '0' ++ [d], [d], after, by simp, rfl, by simp,
        by rcases hletter with rfl | rfl <;> decide, isNumeral_digits (by simp) hdigits,
        isNumeral_digits (by simp) hone, ?_, hends, fun p ys hys => ?_⟩
      · rw [numeralValue_digits hdigits, numeralValue_digits hone, digitsValue_zeros]
      · rw [← Option.not_isSome_iff_eq_none, isSome_recogniseLeadingZeros]
        rintro ⟨-, -, zeros', d', hahead⟩
        have h := numberAhead_digits (.inl rfl) (by simp) hone hys.1
        rw [List.nil_append, hahead] at h
        have hlength := congrArg (fun x => x.2.1.length) h
        simp at hlength
  letter previous c cs hc := by
    rw [← Option.not_isSome_iff_eq_none, isSome_recogniseLeadingZeros]
    rintro ⟨-, rfl | rfl, -⟩ <;> exact hc (by decide)
  ahead hp hsame h := by
    rw [← Option.not_isSome_iff_eq_none, isSome_recogniseLeadingZeros] at h ⊢
    rwa [← hp, ← hsame]

theorem recogniseWholeLength_eq_some {previous : Option Char} {c : Char} {rest new : List Char}
    {n : Nat} : recogniseWholeLength previous (c :: rest) = some (new, n) ↔
      beginsWord previous = true ∧ c ∈ lengthLetters ∧ ∃ sign digits,
        numberAhead rest = (sign, digits, true) ∧ digits ≠ [] ∧
          new = c :: (sign ++ (digits ++ ['.'])) ∧ n = (sign ++ digits).length + 1 := by
  simp only [recogniseWholeLength, numberAhead]
  constructor
  · intro h
    split at h
    · rename_i hletter
      split at h
      · rename_i hends
        simp only [Bool.and_eq_true, List.contains_iff_mem, Bool.not_eq_true',
          List.isEmpty_eq_false_iff] at hletter hends
        cases h
        refine ⟨hletter.1, hletter.2, _, _, by rw [hends.2], hends.1, by simp, ?_⟩
        rw [List.length_append]
        omega
      · cases h
    · cases h
  · rintro ⟨hbegins, hletter, sign, digits, hahead, hne, rfl, rfl⟩
    simp only [Prod.mk.injEq] at hahead
    obtain ⟨rfl, rfl, hwhole⟩ := hahead
    rw [if_pos (by simp [hbegins, hletter]), if_pos (by simp [hwhole, hne])]
    simp only [List.length_append, Option.some.injEq, Prod.mk.injEq, List.append_assoc,
      List.cons_append]
    exact ⟨trivial, by omega⟩

theorem isSome_recogniseWholeLength {previous : Option Char} {c : Char} {rest : List Char} :
    (recogniseWholeLength previous (c :: rest)).isSome = true ↔
      beginsWord previous = true ∧ c ∈ lengthLetters ∧
        (numberAhead rest).2.1 ≠ [] ∧ (numberAhead rest).2.2 = true := by
  rw [Option.isSome_iff_exists]
  simp only [Prod.exists, recogniseWholeLength_eq_some]
  constructor
  · rintro ⟨new, n, hbegins, hletter, sign, digits, hahead, hne, -⟩
    rw [hahead]
    exact ⟨hbegins, hletter, hne, rfl⟩
  · rintro ⟨hbegins, hletter, hne, hwhole⟩
    exact ⟨_, _, hbegins, hletter, _, _, by rw [← hwhole], hne, rfl, rfl⟩

theorem isNumberRule_wholeLength : IsNumberRule recogniseWholeLength where
  found previous cs new n h := by
    cases cs with
    | nil => cases h
    | cons c rest =>
      obtain ⟨-, hletter, sign, digits, hahead, hne, rfl, rfl⟩ := recogniseWholeLength_eq_some.1 h
      obtain ⟨after, rfl, hsign, hdigits, -, hwhole⟩ := numberAhead_spec hahead
      obtain ⟨hvalue, hu, hv⟩ := numeralValue_sign hsign hdigits hne
      have hends := endsNumeral_of_endsWhole hwhole endsNumeral_nil
      rw [List.append_nil] at hends
      refine ⟨c, sign ++ digits, sign ++ (digits ++ ['.']), after, by simp, rfl, rfl,
        .tail _ (.tail _ hletter), hu, hv, hvalue.symm, hends, fun p ys hys => ?_⟩
      rw [← Option.not_isSome_iff_eq_none, isSome_recogniseWholeLength]
      have hpoint : NoDigitHead ('.' :: ys) := by simp [NoDigitHead]; decide
      have hagain := numberAhead_digits hsign hne hdigits hpoint
      have hnot : endsWhole ('.' :: ys) = false := by simp [endsWhole]
      rintro ⟨-, -, -, hwhole'⟩
      simp only [List.append_assoc, List.singleton_append] at hwhole'
      rw [hagain, hnot] at hwhole'
      cases hwhole'
  letter previous c cs hc := by
    rw [← Option.not_isSome_iff_eq_none, isSome_recogniseWholeLength]
    rintro ⟨-, hletter, -⟩
    exact hc (.tail _ (.tail _ hletter))
  ahead hp hsame h := by
    rw [← Option.not_isSome_iff_eq_none, isSome_recogniseWholeLength] at h ⊢
    rwa [← hp, ← hsame]

/-! ## Gaps -/

/-- A text with one blank for each gap. -/
inductive Gapped : List Char → List Char → Prop where
  | nil : Gapped [] []
  | char {c : Char} {cs ds : List Char} : isGap c = false → Gapped cs ds →
      Gapped (c :: cs) (c :: ds)
  | gap {as cs ds : List Char} : as ≠ [] → (∀ a ∈ as, isGap a = true) →
      (∀ c ∈ cs.head?, isGap c = false) → Gapped cs ds → Gapped (as ++ cs) (' ' :: ds)

theorem gapped_replaceGaps (code : List Char) : Gapped code (replaceAll (recogniseGap 1) code) := by
  induction hn : code.length using Nat.strongRecOn generalizing code with
  | ind n ih =>
    subst hn
    cases code with
    | nil => exact .nil
    | cons c cs =>
      cases hc : isGap c with
      | false =>
        rw [replaceGaps_cons_of_not hc]
        exact .char hc (ih cs.length (by simp) cs rfl)
      | true =>
        have hsplit : c :: cs = (c :: cs.takeWhile isGap) ++ cs.dropWhile isGap := by
          rw [List.cons_append, List.takeWhile_append_dropWhile]
        have hle := (List.dropWhile_sublist isGap (l := cs)).length_le
        have hrest := ih (cs.dropWhile isGap).length (by rw [List.length_cons]; omega) _ rfl
        rw [replaceGaps_cons_of_gap hc]
        conv => lhs; rw [hsplit]
        refine .gap (List.cons_ne_nil _ _) (fun a ha => ?_) (fun d hd => ?_) hrest
        · rcases List.mem_cons.1 ha with rfl | ha
          · exact hc
          · exact List.all_eq_true.1 List.all_takeWhile a ha
        · have := List.head?_dropWhile_not isGap cs
          rw [hd] at this
          simpa using this

namespace Gapped

variable {cs ds : List Char}

theorem sameMarks (h : Gapped cs ds) : SameMarks cs ds := by
  have hplain : ∀ {as : List Char}, (∀ a ∈ as, isGap a = true) → Plain as := by
    intro as has a ha
    have hgap := has a ha
    simp only [isGap, Bool.or_eq_true, decide_eq_true_eq] at hgap
    rcases hgap with rfl | rfl <;> decide
  induction h with
  | nil => exact .nil
  | char _ _ ih => exact .char _ ih
  | gap hne has _ _ ih =>
    exact .row hne (List.cons_ne_nil ' ' []) (hplain has) (hplain (by simp; decide)) ih

theorem respelled (h : Gapped cs ds) : Respelled cs ds := by
  induction h with
  | nil => exact .refl []
  | char _ _ ih => exact .char _ ih
  | gap hne has _ _ ih =>
    exact .gap hne (List.cons_ne_nil ' ' []) (fun a ha => isGap_spec (has a ha))
      (by simp [Blanks]; decide) ih

theorem hasSingleBlanks (h : Gapped cs ds) : HasSingleBlanks ds := by
  induction h with
  | nil => exact ⟨.nil, by simp⟩
  | char hc _ ih => exact hasSingleBlanks_cons.2 ⟨fun hgap => by simp [hc] at hgap, ih⟩
  | gap _ _ hhead hrest ih =>
    refine hasSingleBlanks_cons.2 ⟨fun _ => ⟨rfl, ?_⟩, ih⟩
    -- the text goes on as it did behind the gap
    cases hrest with
    | nil => simp
    | char hc _ => simpa using hc
    | gap hne has _ _ =>
      obtain ⟨a, as, rfl⟩ := List.exists_cons_of_ne_nil hne
      have hnot := hhead a (by simp)
      rw [has a (.head _)] at hnot
      cases hnot

/-- What is not found in a text is not found with its gaps written anew. -/
theorem findsNothing {recognise : Recogniser (List Char)} (hrule : IsNumberRule recognise)
    {p q : Option Char} (h : Gapped cs ds) (hp : beginsWord p = beginsWord q)
    (hcs : FindsNothing recognise p cs) : FindsNothing recognise q ds := by
  have hblank : ' ' ∉ respelledLetters := by decide
  induction h generalizing p q with
  | nil => exact trivial
  | char _ hrest ih =>
    exact ⟨hrule.ahead hp (numberAhead_respelled hrest.respelled) hcs.1, ih rfl hcs.2⟩
  | @gap as cs ds hne has _ _ ih =>
    obtain ⟨a, as, rfl⟩ := List.exists_cons_of_ne_nil hne
    have hblanks : ∀ c ∈ a :: as, isBlank c = true := fun c hc => (isGap_spec (has c hc)).1
    have hafter := hrule.findsNothing_of_blank_append (fun c hc => hblanks c (.tail _ hc))
      (IsNumberRule.beginsWord_of_isBlank (hblanks a (.head _))) hcs.2
    exact ⟨hrule.letter _ _ _ hblank, ih (by decide) hafter⟩

end Gapped

/-! ## Lines -/

theorem sameMarks_pointLengths (code : List Char) : SameMarks code (pointLengths code) :=
  (isNumberRule_wholeLength.rewritten_replaceAll code).sameMarks

/-- The parts of a line with its codes compacted. -/
theorem ofChars_compact (cs : List Char) :
    CommentedLine.ofChars ((CommentedLine.ofChars cs).mapCode compact) =
      (CommentedLine.ofChars cs).withCode compact :=
  CommentedLine.ofChars_mapCode_comp
    (fun code => (isNumberRule_leadingZeros.rewritten_replaceAll code).sameMarks)
    (fun code => (gapped_replaceGaps code).sameMarks) cs

theorem hasSingleBlanks_of_infix {code cs : List Char} (hcode : code <:+: cs)
    (h : HasSingleBlanks cs) : HasSingleBlanks code where
  apart := List.IsChain.infix h.apart hcode
  noTab hmem := h.noTab (hcode.subset hmem)

/-- A compacted line has nothing left to compact. -/
theorem isCompact_compactLine (line : String) : IsCompact (compactLine line) := by
  have hrule := isNumberRule_leadingZeros
  have hchars : (compactLine line).toList =
      trim ((CommentedLine.ofChars line.toList).mapCode compact) := by
    rw [compactLine, trimmed, String.toList_ofList, mapCodeText, String.toList_ofList]
  have hcodes : ∀ code ∈ (CommentedLine.ofChars (compactLine line).toList).codes,
      FindsNothing recogniseLeadingZeros none code ∧ HasSingleBlanks code := by
    rw [hchars]
    refine CommentedLine.forall_codes_trim ?_ ?_ ?_ ?_
    · rintro as code has ⟨hnone, hgaps⟩
      exact ⟨hrule.findsNothing_of_blank_append has rfl hnone,
        hasSingleBlanks_of_infix (List.suffix_append as code).isInfix hgaps⟩
    · rintro code rest hrest ⟨hnone, hgaps⟩
      exact ⟨hrule.findsNothing_of_append hrest hnone,
        hasSingleBlanks_of_infix (List.prefix_append code rest).isInfix hgaps⟩
    · exact ⟨⟨by decide, trivial⟩, ⟨.singleton _, by decide⟩⟩
    · intro code hcode
      rw [ofChars_compact, CommentedLine.codes_withCode] at hcode
      obtain ⟨code, -, rfl⟩ := List.mem_map.1 hcode
      have hgapped := gapped_replaceGaps (replaceAll recogniseLeadingZeros code)
      exact ⟨hgapped.findsNothing hrule rfl (hrule.findsNothing_replaceAll code),
        hgapped.hasSingleBlanks⟩
  constructor
  · intro code hcode
    obtain ⟨hnone, hgaps⟩ := hcodes code hcode
    exact ⟨findsNothing_iff.1 hnone, hgaps⟩
  · rw [hchars, CommentedLine.trim_trim]

/-- A line with its points has no whole length left. -/
theorem hasPoints_pointLine (line : String) : HasPoints (pointLine line) := by
  intro code hcode
  rw [pointLine, mapCodeText, String.toList_ofList,
    CommentedLine.ofChars_mapCode sameMarks_pointLengths, CommentedLine.codes_withCode] at hcode
  obtain ⟨code, -, rfl⟩ := List.mem_map.1 hcode
  exact findsNothing_iff.1 (isNumberRule_wholeLength.findsNothing_replaceAll code)

theorem compactCode_compactCode (ls : Lines) : compactCode (compactCode ls) = compactCode ls := by
  refine compactCode_eq_self_iff.2 fun l hl => ?_
  obtain ⟨line, -, rfl⟩ := List.mem_map.1 hl
  exact isCompact_compactLine line

theorem decimalFormat_decimalFormat (ls : Lines) :
    decimalFormat (decimalFormat ls) = decimalFormat ls := by
  refine decimalFormat_eq_self_iff.2 fun l hl => ?_
  obtain ⟨line, -, rfl⟩ := List.mem_map.1 hl
  exact hasPoints_pointLine line

end Rule

/-! ## Blocks -/

namespace Block

/-- What a block tells a reader: what it says to the machine, and the text of its comments. -/
def told (b : Block) :
    (Option Nat × Option (Char × Float) × List (Char × Float)) × Option String :=
  (b.said, b.comment)

theorem told_read? {l : String} (hfeed : '\n' ∉ l.toList) (n : Int) :
    (read? l n).map told =
      ((read? l n).map said).map fun said => (said, (CommentedLine.ofChars l.toList).remark?) := by
  have hremark : (CommentedLine.ofChars (dropLineEnd l.toList)).remark? =
      (CommentedLine.ofChars l.toList).remark? := by
    rw [CommentedLine.remark?, CommentedLine.remark?, CommentedLine.remarks_dropLineEnd hfeed]
  rw [← hremark, Option.map_map, read?, Option.map_map, Option.map_map]
  rfl

/-- Lines with the same comments that say the same to the machine tell the same. -/
theorem told_read?_congr {l m : String} (hl : '\n' ∉ l.toList) (hm : '\n' ∉ m.toList) {n : Int}
    (hsaid : (read? l n).map said = (read? m n).map said)
    (hremarks : (CommentedLine.ofChars l.toList).remarks = (CommentedLine.ofChars m.toList).remarks) :
    (read? l n).map told = (read? m n).map told := by
  rw [told_read? hl, told_read? hm, hsaid, CommentedLine.remark?, CommentedLine.remark?, hremarks]

end Block

namespace Rule

theorem told_compactLine {l : String} (hfeed : '\n' ∉ l.toList) (n : Int) :
    (Block.read? (compactLine l) n).map Block.told = (Block.read? l n).map Block.told := by
  obtain ⟨hline, hsaid⟩ := read?_compactLine hfeed n
  refine Block.told_read?_congr hline hfeed hsaid ?_
  have hzeros := respelled_zerosLine (CommentedLine.ofChars l.toList)
  rw [CommentedLine.mapCode_ofChars] at hzeros
  have hcodes : '\n' ∉ (CommentedLine.ofChars l.toList).mapCode compact :=
    fun hmem => hfeed (hzeros.feed_mem.2 ((respelled_gapsLine _).feed_mem.2 hmem))
  rw [compactLine, trimmed, String.toList_ofList, mapCodeText, String.toList_ofList,
    CommentedLine.remarks_trim hcodes, ofChars_compact, CommentedLine.remarks_withCode]

theorem told_pointLine {l : String} (hfeed : '\n' ∉ l.toList) (n : Int) :
    (Block.read? (pointLine l) n).map Block.told = (Block.read? l n).map Block.told := by
  obtain ⟨hline, hsaid⟩ := read?_pointLine hfeed n
  refine Block.told_read?_congr hline hfeed hsaid ?_
  rw [pointLine, mapCodeText, String.toList_ofList,
    CommentedLine.ofChars_mapCode sameMarks_pointLengths, CommentedLine.remarks_withCode]

/-- A rule changes the spelling of lines alone: a control reads a block from a line of its outcome
exactly where it read one before, with the same block number, corner, words and comment, and there
is nothing left for a second run to change. -/
structure OnlySpells (rule : Lines → Lines) : Prop where
  told : ∀ ls : Lines, (∀ l ∈ ls, '\n' ∉ l.toList) → ∀ n : Int,
    (rule ls).map (fun l => (Block.read? l n).map Block.told) =
      ls.map fun l => (Block.read? l n).map Block.told
  once : ∀ ls : Lines, rule (rule ls) = rule ls

/-- Compact codes and points after whole lengths change nothing that a program says. -/
theorem onlySpells_compactCode_decimalFormat :
    OnlySpells compactCode ∧ OnlySpells decimalFormat := by
  refine ⟨⟨fun ls hfeed n => ?_, compactCode_compactCode⟩,
    ⟨fun ls hfeed n => ?_, decimalFormat_decimalFormat⟩⟩
  · rw [compactCode, List.map_map]
    refine List.map_congr_left fun l hl => ?_
    rw [Function.comp_apply, told_compactLine (hfeed l hl)]
  · rw [decimalFormat, List.map_map]
    refine List.map_congr_left fun l hl => ?_
    rw [Function.comp_apply, told_pointLine (hfeed l hl)]

example : compactCode ["G01  X10 (A  B)", "M000 ; G01"] = ["G1 X10 (A  B)", "M0 ; G01"] ∧
    decimalFormat ["G01 X10 Y-5", "X5 (X5)"] = ["G01 X10. Y-5.", "X5. (X5)"] := by decide +kernel

end Rule

end PartProgram

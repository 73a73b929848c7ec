import PartProgram.Block
import PartProgram.Proofs.Result

/-!
# PartProgram.Proofs.Numerals

The form of numerals. A numeral is a sign, if there is one, and digits with a point before, among or
after them; what is read as a numeral has this form, and a numeral is read whole wherever it is not
followed by more of the same.

* `numeral?_spec`: what `numeral?` finds is a numeral and stands at the head of the text.
* `IsNumeral.read`: a numeral is found whole.
-/

namespace PartProgram

open Text Number

/-! ## Digits -/

/-- A digit is one of ASCII, or one of the ten from the zero of its script on. -/
theorem isDigit_cases {c : Char} (h : isDigit c = true) :
    (48 ≤ c.toNat ∧ c.toNat ≤ 57) ∨
      128 ≤ c.toNat ∧ ∃ first ∈ zeroDigits, first ≤ c.toNat ∧ c.toNat < first + 10 := by
  simp only [isDigit, digit?] at h
  by_cases hsmall : c.toNat < 128
  · simp only [hsmall, if_true] at h
    by_cases hdigit : ('0' ≤ c && c ≤ '9') = true
    · simp only [Bool.and_eq_true, decide_eq_true_eq, Char.le_def, UInt32.le_iff_toNat_le] at hdigit
      exact .inl hdigit
    · simp [hdigit] at h
  · simp only [hsmall, if_false, Option.isSome_map] at h
    obtain ⟨first, hfirst⟩ := Option.isSome_iff_exists.1 h
    have hrange := List.find?_some hfirst
    simp only [Bool.and_eq_true, decide_eq_true_eq] at hrange
    exact .inr ⟨by omega, first, List.mem_of_find?_eq_some hfirst, hrange⟩

/-- What can be checked for every digit of every script holds of all digits. -/
theorem forall_digit {P : Char → Prop} (hascii : ∀ i < 10, P (Char.ofNat (48 + i)))
    (hother : ∀ first ∈ zeroDigits, ∀ i < 10, P (Char.ofNat (first + i))) {c : Char}
    (h : isDigit c = true) : P c := by
  have hof : ∀ n, c.toNat = n → c = Char.ofNat n := by
    rintro n rfl
    exact (Char.ofNat_toNat c).symm
  rcases isDigit_cases h with ⟨hlow, hhigh⟩ | ⟨-, first, hfirst, hlow, hhigh⟩
  · rw [hof (48 + (c.toNat - 48)) (by omega)]
    exact hascii _ (by omega)
  · rw [hof (first + (c.toNat - first)) (by omega)]
    exact hother first hfirst _ (by omega)

theorem isSign_of_isDigit {c : Char} (h : isDigit c = true) : isSign c = false :=
  forall_digit (P := fun c => isSign c = false) (by decide +kernel) (by decide +kernel) h

theorem isBlank_of_isDigit {c : Char} (h : isDigit c = true) : isBlank c = false :=
  forall_digit (P := fun c => isBlank c = false) (by decide +kernel) (by decide +kernel) h

/-- Letters with another upper case stand apart from the digits. -/
theorem upperChar_of_isDigit {c : Char} (h : isDigit c = true) : upperChar c = [c] := by
  have hexpansions : expansions.all (fun e => zeroDigits.all fun first =>
      decide (e.1 < first) || decide (first + 10 ≤ e.1)) = true := by decide +kernel
  have hruns : caseRuns.all (fun r => zeroDigits.all fun first =>
      decide (r.last < first) || decide (first + 10 ≤ r.first)) = true := by decide +kernel
  simp only [List.all_eq_true, Bool.or_eq_true, decide_eq_true_eq] at hexpansions hruns
  rcases isDigit_cases h with ⟨hlow, hhigh⟩ | ⟨hlarge, first, hfirst, hlow, hhigh⟩
  · have hascii : ∀ i < 10, upperChar (Char.ofNat (48 + i)) = [Char.ofNat (48 + i)] := by
      decide +kernel
    have hc : Char.ofNat (48 + (c.toNat - 48)) = c := by
      rw [Nat.add_sub_cancel' hlow, Char.ofNat_toNat]
    rw [← hc]
    exact hascii _ (by omega)
  · have hlookup : expansions.lookup c.toNat = none := by
      rw [List.lookup_eq_none_iff]
      intro e he
      have := hexpansions e he first hfirst
      simp only [bne_iff_ne, ne_eq]
      omega
    have hfind : caseRuns.find? (·.covers c.toNat) = none := by
      rw [List.find?_eq_none]
      intro r hr
      have := hruns r hr first hfirst
      simp only [CaseRun.covers, Bool.and_eq_true, decide_eq_true_eq, not_and]
      omega
    simp only [upperChar, hlookup, hfind, if_neg (by omega : ¬ c.toNat < 128)]

theorem ne_of_isDigit {c d : Char} (h : isDigit c = true) (hd : isDigit d = false) : c ≠ d := by
  rintro rfl
  rw [h] at hd
  cases hd

/-! ## Rows of digits -/

/-- No digit stands at the head of the text. -/
def NoDigitHead (rest : List Char) : Prop := ∀ c ∈ rest.head?, isDigit c = false

theorem spanDigits_append {ds rest : List Char} (hds : ∀ c ∈ ds, isDigit c = true)
    (hrest : NoDigitHead rest) : spanDigits (ds ++ rest) = (ds, rest) := by
  have htake : rest.takeWhile isDigit = [] := by
    cases rest with
    | nil => rfl
    | cons c rest => simp [hrest c rfl]
  have hdrop : rest.dropWhile isDigit = rest := by
    cases rest with
    | nil => rfl
    | cons c rest => simp [hrest c rfl]
  simp [spanDigits, List.takeWhile_append_of_pos hds, List.dropWhile_append_of_pos hds, htake,
    hdrop]

theorem spanDigits_of_digits {ds : List Char} (h : ∀ c ∈ ds, isDigit c = true) :
    spanDigits ds = (ds, []) := by
  have := spanDigits_append h (by simp [NoDigitHead] : NoDigitHead [])
  rwa [List.append_nil] at this

theorem spanDigits_of_noDigitHead {cs : List Char} (h : NoDigitHead cs) :
    spanDigits cs = ([], cs) :=
  spanDigits_append (by simp : ∀ c ∈ ([] : List Char), isDigit c = true) h

theorem spanDigits_spec (cs : List Char) :
    cs = (spanDigits cs).1 ++ (spanDigits cs).2 ∧ (∀ c ∈ (spanDigits cs).1, isDigit c = true) ∧
      NoDigitHead (spanDigits cs).2 := by
  simp only [spanDigits]
  refine ⟨List.takeWhile_append_dropWhile.symm, fun c hc => ?_, fun c hc => ?_⟩
  · have := List.all_takeWhile (l := cs) (p := isDigit)
    exact List.all_eq_true.1 this c hc
  · have := List.head?_dropWhile_not isDigit cs
    rw [Option.mem_def] at hc
    rw [hc] at this
    simpa using this

/-! ## Counts -/

theorem digit?_of_isDigit {c : Char} (h : c.isDigit = true) : digit? c = some (c.toNat - 48) := by
  simp only [Char.isDigit, Bool.and_eq_true, decide_eq_true_eq, ge_iff_le, UInt32.le_iff_toNat_le]
    at h
  have hlow : 48 ≤ c.toNat := h.1
  have hhigh : c.toNat ≤ 57 := h.2
  have hascii : ('0' ≤ c && c ≤ '9') = true := by
    simp only [Bool.and_eq_true, decide_eq_true_eq, Char.le_def, UInt32.le_iff_toNat_le]
    exact ⟨hlow, hhigh⟩
  have hsmall : c.toNat < 128 := by omega
  simp only [digit?, hsmall, if_true, hascii]
  rfl

theorem isDigit_of_mem_toString {n : Nat} {c : Char} (h : c ∈ (toString n).toList) :
    isDigit c = true := by
  rw [Nat.toString_eq_repr, Nat.toList_repr] at h
  rw [isDigit, digit?_of_isDigit (Nat.isDigit_of_mem_toDigits (by omega) (by omega) h)]
  rfl

theorem toList_toString_ne_nil (n : Nat) : (toString n).toList ≠ [] := by
  rw [Nat.toString_eq_repr, Nat.toList_repr]
  exact Nat.toDigits_ne_nil

/-- A count is written in digits that stand for it. -/
theorem digitsValue_toString (n : Nat) : digitsValue (toString n).toList = n := by
  have hfold : ∀ (cs : List Char), (∀ c ∈ cs, c.isDigit = true) → ∀ value,
      cs.foldl (fun value c => 10 * value + (digit? c).getD 0) value =
        Nat.ofDigitChars 10 cs value := by
    intro cs
    induction cs with
    | nil => intro _ value; rfl
    | cons c cs ih =>
      intro hcs value
      rw [List.foldl_cons, digit?_of_isDigit (hcs c (.head _)),
        ih fun c' hc' => hcs c' (.tail _ hc')]
      rfl
  rw [digitsValue, Nat.toString_eq_repr, Nat.toList_repr, hfold _ fun c hc =>
    Nat.isDigit_of_mem_toDigits (by omega) (by omega) hc]
  exact Nat.ofDigitChars_ten_toDigits

/-! ## Numerals -/

/-- Digits, with or without a point. -/
inductive IsMagnitude : List Char → Prop where
  | whole {ds : List Char} : ds ≠ [] → (∀ c ∈ ds, isDigit c = true) → IsMagnitude ds
  | pointed {ds ps : List Char} : ¬ (ds = [] ∧ ps = []) → (∀ c ∈ ds, isDigit c = true) →
      (∀ c ∈ ps, isDigit c = true) → IsMagnitude (ds ++ '.' :: ps)

/-- Digits after a sign, or without one. -/
inductive IsNumeral : List Char → Prop where
  | plain {cs : List Char} : IsMagnitude cs → IsNumeral cs
  | signed {s : Char} {cs : List Char} : isSign s = true → IsMagnitude cs → IsNumeral (s :: cs)

/-- What follows a numeral does not go on with it. -/
def EndsNumeral (rest : List Char) : Prop := NoDigitHead rest ∧ rest.head? ≠ some '.'

theorem endsNumeral_nil : EndsNumeral [] := ⟨by simp [NoDigitHead], by simp⟩

theorem endsNumeral_cons {c : Char} {rest : List Char} (hc : isDigit c = false) (hpoint : c ≠ '.') :
    EndsNumeral (c :: rest) := ⟨by simp [NoDigitHead, hc], by simp [hpoint]⟩

/-- Without a point a number is a row of digits. -/
theorem magnitude?_of_no_point {cs : List Char} (h : ∀ after, (spanDigits cs).2 ≠ '.' :: after) :
    magnitude? cs = if (spanDigits cs).1.isEmpty then none else some (spanDigits cs) := by
  simp only [magnitude?]

theorem magnitude?_spec {cs t rest : List Char} (h : magnitude? cs = some (t, rest)) :
    cs = t ++ rest ∧ IsMagnitude t := by
  simp only [magnitude?] at h
  obtain ⟨happend, hds, -⟩ := spanDigits_spec cs
  split at h
  · rename_i after hafter
    obtain ⟨happend', hps, -⟩ := spanDigits_spec after
    split at h
    · cases h
    · rename_i hsome
      simp only [Option.some.injEq, Prod.mk.injEq] at h
      obtain ⟨rfl, rfl⟩ := h
      refine ⟨?_, .pointed (by simpa using hsome) hds hps⟩
      rw [List.append_assoc, List.cons_append, ← happend', ← hafter, ← happend]
  · split at h
    · cases h
    · rename_i hsome
      simp only [Option.some.injEq, Prod.mk.injEq] at h
      obtain ⟨rfl, rfl⟩ := h
      exact ⟨happend, .whole (by simpa using hsome) hds⟩

theorem IsMagnitude.read {t rest : List Char} (h : IsMagnitude t) (hrest : EndsNumeral rest) :
    magnitude? (t ++ rest) = some (t, rest) := by
  cases h with
  | whole hsome hds =>
    simp only [magnitude?, spanDigits_append hds hrest.1]
    split
    · exact absurd rfl hrest.2
    · simp [hsome]
  | @pointed ds ps hsome hds hps =>
    have hpoint : NoDigitHead ('.' :: (ps ++ rest)) := by simp [NoDigitHead]; decide
    rw [List.append_assoc, List.cons_append]
    simp only [magnitude?, spanDigits_append hds hpoint, spanDigits_append hps hrest.1]
    have hsome' : (ds.isEmpty && ps.isEmpty) = false := by
      cases ds <;> cases ps <;> simp_all
    simp [hsome']

theorem IsMagnitude.head {t : List Char} (h : IsMagnitude t) :
    ∃ c cs, t = c :: cs ∧ (isDigit c = true ∨ c = '.') := by
  cases h with
  | @whole ds hsome hds =>
    cases t with
    | nil => exact absurd rfl hsome
    | cons c cs => exact ⟨c, cs, rfl, .inl (hds c (.head _))⟩
  | @pointed ds ps hsome hds hps =>
    cases ds with
    | nil => exact ⟨'.', ps, rfl, .inr rfl⟩
    | cons c cs => exact ⟨c, _, rfl, .inl (hds c (.head _))⟩

theorem numeral?_spec {cs t rest : List Char} (h : numeral? cs = some (t, rest)) :
    cs = t ++ rest ∧ IsNumeral t := by
  cases cs with
  | nil => cases h
  | cons c cs =>
    simp only [numeral?] at h
    split at h
    · rename_i hsign
      simp only [Option.map_eq_some_iff, Prod.exists, Prod.mk.injEq] at h
      obtain ⟨t', rest', h, rfl, rfl⟩ := h
      obtain ⟨rfl, ht⟩ := magnitude?_spec h
      exact ⟨rfl, .signed hsign ht⟩
    · obtain ⟨happend, ht⟩ := magnitude?_spec h
      exact ⟨happend, .plain ht⟩

/-- A numeral is found whole where nothing goes on with it. -/
theorem IsNumeral.read {t rest : List Char} (h : IsNumeral t) (hrest : EndsNumeral rest) :
    numeral? (t ++ rest) = some (t, rest) := by
  cases h with
  | plain ht =>
    obtain ⟨c, cs, rfl, hc⟩ := ht.head
    have hsign : isSign c = false := by
      rcases hc with hc | rfl
      · exact isSign_of_isDigit hc
      · rfl
    have hread := ht.read hrest
    simp only [List.cons_append] at hread
    simp only [List.cons_append, numeral?, hsign]
    simpa using hread
  | signed hs ht => simp [numeral?, hs, ht.read hrest]

/-- The characters of a numeral. -/
theorem IsNumeral.chars {t : List Char} (h : IsNumeral t) :
    ∀ c ∈ t, isDigit c = true ∨ c = '.' ∨ isSign c = true := by
  have hmagnitude : ∀ {t}, IsMagnitude t → ∀ c ∈ t, isDigit c = true ∨ c = '.' := by
    intro t ht c hc
    cases ht with
    | whole _ hds => exact .inl (hds c hc)
    | pointed _ hds hps =>
      simp only [List.mem_append, List.mem_cons] at hc
      rcases hc with hc | hc | hc
      · exact .inl (hds c hc)
      · exact .inr hc
      · exact .inl (hps c hc)
  intro c hc
  cases h with
  | plain ht =>
    rcases hmagnitude ht c hc with h | h
    · exact .inl h
    · exact .inr (.inl h)
  | signed hs ht =>
    cases hc with
    | head => exact .inr (.inr hs)
    | tail _ hc =>
      rcases hmagnitude ht c hc with h | h
      · exact .inl h
      · exact .inr (.inl h)

/-- Digits, the point and signs. A number may go on behind one of them. -/
def isNumberChar (c : Char) : Bool := isDigit c || c = '.' || isSign c

theorem IsNumeral.isNumberChar {t : List Char} (h : IsNumeral t) :
    ∀ c ∈ t, isNumberChar c = true := by
  intro c hc
  rcases h.chars c hc with h | rfl | h
  · simp [PartProgram.isNumberChar, h]
  · decide
  · simp [PartProgram.isNumberChar, h]

theorem isNumberChar_eq_false {c : Char} :
    isNumberChar c = false ↔ isDigit c = false ∧ c ≠ '.' ∧ isSign c = false := by
  simp [isNumberChar, and_assoc]

theorem IsNumeral.ne_nil {t : List Char} (h : IsNumeral t) : t ≠ [] := by
  cases h with
  | plain ht =>
    obtain ⟨c, cs, rfl, -⟩ := ht.head
    simp
  | signed hs ht => simp

end PartProgram

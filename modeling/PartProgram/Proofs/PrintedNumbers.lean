import PartProgram.Proofs.Readback

/-!
# PartProgram.Proofs.PrintedNumbers

What a printed number denotes. The zeros at its end are dropped without a look at the point. With
places after the point they stand behind it, and the text denotes the value rounded to the places.
Without places they are digits of the whole number: a text then denotes the rounded value exactly if
there was no zero to drop, or nothing but a zero without a sign.

* `printedChars_whole`: what is printed without places.
* `printed_denotes_iff`: when a text denotes the rounded value, and how it ends.
-/

namespace PartProgram.Number

open Text

/-- The text is a numeral for the value as it is rounded to the places. -/
def Denotes (text : String) (places : Nat) (x : Float) : Prop :=
  ∃ r, reading? text.toList = some r ∧ RoundedTo places (exactValue x) r

/-- Behind a point stands something, and no zero at the end. -/
def IsTrimmed (cs : List Char) : Prop :=
  ∀ whole places, cs = whole ++ '.' :: places → places ≠ [] ∧ places.getLast? ≠ some '0'

/-- The whole number next to the value has zeros to lose at its end; a zero by itself is one if it
has a sign. -/
def LosesZeros (x : Float) : Prop :=
  ∃ n : ℤ, RoundedTo 0 (exactValue x) n ∧ 10 ∣ n ∧ (n = 0 → isNegative x = true)

variable {x : Float}

/-! ## Points -/

theorem isTrimmed_of_no_point {cs : List Char} (h : '.' ∉ cs) : IsTrimmed cs := by
  rintro whole places rfl
  exact absurd (by simp) h

theorem isTrimmed_decimal {sign whole places : List Char} (hsign : '.' ∉ sign)
    (hwhole : ∀ c ∈ whole, isDigit c = true) (hplaces : ∀ c ∈ places, isDigit c = true)
    (hlast : places.getLast? ≠ some '0') : IsTrimmed (sign ++ decimal whole places) := by
  have hnone {cs : List Char} (h : ∀ c ∈ cs, isDigit c = true) : '.' ∉ cs :=
    fun hmem => absurd (h _ hmem) (by decide)
  have hfront : '.' ∉ sign ++ whole := by simp [hsign, hnone hwhole]
  rw [decimal, ← List.append_assoc]
  split_ifs with hempty
  · rw [List.append_nil]
    exact isTrimmed_of_no_point hfront
  · intro whole' places' heq
    obtain ⟨-, -, rfl⟩ := (List.append_cons_inj_of_notMem hfront (hnone hplaces)).1 heq
    exact ⟨hempty, hlast⟩

/-! ## Whole numbers -/

/-- The digits of a positive count: what is left of them without the zeros at the end, and how
many these are. -/
theorem digitChars_eq {n : Nat} (hn : 0 < n) : ∃ kept k,
    digitChars n = kept ++ List.replicate k '0' ∧ kept ≠ [] ∧ (∀ c ∈ kept, isDigit c = true) ∧
      kept.getLast? ≠ some '0' ∧ digitsValue kept * 10 ^ k = n ∧ (10 ∣ n ↔ 0 < k) := by
  obtain ⟨kept, k, hsplit, hlast⟩ := exists_append_zeros (digitChars n)
  have hvalue : digitsValue kept * 10 ^ k = n := by
    rw [← digitsValue_append_zeros, ← hsplit]
    exact digitsValue_toString n
  have hmem {c : Char} (hc : c ∈ kept) : c ∈ digitChars n := by
    rw [hsplit]
    exact List.mem_append_left _ hc
  have hne : kept ≠ [] := by
    rintro rfl
    rw [show digitsValue [] = 0 from rfl, Nat.zero_mul] at hvalue
    omega
  refine ⟨kept, k, hsplit, hne, fun c hc => isDigit_of_mem_toString (hmem hc), hlast, hvalue, ?_⟩
  constructor
  · intro hten
    by_contra hzero
    obtain rfl : k = 0 := by omega
    obtain ⟨front, c, rfl⟩ := (List.eq_nil_or_concat' kept).resolve_left hne
    have hc : c.isDigit = true := by
      have hdigit := hmem (c := c) (by simp)
      rw [digitChars, Nat.toString_eq_repr, Nat.toList_repr] at hdigit
      exact Nat.isDigit_of_mem_toDigits (by omega) (by omega) hdigit
    have hrange : 48 ≤ c.toNat ∧ c.toNat ≤ 57 := Char.isDigit_iff_toNat.1 hc
    have hzero : c = '0' := by
      rw [← Char.toNat_inj]
      show c.toNat = 48
      rw [Nat.pow_zero, digitsValue_concat, digit?_of_isDigit hc, Option.getD_some] at hvalue
      omega
    simp [hzero] at hlast
  · intro hk
    rw [← hvalue]
    exact Dvd.dvd.mul_left (dvd_pow_self 10 hk.ne') _

/-- Without places there are the digits of a count. -/
theorem placed_zero (n : Nat) : placed 0 n = digitChars n := by
  have hlength : 0 < (digitChars n).length :=
    List.length_pos_of_ne_nil (toList_toString_ne_nil n)
  have hnone : 0 + 1 - (digitChars n).length = 0 := by omega
  simp only [placed, hnone, zeros, List.replicate_zero, List.nil_append, Nat.sub_zero,
    List.take_length, List.drop_length, pointed, List.isEmpty_nil, if_true]

/-- What rounds to zero is printed as a zero, or as a sign without a digit. -/
theorem printedChars_zero (h : IsFinite x) (hn : fixed 0 x = 0) :
    printedChars 0 x = if isNegative x then ['-'] else ['0'] := by
  rw [printedChars, toList_fixedText h, hn]
  cases isNegative x <;> rfl

/-- What rounds to more than zero is printed with the digits of the whole number, but for the zeros
at its end. -/
theorem printedChars_whole (h : IsFinite x) (hn : 0 < fixed 0 x) : ∃ kept k, kept ≠ [] ∧
    (∀ c ∈ kept, isDigit c = true) ∧ digitsValue kept * 10 ^ k = fixed 0 x ∧
      (10 ∣ fixed 0 x ↔ 0 < k) ∧
        printedChars 0 x = (if isNegative x then ['-'] else []) ++ decimal kept [] := by
  obtain ⟨kept, k, hsplit, hne, hdigits, hlast, hvalue, hten⟩ := digitChars_eq hn
  refine ⟨kept, k, hne, hdigits, hvalue, hten, ?_⟩
  have htext := toList_fixedText h 0
  obtain ⟨sign, hsign⟩ : ∃ sign : List Char, (if isNegative x then ['-'] else []) = sign := ⟨_, rfl⟩
  rw [hsign, placed_zero, hsplit, ← List.append_assoc] at htext
  obtain ⟨front, c, rfl⟩ := (List.eq_nil_or_concat' kept).resolve_left hne
  have hend : (sign ++ (front ++ [c])).getLast? ≠ some '0' := by
    rw [← List.append_assoc]
    simpa using hlast
  have hcs : dropPoint (dropZeros (fixedText 0 x).toList) = sign ++ front ++ [c] := by
    rw [htext, dropZeros_append_zeros hend, ← List.append_assoc,
      dropPoint_concat_digit _ (hdigits c (by simp))]
  have hsome : (sign ++ front ++ [c]).isEmpty = false := by simp
  have hplain : sign ++ front ++ [c] ≠ ['-', '0'] := by
    intro heq
    rw [← List.append_assoc, heq] at hend
    exact hend rfl
  rw [printedChars, hcs]
  simp only [hsome, Bool.false_or, decide_eq_true_eq, if_neg hplain]
  rw [decimal, if_pos rfl, List.append_nil, List.append_assoc, hsign]

/-- What is lost is seen in the digits next to the value. -/
theorem losesZeros_iff :
    LosesZeros x ↔ 10 ∣ fixed 0 x ∧ (fixed 0 x = 0 → isNegative x = true) := by
  have hrounded := roundedTo_fixedValue 0 x
  have hcast : fixedValue 0 x = ((if isNegative x then -fixed 0 x else fixed 0 x : ℤ) : ℚ) := by
    rw [fixedValue]
    split_ifs <;> simp
  have hten : (10 : ℤ) ∣ (if isNegative x then -fixed 0 x else fixed 0 x) ↔ 10 ∣ fixed 0 x := by
    split_ifs
    · rw [dvd_neg]
      norm_cast
    · norm_cast
  have hzero : (if isNegative x then -fixed 0 x else fixed 0 x : ℤ) = 0 ↔ fixed 0 x = 0 := by
    split_ifs <;> simp
  rw [← hten, ← hzero]
  rw [hcast] at hrounded
  constructor
  · rintro ⟨n, hn, hlost⟩
    rwa [← Int.cast_inj.1 (hn.unique hrounded)]
  · exact fun hlost => ⟨_, hrounded, hlost⟩

/-- The rounded value is what has to be read. -/
theorem denotes_iff_reading (places : Nat) : Denotes (printed places x) places x ↔
    reading? (printedChars places x) = some (fixedValue places x) := by
  rw [Denotes, printed, String.toList_ofList]
  constructor
  · rintro ⟨r, hread, hr⟩
    rw [hread, hr.unique (roundedTo_fixedValue places x)]
  · exact fun hread => ⟨_, hread, roundedTo_fixedValue places x⟩

/-- Without places a text denotes the rounded value unless zeros are lost. -/
theorem denotes_whole_iff (h : IsFinite x) : Denotes (printed 0 x) 0 x ↔ ¬ LosesZeros x := by
  rw [denotes_iff_reading, losesZeros_iff, fixedValue, pow_zero, div_one]
  rcases Nat.eq_zero_or_pos (fixed 0 x) with hn | hn
  · rw [printedChars_zero h hn, hn]
    cases isNegative x with
    | false =>
      have hread : reading? ['0'] = some 0 := by decide +kernel
      simp [hread]
    | true =>
      have hread : reading? ['-'] = none := by decide
      simp [hread]
  · obtain ⟨kept, k, hne, hdigits, hvalue, hten, hprinted⟩ := printedChars_whole h hn
    have hread : reading? (printedChars 0 x) =
        some (if isNegative x then -(digitsValue kept : ℚ) else digitsValue kept) := by
      rw [hprinted]
      have hnone : ∀ c ∈ ([] : List Char), isDigit c = true := by simp
      cases isNegative x with
      | false => simpa using reading_decimal hne hdigits hnone
      | true => simpa using reading_signed hne hdigits hnone (s := '-') (by decide)
    have hsame : digitsValue kept = fixed 0 x ↔ k = 0 := by
      have hpos : digitsValue kept ≠ 0 := by
        intro hnone
        rw [hnone, Nat.zero_mul] at hvalue
        omega
      rw [← hvalue, eq_comm, mul_eq_left₀ hpos, Nat.pow_eq_one]
      omega
    have hlost : 10 ∣ fixed 0 x ∧ (fixed 0 x = 0 → isNegative x = true) ↔ 0 < k := by
      rw [hten]
      exact and_iff_left fun hnone => absurd hnone hn.ne'
    have hvalues : (if isNegative x then -(digitsValue kept : ℚ) else digitsValue kept) =
        (if isNegative x then -(fixed 0 x : ℚ) else fixed 0 x) ↔ digitsValue kept = fixed 0 x := by
      split_ifs
      · rw [neg_inj, Nat.cast_inj]
      · rw [Nat.cast_inj]
    rw [hread, Option.some.injEq, hvalues, hsame, hlost, Nat.pos_iff_ne_zero, not_not]

/-! ## Any places -/

theorem printedChars_ne_minus_zero (places : Nat) : printedChars places x ≠ ['-', '0'] := by
  rw [printedChars]
  split_ifs with hzero
  · decide
  · rw [Bool.or_eq_true, not_or] at hzero
    simpa using hzero.2

theorem isTrimmed_printedChars (h : IsFinite x) (places : Nat) :
    IsTrimmed (printedChars places x) := by
  have hsign : '.' ∉ (if isNegative x then ['-'] else []) := by
    split_ifs <;> decide
  rcases Nat.eq_zero_or_pos places with rfl | hk
  · rcases Nat.eq_zero_or_pos (fixed 0 x) with hn | hn
    · rw [printedChars_zero h hn]
      exact isTrimmed_of_no_point (by split_ifs <;> decide)
    · obtain ⟨kept, -, -, hdigits, -, -, hprinted⟩ := printedChars_whole h hn
      rw [hprinted]
      exact isTrimmed_decimal hsign hdigits (by simp) (by simp)
  · obtain ⟨whole, digits, -, hwhole, hdigits, hlast, -, hprinted⟩ := printedChars_eq h hk
    obtain ⟨sign, hpart⟩ : ∃ sign : List Char, (if isNegative x then ['-'] else []) = sign :=
      ⟨_, rfl⟩
    rw [hprinted, hpart]
    rw [hpart] at hsign
    dsimp only
    split_ifs
    · exact isTrimmed_of_no_point (by decide)
    · exact isTrimmed_decimal hsign hwhole hdigits hlast

/-- A printed number denotes the value rounded to the places, a half to the even digit, unless it
has no places and loses zeros of the whole number. At its end is neither a point nor a zero behind
one, and a zero has no minus sign. The signed form is the same text with a plus sign in front where
there is no minus sign. -/
theorem printed_denotes_iff (h : IsFinite x) (places : Nat) :
    (Denotes (printed places x) places x ↔ (places = 0 → ¬ LosesZeros x)) ∧
      IsTrimmed (printed places x).toList ∧ printed places x ≠ "-0" ∧
        printedSigned places x =
          if (printed places x).toList.head? = some '-' then printed places x
          else "+" ++ printed places x := by
  refine ⟨?_, ?_, ?_, ?_⟩
  · rcases Nat.eq_zero_or_pos places with rfl | hk
    · simpa using denotes_whole_iff h
    · exact iff_of_true ((denotes_iff_reading places).2 (reading_printedChars h hk))
        (fun hnone => absurd hnone hk.ne')
  · rw [printed, String.toList_ofList]
    exact isTrimmed_printedChars h places
  · intro hzero
    refine printedChars_ne_minus_zero (x := x) places ?_
    rw [← String.toList_ofList (l := printedChars places x)]
    exact congrArg String.toList hzero
  · rw [printedSigned, printed, String.toList_ofList]
    split_ifs
    · rfl
    · rw [← List.singleton_append, String.ofList_append]

/-- Half way between two thousandths a number goes to the even one. -/
theorem printed_denotes_half : IsFinite (-0.0625) ∧ printed 3 (-0.0625) = "-0.062" ∧
    Denotes (printed 3 (-0.0625)) 3 (-0.0625) ∧ IsTrimmed (printed 3 (-0.0625)).toList := by
  have hfinite : IsFinite (-0.0625) := by decide
  obtain ⟨hdenotes, htrimmed, -, -⟩ := printed_denotes_iff hfinite 3
  exact ⟨hfinite, by decide +kernel, hdenotes.2 (fun hnone => absurd hnone (by decide)), htrimmed⟩

/-- Without places a hundred is printed as a one. -/
theorem hundred_not_denoted :
    ¬ ∀ (x : Float) (places : Nat), IsFinite x → Denotes (printed places x) places x := by
  intro hall
  obtain ⟨r, hread, hrounded⟩ := hall 100.0 0 (by decide)
  have htext : reading? (printed 0 100.0).toList = some 1 := by decide +kernel
  have hvalue : exactValue 100.0 = 100 := by
    rw [exactValue_of_ratio (100 * 2 ^ 46) (2 ^ 46) (by decide) (by decide)]
    norm_num
  rw [htext, Option.some.injEq] at hread
  have hnear := hrounded.near
  rw [hvalue, ← hread] at hnear
  norm_num at hnear

end PartProgram.Number

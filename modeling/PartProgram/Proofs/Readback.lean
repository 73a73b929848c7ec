import PartProgram.Number.Printed
import PartProgram.Proofs.Formatting
import PartProgram.Proofs.Printing
import PartProgram.Proofs.Rounding

/-!
# PartProgram.Proofs.Readback

Printed numbers read back. A number is read as the exact number that its digits stand for, which is
the double it was printed from, rounded to the places that it is printed with. What is infinite or
not a number is printed as a word and not read at all.

* `RoundedTo`: what is rounded to decimal places, a half to the even digit.
* `reading_isSome_iff`, `reading_roundedTo`: which coordinates are read back, and what is read.
* `exactValue_sub`: how far a difference is off.
-/

namespace PartProgram.Number

open Text

/-- The exact value of a finite double. -/
def exactValue (x : Float) : ℚ :=
  let size : ℚ := (magnitude x).ratio.1 / (magnitude x).ratio.2
  if isNegative x then -size else size

theorem exactValue_of_ratio {x : Float} (num den : Nat) (hsign : isNegative x = false)
    (hratio : (magnitude x).ratio = (num, den)) : exactValue x = num / den := by
  simp only [exactValue, hsign, hratio, Bool.false_eq_true, if_false]

theorem exactValue_zero : exactValue 0.0 = 0 := by
  have hnone : (magnitude 0.0).ratio.1 = 0 := by decide
  simp only [exactValue, hnone, Nat.cast_zero, zero_div, neg_zero, ite_self]

/-- The exact number that a numeral stands for. -/
def exactNumeral (cs : List Char) : ℚ :=
  let (negative, cs) := splitSign cs
  let (digits, places) := placesOf cs
  let size : ℚ := digitsValue digits / 10 ^ places
  if negative then -size else size

/-- The number that a text says, if it is a numeral. -/
def reading? (cs : List Char) : Option ℚ :=
  match numeral? cs with
  | some (t, []) => some (exactNumeral t)
  | _ => none

/-! ## Quotients -/

/-- A rounded quotient is off by one half at most. -/
theorem roundDiv_sub_le {n d : Nat} (hd : 0 < d) : |(roundDiv n d - n / d : ℚ)| ≤ 1 / 2 := by
  obtain ⟨habove, hbelow⟩ := roundDiv_near (n := n) hd
  have hd' : (0 : ℚ) < d := by exact_mod_cast hd
  have habove' : (2 * (roundDiv n d * d) : ℚ) ≤ 2 * n + d := by exact_mod_cast habove
  have hbelow' : (2 * n : ℚ) ≤ 2 * (roundDiv n d * d) + d := by exact_mod_cast hbelow
  rw [sub_div' hd'.ne', abs_div, abs_of_pos hd', div_le_iff₀ hd', abs_le]
  constructor <;> linarith

/-- Half way between two numbers a quotient is rounded to the even one. -/
theorem roundDiv_even {n d : Nat} (hd : 0 < d) (h : |(roundDiv n d - n / d : ℚ)| = 1 / 2) :
    Even (roundDiv n d) := by
  have hd' : (0 : ℚ) < d := by exact_mod_cast hd
  rw [sub_div' hd'.ne', abs_div, abs_of_pos hd', div_eq_iff hd'.ne'] at h
  have htie : 2 * (roundDiv n d * d) = 2 * n + d ∨ 2 * n = 2 * (roundDiv n d * d) + d := by
    rcases abs_choice (roundDiv n d * d - n : ℚ) with hsign | hsign <;> rw [hsign] at h
    · left
      have hcast : (2 * (roundDiv n d * d) : ℚ) = 2 * n + d := by linarith
      exact_mod_cast hcast
    · right
      have hcast : (2 * n : ℚ) = 2 * (roundDiv n d * d) + d := by linarith
      exact_mod_cast hcast
  have hn : n = n / d * d + n % d := (Nat.div_add_mod' n d).symm
  have hr : n % d < d := Nat.mod_lt n hd
  revert htie
  simp only [roundDiv]
  split_ifs with hless hmore
  · omega
  · rw [Nat.add_mul]
    omega
  · intro _
    rw [Nat.even_iff]
    omega

/-! ## Decimal places -/

/-- The second number is the first one rounded to decimal places; half way between two of them it
is the one with an even last digit. -/
def RoundedTo (places : Nat) (q r : ℚ) : Prop :=
  ∃ n : ℤ, r = n / 10 ^ places ∧ |n - q * 10 ^ places| ≤ 1 / 2 ∧
    (|n - q * 10 ^ places| = 1 / 2 → Even n)

namespace RoundedTo

variable {places : Nat} {q q' r r' : ℚ}

/-- What is rounded is off by one half of the last digit at most. -/
theorem near (h : RoundedTo places q r) : |r - q| ≤ 1 / 2 / 10 ^ places := by
  obtain ⟨n, rfl, hnear, -⟩ := h
  have hpow : (0 : ℚ) < 10 ^ places := by positivity
  rwa [div_sub' hpow.ne', abs_div, abs_of_pos hpow, div_le_div_iff_of_pos_right hpow, mul_comm]

theorem neg (h : RoundedTo places q r) : RoundedTo places (-q) (-r) := by
  obtain ⟨n, rfl, hnear, heven⟩ := h
  have hsize : |((-n : ℤ) : ℚ) - -q * 10 ^ places| = |n - q * 10 ^ places| := by
    rw [Int.cast_neg, neg_mul, neg_sub_neg, abs_sub_comm]
  refine ⟨-n, by rw [Int.cast_neg, neg_div], ?_, ?_⟩
  · rwa [hsize]
  · rw [hsize, even_neg]
    exact heven

/-- Rounding keeps the order. -/
theorem mono (h : RoundedTo places q r) (h' : RoundedTo places q' r') (hle : q ≤ q') : r ≤ r' := by
  obtain ⟨n, rfl, hnear, heven⟩ := h
  obtain ⟨n', rfl, hnear', heven'⟩ := h'
  have hpow : (0 : ℚ) < 10 ^ places := by positivity
  have hscaled : q * 10 ^ places ≤ q' * 10 ^ places := by gcongr
  rw [div_le_div_iff_of_pos_right hpow, Int.cast_le]
  by_contra hless
  -- neighbours, each of them half way from the same number, would both be even
  obtain ⟨hlow, hhigh⟩ := abs_le.1 hnear
  obtain ⟨hlow', hhigh'⟩ := abs_le.1 hnear'
  have hnext : (n' + 1 : ℚ) ≤ n := by exact_mod_cast Int.add_one_le_of_lt (not_le.1 hless)
  have hhalf : (n - q * 10 ^ places : ℚ) = 1 / 2 := by linarith
  have hhalf' : (n' - q' * 10 ^ places : ℚ) = -(1 / 2) := by linarith
  have hsucc : n = n' + 1 := by
    have hcast : (n : ℚ) = n' + 1 := by linarith
    exact_mod_cast hcast
  have hboth : Even n ∧ Even n' :=
    ⟨heven (by rw [hhalf, abs_of_pos one_half_pos]),
      heven' (by rw [hhalf', abs_neg, abs_of_pos one_half_pos])⟩
  rw [hsucc, Int.even_add_one] at hboth
  exact hboth.1 hboth.2

/-- A number is rounded to one number only. -/
theorem unique (h : RoundedTo places q r) (h' : RoundedTo places q r') : r = r' :=
  le_antisymm (h.mono h' le_rfl) (h'.mono h le_rfl)

/-- Numbers that are more than one last digit apart are rounded to two. -/
theorem lt_of_gap (h : RoundedTo places q r) (h' : RoundedTo places q' r')
    (hgap : q + 1 / 10 ^ places < q') : r < r' := by
  have hnear := abs_le.1 h.near
  have hnear' := abs_le.1 h'.near
  have hhalves : (1 / 2 / 10 ^ places + 1 / 2 / 10 ^ places : ℚ) = 1 / 10 ^ places := by ring
  linarith

end RoundedTo

/-- The number of decimal places that is next to a double. -/
def fixedValue (places : Nat) (x : Float) : ℚ :=
  if isNegative x then -(fixed places x / 10 ^ places) else fixed places x / 10 ^ places

theorem roundedTo_fixedValue (places : Nat) (x : Float) :
    RoundedTo places (exactValue x) (fixedValue places x) := by
  have hden : 0 < (magnitude x).ratio.2 := Nat.two_pow_pos _
  have hscaled : (((magnitude x).ratio.1 * 10 ^ places : Nat) / (magnitude x).ratio.2 : ℚ) =
      (magnitude x).ratio.1 / (magnitude x).ratio.2 * 10 ^ places := by
    push_cast
    ring
  have hnear := roundDiv_sub_le (n := (magnitude x).ratio.1 * 10 ^ places) hden
  have heven := roundDiv_even (n := (magnitude x).ratio.1 * 10 ^ places) hden
  rw [hscaled] at hnear heven
  have hsize : RoundedTo places ((magnitude x).ratio.1 / (magnitude x).ratio.2)
      (fixed places x / 10 ^ places) :=
    ⟨fixed places x, rfl, hnear, fun h => by exact_mod_cast heven h⟩
  rw [exactValue, fixedValue]
  split_ifs
  · exact hsize.neg
  · exact hsize

/-- A power of two as a quotient of powers of naturals. -/
theorem two_pow_toNat (e : Int) : (2 : ℚ) ^ e.toNat = 2 ^ e * 2 ^ (-e).toNat := by
  rw [← zpow_natCast, ← zpow_natCast, ← zpow_add₀ (by norm_num)]
  congr 1
  omega

theorem inUnit_eq {m : Nat} {e : Int} (he : -1074 ≤ e) :
    (inUnit m e / 2 ^ 1074 : ℚ) = m * 2 ^ e := by
  have hexponent : (e + 1074).toNat = e + (1074 : Nat) := by omega
  rw [inUnit, Nat.cast_mul, Nat.cast_pow, Nat.cast_ofNat, ← zpow_natCast, hexponent,
    zpow_add₀ (by norm_num), zpow_natCast, ← mul_assoc, mul_div_assoc, div_self (by positivity),
    mul_one]

theorem ratio_eq (a : Magnitude) : (a.ratio.1 / a.ratio.2 : ℚ) = a.m * 2 ^ a.e := by
  rw [Magnitude.ratio]
  push_cast
  rw [two_pow_toNat a.e, ← mul_assoc, mul_div_assoc, div_self (by positivity), mul_one]

/-! ## Digits -/

theorem digitsValue_concat (cs : List Char) (c : Char) :
    digitsValue (cs ++ [c]) = 10 * digitsValue cs + (digit? c).getD 0 := by
  rw [digitsValue, List.foldl_append, List.foldl_cons, List.foldl_nil]
  rfl

theorem digitsValue_append_zeros (cs : List Char) (k : Nat) :
    digitsValue (cs ++ List.replicate k '0') = digitsValue cs * 10 ^ k := by
  induction k with
  | zero => simp
  | succ k ih =>
    have hzero : (digit? '0').getD 0 = 0 := by decide
    rw [List.replicate_succ', ← List.append_assoc, digitsValue_concat, ih, hzero, Nat.pow_succ]
    ring

/-- A count of decimal places: digits, a point, and as many more of them. -/
theorem placed_eq {k : Nat} (hk : 0 < k) (n : Nat) :
    ∃ whole places, placed k n = whole ++ '.' :: places ∧ whole ≠ [] ∧
      (∀ c ∈ whole, isDigit c = true) ∧ (∀ c ∈ places, isDigit c = true) ∧ places.length = k ∧
        digitsValue (whole ++ places) = n := by
  obtain ⟨cs, hcs⟩ : ∃ cs, zeros (k + 1 - (digitChars n).length) ++ digitChars n = cs := ⟨_, rfl⟩
  have hlength : k + 1 ≤ cs.length := by
    rw [← hcs, List.length_append, zeros, List.length_replicate]
    omega
  have hdigits : ∀ c ∈ cs, isDigit c = true := by
    intro c hc
    rw [← hcs] at hc
    rcases List.mem_append.1 hc with hc | hc
    · exact Rule.isDigit_of_mem_zeros hc
    · exact isDigit_of_mem_toString hc
  have hplaces : (cs.drop (cs.length - k)).length = k := by
    rw [List.length_drop]
    omega
  refine ⟨cs.take (cs.length - k), cs.drop (cs.length - k), ?_, ?_, ?_, ?_, hplaces, ?_⟩
  · simp only [placed, hcs, pointed]
    rw [if_neg]
    rw [List.isEmpty_iff]
    exact List.ne_nil_of_length_pos (by omega)
  · refine List.ne_nil_of_length_pos ?_
    rw [List.length_take]
    omega
  · exact fun c hc => hdigits c (List.mem_of_mem_take hc)
  · exact fun c hc => hdigits c (List.mem_of_mem_drop hc)
  · rw [List.take_append_drop, ← hcs, zeros, Rule.digitsValue_zeros]
    exact digitsValue_toString n

/-- A text is what is left of it without the zeros at its end, and these. -/
theorem exists_append_zeros (cs : List Char) :
    ∃ kept k, cs = kept ++ List.replicate k '0' ∧ kept.getLast? ≠ some '0' := by
  induction cs using List.reverseRecOn with
  | nil => exact ⟨[], 0, rfl, by simp⟩
  | append_singleton cs d ih =>
    by_cases hzero : d = '0'
    · obtain ⟨kept, k, rfl, hlast⟩ := ih
      exact ⟨kept, k + 1, by rw [hzero, List.replicate_succ', List.append_assoc], hlast⟩
    · exact ⟨cs ++ [d], 0, by simp, by simpa using hzero⟩

theorem dropZeros_append_zeros {cs : List Char} (h : cs.getLast? ≠ some '0') (k : Nat) :
    dropZeros (cs ++ List.replicate k '0') = cs := by
  induction k with
  | zero =>
    rw [List.replicate_zero, List.append_nil]
    rcases List.eq_nil_or_concat' cs with rfl | ⟨front, c, rfl⟩
    · rfl
    · exact List.rdropWhile_concat_neg _ _ _ (by simpa using h)
  | succ k ih =>
    rw [List.replicate_succ', ← List.append_assoc]
    exact (List.rdropWhile_concat_pos _ _ _ (by decide)).trans ih

/-- A digit at the end is no point. -/
theorem dropPoint_concat_digit (cs : List Char) {c : Char} (hc : isDigit c = true) :
    dropPoint (cs ++ [c]) = cs ++ [c] :=
  List.rdropWhile_concat_neg _ _ _ (by simpa using ne_of_isDigit hc (by decide))

/-- What is left of digits after a point, and of the point, without the zeros at the end. -/
theorem dropPoint_dropZeros (front : List Char) {c : Char} (hc : isDigit c = true)
    (places : List Char) (hplaces : ∀ c ∈ places, isDigit c = true) :
    ∃ kept k, places = kept ++ List.replicate k '0' ∧ kept.getLast? ≠ some '0' ∧
      dropPoint (dropZeros (front ++ [c] ++ '.' :: places)) =
        front ++ [c] ++ if kept = [] then [] else '.' :: kept := by
  obtain ⟨kept, k, rfl, hlast⟩ := exists_append_zeros places
  refine ⟨kept, k, rfl, hlast, ?_⟩
  have hzeros : dropZeros (front ++ [c] ++ '.' :: (kept ++ List.replicate k '0')) =
      front ++ [c] ++ '.' :: kept := by
    have happend : front ++ [c] ++ '.' :: (kept ++ List.replicate k '0') =
        front ++ [c] ++ '.' :: kept ++ List.replicate k '0' := by simp
    rw [happend]
    refine dropZeros_append_zeros ?_ k
    cases kept with
    | nil => simp
    | cons d ds => simpa using hlast
  rw [hzeros]
  rcases List.eq_nil_or_concat' kept with rfl | ⟨ds, d, rfl⟩
  · have hpoint : dropPoint (front ++ [c] ++ ['.']) = dropPoint (front ++ [c]) :=
      List.rdropWhile_concat_pos _ _ _ (by decide)
    rw [hpoint, dropPoint_concat_digit front hc, if_pos rfl, List.append_nil]
  · have hd : isDigit d = true := hplaces d (by simp)
    have hlist : front ++ [c] ++ '.' :: (ds ++ [d]) = front ++ [c] ++ '.' :: ds ++ [d] := by simp
    rw [if_neg (by simp), hlist, dropPoint_concat_digit _ hd]

/-! ## Numerals -/

/-- Digits with a point among them, where there are any after it. -/
def decimal (whole places : List Char) : List Char :=
  whole ++ if places = [] then [] else '.' :: places

section

variable {whole places : List Char} (hne : whole ≠ []) (hwhole : ∀ c ∈ whole, isDigit c = true)
  (hplaces : ∀ c ∈ places, isDigit c = true)

include hne hwhole hplaces

theorem isMagnitude_decimal : IsMagnitude (decimal whole places) := by
  rw [decimal]
  split_ifs with hnone
  · rw [List.append_nil]
    exact .whole hne hwhole
  · exact .pointed (fun h => hne h.1) hwhole hplaces

omit hne in
theorem placesOf_decimal : placesOf (decimal whole places) = (whole ++ places, places.length) := by
  rw [decimal]
  split_ifs with hnone
  · rw [hnone, List.append_nil, placesOf, spanDigits_of_digits hwhole]
    rfl
  · have hpoint : NoDigitHead ('.' :: places) := by
      simp only [NoDigitHead, List.head?_cons, Option.mem_some_iff]
      rintro _ rfl
      decide
    simp only [placesOf, spanDigits_append hwhole hpoint, spanDigits_of_digits hplaces]

theorem reading_decimal : reading? (decimal whole places) =
    some (digitsValue (whole ++ places) / 10 ^ places.length : ℚ) := by
  have hmagnitude := isMagnitude_decimal hne hwhole hplaces
  have hread := (IsNumeral.plain hmagnitude).read endsNumeral_nil
  have hsign : splitSign (decimal whole places) = (false, decimal whole places) := by
    obtain ⟨d, rest, rfl⟩ := List.exists_cons_of_ne_nil hne
    have hd := isSign_of_isDigit (hwhole d (.head _))
    simp only [decimal, List.cons_append, splitSign, hd, Bool.false_eq_true, if_false]
  rw [List.append_nil] at hread
  simp only [reading?, hread, exactNumeral, hsign, placesOf_decimal hwhole hplaces,
    Bool.false_eq_true, if_false]

theorem reading_signed {s : Char} (hs : isSign s = true) :
    reading? (s :: decimal whole places) =
      some (if s = '-' then -(digitsValue (whole ++ places) / 10 ^ places.length : ℚ)
        else digitsValue (whole ++ places) / 10 ^ places.length) := by
  have hnumeral : IsNumeral (s :: decimal whole places) :=
    .signed hs (isMagnitude_decimal hne hwhole hplaces)
  have hread := hnumeral.read endsNumeral_nil
  rw [List.append_nil] at hread
  simp only [reading?, hread, exactNumeral, splitSign, hs, if_true,
    placesOf_decimal hwhole hplaces, decide_eq_true_eq]

omit hplaces in
theorem head_decimal : ∃ d rest, decimal whole places = d :: rest ∧ isDigit d = true := by
  obtain ⟨d, rest, rfl⟩ := List.exists_cons_of_ne_nil hne
  exact ⟨d, _, rfl, hwhole d (.head _)⟩

end

/-! ## Printed numbers -/

/-- A finite number of fixed places is a sign, where there is one, and its digits. -/
theorem toList_fixedText {x : Float} (h : IsFinite x) (k : Nat) : (fixedText k x).toList =
    (if isNegative x then ['-'] else []) ++ placed k (fixed k x) := by
  simp only [fixedText, signed, h.1, h.2, Bool.false_eq_true, if_false, String.toList_ofList]
  split <;> rfl

/-- A printed number is a sign, where there is one, and its digits without the zeros at the end of
its places. -/
theorem printedChars_eq {x : Float} (h : IsFinite x) {k : Nat} (hk : 0 < k) : ∃ whole places,
    whole ≠ [] ∧ (∀ c ∈ whole, isDigit c = true) ∧ (∀ c ∈ places, isDigit c = true) ∧
      places.getLast? ≠ some '0' ∧
      (digitsValue (whole ++ places) / 10 ^ places.length : ℚ) = fixed k x / 10 ^ k ∧
      printedChars k x =
        let cs := (if isNegative x then ['-'] else []) ++ decimal whole places
        if cs = ['-', '0'] then ['0'] else cs := by
  obtain ⟨whole, places, hplaced, hne, hwhole, hplaces, hlength, hvalue⟩ := placed_eq hk (fixed k x)
  obtain ⟨front, c, rfl⟩ : ∃ front c, whole = front ++ [c] :=
    ⟨_, _, (List.dropLast_append_getLast hne).symm⟩
  have htext := toList_fixedText h k
  obtain ⟨sign, hsign⟩ : ∃ sign : List Char, (if isNegative x then ['-'] else []) = sign := ⟨_, rfl⟩
  rw [hsign, hplaced, ← List.append_assoc, ← List.append_assoc] at htext
  obtain ⟨kept, dropped, hkept, hlast, hdrop⟩ :=
    dropPoint_dropZeros (sign ++ front) (hwhole c (by simp)) places hplaces
  have hcs : dropPoint (dropZeros (fixedText k x).toList) =
      sign ++ decimal (front ++ [c]) kept := by
    rw [htext, hdrop, decimal, List.append_assoc, List.append_assoc, List.append_assoc]
  refine ⟨front ++ [c], kept, hne, hwhole, ?_, hlast, ?_, ?_⟩
  · intro d hd
    exact hplaces d (by rw [hkept]; exact List.mem_append_left _ hd)
  · have hsplit : kept.length + dropped = k := by
      rw [← hlength, hkept, List.length_append, List.length_replicate]
    have hpow : (10 ^ k : ℚ) = 10 ^ kept.length * 10 ^ dropped := by rw [← pow_add, hsplit]
    rw [hkept, ← List.append_assoc, digitsValue_append_zeros] at hvalue
    rw [← hvalue, hpow]
    push_cast
    field_simp
  · simp only [printedChars, hcs, hsign]
    have hsome : (sign ++ decimal (front ++ [c]) kept).isEmpty = false := by
      simp [decimal]
    simp only [hsome, Bool.false_or, decide_eq_true_eq]

/-- The digits are those of a zero if no more than a zero is printed. -/
theorem digitsValue_of_decimal {whole places : List Char} (hwhole : ∀ c ∈ whole, isDigit c = true)
    (hplaces : ∀ c ∈ places, isDigit c = true) (hzero : decimal whole places = ['0']) :
    digitsValue (whole ++ places) = 0 := by
  have hparts := placesOf_decimal hwhole hplaces
  rw [hzero] at hparts
  rw [← (Prod.mk.inj hparts).1]
  decide

/-- A finite number is read back as it was rounded. -/
theorem reading_printedChars {x : Float} (h : IsFinite x) {k : Nat} (hk : 0 < k) :
    reading? (printedChars k x) = some (fixedValue k x) := by
  obtain ⟨whole, places, hne, hwhole, hplaces, -, hvalue, hprinted⟩ := printedChars_eq h hk
  rw [hprinted, fixedValue, ← hvalue]
  cases isNegative x with
  | false =>
    obtain ⟨d, rest, hcons, hd⟩ : ∃ d rest, decimal whole places = d :: rest ∧ isDigit d = true :=
      head_decimal hne hwhole
    have hplain : decimal whole places ≠ ['-', '0'] := by
      rw [hcons]
      exact fun heq => ne_of_isDigit hd (by decide) (List.cons.inj heq).1
    simp only [Bool.false_eq_true, if_false, List.nil_append, if_neg hplain]
    exact reading_decimal hne hwhole hplaces
  | true =>
    simp only [if_true, List.singleton_append, List.cons.injEq, true_and]
    split_ifs with hzero
    · -- a zero has lost its sign
      rw [digitsValue_of_decimal hwhole hplaces hzero, Nat.cast_zero, zero_div, neg_zero]
      decide +kernel
    · exact reading_signed hne hwhole hplaces (by decide)

/-- A sign in front does not change what is read. -/
theorem reading_printedSigned {x : Float} (h : IsFinite x) {k : Nat} (hk : 0 < k) :
    reading? (printedSigned k x).toList = some (fixedValue k x) := by
  rw [← reading_printedChars h hk, printedSigned, String.toList_ofList]
  split_ifs with hsign
  · rfl
  · obtain ⟨whole, places, hne, hwhole, hplaces, -, -, hprinted⟩ := printedChars_eq h hk
    have hread := reading_signed hne hwhole hplaces (s := '+') (by decide)
    rw [hprinted] at hsign ⊢
    dsimp only at hsign ⊢
    split_ifs at hsign ⊢ with hneg hzero hzero
    · decide +kernel
    · exact absurd rfl hsign
    · decide +kernel
    · rw [List.nil_append, hread, reading_decimal hne hwhole hplaces]
      rfl

/-! ## Coordinates -/

/-- What is infinite or not a number is printed as a word. -/
theorem reading_word {x : Float} (h : ¬ IsFinite x) :
    reading? (signedCoordinate x).toList = none := by
  have hname := printedChars_name coordinatePlaces h
  simp only [floatNames, List.mem_cons, List.not_mem_nil, or_false] at hname
  rw [signedCoordinate, printedSigned, String.toList_ofList]
  rcases hname with hname | hname | hname <;> rw [hname] <;> rfl

/-- What is read back of a coordinate is its value, rounded. -/
theorem reading_roundedTo {x : Float} {q : ℚ} (h : reading? (signedCoordinate x).toList = some q) :
    IsFinite x ∧ RoundedTo coordinatePlaces (exactValue x) q := by
  have hfinite : IsFinite x := by
    by_contra hnone
    rw [reading_word hnone] at h
    cases h
  rw [signedCoordinate, reading_printedSigned hfinite (by decide), Option.some.injEq] at h
  rw [← h]
  exact ⟨hfinite, roundedTo_fixedValue _ x⟩

/-- What is read back of a coordinate is off by one half of the last digit at most. -/
theorem reading_near {x : Float} {q : ℚ} (h : reading? (signedCoordinate x).toList = some q) :
    IsFinite x ∧ |q - exactValue x| ≤ 1 / 2000 := by
  obtain ⟨hfinite, hrounded⟩ := reading_roundedTo h
  refine ⟨hfinite, hrounded.near.trans_eq ?_⟩
  norm_num [coordinatePlaces]

/-- A coordinate is read back if it is finite. -/
theorem reading_isSome_iff {x : Float} :
    (reading? (signedCoordinate x).toList).isSome = true ↔ IsFinite x := by
  constructor
  · intro h
    obtain ⟨q, hq⟩ := Option.isSome_iff_exists.1 h
    exact (reading_near hq).1
  · intro h
    rw [signedCoordinate, reading_printedSigned h (by decide)]
    rfl

/-! ## Differences -/

theorem magnitude_exponent (x : Float) : -1074 ≤ (magnitude x).e := by
  simp only [magnitude]
  split
  · exact le_rfl
  · show (-1074 : Int) ≤ (_ : Int) - 1074
    omega

theorem exactValue_eq (x : Float) : exactValue x = units x / 2 ^ 1074 := by
  have hsize : ((magnitude x).ratio.1 / (magnitude x).ratio.2 : ℚ) =
      inUnit (magnitude x).m (magnitude x).e / 2 ^ 1074 :=
    (ratio_eq _).trans (inUnit_eq (magnitude_exponent x)).symm
  rw [exactValue, units]
  simp only [hsize]
  split
  · rw [Int.cast_neg, Int.cast_natCast, neg_div]
  · rw [Int.cast_natCast]

/-- What differs from a number of units by a part in `2^53` does so in its exact value. -/
theorem exactValue_near {x : Float} {n : Int}
    (h : 2 ^ 53 * (units x - n).natAbs ≤ (units x).natAbs) :
    |exactValue x - n / 2 ^ 1074| ≤ |exactValue x| / 2 ^ 53 := by
  have hunits : (2 ^ 53 * |(units x - n : ℚ)|) ≤ |(units x : ℚ)| := by
    have hcast := Int.ofNat_le.2 h
    push_cast at hcast
    exact_mod_cast hcast
  have hunit : (0 : ℚ) < 2 ^ 1074 := by positivity
  rw [exactValue_eq, ← sub_div, abs_div, abs_div, abs_of_pos hunit, div_right_comm,
    div_le_div_iff_of_pos_right hunit, le_div_iff₀ (by positivity), mul_comm]
  exact hunits

/-- A finite difference is off by at most its own part in `2^53`. -/
theorem exactValue_sub {a b : Float} (h : IsFinite (a - b)) :
    |exactValue (a - b) - (exactValue a - exactValue b)| ≤ |exactValue (a - b)| / 2 ^ 53 := by
  obtain ⟨-, -, hnear⟩ := units_sub h
  have hvalue := exactValue_near hnear
  rwa [Int.cast_sub, sub_div, ← exactValue_eq, ← exactValue_eq] at hvalue

end PartProgram.Number

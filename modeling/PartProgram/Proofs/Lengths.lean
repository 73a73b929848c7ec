import PartProgram.Proofs.Readback

/-!
# PartProgram.Proofs.Lengths

Lengths of vectors in doubles. A quotient of naturals is read as the nearest double, so a length,
which is taken exactly and rounded once, is off by a part in `2^52` of itself at most. Comparisons
of finite doubles are comparisons of what they stand for.

* `exactValue_le`, `abs_exactValue_le`: what a comparison says of the exact values.
* `ofRatio_near`: how far the nearest double is off.
* `hypot_near`: how far a length is off.
-/

namespace PartProgram.Number

open Float.Model UnpackedFloat

/-! ## Comparisons -/

/-- Of packed floats the one with the larger exponent is larger. -/
theorem inUnit_lt_of_exponent_lt {m n : Nat} {e f : Int} (hm : Fits m e) (hn : Fits n f)
    (h : e < f) : inUnit m e < inUnit n f := by
  have hleast : -1074 ≤ e := hm.exponent
  have hnormal : 2 ^ 52 ≤ n := hn.normal.resolve_right (by omega)
  obtain ⟨k, hk⟩ : ∃ k, (f + 1074).toNat = k + 1 + (e + 1074).toNat :=
    ⟨(f - e).toNat - 1, by omega⟩
  calc inUnit m e < n * 2 ^ (k + 1) * 2 ^ (e + 1074).toNat := by
        refine Nat.mul_lt_mul_of_pos_right ?_ (Nat.two_pow_pos _)
        have hone : 2 ≤ 2 ^ (k + 1) := Nat.le_self_pow (by omega) 2
        have htwice := Nat.mul_le_mul hnormal hone
        exact hm.mantissa.trans_le htwice
    _ = inUnit n f := by rw [inUnit, hk, Nat.pow_add 2 (k + 1), Nat.mul_assoc]

/-- Packed floats compare by their exponents first. -/
theorem inUnit_le {m n : Nat} {e f : Int} (hm : Fits m e) (hn : Fits n f)
    (h : ((compare e f).then (compare m n)).isLE = true) : inUnit m e ≤ inUnit n f := by
  cases hexponent : compare e f with
  | lt => exact (inUnit_lt_of_exponent_lt hm hn (Int.compare_eq_lt.1 hexponent)).le
  | eq =>
    rw [hexponent, Ordering.eq_then] at h
    rw [Int.compare_eq_eq.1 hexponent]
    exact Nat.mul_le_mul_right _ (Nat.isLE_compare.1 h)
  | gt =>
    rw [hexponent] at h
    cases h

/-- What is packed compares as what it stands for. -/
theorem unpackedUnits_le {a b : UnpackedFloat} (ha : a.isFinite = true) (hb : b.isFinite = true)
    (hpa : Packable a) (hpb : Packable b)
    (h : (UnpackedFloat.compare a b).any (·.isLE) = true) : unpackedUnits a ≤ unpackedUnits b := by
  cases a with
  | notANumber => cases ha
  | infinity s => cases ha
  | zero s => cases b with
    | notANumber => cases hb
    | infinity t => cases hb
    | zero t => exact le_rfl
    | finite t n f hn => cases t with
      | negative => cases h
      | positive => exact Int.natCast_nonneg _
  | finite s m e hm => cases b with
    | notANumber => cases hb
    | infinity t => cases hb
    | zero t => cases s with
      | negative => exact Int.neg_nonpos_of_nonneg (Int.natCast_nonneg _)
      | positive => cases h
    | finite t n f hn => cases s with
      | negative => cases t with
        | negative =>
          refine Int.neg_le_neg (Int.ofNat_le.2 (inUnit_le hpb hpa ?_))
          rw [Std.OrientedOrd.eq_swap (a := f), Std.OrientedOrd.eq_swap (a := n),
            ← Ordering.swap_then]
          exact h
        | positive =>
          exact (Int.neg_nonpos_of_nonneg (Int.natCast_nonneg _)).trans (Int.natCast_nonneg _)
      | positive => cases t with
        | negative => cases h
        | positive => exact Int.ofNat_le.2 (inUnit_le hpa hpb h)

theorem units_le {a b : Float} (ha : IsFinite a) (hb : IsFinite b) (h : a ≤ b) :
    units a ≤ units b := by
  obtain ⟨hpa, hua⟩ := unpack_toModel ha
  obtain ⟨hpb, hub⟩ := unpack_toModel hb
  rw [← hua, ← hub]
  exact unpackedUnits_le (isFinite_iff.1 ha) (isFinite_iff.1 hb) hpa hpb (le_iff_compare.1 h)

/-- Finite doubles compare as what they stand for. -/
theorem exactValue_le {a b : Float} (ha : IsFinite a) (hb : IsFinite b) (h : a ≤ b) :
    exactValue a ≤ exactValue b := by
  rw [exactValue_eq, exactValue_eq]
  exact div_le_div_of_nonneg_right (Int.cast_le.2 (units_le ha hb h)) (by positivity)

/-! ## Absolute values -/

theorem toModel_abs (x : Float) : x.abs.toModel.unpack =
    UnpackedFloat.unpack .binary64 (UnpackedFloat.pack .binary64 x.toModel.unpack.abs) := rfl

/-- An absolute value is packed as a finite float, as infinity or as what is not a number. -/
theorem unpack_pack_abs (u : UnpackedFloat) :
    let v := UnpackedFloat.unpack .binary64 (UnpackedFloat.pack .binary64 u.abs)
    v.isFinite = true ∨ v = .infinity .positive ∨ v = .notANumber := by
  have hinfinity : UnpackedFloat.unpack .binary64 (packedInfinity .binary64 .positive) =
      .infinity .positive := by
    simp [UnpackedFloat.unpack, packedInfinity, Sign.ofBitVec_toBitVec]
  have hfinite {x : BitVec 11} {f : BitVec 52} (h : x.toNat ≠ 2047) :
      (UnpackedFloat.unpack .binary64
        (packComponents .binary64 .positive x f)).isFinite = true := by
    rw [isFinite_unpack_iff, unpackExponent_packComponents]
    exact h
  cases u with
  | notANumber => exact .inr (.inr rfl)
  | infinity s => exact .inr (.inl hinfinity)
  | zero s => exact .inl (hfinite (by decide))
  | finite s m e hm =>
    simp only [UnpackedFloat.abs, UnpackedFloat.pack]
    split_ifs with hlarge hnormal
    · exact .inr (.inl hinfinity)
    · refine .inl (hfinite ?_)
      have hsmall : ¬ 2 ^ 11 ≤ (e + (1023 : Nat) + (52 : Nat)).toNat + 1 := hlarge
      show (e + (1023 : Nat) + (52 : Nat)).toNat % 2 ^ 11 ≠ 2047
      omega
    · exact .inl (hfinite (by decide))

/-- An absolute value that does not exceed a finite double is finite. -/
theorem isFinite_of_abs_le {x b : Float} (hb : IsFinite b) (h : x.abs ≤ b) : IsFinite x.abs := by
  have hlimit := isFinite_iff.1 hb
  rw [le_iff_compare, toModel_abs] at h
  rw [isFinite_iff, toModel_abs]
  rcases unpack_pack_abs x.toModel.unpack with hfinite | hinfinity | hnan
  · exact hfinite
  · rw [hinfinity] at h
    cases hb : b.toModel.unpack with
    | infinity s =>
      rw [hb] at hlimit
      cases hlimit
    | _ =>
      rw [hb] at h
      cases h
  · rw [hnan] at h
    cases hb : b.toModel.unpack <;> rw [hb] at h <;> cases h

/-- A finite absolute value stands for the size of what the double stands for. -/
theorem exactValue_abs {x : Float} (h : IsFinite x.abs) :
    IsFinite x ∧ exactValue x.abs = |exactValue x| := by
  have hpacked := isFinite_iff.1 h
  rw [toModel_abs] at hpacked
  have habs : x.toModel.unpack.abs.isFinite = true := isFinite_of_pack hpacked
  have hfinite : IsFinite x := by
    rw [isFinite_iff]
    cases hunpack : x.toModel.unpack with
    | notANumber | infinity => rw [hunpack] at habs; cases habs
    | _ => rfl
  obtain ⟨hp, hu⟩ := unpack_toModel hfinite
  have hpabs : Packable x.toModel.unpack.abs := by
    cases hunpack : x.toModel.unpack <;> rw [hunpack] at hp <;> exact hp
  have hunits : unpackedUnits x.toModel.unpack.abs = |unpackedUnits x.toModel.unpack| := by
    cases x.toModel.unpack with
    | finite s m e hm => cases s with
      | negative => exact ((abs_neg _).trans (Nat.abs_cast _)).symm
      | positive => exact (Nat.abs_cast _).symm
    | _ => rfl
  refine ⟨hfinite, ?_⟩
  rw [exactValue_eq, exactValue_eq, ← (unpack_toModel h).2, toModel_abs,
    unpackedUnits_pack hpabs hpacked, hunits, hu, Int.cast_abs, abs_div]
  rw [abs_of_pos (by positivity : (0 : ℚ) < 2 ^ 1074)]

/-- A double whose absolute value stays below a limit. -/
theorem abs_exactValue_le {x b : Float} (hb : IsFinite b) (h : x.abs ≤ b) :
    IsFinite x ∧ |exactValue x| ≤ exactValue b := by
  have hfinite := isFinite_of_abs_le hb h
  obtain ⟨hx, hvalue⟩ := exactValue_abs hfinite
  exact ⟨hx, hvalue ▸ exactValue_le hfinite hb h⟩

/-! ## Quotients -/

/-- The bits of a mantissa in units of `2^e`, where a carry goes into the exponent. -/
def mantissaBits (m : Nat) (e : Int) : Nat :=
  if m < 2 ^ 52 then m else m - 2 ^ 52 + (e + 1075).toNat * 2 ^ 52

/-- The bits of a rounded mantissa: a carry out of it goes into the exponent. -/
theorem packedSize_bits {m : Nat} {e : Int} (hm : m ≤ 2 ^ 53) (he : -1074 ≤ e)
    (hnormal : 2 ^ 52 ≤ m ∨ e = -1074) :
    packedSize (mantissaBits m e / 2 ^ 52) (mantissaBits m e % 2 ^ 52) = inUnit m e := by
  obtain ⟨k, hk⟩ : ∃ k, (e + 1074).toNat = k := ⟨_, rfl⟩
  have hk' : (e + 1075).toNat = k + 1 := by omega
  simp only [mantissaBits, inUnit, hk, hk']
  split_ifs with hsmall
  · have hk0 : k = 0 := by omega
    rw [Nat.div_eq_of_lt hsmall, Nat.mod_eq_of_lt hsmall, hk0, packedSize, Nat.pow_zero,
      Nat.mul_one]
  · by_cases hcarry : m < 2 ^ 53
    · have hdiv : (m - 2 ^ 52 + (k + 1) * 2 ^ 52) / 2 ^ 52 = k + 1 := by omega
      have hmod : (m - 2 ^ 52 + (k + 1) * 2 ^ 52) % 2 ^ 52 = m - 2 ^ 52 := by omega
      rw [hdiv, hmod, packedSize, Nat.add_sub_of_le (Nat.not_lt.1 hsmall)]
    · have hdiv : (m - 2 ^ 52 + (k + 1) * 2 ^ 52) / 2 ^ 52 = k + 2 := by omega
      have hmod : (m - 2 ^ 52 + (k + 1) * 2 ^ 52) % 2 ^ 52 = 0 := by omega
      have hfull : m = 2 ^ 52 * 2 := by omega
      rw [hdiv, hmod, packedSize, hfull, Nat.add_zero, Nat.pow_succ]
      ring

/-- `10^k`-free comparison: a power of two is at most a quotient if it is so in naturals. -/
theorem two_zpow_le_iff {num den : Nat} (hden : 0 < den) (e : Int) :
    den * 2 ^ e.toNat ≤ num * 2 ^ (-e).toNat ↔ (2 : ℚ) ^ e ≤ num / den := by
  have hden' : (0 : ℚ) < den := by exact_mod_cast hden
  have hpow : (0 : ℚ) < 2 ^ (-e).toNat := by positivity
  rw [le_div_iff₀ hden', ← mul_le_mul_iff_left₀ hpow, mul_right_comm, ← two_pow_toNat,
    mul_comm (2 ^ e.toNat : ℚ)]
  exact_mod_cast Iff.rfl

/-- A quotient lies between the powers of two that the logarithms give. -/
theorem quotient_log {num den : Nat} (hnum : 0 < num) (hden : 0 < den) :
    (2 : ℚ) ^ ((Nat.log2 num : Int) - Nat.log2 den - 1) ≤ num / den ∧
      (num / den : ℚ) < 2 ^ ((Nat.log2 num : Int) - Nat.log2 den + 1) := by
  have hlog {n : Nat} (hn : 0 < n) :
      (2 : ℚ) ^ (n.log2 : Int) ≤ n ∧ (n : ℚ) < 2 ^ (n.log2 + 1 : Int) := by
    constructor
    · rw [zpow_natCast]
      exact_mod_cast Nat.log2_self_le hn.ne'
    · exact_mod_cast (Nat.lt_log2_self (n := n))
  have hden' : (0 : ℚ) < den := by exact_mod_cast hden
  constructor
  · rw [le_div_iff₀ hden']
    calc (2 : ℚ) ^ ((Nat.log2 num : Int) - Nat.log2 den - 1) * den
        ≤ 2 ^ ((Nat.log2 num : Int) - Nat.log2 den - 1) * 2 ^ (den.log2 + 1 : Int) := by
          gcongr
          exact (hlog hden).2.le
      _ = 2 ^ (num.log2 : Int) := by
          rw [← zpow_add₀ (by norm_num)]
          congr 1
          omega
      _ ≤ num := (hlog hnum).1
  · rw [div_lt_iff₀ hden']
    calc (num : ℚ) < 2 ^ (num.log2 + 1 : Int) := (hlog hnum).2
      _ = 2 ^ ((Nat.log2 num : Int) - Nat.log2 den + 1) * 2 ^ (den.log2 : Int) := by
          rw [← zpow_add₀ (by norm_num)]
          congr 1
          omega
      _ ≤ 2 ^ ((Nat.log2 num : Int) - Nat.log2 den + 1) * den := by
          gcongr
          exact (hlog hden).1

/-- The exponent of the last place that is chosen for a quotient. -/
def lastPlace (num den : Nat) : Int :=
  let top : Int := (Nat.log2 num : Int) - (Nat.log2 den : Int)
  let full := den * 2 ^ top.toNat ≤ num * 2 ^ (-top).toNat
  max (if full then top - 52 else top - 53) (-1074)

theorem nearestBits_eq {num den : Nat} (hnum : 0 < num) :
    nearestBits num den = min (mantissaBits (roundShift num den (lastPlace num den))
      (lastPlace num den)) (2047 * 2 ^ 52) := if_neg hnum.ne'

theorem lastPlace_least (num den : Nat) : -1074 ≤ lastPlace num den := le_max_right _ _

/-- In units of the last place a quotient has 53 bits, unless the unit is the least one. -/
theorem lastPlace_spec {num den : Nat} (hnum : 0 < num) (hden : 0 < den) :
    (num / den : ℚ) < 2 ^ (lastPlace num den + 53) ∧
      (lastPlace num den = -1074 ∨ 2 ^ (lastPlace num den + 52) ≤ (num / den : ℚ)) := by
  obtain ⟨hlow, hhigh⟩ := quotient_log hnum hden
  obtain ⟨top, htop⟩ : ∃ top : Int, (Nat.log2 num : Int) - Nat.log2 den = top := ⟨_, rfl⟩
  have hle {j k : Int} (h : j ≤ k) : (2 : ℚ) ^ j ≤ 2 ^ k := zpow_le_zpow_right₀ (by norm_num) h
  simp only [lastPlace, htop] at hlow hhigh ⊢
  by_cases hfull : den * 2 ^ top.toNat ≤ num * 2 ^ (-top).toNat
  · rw [if_pos hfull]
    refine ⟨hhigh.trans_le (hle (by omega)), ?_⟩
    by_cases hleast : max (top - 52) (-1074) = -1074
    · exact .inl hleast
    · exact .inr ((hle (by omega)).trans ((two_zpow_le_iff hden top).1 hfull))
  · have hless := not_le.1 ((two_zpow_le_iff hden top).not.1 hfull)
    rw [if_neg hfull]
    refine ⟨hless.trans_le (hle (by omega)), ?_⟩
    by_cases hleast : max (top - 53) (-1074) = -1074
    · exact .inl hleast
    · exact .inr ((hle (by omega)).trans hlow)

/-- A mantissa in units of `2^e` is off by half a unit at most. -/
theorem roundShift_near (num : Nat) {den : Nat} (hden : 0 < den) (e : Int) :
    |(roundShift num den e * 2 ^ e - num / den : ℚ)| ≤ 2 ^ e / 2 := by
  have hpow : (0 : ℚ) < 2 ^ e := by positivity
  have hquotient : ((num * 2 ^ (-e).toNat : Nat) / (den * 2 ^ e.toNat : Nat) : ℚ) =
      num / den / 2 ^ e := by
    have hden' : (den : ℚ) ≠ 0 := by exact_mod_cast hden.ne'
    push_cast
    rw [two_pow_toNat e]
    field_simp
  have hnear := roundDiv_sub_le (n := num * 2 ^ (-e).toNat)
    (Nat.mul_pos hden (Nat.two_pow_pos e.toNat))
  rw [hquotient] at hnear
  calc |(roundShift num den e * 2 ^ e - num / den : ℚ)|
      = |(roundShift num den e - num / den / 2 ^ e : ℚ)| * 2 ^ e := by
        rw [← abs_of_pos hpow, ← abs_mul, abs_of_pos hpow, sub_mul, div_mul_cancel₀ _ hpow.ne']
    _ ≤ 1 / 2 * 2 ^ e := by
        gcongr
        exact hnear
    _ = 2 ^ e / 2 := by ring

/-- What finite bits without a sign stand for. -/
theorem exactValue_ofBits {n : Nat} (hn : n ≤ 2047 * 2 ^ 52)
    (h : IsFinite (.ofBits (.ofNat n))) : n < 2047 * 2 ^ 52 ∧
      exactValue (.ofBits (.ofNat n)) = packedSize (n / 2 ^ 52) (n % 2 ^ 52) / 2 ^ 1074 := by
  obtain ⟨b, hb⟩ : ∃ b : BitVec Format.binary64.numBits, (UInt64.ofNat n).toBitVec = b := ⟨_, rfl⟩
  have hbits : b.toNat = n := by
    rw [← hb]
    exact Nat.mod_eq_of_lt (by omega)
  have hmodel : (Float.ofBits (.ofNat n)).toModel.unpack =
      UnpackedFloat.unpack .binary64 (UnpackedFloat.pack .binary64
        (UnpackedFloat.unpack .binary64 b)) := by
    rw [← hb]
    rfl
  have hpacked := isFinite_iff.1 h
  rw [hmodel] at hpacked
  have hexponent := (isFinite_unpack_iff b).1 (isFinite_of_pack hpacked)
  obtain ⟨hpackable, hunits⟩ := unpack_spec hexponent
  have hsign : Sign.ofBitVec (unpackSign b) = .positive := by
    have hzero : unpackSign b = 0#1 := by
      rw [← BitVec.toNat_inj]
      show (b.toNat >>> 63) % 2 ^ 1 = 0
      rw [Nat.shiftRight_eq_div_pow]
      omega
    rw [hzero]
    rfl
  rw [unpackExponent_toNat, hbits] at hexponent hunits
  rw [unpackMantissa_toNat, hbits, hsign] at hunits
  have hless : n < 2047 * 2 ^ 52 := by omega
  have hmod : n / 2 ^ 52 % 2 ^ 11 = n / 2 ^ 52 := by omega
  refine ⟨hless, ?_⟩
  rw [exactValue_eq, ← (unpack_toModel h).2, hmodel, unpackedUnits_pack hpackable hpacked, hunits,
    hmod]
  rfl

/-- A quotient that has 53 bits in units of `2^e` has so many when it is rounded. -/
theorem roundShift_bounds {num den : Nat} (hden : 0 < den) {e : Int}
    (hhigh : (num / den : ℚ) < 2 ^ (e + 53)) :
    roundShift num den e ≤ 2 ^ 53 ∧
      (2 ^ (e + 52) ≤ (num / den : ℚ) → 2 ^ 52 ≤ roundShift num den e) := by
  obtain ⟨hbelow, habove⟩ := abs_le.1 (roundShift_near num hden e)
  have hpow : (0 : ℚ) < 2 ^ e := by positivity
  have hsplit (k : Nat) : (2 : ℚ) ^ (e + k) = 2 ^ e * 2 ^ k := by
    rw [zpow_add₀ (by norm_num), zpow_natCast]
  have hless {a b : ℚ} (h : 2 ^ e * a < 2 ^ e * b) : a < b := lt_of_mul_lt_mul_left h hpow.le
  constructor
  · have hlt : (roundShift num den e : ℚ) < 2 ^ 53 + 1 := by
      refine hless ?_
      have := hsplit 53
      push_cast at this
      linarith
    have hnat : roundShift num den e < 2 ^ 53 + 1 := by exact_mod_cast hlt
    omega
  · intro hlow
    have hlt : (2 ^ 52 : ℚ) < roundShift num den e + 1 := by
      refine hless ?_
      have := hsplit 52
      push_cast at this
      linarith
    have hnat : 2 ^ 52 < roundShift num den e + 1 := by exact_mod_cast hlt
    omega

/-- The nearest double to a quotient is the rounded mantissa in units of the last place. -/
theorem exactValue_ofRatio {num den : Nat} (hnum : 0 < num) (hden : 0 < den)
    (h : IsFinite (ofRatio false num den)) : exactValue (ofRatio false num den) =
      roundShift num den (lastPlace num den) * 2 ^ lastPlace num den := by
  obtain ⟨hless, hvalue⟩ := exactValue_ofBits (nearestBits_le num den) h
  have hratio : ofRatio false num den = .ofBits (.ofNat (nearestBits num den)) := rfl
  obtain ⟨hhigh, hlow⟩ := lastPlace_spec hnum hden
  have hleast := lastPlace_least num den
  rw [hratio, hvalue]
  rw [nearestBits_eq hnum] at hless ⊢
  generalize lastPlace num den = e at *
  obtain ⟨hmantissa, hnormal⟩ := roundShift_bounds hden hhigh
  rw [min_eq_left (by omega), packedSize_bits hmantissa hleast (hlow.symm.imp_left hnormal),
    inUnit_eq hleast]

/-- The nearest double to a quotient is off by a part in `2^53` of it, or by half of the least
unit. -/
theorem ofRatio_near {num den : Nat} (hden : 0 < den) (h : IsFinite (ofRatio false num den)) :
    |exactValue (ofRatio false num den) - num / den| ≤ (num / den / 2 ^ 53 + 1 / 2 ^ 1075 : ℚ) := by
  rcases Nat.eq_zero_or_pos num with rfl | hnum
  · have hzero : exactValue (ofRatio false 0 den) = 0 :=
      (exactValue_ofBits (nearestBits_le 0 den) h).2.trans (by simp [nearestBits, packedSize])
    rw [hzero]
    norm_num
  · have hlow := (lastPlace_spec hnum hden).2
    rw [exactValue_ofRatio hnum hden h]
    refine (roundShift_near num hden _).trans ?_
    generalize lastPlace num den = e at *
    have hquotient : (0 : ℚ) ≤ num / den := by positivity
    rcases hlow with rfl | hlow
    · have hhalf : (2 ^ (-1074 : Int) / 2 : ℚ) = 1 / 2 ^ 1075 := by
        rw [div_eq_mul_inv, ← zpow_sub_one₀ (by norm_num), one_div, ← zpow_natCast, ← zpow_neg]
        rfl
      rw [hhalf]
      exact le_add_of_nonneg_left (by positivity)
    · have hhalf : (2 ^ (e + 52) / 2 ^ 53 : ℚ) = 2 ^ e / 2 := by
        rw [zpow_add₀ (by norm_num)]
        norm_num
        ring
      rw [← hhalf]
      refine le_add_of_le_of_nonneg ?_ (by positivity)
      gcongr

/-! ## Lengths -/

theorem floorSqrtDigits_spec (digits : Nat) {n : Nat} (h : n < 4 ^ digits) :
    floorSqrtDigits digits n * floorSqrtDigits digits n ≤ n ∧
      n < (floorSqrtDigits digits n + 1) * (floorSqrtDigits digits n + 1) := by
  induction digits generalizing n with
  | zero =>
    have hzero : n = 0 := by simpa using h
    simp [floorSqrtDigits, hzero]
  | succ digits ih =>
    obtain ⟨hlow, hhigh⟩ := ih (n := n / 4) (by omega)
    simp only [floorSqrtDigits]
    generalize floorSqrtDigits digits (n / 4) = r at hlow hhigh ⊢
    have hfour : (2 * r) * (2 * r) = 4 * (r * r) := by ring
    have hnext : (2 * r + 1 + 1) * (2 * r + 1 + 1) = 4 * ((r + 1) * (r + 1)) := by ring
    split_ifs with hone
    · exact ⟨hone, by omega⟩
    · exact ⟨by omega, by omega⟩

/-- The root of a natural, rounded down. -/
theorem floorSqrt_eq (n : Nat) : floorSqrt n = Nat.sqrt n := by
  have hless : n < 4 ^ (Nat.log2 n / 2 + 1) := by
    have hlog := Nat.lt_log2_self (n := n)
    have hfour : (4 : Nat) = 2 ^ 2 := rfl
    rw [hfour, ← Nat.pow_mul]
    exact hlog.trans_le (Nat.pow_le_pow_right (by omega) (by omega))
  obtain ⟨hlow, hhigh⟩ := floorSqrtDigits_spec _ hless
  exact Nat.eq_sqrt.2 ⟨hlow, hhigh⟩

/-- Twice a root of enough bits, with a last bit for what is left over, is off by a part in
`2^64`. -/
theorem doubledRoot_near {n : Nat} (hn : 2 ^ 128 ≤ n) :
    |((2 * floorSqrt n + if floorSqrt n * floorSqrt n = n then 0 else 1 : Nat) : ℝ) - 2 * √n| ≤
      2 * √n / 2 ^ 64 := by
  have hlow : (floorSqrt n : ℝ) ≤ √n := by
    rw [floorSqrt_eq]
    exact Real.nat_sqrt_le_real_sqrt
  have hhigh : √n < floorSqrt n + 1 := by
    rw [floorSqrt_eq]
    exact Real.real_sqrt_lt_nat_sqrt_succ
  split_ifs with hsquare
  · have hexact : √n = floorSqrt n := by
      rw [← hsquare, Nat.cast_mul, Real.sqrt_mul_self (Nat.cast_nonneg _)]
      rw [hsquare]
    rw [hexact, Nat.add_zero, Nat.cast_mul, Nat.cast_ofNat, sub_self, abs_zero]
    positivity
  · have hlarge : (2 ^ 64 : ℝ) ≤ √n := by
      refine Real.le_sqrt_of_sq_le ?_
      norm_num1
      exact_mod_cast hn
    have hone : (1 : ℝ) ≤ 2 * √n / 2 ^ 64 := by
      rw [le_div_iff₀ (by positivity)]
      linarith
    push_cast
    rw [abs_le]
    constructor <;> linarith

/-- A root of more bits in a smaller unit. -/
theorem two_mul_sqrt_mul_four_pow (n extra : Nat) (e : Int) :
    2 * √(n * 4 ^ extra : Nat) * 2 ^ (e - extra - 1) = √n * (2 : ℝ) ^ e := by
  have hpower : ((4 : ℝ) ^ extra) = 2 ^ extra * 2 ^ extra := by
    rw [← mul_pow]
    norm_num
  have hexponent : (2 : ℝ) ^ e = 2 ^ extra * 2 ^ (e - extra - 1) * 2 := by
    rw [← zpow_natCast, ← zpow_add₀ (by norm_num), ← zpow_add_one₀ (by norm_num)]
    congr 1
    omega
  rw [Nat.cast_mul, Nat.cast_pow, Nat.cast_ofNat, hpower, Real.sqrt_mul (Nat.cast_nonneg n),
    Real.sqrt_mul_self (by positivity), hexponent]
  ring

/-- A multiple of a power of two, as a quotient of naturals, that is rounded. -/
theorem ofRatio_two_pow_near {k : Nat} {place : Int}
    (h : IsFinite (ofRatio false (k * 2 ^ place.toNat) (2 ^ (-place).toNat))) :
    |(exactValue (ofRatio false (k * 2 ^ place.toNat) (2 ^ (-place).toNat)) : ℝ) -
        k * 2 ^ place| ≤ k * 2 ^ place / 2 ^ 53 + 1 / 2 ^ 1075 := by
  have hquotient : (k * 2 ^ place.toNat : Nat) / (2 ^ (-place).toNat : Nat) =
      (k * 2 ^ place : ℚ) := by
    push_cast
    rw [two_pow_toNat place, ← mul_assoc, mul_div_assoc, div_self (by positivity), mul_one]
  have hnear := ofRatio_near (Nat.two_pow_pos (-place).toNat) h
  rw [hquotient] at hnear
  have hcast := (Rat.cast_le (K := ℝ)).2 hnear
  push_cast at hcast
  exact hcast

/-- A root is taken with 64 bits, and rounded to 53 of them. -/
theorem rootNearest_near {n : Nat} (hn : 0 < n) {e : Int} (h : IsFinite (rootNearest n e)) :
    |(exactValue (rootNearest n e) : ℝ) - √n * 2 ^ e| ≤ √n * 2 ^ e / 2 ^ 52 + 1 / 2 ^ 1075 := by
  obtain ⟨extra, hextra⟩ : ∃ extra, 64 - Nat.log2 n / 2 = extra := ⟨_, rfl⟩
  obtain ⟨place, hplace⟩ : ∃ place : Int, e - extra - 1 = place := ⟨_, rfl⟩
  obtain ⟨doubled, hdoubled⟩ : ∃ doubled, (2 * floorSqrt (n * 4 ^ extra) +
    if floorSqrt (n * 4 ^ extra) * floorSqrt (n * 4 ^ extra) = n * 4 ^ extra then 0 else 1) =
      doubled := ⟨_, rfl⟩
  have hlarge : 2 ^ 128 ≤ n * 4 ^ extra := by
    have hfour : (4 : Nat) ^ extra = 2 ^ (2 * extra) := by rw [Nat.pow_mul]
    calc 2 ^ 128 ≤ 2 ^ (n.log2 + 2 * extra) := Nat.pow_le_pow_right (by omega) (by omega)
      _ = 2 ^ n.log2 * 4 ^ extra := by rw [Nat.pow_add, hfour]
      _ ≤ n * 4 ^ extra := Nat.mul_le_mul_right _ (Nat.log2_self_le hn.ne')
  have hroot : rootNearest n e =
      ofRatio false (doubled * 2 ^ place.toNat) (2 ^ (-place).toNat) := by
    simp only [rootNearest, hextra, hplace, hdoubled]
  have hvalue := ofRatio_two_pow_near (hroot ▸ h)
  rw [← hroot] at hvalue
  have hlength : |doubled * 2 ^ place - √n * (2 : ℝ) ^ e| ≤ √n * 2 ^ e / 2 ^ 64 := by
    have hnear := doubledRoot_near hlarge
    have hpow : (0 : ℝ) < 2 ^ place := by positivity
    rw [hdoubled] at hnear
    rw [← two_mul_sqrt_mul_four_pow n extra e, hplace, ← sub_mul, abs_mul, abs_of_pos hpow,
      mul_div_right_comm]
    exact mul_le_mul_of_nonneg_right hnear hpow.le
  generalize (1 / 2 ^ 1075 : ℝ) = least at hvalue ⊢
  have hpositive : 0 ≤ √n * (2 : ℝ) ^ e := by positivity
  rw [abs_le] at hvalue hlength ⊢
  constructor <;> linarith

theorem abs_exactValue (x : Float) : |exactValue x| = (magnitude x).m * 2 ^ (magnitude x).e := by
  have hpositive : (0 : ℚ) ≤ (magnitude x).m * 2 ^ (magnitude x).e := by positivity
  rw [exactValue]
  simp only [ratio_eq]
  split
  · rw [abs_neg, abs_of_nonneg hpositive]
  · exact abs_of_nonneg hpositive

/-- Magnitudes over one exponent are what they were. -/
theorem align_eq (a b : Magnitude) :
    let (m, n, e) := a.align b
    (m * 2 ^ e : ℝ) = a.m * 2 ^ a.e ∧ (n * 2 ^ e : ℝ) = b.m * 2 ^ b.e := by
  have hshift (k : Nat) {e f : Int} (h : e ≤ f) :
      ((k * 2 ^ (f - e).toNat : Nat) * 2 ^ e : ℝ) = k * 2 ^ f := by
    have hexponent : f = (f - e).toNat + e := by omega
    push_cast
    rw [mul_assoc, ← zpow_natCast, ← zpow_add₀ (by norm_num), ← hexponent]
  exact ⟨hshift _ (min_le_left _ _), hshift _ (min_le_right _ _)⟩

theorem sq_exactValue {x : Float} {m : Nat} {e : Int}
    (h : (m * 2 ^ e : ℝ) = (magnitude x).m * 2 ^ (magnitude x).e) :
    (exactValue x : ℝ) ^ 2 = (m * 2 ^ e) ^ 2 := by
  have hsize : |(exactValue x : ℝ)| = (magnitude x).m * 2 ^ (magnitude x).e := by
    rw [← Rat.cast_abs, abs_exactValue]
    push_cast
    rfl
  rw [← sq_abs, hsize, h]

theorem not_isFinite_infinity : ¬ IsFinite infinity := by
  rintro ⟨-, hinfinite⟩
  revert hinfinite
  decide

theorem not_isFinite_notANumber : ¬ IsFinite notANumber := by
  rintro ⟨hnumber, -⟩
  revert hnumber
  decide

theorem sqrt_add_sq_units (a b : Nat) (e : Int) :
    √((a * 2 ^ e) ^ 2 + (b * 2 ^ e) ^ 2 : ℝ) = √(a * a + b * b : Nat) * 2 ^ e := by
  have hsum : ((a * 2 ^ e) ^ 2 + (b * 2 ^ e) ^ 2 : ℝ) =
      (a * a + b * b : Nat) * (2 ^ e * 2 ^ e) := by
    push_cast
    ring
  rw [hsum, Real.sqrt_mul (Nat.cast_nonneg _), Real.sqrt_mul_self (by positivity)]

/-- A finite length is off by a part in `2^52` of itself, or by half of the least unit. -/
theorem hypot_near {x y : Float} (h : IsFinite (hypot x y)) : IsFinite x ∧ IsFinite y ∧
    |(exactValue (hypot x y) : ℝ) - √(exactValue x ^ 2 + exactValue y ^ 2)| ≤
      √(exactValue x ^ 2 + exactValue y ^ 2) / 2 ^ 52 + 1 / 2 ^ 1075 := by
  have hslack (r : ℝ) (hr : 0 ≤ r) : |r - r| ≤ r / 2 ^ 52 + 1 / 2 ^ 1075 := by
    rw [sub_self, abs_zero]
    positivity
  obtain ⟨a, b, e, halign⟩ : ∃ a b e, (magnitude x).align (magnitude y) = (a, b, e) :=
    ⟨_, _, _, rfl⟩
  have hsame := align_eq (magnitude x) (magnitude y)
  rw [halign] at hsame
  have hx := sq_exactValue hsame.1
  have hy := sq_exactValue hsame.2
  revert h
  simp only [hypot, halign]
  split_ifs with hinfinite hnumber ha hb
  · exact fun h => absurd h not_isFinite_infinity
  · exact fun h => absurd h not_isFinite_notANumber
  all_goals
    intro h
    rw [Bool.or_eq_true, not_or, Bool.not_eq_true, Bool.not_eq_true] at hinfinite hnumber
    refine ⟨⟨hnumber.1, hinfinite.1⟩, ⟨hnumber.2, hinfinite.2⟩, ?_⟩
  · rw [(exactValue_abs h).2, hx, ha, Nat.cast_zero, zero_mul, zero_pow two_ne_zero, zero_add,
      Real.sqrt_sq_eq_abs, Rat.cast_abs]
    exact hslack _ (abs_nonneg _)
  · rw [(exactValue_abs h).2, hy, hb, Nat.cast_zero, zero_mul, zero_pow two_ne_zero, add_zero,
      Real.sqrt_sq_eq_abs, Rat.cast_abs]
    exact hslack _ (abs_nonneg _)
  · rw [hx, hy, sqrt_add_sq_units]
    exact rootNearest_near (Nat.add_pos_left (Nat.mul_pos (Nat.pos_of_ne_zero ha)
      (Nat.pos_of_ne_zero ha)) _) h

end PartProgram.Number

import PartProgram.Proofs.Signs

/-!
# PartProgram.Proofs.Nearest

Sums of doubles are the nearest doubles to the exact sums. Bits are dropped from a size so that no
multiple of the last one kept is nearer; and a number with a smaller last bit has all its bits
below the first one of the size, where the rounded size itself does not go.

* `roundDiv_nearest`, `Dropped.nearest`: what is rounded is the nearest of its kind.
* `isFinite_add`, `add_nearest`: a sum with a small double is finite, and no double is nearer.
* `sub_pos`, `isFinite_of_pos_of_lt`: differences to a smaller double.
-/

namespace PartProgram.Number

open Float.Model UnpackedFloat

/-! ## Sizes -/

/-- No multiple of the divisor is nearer than the one that is taken. -/
theorem roundDiv_nearest {n d : Nat} (hd : 0 < d) (k : Nat) :
    (roundDiv n d * d - n : ℤ).natAbs ≤ (k * d - n : ℤ).natAbs := by
  obtain ⟨habove, hbelow⟩ := roundDiv_near (n := n) hd
  have hapart {i j : Nat} (h : i < j) : i * d + d ≤ j * d := by
    rw [← Nat.succ_mul]
    exact Nat.mul_le_mul_right d h
  rcases lt_trichotomy k (roundDiv n d) with hlt | rfl | hlt
  · have := hapart hlt
    omega
  · exact le_rfl
  · have := hapart hlt
    omega

/-- No packed size is nearer than the rounded one. -/
theorem Dropped.nearest {size rounded : Nat} (h : Dropped size rounded) {k : Nat} {f : Int}
    (hfits : Fits k f) : (rounded - size : ℤ).natAbs ≤ (inUnit k f - size : ℤ).natAbs := by
  obtain ⟨m, t, e, he, hbits, rfl, rfl⟩ := h
  obtain ⟨unit, hunit⟩ : ∃ unit, 2 ^ (e + 1074).toNat = unit := ⟨_, rfl⟩
  have hscale (a : Nat) :
      ((a * unit : Nat) - (m * unit : Nat) : ℤ).natAbs = (a - m : ℤ).natAbs * unit := by
    push_cast
    rw [← sub_mul, Int.natAbs_mul, Int.natAbs_natCast]
  have hrounded : inUnit (roundDiv m (2 ^ t)) (e + t) = roundDiv m (2 ^ t) * 2 ^ t * unit := by
    rw [← inUnit_mul_two_pow he, inUnit, hunit]
  have hsize : inUnit m e = m * unit := by rw [inUnit, hunit]
  rw [hrounded, hsize, hscale]
  have hgrid (a : Nat) : (roundDiv m (2 ^ t) * 2 ^ t - m : ℤ).natAbs * unit ≤
      ((a * 2 ^ t : Nat) - m : ℤ).natAbs * unit := by
    have hnearest := roundDiv_nearest (n := m) (Nat.two_pow_pos t) a
    push_cast at hnearest ⊢
    exact Nat.mul_le_mul_right unit hnearest
  rcases le_or_gt (e + t) f with hf | hf
  · obtain ⟨more, hmore⟩ := Int.eq_ofNat_of_zero_le (Int.sub_nonneg_of_le hf)
    have hother : inUnit k f = k * 2 ^ more * 2 ^ t * unit := by
      have hexponent : f = e + t + more := by omega
      rw [hexponent, ← inUnit_mul_two_pow (by omega), ← inUnit_mul_two_pow he, inUnit, hunit]
    rw [hother, hscale]
    exact_mod_cast hgrid (k * 2 ^ more)
  · -- the other size has its first bit below the first one of the mantissa
    rcases hbits with rfl | hbits
    · simp
    · have hother : inUnit k f ≤ 2 ^ 52 * 2 ^ t * unit := by
        have hleast := hfits.exponent
        calc inUnit k f ≤ 2 ^ 53 * 2 ^ (f + 1074).toNat := Nat.mul_le_mul_right _ hfits.mantissa.le
          _ = 2 ^ (53 + (f + 1074).toNat) := (Nat.pow_add ..).symm
          _ ≤ 2 ^ (52 + t + (e + 1074).toNat) := Nat.pow_le_pow_right (by decide) (by omega)
          _ = 2 ^ 52 * 2 ^ t * unit := by rw [Nat.pow_add, Nat.pow_add, hunit]
      have hfirst : 2 ^ 52 * 2 ^ t * unit ≤ m * unit := by
        rw [← Nat.pow_add]
        exact Nat.mul_le_mul_right unit hbits
      refine (hgrid (2 ^ 52)).trans ?_
      rw [← hscale]
      omega

/-- No packed float is nearer to the number than the one with its digits dropped. -/
theorem Drops.nearest {n : Int} {u : UnpackedFloat} (h : Drops n u) (s : Sign) {k : Nat} {f : Int}
    (hfits : Fits k f) : (unpackedUnits u - n).natAbs ≤ (s.apply (inUnit k f) - n).natAbs := by
  obtain ⟨t, size, rounded, rfl, hunits, hdropped⟩ := h.dropped
  have hsame := hdropped.nearest hfits
  have hzero := hdropped.nearest (k := 0) (f := -1074) ⟨by decide, le_rfl, .inr rfl⟩
  rw [inUnit, Nat.zero_mul] at hzero
  rw [hunits]
  cases s <;> cases t <;> simp only [Sign.apply] <;> omega

/-! ## Doubles -/

variable {a b c x y : Float}

/-- The bits that a finite double is packed with. -/
theorem IsFinite.exists_fits (h : IsFinite x) :
    ∃ s k f, Fits k f ∧ units x = Sign.apply s (inUnit k f) := by
  obtain ⟨hpackable, hunits⟩ := unpack_toModel h
  have hfinite := isFinite_iff.1 h
  rw [← hunits]
  cases hunpack : x.toModel.unpack with
  | finite s m e hm =>
    rw [hunpack] at hpackable
    exact ⟨s, m, e, hpackable, rfl⟩
  | zero s =>
    refine ⟨.positive, 0, -1074, ⟨by decide, le_rfl, .inr rfl⟩, ?_⟩
    rw [inUnit, Nat.zero_mul]
    rfl
  | _ =>
    rw [hunpack] at hfinite
    cases hfinite

/-- The exponent of a finite double is at most the largest one. -/
theorem magnitude_exponent_le (h : IsFinite x) : (magnitude x).e ≤ 971 := by
  obtain ⟨hnumber, hfinite⟩ := h
  rw [isNaN, decide_eq_false_iff_not] at hnumber
  rw [isInfinite, beq_eq_false_iff_ne] at hfinite
  simp only [magnitude]
  split
  · show (-1074 : Int) ≤ 971
    omega
  · show (_ : Int) - 1074 ≤ 971
    omega

/-- There is a largest double. -/
theorem natAbs_units_le (h : IsFinite x) {k : Nat} (hk : 2045 ≤ k) :
    (units x).natAbs + 2 ^ k ≤ 2 ^ 53 * 2 ^ k := by
  have hsize : (units x).natAbs = inUnit (magnitude x).m (magnitude x).e := by
    rw [units]
    split_ifs
    · exact (Int.natAbs_neg _).trans (Int.natAbs_natCast _)
    · exact Int.natAbs_natCast _
  have hexponent : 2 ^ ((magnitude x).e + 1074).toNat ≤ 2 ^ k := by
    have hlargest := magnitude_exponent_le h
    exact Nat.pow_le_pow_right (by decide) (by omega)
  have hmantissa := magnitude_mantissa x
  rw [hsize, inUnit]
  generalize 2 ^ k = unit at hexponent ⊢
  calc (magnitude x).m * 2 ^ ((magnitude x).e + 1074).toNat + unit
      ≤ (magnitude x).m * unit + unit := by gcongr
    _ = ((magnitude x).m + 1) * unit := (Nat.succ_mul ..).symm
    _ ≤ 2 ^ 53 * unit := Nat.mul_le_mul_right unit hmantissa

/-- A sum with a double that is not large is finite: the sum is no farther than the other
double. -/
theorem isFinite_add (ha : IsFinite a) (hb : IsFinite b) (hsmall : |exactValue b| ≤ 2 ^ 100) :
    IsFinite (a + b) := by
  have hdrops := drops_units_add ha hb
  obtain ⟨s, k, f, hfits, hunits⟩ := ha.exists_fits
  have hnear := hdrops.nearest s hfits
  rw [← hunits] at hnear
  rw [exactValue_eq] at hsmall
  have hsize := natAbs_le_of_abs_le hsmall
  obtain ⟨low, hlow⟩ : ∃ low, 100 + 1074 = low := ⟨_, rfl⟩
  obtain ⟨top, htop⟩ : ∃ top, 2045 = top := ⟨_, rfl⟩
  have hlargest := natAbs_units_le ha htop.le
  have hstep : 2 ^ (1 + low) < 2 ^ top := Nat.pow_lt_pow_right (by decide) (by omega)
  refine isFinite_iff.2 (isFinite_pack hdrops.finite hdrops.packable
    (by omega : 53 + top ≤ 2098) ?_)
  rw [hlow] at hsize
  rw [Nat.pow_add] at hstep ⊢
  omega

/-- No double is nearer to an exact sum. -/
theorem add_nearest (ha : IsFinite a) (hb : IsFinite b) (h : IsFinite (a + b)) (hy : IsFinite y) :
    |exactValue (a + b) - (exactValue a + exactValue b)| ≤
      |exactValue y - (exactValue a + exactValue b)| := by
  have hdrops := drops_units_add ha hb
  obtain ⟨s, k, f, hfits, hunits⟩ := hy.exists_fits
  have hnear := hdrops.nearest s hfits
  rw [← hunits, ← units_of_pack hdrops.packable h rfl] at hnear
  have hscaled (z : Float) : exactValue z - (exactValue a + exactValue b) =
      ((units z - (units a + units b) : ℤ) : ℚ) / 2 ^ 1074 := by
    rw [exactValue_eq, exactValue_eq, exactValue_eq, ← add_div, ← sub_div, Int.cast_sub,
      Int.cast_add]
  have hunit : (0 : ℚ) < 2 ^ 1074 := by positivity
  rw [hscaled, hscaled, abs_div, abs_div, abs_of_pos hunit, div_le_div_iff_of_pos_right hunit,
    ← Int.cast_abs, ← Int.cast_abs, Int.cast_le, Int.abs_eq_natAbs, Int.abs_eq_natAbs]
  exact_mod_cast hnear

/-- A finite sum is off by at most its own part in `2^53`. -/
theorem exactValue_add (ha : IsFinite a) (hb : IsFinite b) (h : IsFinite (a + b)) :
    |exactValue (a + b) - (exactValue a + exactValue b)| ≤ |exactValue (a + b)| / 2 ^ 53 := by
  have hrounds := (drops_units_add ha hb).rounds
  have hnear := hrounds.near
  rw [← units_of_pack hrounds.packable h rfl] at hnear
  have hvalue := exactValue_near hnear
  rwa [Int.cast_add, add_div, ← exactValue_eq, ← exactValue_eq] at hvalue

theorem exactValue_one : exactValue 1.0 = 1 := by
  rw [exactValue_of_ratio (2 ^ 52) (2 ^ 52) (by decide) (by decide)]
  norm_num

/-! ## Positive differences -/

/-- The difference to a smaller double is positive, and maybe infinite. -/
protected theorem sub_pos (ha : IsFinite a) (hb : IsFinite b) (h : exactValue b < exactValue a) :
    0.0 < a - b := by
  have hrounds := (drops_units_sub ha hb).rounds
  have hnear := hrounds.near
  have hless : units b < units a := by
    rw [exactValue_eq, exactValue_eq, div_lt_div_iff_of_pos_right (by positivity)] at h
    exact_mod_cast h
  exact zero_lt_iff.2 (positive_pack (positive_of_units (by omega)) hrounds.packable)

/-- What lies between zero and a finite double is finite. -/
theorem isFinite_of_pos_of_lt (hx : 0.0 < x) (hc : IsFinite c) (h : x < c) : IsFinite x := by
  have hpositive := zero_lt_iff.1 hx
  have hlimit := isFinite_iff.1 hc
  rw [lt_iff_compare] at h
  rw [isFinite_iff]
  cases hunpack : x.toModel.unpack with
  | finite => rfl
  | infinity s =>
    rw [hunpack] at hpositive h
    cases hpositive
    cases hbound : c.toModel.unpack with
    | infinity t =>
      rw [hbound] at hlimit
      cases hlimit
    | _ =>
      rw [hbound] at h
      cases h
  | _ =>
    rw [hunpack] at hpositive
    cases hpositive

end PartProgram.Number

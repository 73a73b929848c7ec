import Mathlib
import PartProgram.Number.Digits
import PartProgram.Proofs.Order

/-!
# PartProgram.Proofs.Rounding

Doubles as whole numbers. Every finite double is a whole number of units of `2^-1074`, and so is
every sum and difference of them; what is left to say of a difference is how it is rounded.

* `roundDiv_near`: a quotient is rounded by at most one half.
* `roundedMantissa_shift`: digits are dropped from a mantissa as a quotient is rounded.
* `drops_sub`: a difference is the exact one with the digits dropped that do not fit.
* `units_sub`: a difference is off by at most its own part in `2^53`.
-/

namespace PartProgram.Number

open Float.Model UnpackedFloat

/-! ## Quotients -/

/-- A quotient is rounded by at most one half. -/
theorem roundDiv_near {n d : Nat} (hd : 0 < d) :
    2 * (roundDiv n d * d) ≤ 2 * n + d ∧ 2 * n ≤ 2 * (roundDiv n d * d) + d := by
  have hn : n = n / d * d + n % d := (Nat.div_add_mod' n d).symm
  have hr : n % d < d := Nat.mod_lt n hd
  simp only [roundDiv]
  split_ifs with hless hmore
  · omega
  · rw [Nat.add_mul]
    omega
  · have heven : n / d % 2 = 0 ∨ n / d % 2 = 1 := by omega
    rcases heven with h | h
    · rw [h, Nat.add_zero]
      omega
    · rw [h, Nat.add_mul]
      omega

theorem roundDiv_le {n d k : Nat} (hd : 0 < d) (h : n ≤ k * d) : roundDiv n d ≤ k := by
  have hnear := (roundDiv_near (n := n) hd).1
  by_contra hlt
  have hmore : (k + 1) * d ≤ roundDiv n d * d := Nat.mul_le_mul_right d (by omega)
  rw [Nat.add_mul] at hmore
  omega

theorem le_roundDiv {n d k : Nat} (hd : 0 < d) (h : k * d ≤ n) : k ≤ roundDiv n d := by
  have hnear := (roundDiv_near (n := n) hd).2
  by_contra hlt
  have hmore : (roundDiv n d + 1) * d ≤ k * d := Nat.mul_le_mul_right d (by omega)
  rw [Nat.add_mul] at hmore
  omega

@[simp] theorem roundDiv_one (n : Nat) : roundDiv n 1 = n := by simp [roundDiv, Nat.mod_one]

/-! ## Mantissas -/

theorem shift_succ (em : ExtendedMantissa) (t : Nat) : em >>> (t + 1) = (em >>> t).shiftRightOne :=
  rfl

/-- What is left of an exact mantissa, and what the two bits say of the digits that went. -/
theorem shift_eq (m t : Nat) :
    (ExtendedMantissa.mk m false false >>> (t + 1)) =
      ⟨m / 2 ^ (t + 1), m / 2 ^ t % 2 != 0, m % 2 ^ t != 0⟩ := by
  induction t with
  | zero => simp [HShiftRight.hShiftRight, Nat.repeat, ExtendedMantissa.shiftRightOne,
      Nat.mod_one]
  | succ t ih =>
    rw [shift_succ, ih, ExtendedMantissa.shiftRightOne]
    have hmod : m % 2 ^ (t + 1) = m % 2 ^ t + 2 ^ t * (m / 2 ^ t % 2) := Nat.mod_pow_succ
    have hpos : 0 < 2 ^ t := Nat.two_pow_pos t
    congr 1
    · rw [Nat.div_div_eq_div_mul, ← Nat.pow_succ]
    · rw [Bool.eq_iff_iff, Bool.or_eq_true, bne_iff_ne, bne_iff_ne, bne_iff_ne, hmod]
      constructor
      · rintro (h | h)
        · have : 0 < 2 ^ t * (m / 2 ^ t % 2) := Nat.mul_pos hpos (by omega)
          omega
        · omega
      · intro h
        by_contra hnone
        have hboth : m / 2 ^ t % 2 = 0 ∧ m % 2 ^ t = 0 := by
          push Not at hnone
          exact hnone
        rw [hboth.1, hboth.2] at h
        exact h rfl

/-- Digits are dropped from a mantissa as a quotient is rounded. -/
theorem roundedMantissa_shift (m t : Nat) :
    (ExtendedMantissa.mk m false false >>> t).roundedMantissa = roundDiv m (2 ^ t) := by
  cases t with
  | zero =>
    rw [Nat.pow_zero, roundDiv_one]
    rfl
  | succ t =>
    have hmod : m % 2 ^ (t + 1) = m % 2 ^ t + 2 ^ t * (m / 2 ^ t % 2) := Nat.mod_pow_succ
    have hpow : 2 ^ (t + 1) = 2 * 2 ^ t := by rw [Nat.pow_succ, Nat.mul_comm]
    have hlow : m % 2 ^ t < 2 ^ t := Nat.mod_lt _ (Nat.two_pow_pos t)
    rw [shift_eq, roundDiv]
    have hbit : m / 2 ^ t % 2 = 0 ∨ m / 2 ^ t % 2 = 1 := by omega
    rcases hbit with hbit | hbit
    · have hless : 2 * (m % 2 ^ (t + 1)) < 2 ^ (t + 1) := by
        rw [hmod, hbit]
        omega
      rw [if_pos hless, hbit]
      by_cases hsticky : m % 2 ^ t = 0
      · rw [hsticky]
        rfl
      · rw [bne_iff_ne.2 hsticky]
        rfl
    · have hrest : m % 2 ^ (t + 1) = m % 2 ^ t + 2 ^ t := by rw [hmod, hbit, Nat.mul_one]
      rw [if_neg (by omega), hbit]
      by_cases hsticky : m % 2 ^ t = 0
      · rw [if_neg (by omega), hsticky]
        rfl
      · rw [if_pos (by omega), bne_iff_ne.2 hsticky]
        rfl

/-! ## Rounding -/

/-- The first number is the second one rounded: they differ by at most a part in `2^53` of it. -/
structure Near (x y : Nat) : Prop where
  above : 2 ^ 53 * x ≤ 2 ^ 53 * y + x
  below : 2 ^ 53 * y ≤ 2 ^ 53 * x + x

theorem Near.refl (x : Nat) : Near x x := ⟨Nat.le_add_right _ _, Nat.le_add_right _ _⟩

theorem Near.mul_right {x y : Nat} (h : Near x y) (k : Nat) : Near (x * k) (y * k) := by
  have habove := Nat.mul_le_mul_right k h.above
  have hbelow := Nat.mul_le_mul_right k h.below
  simp only [Nat.add_mul, Nat.mul_assoc] at habove hbelow
  exact ⟨habove, hbelow⟩

/-- A mantissa and an exponent as they are packed: all the bits there are, or the least exponent. -/
structure Fits (m : Nat) (e : Int) : Prop where
  mantissa : m < 2 ^ 53
  exponent : -1074 ≤ e
  normal : 2 ^ 52 ≤ m ∨ e = -1074

theorem targetExponent_eq (m : Nat) (e : Int) :
    Format.binary64.targetExponent (totalExponent m e) = max (m.log2 + e - 52) (-1074) := by
  simp [Format.targetExponent, totalExponent, Format.mantissaBits, Format.minExponent]
  omega

/-- Enough bits are not shifted. -/
theorem shiftToTarget_of_fits {m : Nat} {e : Int} (h : Fits m e) :
    shiftToTargetExponent .binary64 m e .exact = (⟨m, false, false⟩, e) := by
  have hlog : m.log2 ≤ 52 := by
    by_cases hm : m = 0
    · simp [hm]
    · have := (Nat.log2_lt hm).2 h.mantissa
      omega
  have hexponent := h.exponent
  have hshift : (Format.binary64.targetExponent (totalExponent m e) - e).toNat = 0 := by
    rw [targetExponent_eq]
    omega
  simp only [shiftToTargetExponent, shiftToExponent, hshift]
  exact Prod.ext rfl (Int.add_zero e)

/-- A carry out of the mantissa goes into the exponent. -/
theorem shiftToTarget_carry {e : Int} (h : -1074 ≤ e) :
    shiftToTargetExponent .binary64 (2 ^ 53) e .exact = (⟨2 ^ 52, false, false⟩, e + 1) := by
  have hshift : (Format.binary64.targetExponent (totalExponent (2 ^ 53) e) - e).toNat = 1 := by
    rw [targetExponent_eq, Nat.log2_two_pow]
    omega
  simp only [shiftToTargetExponent, shiftToExponent, hshift]
  rfl

/-- The number `m * 2^e` in units of `2^-1074`. -/
def inUnit (m : Nat) (e : Int) : Nat := m * 2 ^ (e + 1074).toNat

theorem inUnit_mul_two_pow {m k : Nat} {e : Int} (h : -1074 ≤ e) :
    inUnit (m * 2 ^ k) e = inUnit m (e + k) := by
  have hsum : (e + k + 1074).toNat = k + (e + 1074).toNat := by omega
  rw [inUnit, inUnit, hsum, Nat.pow_add, Nat.mul_assoc]

theorem near_roundDiv {m t : Nat} (h : 2 ^ 52 ≤ roundDiv m (2 ^ t)) :
    Near (roundDiv m (2 ^ t) * 2 ^ t) m := by
  obtain ⟨habove, hbelow⟩ := roundDiv_near (n := m) (Nat.two_pow_pos t)
  have hpart : 2 ^ 52 * 2 ^ t ≤ roundDiv m (2 ^ t) * 2 ^ t := Nat.mul_le_mul_right _ h
  exact ⟨by omega, by omega⟩

/-- The second size is the first one, rounded to the first 53 bits if it has more. -/
def Dropped (size rounded : Nat) : Prop :=
  ∃ (m t : Nat) (e : Int), -1074 ≤ e ∧ (t = 0 ∨ 2 ^ (52 + t) ≤ m) ∧ size = inUnit m e ∧
    rounded = inUnit (roundDiv m (2 ^ t)) (e + t)

namespace Dropped

theorem refl (m : Nat) {e : Int} (he : -1074 ≤ e) : Dropped (inUnit m e) (inUnit m e) :=
  ⟨m, 0, e, he, .inl rfl, rfl, by simp⟩

theorem near {size rounded : Nat} (h : Dropped size rounded) : Near rounded size := by
  obtain ⟨m, t, e, he, hbits, rfl, rfl⟩ := h
  rcases hbits with rfl | hbits
  · simpa using Near.refl (inUnit m e)
  · have hlow : 2 ^ 52 ≤ roundDiv m (2 ^ t) := by
      refine le_roundDiv (Nat.two_pow_pos t) ?_
      rwa [← Nat.pow_add]
    rw [← inUnit_mul_two_pow he]
    exact (near_roundDiv hlow).mul_right _

end Dropped

theorem roundWithAccuracy_eq {s : Sign} {m r m' : Nat} {e e₁ e' : Int} {em : ExtendedMantissa}
    (hfirst : shiftToTargetExponent .binary64 m e .exact = (em, e₁)) (hr : em.roundedMantissa = r)
    (hsecond : shiftToTargetExponent .binary64 r e₁ .exact = (⟨m', false, false⟩, e'))
    (hpos : 0 < m') : roundWithAccuracy .binary64 s m e .exact = .finite s m' e' hpos := by
  simp only [roundWithAccuracy, hfirst, hr, hsecond]
  rw [dif_neg (by omega)]

theorem roundWithAccuracy_dropped (s : Sign) {m : Nat} {e : Int} (hm : 0 < m) (he : -1074 ≤ e)
    (hbits : 2 ^ 52 ≤ m ∨ e = -1074) : ∃ m' e' h,
      roundWithAccuracy .binary64 s m e .exact = .finite s m' e' h ∧ Fits m' e' ∧
        Dropped (inUnit m e) (inUnit m' e') := by
  by_cases hlog : 52 ≤ m.log2
  · obtain ⟨t, ht⟩ := Nat.exists_eq_add_of_le hlog
    have hfirst : shiftToTargetExponent .binary64 m e .exact =
        (ExtendedMantissa.mk m false false >>> t, e + t) := by
      have hshift : (Format.binary64.targetExponent (totalExponent m e) - e).toNat = t := by
        rw [targetExponent_eq]
        omega
      simp only [shiftToTargetExponent, shiftToExponent, hshift]
      rfl
    have hsize : 2 ^ (52 + t) ≤ m := by
      rw [← ht]
      exact Nat.log2_self_le hm.ne'
    have hlow : 2 ^ 52 ≤ roundDiv m (2 ^ t) := by
      refine le_roundDiv (Nat.two_pow_pos t) ?_
      rwa [← Nat.pow_add]
    have hhigh : roundDiv m (2 ^ t) ≤ 2 ^ 53 := by
      refine roundDiv_le (Nat.two_pow_pos t) ?_
      have hlt := Nat.lt_log2_self (n := m)
      rw [ht, Nat.add_right_comm, Nat.pow_add] at hlt
      exact hlt.le
    have hdropped : Dropped (inUnit m e) (inUnit (roundDiv m (2 ^ t)) (e + t)) :=
      ⟨m, t, e, he, .inr hsize, rfl, rfl⟩
    by_cases hcarry : roundDiv m (2 ^ t) < 2 ^ 53
    · have hfits : Fits (roundDiv m (2 ^ t)) (e + t) := ⟨hcarry, by omega, .inl hlow⟩
      exact ⟨_, _, _, roundWithAccuracy_eq hfirst (roundedMantissa_shift m t)
        (shiftToTarget_of_fits hfits) (by omega), hfits, hdropped⟩
    · have hfull : roundDiv m (2 ^ t) = 2 ^ 53 := by omega
      rw [hfull] at hdropped
      refine ⟨_, _, _, roundWithAccuracy_eq hfirst ((roundedMantissa_shift m t).trans hfull)
        (shiftToTarget_carry (by omega)) (by decide), ⟨by decide, by omega, .inl le_rfl⟩, ?_⟩
      rw [← Nat.cast_one, ← inUnit_mul_two_pow (by omega)]
      exact hdropped
  · have hsmall : m < 2 ^ 52 := (Nat.log2_lt hm.ne').1 (by omega)
    have hfits : Fits m e := ⟨by omega, he, hbits⟩
    exact ⟨_, _, _, roundWithAccuracy_eq (shiftToTarget_of_fits hfits) rfl
      (shiftToTarget_of_fits hfits) hm, hfits, .refl m he⟩

theorem log2_mul_two_pow {m : Nat} (hm : 0 < m) (k : Nat) : (m * 2 ^ k).log2 = m.log2 + k := by
  have hpos : m * 2 ^ k ≠ 0 := (Nat.mul_pos hm (Nat.two_pow_pos k)).ne'
  rw [Nat.log2_eq_iff hpos, Nat.pow_add, Nat.add_right_comm, Nat.pow_add]
  exact ⟨Nat.mul_le_mul_right _ (Nat.log2_self_le hm.ne'),
    Nat.mul_lt_mul_of_pos_right Nat.lt_log2_self (Nat.two_pow_pos k)⟩

theorem round_dropped (s : Sign) {m : Nat} {e : Int} (hm : 0 < m) (he : -1074 ≤ e) : ∃ m' e' h,
    UnpackedFloat.round .binary64 s m e = .finite s m' e' h ∧ Fits m' e' ∧
      Dropped (inUnit m e) (inUnit m' e') := by
  obtain ⟨k, hk⟩ : ∃ k : Nat, (e - max (m.log2 + e - 52) (-1074)).toNat = k := ⟨_, rfl⟩
  have hround : UnpackedFloat.round .binary64 s m e =
      roundWithAccuracy .binary64 s (m * 2 ^ k) (e - k) .exact := by
    simp only [UnpackedFloat.round, decreaseExponent, targetExponent_eq, hk, Nat.shiftLeft_eq]
  have hunit : inUnit m e = inUnit (m * 2 ^ k) (e - k) := by
    rw [inUnit_mul_two_pow (by omega), Int.sub_add_cancel]
  rw [hround, hunit]
  refine roundWithAccuracy_dropped s (Nat.mul_pos hm (Nat.two_pow_pos k)) (by omega) ?_
  by_cases hlog : 52 ≤ m.log2 + k
  · left
    rw [← log2_mul_two_pow hm] at hlog
    exact (Nat.le_log2 (Nat.mul_pos hm (Nat.two_pow_pos k)).ne').1 hlog
  · right
    omega

/-! ## Differences -/

/-- What a float stands for, in units of `2^-1074`. -/
def unpackedUnits : UnpackedFloat → Int
  | .finite s m e _ => s.apply (inUnit m e)
  | _ => 0

def Packable : UnpackedFloat → Prop
  | .finite _ m e _ => Fits m e
  | _ => True

/-- A finite float that can be packed and that differs from the number by at most its own part in
`2^53`. -/
structure Rounds (n : Int) (u : UnpackedFloat) : Prop where
  finite : u.isFinite = true
  packable : Packable u
  near : 2 ^ 53 * (unpackedUnits u - n).natAbs ≤ (unpackedUnits u).natAbs

/-- A finite float that can be packed and that stands for the number, with the digits dropped that
do not fit. -/
structure Drops (n : Int) (u : UnpackedFloat) : Prop where
  finite : u.isFinite = true
  packable : Packable u
  dropped : ∃ (s : Sign) (size rounded : Nat),
    n = s.apply size ∧ unpackedUnits u = s.apply rounded ∧ Dropped size rounded

namespace Drops

variable {n : Int} {u : UnpackedFloat}

theorem rounds (h : Drops n u) : Rounds n u := by
  refine ⟨h.finite, h.packable, ?_⟩
  obtain ⟨s, size, rounded, rfl, hunits, hdropped⟩ := h.dropped
  have habove := hdropped.near.above
  have hbelow := hdropped.near.below
  rw [hunits]
  cases s <;> simp only [Sign.apply] <;> omega

/-- What can be packed has no digit to drop. -/
theorem exact (hu : u.isFinite = true) (hp : Packable u) (hn : unpackedUnits u = n) :
    Drops n u := by
  refine ⟨hu, hp, ?_⟩
  subst hn
  cases u with
  | finite s m e hm => exact ⟨s, _, _, rfl, rfl, .refl m hp.exponent⟩
  | zero s =>
    have hzero := Dropped.refl 0 (e := 0) (by decide)
    rw [inUnit, Nat.zero_mul] at hzero
    exact ⟨.positive, 0, 0, rfl, rfl, hzero⟩
  | _ => cases hu

theorem round (s : Sign) {m : Nat} {e : Int} (hm : 0 < m) (he : -1074 ≤ e) :
    Drops (s.apply (inUnit m e)) (UnpackedFloat.round .binary64 s m e) := by
  obtain ⟨m', e', h, hround, hfits, hdropped⟩ := round_dropped s hm he
  rw [hround]
  exact ⟨rfl, hfits, s, _, _, rfl, rfl, hdropped⟩

theorem normalize {e : Int} (he : -1074 ≤ e) (m : Int) (zero : Sign) :
    Drops (m * 2 ^ (e + 1074).toNat) (UnpackedFloat.normalize .binary64 m e zero) := by
  have hunit (n : Nat) : ((inUnit n e : Nat) : Int) = n * 2 ^ (e + 1074).toNat := by
    rw [inUnit]
    push_cast
    rfl
  rw [UnpackedFloat.normalize]
  cases hsign : compare m 0 with
  | lt =>
    have hneg : m < 0 := Int.compare_eq_lt.1 hsign
    have hdrops := Drops.round .negative (m := (-m).toNat) (by omega) he
    have hsize : Sign.apply .negative (inUnit (-m).toNat e) = m * 2 ^ (e + 1074).toNat := by
      rw [hunit, Sign.apply, Int.toNat_of_nonneg (by omega), Int.neg_mul, Int.neg_neg]
    rwa [hsize] at hdrops
  | eq =>
    have hzero : m = 0 := Int.compare_eq_eq.1 hsign
    exact .exact rfl trivial (by simp [hzero, unpackedUnits])
  | gt =>
    have hpos : 0 < m := Int.compare_eq_gt.1 hsign
    have hdrops := Drops.round .positive (m := m.toNat) (by omega) he
    have hsize : Sign.apply .positive (inUnit m.toNat e) = m * 2 ^ (e + 1074).toNat := by
      rw [hunit, Sign.apply, Int.toNat_of_nonneg (by omega)]
    rwa [hsize] at hdrops

end Drops

theorem apply_neg (s : Sign) (n : Int) : (-s).apply n = -s.apply n := by
  cases s with
  | negative => exact (Int.neg_neg n).symm
  | positive => rfl

theorem apply_inUnit (s : Sign) {m : Nat} {e : Int} (he : -1074 ≤ e) {least : Int}
    (h : least ≤ e) (hleast : -1074 ≤ least) :
    s.apply ((decreaseExponent m e least).1 : Nat) * 2 ^ (least + 1074).toNat =
      s.apply (inUnit m e) := by
  have hunit : ((decreaseExponent m e least).1 : Int) * 2 ^ (least + 1074).toNat = inUnit m e := by
    have hsum : (e + 1074).toNat = (e - least).toNat + (least + 1074).toNat := by omega
    rw [inUnit, hsum, Nat.pow_add, decreaseExponent, Nat.shiftLeft_eq]
    push_cast
    ring
  cases s with
  | negative => rw [Sign.apply, Sign.apply, Int.neg_mul, hunit]
  | positive => exact hunit

/-- A difference of finite floats is their exact difference, rounded. -/
theorem drops_sub {a b : UnpackedFloat} (ha : a.isFinite = true) (hb : b.isFinite = true)
    (hpa : Packable a) (hpb : Packable b) :
    Drops (unpackedUnits a - unpackedUnits b) (UnpackedFloat.sub .binary64 a b) := by
  cases a with
  | notANumber => cases ha
  | infinity s => cases ha
  | zero s => cases b with
    | notANumber => cases hb
    | infinity t => cases hb
    | zero t => cases s <;> cases t <;> exact .exact rfl trivial rfl
    | finite t n f hn =>
      refine .exact rfl hpb ?_
      show (-t).apply (inUnit n f) = 0 - t.apply (inUnit n f)
      rw [apply_neg, Int.zero_sub]
  | finite s m e hm => cases b with
    | notANumber => cases hb
    | infinity t => cases hb
    | zero t => exact .exact rfl hpa (Int.sub_zero _).symm
    | finite t n f hn =>
      have he : -1074 ≤ e := hpa.exponent
      have hf : -1074 ≤ f := hpb.exponent
      have hdrops := Drops.normalize (e := min e f) (by omega)
        (s.apply ((decreaseExponent m e (min e f)).1 : Nat) -
          t.apply ((decreaseExponent n f (min e f)).1 : Nat)) .positive
      rw [Int.sub_mul, apply_inUnit s he (by omega) (by omega),
        apply_inUnit t hf (by omega) (by omega)] at hdrops
      exact hdrops

theorem isFinite_of_sub {a b : UnpackedFloat}
    (h : (UnpackedFloat.sub .binary64 a b).isFinite = true) :
    a.isFinite = true ∧ b.isFinite = true := by
  cases a with
  | notANumber => cases b <;> cases h
  | infinity s => cases b with
    | infinity t => cases s <;> cases t <;> cases h
    | _ => cases h
  | zero s => cases b with
    | notANumber => cases h
    | infinity t => cases h
    | _ => exact ⟨rfl, rfl⟩
  | finite s m e hm => cases b with
    | notANumber => cases h
    | infinity t => cases h
    | _ => exact ⟨rfl, rfl⟩

/-! ## Bits -/

/-- The size that an exponent and the bits of a mantissa stand for. -/
def packedSize : Nat → Nat → Nat
  | 0, fraction => fraction
  | exponent + 1, fraction => (2 ^ 52 + fraction) * 2 ^ exponent

/-- What is unpacked from bits is finite with every exponent but the last. -/
theorem isFinite_unpack_iff (b : BitVec Format.binary64.numBits) :
    (UnpackedFloat.unpack .binary64 b).isFinite = true ↔ (unpackExponent b).toNat ≠ 2047 := by
  have hlast : unpackExponent b = -1#11 ↔ (unpackExponent b).toNat = 2047 := by
    rw [← BitVec.toNat_inj]
    rfl
  rw [ne_eq, ← hlast]
  simp only [UnpackedFloat.unpack]
  split_ifs <;> simp_all [UnpackedFloat.isFinite]

/-- The leading one of a number that is not subnormal is no part of its bits. -/
theorem toNat_hiddenBit (m : BitVec 52) : (1#1 ++ m).toNat = 2 ^ 52 + m.toNat := by
  rw [BitVec.toNat_append, ← Nat.shiftLeft_add_eq_or_of_lt m.isLt]
  rfl

theorem exists_succ_of_ne_zero {e : BitVec 11} (h : e ≠ 0#11) : ∃ k, e.toNat = k + 1 := by
  refine Nat.exists_eq_succ_of_ne_zero fun hzero => h ?_
  rw [← BitVec.toNat_inj, hzero]
  rfl

theorem unpack_spec {b : BitVec Format.binary64.numBits} (h : (unpackExponent b).toNat ≠ 2047) :
    Packable (UnpackedFloat.unpack .binary64 b) ∧
      unpackedUnits (UnpackedFloat.unpack .binary64 b) =
        (Sign.ofBitVec (unpackSign b)).apply
          (packedSize (unpackExponent b).toNat (unpackMantissa b).toNat) := by
  have hmantissa : (unpackMantissa b).toNat < 2 ^ 52 := (unpackMantissa b).isLt
  have hlast : unpackExponent b ≠ -1#11 := by
    rw [ne_eq, ← BitVec.toNat_inj]
    exact h
  have hbias : ((Format.binary64.exponentBias : Nat) : Int) + (52 : Nat) = 1075 := rfl
  simp only [UnpackedFloat.unpack, if_neg hlast, hbias]
  split_ifs with hleast hzero
  · rw [hleast, hzero]
    refine ⟨trivial, ?_⟩
    cases Sign.ofBitVec (unpackSign b) <;> rfl
  · rw [hleast]
    refine ⟨⟨by omega, le_rfl, .inr rfl⟩, ?_⟩
    simp [unpackedUnits, inUnit, packedSize]
  · have hwhole := toNat_hiddenBit (unpackMantissa b)
    obtain ⟨k, hk⟩ := exists_succ_of_ne_zero hleast
    rw [hk]
    refine ⟨⟨by omega, by omega, .inl (by omega)⟩, ?_⟩
    have hexponent : (((k + 1 : Nat) : Int) - 1075 + 1074).toNat = k := by omega
    rw [unpackedUnits, inUnit, hexponent, hwhole, packedSize]

theorem unpack_packComponents {s : Sign} {e : BitVec 11} {m : BitVec 52} (h : e.toNat ≠ 2047) :
    unpackedUnits (UnpackedFloat.unpack .binary64 (packComponents .binary64 s e m)) =
      s.apply (packedSize e.toNat m.toNat) := by
  have hspec := (unpack_spec (b := packComponents .binary64 s e m)
    (by rw [unpackExponent_packComponents]; exact h)).2
  rwa [unpackExponent_packComponents, unpackMantissa_packComponents,
    unpackSign_packComponents, Sign.ofBitVec_toBitVec] at hspec

theorem not_isFinite_infinite {s : Sign} {m : BitVec 52} :
    ¬ (UnpackedFloat.unpack .binary64 (packComponents .binary64 s (-1#11) m)).isFinite = true := by
  intro h
  rw [isFinite_unpack_iff, unpackExponent_packComponents] at h
  exact h rfl

theorem isFinite_of_pack {u : UnpackedFloat}
    (h : (UnpackedFloat.unpack .binary64 (UnpackedFloat.pack .binary64 u)).isFinite = true) :
    u.isFinite = true := by
  cases u with
  | notANumber => exact absurd h not_isFinite_infinite
  | infinity s => exact absurd h not_isFinite_infinite
  | zero s => rfl
  | finite s m e hm => rfl

theorem unpackedUnits_normal (s : Sign) {m k : Nat} (hlow : 2 ^ 52 ≤ m) (hhigh : m < 2 ^ 53)
    (hk : k + 1 < 2047) : unpackedUnits (UnpackedFloat.unpack .binary64
      (packComponents .binary64 s (BitVec.ofNat 11 (k + 1)) (BitVec.ofNat 52 m))) =
        s.apply (m * 2 ^ k : Nat) := by
  have hbiased : (BitVec.ofNat 11 (k + 1)).toNat = k + 1 := by
    rw [BitVec.toNat_ofNat, Nat.mod_eq_of_lt (by omega)]
  have hrest : 2 ^ 52 + (BitVec.ofNat 52 m).toNat = m := by
    rw [BitVec.toNat_ofNat]
    omega
  rw [unpack_packComponents (by omega), hbiased, packedSize, hrest]

theorem unpackedUnits_subnormal (s : Sign) {m : Nat} (h : m < 2 ^ 52) :
    unpackedUnits (UnpackedFloat.unpack .binary64
      (packComponents .binary64 s 0#11 (BitVec.ofNat 52 m))) = s.apply m := by
  rw [unpack_packComponents (by decide), BitVec.toNat_ofNat, BitVec.toNat_ofNat,
    Nat.mod_eq_of_lt h]
  rfl

/-- What is packed and finite still stands for the same. -/
theorem unpackedUnits_pack {u : UnpackedFloat} (hu : Packable u)
    (h : (UnpackedFloat.unpack .binary64 (UnpackedFloat.pack .binary64 u)).isFinite = true) :
    unpackedUnits (UnpackedFloat.unpack .binary64 (UnpackedFloat.pack .binary64 u)) =
      unpackedUnits u := by
  revert h
  fun_cases UnpackedFloat.pack with
  | case1 => exact fun h => absurd h not_isFinite_infinite
  | case2 s => exact fun h => absurd h not_isFinite_infinite
  | case3 s =>
    intro _
    rw [packedZero, unpack_packComponents (by decide)]
    cases s <;> rfl
  | case4 s m e _ exponent hlarge => exact fun h => absurd h not_isFinite_infinite
  | case5 s m e hm bits exponent hlarge hnormal =>
    intro _
    have hlog : m.log2 = 52 := Nat.succ.inj (hnormal.trans (by decide : Format.mantissaBits _ = 53))
    have hexponent : exponent = (e + 1075).toNat := by
      show (e + (1023 : Nat) + (52 : Nat)).toNat = _
      omega
    have hsmall : ¬ 2 ^ 11 ≤ exponent + 1 := hlarge
    have hleast : -1074 ≤ e := hu.exponent
    obtain ⟨hlow, hhigh⟩ := (Nat.log2_eq_iff hm.ne').1 hlog
    have hsum : exponent = (e + 1074).toNat + 1 := by omega
    rw [hsum]
    exact unpackedUnits_normal s hlow hhigh (by omega)
  | case6 s m e hm bits exponent hlarge hnormal =>
    intro _
    have hlog : m.log2 + 1 ≠ 53 := hnormal
    have hsmall : m < 2 ^ 52 := by
      have hbits := hu.mantissa
      by_contra hmore
      exact hlog (congrArg Nat.succ ((Nat.log2_eq_iff hm.ne').2 ⟨by omega, hbits⟩))
    have hleast : e = -1074 := hu.normal.resolve_left (by omega)
    have hunit : inUnit m e = m := by
      rw [inUnit, hleast]
      exact Nat.mul_one m
    rw [unpackedUnits, hunit]
    exact unpackedUnits_subnormal s hsmall

/-! ## Doubles -/

/-- The double is a number and not infinite. -/
def IsFinite (x : Float) : Prop := isNaN x = false ∧ isInfinite x = false

instance (x : Float) : Decidable (IsFinite x) := inferInstanceAs (Decidable (_ ∧ _))

/-- A finite double in units of `2^-1074`. -/
def units (x : Float) : Int :=
  let size : Int := inUnit (magnitude x).m (magnitude x).e
  if isNegative x then -size else size

theorem unpackExponent_toBits (x : Float) :
    (@unpackExponent .binary64 x.toModel.toBits.toBitVec).toNat =
      x.toBits.toNat / 2 ^ 52 % 2 ^ 11 := unpackExponent_toNat _

theorem isFinite_iff {x : Float} : IsFinite x ↔ x.toModel.unpack.isFinite = true := by
  rw [show x.toModel.unpack = UnpackedFloat.unpack .binary64 x.toModel.toBits.toBitVec from rfl,
    isFinite_unpack_iff, unpackExponent_toBits, IsFinite, isNaN, isInfinite,
    decide_eq_false_iff_not, beq_eq_false_iff_ne]
  omega

/-- The size that bits stand for is the one read from them. -/
theorem packedSize_toBits (x : Float) :
    packedSize (x.toBits.toNat / 2 ^ 52 % 2 ^ 11) (x.toBits.toNat % 2 ^ 52) =
      inUnit (magnitude x).m (magnitude x).e := by
  have hexponent : x.toBits.toNat % 2 ^ 63 / 2 ^ 52 = x.toBits.toNat / 2 ^ 52 % 2 ^ 11 := by omega
  have hfraction : x.toBits.toNat % 2 ^ 63 % 2 ^ 52 = x.toBits.toNat % 2 ^ 52 := by omega
  rw [magnitude, hexponent, hfraction]
  cases x.toBits.toNat / 2 ^ 52 % 2 ^ 11 with
  | zero => exact (Nat.mul_one _).symm
  | succ k =>
    have hpower : ((k : Int) - 1074 + 1074).toNat = k := by omega
    rw [packedSize, inUnit, hpower]

theorem ofBitVec_unpackSign (x : Float) (n : Int) :
    (Sign.ofBitVec (@unpackSign .binary64 x.toModel.toBits.toBitVec)).apply n =
      if isNegative x then -n else n := by
  have hlt : x.toBits.toNat < 2 ^ 64 := x.toBits.toNat_lt
  have hbit : @unpackSign .binary64 x.toModel.toBits.toBitVec = 0#1 ↔
      isNegative x = false := by
    have hshift : (@unpackSign .binary64 x.toModel.toBits.toBitVec).toNat =
        x.toBits.toNat / 2 ^ 63 % 2 := by
      show (x.toBits.toNat >>> 63) % 2 ^ 1 = _
      rw [Nat.shiftRight_eq_div_pow]
    rw [← BitVec.toNat_inj, hshift, isNegative, decide_eq_false_iff_not]
    show _ = 0 ↔ _
    omega
  rw [Sign.ofBitVec]
  simp only [hbit]
  cases isNegative x <;> rfl

theorem unpack_toModel {x : Float} (h : IsFinite x) :
    Packable x.toModel.unpack ∧ unpackedUnits x.toModel.unpack = units x := by
  obtain ⟨hpackable, hunits⟩ := unpack_spec ((isFinite_unpack_iff _).1 (isFinite_iff.1 h))
  have hfraction : (@unpackMantissa .binary64 x.toModel.toBits.toBitVec).toNat =
      x.toBits.toNat % 2 ^ 52 := unpackMantissa_toNat _
  refine ⟨hpackable, hunits.trans ?_⟩
  rw [ofBitVec_unpackSign, unpackExponent_toBits, hfraction, packedSize_toBits]
  rfl

/-- A double that is packed from a float stands for the same if it is finite. -/
theorem units_of_pack {x : Float} {u : UnpackedFloat} (hu : Packable u) (h : IsFinite x)
    (hx : x.toModel.unpack =
      UnpackedFloat.unpack .binary64 (UnpackedFloat.pack .binary64 u)) :
    units x = unpackedUnits u := by
  have hfinite := isFinite_iff.1 h
  rw [hx] at hfinite
  rw [← (unpack_toModel h).2, hx, unpackedUnits_pack hu hfinite]

/-- Before it is packed, a difference is the exact one with the digits dropped that do not fit. -/
theorem drops_units_sub {a b : Float} (ha : IsFinite a) (hb : IsFinite b) :
    Drops (units a - units b)
      (UnpackedFloat.sub .binary64 a.toModel.unpack b.toModel.unpack) := by
  obtain ⟨hpa, hua⟩ := unpack_toModel ha
  obtain ⟨hpb, hub⟩ := unpack_toModel hb
  rw [← hua, ← hub]
  exact drops_sub (isFinite_iff.1 ha) (isFinite_iff.1 hb) hpa hpb

/-- A difference is off by at most its own part in `2^53`. -/
theorem units_sub {a b : Float} (h : IsFinite (a - b)) :
    IsFinite a ∧ IsFinite b ∧
      2 ^ 53 * (units (a - b) - (units a - units b)).natAbs ≤ (units (a - b)).natAbs := by
  have hmodel : (a - b).toModel.unpack =
      UnpackedFloat.unpack .binary64 (UnpackedFloat.pack .binary64
        (UnpackedFloat.sub .binary64 a.toModel.unpack b.toModel.unpack)) := rfl
  have hfinite := isFinite_iff.1 h
  rw [hmodel] at hfinite
  obtain ⟨ha, hb⟩ := isFinite_of_sub (isFinite_of_pack hfinite)
  rw [← isFinite_iff] at ha hb
  have hrounds := (drops_units_sub ha hb).rounds
  refine ⟨ha, hb, ?_⟩
  rw [units_of_pack hrounds.packable h hmodel]
  exact hrounds.near

end PartProgram.Number

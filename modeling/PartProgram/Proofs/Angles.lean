import PartProgram.Number.Angle
import PartProgram.Proofs.Signs

/-!
# PartProgram.Proofs.Angles

The range of angles. The angle of a vector is a number of units that does not exceed those of a half
turn, and what is rounded from it does not exceed the half turn as a double: the next double is
further away than rounding goes. An angle that is turned by a full turn comes out of the range, or
from one end of it to the other.

* `quadrantUnits_le`: angles in units.
* `atan2_range`: angles in doubles, between minus and plus a half turn.
* `turned_sign`, `turned_size`: an angle that is turned by a full turn, seen from another one.
-/

namespace PartProgram.Number

open Float.Model UnpackedFloat

/-! ## Units -/

/-- Each term of the series adds less than the one before it, for slopes up to one. -/
theorem eulerSeries_le {q : Nat} (hq : 2 * q ≤ unit) (terms k : Nat) :
    eulerSeries q terms k ≤ 2 * unit := by
  induction terms generalizing k with
  | zero => exact Nat.le_mul_of_pos_left _ (by decide)
  | succ terms ih =>
    have hunit : 0 < unit := by decide
    have hproduct : q * eulerSeries q terms (k + 1) / unit ≤ unit := by
      refine Nat.div_le_of_le_mul ?_
      calc q * eulerSeries q terms (k + 1) ≤ q * (2 * unit) := Nat.mul_le_mul_left q (ih (k + 1))
        _ = 2 * q * unit := by ring
        _ ≤ unit * unit := Nat.mul_le_mul_right unit hq
    have hterm : q * eulerSeries q terms (k + 1) / unit * (2 * k) / (2 * k + 1) ≤ unit := by
      refine Nat.div_le_of_le_mul ?_
      calc q * eulerSeries q terms (k + 1) / unit * (2 * k) ≤ unit * (2 * k + 1) :=
            Nat.mul_le_mul hproduct (Nat.le_succ _)
        _ = (2 * k + 1) * unit := Nat.mul_comm _ _
    rw [eulerSeries]
    omega

/-- A slope up to one has an angle up to one. -/
theorem slopeUnits_le {y x : Nat} (h : y ≤ x) : slopeUnits y x ≤ unit := by
  have hhalf {n : Nat} (hn : 2 * n ≤ x * x + y * y) : 2 * (n * unit / (x * x + y * y)) ≤ unit := by
    refine (Nat.mul_div_le_mul_div_assoc _ _ _).trans (Nat.div_le_of_le_mul ?_)
    rw [← Nat.mul_assoc]
    exact Nat.mul_le_mul_right unit hn
  have hsquare : y * y ≤ x * x := Nat.mul_le_mul h h
  have hproduct : 2 * (x * y) ≤ x * x + y * y := by
    have := two_mul_le_add_sq x y
    linarith
  have hseries := eulerSeries_le (hhalf (n := y * y) (by omega)) 160 1
  rw [slopeUnits]
  refine Nat.div_le_of_le_mul ?_
  calc _ ≤ x * y * unit / (x * x + y * y) * (2 * unit) := Nat.mul_le_mul_left _ hseries
    _ = 2 * (x * y * unit / (x * x + y * y)) * unit := by ring
    _ ≤ unit * unit := Nat.mul_le_mul_right unit (hhalf hproduct)

theorem quadrantUnits_le (y x : Nat) : quadrantUnits y x ≤ piUnits := by
  have hunit : unit ≤ piUnits := by decide
  rw [quadrantUnits]
  split_ifs with hsteep
  · exact (slopeUnits_le hsteep).trans hunit
  · omega

/-! ## Half and full turn -/

theorem exactValue_pi : exactValue pi = 7074237752028440 / 2 ^ 51 :=
  (exactValue_of_ratio 7074237752028440 (2 ^ 51) (by decide) (by decide)).trans (by norm_num)

theorem exactValue_neg_pi : exactValue (-pi) = -exactValue pi := by
  have hsize : magnitude (-pi) = magnitude pi := rfl
  have hsign : isNegative (-pi) = true ∧ isNegative pi = false := by decide
  simp only [exactValue, hsize, hsign.1, hsign.2, if_true, Bool.false_eq_true, if_false]

theorem exactValue_twoPi : exactValue twoPi = 2 * exactValue pi := by
  rw [exactValue_pi]
  exact (exactValue_of_ratio 7074237752028440 (2 ^ 50) (by decide) (by decide)).trans
    (by norm_num)

theorem pi_onGrid : OnGrid 1 (exactValue pi) :=
  ⟨7074237752028440, by rw [exactValue_pi]; norm_num⟩

theorem twoPi_onGrid : OnGrid 2 (exactValue twoPi) :=
  ⟨7074237752028440, by rw [exactValue_twoPi, exactValue_pi]; norm_num⟩

theorem pi_bounds : 3141 / 1000 ≤ exactValue pi ∧ exactValue pi ≤ 31416 / 10000 := by
  rw [exactValue_pi]
  norm_num

theorem place_two : (2 : ℚ) ^ (1 - 52 : Int) = 1 / 2 ^ 51 := by norm_num

theorem place_four : (2 : ℚ) ^ (2 - 52 : Int) = 1 / 2 ^ 50 := by norm_num

/-- What is rounded from the half turn in units stays before the double next to the half turn. -/
theorem piUnits_near : (piUnits / unit + 1 / 2 ^ 52 : ℚ) < exactValue pi + 1 / 2 ^ 51 := by
  rw [exactValue_pi, piUnits, unit]
  norm_num

/-! ## Rounded quotients -/

/-- Bits of a number are kept. -/
theorem toBits_ofBits {w : UInt64} (h : w.toNat % 2 ^ 63 ≤ 2047 * 2 ^ 52) :
    (Float.ofBits w).toBits = w := by
  have hnumber := unpack_isNumber (b := w.toBitVec) h
  have hbits : @isNaNBits .binary64 w.toBitVec = false := by
    rw [isNaNBits, decide_eq_false_iff_not, ← unpack_isNaN_iff, hnumber]
    decide
  have hpack : UnpackedFloat.pack .binary64 (UnpackedFloat.unpack .binary64 w.toBitVec) =
      w.toBitVec := by
    rw [pack_unpack, hbits]
    rfl
  exact congrArg UInt64.ofBitVec hpack

/-- The sign of a quotient is a bit of its own. -/
theorem toBits_ofRatio (negative : Bool) (num den : Nat) :
    (ofRatio negative num den).toBits.toNat % 2 ^ 63 = nearestBits num den := by
  have hbits := nearestBits_le num den
  obtain ⟨sign, hsign, hzero⟩ : ∃ sign, (if negative then 2 ^ 63 else 0) = sign ∧
      (sign = 2 ^ 63 ∨ sign = 0) := ⟨_, rfl, by cases negative <;> simp⟩
  have hword : (UInt64.ofNat (nearestBits num den + sign)).toNat = nearestBits num den + sign :=
    Nat.mod_eq_of_lt (by omega)
  rw [ofRatio, hsign, toBits_ofBits (by rw [hword]; omega), hword]
  omega

theorem magnitude_ofRatio (negative : Bool) (num den : Nat) :
    magnitude (ofRatio negative num den) = magnitude (ofRatio false num den) := by
  rw [magnitude, toBits_ofRatio, ← toBits_ofRatio false num den]
  rfl

/-- A quotient below four is in units of `2^-51` or smaller ones. -/
theorem lastPlace_le {num den : Nat} (hnum : 0 < num) (hden : 0 < den) (h : (num / den : ℚ) < 4) :
    lastPlace num den ≤ -51 := by
  rcases (lastPlace_spec hnum hden).2 with hleast | hlow
  · omega
  · have hless : (2 : ℚ) ^ (lastPlace num den + 52) < 2 ^ (2 : Int) :=
      (hlow.trans_lt h).trans_eq (by norm_num)
    have := (zpow_lt_zpow_iff_right₀ one_lt_two).1 hless
    omega

/-- A quotient below four is a finite double. -/
theorem isFinite_ofRatio (negative : Bool) {num den : Nat} (hden : 0 < den)
    (h : (num / den : ℚ) < 4) : IsFinite (ofRatio negative num den) := by
  have hbits : nearestBits num den < 2047 * 2 ^ 52 := by
    rcases Nat.eq_zero_or_pos num with rfl | hnum
    · rw [nearestBits, if_pos rfl]
      decide
    · have hplace := lastPlace_le hnum hden h
      obtain ⟨hmantissa, -⟩ := roundShift_bounds hden (lastPlace_spec hnum hden).1
      have hleast := lastPlace_least num den
      rw [nearestBits_eq hnum, mantissaBits]
      split_ifs <;> omega
  constructor
  · rw [isNaN, toBits_ofRatio, decide_eq_false_iff_not]
    omega
  · rw [isInfinite, toBits_ofRatio, beq_eq_false_iff_ne]
    omega

theorem ofRatio_near_of_lt_four {num den : Nat} (hden : 0 < den) (h : (num / den : ℚ) < 4) :
    |exactValue (ofRatio false num den) - num / den| ≤ 1 / 2 ^ 52 := by
  have hfinite := isFinite_ofRatio false hden h
  rcases Nat.eq_zero_or_pos num with rfl | hnum
  · have hleast : (1 / 2 ^ 1075 : ℚ) ≤ 1 / 2 ^ 52 :=
      one_div_le_one_div_of_le (by positivity) (pow_le_pow_right₀ one_le_two (by decide))
    refine (ofRatio_near hden hfinite).trans ?_
    rwa [Nat.cast_zero, zero_div, zero_div, zero_add]
  · rw [exactValue_ofRatio hnum hden hfinite]
    refine (roundShift_near num hden _).trans ?_
    have hplace : (2 : ℚ) ^ lastPlace num den ≤ 2 ^ (-51 : Int) :=
      zpow_le_zpow_right₀ one_le_two (lastPlace_le hnum hden h)
    norm_num at hplace ⊢
    linarith

/-- A quotient up to a half turn is a double up to the half turn. -/
theorem ofRatio_range (negative : Bool) {num den : Nat} (hden : 0 < den)
    (h : num * unit ≤ piUnits * den) : IsFinite (ofRatio negative num den) ∧
      |exactValue (ofRatio negative num den)| ≤ exactValue pi := by
  have hquotient : (num / den : ℚ) ≤ piUnits / unit := by
    have hunit : (0 : ℚ) < unit := by exact_mod_cast (by decide : 0 < unit)
    have hden' : (0 : ℚ) < den := by exact_mod_cast hden
    rw [div_le_div_iff₀ hden' hunit]
    exact_mod_cast h
  have hpi := pi_bounds
  have hnext := piUnits_near
  have hfour : (num / den : ℚ) < 4 := by linarith
  have hfinite := isFinite_ofRatio false hden hfour
  have hsize : |exactValue (ofRatio negative num den)| = |exactValue (ofRatio false num den)| := by
    rw [abs_exactValue, magnitude_ofRatio, abs_exactValue]
  have hbelow : |exactValue (ofRatio false num den)| ≤ piUnits / unit + 1 / 2 ^ 52 := by
    have hnear := abs_le.1 (ofRatio_near_of_lt_four hden hfour)
    have hpositive : (0 : ℚ) ≤ num / den := by positivity
    rw [abs_le]
    constructor <;> linarith
  refine ⟨isFinite_ofRatio negative hden hfour, ?_⟩
  rw [hsize]
  rcases lt_or_ge |exactValue (ofRatio false num den)| (2 ^ (1 : Int)) with hsmall | hlarge
  · rw [zpow_one] at hsmall
    linarith
  · have hgrid := hfinite.isDouble.abs.onGrid (hlarge.trans_eq (abs_abs _).symm)
    refine hgrid.le_of_lt_step pi_onGrid (hbelow.trans_lt ?_)
    rwa [place_two]

/-- The angle of a vector is between minus and plus a half turn, both ends included. -/
theorem atan2_range {y x : Float} (hy : IsNumber y) (hx : IsNumber x) :
    IsFinite (atan2 y x) ∧ |exactValue (atan2 y x)| ≤ exactValue pi := by
  have hsigned {size : Nat} (h : size ≤ piUnits) :
      IsFinite (ofRatio (isNegative y) size unit) ∧
        |exactValue (ofRatio (isNegative y) size unit)| ≤ exactValue pi :=
    ofRatio_range _ (by decide) (Nat.mul_le_mul_right unit h)
  obtain ⟨b, a, e, halign⟩ : ∃ b a e, (magnitude y).align (magnitude x) = (b, a, e) :=
    ⟨_, _, _, rfl⟩
  have hnumber : (isNaN x || isNaN y) = false := by
    rw [isNaN_of_isNumber hx, isNaN_of_isNumber hy]
    rfl
  simp only [atan2, halign, hnumber, Bool.false_eq_true, if_false]
  split_ifs with _ _ _ _ _ _ _ _ _ hflat
  · exact hsigned (by decide)
  · exact hsigned (by decide)
  · exact hsigned (by decide)
  · exact hsigned le_rfl
  · exact hsigned (by decide)
  · exact hsigned le_rfl
  · exact hsigned (by decide)
  · exact hsigned (by decide)
  · exact hsigned (Nat.sub_le _ _)
  · refine ofRatio_range _ (Nat.zero_lt_of_lt hflat) ?_
    have hunit : unit ≤ piUnits := by decide
    have hless : b ≤ a := by omega
    exact (Nat.mul_le_mul hless hunit).trans_eq (Nat.mul_comm _ _)
  · exact hsigned (quadrantUnits_le _ _)

/-- What is not a vector has no angle. -/
theorem not_isNumber_atan2 {y x : Float} (h : ¬ (IsNumber y ∧ IsNumber x)) :
    ¬ IsNumber (atan2 y x) := by
  have hnan : (isNaN x || isNaN y) = true := by
    rw [isNaN_eq, isNaN_eq, Bool.or_eq_true]
    by_contra hboth
    rw [not_or, Bool.not_eq_true, Bool.not_eq_true] at hboth
    exact h ⟨hboth.2, hboth.1⟩
  rw [atan2, if_pos hnan]
  show ¬ notANumber.isNaN = false
  decide

/-! ## Full turns -/

variable {a r f w : ℚ}

/-- What a full turn leads to, and how far it is off. -/
theorem turned_near (hrange : |r| ≤ exactValue pi) (hf : RoundsTo (r + exactValue twoPi) f) :
    OnGrid 1 f ∧ 3 ≤ f ∧ |f - (r + exactValue twoPi)| ≤ 95 / 10 / 2 ^ 53 := by
  obtain ⟨hlow, hhigh⟩ := pi_bounds
  obtain ⟨hbelow, habove⟩ := abs_le.1 hrange
  rw [exactValue_twoPi] at hf ⊢
  have hpos : 0 < f := hf.pos_iff.2 (by linarith)
  have hnear := abs_le.1 hf.near
  rw [abs_of_pos hpos] at hnear
  have hthree : 3 ≤ f := by linarith
  refine ⟨hf.double.onGrid ?_, hthree, ?_⟩
  · rw [abs_of_pos hpos, zpow_one]
    linarith
  · rw [abs_le]
    constructor <;> linarith

/-- From the lower end of the range a full turn leads to the upper one. -/
theorem turned_end (hf : RoundsTo (-exactValue pi + exactValue twoPi) f) : f = exactValue pi := by
  obtain ⟨hlow, hhigh⟩ := pi_bounds
  obtain ⟨hgrid, hthree, hclose⟩ := turned_near (by rw [abs_neg, abs_of_pos (by linarith)]) hf
  have hnear := abs_le.1 hf.near
  rw [exactValue_twoPi] at hnear hclose
  rw [abs_of_pos (by linarith)] at hnear
  rw [abs_le] at hclose
  refine le_antisymm (hgrid.le_of_lt_step pi_onGrid ?_) (pi_onGrid.le_of_lt_step hgrid ?_)
  · rw [place_two]
    linarith
  · rw [place_two]
    linarith

/-- From anywhere else it leads further. -/
theorem turned_inside (hr : IsDouble r) (hrange : |r| ≤ exactValue pi) (h : r ≠ -exactValue pi)
    (hf : RoundsTo (r + exactValue twoPi) f) : exactValue pi < f := by
  obtain ⟨hlow, hhigh⟩ := pi_bounds
  obtain ⟨-, hthree, hclose⟩ := turned_near hrange hf
  obtain ⟨hbelow, -⟩ := abs_le.1 hrange
  rw [exactValue_twoPi, abs_le] at hclose
  rcases lt_or_ge (-2) r with hlarge | hsmall
  · linarith
  · -- the double next to the end of the range is further from it than the sum is rounded
    have htwo : 2 ^ (1 : Int) ≤ |-r| := by
      rw [abs_neg, abs_of_neg (by linarith), zpow_one]
      linarith
    have hless := lt_of_le_of_ne hbelow h.symm
    have hnext : -r ≤ exactValue pi - 2 ^ (1 - 52 : Int) :=
      (hr.neg.onGrid htwo).le_of_lt_step pi_onGrid.sub_step (by linarith)
    have hnear := abs_le.1 hf.near
    rw [exactValue_twoPi, abs_of_pos (by linarith)] at hnear
    rw [place_two] at hnext
    by_contra hle
    linarith

theorem turned_reach (hr : IsDouble r) (hrange : |r| ≤ exactValue pi)
    (hf : RoundsTo (r + exactValue twoPi) f) :
    exactValue pi ≤ f ∧ (f = exactValue pi ↔ r = -exactValue pi) := by
  by_cases hend : r = -exactValue pi
  · rw [hend] at hf
    have hf' := turned_end hf
    exact ⟨hf'.ge, iff_of_true hf' hend⟩
  · have hf' := turned_inside hr hrange hend hf
    exact ⟨hf'.le, iff_of_false hf'.ne' hend⟩

/-- What is turned on is further than any angle of the range, but for the upper end of the range
where the lower end is turned on. -/
theorem turned_sign (ha : a ≤ exactValue pi) (hr : IsDouble r) (hrange : |r| ≤ exactValue pi)
    (hf : RoundsTo (r + exactValue twoPi) f) (hw : RoundsTo (f - a) w) :
    0 ≤ w ∧ (0 < w ↔ ¬ (a = exactValue pi ∧ r = -exactValue pi)) := by
  obtain ⟨hreach, hend⟩ := turned_reach hr hrange hf
  refine ⟨hw.nonneg (by linarith), ?_⟩
  rw [hw.pos_iff, sub_pos, ← hend]
  constructor
  · rintro hlt ⟨rfl, hf'⟩
    exact hlt.ne' hf'
  · intro hne
    refine lt_of_le_of_ne (ha.trans hreach) fun heq => hne ?_
    have hsame : f = exactValue pi := le_antisymm (heq ▸ ha) hreach
    exact ⟨heq.trans hsame, hsame⟩

/-- From a start angle on to one that is turned it is a full turn at most, but for the last place,
and a full turn but for the last place if the start angle is turned. -/
theorem turned_size (ha : |a| ≤ exactValue pi) (hrange : |r| ≤ exactValue pi) (hra : r ≤ a)
    (hf : RoundsTo (r + exactValue twoPi) f) (hw : RoundsTo (f - a) w) (hnonneg : 0 ≤ w) :
    |w| ≤ exactValue twoPi + 1 / 2 ^ 50 ∧ (r = a → exactValue twoPi - 1 / 2 ^ 50 ≤ |w|) := by
  obtain ⟨hlow, hhigh⟩ := pi_bounds
  obtain ⟨-, hthree, hclose⟩ := turned_near hrange hf
  obtain ⟨hbelow, habove⟩ := abs_le.1 ha
  have hnear := abs_le.1 hw.near
  have hgrid (h : 4 ≤ w) : OnGrid 2 w := by
    refine hw.double.onGrid ?_
    rw [abs_of_nonneg hnonneg]
    exact le_trans (by norm_num) h
  have hturn := exactValue_twoPi
  rw [abs_of_nonneg hnonneg] at hnear ⊢
  rw [abs_le] at hclose
  rw [← place_four]
  constructor
  · rcases lt_or_ge w 4 with hsmall | hlarge
    · rw [place_four]
      linarith
    · refine (hgrid hlarge).le_of_lt_step twoPi_onGrid.add_step ?_
      rw [place_four]
      linarith
  · rintro rfl
    refine twoPi_onGrid.sub_step.le_of_lt_step (hgrid (by linarith)) ?_
    rw [place_four]
    linarith

/-- The sweep to an end angle that needs no turn. -/
theorem straight_sweep (ha : |a| ≤ exactValue pi) (hrange : |r| ≤ exactValue pi) (hra : a < r)
    (hw : RoundsTo (r - a) w) : 0 < w ∧ |w| ≤ exactValue twoPi + 1 / 2 ^ 50 := by
  obtain ⟨hbelow, -⟩ := abs_le.1 ha
  obtain ⟨-, habove⟩ := abs_le.1 hrange
  have hhigh := pi_bounds.2
  have hpos : 0 < w := hw.pos_iff.2 (by linarith)
  have hnear := abs_le.1 hw.near
  rw [abs_of_pos hpos] at hnear ⊢
  rw [exactValue_twoPi]
  exact ⟨hpos, by linarith⟩

end PartProgram.Number

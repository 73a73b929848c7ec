import PartProgram.Proofs.Sums

/-!
# PartProgram.Proofs.Signs

Doubles that are numbers, and positive ones. Only infinities that cancel out make what is not a
number, so a sum with a finite double is one. What is positive may be infinite: a sum of such
doubles is positive, and so is the half of one that is not tiny.

* `sub_isNumber`, `add_isNumber`, `hypot_isNumber`: results that are numbers.
* `add_pos`, `half_pos`, `lt_of_pos_of_le`: results that are positive.
-/

namespace PartProgram.Number

open Float.Model UnpackedFloat

variable {a b : Float}

/-! ## Numbers -/

/-- The bits tell what is not a number. -/
theorem isNaN_eq (x : Float) : isNaN x = x.isNaN := by
  have hlast : @unpackExponent .binary64 x.toModel.toBits.toBitVec = -1#11 ↔
      x.toBits.toNat / 2 ^ 52 % 2 ^ 11 = 2047 := by
    rw [← BitVec.toNat_inj, unpackExponent_toBits]
    rfl
  have hfraction : @unpackMantissa .binary64 x.toModel.toBits.toBitVec = 0#52 ↔
      x.toBits.toNat % 2 ^ 52 = 0 := by
    rw [← BitVec.toNat_inj, unpackMantissa_toNat]
    rfl
  have hspec := unpack_isNaN_iff x.toModel.toBits.toBitVec
  rw [hlast, ne_eq, hfraction] at hspec
  have hmodel : x.isNaN = (UnpackedFloat.unpack .binary64 x.toModel.toBits.toBitVec).isNaN := rfl
  rw [Bool.eq_iff_iff, hmodel, hspec, isNaN, decide_eq_true_iff]
  omega

theorem isNaN_of_isNumber {x : Float} (h : IsNumber x) : isNaN x = false := (isNaN_eq x).trans h

theorem abs_isNumber {x : Float} (h : IsNumber x) : IsNumber x.abs := by
  refine pack_isNumber (u := x.toModel.unpack.abs) ?_
  have hx : x.toModel.unpack.isNaN = false := h
  cases hu : x.toModel.unpack <;> rw [hu] at hx <;> first | rfl | cases hx

theorem hypot_isNumber {x y : Float} (hx : IsNumber x) (hy : IsNumber y) :
    IsNumber (hypot x y) := by
  obtain ⟨a, b, e, halign⟩ : ∃ a b e, (magnitude x).align (magnitude y) = (a, b, e) :=
    ⟨_, _, _, rfl⟩
  have hnumber : (isNaN x || isNaN y) = false := by
    rw [isNaN_of_isNumber hx, isNaN_of_isNumber hy]
    rfl
  simp only [hypot, halign, hnumber, Bool.false_eq_true, if_false]
  split_ifs
  · exact ofBits_isNumber (by decide)
  · exact abs_isNumber hy
  · exact abs_isNumber hx
  · exact ofRatio_isNumber _ _ _

/-- Only infinities that cancel out make a difference that is not a number. -/
theorem isNaN_sub {u v : UnpackedFloat} (hu : u.isFinite = true) (hv : v.isNaN = false)
    (hpu : Packable u) (hpv : Packable v) : (UnpackedFloat.sub .binary64 u v).isNaN = false := by
  cases v with
  | notANumber => cases hv
  | infinity t => cases u <;> first | rfl | cases hu
  | zero t => exact isNaN_of_isFinite (drops_sub hu rfl hpu hpv).finite
  | finite t n f hn => exact isNaN_of_isFinite (drops_sub hu rfl hpu hpv).finite

theorem sub_isNumber (ha : IsFinite a) (hb : IsNumber b) : IsNumber (a - b) :=
  pack_isNumber (isNaN_sub (isFinite_iff.1 ha) hb (packable_unpack a) (packable_unpack b))

theorem add_isNumber (ha : IsFinite a) (hb : IsNumber b) : IsNumber (a + b) := by
  have hneg : b.toModel.unpack.neg.isNaN = false ∧ Packable b.toModel.unpack.neg := by
    have hnumber : b.toModel.unpack.isNaN = false := hb
    have hpackable := packable_unpack b
    cases hv : b.toModel.unpack <;> rw [hv] at hnumber hpackable <;>
      first | exact ⟨rfl, hpackable⟩ | cases hnumber
  have hsum := isNaN_sub (isFinite_iff.1 ha) hneg.1 (packable_unpack a) hneg.2
  rw [← add_eq_sub_neg] at hsum
  exact pack_isNumber hsum

/-- A difference with what is not a number is none. -/
theorem not_isNumber_sub (hb : ¬ IsNumber b) : ¬ IsNumber (a - b) := by
  have hnan : b.toModel.unpack = .notANumber := by
    cases hv : b.toModel.unpack with
    | notANumber => rfl
    | _ => exact absurd (show b.toModel.unpack.isNaN = false by rw [hv]; rfl) hb
  have hsub : (a - b).toModel.unpack = UnpackedFloat.unpack .binary64 (UnpackedFloat.pack .binary64
      (UnpackedFloat.sub .binary64 a.toModel.unpack b.toModel.unpack)) := rfl
  have hnone : UnpackedFloat.sub .binary64 a.toModel.unpack .notANumber = .notANumber := by
    cases a.toModel.unpack <;> rfl
  show ¬ (a - b).toModel.unpack.isNaN = false
  rw [hsub, hnan, hnone]
  decide

/-! ## Signs -/

/-- Greater than zero, and maybe infinite. -/
def Positive : UnpackedFloat → Prop
  | .infinity s => s = .positive
  | .finite s _ _ _ => s = .positive
  | _ => False

theorem zero_lt_iff {x : Float} : 0.0 < x ↔ Positive x.toModel.unpack := by
  have hzero : (0.0 : Float).toModel.unpack = .zero .positive := rfl
  rw [lt_iff_compare, hzero]
  cases x.toModel.unpack with
  | notANumber => exact iff_of_false (fun h => by cases h) id
  | zero s => exact iff_of_false (fun h => by cases h) id
  | infinity s => cases s <;> simp [Positive, UnpackedFloat.compare]
  | finite s m e hm => cases s <;> simp [Positive, UnpackedFloat.compare]

theorem positive_of_le {u v : UnpackedFloat} (hu : Positive u)
    (h : (UnpackedFloat.compare u v).any (·.isLE) = true) : Positive v := by
  cases u with
  | infinity s =>
    cases hu
    cases v with
    | infinity t => cases t <;> first | rfl | cases h
    | _ => cases h
  | finite s m e hm =>
    cases hu
    cases v with
    | infinity t => cases t <;> first | rfl | cases h
    | finite t => cases t <;> first | rfl | cases h
    | _ => cases h
  | _ => cases hu

theorem lt_of_pos_of_le {a b : Float} (ha : 0.0 < a) (h : a ≤ b) : 0.0 < b :=
  zero_lt_iff.2 (positive_of_le (zero_lt_iff.1 ha) (le_iff_compare.1 h))

theorem positive_of_units {u : UnpackedFloat} (h : 0 < unpackedUnits u) : Positive u := by
  cases u with
  | finite s m e hm => cases s with
    | positive => rfl
    | negative =>
      simp only [unpackedUnits, Sign.apply] at h
      omega
  | _ => simp [unpackedUnits] at h

theorem units_pos {u : UnpackedFloat} (hfinite : u.isFinite = true) (h : Positive u) :
    0 < unpackedUnits u := by
  cases u with
  | finite s m e hm =>
    cases h
    exact Int.natCast_pos.2 (inUnit_pos hm e)
  | infinity s => cases hfinite
  | _ => cases h

/-- What is positive is so when it is packed. -/
theorem positive_pack {u : UnpackedFloat} (h : Positive u) (hp : Packable u) :
    Positive (UnpackedFloat.unpack .binary64 (UnpackedFloat.pack .binary64 u)) := by
  have habs : u.abs = u := by
    cases u <;> cases h <;> rfl
  have hnumber : u.isNaN = false := by
    cases u <;> cases h <;> rfl
  have hpacked := unpack_pack_abs u
  rw [habs] at hpacked
  rcases hpacked with hfinite | hinfinite | hnan
  · refine positive_of_units ?_
    rw [unpackedUnits_pack hp hfinite]
    exact units_pos (isFinite_of_pack hfinite) h
  · rw [hinfinite]
    rfl
  · have hnot := pack_isNumber hnumber
    rw [hnan] at hnot
    cases hnot

theorem positive_add {u v : UnpackedFloat} (hu : Positive u) (hv : Positive v)
    (hpu : Packable u) (hpv : Packable v) :
    Positive (UnpackedFloat.add .binary64 u v) ∧ Packable (UnpackedFloat.add .binary64 u v) := by
  cases u with
  | infinity s =>
    cases hu
    cases v with
    | infinity t =>
      cases hv
      exact ⟨rfl, trivial⟩
    | finite t => exact ⟨rfl, trivial⟩
    | _ => cases hv
  | finite s m e hm => cases v with
    | infinity t => exact ⟨hv, trivial⟩
    | finite t n f hn =>
      have hrounds := (drops_add rfl rfl hpu hpv).rounds
      have hnear := hrounds.near
      have hleft := units_pos rfl hu
      have hright := units_pos rfl hv
      exact ⟨positive_of_units (by omega), hrounds.packable⟩
    | _ => cases hv
  | _ => cases hu

protected theorem add_pos {a b : Float} (ha : 0.0 < a) (hb : 0.0 < b) : 0.0 < a + b := by
  rw [zero_lt_iff] at ha hb ⊢
  obtain ⟨hsum, hpacked⟩ := positive_add ha hb (packable_unpack a) (packable_unpack b)
  exact positive_pack hsum hpacked

/-- The half of a normal float is exact. -/
theorem positive_half {s : Sign} {m : Nat} {e : Int} {hm : 0 < m} (h : Positive (.finite s m e hm))
    (hlow : 2 ^ 52 ≤ m) (hhigh : m < 2 ^ 53) (he : -1072 ≤ e) :
    let half := UnpackedFloat.div .binary64 (.finite s m e hm) (Number.ofNat 2).toModel.unpack
    Positive half ∧ Packable half := by
  have htwo : (Number.ofNat 2).toModel.unpack = .finite .positive (2 ^ 52) (-51) (by decide) := rfl
  have hlog : m.log2 = 52 := (Nat.log2_eq_iff hm.ne').2 ⟨hlow, hhigh⟩
  have hcore : divCore .binary64 m e (2 ^ 52) (-51) = (2 * m, e - 2, .exact) := by
    have htarget : min (e - -51) (Format.binary64.targetExponent
        (totalExponent m e - totalExponent (2 ^ 52) (-51))) = e - 2 := by
      simp only [Format.targetExponent, totalExponent, hlog, Nat.log2_two_pow,
        Format.mantissaBits, Format.minExponent]
      omega
    have hshift : (e - -51 - (e - 2)).toNat = 53 := by omega
    have hwhole : m <<< 53 = 2 * m * 2 ^ 52 := by
      rw [Nat.shiftLeft_eq]
      ring
    simp only [divCore, htarget, hshift, hwhole, Nat.mul_mod_left, accuracyOfFraction,
      Nat.mul_div_cancel _ (Nat.two_pow_pos 52), if_true]
  cases h
  have hpos : 0 < 2 * m := by omega
  simp only [htwo, UnpackedFloat.div, hcore]
  obtain ⟨m', e', hm', hrounded, hfits, -⟩ :=
    roundWithAccuracy_dropped .positive (e := e - 2) hpos (by omega) (.inl (by omega))
  have hsign : (Sign.positive / Sign.positive) = .positive := rfl
  rw [hsign, hrounded]
  exact ⟨rfl, hfits⟩

theorem toModel_half (x : Float) : (Scalar.half x).toModel.unpack =
    UnpackedFloat.unpack .binary64 (UnpackedFloat.pack .binary64
      (UnpackedFloat.div .binary64 x.toModel.unpack (Number.ofNat 2).toModel.unpack)) := rfl

/-- What is not tiny has an exponent that leaves room for a half. -/
theorem exponent_of_le {x : Float} {s : Sign} {m : Nat} {e : Int} {hm : 0 < m}
    (hunpack : x.toModel.unpack = .finite s m e hm) (hle : 0.001 ≤ x) : -63 < e := by
  have hfinite : IsFinite x := isFinite_iff.2 (by rw [hunpack]; rfl)
  have hmantissa : m < 2 ^ 53 := by
    have hfits := packable_unpack x
    rw [hunpack] at hfits
    exact hfits.mantissa
  have hsize := abs_exactValue x
  rw [magnitude_eq hfinite.isNumber, hunpack] at hsize
  have hvalue : exactValue 0.001 = 4611686018427388 / 2 ^ 62 :=
    (exactValue_of_ratio 4611686018427388 (2 ^ 62) (by decide) (by decide)).trans (by norm_num)
  have hless : (2 : ℚ) ^ (-10 : Int) < 2 ^ (53 + e) := by
    rw [zpow_add₀ two_ne_zero]
    calc (2 : ℚ) ^ (-10 : Int) ≤ exactValue 0.001 := by rw [hvalue]; norm_num
      _ ≤ exactValue x := exactValue_le (by decide) hfinite hle
      _ ≤ m * 2 ^ e := (le_abs_self _).trans_eq hsize
      _ < 2 ^ (53 : Int) * 2 ^ e := by
        gcongr
        exact_mod_cast hmantissa
  have := (zpow_lt_zpow_iff_right₀ one_lt_two).1 hless
  omega

/-- The half of what is not tiny is positive. -/
protected theorem half_pos {x : Float} (hx : IsNumber x) (h : ¬ x < 0.001) :
    0.0 < Scalar.half x := by
  have hleast : IsFinite 0.001 := by decide
  have hle : 0.001 ≤ x := (not_lt hx hleast.isNumber).1 h
  have hpositive := zero_lt_iff.1 (lt_of_pos_of_le (by decide) hle)
  have hfits := packable_unpack x
  rw [zero_lt_iff, toModel_half]
  cases hunpack : x.toModel.unpack with
  | finite s m e hm =>
    have hexponent := exponent_of_le hunpack hle
    rw [hunpack] at hfits hpositive
    obtain ⟨hhalf, hpacked⟩ := positive_half hpositive (hfits.normal.resolve_right (by omega))
      hfits.mantissa (by omega)
    exact positive_pack hhalf hpacked
  | infinity s =>
    rw [hunpack] at hpositive
    cases hpositive
    exact positive_pack rfl trivial
  | _ =>
    rw [hunpack] at hpositive
    cases hpositive

theorem isNumber_of_lt {a b : Float} (h : a < b) : IsNumber b := by
  have hswap := compare_swap a.toModel.unpack b.toModel.unpack
  rw [lt_iff_compare.1 h] at hswap
  exact isNumber_of_compare hswap

theorem pos_of_not_le {x : Float} (hx : IsNumber x) (h : ¬ x ≤ 0.0) : 0.0 < x := by
  have hzero : IsFinite 0.0 := by decide
  by_contra hle
  exact h ((not_lt hzero.isNumber hx).1 hle)

end PartProgram.Number

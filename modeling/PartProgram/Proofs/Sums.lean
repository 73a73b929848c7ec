import PartProgram.Proofs.Lengths
import PartProgram.Proofs.SameNumbers

/-!
# PartProgram.Proofs.Sums

Sums of doubles. Finite doubles are equal, and compare, as what they stand for. A sum or a
difference that is far from the largest double is finite and rounded, so its sign is that of the
exact sum; and a double that is not small is a multiple of a power of two.

* `beq_iff_exactValue`, `le_iff_exactValue`, `lt_iff_exactValue`: comparisons.
* `add_roundsTo`, `sub_roundsTo`: sums and differences.
* `IsDouble.onGrid`, `OnGrid.le_of_lt_step`: doubles that are not small.
-/

namespace PartProgram.Number

open Float.Model UnpackedFloat

/-! ## Comparisons -/

/-- Packed floats of one size are one. -/
theorem Fits.inj {m n : Nat} {e f : Int} (hm : Fits m e) (hn : Fits n f)
    (h : inUnit m e = inUnit n f) : m = n ∧ e = f := by
  rcases lt_trichotomy e f with hlt | rfl | hlt
  · exact absurd h (inUnit_lt_of_exponent_lt hm hn hlt).ne
  · exact ⟨Nat.eq_of_mul_eq_mul_right (Nat.two_pow_pos _) h, rfl⟩
  · exact absurd h (inUnit_lt_of_exponent_lt hn hm hlt).ne'

theorem inUnit_pos {m : Nat} (hm : 0 < m) (e : Int) : 0 < inUnit m e :=
  Nat.mul_pos hm (Nat.two_pow_pos _)

/-- What stands for the same is the same, but for the sign of a zero. -/
theorem sameButZero_of_units {a b : UnpackedFloat} (ha : a.isFinite = true)
    (hb : b.isFinite = true) (hpa : Packable a) (hpb : Packable b)
    (h : unpackedUnits a = unpackedUnits b) : SameButZero a b := by
  have hnonzero {m : Nat} (hm : 0 < m) (e : Int) (s : Sign) : s.apply (inUnit m e) ≠ 0 := by
    have hpos := inUnit_pos hm e
    cases s <;> simp only [Sign.apply] <;> omega
  cases a with
  | notANumber => cases ha
  | infinity s => cases ha
  | zero s => cases b with
    | notANumber => cases hb
    | infinity t => cases hb
    | zero t => exact .zero s t
    | finite t n f hn => exact absurd h.symm (hnonzero hn f t)
  | finite s m e hm => cases b with
    | notANumber => cases hb
    | infinity t => cases hb
    | zero t => exact absurd h (hnonzero hm e s)
    | finite t n f hn =>
      have hsame : s = t ∧ inUnit m e = inUnit n f := by
        have hm' := inUnit_pos hm e
        have hn' := inUnit_pos hn f
        simp only [unpackedUnits] at h
        cases s <;> cases t <;> simp only [Sign.apply] at h <;> simp <;> omega
      obtain ⟨rfl, hsize⟩ := hsame
      obtain ⟨rfl, rfl⟩ := hpa.inj hpb hsize
      exact .refl _

theorem isNaN_of_isFinite {u : UnpackedFloat} (h : u.isFinite = true) : u.isNaN = false := by
  cases u <;> first | rfl | cases h

theorem IsFinite.isNumber {x : Float} (h : IsFinite x) : IsNumber x :=
  isNaN_of_isFinite (isFinite_iff.1 h)

variable {a b : Float}

protected theorem le_of_lt (h : a < b) : a ≤ b := by
  rw [le_iff_compare, lt_iff_compare.1 h]
  rfl

theorem le_of_beq (h : (a == b) = true) : a ≤ b := by
  rw [le_iff_compare, beq_iff_compare.1 h]
  rfl

/-- Finite doubles are equal if they stand for the same. -/
theorem beq_iff_exactValue (ha : IsFinite a) (hb : IsFinite b) :
    (a == b) = true ↔ exactValue a = exactValue b := by
  constructor
  · intro h
    exact le_antisymm (exactValue_le ha hb (le_of_beq h))
      (exactValue_le hb ha (le_of_beq (beq_comm a b ▸ h)))
  · intro h
    obtain ⟨hpa, hua⟩ := unpack_toModel ha
    obtain ⟨hpb, hub⟩ := unpack_toModel hb
    have hunits : units a = units b := by
      rw [exactValue_eq, exactValue_eq, div_left_inj' (by positivity)] at h
      exact_mod_cast h
    have hsame : SameNumber a b := sameNumber_iff.2 (sameButZero_of_units (isFinite_iff.1 ha)
      (isFinite_iff.1 hb) hpa hpb (by rw [hua, hub, hunits]))
    rcases hsame with rfl | hsame
    · exact beq_self ha.isNumber
    · exact hsame

/-- Finite doubles compare as what they stand for. -/
theorem le_iff_exactValue (ha : IsFinite a) (hb : IsFinite b) :
    a ≤ b ↔ exactValue a ≤ exactValue b := by
  refine ⟨exactValue_le ha hb, fun h => ?_⟩
  by_contra hle
  have hlt : b < a := by
    by_contra hlt
    exact hle ((not_lt hb.isNumber ha.isNumber).1 hlt)
  exact hle (le_of_beq ((beq_iff_exactValue ha hb).2
    (h.antisymm (exactValue_le hb ha (Number.le_of_lt hlt)))))

theorem lt_iff_exactValue (ha : IsFinite a) (hb : IsFinite b) :
    a < b ↔ exactValue a < exactValue b := by
  rw [← not_iff_not, not_lt ha.isNumber hb.isNumber, le_iff_exactValue hb ha, Rat.not_lt]

/-! ## Rounding -/

/-- A number that is a finite double, or the negative of one. -/
def IsDouble (q : ℚ) : Prop := ∃ x, IsFinite x ∧ |exactValue x| = |q|

/-- A multiple of what two doubles between `2^k` and its double are apart at least. -/
def OnGrid (k : Int) (q : ℚ) : Prop := ∃ n : Int, q = n * 2 ^ (k - 52)

/-- The second number is the first one as it is rounded to a double. -/
structure RoundsTo (exact rounded : ℚ) : Prop where
  double : IsDouble rounded
  near : |rounded - exact| ≤ |rounded| / 2 ^ 53

theorem IsFinite.isDouble {x : Float} (h : IsFinite x) : IsDouble (exactValue x) := ⟨x, h, rfl⟩

theorem magnitude_mantissa (x : Float) : (magnitude x).m < 2 ^ 53 := by
  have hfraction : x.toBits.toNat % 2 ^ 63 % 2 ^ 52 < 2 ^ 52 := Nat.mod_lt _ (by decide)
  rw [magnitude]
  split <;> simp only <;> omega

namespace OnGrid

variable {k : Int} {q s : ℚ}

theorem sub_step (h : OnGrid k q) : OnGrid k (q - 2 ^ (k - 52)) := by
  obtain ⟨n, rfl⟩ := h
  exact ⟨n - 1, by push_cast; ring⟩

theorem add_step (h : OnGrid k q) : OnGrid k (q + 2 ^ (k - 52)) := by
  obtain ⟨n, rfl⟩ := h
  exact ⟨n + 1, by push_cast; ring⟩

/-- Before the next multiple there is none. -/
theorem le_of_lt_step (hq : OnGrid k q) (hs : OnGrid k s) (h : q < s + 2 ^ (k - 52)) : q ≤ s := by
  obtain ⟨m, rfl⟩ := hq
  obtain ⟨n, rfl⟩ := hs
  have hm : (m : ℚ) < n + 1 := by
    refine lt_of_mul_lt_mul_right (h.trans_eq ?_) (by positivity : (0 : ℚ) ≤ 2 ^ (k - 52))
    ring
  gcongr
  exact Int.le_of_lt_add_one (by exact_mod_cast hm)

end OnGrid

namespace IsDouble

variable {q : ℚ}

theorem neg (h : IsDouble q) : IsDouble (-q) := by
  obtain ⟨x, hx, hsize⟩ := h
  exact ⟨x, hx, hsize.trans (abs_neg q).symm⟩

theorem abs (h : IsDouble q) : IsDouble |q| := by
  obtain ⟨x, hx, hsize⟩ := h
  exact ⟨x, hx, hsize.trans (abs_abs q).symm⟩

/-- From a power of two on there are 52 binary places after the first digit. -/
theorem onGrid (h : IsDouble q) {k : Int} (hk : 2 ^ k ≤ |q|) : OnGrid k q := by
  obtain ⟨x, -, hsize⟩ := h
  rw [abs_exactValue] at hsize
  have hmantissa : ((magnitude x).m : ℚ) < 2 ^ (53 : Int) := by
    exact_mod_cast magnitude_mantissa x
  have hexponent : k - 52 ≤ (magnitude x).e := by
    have hless : (2 : ℚ) ^ k < 2 ^ (53 + (magnitude x).e) := by
      rw [zpow_add₀ two_ne_zero]
      calc (2 : ℚ) ^ k ≤ (magnitude x).m * 2 ^ (magnitude x).e := hk.trans_eq hsize.symm
        _ < 2 ^ (53 : Int) * 2 ^ (magnitude x).e := by gcongr
    have := (zpow_lt_zpow_iff_right₀ one_lt_two).1 hless
    omega
  obtain ⟨places, hplaces⟩ := Int.eq_ofNat_of_zero_le (Int.sub_nonneg_of_le hexponent)
  have hsplit : |q| = ((magnitude x).m * 2 ^ places : Nat) * 2 ^ (k - 52) := by
    have hsum : (magnitude x).e = places + (k - 52) := by omega
    rw [← hsize, hsum, zpow_add₀ two_ne_zero, zpow_natCast]
    push_cast
    ring
  rcases abs_eq_abs.1 (hsplit.trans (abs_of_nonneg (by positivity)).symm) with hq | hq
  · exact ⟨((magnitude x).m * 2 ^ places : Nat), by exact_mod_cast hq⟩
  · exact ⟨-((magnitude x).m * 2 ^ places : Nat), by push_cast; push_cast at hq; rw [hq, neg_mul]⟩

end IsDouble

namespace RoundsTo

variable {exact rounded : ℚ}

theorem neg (h : RoundsTo exact rounded) : RoundsTo (-exact) (-rounded) := by
  refine ⟨h.double.neg, ?_⟩
  rw [← neg_sub', abs_neg, abs_neg]
  exact h.near

/-- Rounding keeps the sign. -/
theorem pos_iff (h : RoundsTo exact rounded) : 0 < rounded ↔ 0 < exact := by
  have hnear := abs_le.1 h.near
  constructor <;> intro hpos
  · rw [abs_of_pos hpos] at hnear
    linarith
  · by_contra hneg
    rw [abs_of_nonpos (Rat.not_lt.1 hneg)] at hnear
    linarith

theorem nonneg (h : RoundsTo exact rounded) (hexact : 0 ≤ exact) : 0 ≤ rounded := by
  by_contra hneg
  have hopposite := h.neg.pos_iff.1 (by linarith)
  linarith

end RoundsTo

/-! ## Sums -/

theorem packable_unpack (x : Float) : Packable x.toModel.unpack := by
  cases hx : x.toModel.unpack with
  | finite s m e hm =>
    rw [← hx]
    exact (unpack_toModel (isFinite_iff.2 (by rw [hx]; rfl))).1
  | _ => trivial

theorem add_eq_sub_neg (a b : UnpackedFloat) :
    UnpackedFloat.add .binary64 a b = UnpackedFloat.sub .binary64 a b.neg := by
  cases a with
  | finite s m e hm => cases b with
    | finite t n f hn =>
      have hsum (x : Int) (n : Nat) : x + t.apply n = x - (-t).apply n := by
        rw [apply_neg, Int.sub_neg]
      simp only [UnpackedFloat.add, UnpackedFloat.sub, UnpackedFloat.neg, hsum]
    | infinity t => cases t <;> rfl
    | _ => rfl
  | zero s => cases b with
    | zero t => cases s <;> cases t <;> rfl
    | infinity t => cases t <;> rfl
    | finite t => cases t <;> rfl
    | notANumber => rfl
  | infinity s => cases b with
    | infinity t => cases s <;> cases t <;> rfl
    | _ => rfl
  | notANumber => cases b <;> rfl

theorem drops_add {a b : UnpackedFloat} (ha : a.isFinite = true) (hb : b.isFinite = true)
    (hpa : Packable a) (hpb : Packable b) :
    Drops (unpackedUnits a + unpackedUnits b) (UnpackedFloat.add .binary64 a b) := by
  have hneg : b.neg.isFinite = true ∧ Packable b.neg ∧ unpackedUnits b.neg = -unpackedUnits b := by
    cases b with
    | finite t n f hn => exact ⟨rfl, hpb, apply_neg t _⟩
    | zero t => exact ⟨rfl, trivial, rfl⟩
    | _ => cases hb
  obtain ⟨hfinite, hpackable, hunits⟩ := hneg
  have hdrops := drops_sub ha hfinite hpa hpackable
  rwa [hunits, Int.sub_neg, ← add_eq_sub_neg] at hdrops

/-- What does not exceed the largest double is packed as a finite one. -/
theorem isFinite_pack {u : UnpackedFloat} (h : u.isFinite = true) (hp : Packable u) {k : Nat}
    (hk : k ≤ 2098) (hsize : (unpackedUnits u).natAbs < 2 ^ k) :
    (UnpackedFloat.unpack .binary64 (UnpackedFloat.pack .binary64 u)).isFinite = true := by
  have hfinite {s : Sign} {x : BitVec 11} {f : BitVec 52} (h : x.toNat ≠ 2047) :
      (UnpackedFloat.unpack .binary64 (packComponents .binary64 s x f)).isFinite = true := by
    rw [isFinite_unpack_iff, unpackExponent_packComponents]
    exact h
  revert h hp hsize
  fun_cases UnpackedFloat.pack with
  | case1 => exact fun h => by cases h
  | case2 s => exact fun h => by cases h
  | case3 s => exact fun _ _ _ => hfinite (by decide)
  | case4 s m e hm exponent hlarge =>
    intro _ hfits hsize
    have hlast : 2 ^ 11 ≤ (e + (1023 : Nat) + (52 : Nat)).toNat + 1 := hlarge
    have habs : (unpackedUnits (.finite s m e hm)).natAbs = inUnit m e := by
      cases s
      · exact Int.natAbs_neg _
      · rfl
    have hnormal : 2 ^ 52 ≤ m := hfits.normal.resolve_right (by omega)
    have hmore : 2 ^ k ≤ inUnit m e := by
      calc 2 ^ k ≤ 2 ^ (52 + (e + 1074).toNat) := Nat.pow_le_pow_right (by decide) (by omega)
        _ = 2 ^ 52 * 2 ^ (e + 1074).toNat := Nat.pow_add ..
        _ ≤ inUnit m e := Nat.mul_le_mul_right _ hnormal
    omega
  | case5 s m e hm bits exponent hlarge hnormal =>
    intro _ _ _
    refine hfinite ?_
    have hsmall : ¬ 2 ^ 11 ≤ exponent + 1 := hlarge
    show exponent % 2 ^ 11 ≠ 2047
    omega
  | case6 s m e hm bits exponent hlarge hnormal => exact fun _ _ _ => hfinite (by decide)

/-- A limit of a number in units. -/
theorem natAbs_le_of_abs_le {n : Int} (h : |(n / 2 ^ 1074 : ℚ)| ≤ 2 ^ 100) :
    n.natAbs ≤ 2 ^ (100 + 1074) := by
  rw [abs_div, abs_of_pos (by positivity : (0 : ℚ) < 2 ^ 1074), div_le_iff₀ (by positivity),
    ← pow_add] at h
  generalize 100 + 1074 = k at h ⊢
  rw [← Nat.cast_le (α := ℚ), Nat.cast_natAbs]
  exact_mod_cast h

/-- What is rounded and packed is finite if it is far from the largest double. -/
theorem roundsTo_of_rounds {x : Float} {u : UnpackedFloat} {n : Int} (h : Rounds n u)
    (hx : x.toModel.unpack =
      UnpackedFloat.unpack .binary64 (UnpackedFloat.pack .binary64 u))
    (hlimit : |(n / 2 ^ 1074 : ℚ)| ≤ 2 ^ 100) :
    IsFinite x ∧ RoundsTo (n / 2 ^ 1074) (exactValue x) := by
  have hsize := natAbs_le_of_abs_le hlimit
  have hrounded : (unpackedUnits u).natAbs < 2 ^ (100 + 1074 + 2) := by
    have hnear := h.near
    have hpos := Nat.two_pow_pos (100 + 1074)
    rw [Nat.pow_add]
    omega
  have hpacked := isFinite_pack h.finite h.packable (by decide) hrounded
  have hfinite : IsFinite x := isFinite_iff.2 (hx ▸ hpacked)
  have hunits := units_of_pack h.packable hfinite hx
  exact ⟨hfinite, hfinite.isDouble, exactValue_near (hunits ▸ h.near)⟩

/-- Before it is packed, a sum is the exact one with the digits dropped that do not fit. -/
theorem drops_units_add (ha : IsFinite a) (hb : IsFinite b) :
    Drops (units a + units b)
      (UnpackedFloat.add .binary64 a.toModel.unpack b.toModel.unpack) := by
  obtain ⟨hpa, hua⟩ := unpack_toModel ha
  obtain ⟨hpb, hub⟩ := unpack_toModel hb
  rw [← hua, ← hub]
  exact drops_add (isFinite_iff.1 ha) (isFinite_iff.1 hb) hpa hpb

theorem sub_roundsTo (ha : IsFinite a) (hb : IsFinite b)
    (h : |exactValue a - exactValue b| ≤ 2 ^ 100) :
    IsFinite (a - b) ∧ RoundsTo (exactValue a - exactValue b) (exactValue (a - b)) := by
  have hexact : exactValue a - exactValue b = ((units a - units b : Int) / 2 ^ 1074 : ℚ) := by
    rw [exactValue_eq, exactValue_eq, Int.cast_sub, sub_div]
  rw [hexact] at h ⊢
  exact roundsTo_of_rounds (drops_units_sub ha hb).rounds rfl h

theorem add_roundsTo (ha : IsFinite a) (hb : IsFinite b)
    (h : |exactValue a + exactValue b| ≤ 2 ^ 100) :
    IsFinite (a + b) ∧ RoundsTo (exactValue a + exactValue b) (exactValue (a + b)) := by
  have hexact : exactValue a + exactValue b = ((units a + units b : Int) / 2 ^ 1074 : ℚ) := by
    rw [exactValue_eq, exactValue_eq, Int.cast_add, add_div]
  rw [hexact] at h ⊢
  exact roundsTo_of_rounds (drops_units_add ha hb).rounds rfl h

end PartProgram.Number

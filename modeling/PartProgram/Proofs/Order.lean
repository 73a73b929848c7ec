import PartProgram.Proofs.Result
import PartProgram.Controller
import PartProgram.Block

/-!
# PartProgram.Proofs.Order

The order of doubles. Of two doubles that are numbers one is at most the other, so a double that is
not below a limit has reached it. Numerals, words and the limits of every control are numbers.

* `Number.not_lt`: what is not below a limit has reached it.
* `Block.value_isNumber`: the value of a word is a number.
-/

namespace PartProgram.Number

open Float.Model UnpackedFloat

/-! ## Comparison -/

theorem compare_swap (a b : UnpackedFloat) :
    UnpackedFloat.compare b a = (UnpackedFloat.compare a b).map Ordering.swap := by
  have hints (x y : Int) (m n : Nat) :
      (compare y x).then (compare n m) = ((compare x y).then (compare m n)).swap := by
    rw [Ordering.swap_then, Std.OrientedOrd.eq_swap (a := y), Std.OrientedOrd.eq_swap (a := n)]
  cases a with
  | notANumber => cases b <;> rfl
  | infinity s =>
    cases b with
    | infinity t => cases s <;> cases t <;> rfl
    | _ => cases s <;> rfl
  | zero s =>
    cases b with
    | finite t m e h => cases t <;> rfl
    | infinity t => cases t <;> rfl
    | _ => rfl
  | finite s m e h =>
    cases b with
    | finite t n f h' =>
      cases s with
      | negative =>
        cases t with
        | negative => exact congrArg (fun o => some o.swap) (hints e f m n)
        | positive => rfl
      | positive =>
        cases t with
        | negative => rfl
        | positive => exact congrArg some (hints e f m n)
    | infinity t => cases t <;> rfl
    | zero t => cases s <;> rfl
    | notANumber => rfl

/-- The double is a number, finite or not. -/
def IsNumber (x : Float) : Prop := x.isNaN = false

theorem compare_isSome {a b : UnpackedFloat} (ha : a.isNaN = false) (hb : b.isNaN = false) :
    (UnpackedFloat.compare a b).isSome = true := by
  cases a with
  | notANumber => cases ha
  | infinity s => cases b with
    | notANumber => cases hb
    | _ => cases s <;> rfl
  | zero s => cases b with
    | notANumber => cases hb
    | zero t => rfl
    | _ t => cases t <;> rfl
  | finite s m e h => cases b with
    | notANumber => cases hb
    | zero t => cases s <;> rfl
    | _ t => cases s <;> cases t <;> rfl

theorem lt_iff_compare {a b : Float} :
    a < b ↔ UnpackedFloat.compare a.toModel.unpack b.toModel.unpack = some .lt := by
  show Float.lt a b = true ↔ _
  simp only [Float.lt, LT.lt, Float.Model.lt, UnpackedFloat.lt]
  simp

theorem le_iff_compare {a b : Float} :
    a ≤ b ↔ (UnpackedFloat.compare a.toModel.unpack b.toModel.unpack).any (·.isLE) = true := by
  show Float.le a b = true ↔ _
  simp only [Float.le, LE.le, Float.Model.le, UnpackedFloat.le]
  exact decide_eq_true_iff

/-- What is not below a limit has reached it. -/
theorem not_lt {a b : Float} (ha : IsNumber a) (hb : IsNumber b) : ¬ a < b ↔ b ≤ a := by
  obtain ⟨o, ho⟩ := Option.isSome_iff_exists.1 (compare_isSome ha hb)
  rw [lt_iff_compare, le_iff_compare, compare_swap a.toModel.unpack, ho]
  cases o <;> simp

theorem compare_self {a : UnpackedFloat} (ha : a.isNaN = false) :
    UnpackedFloat.compare a a = some .eq := by
  cases a with
  | notANumber => cases ha
  | infinity s => cases s <;> rfl
  | zero s => rfl
  | finite s m e h =>
    have hsame : (compare e e).then (compare m m) = .eq := by simp
    cases s with
    | negative => exact congrArg (fun o => some o.swap) hsame
    | positive => exact congrArg some hsame

/-- A number equals itself. -/
theorem beq_self {a : Float} (ha : IsNumber a) : (a == a) = true := by
  show (UnpackedFloat.compare a.toModel.unpack a.toModel.unpack == some .eq) = true
  rw [compare_self ha]
  rfl

/-- Doubles that compare equal are one, or both zero. -/
theorem compare_eq_cases {a b : UnpackedFloat} (h : UnpackedFloat.compare a b = some .eq) :
    a = b ∨ ∃ s t, a = .zero s ∧ b = .zero t := by
  cases a with
  | notANumber => cases b <;> cases h
  | infinity s => cases b with
    | infinity t => cases s <;> cases t <;> first | exact .inl rfl | cases h
    | notANumber => cases h
    | _ => cases s <;> cases h
  | zero s => cases b with
    | zero t => exact .inr ⟨s, t, rfl, rfl⟩
    | notANumber => cases h
    | infinity t => cases t <;> cases h
    | finite t => cases t <;> cases h
  | finite s m e hm => cases b with
    | finite t n f hn =>
      have hparts (h : (compare e f).then (compare m n) = .eq) : e = f ∧ m = n := by
        simpa [Ordering.then_eq_eq] using h
      left
      cases s with
      | negative => cases t with
        | negative =>
          have hswap : ((compare e f).then (compare m n)).swap = .eq := Option.some.inj h
          obtain ⟨rfl, rfl⟩ := hparts (Ordering.swap_eq_eq.1 hswap)
          rfl
        | positive => cases h
      | positive => cases t with
        | negative => cases h
        | positive =>
          obtain ⟨rfl, rfl⟩ := hparts (Option.some.inj h)
          rfl
    | notANumber => cases h
    | infinity t => cases s <;> cases t <;> cases h
    | zero t => cases s <;> cases h

theorem beq_iff_compare {a b : Float} :
    (a == b) = true ↔ UnpackedFloat.compare a.toModel.unpack b.toModel.unpack = some .eq := by
  show (UnpackedFloat.compare a.toModel.unpack b.toModel.unpack == some .eq) = true ↔ _
  simp

/-- Equal numbers compare alike with other numbers. -/
theorem compare_congr {a b : Float} (h : (a == b) = true) (c : Float) :
    UnpackedFloat.compare a.toModel.unpack c.toModel.unpack =
      UnpackedFloat.compare b.toModel.unpack c.toModel.unpack := by
  rcases compare_eq_cases (beq_iff_compare.1 h) with heq | ⟨s, t, ha, hb⟩
  · rw [heq]
  · rw [ha, hb]
    cases c.toModel.unpack with
    | infinity u => cases u <;> rfl
    | finite u => cases u <;> rfl
    | _ => rfl

/-- Equal numbers are equal to the same numbers. -/
theorem beq_congr {a b : Float} (h : (a == b) = true) (c : Float) : (a == c) = (b == c) := by
  rw [Bool.eq_iff_iff, beq_iff_compare, beq_iff_compare, compare_congr h]

theorem lt_congr_left {a b : Float} (h : (a == b) = true) (c : Float) : a < c ↔ b < c := by
  rw [lt_iff_compare, lt_iff_compare, compare_congr h]

theorem lt_congr_right {a b : Float} (h : (a == b) = true) (c : Float) : c < a ↔ c < b := by
  rw [lt_iff_compare, lt_iff_compare, compare_swap a.toModel.unpack, compare_congr h,
    ← compare_swap]

theorem beq_comm (a b : Float) : (a == b) = (b == a) := by
  rw [Bool.eq_iff_iff, beq_iff_compare, beq_iff_compare, compare_swap a.toModel.unpack]
  cases UnpackedFloat.compare a.toModel.unpack b.toModel.unpack with
  | none => simp
  | some o => cases o <;> simp

theorem compare_of_neg_of_pos {a b : UnpackedFloat} {s : Sign}
    (ha : UnpackedFloat.compare a (.zero s) = some .lt)
    (hb : UnpackedFloat.compare (.zero s) b = some .lt) : UnpackedFloat.compare a b = some .lt := by
  cases a with
  | notANumber => cases ha
  | zero t => cases ha
  | infinity t => cases t with
    | negative => cases b with
      | infinity u => cases u <;> first | rfl | cases hb
      | zero u => cases hb
      | notANumber => cases hb
      | finite u => rfl
    | positive => cases ha
  | finite t m e hm => cases t with
    | negative => cases b with
      | infinity u => cases u <;> first | rfl | cases hb
      | zero u => cases hb
      | notANumber => cases hb
      | finite u n f hn => cases u <;> first | rfl | cases hb
    | positive => cases ha

theorem lt_of_neg_of_pos {a b : Float} (ha : a < 0.0) (hb : 0.0 < b) : a < b := by
  have hzero : (0.0 : Float).toModel.unpack = .zero .positive := rfl
  rw [lt_iff_compare] at ha hb ⊢
  rw [hzero] at ha hb
  exact compare_of_neg_of_pos ha hb

/-! ## Numbers by their bits -/

theorem unpackMantissa_toNat (b : BitVec Format.binary64.numBits) :
    (unpackMantissa b).toNat = b.toNat % 2 ^ 52 := by
  simp [unpackMantissa, BitVec.extractLsb]

theorem unpackExponent_toNat (b : BitVec Format.binary64.numBits) :
    (unpackExponent b).toNat = b.toNat / 2 ^ 52 % 2 ^ 11 := by
  simp [unpackExponent, BitVec.extractLsb, Nat.shiftRight_eq_div_pow]

theorem unpack_isNaN_iff (b : BitVec Format.binary64.numBits) :
    (UnpackedFloat.unpack .binary64 b).isNaN = true ↔
      unpackExponent b = -1#11 ∧ unpackMantissa b ≠ 0#52 := by
  by_cases hexponent : unpackExponent b = -1#11
  · rw [show UnpackedFloat.unpack .binary64 b = _ from if_pos hexponent]
    by_cases hmantissa : unpackMantissa b = 0#52
    · rw [if_pos hmantissa]
      exact iff_of_false Bool.false_ne_true fun h => h.2 hmantissa
    · rw [if_neg hmantissa]
      exact iff_of_true rfl ⟨hexponent, hmantissa⟩
  · have hnumber : (UnpackedFloat.unpack .binary64 b).isNaN = false := by
      refine (congrArg UnpackedFloat.isNaN (if_neg hexponent)).trans ?_
      by_cases hsmall : unpackExponent b = 0#11
      · refine (congrArg UnpackedFloat.isNaN (if_pos hsmall)).trans ?_
        by_cases hmantissa : unpackMantissa b = 0#52
        · exact congrArg UnpackedFloat.isNaN (dif_pos hmantissa)
        · exact congrArg UnpackedFloat.isNaN (dif_neg hmantissa)
      · exact congrArg UnpackedFloat.isNaN (if_neg hsmall)
    rw [hnumber]
    exact iff_of_false Bool.false_ne_true fun h => hexponent h.1

theorem unpack_isNumber {b : BitVec Format.binary64.numBits}
    (h : b.toNat % 2 ^ 63 ≤ 2047 * 2 ^ 52) :
    (UnpackedFloat.unpack .binary64 b).isNaN = false := by
  rw [Bool.eq_false_iff, ne_eq, unpack_isNaN_iff]
  rintro ⟨hexponent, hmantissa⟩
  have hexponent := congrArg BitVec.toNat hexponent
  rw [unpackExponent_toNat] at hexponent
  have hone : (-1#11).toNat = 2047 := by decide
  have hmantissa : b.toNat % 2 ^ 52 ≠ 0 := by
    rw [← unpackMantissa_toNat]
    exact fun h0 => hmantissa (BitVec.eq_of_toNat_eq h0)
  omega

/-- A number is still one when it has been packed. -/
theorem pack_isNumber {u : UnpackedFloat} (h : u.isNaN = false) :
    (UnpackedFloat.unpack .binary64 (UnpackedFloat.pack .binary64 u)).isNaN = false := by
  rw [Bool.eq_false_iff, ne_eq, unpack_isNaN_iff]
  rintro ⟨hexponent, hmantissa⟩
  revert hexponent hmantissa
  fun_cases UnpackedFloat.pack with
  | case1 => cases h
  | case2 s => simp [packedInfinity]
  | case3 s => simp [packedZero]
  | case4 s m e _ exponent hlarge => simp [packedInfinity]
  | case5 s m e _ bits exponent hlarge hnormal =>
    intro hexponent
    rw [unpackExponent_packComponents] at hexponent
    have hbits : exponent % 2 ^ 11 = 2047 := congrArg BitVec.toNat hexponent
    have hsmall : ¬ 2 ^ 11 ≤ exponent + 1 := hlarge
    omega
  | case6 s m e _ bits exponent hlarge hnormal =>
    rw [unpackExponent_packComponents]
    intro hexponent
    exact absurd hexponent (by decide)

theorem ofBits_isNumber {w : UInt64} (h : w.toNat % 2 ^ 63 ≤ 2047 * 2 ^ 52) :
    IsNumber (.ofBits w) :=
  pack_isNumber (unpack_isNumber (b := w.toBitVec) h)

theorem nearestBits_le (num den : Nat) : nearestBits num den ≤ 2047 * 2 ^ 52 := by
  simp only [nearestBits]
  split
  · omega
  · exact Nat.min_le_right _ _

theorem ofRatio_isNumber (negative : Bool) (num den : Nat) :
    IsNumber (ofRatio negative num den) := by
  have hbits := nearestBits_le num den
  apply ofBits_isNumber
  cases negative with
  | false => simp; omega
  | true => simp; omega

/-- A numeral is written for a number. -/
theorem numeralValue_isNumber (cs : List Char) : IsNumber (numeralValue cs) :=
  ofRatio_isNumber _ _ _

end PartProgram.Number

namespace PartProgram

theorem Block.value_isNumber {b : Block} {letter : Char} {x : Float}
    (h : b.value letter = some x) : Number.IsNumber x := by
  simp only [value, Option.map_eq_some_iff] at h
  obtain ⟨w, -, rfl⟩ := h
  exact Number.numeralValue_isNumber _

theorem Block.valueOrZero_isNumber (b : Block) (letter : Char) :
    Number.IsNumber (b.valueOrZero letter) := by
  have hzero : Number.IsNumber 0.0 := (by decide : (0.0 : Float).isNaN = false)
  rw [valueOrZero]
  split
  next x hx =>
    split
    · exact hzero
    · exact value_isNumber hx
  · exact hzero

theorem Controller.maxFeed_isNumber (c : Controller) : Number.IsNumber c.profile.maxFeed := by
  have h : ∀ x : Float, x.isNaN = false → Number.IsNumber x := fun _ hx => hx
  cases c <;> exact h _ (by decide)

end PartProgram

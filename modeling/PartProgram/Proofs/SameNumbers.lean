import PartProgram.Proofs.Rounding

/-!
# PartProgram.Proofs.SameNumbers

Doubles that are one number. A number has one double, apart from zero, which has two; what is not a
number has one as well. Sums, products and quotients of the same numbers are the same numbers, and
comparisons and lengths do not see the sign of a zero.

* `SameNumber.add`, `SameNumber.sub`, `SameNumber.mul`, `SameNumber.div`: arithmetic.
* `SameNumber.hypot`: lengths are one double.
-/

namespace PartProgram.Number

open Float.Model UnpackedFloat

/-- The doubles are one, or equal as numbers. -/
def SameNumber (x y : Float) : Prop := x = y ∨ (x == y) = true

/-! ## Unpacked doubles -/

/-- The same but for the sign of a zero. -/
inductive SameButZero : UnpackedFloat → UnpackedFloat → Prop where
  | refl (u : UnpackedFloat) : SameButZero u u
  | zero (s t : Sign) : SameButZero (.zero s) (.zero t)

namespace SameButZero

variable {u v : UnpackedFloat}

theorem symm (h : SameButZero u v) : SameButZero v u := by
  cases h with
  | refl => exact .refl _
  | zero s t => exact .zero t s

theorem trans {w : UnpackedFloat} (h : SameButZero u v) (h' : SameButZero v w) :
    SameButZero u w := by
  cases h with
  | refl => exact h'
  | zero s t => cases h' with
    | refl => exact .zero s t
    | zero _ t' => exact .zero s t'

/-- A function to which both zeros are the same keeps what is the same but for them. -/
theorem map {f : UnpackedFloat → UnpackedFloat} (h : SameButZero u v)
    (hf : ∀ s t, SameButZero (f (.zero s)) (f (.zero t))) : SameButZero (f u) (f v) := by
  cases h with
  | refl => exact .refl _
  | zero s t => exact hf s t

theorem add_left (h : SameButZero u v) (w : UnpackedFloat) :
    SameButZero (UnpackedFloat.add .binary64 u w) (UnpackedFloat.add .binary64 v w) := by
  refine h.map (f := fun u => UnpackedFloat.add .binary64 u w) fun s t => ?_
  cases w with
  | zero r => cases s <;> cases t <;> cases r <;> exact .zero _ _
  | _ => exact .refl _

theorem add_right (h : SameButZero u v) (w : UnpackedFloat) :
    SameButZero (UnpackedFloat.add .binary64 w u) (UnpackedFloat.add .binary64 w v) := by
  refine h.map (f := fun u => UnpackedFloat.add .binary64 w u) fun s t => ?_
  cases w with
  | zero r => cases s <;> cases t <;> cases r <;> exact .zero _ _
  | _ => exact .refl _

theorem sub_left (h : SameButZero u v) (w : UnpackedFloat) :
    SameButZero (UnpackedFloat.sub .binary64 u w) (UnpackedFloat.sub .binary64 v w) := by
  refine h.map (f := fun u => UnpackedFloat.sub .binary64 u w) fun s t => ?_
  cases w with
  | zero r => cases s <;> cases t <;> cases r <;> exact .zero _ _
  | _ => exact .refl _

theorem sub_right (h : SameButZero u v) (w : UnpackedFloat) :
    SameButZero (UnpackedFloat.sub .binary64 w u) (UnpackedFloat.sub .binary64 w v) := by
  refine h.map (f := fun u => UnpackedFloat.sub .binary64 w u) fun s t => ?_
  cases w with
  | zero r => cases s <;> cases t <;> cases r <;> exact .zero _ _
  | _ => exact .refl _

theorem mul_left (h : SameButZero u v) (w : UnpackedFloat) :
    SameButZero (UnpackedFloat.mul .binary64 u w) (UnpackedFloat.mul .binary64 v w) := by
  refine h.map (f := fun u => UnpackedFloat.mul .binary64 u w) fun s t => ?_
  cases w with
  | zero r => exact .zero _ _
  | finite r m e hm => exact .zero _ _
  | _ => exact .refl _

theorem mul_right (h : SameButZero u v) (w : UnpackedFloat) :
    SameButZero (UnpackedFloat.mul .binary64 w u) (UnpackedFloat.mul .binary64 w v) := by
  refine h.map (f := fun u => UnpackedFloat.mul .binary64 w u) fun s t => ?_
  cases w with
  | zero r => exact .zero _ _
  | finite r m e hm => exact .zero _ _
  | _ => exact .refl _

theorem div_left (h : SameButZero u v) (w : UnpackedFloat) :
    SameButZero (UnpackedFloat.div .binary64 u w) (UnpackedFloat.div .binary64 v w) := by
  refine h.map (f := fun u => UnpackedFloat.div .binary64 u w) fun s t => ?_
  cases w with
  | infinity r => exact .zero _ _
  | finite r m e hm => exact .zero _ _
  | _ => exact .refl _

end SameButZero

/-! ## Doubles -/

/-- There is one double that is not a number. -/
theorem eq_of_not_isNumber {x y : Float} (hx : ¬ IsNumber x) (hy : ¬ IsNumber y) : x = y := by
  have hbits : ∀ {z : Float}, ¬ IsNumber z → z.toModel.toBits.toBitVec = packedNaN .binary64 := by
    intro z hz
    obtain ⟨hexponent, hmantissa⟩ := (unpack_isNaN_iff _).1 (Bool.not_eq_false _ ▸ hz)
    exact z.toModel.valid.eq_packedNaN hexponent hmantissa
  obtain ⟨⟨⟨bits⟩, valid⟩⟩ := x
  obtain ⟨⟨⟨bits'⟩, valid'⟩⟩ := y
  cases (hbits hx).trans (hbits hy).symm
  rfl

theorem sameNumber_iff {x y : Float} :
    SameNumber x y ↔ SameButZero x.toModel.unpack y.toModel.unpack := by
  constructor
  · rintro (rfl | h)
    · exact .refl _
    · rcases compare_eq_cases (beq_iff_compare.1 h) with heq | ⟨s, t, hx, hy⟩
      · rw [heq]
        exact .refl _
      · rw [hx, hy]
        exact .zero s t
  · generalize hu : x.toModel.unpack = u
    generalize hv : y.toModel.unpack = v
    intro h
    cases h with
    | zero s t =>
      right
      rw [beq_iff_compare, hu, hv]
      rfl
    | refl =>
      cases hnumber : u.isNaN with
      | false =>
        right
        rw [beq_iff_compare, hu, hv]
        exact compare_self hnumber
      | true =>
        left
        refine eq_of_not_isNumber ?_ ?_ <;> rw [IsNumber] <;> intro h
        · rw [show x.isNaN = x.toModel.unpack.isNaN from rfl, hu, hnumber] at h
          cases h
        · rw [show y.isNaN = y.toModel.unpack.isNaN from rfl, hv, hnumber] at h
          cases h

/-- The size that is read off the bits of a number. -/
def unpackedMagnitude : UnpackedFloat → Magnitude
  | .notANumber => ⟨2 ^ 52 + 2 ^ 51, 972⟩
  | .infinity _ => ⟨2 ^ 52, 972⟩
  | .zero _ => ⟨0, -1074⟩
  | .finite _ m e _ => ⟨m, e⟩

theorem magnitude_eq {x : Float} (h : IsNumber x) :
    magnitude x = unpackedMagnitude x.toModel.unpack := by
  have hmantissa : (@unpackMantissa .binary64 x.toModel.toBits.toBitVec).toNat =
      x.toBits.toNat % 2 ^ 52 := unpackMantissa_toNat _
  have hexponent := unpackExponent_toBits x
  have hfraction : x.toBits.toNat % 2 ^ 63 % 2 ^ 52 = x.toBits.toNat % 2 ^ 52 := by omega
  have hbits : x.toBits.toNat % 2 ^ 63 / 2 ^ 52 = x.toBits.toNat / 2 ^ 52 % 2 ^ 11 := by omega
  have hbias : ((Format.binary64.exponentBias : Nat) : Int) + (52 : Nat) = 1075 := rfl
  have hnumber : (UnpackedFloat.unpack .binary64 x.toModel.toBits.toBitVec).isNaN = false := h
  rw [show x.toModel.unpack = UnpackedFloat.unpack .binary64 x.toModel.toBits.toBitVec from rfl]
  rw [magnitude, hfraction, hbits, ← hmantissa, ← hexponent]
  simp only [UnpackedFloat.unpack] at hnumber ⊢
  split_ifs at hnumber ⊢ with hlast hzero hleast hzero
  · rw [hlast, hzero]
    rfl
  · cases hnumber
  · rw [hleast, hzero]
    rfl
  · rw [hleast]
    rfl
  · have hwhole : (1#1 ++ @unpackMantissa .binary64 x.toModel.toBits.toBitVec).toNat =
        2 ^ 52 + (@unpackMantissa .binary64 x.toModel.toBits.toBitVec).toNat := toNat_hiddenBit _
    obtain ⟨k, hk⟩ : ∃ k, (@unpackExponent .binary64 x.toModel.toBits.toBitVec).toNat = k + 1 :=
      exists_succ_of_ne_zero hleast
    rw [unpackedMagnitude, hwhole, hbias, hk, Magnitude.mk.injEq]
    exact ⟨rfl, by omega⟩

/-- Numbers of one size have the same bits but for the sign. -/
theorem bits_of_magnitude {x y : Float} (h : magnitude x = magnitude y) :
    x.toBits.toNat % 2 ^ 63 = y.toBits.toNat % 2 ^ 63 := by
  simp only [magnitude] at h
  split at h <;> split at h <;> simp only [Magnitude.mk.injEq] at h <;> omega

theorem isNumber_of_compare {x y : Float} {o : Ordering}
    (h : UnpackedFloat.compare x.toModel.unpack y.toModel.unpack = some o) : IsNumber x := by
  show x.toModel.unpack.isNaN = false
  generalize x.toModel.unpack = u at h
  cases u with
  | notANumber => cases h
  | _ => rfl

namespace SameNumber

variable {x x' y y' z : Float}

theorem refl (x : Float) : SameNumber x x := .inl rfl

theorem symm (h : SameNumber x y) : SameNumber y x := sameNumber_iff.2 (sameNumber_iff.1 h).symm

theorem trans (h : SameNumber x y) (h' : SameNumber y z) : SameNumber x z :=
  sameNumber_iff.2 ((sameNumber_iff.1 h).trans (sameNumber_iff.1 h'))

/-- Zeros stay zeros when they are packed. -/
theorem pack {u v : UnpackedFloat} (h : SameButZero u v) :
    SameNumber (.ofModel (.pack u)) (.ofModel (.pack v)) := by
  cases h with
  | refl => exact .refl _
  | zero s t =>
    have hzero : ∀ s, (UnpackedFloat.unpack .binary64 (UnpackedFloat.pack .binary64 (.zero s))) =
        .zero s := by
      intro s
      cases s <;> rfl
    rw [sameNumber_iff]
    show SameButZero (UnpackedFloat.unpack .binary64 (UnpackedFloat.pack .binary64 (.zero s)))
      (UnpackedFloat.unpack .binary64 (UnpackedFloat.pack .binary64 (.zero t)))
    rw [hzero, hzero]
    exact .zero s t

theorem add (hx : SameNumber x x') (hy : SameNumber y y') : SameNumber (x + y) (x' + y') :=
  pack (((sameNumber_iff.1 hx).add_left _).trans ((sameNumber_iff.1 hy).add_right _))

theorem sub (hx : SameNumber x x') (hy : SameNumber y y') : SameNumber (x - y) (x' - y') :=
  pack (((sameNumber_iff.1 hx).sub_left _).trans ((sameNumber_iff.1 hy).sub_right _))

theorem mul (hx : SameNumber x x') (hy : SameNumber y y') : SameNumber (x * y) (x' * y') :=
  pack (((sameNumber_iff.1 hx).mul_left _).trans ((sameNumber_iff.1 hy).mul_right _))

/-- The sign of a divisor that is zero counts, so the divisors are one double. -/
theorem div (hx : SameNumber x x') (y : Float) : SameNumber (x / y) (x' / y) :=
  pack ((sameNumber_iff.1 hx).div_left _)

/-! ## Comparisons -/

theorem beq (hx : SameNumber x x') (hy : SameNumber y y') : (x == y) = (x' == y') := by
  have hleft : (x == y) = (x' == y) := by
    rcases hx with rfl | hx
    · rfl
    · exact beq_congr hx y
  rcases hy with rfl | hy
  · exact hleft
  · rw [hleft, beq_comm x' y, beq_comm x' y']
    exact beq_congr hy x'

theorem compare_eq (h : SameNumber x x') (y : Float) :
    UnpackedFloat.compare x.toModel.unpack y.toModel.unpack =
      UnpackedFloat.compare x'.toModel.unpack y.toModel.unpack := by
  rcases h with rfl | h
  · rfl
  · exact compare_congr h y

theorem le_iff (h : SameNumber x x') (y : Float) : x ≤ y ↔ x' ≤ y := by
  rw [le_iff_compare, le_iff_compare, h.compare_eq]

/-! ## Lengths -/

/-- What a length is made of is the same for both zeros. -/
theorem size (h : SameNumber x y) : isInfinite x = isInfinite y ∧ isNaN x = isNaN y ∧
    magnitude x = magnitude y ∧ x.abs = y.abs := by
  rcases h with rfl | h
  · exact ⟨rfl, rfl, rfl, rfl⟩
  have hcompare := beq_iff_compare.1 h
  have hx : IsNumber x := isNumber_of_compare hcompare
  have hy : IsNumber y := isNumber_of_compare (beq_iff_compare.1 (beq_comm x y ▸ h))
  have hsame := sameNumber_iff.1 (.inr h)
  have hmagnitude : magnitude x = magnitude y := by
    rw [magnitude_eq hx, magnitude_eq hy]
    generalize x.toModel.unpack = u at hsame
    generalize y.toModel.unpack = v at hsame
    cases hsame <;> rfl
  have hbits := bits_of_magnitude hmagnitude
  refine ⟨by rw [isInfinite, isInfinite, hbits], by rw [isNaN, isNaN, hbits], hmagnitude, ?_⟩
  have habs : ∀ z : Float, z.abs = .ofModel (.pack z.toModel.unpack.abs) := fun _ => rfl
  rw [habs, habs]
  generalize x.toModel.unpack = u at hsame
  generalize y.toModel.unpack = v at hsame
  cases hsame <;> rfl

/-- The length of a vector does not depend on the signs of zeros. -/
theorem hypot (hx : SameNumber x x') (hy : SameNumber y y') :
    Number.hypot x y = Number.hypot x' y' := by
  obtain ⟨hinfinite, hnan, hmagnitude, habs⟩ := hx.size
  obtain ⟨hinfinite', hnan', hmagnitude', habs'⟩ := hy.size
  rw [Number.hypot, Number.hypot, hinfinite, hnan, hmagnitude, habs, hinfinite', hnan',
    hmagnitude', habs']

end SameNumber

end PartProgram.Number

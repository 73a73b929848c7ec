import Mathlib.Analysis.InnerProductSpace.PiL2
import PartProgram.Arc
import PartProgram.Proofs.ExactNumbers
import PartProgram.Proofs.Result

/-!
# PartProgram.Proofs.RadiusCentres

Where the centre of an arc is that was given by its radius. All points at one distance from both
ends of a chord lie on the line across its middle, so the centre is told by how far it is to the
left of the chord. The distance follows from the radius and the side from the direction and the sign
of the radius, here for real numbers.

* `dist_beside_start`, `turnTo_beside`: how far a point beside a chord is from its ends, and on
  which side of it.
* `radiusCentre_eq`: the centre is beside the chord.
* `radiusCentre_beside_chord`: distances and side of the centre.
-/

namespace PartProgram

noncomputable local instance (priority := low) realNumbers : Scalar ℝ := .exact Real.sqrt

namespace PlanePoint

/-- A pair of coordinates as a point of the Euclidean plane. -/
noncomputable def toPlane (p : PlanePoint ℝ) : EuclideanSpace ℝ (Fin 2) :=
  WithLp.toLp _ ![p.first, p.second]

theorem dist_toPlane (p q : PlanePoint ℝ) : dist p.toPlane q.toPlane =
    √((p.first - q.first) ^ 2 + (p.second - q.second) ^ 2) := by
  simp [EuclideanSpace.dist_eq, toPlane, Real.dist_eq]

variable (start finish p : PlanePoint ℝ)

/-- The length of a chord. -/
noncomputable def span : ℝ := dist start.toPlane finish.toPlane

/-- How the way turns that goes from the start of a chord to a point and not to its end: to the left
if this is positive, to the right if it is negative. -/
def turnTo : ℝ :=
  (finish.first - start.first) * (p.second - start.second) -
    (finish.second - start.second) * (p.first - start.first)

/-- The point across from the middle of a chord, at a distance to its left. -/
noncomputable def beside (left : ℝ) : PlanePoint ℝ :=
  ⟨midpoint ℝ start.first finish.first -
      left * (finish.second - start.second) / span start finish,
    midpoint ℝ start.second finish.second +
      left * (finish.first - start.first) / span start finish⟩

theorem span_sq : span start finish ^ 2 =
    (finish.first - start.first) ^ 2 + (finish.second - start.second) ^ 2 := by
  rw [span, dist_comm, dist_toPlane, Real.sq_sqrt (by positivity)]

variable {start finish}

theorem beside_eq (left : ℝ) : beside start finish left =
    ⟨(start.first + finish.first) / 2 - left * (finish.second - start.second) / span start finish,
      (start.second + finish.second) / 2 +
        left * (finish.first - start.first) / span start finish⟩ := by
  have hmiddle (x y : ℝ) : midpoint ℝ x y = (x + y) / 2 := by
    rw [midpoint_eq_smul_add, smul_eq_mul, invOf_eq_inv, inv_mul_eq_div]
  rw [beside, hmiddle, hmiddle]

theorem span_pos (h : start ≠ finish) : 0 < span start finish := by
  refine dist_pos.2 fun heq => h ?_
  have hfirst := congrArg (· 0) heq
  have hsecond := congrArg (· 1) heq
  cases start
  cases finish
  simp_all [toPlane]

variable (h : start ≠ finish) (left : ℝ)

include h

/-- The direction of a chord has length one. -/
theorem direction_sq : ((finish.first - start.first) / span start finish) ^ 2 +
    ((finish.second - start.second) / span start finish) ^ 2 = 1 := by
  have hspan := span_pos h
  rw [div_pow, div_pow, ← add_div, ← span_sq, div_self (by positivity)]

theorem dist_beside_start : dist (beside start finish left).toPlane start.toPlane =
    √((span start finish / 2) ^ 2 + left ^ 2) := by
  have hspan := span_sq start finish
  have hdirection := direction_sq h
  rw [dist_toPlane, beside_eq, mul_div_assoc, mul_div_assoc]
  congr 1
  linear_combination left ^ 2 * hdirection - hspan / 4

theorem dist_beside_finish : dist (beside start finish left).toPlane finish.toPlane =
    √((span start finish / 2) ^ 2 + left ^ 2) := by
  have hspan := span_sq start finish
  have hdirection := direction_sq h
  rw [dist_toPlane, beside_eq, mul_div_assoc, mul_div_assoc]
  congr 1
  linear_combination left ^ 2 * hdirection - hspan / 4

theorem turnTo_beside : turnTo start finish (beside start finish left) =
    left * span start finish := by
  have hspan := span_pos h
  have hsquare := span_sq start finish
  rw [turnTo, beside_eq]
  field_simp
  linear_combination -2 * left * hsquare

omit h in
theorem beside_zero : (beside start finish 0).toPlane =
    midpoint ℝ start.toPlane finish.toPlane := by
  ext i
  fin_cases i <;> simp [beside, toPlane, midpoint_eq_smul_add, mul_add]

end PlanePoint

open PlanePoint

/-- Which side of the chord the centre is on: one for the left, minus one for the right. -/
noncomputable def centreSide (radius : ℝ) (direction : Direction) : ℝ :=
  if direction = .counterclockwise ∧ 0 ≤ radius ∨ direction = .clockwise ∧ radius < 0 then 1 else -1

/-- The radius in use, given half the chord. -/
noncomputable def usedRadius (half radius epsilon : ℝ) : ℝ :=
  if |radius| < half then half + epsilon else |radius|

/-- How far the centre is from the chord. -/
noncomputable def centreHeight (half radius epsilon : ℝ) : ℝ :=
  √(usedRadius half radius epsilon ^ 2 - half ^ 2)

section

variable {half radius epsilon : ℝ}

theorem half_le_usedRadius (he : 0 < epsilon) : half ≤ usedRadius half radius epsilon := by
  rw [usedRadius]
  split_ifs with hshort
  · linarith
  · exact not_lt.1 hshort

theorem centreSide_eq (radius : ℝ) (direction : Direction) :
    (if radius < 0 then
        -(if direction = .counterclockwise then Scalar.ofNat 1 else -Scalar.ofNat 1 : ℝ)
      else if direction = .counterclockwise then Scalar.ofNat 1 else -Scalar.ofNat 1) =
        centreSide radius direction := by
  have hone : (Scalar.ofNat 1 : ℝ) = 1 := Nat.cast_one
  rw [hone, centreSide]
  rcases lt_or_ge radius 0 with hneg | hpos
  · cases direction <;> simp [hneg, hneg.not_ge]
  · cases direction <;> simp [hpos, hpos.not_gt]

theorem centreHeight_eq (hhalf : 0 ≤ half) (he : 0 < epsilon) :
    √(max (usedRadius half radius epsilon * usedRadius half radius epsilon - half ^ 2) 0) =
      centreHeight half radius epsilon := by
  have hsquare : half ^ 2 ≤ usedRadius half radius epsilon ^ 2 :=
    pow_le_pow_left₀ hhalf (half_le_usedRadius he) 2
  rw [← pow_two, max_eq_left (sub_nonneg.2 hsquare), centreHeight]

/-- The distance of the centre from the ends of the chord is the radius in use. -/
theorem sqrt_half_sq_add_height_sq (hhalf : 0 ≤ half) (he : 0 < epsilon) (direction : Direction) :
    √(half ^ 2 + (centreSide radius direction * centreHeight half radius epsilon) ^ 2) =
      usedRadius half radius epsilon := by
  have hreach : half ≤ usedRadius half radius epsilon := half_le_usedRadius he
  have hside : centreSide radius direction ^ 2 = 1 := by
    rw [centreSide]
    split_ifs <;> norm_num
  rw [mul_pow, hside, one_mul, centreHeight,
    Real.sq_sqrt (sub_nonneg.2 (pow_le_pow_left₀ hhalf hreach 2)), add_sub_cancel,
    Real.sqrt_sq (hhalf.trans hreach)]

theorem centreHeight_pos (hhalf : 0 ≤ half) (he : 0 < epsilon) (h : |radius| ≠ half) :
    0 < centreHeight half radius epsilon := by
  have hmore : half < usedRadius half radius epsilon := by
    rw [usedRadius]
    split_ifs with hshort
    · linarith
    · exact lt_of_le_of_ne (not_lt.1 hshort) h.symm
  exact Real.sqrt_pos.2 (sub_pos.2 (pow_lt_pow_left₀ hmore hhalf two_ne_zero))

theorem centreHeight_eq_zero (h : |radius| = half) : centreHeight half radius epsilon = 0 := by
  rw [centreHeight, usedRadius, if_neg h.not_lt, h, sub_self, Real.sqrt_zero]

end

variable {start finish : PlanePoint ℝ} {radius epsilon : ℝ}

/-- The centre is across from the middle of the chord. -/
theorem radiusCentre_eq (h : start ≠ finish) (direction : Direction) (he : 0 < epsilon) :
    radiusCentre start finish radius direction epsilon =
      .ok {
        centre := beside start finish
          (centreSide radius direction * centreHeight (span start finish / 2) radius epsilon)
        radius := usedRadius (span start finish / 2) radius epsilon
        tooShort :=
          if |radius| < span start finish / 2 then some (span start finish / 2) else none } := by
  have hchord : Scalar.hypot (finish.first - start.first) (finish.second - start.second) =
      span start finish := by
    rw [span, dist_comm, dist_toPlane]
    rfl
  have hused : (if decide (Scalar.abs radius < span start finish / 2) = true then
      span start finish / 2 + epsilon else Scalar.abs radius) =
        usedRadius (span start finish / 2) radius epsilon := if_congr decide_eq_true_iff rfl rfl
  have hheight : Scalar.sqrt (max (usedRadius (span start finish / 2) radius epsilon *
      usedRadius (span start finish / 2) radius epsilon - (span start finish / 2) ^ 2) 0) =
        centreHeight (span start finish / 2) radius epsilon :=
    centreHeight_eq (div_nonneg dist_nonneg zero_le_two) he
  have hspan : span start finish ≠ 0 := (span_pos h).ne'
  simp only [radiusCentre, hchord, Scalar.exact_half, Scalar.exact_zero, Scalar.exact_larger,
    Scalar.exact_divide hspan, hused]
  refine congrArg Except.ok ?_
  simp only [centreSide_eq, hheight, decide_eq_true_eq, beside_eq]
  rfl

/-- An arc is given by any radius. Its centre is as far from both ends of the chord as the radius in
use, which is the one given, or a little more than half the chord where that one is too short. It is
to the left of the chord for a short counter-clockwise arc and a long clockwise one, to the right of
it for the other two, and in the middle of it if the chord is a diameter. -/
theorem radiusCentre_beside_chord (h : start ≠ finish) (radius : ℝ) (direction : Direction)
    (he : 0 < epsilon) : ∃ c, radiusCentre start finish radius direction epsilon = .ok c ∧
      (c.radius = if |radius| < span start finish / 2 then span start finish / 2 + epsilon
        else |radius|) ∧
      (c.tooShort = if |radius| < span start finish / 2 then some (span start finish / 2)
        else none) ∧
      dist c.centre.toPlane start.toPlane = c.radius ∧
      dist c.centre.toPlane finish.toPlane = c.radius ∧
      (|radius| ≠ span start finish / 2 →
        turnTo start finish c.centre ≠ 0 ∧
          (0 < turnTo start finish c.centre ↔
            direction = .counterclockwise ∧ 0 ≤ radius ∨ direction = .clockwise ∧ radius < 0)) ∧
      (|radius| = span start finish / 2 →
        c.centre.toPlane = midpoint ℝ start.toPlane finish.toPlane) := by
  have hspan : 0 ≤ span start finish / 2 := div_nonneg dist_nonneg zero_le_two
  refine ⟨_, radiusCentre_eq h direction he, rfl, rfl, ?_, ?_, fun hlong => ?_, fun hhalf => ?_⟩
  · rw [dist_beside_start h]
    exact sqrt_half_sq_add_height_sq hspan he direction
  · rw [dist_beside_finish h]
    exact sqrt_half_sq_add_height_sq hspan he direction
  · have hway := mul_pos (centreHeight_pos hspan he hlong) (span_pos h)
    rw [turnTo_beside h, mul_assoc, mul_pos_iff_of_pos_right hway, centreSide]
    split_ifs with hside
    · exact ⟨(mul_pos one_pos hway).ne', iff_of_true one_pos hside⟩
    · exact ⟨(mul_neg_of_neg_of_pos (by norm_num) hway).ne, iff_of_false (by norm_num) hside⟩
  · rw [centreHeight_eq_zero hhalf, mul_zero]
    exact beside_zero

/-- A radius of minus five over a chord of eight. -/
theorem radiusCentre_beside_chord_long :
    let start : PlanePoint ℝ := ⟨0, 0⟩
    let finish : PlanePoint ℝ := ⟨8, 0⟩
    (start ≠ finish ∧ (0 : ℝ) < 1 / 1000) ∧
      ∃ c, radiusCentre start finish (-5) .counterclockwise (1 / 1000) = .ok c ∧ c.radius = 5 ∧
        c.tooShort = none ∧ dist c.centre.toPlane start.toPlane = 5 ∧
        dist c.centre.toPlane finish.toPlane = 5 ∧ turnTo start finish c.centre < 0 := by
  intro start finish
  have hne : start ≠ finish := by
    intro heq
    have hfirst : (0 : ℝ) = 8 := congrArg PlanePoint.first heq
    norm_num at hfirst
  have hspan : span start finish = 8 := by
    have hsquare : ((start.first - finish.first) ^ 2 + (start.second - finish.second) ^ 2) =
        (8 : ℝ) ^ 2 := by norm_num [start, finish]
    rw [span, dist_toPlane, hsquare, Real.sqrt_sq (by norm_num)]
  have hsmall : (0 : ℝ) < 1 / 1000 := by norm_num
  obtain ⟨c, hc, hradius, hshort, hstart, hfinish, hside, -⟩ :=
    radiusCentre_beside_chord hne (-5) .counterclockwise hsmall
  obtain ⟨haside, hleft⟩ := hside (by norm_num [hspan])
  have hright : ¬ 0 < turnTo start finish c.centre := by
    rw [hleft]
    rintro (⟨-, hpositive⟩ | ⟨hother, -⟩)
    · norm_num at hpositive
    · cases hother
  norm_num [hspan] at hradius hshort
  rw [hradius] at hstart hfinish
  exact ⟨⟨hne, hsmall⟩, c, hc, hradius, hshort, hstart, hfinish,
    lt_of_le_of_ne (not_lt.1 hright) haside⟩

end PartProgram

import Mathlib.Analysis.SpecialFunctions.Trigonometric.Arctan
import PartProgram.Proofs.Readback
import PartProgram.Proofs.Result
import PartProgram.Rule.Corners

/-!
# PartProgram.Proofs.CornerTangents

Whether rounded corners fit their moves. A rounding takes a tangent from both moves of its corner,
longer the more the way turns there, and a move may be rounded at both ends. Moves of two radii have
room for two turns of a right angle and no more, where sharper turns are rounded as well.

The corners to round are decided for every kind of number: by doubles in a run, and by exact numbers
here.

* `isSome_rounded?`: the decision that is made in a run.
* `roundings_fit_up_to_right_angle`: the angle up to which all roundings fit.
-/

namespace PartProgram

namespace Rule

deriving instance DecidableEq for Point

/-! ## Decision -/

/-- A straight feed move. -/
structure Leg (α : Type) where
  start : Point α
  finish : Point α
deriving DecidableEq

/-- What a line that works the machine does: a straight feed move or something else. -/
structure Work (α : Type) where
  leg? : Option (Leg α)
  /-- the block has a corner already -/
  cornered : Bool
deriving DecidableEq

def Leg.map {α β : Type} (f : α → β) (a : Leg α) : Leg β :=
  ⟨⟨f a.start.x, f a.start.y, f a.start.z⟩, ⟨f a.finish.x, f a.finish.y, f a.finish.z⟩⟩

def Work.map {α β : Type} (f : α → β) (w : Work α) : Work β := ⟨w.leg?.map (Leg.map f), w.cornered⟩

/-- Whether the corner between two moves in a row is rounded. -/
def Leg.rounds {α : Type} [Scalar α] (a b : Leg α) : Bool :=
  roundsCorner a.start a.finish b.start b.finish

/-- Whether the corner between two works in a row is rounded. -/
def Work.rounds {α : Type} [Scalar α] (w n : Work α) : Bool :=
  !w.cornered && w.leg?.any fun a => n.leg?.any fun b => a.rounds b

def legOf (m : Motion) : Leg Float := ⟨m.start, m.finish⟩

/-- What a stop works, if it works the machine at all. -/
def workOf? (s : Stop) : Option (Work Float) :=
  s.found.bind fun (b, r) =>
    if r.isWork then some ⟨(straightFeed? r).map legOf, b.corner.isSome⟩ else none

theorem isWork_of_straightFeed? {r : Resolution} {m : Motion} (h : straightFeed? r = some m) :
    r.isWork = true := by
  rw [straightFeed?] at h
  split at h
  · rename_i heffect
    rw [Resolution.isWork, heffect]
  · cases h

theorem leg?_nextWork? (rest : List Stop) :
    ((rest.filterMap workOf?).head?.bind Work.leg?) =
      ((nextWork? rest).bind straightFeed?).map legOf := by
  induction rest with
  | nil => rfl
  | cons s rest ih =>
    rw [nextWork?, List.findSome?_cons, List.filterMap_cons, Stop.resolution?, workOf?]
    cases hfound : s.found with
    | none => simpa [nextWork?] using ih
    | some found =>
      obtain ⟨b, r⟩ := found
      cases hwork : r.isWork with
      | false => simpa [nextWork?, hwork, Option.filter] using ih
      | true => simp [hwork, Option.filter]

theorem any_head?_rounds (w : Work Float) (rest : List Stop) :
    (rest.filterMap workOf?).head?.any w.rounds =
      (!w.cornered && w.leg?.any fun a =>
        ((nextWork? rest).bind straightFeed?).any fun n => a.rounds (legOf n)) := by
  have hnext := leg?_nextWork? rest
  have hany : ∀ a : Leg Float,
      ((nextWork? rest).bind straightFeed?).any (fun n => a.rounds (legOf n)) =
        ((rest.filterMap workOf?).head?.bind Work.leg?).any a.rounds := by
    intro a
    rw [hnext, Option.any_map]
  simp only [hany]
  cases (rest.filterMap workOf?).head? with
  | some n => rfl
  | none => cases w.leg? <;> simp

/-- A corner is rounded in a run as it is decided for the works of the program. -/
theorem isSome_rounded? (s : Stop) (rest : List Stop) :
    (rounded? s rest).isSome =
      (workOf? s).any fun w => (rest.filterMap workOf?).head?.any w.rounds := by
  simp only [any_head?_rounds, rounded?, workOf?]
  cases s.found with
  | none => rfl
  | some found =>
    obtain ⟨b, r⟩ := found
    cases hfeed : straightFeed? r with
    | none =>
      cases hwork : r.isWork <;> cases hcorner : b.corner.isSome <;> simp [hcorner, hfeed, hwork]
    | some m =>
      have hwork := isWork_of_straightFeed? hfeed
      cases hcorner : b.corner.isSome with
      | true => simp [hcorner, hfeed, hwork]
      | false =>
        cases hnext : (nextWork? rest).bind straightFeed? with
        | none => simp [hcorner, hfeed, hwork]
        | some n =>
          cases hrounds : roundsCorner m.start m.finish n.start n.finish <;>
            simp [hcorner, hfeed, hwork, Leg.rounds, legOf, hrounds]

/-! ## Turns -/

namespace Leg

variable (a b : Leg ℝ)

/-- How far a move goes along the axes. -/
def dx : ℝ := a.finish.x - a.start.x
def dy : ℝ := a.finish.y - a.start.y
def dz : ℝ := a.finish.z - a.start.z

noncomputable def length : ℝ := √(a.dx ^ 2 + a.dy ^ 2 + a.dz ^ 2)

/-- The length in the plane. -/
noncomputable def reach : ℝ := √(a.dx ^ 2 + a.dy ^ 2)

/-- The cosine of the angle by which the way turns in the plane from one move to the next. -/
noncomputable def turnCosine : ℝ := (a.dx * b.dx + a.dy * b.dy) / (a.reach * b.reach)

noncomputable def turn : ℝ := Real.arccos (a.turnCosine b)

theorem reach_le_length : a.reach ≤ a.length :=
  Real.sqrt_le_sqrt (le_add_of_nonneg_right (sq_nonneg a.dz))

theorem length_eq_reach {a : Leg ℝ} (h : a.dz = 0) : a.length = a.reach := by
  simp [length, reach, h]

end Leg

/-! ## Exact numbers -/

noncomputable local instance exactNumbers : Scalar ℝ where
  decLt := inferInstance
  decLe := inferInstance
  ofNat n := n
  abs x := |x|
  sqrt := Real.sqrt
  hypot x y := Real.sqrt (x ^ 2 + y ^ 2)
  divide a b := if b = 0 then .error .divisionByZero else .ok (a / b)
  square a := .ok (a * a)
  ceil x := .ok ⌈x⌉

/-- The length that a rounding takes from both moves of a corner. -/
noncomputable def tangent (turn : ℝ) : ℝ := cornerRadius * Real.tan (Scalar.half turn)

theorem cornerRadius_eq : (cornerRadius : ℝ) = 1 / 2 := by
  simp [cornerRadius, Scalar.half, Scalar.ofNat]

theorem tangent_eq (turn : ℝ) : tangent turn = 1 / 2 * Real.tan (turn / 2) := by
  rw [tangent, cornerRadius_eq]
  simp [Scalar.half, Scalar.ofNat]

theorem shortest_eq : (shortest : ℝ) = 1 / 1000000000 := by
  simp [shortest, Scalar.ofNat]

theorem heading?_eq (a : Leg ℝ) :
    heading? a.start a.finish =
      if a.reach < 1 / 1000000000 ∨ a.dz ≠ 0 then none
      else some ⟨a.dx / a.reach, a.dy / a.reach, a.reach⟩ := by
  have hheight : ¬ (a.start.z ≤ a.finish.z ∧ a.finish.z ≤ a.start.z) ↔ a.dz ≠ 0 := by
    rw [Leg.dz, sub_ne_zero, not_iff_not]
    exact ⟨fun h => le_antisymm h.2 h.1, fun h => ⟨h.ge, h.le⟩⟩
  rw [← shortest_eq]
  exact if_congr (or_congr Iff.rfl hheight) rfl rfl

theorem isRoundable_iff (h k : Heading ℝ) :
    isRoundable h k = true ↔ (1 ≤ h.length ∧ 1 ≤ k.length) ∧ 4 * turnCosine h k ^ 2 ≤ 3 := by
  have hsmaller : ¬ Scalar.smaller h.length k.length < Scalar.ofNat 2 * cornerRadius ↔
      1 ≤ h.length ∧ 1 ≤ k.length := by
    have htwo : (Scalar.ofNat 2 * cornerRadius : ℝ) = 1 := by
      rw [cornerRadius_eq]
      simp [Scalar.ofNat]
    rw [htwo, not_lt, Scalar.smaller]
    split
    · rename_i hlt
      exact ⟨fun hle => ⟨hle.trans (le_of_lt hlt), hle⟩, And.right⟩
    · rename_i hnot
      exact ⟨fun hle => ⟨hle, hle.trans (not_lt.1 hnot)⟩, And.left⟩
  have hcosine : Scalar.ofNat 4 * (turnCosine h k * turnCosine h k) ≤ Scalar.ofNat 3 ↔
      4 * turnCosine h k ^ 2 ≤ 3 := by
    simp [Scalar.ofNat, pow_two]
  rw [isRoundable, decide_eq_true_eq]
  exact and_congr hsmaller hcosine

/-- A corner is rounded between level moves of two radii at least, neither at a slight turn nor at a
sharp one. -/
theorem rounds_iff (a b : Leg ℝ) :
    a.rounds b = true ↔
      (a.dz = 0 ∧ b.dz = 0) ∧ (1 ≤ a.reach ∧ 1 ≤ b.reach) ∧ 4 * a.turnCosine b ^ 2 ≤ 3 := by
  have hcosine : turnCosine (α := ℝ) ⟨a.dx / a.reach, a.dy / a.reach, a.reach⟩
      ⟨b.dx / b.reach, b.dy / b.reach, b.reach⟩ = a.turnCosine b := by
    show a.dx / a.reach * (b.dx / b.reach) + a.dy / a.reach * (b.dy / b.reach) = _
    rw [div_mul_div_comm, div_mul_div_comm, ← add_div, Leg.turnCosine]
  have hlong : ∀ c : Leg ℝ,
      ¬ (c.reach < 1 / 1000000000 ∨ c.dz ≠ 0) ∨ ¬ (c.dz = 0 ∧ 1 ≤ c.reach) := by
    intro c
    rw [← not_and_or]
    rintro ⟨hshort | hz, hlevel, hlong⟩
    · norm_num at hshort
      linarith
    · exact hz hlevel
  rw [Leg.rounds, roundsCorner, heading?_eq, heading?_eq]
  by_cases ha : a.reach < 1 / 1000000000 ∨ a.dz ≠ 0
  · rw [if_pos ha]
    exact ⟨fun h => absurd h Bool.false_ne_true,
      fun h => absurd ⟨h.1.1, h.2.1.1⟩ ((hlong a).resolve_left (not_not_intro ha))⟩
  · rw [if_neg ha]
    by_cases hb : b.reach < 1 / 1000000000 ∨ b.dz ≠ 0
    · rw [if_pos hb]
      exact ⟨fun h => absurd h Bool.false_ne_true,
        fun h => absurd ⟨h.1.2, h.2.1.2⟩ ((hlong b).resolve_left (not_not_intro hb))⟩
    · rw [if_neg hb]
      simp only [not_or, not_lt, not_not] at ha hb
      simp only [isRoundable_iff, hcosine, ha.2, hb.2, and_self, true_and]

/-! ## Room on a move -/

/-- The rounded corner after a work, as the moves that it is between. -/
noncomputable def roundedCorner? (works : List (Work ℝ)) (i : Nat) : Option (Leg ℝ × Leg ℝ) := do
  let w ← works[i]?
  let n ← works[i + 1]?
  let a ← w.leg?
  let b ← n.leg?
  if w.rounds n then some (a, b) else none

/-- The length that the rounding after a work takes, nothing without one. -/
noncomputable def takenAfter (works : List (Work ℝ)) (i : Nat) : ℝ :=
  (roundedCorner? works i).elim 0 fun (a, b) => tangent (a.turn b)

/-- The length that the rounding before a work takes. -/
noncomputable def takenBefore (works : List (Work ℝ)) : Nat → ℝ
  | 0 => 0
  | i + 1 => takenAfter works i

/-- On every straight feed move there is room for the roundings at both of its ends. -/
def HaveRoom (works : List (Work ℝ)) : Prop :=
  ∀ i w a, works[i]? = some w → w.leg? = some a →
    takenBefore works i + takenAfter works i ≤ a.length

/-- Moves that follow each other meet. -/
def Connected (works : List (Work ℝ)) : Prop :=
  works.IsChain fun w n => ∀ a ∈ w.leg?, ∀ b ∈ n.leg?, a.finish = b.start

/-- No rounded corner turns by more than an angle. -/
def TurnsUpTo (θ : ℝ) (works : List (Work ℝ)) : Prop :=
  ∀ i a b, roundedCorner? works i = some (a, b) → a.turn b ≤ θ

theorem roundedCorner?_spec {works : List (Work ℝ)} {i : Nat} {a b : Leg ℝ}
    (h : roundedCorner? works i = some (a, b)) :
    (works[i]?.bind Work.leg?) = some a ∧ (works[i + 1]?.bind Work.leg?) = some b ∧
      a.rounds b = true := by
  simp only [roundedCorner?, Option.bind_eq_bind, Option.bind_eq_some_iff] at h
  obtain ⟨w, hw, n, hn, a', ha, b', hb, h⟩ := h
  split at h
  · rename_i hrounds
    cases h
    simp only [Work.rounds, ha, hb, Option.any_some, Bool.and_eq_true] at hrounds
    exact ⟨by rw [hw, Option.bind_some, ha], by rw [hn, Option.bind_some, hb], hrounds.2⟩
  · cases h

/-- A turn of a right angle takes as much as the radius. -/
theorem tangent_le {t : ℝ} (h₀ : 0 ≤ t) (h : t ≤ Real.pi / 2) : tangent t ≤ 1 / 2 := by
  have hpi := Real.pi_pos
  have htan : Real.tan (t / 2) ≤ 1 := by
    rw [← Real.tan_pi_div_four]
    exact Real.strictMonoOn_tan.monotoneOn ⟨by linarith, by linarith⟩ ⟨by linarith, by linarith⟩
      (by linarith)
  rw [tangent_eq]
  linarith

/-- A rounding that turns by a right angle at most takes a radius from moves of two radii. -/
theorem takenAfter_cases {works : List (Work ℝ)} (h : TurnsUpTo (Real.pi / 2) works) (i : Nat) :
    takenAfter works i = 0 ∨ takenAfter works i ≤ 1 / 2 ∧
      ∀ a, (works[i]?.bind Work.leg?) = some a ∨ (works[i + 1]?.bind Work.leg?) = some a →
        1 ≤ a.length := by
  rw [takenAfter]
  cases hcorner : roundedCorner? works i with
  | none => exact .inl rfl
  | some corner =>
    obtain ⟨a, b⟩ := corner
    obtain ⟨ha, hb, hrounds⟩ := roundedCorner?_spec hcorner
    obtain ⟨-, ⟨hlong, hlong'⟩, -⟩ := (rounds_iff a b).1 hrounds
    refine .inr ⟨tangent_le (Real.arccos_nonneg _) (h i a b hcorner), ?_⟩
    rintro c (hc | hc)
    · rw [ha, Option.some.injEq] at hc
      exact hc ▸ hlong.trans a.reach_le_length
    · rw [hb, Option.some.injEq] at hc
      exact hc ▸ hlong'.trans b.reach_le_length

/-- Moves of two radii have room for two turns of a right angle. -/
theorem haveRoom_of_turnsUpTo {works : List (Work ℝ)} (h : TurnsUpTo (Real.pi / 2) works) :
    HaveRoom works := by
  intro i w a hw ha
  have hleg : (works[i]?.bind Work.leg?) = some a := by rw [hw, Option.bind_some, ha]
  have hlength : 0 ≤ a.length := Real.sqrt_nonneg _
  have hbefore : takenBefore works i = 0 ∨ takenBefore works i ≤ 1 / 2 ∧ 1 ≤ a.length := by
    cases i with
    | zero => exact .inl rfl
    | succ i => exact (takenAfter_cases h i).imp_right fun h => ⟨h.1, h.2 a (.inr hleg)⟩
  have hafter := (takenAfter_cases h i).imp_right fun h => And.intro h.1 (h.2 a (.inl hleg))
  rcases hbefore with hbefore | ⟨hbefore, hlong⟩ <;>
    rcases hafter with hafter | ⟨hafter, hlong'⟩ <;> linarith

/-! ## Sharper turns -/

/-- The corners of a way that goes one unit at a time and turns by an angle at each corner. -/
noncomputable def bend (t : ℝ) : Nat → Point ℝ
  | 0 => ⟨0, 0, 0⟩
  | k + 1 => ⟨(bend t k).x + Real.cos (k * t), (bend t k).y + Real.sin (k * t), 0⟩

noncomputable def side (t : ℝ) (k : Nat) : Leg ℝ := ⟨bend t k, bend t (k + 1)⟩

/-- The first three sides of such a way. -/
noncomputable def sides (t : ℝ) : List (Work ℝ) :=
  (List.range 3).map fun k => ⟨some (side t k), false⟩

@[simp]
theorem bend_z (t : ℝ) (k : Nat) : (bend t k).z = 0 := by
  cases k <;> rfl

@[simp]
theorem side_dx (t : ℝ) (k : Nat) : (side t k).dx = Real.cos (k * t) :=
  add_sub_cancel_left _ _

@[simp]
theorem side_dy (t : ℝ) (k : Nat) : (side t k).dy = Real.sin (k * t) :=
  add_sub_cancel_left _ _

@[simp]
theorem side_dz (t : ℝ) (k : Nat) : (side t k).dz = 0 := by
  simp [Leg.dz, side]

@[simp]
theorem side_reach (t : ℝ) (k : Nat) : (side t k).reach = 1 := by
  simp [Leg.reach]

@[simp]
theorem side_length (t : ℝ) (k : Nat) : (side t k).length = 1 := by
  rw [Leg.length_eq_reach (side_dz t k), side_reach]

theorem side_turnCosine (t : ℝ) (k : Nat) :
    (side t k).turnCosine (side t (k + 1)) = Real.cos t := by
  have hstep : ((k + 1 : Nat) : ℝ) * t - k * t = t := by
    push_cast
    ring
  rw [Leg.turnCosine, side_dx, side_dx, side_dy, side_dy, side_reach, side_reach, mul_one, div_one,
    mul_comm (Real.cos _), mul_comm (Real.sin _), ← Real.cos_sub, hstep]

theorem side_turn {t : ℝ} (h₀ : 0 ≤ t) (h : t ≤ Real.pi) (k : Nat) :
    (side t k).turn (side t (k + 1)) = t := by
  rw [Leg.turn, side_turnCosine, Real.arccos_cos h₀ h]

theorem side_rounds {t : ℝ} (h₀ : Real.pi / 2 ≤ t) (h : t ≤ 5 * Real.pi / 6) (k : Nat) :
    (side t k).rounds (side t (k + 1)) = true := by
  have hpi := Real.pi_pos
  have hle : Real.cos t ≤ 0 := Real.cos_nonpos_of_pi_div_two_le_of_le h₀ (by linarith)
  have hge : -(√3 / 2) ≤ Real.cos t := by
    rw [← Real.cos_pi_div_six, ← Real.cos_pi_sub]
    exact Real.cos_le_cos_of_nonneg_of_le_pi (by linarith) (by linarith) (by linarith)
  have hsquare : Real.cos t ^ 2 ≤ (√3 / 2) ^ 2 := sq_le_sq' hge (hle.trans (by positivity))
  rw [div_pow, Real.sq_sqrt (by norm_num)] at hsquare
  rw [rounds_iff, side_turnCosine]
  refine ⟨⟨side_dz t k, side_dz t _⟩, ⟨(side_reach t k).ge, (side_reach t _).ge⟩, ?_⟩
  linarith

theorem getElem?_sides (t : ℝ) (k : Nat) :
    (sides t)[k]? = if k < 3 then some ⟨some (side t k), false⟩ else none := by
  by_cases hk : k < 3 <;> simp [sides, hk]

theorem leg_sides {t : ℝ} {k : Nat} {a : Leg ℝ} (h : ((sides t)[k]?.bind Work.leg?) = some a) :
    a = side t k := by
  rw [getElem?_sides] at h
  split at h
  · exact (Option.some.inj h).symm
  · cases h

theorem connected_sides (t : ℝ) : Connected (sides t) := by
  simp [Connected, sides, List.range_succ, side]

theorem turnsUpTo_sides {t : ℝ} (h₀ : 0 ≤ t) (h : t ≤ Real.pi) : TurnsUpTo t (sides t) := by
  intro i a b hcorner
  obtain ⟨ha, hb, -⟩ := roundedCorner?_spec hcorner
  rw [leg_sides ha, leg_sides hb, side_turn h₀ h]

theorem takenAfter_sides {t : ℝ} (h₀ : Real.pi / 2 ≤ t) (h : t ≤ 5 * Real.pi / 6) {k : Nat}
    (hk : k < 2) : takenAfter (sides t) k = tangent t := by
  have hpi := Real.pi_pos
  have hcorner : roundedCorner? (sides t) k = some (side t k, side t (k + 1)) := by
    have hrounds := side_rounds h₀ h k
    have hw : (sides t)[k]? = some ⟨some (side t k), false⟩ := by
      rw [getElem?_sides, if_pos (Nat.lt_succ_of_lt hk)]
    have hn : (sides t)[k + 1]? = some ⟨some (side t (k + 1)), false⟩ := by
      rw [getElem?_sides, if_pos (Nat.succ_lt_succ hk)]
    simp [roundedCorner?, hw, hn, Work.rounds, hrounds]
  rw [takenAfter, hcorner]
  exact congrArg tangent (side_turn (by linarith) (by linarith) k)

/-- The side in the middle is too short for both of its ends. -/
theorem not_haveRoom_sides {t : ℝ} (h₀ : Real.pi / 2 < t) (h : t ≤ 5 * Real.pi / 6) :
    ¬ HaveRoom (sides t) := by
  have hpi := Real.pi_pos
  have htan : 1 < Real.tan (t / 2) := by
    rw [← Real.tan_pi_div_four]
    exact Real.strictMonoOn_tan ⟨by linarith, by linarith⟩ ⟨by linarith, by linarith⟩ (by linarith)
  intro hfit
  have hroom := hfit 1 ⟨some (side t 1), false⟩ (side t 1) rfl rfl
  rw [takenBefore, takenAfter_sides h₀.le h (by norm_num), takenAfter_sides h₀.le h (by norm_num),
    side_length, tangent_eq] at hroom
  linarith

/-- The corner behind a line is rounded as it is for the works of the run, and as long as no rounded
corner turns by more than a right angle, all roundings fit. No larger angle is enough for that, not
even where all moves meet. -/
theorem roundings_fit_up_to_right_angle (s : Stop) (rest : List Stop) (θ : ℝ) :
    ((rounded? s rest).isSome =
        (workOf? s).any fun w => (rest.filterMap workOf?).head?.any w.rounds) ∧
      (θ ≤ Real.pi / 2 → ∀ works, TurnsUpTo θ works → HaveRoom works) ∧
      (Real.pi / 2 < θ → ∃ works, Connected works ∧ TurnsUpTo θ works ∧ ¬ HaveRoom works) := by
  have hpi := Real.pi_pos
  refine ⟨isSome_rounded? s rest, fun hθ works h => ?_, fun hθ => ?_⟩
  · exact haveRoom_of_turnsUpTo fun i a b hcorner => (h i a b hcorner).trans hθ
  · have hsharp : Real.pi / 2 < min θ (5 * Real.pi / 6) := lt_min hθ (by linarith)
    have hslight := min_le_right θ (5 * Real.pi / 6)
    refine ⟨sides (min θ (5 * Real.pi / 6)), connected_sides _, fun i a b hcorner => ?_,
      not_haveRoom_sides hsharp hslight⟩
    exact (turnsUpTo_sides (by linarith) (by linarith) i a b hcorner).trans (min_le_left _ _)

/-- The exact works of a run. -/
noncomputable def exactWorks (stops : List Stop) : List (Work ℝ) :=
  ((stops.filterMap workOf?).map (Work.map Number.exactValue)).map (Work.map (↑))

/-- A move of 1.25, from which the next one turns back. -/
noncomputable def forth : Leg ℝ := ⟨⟨0, 0, 0⟩, ⟨5 / 4, 0, 0⟩⟩

noncomputable def back : Leg ℝ := ⟨⟨5 / 4, 0, 0⟩, ⟨1 / 4, 3 / 4, 0⟩⟩

theorem forth_reach : forth.reach = 5 / 4 := by
  rw [Leg.reach, Real.sqrt_eq_iff_mul_self_eq_of_pos (by norm_num)]
  norm_num [forth, Leg.dx, Leg.dy]

theorem forth_length : forth.length = 5 / 4 := by
  rw [Leg.length_eq_reach (by simp [forth, Leg.dz]), forth_reach]

theorem back_reach : back.reach = 5 / 4 := by
  rw [Leg.reach, Real.sqrt_eq_iff_mul_self_eq_of_pos (by norm_num)]
  norm_num [back, Leg.dx, Leg.dy]

theorem forth_turnCosine_back : forth.turnCosine back = -4 / 5 := by
  rw [Leg.turnCosine, forth_reach, back_reach]
  norm_num [forth, back, Leg.dx, Leg.dy]

theorem forth_rounds_back : forth.rounds back = true := by
  rw [rounds_iff, forth_turnCosine_back, forth_reach, back_reach]
  norm_num [forth, back, Leg.dz]

theorem tan_half_arccos {c : ℝ} (h₁ : -1 ≤ c) (h₂ : c ≤ 1) :
    Real.tan (Real.arccos c / 2) = √((1 - c) / 2) / √((1 + c) / 2) := by
  have hpi := Real.pi_pos
  have h₀ := Real.arccos_nonneg c
  have h := Real.arccos_le_pi c
  rw [Real.tan_eq_sin_div_cos, Real.sin_half_eq_sqrt h₀ (by linarith),
    Real.cos_half (by linarith) h, Real.cos_arccos h₁ h₂]

theorem tangent_forth_turn_back : tangent (forth.turn back) = 3 / 2 := by
  have hroot : √((1 - -4 / 5) / 2) / √((1 + -4 / 5) / 2) = (3 : ℝ) := by
    rw [← Real.sqrt_div (by norm_num), Real.sqrt_eq_iff_mul_self_eq_of_pos (by norm_num)]
    norm_num
  rw [tangent_eq, Leg.turn, forth_turnCosine_back,
    tan_half_arccos (by norm_num) (by norm_num), hroot]
  norm_num

/-- A move of 1.25 is rounded at its end, which takes 1.5 from it. -/
theorem roundCorners_too_long :
    let ls := ["G0 X0 Y0", "G1 X1.25 Y0 F100", "G1 X0.25 Y0.75"]
    (roundCorners ls).result =
        .ok ["G0 X0 Y0", "G1 X1.25 Y0 F100 ,R0.5", "G1 X0.25 Y0.75"] ∧
      ∃ stops, walk ls = .ok stops ∧ ¬ HaveRoom (exactWorks stops) := by
  intro ls
  obtain ⟨stops, hwalk, hstops⟩ := exists_of_toOption (x := walk ls)
    (f := fun stops =>
      (roundCornersOf stops, (stops.filterMap workOf?).map (Work.map Number.exactValue)))
    (b := (["G0 X0 Y0", "G1 X1.25 Y0 F100 ,R0.5", "G1 X0.25 Y0.75"],
      [⟨none, false⟩, ⟨some ⟨⟨0, 0, 0⟩, ⟨5 / 4, 0, 0⟩⟩, false⟩,
        ⟨some ⟨⟨5 / 4, 0, 0⟩, ⟨1 / 4, 3 / 4, 0⟩⟩, false⟩])) (by decide +kernel)
  obtain ⟨hlines, hworks⟩ := Prod.mk.inj hstops
  have hexact : exactWorks stops = [⟨none, false⟩, ⟨some forth, false⟩, ⟨some back, false⟩] := by
    simp [exactWorks, hworks, Work.map, Leg.map, forth, back]
  refine ⟨?_, stops, hwalk, fun hfit => ?_⟩
  · rw [roundCorners, Revised.ofWalk, hwalk, ← hlines]
    rfl
  · rw [hexact] at hfit
    have hroom := hfit 1 _ forth rfl rfl
    have hbefore : takenAfter [⟨none, false⟩, ⟨some forth, false⟩, ⟨some back, false⟩] 0 = 0 := rfl
    have hafter : takenAfter [⟨none, false⟩, ⟨some forth, false⟩, ⟨some back, false⟩] 1 =
        3 / 2 := by
      rw [← tangent_forth_turn_back]
      simp [takenAfter, roundedCorner?, Work.rounds, forth_rounds_back]
    rw [takenBefore, hbefore, hafter, forth_length] at hroom
    norm_num at hroom

end Rule

end PartProgram

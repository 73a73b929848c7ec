import PartProgram.Arc
import PartProgram.Proofs.Angles

/-!
# PartProgram.Proofs.ArcTurns

The turn of an arc. The angle of the end point is moved by a full turn where it is not past the
start angle in the direction of the arc, so the sweep has the sign of the direction. Angles are cut
at the negative first axis, which is seen at either end of their range, and a full turn from one end
leads to the other one: an arc that starts and ends on this axis, but on two sides of the cut, does
not turn at all.

* `Arc.sweeps`: the sweep between two angles in a direction.
* `Arc.resolve_turns`: the sweep and the radius of every arc that is resolved.
-/

namespace PartProgram

open Number

/-! ## Directions -/

namespace Direction

/-- Angles run up counter-clockwise and down clockwise. -/
def sense : Direction → ℚ
  | clockwise => -1
  | counterclockwise => 1

/-- A full turn further. -/
def turnOn (direction : Direction) (angle : Float) : Float :=
  match direction with
  | clockwise => angle - twoPi
  | counterclockwise => angle + twoPi

variable (direction : Direction) {s e : Float}

theorem abs_sense_mul (q : ℚ) : |direction.sense * q| = |q| := by
  cases direction with
  | clockwise => rw [sense, neg_one_mul, abs_neg]
  | counterclockwise => rw [sense, one_mul]

/-- What is rounded is so in both directions. -/
theorem roundsTo_sense {exact rounded : ℚ} (h : RoundsTo exact rounded) :
    RoundsTo (direction.sense * exact) (direction.sense * rounded) := by
  cases direction with
  | clockwise =>
    rw [sense, neg_one_mul, neg_one_mul]
    exact h.neg
  | counterclockwise => rwa [sense, one_mul, one_mul]

theorem turnOn_roundsTo (hs : IsFinite s) (hrange : |exactValue s| ≤ exactValue pi) :
    IsFinite (direction.turnOn s) ∧
      RoundsTo (direction.sense * exactValue s + exactValue twoPi)
        (direction.sense * exactValue (direction.turnOn s)) := by
  have hturn : IsFinite twoPi := by decide
  have hhigh := pi_bounds.2
  obtain ⟨hbelow, habove⟩ := abs_le.1 hrange
  have htwoPi := exactValue_twoPi
  cases direction with
  | clockwise =>
    obtain ⟨hfinite, hrounds⟩ :=
      Number.sub_roundsTo hs hturn (by rw [abs_le]; constructor <;> linarith)
    have hboth := clockwise.roundsTo_sense hrounds
    rw [mul_sub, sense, neg_one_mul (exactValue twoPi), sub_neg_eq_add] at hboth
    exact ⟨hfinite, hboth⟩
  | counterclockwise =>
    obtain ⟨hfinite, hrounds⟩ := add_roundsTo hs hturn (by rw [abs_le]; constructor <;> linarith)
    rw [sense, one_mul, one_mul]
    exact ⟨hfinite, hrounds⟩

theorem abs_turnOn_le (hs : IsFinite s) (hrange : |exactValue s| ≤ exactValue pi) :
    |exactValue (direction.turnOn s)| ≤ 10 := by
  have hrange' := (direction.abs_sense_mul _).trans_le hrange
  obtain ⟨-, hthree, hclose⟩ := turned_near hrange' (direction.turnOn_roundsTo hs hrange).2
  have hhigh := pi_bounds.2
  rw [exactValue_twoPi, abs_le] at hclose
  rw [← direction.abs_sense_mul, abs_of_pos (by linarith)]
  linarith [(abs_le.1 hrange').2]

theorem sub_roundsTo {t : Float} (ht : IsFinite t) (hten : |exactValue t| ≤ 10) (hs : IsFinite s)
    (hrange : |exactValue s| ≤ exactValue pi) :
    IsFinite (t - s) ∧
      RoundsTo (direction.sense * exactValue t - direction.sense * exactValue s)
        (direction.sense * exactValue (t - s)) := by
  have hhigh := pi_bounds.2
  obtain ⟨htlow, hthigh⟩ := abs_le.1 hten
  obtain ⟨hslow, hshigh⟩ := abs_le.1 hrange
  obtain ⟨hfinite, hrounds⟩ := Number.sub_roundsTo ht hs (by rw [abs_le]; constructor <;> linarith)
  have hboth := direction.roundsTo_sense hrounds
  rw [mul_sub] at hboth
  exact ⟨hfinite, hboth⟩

end Direction

namespace PlanePoint

def IsFinite (p : PlanePoint Float) : Prop := Number.IsFinite p.first ∧ Number.IsFinite p.second

instance (p : PlanePoint Float) : Decidable p.IsFinite := inferInstanceAs (Decidable (_ ∧ _))

def IsNumber (p : PlanePoint Float) : Prop := Number.IsNumber p.first ∧ Number.IsNumber p.second

end PlanePoint

namespace Arc

/-! ## Sweeps -/

section

variable {direction : Direction} {s e : Float}

/-- The end angle is turned on unless it is further than the start angle as it is. -/
theorem turnedEnd_eq (hs : IsFinite s) (he : IsFinite e) (direction : Direction)
    (fullCircle : Bool) : turnedEnd s e direction fullCircle =
      if fullCircle = true then direction.turnOn s
      else if direction.sense * exactValue e ≤ direction.sense * exactValue s then
        direction.turnOn e
      else e := by
  cases direction with
  | clockwise =>
    have hle : s ≤ e ↔ Direction.clockwise.sense * exactValue e ≤
        Direction.clockwise.sense * exactValue s := by
      rw [le_iff_exactValue hs he, Direction.sense, neg_one_mul, neg_one_mul, neg_le_neg_iff]
    cases fullCircle with
    | true => rfl
    | false => exact (if_congr hle rfl rfl).trans (if_neg (by decide)).symm
  | counterclockwise =>
    have hle : e ≤ s ↔ Direction.counterclockwise.sense * exactValue e ≤
        Direction.counterclockwise.sense * exactValue s := by
      rw [le_iff_exactValue he hs, Direction.sense, one_mul, one_mul]
    cases fullCircle with
    | true => rfl
    | false => exact (if_congr hle rfl rfl).trans (if_neg (by decide)).symm

/-- How a sweep runs in a direction from one angle to another one: never back, and not at all only
from one end of the range of angles to the other one. -/
structure Sweeps (direction : Direction) (s e : Float) (fullCircle : Bool) (sweep : Float) :
    Prop where
  finite : IsFinite sweep
  nonneg : 0 ≤ direction.sense * exactValue sweep
  pos_iff : 0 < direction.sense * exactValue sweep ↔
    ¬ (fullCircle = false ∧ direction.sense * exactValue s = exactValue pi ∧
      direction.sense * exactValue e = -exactValue pi)
  atMost : |exactValue sweep| ≤ exactValue twoPi + 1 / 2 ^ 50
  atLeast : fullCircle = true → exactValue twoPi - 1 / 2 ^ 50 ≤ |exactValue sweep|

/-- The sweep to an angle that is turned on because it is not further than the start angle. -/
theorem turnOn_sweeps (hs : IsFinite s) (he : IsFinite e) (hsrange : |exactValue s| ≤ exactValue pi)
    (herange : |exactValue e| ≤ exactValue pi)
    (h : direction.sense * exactValue e ≤ direction.sense * exactValue s) :
    Sweeps direction s e false (direction.turnOn e - s) ∧
      (direction.sense * exactValue e = direction.sense * exactValue s →
        exactValue twoPi - 1 / 2 ^ 50 ≤ |exactValue (direction.turnOn e - s)|) := by
  have hstart := (direction.abs_sense_mul _).trans_le hsrange
  have hend := (direction.abs_sense_mul _).trans_le herange
  have hdouble : IsDouble (direction.sense * exactValue e) :=
    ⟨e, he, (direction.abs_sense_mul _).symm⟩
  obtain ⟨hfinite, hrounds⟩ := direction.turnOn_roundsTo he herange
  obtain ⟨hsweep, hrounds'⟩ :=
    direction.sub_roundsTo hfinite (direction.abs_turnOn_le he herange) hs hsrange
  obtain ⟨hnonneg, hpos⟩ := turned_sign (abs_le.1 hstart).2 hdouble hend hrounds hrounds'
  obtain ⟨hmost, hleast⟩ := turned_size hstart hend h hrounds hrounds' hnonneg
  rw [direction.abs_sense_mul] at hmost hleast
  refine ⟨⟨hsweep, hnonneg, hpos.trans ?_, hmost, fun h => by cases h⟩, hleast⟩
  rw [and_iff_right rfl]

theorem sweeps (hs : IsFinite s) (he : IsFinite e) (hsrange : |exactValue s| ≤ exactValue pi)
    (herange : |exactValue e| ≤ exactValue pi) (direction : Direction) (fullCircle : Bool) :
    Sweeps direction s e fullCircle (turnedEnd s e direction fullCircle - s) := by
  have hpi := pi_bounds
  rw [turnedEnd_eq hs he]
  split_ifs with hfull hturn
  · -- a full circle ends where it starts
    obtain ⟨hsweeps, hleast⟩ := turnOn_sweeps hs hs hsrange hsrange
      (le_refl (direction.sense * exactValue s))
    refine ⟨hsweeps.finite, hsweeps.nonneg, hsweeps.pos_iff.trans (iff_of_true ?_ ?_),
      hsweeps.atMost, fun _ => hleast rfl⟩
    · rintro ⟨-, hupper, hlower⟩
      linarith
    · simp [hfull]
  · rw [Bool.eq_false_of_not_eq_true hfull]
    exact (turnOn_sweeps hs he hsrange herange hturn).1
  · have hstart := (direction.abs_sense_mul _).trans_le hsrange
    have hend := (direction.abs_sense_mul _).trans_le herange
    obtain ⟨hsweep, hrounds⟩ := direction.sub_roundsTo he (by linarith) hs hsrange
    obtain ⟨hpos, hmost⟩ := straight_sweep hstart hend (not_le.1 hturn) hrounds
    rw [direction.abs_sense_mul] at hmost
    refine ⟨hsweep, hpos.le, iff_of_true hpos ?_, hmost, fun h => absurd h hfull⟩
    rintro ⟨-, hupper, hlower⟩
    rw [hupper, hlower] at hturn
    linarith

end

/-! ## Arcs -/

/-- The sweep runs the way that the arc is programmed. -/
def TurnsItsWay (a : Arc) : Prop :=
  match a.direction with
  | .clockwise => a.sweep < 0.0
  | .counterclockwise => 0.0 < a.sweep

/-- The angle at which a point is seen from the centre. -/
def angleOf (a : Arc) (p : PlanePoint Float) : Float :=
  atan2 (p.second - a.centre.second) (p.first - a.centre.first)

/-- Both ends are seen along the negative first axis, where the angles are cut, but from its two
sides: the arc starts at the end of the range and ends at the beginning of it, as its direction
goes. -/
def isInCut (a : Arc) (finish : PlanePoint Float) : Bool :=
  !a.fullCircle &&
    match a.direction with
    | .clockwise => a.startAngle == -pi && a.angleOf finish == pi
    | .counterclockwise => a.startAngle == pi && a.angleOf finish == -pi

variable {centre start finish : PlanePoint Float} {radius : Float} {plane : Plane}
  {direction : Direction} {fullCircle : Bool}

/-- A point is seen from a centre at an angle in the range. -/
theorem angle_range (hp : start.IsFinite) (hc : centre.IsNumber) :
    let angle := atan2 (start.second - centre.second) (start.first - centre.first)
    IsFinite angle ∧ |exactValue angle| ≤ exactValue pi :=
  atan2_range (sub_isNumber hp.2 hc.2) (sub_isNumber hp.1 hc.1)

theorem turnsItsWay_iff {a : Arc} (h : IsFinite a.sweep) :
    a.TurnsItsWay ↔ 0 < a.direction.sense * exactValue a.sweep := by
  have hzero : IsFinite 0.0 := by decide
  rw [TurnsItsWay]
  cases a.direction with
  | clockwise =>
    show a.sweep < 0.0 ↔ _
    rw [lt_iff_exactValue h hzero, exactValue_zero, Direction.sense, neg_one_mul, neg_pos]
  | counterclockwise =>
    show 0.0 < a.sweep ↔ _
    rw [lt_iff_exactValue hzero h, exactValue_zero, Direction.sense, one_mul]

theorem isInCut_iff {a : Arc} (hs : IsFinite a.startAngle) (he : IsFinite (a.angleOf finish)) :
    a.isInCut finish = true ↔ a.fullCircle = false ∧
      a.direction.sense * exactValue a.startAngle = exactValue pi ∧
      a.direction.sense * exactValue (a.angleOf finish) = -exactValue pi := by
  have hpi : IsFinite pi ∧ IsFinite (-pi) := by decide
  rw [isInCut, Bool.and_eq_true, Bool.not_eq_true']
  refine and_congr_right fun _ => ?_
  cases a.direction with
  | clockwise =>
    rw [Bool.and_eq_true, beq_iff_exactValue hs hpi.2, beq_iff_exactValue he hpi.1,
      exactValue_neg_pi, Direction.sense, neg_one_mul, neg_one_mul, neg_eq_iff_eq_neg, neg_inj]
  | counterclockwise =>
    rw [Bool.and_eq_true, beq_iff_exactValue hs hpi.1, beq_iff_exactValue he hpi.2,
      exactValue_neg_pi, Direction.sense, one_mul, one_mul]

theorem sweeps_around (hc : centre.IsNumber) (hs : start.IsFinite) (he : finish.IsFinite) :
    Sweeps direction (atan2 (start.second - centre.second) (start.first - centre.first))
      (atan2 (finish.second - centre.second) (finish.first - centre.first)) fullCircle
      (around centre radius start finish plane direction fullCircle).1.sweep := by
  obtain ⟨hsfinite, hsrange⟩ := angle_range hs hc
  obtain ⟨hefinite, herange⟩ := angle_range he hc
  exact sweeps hsfinite hefinite hsrange herange direction fullCircle

/-- An arc about a centre that is a number. -/
theorem around_turns (hc : centre.IsNumber) (hs : start.IsFinite) (he : finish.IsFinite) {arc : Arc}
    (harc : arc = (around centre radius start finish plane direction fullCircle).1) :
    (arc.TurnsItsWay ↔ arc.isInCut finish = false) ∧ IsFinite arc.sweep ∧
      (arc.isInCut finish = true → exactValue arc.sweep = 0) ∧
      |exactValue arc.sweep| ≤ exactValue twoPi + 1 / 2 ^ 50 ∧
      (arc.fullCircle = true → exactValue twoPi - 1 / 2 ^ 50 ≤ |exactValue arc.sweep|) := by
  have hsweeps : Sweeps arc.direction arc.startAngle (arc.angleOf finish) arc.fullCircle
      arc.sweep := by
    rw [harc]
    exact sweeps_around hc hs he
  have hsfinite : IsFinite arc.startAngle := by
    rw [harc]
    exact (angle_range hs hc).1
  have hefinite : IsFinite (arc.angleOf finish) := by
    rw [harc]
    exact (angle_range he hc).1
  have hturns : arc.TurnsItsWay ↔ arc.isInCut finish = false := by
    rw [turnsItsWay_iff hsweeps.finite, ← Bool.not_eq_true, isInCut_iff hsfinite hefinite]
    exact hsweeps.pos_iff
  refine ⟨hturns, hsweeps.finite, fun hcut => ?_, hsweeps.atMost, hsweeps.atLeast⟩
  have hnot : ¬ 0 < arc.direction.sense * exactValue arc.sweep := by
    rw [← turnsItsWay_iff hsweeps.finite, hturns, hcut]
    decide
  have hzero := le_antisymm (not_lt.1 hnot) hsweeps.nonneg
  exact abs_eq_zero.1 ((arc.direction.abs_sense_mul _).symm.trans (abs_eq_zero.2 hzero))

/-- About what is not a point nothing turns. -/
theorem around_not_turns (hc : ¬ centre.IsNumber) :
    ¬ (around centre radius start finish plane direction fullCircle).1.TurnsItsWay := by
  have hnan :
      ¬ IsNumber (around centre radius start finish plane direction fullCircle).1.sweep := by
    refine not_isNumber_sub (not_isNumber_atan2 fun h => hc ?_)
    constructor
    · by_contra hfirst
      exact not_isNumber_sub hfirst h.2
    · by_contra hsecond
      exact not_isNumber_sub hsecond h.1
  rw [TurnsItsWay]
  split <;> intro hless <;> rw [lt_iff_compare] at hless
  · exact hnan (isNumber_of_compare hless)
  · have hswap := compare_swap (0.0 : Float).toModel.unpack
      (around centre radius start finish plane direction fullCircle).1.sweep.toModel.unpack
    rw [hless] at hswap
    exact hnan (isNumber_of_compare hswap)

/-! ## Blocks -/

/-- Where an arc comes from: from offsets, or from a radius. -/
theorem resolve_eq_some {start target : Position} {b : Block} {tolerance epsilon : Float}
    {arc : Arc} {warnings : List Warning}
    (h : resolve start target b plane direction tolerance epsilon = .ok (some arc, warnings)) :
    let s := plane.project start
    let e := plane.project target
    (∃ full, b.has [plane.first.offsetLetter, plane.second.offsetLetter] = true ∧
      let i := b.valueOrZero plane.first.offsetLetter
      let j := b.valueOrZero plane.second.offsetLetter
      ¬ hypot i j ≤ 0.0 ∧ arc =
        (around ⟨s.first + i, s.second + j⟩ (hypot i j) s e plane direction full).1) ∨
    ∃ radius found, b.has [plane.first.offsetLetter, plane.second.offsetLetter] = false ∧
      b.value 'R' = some radius ∧
      ¬ hypot (e.first - s.first) (e.second - s.second) < tolerance ∧
      radiusCentre s e radius direction epsilon = .ok found ∧
      arc = (around found.centre found.radius s e plane direction false).1 := by
  simp only [resolve] at h
  split at h
  next hoffsets =>
    split at h
    · cases h
    next hradius =>
      cases h
      exact .inl ⟨_, hoffsets, hradius, rfl⟩
  next hoffsets =>
    split at h
    · cases h
    next radius hvalue =>
      split at h
      · cases h
      next hends =>
        simp only [bind_eq_ok, pure_eq_ok] at h
        obtain ⟨found, hfound, h⟩ := h
        cases h
        exact .inr ⟨radius, found, by simpa using hoffsets, hvalue, by simpa using hends,
          liftM_eq_ok.1 hfound, rfl⟩

/-- The radius in use reaches half way at least, and the ends are apart. -/
theorem radius_pos {radius epsilon : Float} {found : RadiusCentre Float}
    (hs : start.IsFinite) (he : finish.IsFinite) (hradius : IsNumber radius)
    (hepsilon : 0.0 < epsilon)
    (hends : ¬ hypot (finish.first - start.first) (finish.second - start.second) < defaultTolerance)
    (h : radiusCentre start finish radius direction epsilon = .ok found) : 0.0 < found.radius := by
  have hchord : IsNumber (hypot (finish.first - start.first) (finish.second - start.second)) :=
    hypot_isNumber (sub_isNumber he.1 hs.1.isNumber) (sub_isNumber he.2 hs.2.isNumber)
  have hhalf := Number.half_pos hchord hends
  simp only [radiusCentre, bind_eq_ok, pure_eq_ok] at h
  obtain ⟨square, -, across, -, along, -, rfl⟩ := h
  have hnumber := isNumber_of_lt hhalf
  show 0.0 < if _ then _ else _
  split_ifs with hshort
  · exact Number.add_pos hhalf hepsilon
  · refine lt_of_pos_of_le hhalf ?_
    have hnot : ¬ radius.abs < _ := fun hless => hshort (decide_eq_true hless)
    exact (not_lt (abs_isNumber hradius) hnumber).1 hnot

/-- Every arc that is resolved with the default tolerance lies about a centre at a positive radius,
and the centre is a number if it is given by offsets. -/
theorem resolve_around {start target : Position} {b : Block} {arc : Arc} {warnings : List Warning}
    (hs : (plane.project start).IsFinite) (he : (plane.project target).IsFinite)
    (h : resolve start target b plane direction defaultTolerance defaultEpsilon =
      .ok (some arc, warnings)) :
    ∃ centre radius full, arc = (around centre radius (plane.project start)
        (plane.project target) plane direction full).1 ∧ 0.0 < radius ∧
      (b.has [plane.first.offsetLetter, plane.second.offsetLetter] = true → centre.IsNumber) := by
  rcases resolve_eq_some h with
    ⟨full, -, hpos, rfl⟩ | ⟨radius, found, hnone, hvalue, hends, hfound, rfl⟩
  · have hi := b.valueOrZero_isNumber plane.first.offsetLetter
    have hj := b.valueOrZero_isNumber plane.second.offsetLetter
    exact ⟨_, _, full, rfl, pos_of_not_le (hypot_isNumber hi hj) hpos,
      fun _ => ⟨add_isNumber hs.1 hi, add_isNumber hs.2 hj⟩⟩
  · refine ⟨_, _, false, rfl, ?_, fun hsome => ?_⟩
    · exact radius_pos hs he (Block.value_isNumber hvalue) (by decide) hends hfound
    · rw [hnone] at hsome
      cases hsome

/-- Every resolved arc has a positive radius and turns in its direction, by a full turn at most up
to the last place and by a full turn up to it for a full circle, unless there is no centre, which
takes a radius, or the arc is in the cut of the angles, where it does not turn at all. -/
theorem resolve_turns {start target : Position} {b : Block} {arc : Arc} {warnings : List Warning}
    (hs : (plane.project start).IsFinite) (he : (plane.project target).IsFinite)
    (h : resolve start target b plane direction defaultTolerance defaultEpsilon =
      .ok (some arc, warnings)) :
    arc.direction = direction ∧ 0.0 < arc.radius ∧
      (arc.TurnsItsWay ↔
        arc.centre.IsNumber ∧ arc.isInCut (plane.project target) = false) ∧
      (b.has [plane.first.offsetLetter, plane.second.offsetLetter] = true →
        arc.centre.IsNumber) ∧
      (arc.centre.IsNumber → IsFinite arc.sweep ∧
        (arc.isInCut (plane.project target) = true → exactValue arc.sweep = 0) ∧
        |exactValue arc.sweep| ≤ exactValue twoPi + 1 / 2 ^ 50 ∧
        (arc.fullCircle = true → exactValue twoPi - 1 / 2 ^ 50 ≤ |exactValue arc.sweep|)) := by
  obtain ⟨centre, radius, full, harc, hradius, hoffsets⟩ := resolve_around hs he h
  have hcentre : arc.centre = centre := by rw [harc]; rfl
  rw [hcentre]
  refine ⟨by rw [harc]; rfl, by rw [harc]; exact hradius, ?_, hoffsets, fun hnumber => ?_⟩
  · by_cases hnumber : centre.IsNumber
    · rw [(around_turns hnumber hs he harc).1]
      exact (and_iff_right hnumber).symm
    · refine iff_of_false ?_ fun h => hnumber h.1
      rw [harc]
      exact around_not_turns hnumber
  · exact (around_turns hnumber hs he harc).2

/-- A quarter of a circle, counter-clockwise. -/
theorem resolve_turns_quarter :
    ∃ b arc, Block.read? "G3 X0 Y10 I-10" 1 = some b ∧
      (Plane.xy.project ⟨10.0, 0.0, 0.0⟩).IsFinite ∧ (Plane.xy.project ⟨0.0, 10.0, 0.0⟩).IsFinite ∧
      resolve ⟨10.0, 0.0, 0.0⟩ ⟨0.0, 10.0, 0.0⟩ b .xy .counterclockwise defaultTolerance
        defaultEpsilon = .ok (some arc, []) ∧
      0.0 < arc.radius ∧ arc.TurnsItsWay ∧
      |exactValue arc.sweep| ≤ exactValue twoPi + 1 / 2 ^ 50 := by
  let b : Block := ⟨"G3 X0 Y10 I-10", 1, [⟨'G', "3"⟩, ⟨'X', "0"⟩, ⟨'Y', "10"⟩, ⟨'I', "-10"⟩],
    none, none, none⟩
  have hs : (Plane.xy.project ⟨10.0, 0.0, 0.0⟩).IsFinite := by decide
  have he : (Plane.xy.project ⟨0.0, 10.0, 0.0⟩).IsFinite := by decide
  obtain ⟨⟨found, warnings⟩, hfound, hresult⟩ := exists_of_toOption
    (x := resolve ⟨10.0, 0.0, 0.0⟩ ⟨0.0, 10.0, 0.0⟩ b .xy .counterclockwise defaultTolerance
      defaultEpsilon)
    (f := fun r => (r.1.map (isInCut · (Plane.xy.project ⟨0.0, 10.0, 0.0⟩)), r.2.isEmpty))
    (b := (some false, true)) (by decide +kernel)
  rw [Prod.mk.injEq, Option.map_eq_some_iff, List.isEmpty_iff] at hresult
  obtain ⟨⟨arc, rfl, hcut⟩, rfl⟩ := hresult
  obtain ⟨-, hradius, hturns, hcentre, hsweep⟩ := resolve_turns hs he hfound
  have hnumber := hcentre (by decide +kernel)
  exact ⟨b, arc, by decide +kernel, hs, he, hfound, hradius, hturns.2 ⟨hnumber, hcut⟩,
    (hsweep hnumber).2.2.1⟩

/-- From minus five to a point that is seen below the cut the sweep is zero. -/
theorem resolve_not_turns :
    ∃ b arc, Block.read? "G3 X-5.005 Y-0 I5 J0" 1 = some b ∧
      (Plane.xy.project ⟨-5.0, 0.0, 0.0⟩).IsFinite ∧
      (Plane.xy.project ⟨-5.005, -0.0, 0.0⟩).IsFinite ∧
      resolve ⟨-5.0, 0.0, 0.0⟩ ⟨-5.005, -0.0, 0.0⟩ b .xy .counterclockwise defaultTolerance
        defaultEpsilon = .ok (some arc, []) ∧ ¬ arc.TurnsItsWay := by
  let b : Block := ⟨"G3 X-5.005 Y-0 I5 J0", 1, [⟨'G', "3"⟩, ⟨'X', "-5.005"⟩, ⟨'Y', "-0"⟩,
    ⟨'I', "5"⟩, ⟨'J', "0"⟩], none, none, none⟩
  obtain ⟨⟨found, warnings⟩, hfound, hresult⟩ := exists_of_toOption
    (x := resolve ⟨-5.0, 0.0, 0.0⟩ ⟨-5.005, -0.0, 0.0⟩ b .xy .counterclockwise defaultTolerance
      defaultEpsilon)
    (f := fun r =>
      (r.1.map fun (arc : Arc) => (arc.direction, decide (0.0 < arc.sweep)), r.2.isEmpty))
    (b := (some (.counterclockwise, false), true)) (by decide +kernel)
  rw [Prod.mk.injEq, Option.map_eq_some_iff, List.isEmpty_iff] at hresult
  obtain ⟨⟨arc, rfl, hturn⟩, rfl⟩ := hresult
  rw [Prod.mk.injEq, decide_eq_false_iff_not] at hturn
  refine ⟨b, arc, by decide +kernel, by decide, by decide, hfound, ?_⟩
  rw [TurnsItsWay, hturn.1]
  exact hturn.2

end Arc

end PartProgram

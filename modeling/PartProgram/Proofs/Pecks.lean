import Mathlib.Algebra.Order.Group.MinMax
import Mathlib.Data.List.Range
import Mathlib.Data.Rat.Floor
import Mathlib.Data.Rat.Sqrt
import PartProgram.Cycle
import PartProgram.Proofs.ExactNumbers
import PartProgram.Proofs.Result

/-!
# PartProgram.Proofs.Pecks

How peck drilling gets to its depth. The number of pecks is a quotient rounded up, and a peck goes
one increment further than the one before it, but never beyond the full depth. So a quotient decides
how many pecks there are and a product how deep they go, and they have to agree where the increment
divides the depth. That they do is shown in rational numbers.

* `depthAfter_of_lt`, `depthAfter_of_le`: which pecks stop short of the full depth.
* `peckDepths_descent`: what is known of the depths of all pecks.
* `peckDrilling_descends`: the phases of the cycle.
-/

namespace PartProgram

/-- Rational numbers. Drilling takes no root, so any will do. -/
local instance (priority := low) rationalNumbers : Scalar ℚ := .exact Rat.sqrt

namespace Hole

variable {r z q : ℚ}

/-! ## Depths -/

/-- The depth after a number of pecks. -/
def depthAfter (r z q : ℚ) (pecks : Nat) : ℚ := max z (r - pecks * q)

/-- How many pecks a depth takes. -/
def peckCount (r z q : ℚ) : Nat := (max 1 ⌈(r - z) / q⌉).toNat

theorem depthAfter_zero (hz : z ≤ r) : depthAfter r z q 0 = r := by
  simpa [depthAfter] using hz

/-- A peck before the last one stops short of the full depth. -/
theorem depthAfter_of_lt (hq : 0 < q) {pecks : Nat} (h : (pecks : ℤ) < ⌈(r - z) / q⌉) :
    depthAfter r z q pecks = r - pecks * q ∧ z < r - pecks * q := by
  rw [Int.lt_ceil, Int.cast_natCast, lt_div_iff₀ hq] at h
  have habove : z < r - pecks * q := by linarith
  exact ⟨max_eq_right habove.le, habove⟩

/-- The last peck reaches it. -/
theorem depthAfter_of_le (hq : 0 < q) {pecks : Nat} (h : ⌈(r - z) / q⌉ ≤ pecks) :
    depthAfter r z q pecks = z := by
  rw [Int.ceil_le, Int.cast_natCast, div_le_iff₀ hq] at h
  exact max_eq_left (by linarith)

theorem depthAfter_succ_lt (hq : 0 < q) {pecks : Nat} (h : (pecks : ℤ) < ⌈(r - z) / q⌉) :
    depthAfter r z q (pecks + 1) < depthAfter r z q pecks := by
  obtain ⟨hdepth, habove⟩ := depthAfter_of_lt hq h
  rw [hdepth, depthAfter]
  push_cast
  exact max_lt habove (by linarith)

theorem sub_le_depthAfter_succ (hq : 0 < q) (pecks : Nat) :
    depthAfter r z q pecks - q ≤ depthAfter r z q (pecks + 1) := by
  rw [depthAfter, depthAfter, ← max_sub_sub_right]
  push_cast
  exact max_le_max (by linarith) (by linarith)

theorem one_le_peckCount : 1 ≤ peckCount r z q := by
  rw [peckCount]
  omega

/-- Where there is a way to go, each of the pecks is needed. -/
theorem lt_ceil_of_lt_peckCount (hq : 0 < q) (hz : z < r) {pecks : Nat}
    (h : pecks < peckCount r z q) : (pecks : ℤ) < ⌈(r - z) / q⌉ := by
  have hway : 0 < ⌈(r - z) / q⌉ := Int.ceil_pos.2 (div_pos (sub_pos.2 hz) hq)
  rw [peckCount] at h
  omega

/-- The depths of pecks from a retract plane to a full depth, in steps of an increment at most. -/
structure Descent (r z q : ℚ) (depths : List ℚ) : Prop where
  count : (depths.length : ℤ) = max 1 ⌈(r - z) / q⌉
  /-- each peck goes deeper than the one before it, the first one than the retract plane -/
  deeper : z < r → (r :: depths).IsChain fun before depth => depth < before
  /-- but by an increment at most -/
  bounded : (r :: depths).IsChain fun before depth => before - q ≤ depth
  above : ∀ depth ∈ depths, z ≤ depth
  full : depths.getLast? = some z

theorem peckDepths_eq (hz : z ≤ r) : peckDepths r z q =
    .ok ((List.range (peckCount r z q)).map fun i => depthAfter r z q (i + 1)) := by
  have hway : Scalar.abs (r - z) = r - z := abs_of_nonneg (sub_nonneg.2 hz)
  rw [peckDepths, hway]
  refine congrArg Except.ok (List.map_congr_left fun i _ => ?_)
  exact Scalar.exact_larger _ _

/-- The retract plane and the depths of the pecks are the depths after none, one, two pecks. -/
theorem cons_depths (hz : z ≤ r) (n : Nat) :
    r :: (List.range n).map (fun i => depthAfter r z q (i + 1)) =
      (List.range (n + 1)).map (depthAfter r z q) := by
  rw [List.range_succ_eq_map, List.map_cons, List.map_map, depthAfter_zero hz]
  rfl

theorem peckDepths_descent (hq : 0 < q) (hz : z ≤ r) :
    ∃ depths, peckDepths r z q = .ok depths ∧ Descent r z q depths := by
  refine ⟨_, peckDepths_eq hz, ⟨?_, fun hway => ?_, ?_, ?_, ?_⟩⟩
  · rw [List.length_map, List.length_range, peckCount]
    omega
  · rw [cons_depths hz, List.isChain_map, List.isChain_range_succ]
    exact fun i hi => depthAfter_succ_lt hq (lt_ceil_of_lt_peckCount hq hway hi)
  · rw [cons_depths hz, List.isChain_map, List.isChain_range_succ]
    exact fun i _ => sub_le_depthAfter_succ hq i
  · intro depth hdepth
    obtain ⟨i, -, rfl⟩ := List.mem_map.1 hdepth
    exact le_max_left _ _
  · have hsome : 1 ≤ peckCount r z q := one_le_peckCount
    rw [List.getLast?_map, List.getLast?_range, if_neg (by omega), Option.map_some,
      Nat.sub_add_cancel hsome, depthAfter_of_le hq (by rw [peckCount]; omega)]

/-! ## Phases -/

variable {h : Hole ℚ}

/-- The phases of a peck: down to its depth, and back to the retract plane. -/
def peckTo (h : Hole ℚ) (depth : ℚ) : List (Phase ℚ) := [h.feedTo depth, h.rapidTo h.r]

theorem increment?_eq_some (hpeck : h.peck = some q) (hq : 0 < q) : h.increment? = some q := by
  have hpositive : ¬ q ≤ Scalar.zero := by
    rw [Scalar.exact_zero]
    exact hq.not_ge
  rw [increment?, hpeck, Option.filter_some, decide_eq_false hpositive]
  rfl

theorem expand_peckDrilling (hpeck : h.peck = some q) (hq : 0 < q) {depths : List ℚ}
    (hdepths : peckDepths h.r h.z q = .ok depths) :
    CycleKind.expand .peckDrilling h = .ok ⟨depths.flatMap h.peckTo, []⟩ := by
  simp only [CycleKind.expand, increment?_eq_some hpeck hq, peckPhases, hdepths]
  rfl

theorem place_of_mem_flatMap_peckTo {depths : List ℚ} {p : Phase ℚ}
    (hp : p ∈ depths.flatMap h.peckTo) : p.x = h.x ∧ p.y = h.y := by
  obtain ⟨depth, -, hp⟩ := List.mem_flatMap.1 hp
  simp only [peckTo, List.mem_cons, List.not_mem_nil, or_false] at hp
  rcases hp with rfl | rfl <;> exact ⟨rfl, rfl⟩

theorem getLast?_flatMap_peckTo {depths : List ℚ} (hne : depths ≠ []) :
    (depths.flatMap h.peckTo).getLast? = some (h.rapidTo h.r) := by
  obtain ⟨front, depth, rfl⟩ : ∃ front depth, depths = front ++ [depth] :=
    ⟨_, _, (List.dropLast_append_getLast hne).symm⟩
  simp [peckTo]

end Hole

open Hole

/-- Peck drilling feeds to a depth and goes back to the retract plane in turn, over one place. There
are as many feeds as increments in the depth, the last of them cut short, each goes deeper than the
one before it by an increment at most, and the last one reaches the full depth. -/
theorem peckDrilling_descends {h : Hole ℚ} {q : ℚ} (hpeck : h.peck = some q) (hq : 0 < q)
    (hz : h.z ≤ h.r) : ∃ depths,
      CycleKind.expand .peckDrilling h = .ok ⟨depths.flatMap h.peckTo, []⟩ ∧
        Descent h.r h.z q depths ∧
        (depths.flatMap h.peckTo).getLast? = some (h.rapidTo h.r) ∧
        ∀ p ∈ depths.flatMap h.peckTo, p.x = h.x ∧ p.y = h.y := by
  obtain ⟨depths, hdepths, hdescent⟩ := peckDepths_descent hq hz
  have hsome : depths ≠ [] := by
    rintro rfl
    cases hdescent.full
  exact ⟨depths, expand_peckDrilling hpeck hq hdepths, hdescent, getLast?_flatMap_peckTo hsome,
    fun p => place_of_mem_flatMap_peckTo⟩

/-- Three pecks of four are twelve. -/
theorem peckDrilling_descends_twelve :
    let h : Hole ℚ := { x := 1, y := 2, z := -10, r := 2, peck := some 4 }
    (h.peck = some 4 ∧ (0 : ℚ) < 4 ∧ h.z ≤ h.r) ∧ ∃ depths,
      CycleKind.expand .peckDrilling h = .ok ⟨depths.flatMap h.peckTo, []⟩ ∧
        Descent h.r h.z 4 depths ∧
        (depths.flatMap h.peckTo).getLast? = some (h.rapidTo h.r) ∧
        ∀ p ∈ depths.flatMap h.peckTo, p.x = h.x ∧ p.y = h.y := by
  intro h
  have hq : (0 : ℚ) < 4 := by norm_num
  have hz : h.z ≤ h.r := by norm_num [h]
  exact ⟨⟨rfl, hq, hz⟩, peckDrilling_descends rfl hq hz⟩

end PartProgram

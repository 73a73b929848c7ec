import PartProgram.Toolpath
import PartProgram.Proofs.Arrival
import PartProgram.Proofs.Signs

/-!
# PartProgram.Proofs.Extents

The box of a row of points. Its lower corner keeps what is not a number and a negative infinity, its
upper corner what is not a number and a positive one. If both are finite on an axis, then every
point is, and it lies between them.

* `foldl_keeps`, `foldl_bounds`: what a fold keeps, and how it compares with what is folded.
* `Bounds.ofPoints_spec`: the points of a finite box.
-/

namespace PartProgram

open Number Float.Model UnpackedFloat

/-! ## Folds -/

section Folds

variable {α : Type} {f : α → α → α}

/-- What a step keeps whichever side it is on is kept by a fold. -/
theorem foldl_keeps {P : α → Prop} (hstep : ∀ a b, P a ∨ P b → P (f a b)) {p : α} {xs : List α}
    (h : ∃ x ∈ p :: xs, P x) : P (xs.foldl f p) := by
  induction xs generalizing p with
  | nil =>
    obtain ⟨x, hx, hP⟩ := h
    rwa [List.foldl_nil, ← List.mem_singleton.1 hx]
  | cons y ys ih =>
    refine ih ?_
    obtain ⟨x, hx, hP⟩ := h
    rcases List.mem_cons.1 hx with rfl | hx
    · exact ⟨_, .head _, hstep _ _ (.inl hP)⟩
    · rcases List.mem_cons.1 hx with rfl | hx
      · exact ⟨_, .head _, hstep _ _ (.inr hP)⟩
      · exact ⟨x, .tail _ hx, hP⟩

/-- What compares with both sides after a step compares with all that is folded. -/
theorem foldl_bounds {P : α → Prop} {R : α → α → Prop} (hrefl : ∀ a, R a a)
    (htrans : ∀ a b c, R a b → R b c → R a c)
    (hstep : ∀ a b, P a → P b → P (f a b) ∧ R (f a b) a ∧ R (f a b) b) {p : α} {xs : List α}
    (h : ∀ x ∈ p :: xs, P x) : ∀ x ∈ p :: xs, R (xs.foldl f p) x := by
  induction xs generalizing p with
  | nil =>
    intro x hx
    rw [List.mem_singleton.1 hx]
    exact hrefl p
  | cons y ys ih =>
    obtain ⟨hkept, hfirst, hsecond⟩ := hstep p y (h p (.head _)) (h y (.tail _ (.head _)))
    have hrest : ∀ x ∈ f p y :: ys, P x := by
      intro x hx
      rcases List.mem_cons.1 hx with rfl | hx
      · exact hkept
      · exact h x (.tail _ (.tail _ hx))
    intro x hx
    rcases List.mem_cons.1 hx with rfl | hx
    · exact htrans _ _ _ (ih hrest _ (.head _)) hfirst
    · rcases List.mem_cons.1 hx with rfl | hx
      · exact htrans _ _ _ (ih hrest _ (.head _)) hsecond
      · exact ih hrest x (.tail _ hx)

end Folds

namespace Bounds

variable {a b x : Float}

/-! ## Infinities -/

/-- Not a number, or infinite with the sign. -/
def IsLost (s : Sign) (x : Float) : Prop :=
  x.toModel.unpack = .notANumber ∨ x.toModel.unpack = .infinity s

theorem isNaN_iff_unpack : isNaN x = true ↔ x.toModel.unpack = .notANumber := by
  have hmodel : x.isNaN = x.toModel.unpack.isNaN := rfl
  rw [isNaN_eq, hmodel]
  cases x.toModel.unpack <;> simp [UnpackedFloat.isNaN]

theorem isFinite_of_not_isLost (h : ∀ s, ¬ IsLost s x) : IsFinite x := by
  rw [isFinite_iff]
  cases hunpack : x.toModel.unpack with
  | notANumber => exact absurd (.inl hunpack) (h .positive)
  | infinity s => exact absurd (.inr hunpack) (h s)
  | _ => rfl

theorem not_isLost (h : IsFinite x) {s : Sign} : ¬ IsLost s x := by
  have hfinite := isFinite_iff.1 h
  rintro (hlost | hlost) <;> rw [hlost] at hfinite <;> cases hfinite

/-- Below a negative infinity is nothing else, and above a positive one. -/
theorem isLost_of_le (h : a ≤ b) :
    (IsLost .negative b → IsLost .negative a) ∧ (IsLost .positive a → IsLost .positive b) := by
  rw [le_iff_compare] at h
  constructor
  · intro hb
    refine .inr ?_
    rcases hb with hb | hb <;> rw [hb] at h <;> revert h
    · cases a.toModel.unpack <;> exact fun h => by cases h
    · cases a.toModel.unpack with
      | infinity s => cases s <;> first | exact fun _ => rfl | exact fun h => by cases h
      | _ => exact fun h => by cases h
  · intro ha
    refine .inr ?_
    rcases ha with ha | ha <;> rw [ha] at h <;> revert h
    · cases b.toModel.unpack <;> exact fun h => by cases h
    · cases b.toModel.unpack with
      | infinity s => cases s <;> first | exact fun _ => rfl | exact fun h => by cases h
      | _ => exact fun h => by cases h

/-- A negative infinity is below every number, and a positive one above. -/
theorem isLost_of_not_le (h : ¬ a ≤ b) :
    (IsLost .negative a → isNaN a = false → IsLost .negative b) ∧
      (IsLost .positive b → isNaN b = false → IsLost .positive a) := by
  rw [le_iff_compare] at h
  constructor
  · rintro (ha | ha) hnumber
    · rw [isNaN_iff_unpack.2 ha] at hnumber
      cases hnumber
    · refine .inl ?_
      rw [ha] at h
      revert h
      cases b.toModel.unpack with
      | notANumber => exact fun _ => rfl
      | infinity s => cases s <;> exact fun h => absurd rfl h
      | _ => exact fun h => absurd rfl h
  · rintro (hb | hb) hnumber
    · rw [isNaN_iff_unpack.2 hb] at hnumber
      cases hnumber
    · refine .inl ?_
      rw [hb] at h
      revert h
      cases a.toModel.unpack with
      | notANumber => exact fun _ => rfl
      | infinity s => cases s <;> exact fun h => absurd rfl h
      | _ => exact fun h => absurd rfl h

/-- What is kept of two coordinates, one of them lost. -/
theorem isLost_choice {s : Sign} {kept : Bool} (h : IsLost s a ∨ IsLost s b)
    (hkept : kept = true → IsLost s b → IsLost s a)
    (hleft : kept = false → IsLost s a → isNaN a = false → IsLost s b) :
    IsLost s (if isNaN a || kept then a else b) := by
  cases hnumber : isNaN a with
  | true => exact .inl (isNaN_iff_unpack.1 hnumber)
  | false =>
    cases hchoice : kept with
    | true => exact h.elim id (hkept hchoice)
    | false => exact h.elim (fun ha => hleft hchoice ha hnumber) id

theorem isLost_least (h : IsLost .negative a ∨ IsLost .negative b) :
    IsLost .negative (least a b) :=
  isLost_choice h (fun hle => (isLost_of_le (of_decide_eq_true hle)).1)
    fun hle => (isLost_of_not_le (of_decide_eq_false hle)).1

theorem isLost_greatest (h : IsLost .positive a ∨ IsLost .positive b) :
    IsLost .positive (greatest a b) :=
  isLost_choice h (fun hle => (isLost_of_le (of_decide_eq_true hle)).2)
    fun hle => (isLost_of_not_le (of_decide_eq_false hle)).2

/-! ## Finite coordinates -/

theorem least_spec (ha : IsFinite a) (hb : IsFinite b) : IsFinite (least a b) ∧
    exactValue (least a b) ≤ exactValue a ∧ exactValue (least a b) ≤ exactValue b := by
  rw [least, ha.1, Bool.false_or]
  split_ifs with hle
  · exact ⟨ha, le_rfl, exactValue_le ha hb (of_decide_eq_true hle)⟩
  · refine ⟨hb, ?_, le_rfl⟩
    rw [decide_eq_true_iff, le_iff_exactValue ha hb, not_le] at hle
    exact hle.le

theorem greatest_spec (ha : IsFinite a) (hb : IsFinite b) : IsFinite (greatest a b) ∧
    exactValue a ≤ exactValue (greatest a b) ∧ exactValue b ≤ exactValue (greatest a b) := by
  rw [greatest, ha.1, Bool.false_or]
  split_ifs with hle
  · exact ⟨ha, le_rfl, exactValue_le hb ha (of_decide_eq_true hle)⟩
  · refine ⟨hb, ?_, le_rfl⟩
    rw [decide_eq_true_iff, le_iff_exactValue hb ha, not_le] at hle
    exact hle.le

/-- If the least and the greatest of coordinates are finite, all of them are and lie between. -/
theorem foldl_spec {xs : List Float} (hmin : IsFinite (xs.foldl least x))
    (hmax : IsFinite (xs.foldl greatest x)) : ∀ y ∈ x :: xs, IsFinite y ∧
      exactValue (xs.foldl least x) ≤ exactValue y ∧
        exactValue y ≤ exactValue (xs.foldl greatest x) := by
  have hfinite : ∀ y ∈ x :: xs, IsFinite y := by
    intro y hy
    refine isFinite_of_not_isLost fun s hlost => ?_
    cases s with
    | negative =>
      exact not_isLost hmin
        (foldl_keeps (P := IsLost .negative) (fun _ _ => isLost_least) ⟨y, hy, hlost⟩)
    | positive =>
      exact not_isLost hmax
        (foldl_keeps (P := IsLost .positive) (fun _ _ => isLost_greatest) ⟨y, hy, hlost⟩)
  have hlow : ∀ y ∈ x :: xs, exactValue (xs.foldl least x) ≤ exactValue y :=
    foldl_bounds (P := IsFinite) (R := fun a b => exactValue a ≤ exactValue b) (fun _ => le_rfl)
      (fun _ _ _ h h' => h.trans h') (fun _ _ => least_spec) hfinite
  have hhigh : ∀ y ∈ x :: xs, exactValue y ≤ exactValue (xs.foldl greatest x) :=
    foldl_bounds (P := IsFinite) (R := fun a b => exactValue b ≤ exactValue a) (fun _ => le_rfl)
      (fun _ _ _ h h' => h'.trans h) (fun _ _ => greatest_spec) hfinite
  exact fun y hy => ⟨hfinite y hy, hlow y hy, hhigh y hy⟩

/-! ## Boxes -/

theorem get_foldl_join (f : Float → Float → Float) (p : Position) (ps : List Position)
    (axis : Axis) :
    (ps.foldl (join f) p).get axis = (ps.map (·.get axis)).foldl f (p.get axis) := by
  induction ps generalizing p with
  | nil => rfl
  | cons q ps ih =>
    rw [List.foldl_cons, ih, join, Point.get_tabulate, List.map_cons, List.foldl_cons]

/-- The points of a box that is finite on an axis are finite on it, and lie in the box. -/
theorem ofPoints_spec {ps : List Position} {box : Bounds} (h : ofPoints? ps = some box)
    {axis : Axis} (hmin : IsFinite (box.minimum.get axis))
    (hmax : IsFinite (box.maximum.get axis)) :
    exactValue (box.minimum.get axis) ≤ exactValue (box.maximum.get axis) ∧ ∀ p ∈ ps,
      IsFinite (p.get axis) ∧ exactValue (box.minimum.get axis) ≤ exactValue (p.get axis) ∧
        exactValue (p.get axis) ≤ exactValue (box.maximum.get axis) := by
  cases ps with
  | nil => cases h
  | cons p ps =>
    cases h
    simp only [get_foldl_join] at hmin hmax ⊢
    have hall := foldl_spec hmin hmax
    obtain ⟨-, hlow, hhigh⟩ := hall _ (.head _)
    exact ⟨hlow.trans hhigh, fun q hq =>
      hall _ (List.mem_map_of_mem (f := fun q : Position => q.get axis) hq)⟩

end Bounds

end PartProgram

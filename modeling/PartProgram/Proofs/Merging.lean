import Mathlib.Data.List.Chain
import Mathlib.Data.List.ReduceOption
import PartProgram.Rule.Basic

/-!
# PartProgram.Proofs.Merging

Lists that come out of a pass as they went in. A pass that only leaves elements out, or joins an
element to the one before it, makes a list shorter whenever it does anything; so the list is
unchanged exactly when nothing is left out and nothing is joined.

* `filterMap_eq_map_iff`: passes that change elements or leave them out.
* `Joining.foldl_eq_iff`: passes that join neighbours.
* `Joining.foldl_eq`: what such a pass writes, element by element.
-/

namespace PartProgram

section

variable {α β : Type}

theorem filter_map_eq_map_iff {p : α → Bool} {g : α → β} {l : List α} :
    (l.filter p).map g = l.map g ↔ ∀ a ∈ l, p a = true := by
  constructor
  · intro h
    have hlength := congrArg List.length h
    simp only [List.length_map] at hlength
    exact List.length_filter_eq_length_iff.1 hlength
  · intro h
    rw [List.filter_eq_self.2 h]

theorem filterMap_eq_map_iff {f : α → Option β} {g : α → β} {l : List α} :
    l.filterMap f = l.map g ↔ ∀ a ∈ l, f a = some (g a) := by
  induction l with
  | nil => simp
  | cons a l ih =>
    have hlength := List.length_filterMap_le f l
    cases h : f a with
    | none =>
      rw [List.filterMap_cons_none h]
      constructor
      · intro heq
        have := congrArg List.length heq
        simp only [List.length_map, List.length_cons] at this
        omega
      · intro hall
        have := hall a (.head _)
        rw [h] at this
        cases this
    | some b => simp [List.filterMap_cons_some h, h, ih]

theorem filterMap_eq_self_iff {f : α → Option α} {l : List α} :
    l.filterMap f = l ↔ ∀ a ∈ l, f a = some a := by
  have := filterMap_eq_map_iff (f := f) (g := id) (l := l)
  simpa using this

/-- An element that may be missing stands before no more elements than there were. -/
theorem toList_append_eq_cons_iff {o : Option α} {b : α} {l l' : List α}
    (h : l.length ≤ l'.length) : o.toList ++ l = b :: l' ↔ o = some b ∧ l = l' := by
  cases o with
  | none =>
    simp only [Option.toList_none, List.nil_append, reduceCtorEq, false_and, iff_false]
    rintro rfl
    simp only [List.length_cons] at h
    omega
  | some a => simp

theorem map_eq_self_iff {f : α → α} {l : List α} : l.map f = l ↔ ∀ a ∈ l, f a = a := by
  induction l with
  | nil => simp
  | cons a l ih => simp [ih]

theorem length_flatMap_le_of_forall {f g : α → List β} {l : List α}
    (h : ∀ a ∈ l, (f a).length ≤ (g a).length) : (l.flatMap f).length ≤ (l.flatMap g).length := by
  induction l with
  | nil => simp
  | cons a l ih =>
    have ha := h a (.head _)
    have hl := ih fun b hb => h b (.tail _ hb)
    simp only [List.flatMap_cons, List.length_append]
    omega

theorem length_eq_of_length_flatMap_le {f g : α → List β} {l : List α}
    (h : ∀ a ∈ l, (f a).length ≤ (g a).length)
    (hlength : (l.flatMap g).length ≤ (l.flatMap f).length) :
    ∀ a ∈ l, (f a).length = (g a).length := by
  induction l with
  | nil => simp
  | cons a l ih =>
    have ha := h a (.head _)
    have hrest : ∀ b ∈ l, (f b).length ≤ (g b).length := fun b hb => h b (.tail _ hb)
    have hl := length_flatMap_le_of_forall hrest
    simp only [List.flatMap_cons, List.length_append] at hlength
    rw [List.forall_mem_cons]
    exact ⟨by omega, ih hrest (by omega)⟩

/-- Pieces of which none is longer than the piece in its place make up the same whole only if they
are the same. -/
theorem flatMap_eq_iff {f g : α → List β} {l : List α}
    (h : ∀ a ∈ l, (f a).length ≤ (g a).length) :
    l.flatMap f = l.flatMap g ↔ ∀ a ∈ l, f a = g a := by
  constructor
  · intro heq
    have hlength := length_eq_of_length_flatMap_le h (by rw [heq])
    clear h
    induction l with
    | nil => simp
    | cons a l ih =>
      rw [List.flatMap_cons, List.flatMap_cons] at heq
      obtain ⟨ha, hl⟩ := List.append_inj heq (hlength a (.head _))
      rw [List.forall_mem_cons]
      exact ⟨ha, ih hl fun b hb => hlength b (.tail _ hb)⟩
  · exact List.flatMap_congr

theorem length_insertAt (place : Nat) (new as : List α) :
    (insertAt place new as).length = as.length + new.length := by
  simp only [insertAt, List.length_append, List.length_take, List.length_drop]
  omega

end

/-! ## Joining neighbours -/

section

variable {σ ι ω α : Type}

/-- No element is joined to the one before it, given what that one has left open. -/
def NoneJoins (opens : ι → Option ω) (joins : ω → ι → Bool) : Option ω → List ι → Prop
  | _, [] => True
  | o, i :: is => o.any (joins · i) = false ∧ NoneJoins opens joins (opens i) is

variable {opens : ι → Option ω} {joins : ω → ι → Bool}

theorem noneJoins_iff_isChain {i : ι} {is : List ι} :
    NoneJoins opens joins (opens i) is ↔
      (i :: is).IsChain fun i j => (opens i).any (joins · j) = false := by
  induction is generalizing i with
  | nil => simp [NoneJoins]
  | cons j is ih => simp only [NoneJoins, List.isChain_cons_cons, ih]

theorem noneJoins_none {is : List ι} :
    NoneJoins opens joins none is ↔ is.IsChain fun i j => (opens i).any (joins · j) = false := by
  cases is with
  | nil => simp [NoneJoins]
  | cons i is => simp [NoneJoins, noneJoins_iff_isChain]

/-- A pass that holds the elements written so far, the last one first, and what the last one leaves
open. An element goes before those written, or takes the place of the last of them. -/
structure Joining (opens : ι → Option ω) (joins : ω → ι → Bool) (raw : ι → α) (add : σ → ι → σ)
    (written : σ → List α) (opened : σ → Option ω) : Prop where
  keep : ∀ s i, (opened s).any (joins · i) = false →
    written (add s i) = raw i :: written s ∧ opened (add s i) = opens i
  join : ∀ s i, (opened s).any (joins · i) = true →
    ∃ a, written (add s i) = a :: (written s).tail

variable {raw : ι → α} {add : σ → ι → σ} {written : σ → List α} {opened : σ → Option ω}

theorem Joining.length_le (h : Joining opens joins raw add written opened) (is : List ι) (s : σ) :
    (written (is.foldl add s)).length ≤ (written s).length + is.length := by
  induction is generalizing s with
  | nil => simp
  | cons i is ih =>
    have hrest := ih (add s i)
    have hadd : (written (add s i)).length ≤ (written s).length + 1 := by
      cases hjoin : (opened s).any (joins · i) with
      | false => simp [(h.keep s i hjoin).1]
      | true =>
        obtain ⟨a, ha⟩ := h.join s i hjoin
        simp only [ha, List.length_cons, List.length_tail]
        omega
    simp only [List.foldl_cons, List.length_cons]
    omega

/-- The elements come out as they went in exactly when none of them is joined to another. -/
theorem Joining.foldl_eq_iff (h : Joining opens joins raw add written opened) (is : List ι) (s : σ)
    (hs : (opened s).isSome = true → written s ≠ []) :
    (written (is.foldl add s)).reverse = (written s).reverse ++ is.map raw ↔
      NoneJoins opens joins (opened s) is := by
  induction is generalizing s with
  | nil => simp [NoneJoins]
  | cons i is ih =>
    cases hjoin : (opened s).any (joins · i) with
    | false =>
      obtain ⟨hwritten, hopened⟩ := h.keep s i hjoin
      have hrest := ih (add s i) (by simp [hwritten])
      rw [hwritten, hopened, List.reverse_cons, List.append_assoc] at hrest
      simpa [NoneJoins, hjoin] using hrest
    | true =>
      simp only [NoneJoins, hjoin, Bool.true_eq_false, false_and, iff_false]
      intro heq
      have hsome : (opened s).isSome = true := by
        cases ho : opened s with
        | none => simp [ho] at hjoin
        | some o => rfl
      have hpos := List.length_pos_iff.2 (hs hsome)
      obtain ⟨a, ha⟩ := h.join s i hjoin
      have hlength := congrArg List.length heq
      have hle := h.length_le is (add s i)
      simp only [List.foldl_cons, List.length_reverse, List.length_append, List.length_map,
        List.length_cons] at hlength
      simp only [ha, List.length_cons, List.length_tail] at hle
      omega

/-- Whether the next element, if there is one, is joined to what is open. -/
def joinsNext (joins : ω → ι → Bool) (open? : Option ω) (is : List ι) : Bool :=
  is.head?.any fun i => open?.any (joins · i)

theorem joinsNext_none (is : List ι) : joinsNext joins none is = false := by
  cases is <;> rfl

/-- What is left of each element: nothing if the next one is joined to it. -/
def joinedLeft (joins : ω → ι → Bool) (add : σ → ι → σ) (written : σ → List α)
    (opened : σ → Option ω) (s : σ) : List ι → List (Option α)
  | [] => []
  | i :: is =>
    (if joinsNext joins (opened (add s i)) is then none else (written (add s i)).head?) ::
      joinedLeft joins add written opened (add s i) is

/-- The elements that are left come after those that were written before, without the last of them
if the first element is joined to it. -/
theorem Joining.foldl_eq (h : Joining opens joins raw add written opened) (is : List ι) (s : σ) :
    (written (is.foldl add s)).reverse =
      (if joinsNext joins (opened s) is then (written s).tail else written s).reverse ++
        (joinedLeft joins add written opened s is).reduceOption := by
  induction is generalizing s with
  | nil => simp [joinsNext, joinedLeft, List.reduceOption]
  | cons i is ih =>
    have hnext : joinsNext joins (opened s) (i :: is) = (opened s).any (joins · i) := rfl
    have hwritten : ∃ a, written (add s i) =
        a :: (if (opened s).any (joins · i) then (written s).tail else written s) := by
      cases hjoin : (opened s).any (joins · i) with
      | true => exact h.join s i hjoin
      | false => exact ⟨raw i, (h.keep s i hjoin).1⟩
    obtain ⟨a, ha⟩ := hwritten
    rw [List.foldl_cons, ih, hnext, joinedLeft, ha]
    cases joinsNext joins (opened (add s i)) is with
    | true => rw [if_pos rfl, if_pos rfl, List.tail_cons, List.reduceOption_cons_of_none]
    | false =>
      rw [if_neg Bool.false_ne_true, if_neg Bool.false_ne_true, List.head?_cons,
        List.reduceOption_cons_of_some, List.reverse_cons, List.append_assoc]
      rfl

/-- A pass that starts with nothing written writes what is left of its elements. -/
theorem Joining.foldl_start (h : Joining opens joins raw add written opened) (is : List ι) {s : σ}
    (hopened : opened s = none) (hwritten : written s = []) :
    (written (is.foldl add s)).reverse =
      (joinedLeft joins add written opened s is).reduceOption := by
  rw [h.foldl_eq is s, hopened, joinsNext_none, if_neg Bool.false_ne_true, hwritten]
  rfl

/-- What holds of every element that is written holds of what is left. -/
theorem forall_joinedLeft {P : ι → α → Prop} (inv : σ → Prop) {is : List ι} {s : σ} (hs : inv s)
    (h : ∀ i ∈ is, ∀ s, inv s → inv (add s i) ∧ ∀ a ∈ (written (add s i)).head?, P i a) :
    List.Forall₂ (fun i left => ∀ a ∈ left, P i a) is
      (joinedLeft joins add written opened s is) := by
  induction is generalizing s with
  | nil => exact .nil
  | cons i is ih =>
    obtain ⟨hnext, hleft⟩ := h i (.head _) s hs
    refine .cons ?_ (ih hnext fun j hj => h j (.tail _ hj))
    split
    · simp
    · exact hleft

end

end PartProgram

import Mathlib.Data.List.Induction
import PartProgram.Session

/-!
# PartProgram.Proofs.Sessions

Calls one after the other, where a call that fails stores nothing. The calls after it cannot tell that
it was ever made, and an invariant of the object and of the calls it has taken is one of the whole
session.

* `Leaves`: what a call leaves, put together from what its steps leave.
* `Atomic.forget`: after a call that fails everything goes on as if it had not been made.
* `taken_induction`: an invariant kept by each call that is taken holds after any calls.
-/

namespace PartProgram

namespace Session

variable {κ σ ε α β : Type} {s s' : σ} {e : ε}

/-! ## What a call leaves -/

/-- A call that fails leaves the object as it found it, and one that answers leaves it as `s'`. -/
def Leaves (call : EStateM ε σ α) (s s' : σ) : Prop :=
  (∃ e, call s = .error e s) ∨ ∃ a, call s = .ok a s'

namespace Leaves

theorem throw : Leaves (throw e : EStateM ε σ α) s s' := .inl ⟨e, rfl⟩

theorem modify (f : σ → σ) : Leaves (modify f : EStateM ε σ Unit) s (f s) := .inr ⟨(), rfl⟩

theorem get_bind {call : σ → EStateM ε σ α} (h : Leaves (call s) s s') :
    Leaves (get >>= call) s s' := h

/-- What is checked before anything is stored may fail. -/
theorem ofExcept_bind {x : Except ε α} {call : α → EStateM ε σ β}
    (h : ∀ a, x = .ok a → Leaves (call a) s s') : Leaves (ofExcept x >>= call) s s' := by
  cases x with
  | ok a => exact h a rfl
  | error e => exact .inl ⟨e, rfl⟩

theorem bind_pure {call : EStateM ε σ α} (f : α → β) (h : Leaves call s s') :
    Leaves (call >>= fun a => pure (f a)) s s' := by
  obtain ⟨e, he⟩ | ⟨a, ha⟩ := h
  · exact .inl ⟨e, by simp [bind, EStateM.bind, he]⟩
  · exact .inr ⟨f a, by simp [bind, EStateM.bind, pure, EStateM.pure, ha]⟩

theorem state_of_error {call : EStateM ε σ α} (h : Leaves call s s')
    (he : answer call s = .error e) : state call s = s := by
  obtain ⟨e', he'⟩ | ⟨a, ha⟩ := h
  · simp [state, he']
  · simp [answer, ha] at he

end Leaves

theorem answer_bind_pure (call : EStateM ε σ α) (f : α → β) :
    answer (call >>= fun a => pure (f a)) s = (answer call s).map f := by
  cases h : call s <;> simp [answer, bind, EStateM.bind, pure, EStateM.pure, Except.map, h]

theorem answer_ofExcept_bind_modify (x : Except ε α) (f : α → σ → σ) :
    answer (ofExcept x >>= fun a => modify (f a) : EStateM ε σ Unit) s = x.map fun _ => () := by
  cases x <;> rfl

variable {perform : κ → EStateM ε σ α} {c : κ}

/-- No call stores anything if it fails. -/
def Atomic (perform : κ → EStateM ε σ α) : Prop := ∀ c s, ∃ s', Leaves (perform c) s s'

/-- After a call that fails everything goes on as if it had not been made. -/
theorem Atomic.forget (h : Atomic perform) (he : answer (perform c) s = .error e)
    (later : List κ) :
    answers perform later (state (perform c) s) = answers perform later s ∧
      after perform later (state (perform c) s) = after perform later s := by
  obtain ⟨s', hleaves⟩ := h c s
  rw [hleaves.state_of_error he]
  exact ⟨rfl, rfl⟩

/-! ## One call after the other -/

@[simp] theorem after_nil : after perform [] s = s := rfl

@[simp] theorem after_cons (calls : List κ) :
    after perform (c :: calls) s = after perform calls (state (perform c) s) := rfl

theorem after_append (calls later : List κ) :
    after perform (calls ++ later) s = after perform later (after perform calls s) := by
  simp [after, List.foldl_append]

theorem answers_append (calls later : List κ) :
    answers perform (calls ++ later) s =
      answers perform calls s ++ answers perform later (after perform calls s) := by
  induction calls generalizing s with
  | nil => rfl
  | cons c calls ih => simp [answers, ih]

@[simp] theorem length_answers (calls : List κ) :
    (answers perform calls s).length = calls.length := by
  induction calls generalizing s with
  | nil => rfl
  | cons c calls ih => simp [answers, ih]

/-- The calls of a session that do not fail. -/
def taken (perform : κ → EStateM ε σ α) (calls : List κ) (s : σ) : List κ :=
  ((calls.zip (answers perform calls s)).filter fun (_, answer) => answer.toBool).map Prod.fst

theorem taken_append (calls later : List κ) :
    taken perform (calls ++ later) s =
      taken perform calls s ++ taken perform later (after perform calls s) := by
  simp [taken, answers_append, List.zip_append]

/-- One call more is not taken and leaves the object, or is taken and leaves it changed. -/
theorem Leaves.taken_cases {s' : σ} (h : Leaves (perform c) s s') :
    taken perform [c] s = [] ∧ state (perform c) s = s ∨
      taken perform [c] s = [c] ∧ state (perform c) s = s' := by
  obtain ⟨e, he⟩ | ⟨a, ha⟩ := h
  · exact .inl ⟨by simp [taken, answers, answer, he, Except.toBool], by simp [state, he]⟩
  · exact .inr ⟨by simp [taken, answers, answer, ha, Except.toBool], by simp [state, ha]⟩

/-- What holds of an object and of the calls it has taken, at first and after each call that it
takes, holds after any calls. -/
theorem taken_induction {holds : List κ → σ → Prop} {step : κ → σ → σ}
    (hleaves : ∀ c s, Leaves (perform c) s (step c s))
    (hstep : ∀ done c s, holds done s → holds (done ++ [c]) (step c s))
    (hs : holds [] s) (calls : List κ) :
    holds (taken perform calls s) (after perform calls s) := by
  induction calls using List.reverseRecOn with
  | nil => exact hs
  | append_singleton calls c ih =>
    rw [taken_append, after_append, after_cons, after_nil]
    obtain ⟨htaken, hstate⟩ | ⟨htaken, hstate⟩ := (hleaves c (after perform calls s)).taken_cases
    · rwa [htaken, hstate, List.append_nil]
    · rw [htaken, hstate]
      exact hstep _ c _ ih

end Session

end PartProgram

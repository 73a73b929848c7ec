import PartProgram.Proofs.Result
import PartProgram.Toolpath

/-!
# PartProgram.Proofs.Faults

What stops a run. Once there is a block to run, only arithmetic without a result and lengths that
cannot be stop it; that there is nothing to run is found out before.

* `passFrom_neverEmpty`: a pass never fails for want of a program.
-/

namespace PartProgram

/-- A computation that never stops because there is no program. -/
def NeverEmpty {α : Type} (x : Except Fault α) : Prop := ∀ e, x ≠ .error (.empty e)

section

variable {α β : Type}

theorem NeverEmpty.ok (a : α) : NeverEmpty (.ok a : Except Fault α) := fun _ h => by cases h

theorem NeverEmpty.pure (a : α) : NeverEmpty (pure a : Except Fault α) := fun _ h => by cases h

theorem NeverEmpty.bind {x : Except Fault α} {f : α → Except Fault β} (hx : NeverEmpty x)
    (hf : ∀ a, NeverEmpty (f a)) : NeverEmpty (x >>= f) := by
  cases x with
  | error fault =>
    intro e h
    exact hx e (congrArg Except.error (Except.error.inj h))
  | ok a => exact hf a

theorem NeverEmpty.lift (x : Except Number.Fault α) : NeverEmpty (liftM x : Except Fault α) := by
  cases x with
  | error fault =>
    intro e h
    cases h
  | ok a => exact .ok a

theorem NeverEmpty.throw {fault : Fault} (h : ∀ e, fault ≠ .empty e) :
    NeverEmpty (throw fault : Except Fault α) := fun e heq => h e (Except.error.inj heq)

end

theorem resolve_neverEmpty (settings : Settings) (m : Modal) (b : Block) :
    NeverEmpty (m.resolve settings b) := by
  have harc (before m : Modal) (direction : Direction) :
      NeverEmpty (Modal.resolveArc settings before m b direction) := by
    refine .bind ?_ fun _ => .pure _
    simp only [Arc.resolve]
    split
    · split
      · exact .pure _
      · exact .pure _
    · split
      · exact .pure _
      · split
        · exact .pure _
        · exact .bind (.lift _) fun _ => .pure _
  have hcode (before m : Modal) (code : Code) :
      NeverEmpty (Modal.resolveCode settings before m code b) := by
    simp only [Modal.resolveCode]
    split
    · exact .ok _
    split
    · exact .ok _
    split
    · exact .ok _
    split
    · exact harc _ _ _
    split
    · exact .ok _
    split
    · exact .ok _
    · exact .ok _
  simp only [Modal.resolve]
  split
  · exact hcode _ _ _
  · split
    · exact .ok _
    · split
      · exact .ok _
      · exact hcode _ _ _
      · exact .ok _

theorem emission_neverEmpty (settings : Settings) (r : Resolution) :
    NeverEmpty (r.emission settings) := by
  simp only [Resolution.emission]
  split
  · exact .ok _
  · exact .bind (.lift _) fun _ => .pure _
  · rename_i m
    simp only [Motion.emission]
    split
    · exact .ok _
    · exact .ok _
    · exact .ok _
    · refine .bind (.bind ?_ fun n => .pure _) fun _ => .pure _
      rw [Arc.segmentCount]
      split
      · exact .throw (by simp)
      · exact .bind (.lift _) fun _ => .pure _
    · refine .bind ?_ fun outcome => ?_
      · simp only [Shape.expand]
        split
        · exact .throw (by simp)
        · split
          · exact .lift _
          · exact .lift _
          · exact .lift _
          · exact .lift _
          · exact .pure _
      · split
        · exact .pure _
        · exact .pure _

theorem passFrom_neverEmpty (settings : Settings) (m : Modal) (n : Int) (ls : List String) :
    NeverEmpty (m.passFrom settings n ls) := by
  induction ls generalizing m n with
  | nil => exact .ok _
  | cons raw rest ih =>
    simp only [Modal.passFrom]
    split
    · exact ih m (n + 1)
    · exact .bind (resolve_neverEmpty settings m _) fun r =>
        .bind (emission_neverEmpty settings r) fun _ => .bind (ih r.state (n + 1)) fun _ => .pure _

end PartProgram

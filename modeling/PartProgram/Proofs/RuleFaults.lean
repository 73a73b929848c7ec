import PartProgram.Optimization
import PartProgram.Proofs.Faults
import PartProgram.Proofs.Settled

/-!
# PartProgram.Proofs.RuleFaults

What stops a rule. No rule and no count stops because there is nothing to run: a walk goes through
any lines, and the conversion takes the toolpath of an empty program for none.

* `applyRules_neverEmpty`: the rules never fail for want of a program.
-/

namespace PartProgram

open Conversational

section

variable {α β : Type} {job : Job} {ls : Lines}

instance : ∀ x : Except Fault α, Decidable (NeverEmpty x)
  | .ok a => .isTrue (.ok a)
  | .error (.empty e) => .isFalse fun h => h e rfl
  | .error (.number _) | .error (.segment ..) | .error (.unknownController _)
  | .error (.options _) | .error .places => .isTrue fun _ h => by cases h

theorem NeverEmpty.map {x : Except Fault α} (hx : NeverEmpty x) (f : α → β) :
    NeverEmpty (x.map f) := by
  cases x with
  | error fault =>
    intro e h
    exact hx e (congrArg Except.error (Except.error.inj h))
  | ok a => exact .ok _

theorem NeverEmpty.bindTold {t : Told α} {f : α → Told β} (ht : NeverEmpty t.result)
    (hf : ∀ a, NeverEmpty (f a).result) : NeverEmpty (t >>= f).result := by
  show NeverEmpty (Told.bind t f).result
  rw [Told.bind]
  cases h : t.result with
  | error fault =>
    intro e heq
    exact ht e (by rw [h]; exact congrArg Except.error (Except.error.inj heq))
  | ok a => exact hf a

theorem NeverEmpty.pureTold (a : α) : NeverEmpty (Pure.pure a : Told α).result := .ok a

theorem stopAt_neverEmpty (settings : Settings) (m : Modal) (n : Int) (raw : String) :
    NeverEmpty (m.stopAt settings n raw) := by
  rw [Modal.stopAt]
  split
  · exact .ok _
  · exact .bind (resolve_neverEmpty settings m _) fun _ => .pure _

theorem walk_neverEmpty (ls : Lines) : NeverEmpty (walk ls) := by
  have hfrom : ∀ (m : Modal) (n : Int), NeverEmpty (m.walkFrom .standard n ls) := by
    induction ls with
    | nil => exact fun m n => .ok _
    | cons raw rest ih =>
      intro m n
      refine .bind (stopAt_neverEmpty _ m n raw) fun s => ?_
      exact .bind (ih s.after (n + 1)) fun _ => .pure _
  exact hfrom .initial 1

theorem ofWalk_neverEmpty (f : List Stop → Lines) : NeverEmpty (Revised.ofWalk ls f).result :=
  (walk_neverEmpty ls).map f

theorem effectEntries_neverEmpty (t : Tooling) (b : Block) (r : Resolution) :
    NeverEmpty (effectEntries job t b r).result := by
  have hexpanded : ∀ (c : FixedCycle) (feed : Option Float) (codes : List Code),
      NeverEmpty (expandedEntries c feed codes) := by
    intro c feed codes
    exact .bind (.lift _) fun _ => .pure _
  rw [effectEntries]
  split
  · exact .pureTold _
  · rename_i c
    rw [cycleEntries]
    split
    · exact .bindTold (.ok ()) fun _ => hexpanded _ _ _
    · split
      · refine .bindTold ?_ fun _ => .pureTold _
        rw [Definition.ofCycle]
        have hrest : ∀ kind h feed pitch,
            NeverEmpty (Definition.parametersOf kind h feed pitch) := by
          intro kind h feed pitch
          cases kind with
          | backBoring =>
            have hsquares : NeverEmpty (Definition.offCentre h) :=
              .bind (.lift _) fun _ => .bind (.lift _) fun _ => .pure _
            exact .bind hsquares fun _ => .pure _
          | _ => exact .ok _
        dsimp only
        split
        · exact .bindTold (.ok ()) fun _ => .bindTold (hrest _ _ _ _) fun _ => .pureTold _
        · exact .bindTold (hrest _ _ _ _) fun _ => .pureTold _
      · exact hexpanded _ _ _
  · rename_i m
    rw [motionEntries]
    split
    · exact .pureTold _
    · exact .pureTold _
    · exact .pureTold _
    · exact .pureTold _
    · exact .bindTold (.ok ()) fun _ => .pureTold _

theorem stopEntries_neverEmpty (t : Tooling) (s : Stop) :
    NeverEmpty (stopEntries job t s).result := by
  rw [stopEntries]
  split
  · exact .pureTold _
  · refine .bindTold ?_ fun _ => .bindTold (effectEntries_neverEmpty _ _ _) fun _ => .pureTold _
    rename_i b r hfound
    show NeverEmpty (toolEntries t b r)
    rw [toolEntries]
    split
    · exact .bind (.lift _) fun _ => .pure _
    · split
      · exact .ok _
      · exact .ok _

theorem convert_neverEmpty (job : Job) (ls : Lines) : NeverEmpty (convert job ls).result := by
  have hbounds : NeverEmpty (boundsOf ls) := by
    intro e h
    rw [boundsOf] at h
    split at h
    · cases h
    · cases h
    · rename_i fault hfault _
      cases h
      exact hfault e rfl
  have hfrom : ∀ (m : Modal) (t : Tooling) (n : Int),
      NeverEmpty (convertFrom job m t n ls).result := by
    clear hbounds
    induction ls with
    | nil => exact fun m t n => .ok _
    | cons raw rest ih =>
      intro m t n
      rw [convertFrom]
      refine .bindTold ?_ fun s => ?_
      · rw [Told.result_lift]
        exact stopAt_neverEmpty _ m n raw
      refine .bindTold (stopEntries_neverEmpty t s) fun _ => ?_
      exact .bindTold (ih _ _ _) fun _ => .pureTold _
  refine .bindTold ?_ fun _ => .pureTold _
  exact .bindTold (hfrom _ _ _) fun _ => .bindTold hbounds fun _ => .pureTold _

theorem run_neverEmpty (r : StandardRule) (job : Job) (ls : Lines) :
    NeverEmpty (r.run job ls).result := by
  cases r with
  | conversationalFormat =>
    simp only [StandardRule.run, Rule.conversationalFormat]
    split
    · exact .pureTold _
    · exact convert_neverEmpty job ls
  | tcpm =>
    simp only [StandardRule.run, Rule.tcpm]
    split
    · exact .pureTold _
    · split
      · exact .pureTold _
      · exact .bindTold (.ok ()) fun _ => .pureTold _
  | removeRedundantMoves => exact ofWalk_neverEmpty _
  | removeRedundantCodes => exact ofWalk_neverEmpty _
  | optimizeRapidMoves => exact ofWalk_neverEmpty _
  | useArcOptimization => exact ofWalk_neverEmpty _
  | dropMotionCodes => exact ofWalk_neverEmpty _
  | roundCorners => exact ofWalk_neverEmpty _
  | _ => exact .pureTold _

theorem applyRules_neverEmpty (job : Job) (source : Lines) :
    NeverEmpty (Optimization.applyRules job source).result := by
  rw [Optimization.applyRules_result]
  generalize Optimization.rulesOf job (isConversational source) = rules
  generalize ({ lines := source } : Progress) = p
  induction rules generalizing p with
  | nil => exact .pureTold _
  | cons r rest ih =>
    refine .bindTold (.bindTold (run_neverEmpty r job p.lines) fun _ => .pureTold _) fun q => ?_
    exact ih q

theorem measure_neverEmpty (source output gcode : Lines) :
    NeverEmpty (Statistics.measure job source output gcode) := by
  refine .bind ?_ fun _ => .pure _
  rw [Statistics.removedWork]
  split
  · exact .ok _
  · have hcount : ∀ ls, NeverEmpty (countWork ls) := fun ls => (walk_neverEmpty ls).map _
    exact .bind (hcount _) fun _ => .bind (hcount _) fun _ => .pure _

end

end PartProgram

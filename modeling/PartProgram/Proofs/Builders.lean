import Mathlib.Data.List.DropRight
import PartProgram.Options.Builder
import PartProgram.Proofs.Result
import PartProgram.Proofs.Sessions

/-!
# PartProgram.Proofs.Builders

What a builder builds after any calls. The options are said a second time, by looking back over the
calls that were taken: the last preset, the switches named after it, the last limits, the last name.

* `perform_leaves`: a call fails and leaves the builder, or stores what it says.
* `setNamed_eq`: switches set by name one by one stand as the last change of each says.
* `follows_after`: a builder after any calls holds what a look back over them finds.
* `taken_iff`: which calls a builder takes.
* `checkFor_eq`: the options found so pass the check if the program name is one word.
* `ofPreset_eq`: every preset is accepted for every control.
* `build_follows_calls`: so a build answers them, and no call that fails makes a difference to it.
-/

namespace PartProgram

/-! ## Switches by name -/

namespace Switches

/-- Every switch of a family is found under its own name. -/
class Named (ι : Type) [DecidableEq ι] [Flag ι] : Prop where
  flag?_name : ∀ flag : ι, flag? (Flag.name flag) = some flag

instance : Named GeneralFlag := ⟨fun flag => by cases flag <;> decide⟩

instance : Named FanucFlag := ⟨fun flag => by cases flag <;> decide⟩

instance : Named HeidenhainFlag := ⟨fun flag => by cases flag <;> decide⟩

/-- A switch after changes: as the last change says that names it, or else as it stood. -/
def changed {ι : Type} [DecidableEq ι] [Flag ι] (s : Switches ι) (changes : List (String × Bool)) :
    Switches ι := fun flag =>
  ((changes.filter (·.1 == Flag.name flag)).getLast?.map Prod.snd).getD (s flag)

variable {ι : Type} [DecidableEq ι] [Flag ι] {s : Switches ι}

theorem changed_append (changes later : List (String × Bool)) :
    s.changed (changes ++ later) = (s.changed changes).changed later := by
  funext flag
  rw [changed, changed, List.filter_append, List.getLast?_append]
  cases (later.filter (·.1 == Flag.name flag)).getLast? <;> simp [changed]

theorem changed_singleton [Named ι] (name : String) (on : Bool) :
    s.changed [(name, on)] =
      match (flag? name : Option ι) with
      | some flag => s.set flag on
      | none => s := by
  funext other
  cases h : (flag? name : Option ι) with
  | none =>
    have hne : name ≠ Flag.name other := fun heq => by
      simp [heq, Named.flag?_name] at h
    simp [changed, hne]
  | some flag =>
    have hname : Flag.name flag = name := by simpa using List.find?_some h
    by_cases heq : other = flag
    · simp [changed, set, heq, hname]
    · have hne : name ≠ Flag.name other := fun hother => heq <| by
        simpa [hother, Named.flag?_name] using h
      simp [changed, set, heq, hne]

theorem setNamed_eq [Named ι] (changes : List (String × Bool)) :
    s.setNamed changes = s.changed changes := by
  induction changes generalizing s with
  | nil => rfl
  | cons change rest ih =>
    rw [← List.singleton_append, changed_append, changed_singleton, ← ih]
    rfl

theorem flag?_isSome_iff [Named ι] {name : String} :
    (flag? name : Option ι).isSome ↔ ∃ flag : ι, Flag.name flag = name := by
  constructor
  · intro h
    obtain ⟨flag, hflag⟩ := Option.isSome_iff_exists.1 h
    exact ⟨flag, by simpa using List.find?_some hflag⟩
  · rintro ⟨flag, rfl⟩
    rw [Named.flag?_name]
    rfl

/-- All changes are of switches of the family. -/
def AllKnown (ι : Type) [DecidableEq ι] [Flag ι] (changes : List (String × Bool)) : Prop :=
  ∀ change ∈ changes, ∃ flag : ι, Flag.name flag = change.1

theorem unknownNames_isEmpty_iff [Named ι] {changes : List (String × Bool)} :
    (unknownNames ι changes).isEmpty ↔ AllKnown ι changes := by
  simp only [unknownNames, List.isEmpty_iff, List.filter_eq_nil_iff, List.forall_mem_map,
    Option.isNone_iff_eq_none, AllKnown, ← flag?_isSome_iff, Option.isSome_iff_ne_none]

end Switches

namespace Builder

/-! ## What a call stores -/

/-- A builder with what a call says, if it is taken. -/
def Call.store (b : Builder) : Call → Builder
  | .preset name => ((Preset.ofName? name).map b.applyPreset).getD b
  | .general changes => { b with general := b.general.setNamed changes }
  | .fanuc changes => { b with fanuc := b.fanuc.map (·.setNamed changes) }
  | .heidenhain changes => { b with heidenhain := b.heidenhain.map (·.setNamed changes) }
  | .envelope minimum maximum =>
    { b with envelope := (Envelope.make minimum maximum).toOption.or b.envelope }
  | .programName name => { b with programName := some name }
  | .build => b

open Session (Leaves)

variable {b : Builder}

theorem preset_leaves (name : String) :
    Leaves (preset name) b ((Call.preset name).store b) := by
  rw [preset, Call.store]
  cases Preset.ofName? name with
  | none => exact .throw
  | some p => exact .modify _

theorem setDialect_leaves {ι : Type} [DecidableEq ι] [Flag ι] (dialect : Dialect)
    (block : Builder → Option (Switches ι)) (store : Builder → Switches ι → Builder)
    (changes : List (String × Bool)) {b' : Builder}
    (h : ∀ s, block b = some s → store b (s.setNamed changes) = b') :
    Leaves (setDialect dialect block store changes) b b' := by
  refine .get_bind ?_
  cases hb : block b with
  | none => exact .throw
  | some s =>
    rw [← h s hb]
    exact .ofExcept_bind fun _ _ => .modify _

theorem setEnvelope_leaves (minimum maximum : List Float) :
    Leaves (setEnvelope minimum maximum) b ((Call.envelope minimum maximum).store b) := by
  refine .ofExcept_bind fun e he => ?_
  rw [Call.store, he]
  exact .modify _

theorem build_leaves : Leaves build b b :=
  .get_bind (.ofExcept_bind fun _ _ => .inr ⟨_, rfl⟩)

/-- A call fails and leaves the builder as it was, or stores what it says. -/
theorem perform_leaves (call : Call) (b : Builder) : Leaves (perform call) b (call.store b) := by
  cases call with
  | preset name => exact (preset_leaves name).bind_pure _
  | general changes =>
    have hset : Leaves (setGeneral changes) b ((Call.general changes).store b) :=
      .ofExcept_bind fun _ _ => .modify _
    exact hset.bind_pure _
  | fanuc changes =>
    have hset : Leaves (setFanuc changes) b ((Call.fanuc changes).store b) :=
      setDialect_leaves _ _ _ _ fun s hs => by rw [Call.store, hs]; rfl
    exact hset.bind_pure _
  | heidenhain changes =>
    have hset : Leaves (setHeidenhain changes) b ((Call.heidenhain changes).store b) :=
      setDialect_leaves _ _ _ _ fun s hs => by rw [Call.store, hs]; rfl
    exact hset.bind_pure _
  | envelope minimum maximum => exact (setEnvelope_leaves minimum maximum).bind_pure _
  | programName name => exact Leaves.bind_pure _ (.modify _)
  | build => exact build_leaves.bind_pure _

theorem atomic_perform : Session.Atomic perform := fun call b => ⟨_, perform_leaves call b⟩

/-! ## Looking back over the calls -/

namespace Call

def preset? : Call → Option Preset
  | .preset name => Preset.ofName? name
  | _ => none

def envelope? : Call → Option Envelope
  | .envelope minimum maximum => (Envelope.make minimum maximum).toOption
  | _ => none

def programName? : Call → Option String
  | .programName name => some name
  | _ => none

/-- The switches that a call names, of every control or of a dialect. -/
def changes (dialect : Option Dialect) : Call → List (String × Bool)
  | .general changes => if dialect = none then changes else []
  | .fanuc changes => if dialect = some .fanuc then changes else []
  | .heidenhain changes => if dialect = some .heidenhain then changes else []
  | _ => []

end Call

/-- What was said last. -/
def last {α : Type} (said? : Call → Option α) (done : List Call) : Option α :=
  (done.filterMap said?).getLast?

/-- The calls after the last preset. -/
def sincePreset (done : List Call) : List Call := done.rtakeWhile (·.preset?.isNone)

/-- The switches of a family: of the last preset, or else as they stand unless something is said, with
the changes made after that preset. -/
def switches {ι : Type} [DecidableEq ι] [Flag ι] (dialect : Option Dialect)
    (ofPreset : Preset → Switches ι) (done : List Call) : Switches ι :=
  (((last Call.preset? done).map ofPreset).getD .standard).changed
    ((sincePreset done).flatMap (Call.changes dialect))

/-- The options that the calls ask for. -/
def optionsOf (c : Controller) (done : List Call) : Options where
  general := switches none Preset.general done
  fanuc := if c = .fanuc then some (switches (some .fanuc) Preset.fanuc done) else none
  heidenhain :=
    if c = .heidenhain then some (switches (some .heidenhain) Preset.heidenhain done) else none
  envelope := last Call.envelope? done
  programName := (last Call.programName? done).getD "WORKPIECE"

section Last

variable {α : Type} {said? : Call → Option α} {done : List Call} {call : Call}

theorem last_concat : last said? (done ++ [call]) = (said? call).or (last said? done) := by
  cases h : said? call <;> simp [last, List.filterMap_append, h]

variable {ι : Type} [DecidableEq ι] [Flag ι] {dialect : Option Dialect}
  {ofPreset : Preset → Switches ι}

theorem switches_preset {p : Preset} (h : call.preset? = some p) :
    switches dialect ofPreset (done ++ [call]) = ofPreset p := by
  rw [switches, last_concat, sincePreset, List.rtakeWhile_concat_neg _ _ _ (by simp [h]), h]
  rfl

theorem switches_changes [Switches.Named ι] (h : call.preset? = none) :
    switches dialect ofPreset (done ++ [call]) =
      (switches dialect ofPreset done).setNamed (call.changes dialect) := by
  rw [Switches.setNamed_eq, switches, last_concat, sincePreset,
    List.rtakeWhile_concat_pos _ _ _ (by simp [h]), h, List.flatMap_append, List.flatMap_singleton,
    Switches.changed_append]
  rfl

end Last

/-! ## What a builder holds -/

/-- A builder for a control holds what a look back over the calls that it has taken finds. -/
structure Follows (c : Controller) (done : List Call) (b : Builder) : Prop where
  controller : b.controller = c
  general : b.general = switches none Preset.general done
  fanuc :
    b.fanuc = if c = .fanuc then some (switches (some .fanuc) Preset.fanuc done) else none
  heidenhain :
    b.heidenhain =
      if c = .heidenhain then some (switches (some .heidenhain) Preset.heidenhain done) else none
  envelope : b.envelope = last Call.envelope? done
  programName : b.programName = last Call.programName? done

theorem Call.store_preset {call : Call} {p : Preset} (h : call.preset? = some p) :
    call.store b = b.applyPreset p ∧ call.envelope? = none ∧ call.programName? = none := by
  cases call with
  | preset name => exact ⟨by rw [store, show Preset.ofName? name = some p from h]; rfl, rfl, rfl⟩
  | _ => cases h

theorem Call.store_changes {call : Call} (h : call.preset? = none) :
    call.store b =
      { controller := b.controller
        general := b.general.setNamed (call.changes none)
        fanuc := b.fanuc.map (·.setNamed (call.changes (some .fanuc)))
        heidenhain := b.heidenhain.map (·.setNamed (call.changes (some .heidenhain)))
        envelope := call.envelope?.or b.envelope
        programName := call.programName?.or b.programName } := by
  cases call with
  | preset name =>
    rw [store, show Preset.ofName? name = none from h]
    simp [changes, envelope?, programName?, Switches.setNamed]
  | _ => simp [store, changes, envelope?, programName?, Switches.setNamed]

theorem Follows.store {c : Controller} {done : List Call} (h : Follows c done b) (call : Call) :
    Follows c (done ++ [call]) (call.store b) := by
  cases hp : call.preset? with
  | some p =>
    obtain ⟨hstore, henvelope, hname⟩ := Call.store_preset (b := b) hp
    rw [hstore]
    constructor
    · exact h.controller
    · rw [switches_preset hp]
      rfl
    · rw [switches_preset hp, applyPreset, h.fanuc]
      split <;> rfl
    · rw [switches_preset hp, applyPreset, h.heidenhain]
      split <;> rfl
    · rw [last_concat, henvelope]
      exact h.envelope
    · rw [last_concat, hname]
      exact h.programName
  | none =>
    rw [Call.store_changes hp]
    constructor
    · exact h.controller
    · rw [switches_changes hp, h.general]
    · rw [switches_changes hp, h.fanuc]
      split <;> rfl
    · rw [switches_changes hp, h.heidenhain]
      split <;> rfl
    · rw [last_concat, h.envelope]
    · rw [last_concat, h.programName]

theorem follows_new (c : Controller) : Follows c [] (new c) := ⟨rfl, rfl, rfl, rfl, rfl, rfl⟩

theorem follows_after (c : Controller) (calls : List Call) :
    Follows c (Session.taken perform calls (new c)) (Session.after perform calls (new c)) :=
  Session.taken_induction (fun call b => perform_leaves call b)
    (fun _ call _ h => h.store call) (follows_new c) calls

theorem Follows.options {c : Controller} {done : List Call} (h : Follows c done b) :
    b.options = optionsOf c done := by
  rw [Builder.options, h.general, h.fanuc, h.heidenhain, h.envelope, h.programName]
  rfl

/-! ## Which calls are taken -/

open Switches (AllKnown Named)

/-- Whether a call that does not build is taken by a builder for a control. -/
def Call.Fits (c : Controller) : Call → Prop
  | .preset name => ∃ p : Preset, p.name = name
  | .general changes => AllKnown GeneralFlag changes
  | .fanuc changes => c = .fanuc ∧ AllKnown FanucFlag changes
  | .heidenhain changes => c = .heidenhain ∧ AllKnown HeidenhainFlag changes
  | .envelope minimum maximum => ∀ limits ∈ minimum.zip maximum, ¬ limits.2 ≤ limits.1
  | .programName _ => True
  | .build => False

theorem checkNames_eq_ok_iff {ι : Type} [DecidableEq ι] [Flag ι] [Named ι]
    (dialect : Option Dialect) {changes : List (String × Bool)} :
    checkNames ι dialect changes = .ok () ↔ AllKnown ι changes := by
  rw [← Switches.unknownNames_isEmpty_iff, checkNames]
  cases (Switches.unknownNames ι changes).isEmpty <;> simp

theorem answer_preset_eq_ok_iff {name : String} :
    Session.answer (preset name) b = .ok () ↔ ∃ p : Preset, p.name = name := by
  rw [preset]
  cases hp : Preset.ofName? name with
  | none =>
    refine iff_of_false (fun h => by cases h) ?_
    rintro ⟨p, hname⟩
    have hmiss := List.find?_eq_none.1 hp p (by cases p <;> decide)
    simp [hname] at hmiss
  | some p =>
    have hname : p.name = name := by simpa using List.find?_some hp
    exact iff_of_true rfl ⟨p, hname⟩

theorem answer_setDialect {ι : Type} [DecidableEq ι] [Flag ι] (dialect : Dialect)
    (block : Builder → Option (Switches ι)) (store : Builder → Switches ι → Builder)
    (changes : List (String × Bool)) :
    Session.answer (setDialect dialect block store changes) b =
      match block b with
      | none => .error (.options (.dialectRefused dialect b.controller))
      | some _ => checkNames ι (some dialect) changes := by
  have hrun : setDialect dialect block store changes b =
      (match block b with
        | none => throw (.options (.dialectRefused dialect b.controller))
        | some s => do
          ofExcept (checkNames ι (some dialect) changes)
          modify fun b => store b (s.setNamed changes) : Step Unit) b := rfl
  rw [Session.answer, hrun]
  cases block b with
  | none => rfl
  | some s => cases checkNames ι (some dialect) changes <;> rfl

theorem answer_bind_none {call : Step Unit} :
    Session.answer (call >>= fun _ => pure (none : Option Options)) b = .ok none ↔
      Session.answer call b = .ok () := by
  rw [Session.answer_bind_pure]
  cases Session.answer call b <;> simp [Except.map]

variable {c : Controller} {done : List Call}

theorem Follows.taken_iff (h : Follows c done b) (call : Call) :
    Session.answer (perform call) b = .ok none ↔ call.Fits c := by
  cases call with
  | preset name =>
    rw [perform, answer_bind_none, answer_preset_eq_ok_iff]
    rfl
  | general changes =>
    rw [perform, answer_bind_none, setGeneral, Session.answer_ofExcept_bind_modify, Call.Fits,
      ← checkNames_eq_ok_iff none]
    cases checkNames GeneralFlag none changes <;> simp [Except.map]
  | fanuc changes =>
    rw [perform, answer_bind_none, setFanuc, answer_setDialect, h.fanuc, Call.Fits]
    by_cases hc : c = .fanuc <;> simp [hc, checkNames_eq_ok_iff]
  | heidenhain changes =>
    rw [perform, answer_bind_none, setHeidenhain, answer_setDialect, h.heidenhain, Call.Fits]
    by_cases hc : c = .heidenhain <;> simp [hc, checkNames_eq_ok_iff]
  | envelope minimum maximum =>
    rw [perform, answer_bind_none, setEnvelope, Session.answer_ofExcept_bind_modify, Call.Fits,
      Envelope.make]
    split
    next hapart => simpa [Except.map] using hapart
    next hapart => simpa [Except.map] using hapart
  | programName name =>
    rw [perform, answer_bind_none]
    exact iff_of_true rfl trivial
  | build =>
    rw [perform, Session.answer_bind_pure]
    cases Session.answer build b <;> simp [Except.map, Call.Fits]

/-! ## Building -/

/-- What a build answers: the options that the calls ask for, if they name the program by one
word. -/
def built (c : Controller) (done : List Call) : Except Fault Options :=
  let o := optionsOf c done
  if o.name.isEmpty || o.name.contains ' ' then .error (.options (.programName o.programName))
  else .ok o

theorem checkFor_eq :
    (optionsOf c done).checkFor c = (built c done).map fun _ => () := by
  have hfanuc : ((optionsOf c done).fanuc.isSome && c != .fanuc) = false := by
    cases c <;> rfl
  have hheidenhain : ((optionsOf c done).heidenhain.isSome && c != .heidenhain) = false := by
    cases c <;> rfl
  simp only [Options.checkFor, hfanuc, hheidenhain, Bool.false_eq_true, if_false, built]
  split <;> rfl

theorem built_eq_ok {o : Options} (h : built c done = .ok o) :
    o = optionsOf c done ∧ o.checkFor c = .ok () := by
  obtain rfl : o = optionsOf c done := by
    rw [built] at h
    split at h
    · cases h
    · exact (Except.ok.inj h).symm
  exact ⟨rfl, by rw [checkFor_eq, h]; rfl⟩

/-- Options with a block of a dialect are turned away by every other control. -/
theorem checkFor_other {c' : Controller} (h : c' ≠ c) :
    ((optionsOf c done).fanuc.isSome →
      (optionsOf c done).checkFor c' = .error (.options (.dialectSet .fanuc c'))) ∧
    ((optionsOf c done).heidenhain.isSome →
      (optionsOf c done).checkFor c' = .error (.options (.dialectSet .heidenhain c'))) := by
  constructor
  · intro hblock
    obtain rfl : c = .fanuc := by
      by_contra hc
      simp [optionsOf, hc] at hblock
    simp [Options.checkFor, hblock, h]
  · intro hblock
    obtain rfl : c = .heidenhain := by
      by_contra hc
      simp [optionsOf, hc] at hblock
    have hnone : (optionsOf .heidenhain done).fanuc = none := rfl
    simp [Options.checkFor, hblock, hnone, h]

theorem answer_build :
    Session.answer build b = (b.options.checkFor b.controller).map fun _ => b.options := by
  have hrun : build b =
      (do ofExcept (b.options.checkFor b.controller); return b.options : Step Options) b := rfl
  rw [Session.answer, hrun]
  cases b.options.checkFor b.controller <;> rfl

theorem Follows.answer_build (h : Follows c done b) :
    Session.answer (perform .build) b = (built c done).map some := by
  rw [perform, Session.answer_bind_pure, Builder.answer_build, h.options, h.controller, checkFor_eq]
  cases hb : built c done with
  | error f => rfl
  | ok o =>
    rw [(built_eq_ok hb).1]
    rfl

/-- The name that a program has if none is given is one word. -/
theorem built_of_unnamed (h : last Call.programName? done = none) :
    built c done = .ok (optionsOf c done) := by
  have hname : (optionsOf c done).name = Text.trim "WORKPIECE".toList := by
    rw [Options.name, optionsOf, h]
    rfl
  rw [built, if_neg]
  rw [hname]
  decide

theorem standardFor_eq (c : Controller) : Options.standardFor c = .ok (optionsOf c []) := by
  have hnew := follows_new c
  rw [Options.standardFor, answer_build, hnew.options, hnew.controller, checkFor_eq,
    built_of_unnamed rfl]
  rfl

/-- Every preset is accepted for every control. -/
theorem ofPreset_eq (p : Preset) (c : Controller) :
    Options.ofPreset p.name c = .ok (optionsOf c [.preset p.name]) := by
  have hpreset : Preset.ofName? p.name = some p := by cases p <;> decide
  have hrun : Options.ofPreset p.name c = Session.answer build ((new c).applyPreset p) := by
    rw [Options.ofPreset, preset, hpreset]
    rfl
  have hfollows : Follows c [.preset p.name] ((new c).applyPreset p) := by
    simpa [Call.store, hpreset] using (follows_new c).store (.preset p.name)
  rw [hrun, answer_build, hfollows.options, hfollows.controller, checkFor_eq, built_of_unnamed rfl]
  rfl

/-- After any calls on a new builder it takes the calls that fit its control. A build answers the
options that the calls it has taken ask for, which pass the check of their own control and, with a
block of a dialect, of no other. A call that fails makes no difference to any later answer nor to
the builder. -/
theorem build_follows_calls (c : Controller) (calls : List Call) :
    let b := Session.after perform calls (new c)
    let done := Session.taken perform calls (new c)
    (∀ call, Session.answer (perform call) b = .ok none ↔ call.Fits c) ∧
    Session.answer (perform .build) b = (built c done).map some ∧
    (∀ o, Session.answer (perform .build) b = .ok (some o) →
      o = optionsOf c done ∧ o.checkFor c = .ok () ∧
      ∀ c', c' ≠ c →
        (o.fanuc.isSome → o.checkFor c' = .error (.options (.dialectSet .fanuc c'))) ∧
        (o.heidenhain.isSome → o.checkFor c' = .error (.options (.dialectSet .heidenhain c')))) ∧
    ∀ call f later, Session.answer (perform call) b = .error f →
      Session.answers perform later (Session.state (perform call) b) =
        Session.answers perform later b ∧
      Session.after perform (calls ++ call :: later) (new c) =
        Session.after perform (calls ++ later) (new c) := by
  intro b done
  have hfollows : Follows c done b := follows_after c calls
  refine ⟨hfollows.taken_iff, hfollows.answer_build, fun o ho => ?_, fun call f later hf => ?_⟩
  · have hbuilt : built c done = .ok o := by
      rw [hfollows.answer_build] at ho
      obtain ⟨o', ho', heq⟩ := map_eq_ok.1 ho
      rwa [Option.some.inj heq] at ho'
    obtain ⟨rfl, hcheck⟩ := built_eq_ok hbuilt
    exact ⟨rfl, hcheck, fun c' hc' => checkFor_other hc'⟩
  · rw [Session.after_append, Session.after_cons, Session.after_append]
    exact atomic_perform.forget hf later

/-- Calls that fail between others that are taken: a preset and a switch that nobody knows, and a
dialect that is not spoken. -/
theorem build_follows_calls_speed :
    let calls : List Call :=
      [.programName "PART1", .general [("remove_empty_lines", false)], .preset "speed",
        .preset "turbo", .fanuc [("use_ai", false), ("use_modal_g_codes", false), ("use_ai", true)],
        .heidenhain [("use_tcp", true)], .general [("remove_comments", false)]]
    let b := Session.after perform calls (new .fanuc)
    let call : Call := .general [("safety_checks", false), ("bogus", true)]
    ∃ o f, Session.answer (perform .build) b = .ok (some o) ∧
      Session.answer (perform call) b = .error f ∧
      Session.answers perform [.build] (Session.state (perform call) b) =
        Session.answers perform [.build] b ∧
      o.programName = "PART1" ∧ o.general .removeEmptyLines = true ∧
      o.general .useHighSpeedMode = true ∧ o.general .removeComments = false ∧
      (o.fanuc.map fun s => (s .useAi, s .useModalCodes)) = some (true, false) ∧
      o.checkFor .fanuc = .ok () ∧
      o.checkFor .haas = .error (.options (.dialectSet .fanuc .haas)) := by
  intro calls b call
  obtain ⟨-, hbuild, hown, hforget⟩ := build_follows_calls .fanuc calls
  have hbuilt : Session.answer (perform .build) b =
      .ok (some (optionsOf .fanuc (Session.taken perform calls (new .fanuc)))) := by
    rw [hbuild, built, if_neg (by decide +kernel)]
    rfl
  have hfails : Session.answer (perform call) b =
      .error (.options (.unknownFlags none ["bogus"])) := rfl
  obtain ⟨-, hcheck, hother⟩ := hown _ hbuilt
  exact ⟨_, _, hbuilt, hfails, (hforget _ _ [.build] hfails).1, by decide +kernel,
    by decide +kernel, by decide +kernel, by decide +kernel, by decide +kernel, hcheck,
    (hother .haas (by decide)).1 rfl⟩

end Builder

end PartProgram

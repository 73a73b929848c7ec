import PartProgram.Optimization
import PartProgram.Proofs.Conversational
import PartProgram.Proofs.Faults
import PartProgram.Proofs.Idle
import PartProgram.Proofs.Lines
import PartProgram.Proofs.Spelling

/-!
# PartProgram.Proofs.Settled

When an optimization has nothing to do. A rule is idle where it finds nothing of what it looks for;
a program is settled for a job when every rule that has its turn is idle in it. To optimize a
program gives the program back, with nothing to report, exactly when it is settled, and the outcome
of an optimization need not be.

* `StandardRule.run_eq_self_iff`: a rule returns its lines unchanged exactly when it is idle.
* `optimize_quiet_iff`: an optimization is quiet exactly on settled programs.
-/

namespace PartProgram

open Text Conversational

/-! ## Rules -/

namespace StandardRule

/-- A rule finds nothing of what it looks for. -/
def Idle (job : Job) (ls : Lines) : StandardRule → Prop
  | removeEmptyLines => ∀ l ∈ ls, allBlank l.toList = false
  | removeComments => ∀ l ∈ ls, (CommentedLine.ofChars l.toList).tail = []
  | removeRedundantMoves => Along ls fun stops => ∀ s ∈ stops, Rule.isRedundantMove s = false
  | removeRedundantCodes => Along ls (Rule.RestatesNothing {})
  | optimizeRapidMoves =>
    Along ls fun stops => stops.IsChain fun s t => (Rule.rapidEnds? s).any (Rule.goesOn · t) = false
  | consolidateCodes =>
    (readLines 1 ls).IsChain fun a b => (Rule.modalOnly? a.2).any (Rule.goesWith · b) = false
  | optimizeFeedrates =>
    Rule.FeedsInRange job.profile (job.flag .removeRedundantCodes) {} (readLines 1 ls)
  | useArcOptimization => Along ls (Rule.HasNoChain CircleFit.fit)
  | dropMotionCodes =>
    Along ls fun stops => ∀ s ∈ stops, ∀ b, s.block? = some b →
      Rule.restatedMotion? s.before b = none
  | useHighSpeedMode => Rule.saysSmoothing ls = true
  | roundCorners => Along ls Rule.HasNoCorner
  | compactCode => ∀ l ∈ ls, Rule.IsCompact l
  | decimalFormat => ∀ l ∈ ls, Rule.HasPoints l
  | conversationalFormat => isConversational ls = true
  | functionBlocks =>
    isConversational ls = true → NoneRepeated none (Part.ofLines (dropNumbers ls))
  | tcpm =>
    isConversational ls = true → Rule.HasRoomForTcpm (dropNumbers ls) →
      (dropNumbers ls).any (Rule.beginsWith "FUNCTION TCPM") = true

/-- A rule returns its lines unchanged exactly when it is idle. -/
theorem run_eq_self_iff (r : StandardRule) {job : Job} {ls : Lines} :
    (r.run job ls).result = .ok ls ↔ r.Idle job ls := by
  cases r with
  | removeEmptyLines =>
    simp [run, Idle, Told.result_pure_eq_ok, Rule.removeEmptyLines, List.filter_eq_self]
  | removeComments => exact Told.result_pure_eq_ok.trans Rule.removeComments_eq_self_iff
  | removeRedundantMoves => exact Rule.removeRedundantMoves_eq_self_iff
  | removeRedundantCodes => exact Rule.removeRedundantCodes_eq_self_iff
  | optimizeRapidMoves => exact Rule.optimizeRapidMoves_eq_self_iff
  | consolidateCodes => exact Told.result_pure_eq_ok.trans Rule.consolidateCodes_eq_self_iff
  | optimizeFeedrates => exact Told.result_pure_eq_ok.trans Rule.optimizeFeedrates_eq_self_iff
  | useArcOptimization => exact Rule.useArcOptimization_eq_self_iff
  | dropMotionCodes => exact Rule.dropMotionCodes_eq_self_iff
  | useHighSpeedMode => exact Told.result_pure_eq_ok.trans Rule.useHighSpeedMode_eq_self_iff
  | roundCorners => exact Rule.roundCorners_eq_self_iff
  | compactCode => exact Told.result_pure_eq_ok.trans Rule.compactCode_eq_self_iff
  | decimalFormat => exact Told.result_pure_eq_ok.trans Rule.decimalFormat_eq_self_iff
  | conversationalFormat => exact Rule.conversationalFormat_eq_self_iff
  | functionBlocks => exact Told.result_pure_eq_ok.trans Rule.functionBlocks_eq_self_iff
  | tcpm => exact Rule.tcpm_eq_self_iff

end StandardRule

/-! ## Steps -/

namespace Optimization

variable {job : Job}

/-- One step from progress to progress. -/
theorem step_eq_ok {p p' : Progress} {r : StandardRule} (h : (step job p r).result = .ok p') :
    (r.run job p.lines).result = .ok p'.lines ∧
      p'.improvements =
        if p'.lines = p.lines then p.improvements else p.improvements ++ [r.improvement] := by
  rw [step, Told.result_bind_eq_ok] at h
  obtain ⟨lines, hrun, h⟩ := h
  rw [Told.result_pure_eq_ok] at h
  subst h
  exact ⟨hrun, rfl⟩

theorem steps_improvements {rules : List StandardRule} {p p' : Progress}
    (h : (steps job rules p).result = .ok p') :
    p.improvements.length ≤ p'.improvements.length := by
  induction rules generalizing p with
  | nil =>
    rw [steps, Told.result_pure_eq_ok] at h
    rw [h]
  | cons r rest ih =>
    rw [steps, Told.result_bind_eq_ok] at h
    obtain ⟨q, hq, h⟩ := h
    refine Nat.le_trans ?_ (ih h)
    rw [(step_eq_ok hq).2]
    split
    · exact Nat.le_refl _
    · simp

/-- Rules that leave the lines alone one by one leave them alone in a row. -/
theorem steps_of_idle {rules : List StandardRule} {p : Progress}
    (h : ∀ r ∈ rules, (r.run job p.lines).result = .ok p.lines) :
    ∃ p', (steps job rules p).result = .ok p' ∧ p'.lines = p.lines ∧
      p'.improvements = p.improvements := by
  induction rules generalizing p with
  | nil => exact ⟨p, Told.result_pure_eq_ok.2 rfl, rfl, rfl⟩
  | cons r rest ih =>
    have hrun := h r (.head _)
    obtain ⟨q, hq, hlines, himprovements⟩ : ∃ q, (step job p r).result = .ok q ∧
        q.lines = p.lines ∧ q.improvements = p.improvements := by
      refine ⟨_, Told.result_bind_eq_ok.2 ⟨p.lines, hrun, Told.result_pure_eq_ok.2 rfl⟩, rfl, ?_⟩
      simp
    obtain ⟨p', hp', hlines', himprovements'⟩ := ih (p := q) fun r hr => by
      rw [hlines]
      exact h r (.tail _ hr)
    refine ⟨p', ?_, hlines'.trans hlines, himprovements'.trans himprovements⟩
    rw [steps, Told.result_bind_eq_ok]
    exact ⟨q, hq, hp'⟩

/-- Where nothing is reported, every rule has left the lines alone. -/
theorem idle_of_steps {rules : List StandardRule} {p p' : Progress}
    (h : (steps job rules p).result = .ok p') (hquiet : p'.improvements = p.improvements) :
    p'.lines = p.lines ∧ ∀ r ∈ rules, (r.run job p.lines).result = .ok p.lines := by
  induction rules generalizing p with
  | nil =>
    rw [steps, Told.result_pure_eq_ok] at h
    simp [h]
  | cons r rest ih =>
    rw [steps, Told.result_bind_eq_ok] at h
    obtain ⟨q, hq, h⟩ := h
    obtain ⟨hrun, himprovements⟩ := step_eq_ok hq
    have hsame : q.lines = p.lines := by
      by_cases hsame : q.lines = p.lines
      · exact hsame
      · rw [if_neg hsame] at himprovements
        have hgrown := steps_improvements h
        rw [hquiet, himprovements, List.length_append, List.length_singleton] at hgrown
        omega
    rw [if_pos hsame] at himprovements
    obtain ⟨hlines, hidle⟩ := ih h (hquiet.trans himprovements.symm)
    rw [hsame] at hrun hlines hidle
    refine ⟨hlines, fun r' hr' => ?_⟩
    cases hr' with
    | head => exact hrun
    | tail _ hr' => exact hidle r' hr'

theorem applyRules_result (job : Job) (source : Lines) :
    (applyRules job source).result =
      (steps job (rulesOf job (isConversational source)) { lines := source }).result := by
  rw [applyRules]
  split
  · show (Told.bind _ _).result = _
    simp [Told.bind, Told.say]
  · rfl

/-- What rules that may have their turn come to, one after the other. -/
def Ran (job : Job) (turn : StandardRule → Bool) : List StandardRule → Lines → Lines → Prop
  | [], ls, ls' => ls' = ls
  | r :: rest, ls, ls' =>
    ∃ mid, (if turn r then (r.run job ls).result = .ok mid else mid = ls) ∧
      Ran job turn rest mid ls'

theorem ran_of_steps {turn : StandardRule → Bool} {rules : List StandardRule} {p p' : Progress}
    (h : (steps job (rules.filter turn) p).result = .ok p') :
    Ran job turn rules p.lines p'.lines := by
  induction rules generalizing p with
  | nil =>
    rw [List.filter_nil, steps, Told.result_pure_eq_ok] at h
    rw [h]
    rfl
  | cons r rest ih =>
    cases hturn : turn r with
    | true =>
      rw [List.filter_cons_of_pos hturn, steps, Told.result_bind_eq_ok] at h
      obtain ⟨q, hq, h⟩ := h
      exact ⟨q.lines, by rw [if_pos hturn]; exact (step_eq_ok hq).1, ih h⟩
    | false =>
      rw [List.filter_cons_of_neg (by simp [hturn])] at h
      exact ⟨p.lines, by rw [hturn]; simp, ih h⟩

theorem ran_append {turn : StandardRule → Bool} {rules rest : List StandardRule} {ls ls' : Lines}
    (h : Ran job turn (rules ++ rest) ls ls') :
    ∃ mid, Ran job turn rules ls mid ∧ Ran job turn rest mid ls' := by
  induction rules generalizing ls with
  | nil => exact ⟨ls, rfl, h⟩
  | cons r rules ih =>
    obtain ⟨next, hnext, h⟩ := h
    obtain ⟨mid, hmid, hrest⟩ := ih h
    exact ⟨mid, ⟨next, hnext, hmid⟩, hrest⟩

/-- The rules for every control, in the order they run. -/
def neutralRules : List StandardRule :=
  [.removeEmptyLines, .removeComments, .removeRedundantMoves, .removeRedundantCodes,
    .optimizeRapidMoves, .consolidateCodes, .optimizeFeedrates, .useArcOptimization]

/-- The rules for one control that reads blocks, in the order they run. -/
def blockRules : List StandardRule :=
  [.dropMotionCodes, .useHighSpeedMode, .roundCorners, .compactCode, .decimalFormat]

/-- The rules on a program of blocks, for a control that reads blocks. -/
theorem rulesOf_blocks (job : Job) (h : job.controller ≠ .heidenhain) :
    ∃ turn, rulesOf job false = (neutralRules ++ blockRules).filter turn ∧
      ∀ r, r.dialect? = none → turn r = r.isEnabled job := by
  have hrules : ∀ c : Controller, c ≠ .heidenhain →
      (Registry.standard.rulesFor c).map Registration.rule =
        (neutralRules ++ blockRules).filter fun r =>
          r.controllers.isEmpty || r.controllers.contains c := by
    intro c hc
    cases c <;> first | exact absurd rfl hc | decide
  refine ⟨fun r => hasTurn job false r && (r.controllers.isEmpty ||
    r.controllers.contains job.controller), ?_, fun r hr => ?_⟩
  · rw [rulesOf, hrules _ h, List.filter_filter]
  · simp [hasTurn, StandardRule.controllers, hr]

end Optimization

/-! ## Statistics -/

open Float.Model in
/-- A double by itself is one, unless it is not a number. -/
theorem unpacked_div_self (a : UnpackedFloat) :
    UnpackedFloat.div .binary64 a a = .notANumber ∨
      UnpackedFloat.div .binary64 a a = .finite .positive (2 ^ 52) (-52) (by decide) := by
  cases a with
  | notANumber => exact .inl rfl
  | infinity s => exact .inl rfl
  | zero s => exact .inl rfl
  | finite s m e h =>
    right
    have htarget : min 0 (Format.binary64.targetExponent 0) = -53 := by decide
    have hshift : ((0 : Int) - -53).toNat = 53 := by decide
    have hquotient : m <<< 53 / m = 2 ^ 53 := by
      rw [Nat.shiftLeft_eq, Nat.mul_div_cancel_left _ h]
    have hrest : m <<< 53 % m = 0 := by rw [Nat.shiftLeft_eq, Nat.mul_mod_right]
    have hsign : s / s = .positive := by cases s <;> rfl
    have hcore : UnpackedFloat.divCore .binary64 m e m e = (2 ^ 53, -53, .exact) := by
      simp only [UnpackedFloat.divCore, Int.sub_self, htarget, hshift, hquotient, hrest,
        UnpackedFloat.accuracyOfFraction, if_true]
    show UnpackedFloat.roundWithAccuracy .binary64 (s / s)
      (UnpackedFloat.divCore .binary64 m e m e).1 (UnpackedFloat.divCore .binary64 m e m e).2.1
      (UnpackedFloat.divCore .binary64 m e m e).2.2 = _
    rw [hcore, hsign]
    rfl

theorem div_self_cases (x : Float) : x / x = 1.0 ∨ x / x = Number.notANumber := by
  have hdiv : x / x =
      .ofModel (.pack (.div .binary64 x.toModel.unpack x.toModel.unpack)) := rfl
  rcases unpacked_div_self x.toModel.unpack with h | h
  · right
    rw [hdiv, h]
    decide
  · left
    rw [hdiv, h]
    decide

/-- Of as many lines as there were, none is gone. -/
theorem Statistics.reduction_self (n : Nat) :
    Number.roundPlaces 2 (Statistics.reductionOf n n) = 0.0 := by
  rw [reductionOf]
  split
  · decide +kernel
  · rcases div_self_cases (Number.ofNat n) with h | h
    · rw [h]
      decide +kernel
    · rw [h]
      decide +kernel

/-! ## Settled programs -/

/-- A program text that an optimization gives back: its lines are parted by single feeds, there is a
block among them, every rule that has its turn is idle, and the machine can follow them. -/
structure Settled (job : Job) (text : String) : Prop where
  lines : joinLines (lines text) = text
  blocks : Block.readLinesFrom 1 (Text.lines text) ≠ []
  idle : ∀ r ∈ Optimization.rulesOf job (isConversational (Text.lines text)),
    r.Idle job (Text.lines text)
  walk : isConversational (Text.lines text) = false →
    ∃ stops, PartProgram.walk (Text.lines text) = .ok stops
  pass : isConversational (Text.lines text) = false → job.flag .safetyChecks = true →
    ∃ ps, Modal.initial.passFrom .standard 1 (Text.lines text) = .ok ps

theorem noLineEnd_of_mem_linesAfter (line cs : List Char) (hline : ∀ c ∈ line, isLineEnd c = false) :
    ∀ l ∈ linesAfter line cs, ∀ c ∈ l, isLineEnd c = false := by
  fun_induction linesAfter line cs with
  | case1 line hempty => simp
  | case2 line hempty => simpa using hline
  | case3 line rest ih =>
    have hrest := ih (by simp)
    simpa using And.intro hline hrest
  | case4 line c rest hc hend ih =>
    have hrest := ih (by simp)
    simpa using And.intro hline hrest
  | case5 line c rest hc hend ih =>
    refine ih ?_
    simpa using And.intro hend hline

theorem noLineEnd_of_mem_lines {text l : String} (h : l ∈ lines text) : NoLineEnd l := by
  simp only [lines, List.mem_map] at h
  obtain ⟨cs, hcs, rfl⟩ := h
  intro c hc
  rw [String.toList_ofList] at hc
  exact noLineEnd_of_mem_linesAfter [] _ (by simp) cs hcs c hc

theorem optimize_eq_ok {text : String} {c : Controller} {o : Options} {r : Optimization} :
    optimize text (.ok c) (some o) = .ok r ↔
      Toolpath.isBlankText text = false ∧ o.checkFor c = .ok () ∧
        Block.readLinesFrom 1 (lines text) ≠ [] ∧
          Optimization.ofLines ⟨c, o⟩ (lines text) = .ok r := by
  rw [optimize]
  cases hblank : Toolpath.isBlankText text with
  | true => simp [throw, throwThe, MonadExceptOf.throw, bind, Except.bind]
  | false =>
    cases hcheck : o.checkFor c with
    | error f => simp [hcheck, bind, Except.bind, pure, Except.pure]
    | ok u =>
      by_cases hblocks : Block.readLinesFrom 1 (lines text) = []
      · simp [hcheck, hblocks, bind, Except.bind, pure, Except.pure, throw, throwThe,
          MonadExceptOf.throw]
      · simp [hcheck, hblocks, bind, Except.bind, pure, Except.pure]

/-! ## Quiet optimizations -/

theorem countWork_ok_iff {ls : Lines} :
    (∃ n, countWork ls = .ok n) ↔ ∃ stops, walk ls = .ok stops := by
  constructor
  · rintro ⟨n, h⟩
    obtain ⟨stops, hwalk, -⟩ := map_eq_ok.1 h
    exact ⟨stops, hwalk⟩
  · rintro ⟨stops, hwalk⟩
    exact ⟨_, map_eq_ok.2 ⟨stops, hwalk, rfl⟩⟩

/-- Lines that stay can be counted exactly when they can be followed, if they have to be. -/
theorem measure_self_iff (job : Job) (ls : Lines) :
    (∃ s, Statistics.measure job ls ls ls = .ok s) ↔
      (isConversational ls = false → ∃ stops, walk ls = .ok stops) := by
  have hremoved : (∃ s, Statistics.measure job ls ls ls = .ok s) ↔
      ∃ n, Statistics.removedWork ls ls = .ok n := by
    simp only [Statistics.measure, bind_eq_ok, pure_eq_ok]
    constructor
    · rintro ⟨s, n, hn, -⟩
      exact ⟨n, hn⟩
    · rintro ⟨n, hn⟩
      exact ⟨_, n, hn, rfl⟩
  rw [hremoved, Statistics.removedWork]
  cases isConversational ls with
  | true => simp
  | false =>
    simp only [Bool.or_self, Bool.false_eq_true, if_false, bind_eq_ok, pure_eq_ok, forall_const,
      ← countWork_ok_iff]
    constructor
    · rintro ⟨n, k, hk, -⟩
      exact ⟨k, hk⟩
    · rintro ⟨k, hk⟩
      exact ⟨_, k, hk, k, hk, rfl⟩

theorem measure_reduction {job : Job} {source output gcode : Lines} {s : Statistics}
    (h : Statistics.measure job source output gcode = .ok s) :
    s.reduction = Number.roundPlaces 2 (Statistics.reductionOf source.length output.length) := by
  simp only [Statistics.measure, bind_eq_ok, pure_eq_ok] at h
  obtain ⟨removed, -, rfl⟩ := h
  rfl

theorem passages_joinLines_error {ls : Lines} {fault : Fault} (hends : ∀ l ∈ ls, NoLineEnd l)
    (hblocks : Block.readLinesFrom 1 ls ≠ [])
    (hrun : Modal.initial.passFrom .standard 1 ls = .error fault) :
    Toolpath.passages (joinLines ls) .standard = .error fault := by
  simp [Toolpath.passages, isBlankText_joinLines hblocks, passFrom_joinLines hends, hrun, bind,
    Except.bind]

theorem motionReport_ok_iff {ls : Lines} (e : Envelope) (maxFeed : Float)
    (hends : ∀ l ∈ ls, NoLineEnd l) (hblocks : Block.readLinesFrom 1 ls ≠ []) :
    (∃ report, Validation.motionReport ls e maxFeed = .ok report) ↔
      ∃ ps, Modal.initial.passFrom .standard 1 ls = .ok ps := by
  rw [Validation.motionReport, isBlankText_joinLines hblocks]
  cases hrun : Modal.initial.passFrom .standard 1 ls with
  | ok ps => simp [passages_joinLines hends hrun hblocks]
  | error fault =>
    rw [passages_joinLines_error hends hblocks hrun]
    cases fault with
    | empty e => exact absurd hrun (passFrom_neverEmpty _ _ _ _ e)
    | _ => simp

/-- The report on lines that stay comes about exactly when they pass the machine, if they have to
pass it. -/
theorem validate_self_iff {job : Job} {ls : Lines} (said : List Notice)
    (hends : ∀ l ∈ ls, NoLineEnd l) (hblocks : Block.readLinesFrom 1 ls ≠ []) :
    (∃ report, Validation.validate job ls ls said = .ok report) ↔
      (isConversational ls = false → job.flag .safetyChecks = true →
        ∃ ps, Modal.initial.passFrom .standard 1 ls = .ok ps) := by
  rw [Validation.validate]
  cases job.flag .safetyChecks with
  | false => simp [pure, Except.pure]
  | true =>
    rw [Validation.gcodeReport]
    cases hconversational : isConversational ls with
    | true => simp [bind, Except.bind, pure, Except.pure]
    | false =>
      simp only [forall_const,
        ← motionReport_ok_iff (Validation.envelopeOf job) job.profile.maxFeed hends hblocks]
      simp only [Bool.not_true, Bool.false_eq_true, if_false, bind_eq_ok, pure_eq_ok]
      constructor
      · rintro ⟨report, followed, ⟨motion, hmotion, -⟩, -⟩
        exact ⟨motion, hmotion⟩
      · rintro ⟨motion, hmotion⟩
        exact ⟨_, _, ⟨motion, hmotion, rfl⟩, rfl⟩

/-- An optimization gives a program back, with nothing to report and no line gone, exactly when the
program is settled. -/
theorem optimize_quiet_iff {text : String} {c : Controller} {o : Options}
    (hcheck : o.checkFor c = .ok ()) :
    (∃ r, optimize text (.ok c) (some o) = .ok r ∧ r.code = text ∧ r.improvements = [] ∧
      r.statistics.reduction = 0.0) ↔ Settled ⟨c, o⟩ text := by
  have hends : ∀ l ∈ lines text, NoLineEnd l := fun l hl => noLineEnd_of_mem_lines hl
  constructor
  · rintro ⟨r, hr, hcode, hquiet, -⟩
    obtain ⟨-, -, hblocks, hof⟩ := optimize_eq_ok.1 hr
    simp only [Optimization.ofLines, bind_eq_ok, pure_eq_ok] at hof
    obtain ⟨p, hp, s, hs, report, hreport, rfl⟩ := hof
    rw [Optimization.applyRules_result] at hp
    obtain ⟨hlines, hidle⟩ := Optimization.idle_of_steps hp hquiet
    have hfollowed : Optimization.followed (lines text) p = lines text := by
      rw [Optimization.followed, hlines]
      simp
    rw [hfollowed, hlines] at hs hreport
    rw [Optimization.code, hlines] at hcode
    exact {
      lines := hcode
      blocks := hblocks
      idle := fun r hr => r.run_eq_self_iff.1 (hidle r hr)
      walk := (measure_self_iff _ _).1 ⟨s, hs⟩
      pass := (validate_self_iff _ hends hblocks).1 ⟨report, hreport⟩ }
  · rintro ⟨hlines, hblocks, hidle, hwalk, hpass⟩
    obtain ⟨p, hp, hsame, hquiet⟩ := Optimization.steps_of_idle (p := { lines := lines text })
      fun r hr => r.run_eq_self_iff.2 (hidle r hr)
    have hfollowed : Optimization.followed (lines text) p = lines text := by
      rw [Optimization.followed, hsame]
      simp
    obtain ⟨s, hs⟩ := (measure_self_iff _ _).2 hwalk
    obtain ⟨report, hreport⟩ := (validate_self_iff
      (Optimization.applyRules ⟨c, o⟩ (lines text)).notices hends hblocks).2 hpass
    refine ⟨⟨p.lines, s, report, p.improvements⟩, ?_, ?_, hquiet, ?_⟩
    · have hblank : Toolpath.isBlankText text = false := by
        rw [← hlines]
        exact isBlankText_joinLines hblocks
      refine optimize_eq_ok.2 ⟨hblank, hcheck, hblocks, ?_⟩
      simp only [Optimization.ofLines, bind_eq_ok, pure_eq_ok]
      refine ⟨p, by rw [Optimization.applyRules_result, hp], s, ?_, report, ?_, rfl⟩
      · rw [hfollowed, hsame, hs]
      · rw [hfollowed, hsame, hreport]
    · rw [Optimization.code]
      exact (congrArg joinLines hsame).trans hlines
    · exact (measure_reduction hs).trans (Statistics.reduction_self _)

end PartProgram

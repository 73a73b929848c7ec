import PartProgram.Proofs.FeedLimits
import PartProgram.Proofs.Openings
import PartProgram.Proofs.Safety

/-!
# PartProgram.Proofs.FeedSafety

What the safety report says of feeds once they were brought into range. The machine follows lines
whose feeds are within the limits, or it follows none: conversational text is not looked at. Only a
conversational program that has lost its opening on the way is followed as it came, with the feeds
that were in it from the start.

* `optimize_feedErrors_iff`: when a report has an error about a feed.
-/

namespace PartProgram

open Text Conversational

/-! ## Rules and stages -/

namespace Optimization

variable {job : Job} {p p' : Progress}

/-- The rules for one control, in the order they run. -/
def controlRules : Controller → List StandardRule
  | .fanuc => blockRules
  | .heidenhain => [.conversationalFormat, .functionBlocks, .tcpm]
  | _ => []

theorem rulesOf_eq (job : Job) (conversational : Bool) :
    rulesOf job conversational =
      neutralRules.filter (hasTurn job conversational) ++
        (controlRules job.controller).filter (hasTurn job conversational) := by
  have hrules : ∀ c : Controller, (Registry.standard.rulesFor c).map Registration.rule =
      neutralRules ++ controlRules c := by
    intro c
    cases c <;> decide
  rw [rulesOf, hrules, List.filter_append]

theorem steps_append {rules rest : List StandardRule} :
    (steps job (rules ++ rest) p).result = .ok p' ↔
      ∃ q, (steps job rules p).result = .ok q ∧ (steps job rest q).result = .ok p' := by
  induction rules generalizing p with
  | nil => simp [steps, Told.result_pure_eq_ok]
  | cons r rules ih =>
    simp only [List.cons_append, steps, Told.result_bind_eq_ok, ih]
    constructor
    · rintro ⟨q, hq, s, hs, hrest⟩
      exact ⟨s, ⟨q, hq, hs⟩, hrest⟩
    · rintro ⟨s, ⟨q, hq, hs⟩, hrest⟩
      exact ⟨q, hq, s, hs, hrest⟩

theorem step_neutral {r : StandardRule} (h : (step job p r).result = .ok p') :
    p'.neutral = if r.stage = .controller then p.neutral <|> some p.lines else p.neutral := by
  rw [step, Told.result_bind_eq_ok] at h
  obtain ⟨lines, -, h⟩ := h
  rw [Told.result_pure_eq_ok] at h
  subst h
  rfl

/-- Rules for every control do not set lines aside. -/
theorem steps_neutral {rules : List StandardRule} (hrules : ∀ r ∈ rules, r.stage ≠ .controller)
    (h : (steps job rules p).result = .ok p') : p'.neutral = p.neutral := by
  induction rules generalizing p with
  | nil =>
    rw [steps, Told.result_pure_eq_ok] at h
    rw [h]
  | cons r rest ih =>
    rw [steps, Told.result_bind_eq_ok] at h
    obtain ⟨q, hq, h⟩ := h
    rw [ih (fun r hr => hrules r (.tail _ hr)) h, step_neutral hq, if_neg (hrules r (.head _))]

/-- Rules for one control set aside the lines that they began with. -/
theorem steps_neutral_control {rules : List StandardRule}
    (hrules : ∀ r ∈ rules, r.stage = .controller) (h : (steps job rules p).result = .ok p') :
    p'.neutral.getD p'.lines = p.neutral.getD p.lines := by
  induction rules generalizing p with
  | nil =>
    rw [steps, Told.result_pure_eq_ok] at h
    rw [h]
  | cons r rest ih =>
    rw [steps, Told.result_bind_eq_ok] at h
    obtain ⟨q, hq, h⟩ := h
    rw [ih (fun r hr => hrules r (.tail _ hr)) h, step_neutral hq, if_pos (hrules r (.head _))]
    cases p.neutral <;> rfl

/-- The rules for every control run first, and then the rules for the one control, on lines that are
set aside where these rules put others in their place. -/
theorem applyRules_stages {source : Lines} (h : (applyRules job source).result = .ok p) :
    ∃ mid, Ran job (hasTurn job (isConversational source)) neutralRules source mid ∧
      Ran job (hasTurn job (isConversational source)) (controlRules job.controller) mid p.lines ∧
        p.neutral.getD p.lines = mid := by
  rw [applyRules_result, rulesOf_eq, steps_append] at h
  obtain ⟨q, hq, hp⟩ := h
  have hfirst : ∀ r ∈ neutralRules.filter (hasTurn job (isConversational source)),
      r.stage ≠ .controller := by
    have hall : ∀ r ∈ neutralRules, r.stage ≠ .controller := by decide
    exact fun r hr => hall r (List.mem_of_mem_filter hr)
  have hlast : ∀ r ∈ (controlRules job.controller).filter (hasTurn job (isConversational source)),
      r.stage = .controller := by
    have hall : ∀ c : Controller, ∀ r ∈ controlRules c, r.stage = .controller := by
      intro c
      cases c <;> decide
    exact fun r hr => hall _ r (List.mem_of_mem_filter hr)
  refine ⟨q.lines, ran_of_steps hq, ran_of_steps hp, ?_⟩
  rw [steps_neutral_control hlast hp, steps_neutral hfirst hq]
  rfl

end Optimization

/-! ## What the machine follows -/

section

variable {job : Job} {turn : StandardRule → Bool} {source ls mid ls' : Lines} {p : Progress}

/-- The rules that number a conversational program anew, each if it has its turn. -/
theorem renumbers_ran (h : Optimization.Ran job turn [.functionBlocks, .tcpm] ls ls') :
    ∃ mid, Renumbers ls mid ∧ Renumbers mid ls' ∧ (isConversational mid = false → ls' = mid) := by
  obtain ⟨mid, hblocks, last, htcpm, rfl⟩ := h
  refine ⟨mid, ?_, ?_, fun hlost => ?_⟩
  · split at hblocks
    · rw [← Told.result_pure_eq_ok.1 hblocks]
      exact renumbers_functionBlocks ls
    · exact .inl hblocks
  · split at htcpm
    · exact renumbers_tcpm htcpm
    · exact .inl htcpm
  · split at htcpm
    · simp only [StandardRule.run, Rule.tcpm, hlost, Bool.not_false, Bool.true_or, if_true] at htcpm
      exact (Told.result_pure_eq_ok.1 htcpm).symm
    · exact htcpm

/-- What holds of all lines whatever their numbers are stays true of them. -/
theorem forall_ran {P : String → Prop} (hP : IgnoresNumber P)
    (hframe : ∀ l ∈ [Rule.tcpmOn, Rule.tcpmOff], P l) (h : ∀ l ∈ ls, P l)
    (hran : Optimization.Ran job turn [.functionBlocks, .tcpm] ls ls') : ∀ l ∈ ls', P l := by
  obtain ⟨mid, hblocks, last, htcpm, rfl⟩ := hran
  have hmid : ∀ l ∈ mid, P l := by
    split at hblocks
    · rw [← Told.result_pure_eq_ok.1 hblocks]
      exact forall_functionBlocks hP h
    · rwa [hblocks]
  split at htcpm
  · exact forall_tcpm hP hframe hmid htcpm
  · rwa [htcpm]

/-- The rules for one control keep feeds within the limits, if the program is not conversational in
the end. -/
theorem controlRules_limits (h : ∀ l ∈ ls, IsWithinLimits job.controller l)
    (hran : Optimization.Ran job turn (Optimization.controlRules job.controller) ls ls')
    (hlost : isConversational ls' = false) : ∀ l ∈ ls', IsWithinLimits job.controller l := by
  cases hc : job.controller with
  | fanuc =>
    rw [hc] at h hran
    exact blockRules_limits h hran
  | heidenhain =>
    rw [hc] at h hran
    obtain ⟨first, hconvert, hran⟩ := hran
    have hfirst : first = ls := by
      split at hconvert
      · simp only [StandardRule.run, Rule.conversationalFormat] at hconvert
        split at hconvert
        · exact (Told.result_pure_eq_ok.1 hconvert).symm
        · -- converted lines would still be conversational
          obtain ⟨front, hopens, hne⟩ := opens_of_convert hconvert
          obtain ⟨next, hnext, hlast, -⟩ := renumbers_ran hran
          have := isConversational_of_opens (hlast.opens (hnext.opens hopens hne) hne)
          rw [hlost] at this
          cases this
      · exact hconvert
    rw [hfirst] at hran
    exact forall_ran (isWithinLimits_ignoresNumber .heidenhain) tcpmLines_limits h hran
  | _ =>
    rw [hc] at h hran
    cases hran
    exact h

/-- The lines that the machine follows have feeds within the limits, unless the source was
conversational. -/
theorem followed_limits (hsource : isConversational source = false)
    (hfeeds : job.flag .optimizeFeedrates = true) (noFeed : ∀ l ∈ source, '\n' ∉ l.toList)
    (h : (Optimization.applyRules job source).result = .ok p) :
    ∀ l ∈ Optimization.followed source p, IsWithinLimits job.controller l := by
  obtain ⟨mid, hneutral, hcontrol, hmid⟩ := Optimization.applyRules_stages h
  rw [hsource] at hneutral hcontrol
  have hturn : ∀ r : StandardRule, Optimization.hasTurn job false r = r.isEnabled job := by
    intro r
    simp [Optimization.hasTurn]
  have hlimits : ∀ l ∈ mid, IsWithinLimits job.controller l :=
    neutralRules_limits ((hturn _).trans hfeeds) (hturn _) (hturn _) noFeed hneutral
  rw [Optimization.followed, hmid, hsource]
  cases houtput : isConversational p.lines with
  | true => simpa using hlimits
  | false => simpa using controlRules_limits hlimits hcontrol houtput

theorem ran_of_no_turn {rules : List StandardRule} (hrules : ∀ r ∈ rules, turn r = false)
    (h : Optimization.Ran job turn rules ls ls') : ls' = ls := by
  induction rules generalizing ls with
  | nil => exact h
  | cons r rules ih =>
    obtain ⟨mid, hmid, h⟩ := h
    rw [hrules r (.head _), if_neg Bool.false_ne_true] at hmid
    rw [ih (fun r hr => hrules r (.tail _ hr)) h, hmid]

/-- Of the rules for every control only one has its turn on a conversational program. -/
theorem neutralRules_conversational (hc : job.controller = .heidenhain)
    (h : Optimization.Ran job (Optimization.hasTurn job true) Optimization.neutralRules source
      mid) :
    mid = if job.flag .removeEmptyLines then Rule.removeEmptyLines source else source := by
  have hempty : Optimization.hasTurn job true .removeEmptyLines = job.flag .removeEmptyLines := by
    simp [Optimization.hasTurn, hc, StandardRule.isEnabled]
  have hother : ∀ r ∈ Optimization.neutralRules.tail, Optimization.hasTurn job true r = false := by
    have hall : ∀ r ∈ Optimization.neutralRules.tail,
        (r.stage == .controller || r == .removeEmptyLines) = false := by decide
    intro r hr
    simp [Optimization.hasTurn, hall r hr]
  obtain ⟨first, hfirst, hrest⟩ := h
  rw [ran_of_no_turn hother hrest]
  rw [hempty] at hfirst
  split at hfirst
  · rw [← Told.result_pure_eq_ok.1 hfirst, if_pos (by assumption)]
  · rw [hfirst, if_neg (by assumption)]

/-- The rules that have their turn on a conversational program: blank lines go first, if they go,
and then the lines may be numbered anew. -/
theorem conversational_stages (hc : job.controller = .heidenhain)
    (hsource : isConversational source = true)
    (h : (Optimization.applyRules job source).result = .ok p) :
    Optimization.Ran job (Optimization.hasTurn job true) [.functionBlocks, .tcpm]
      (if job.flag .removeEmptyLines then Rule.removeEmptyLines source else source) p.lines := by
  obtain ⟨front, hopens⟩ := isConversational_iff_opens.1 hsource
  obtain ⟨mid, hneutral, hcontrol, -⟩ := Optimization.applyRules_stages h
  rw [hsource] at hneutral hcontrol
  rw [hc] at hcontrol
  obtain ⟨first, hconvert, hran⟩ := hcontrol
  rw [← neutralRules_conversational hc hneutral]
  have hmid : isConversational mid = true := by
    rw [neutralRules_conversational hc hneutral]
    split
    · exact isConversational_of_opens (opens_removeEmptyLines hopens)
    · exact hsource
  have hfirst : first = mid := by
    split at hconvert
    · simp only [StandardRule.run, Rule.conversationalFormat, hmid, if_true] at hconvert
      exact (Told.result_pure_eq_ok.1 hconvert).symm
    · exact hconvert
  rwa [hfirst] at hran

/-- A conversational program loses its opening exactly where a line without characters stands in
front of the opening and stays there, and the lines are numbered anew. -/
theorem isConversational_applyRules (hc : job.controller = .heidenhain)
    (hsource : isConversational source = true)
    (h : (Optimization.applyRules job source).result = .ok p) :
    isConversational p.lines = false ↔ job.flag .removeEmptyLines = false ∧
      "" ∈ source.takeWhile (fun l => allBlank l.toList) ∧ p.lines ≠ source := by
  obtain ⟨front, hopens⟩ := isConversational_iff_opens.1 hsource
  obtain ⟨next, hnext, hlast, hleft⟩ := renumbers_ran (conversational_stages hc hsource h)
  cases hflag : job.flag .removeEmptyLines with
  | true =>
    rw [hflag, if_pos rfl] at hnext
    rw [hnext.isConversational_iff hlast hleft (opens_removeEmptyLines hopens)]
    simp
  | false =>
    rw [hflag, if_neg Bool.false_ne_true] at hnext
    rw [hnext.isConversational_iff hlast hleft hopens, hopens.front_eq]
    simp

/-- The rules on a conversational program put no line end in. -/
theorem noLineEnd_applyRules (hc : job.controller = .heidenhain)
    (hsource : isConversational source = true) (hends : ∀ l ∈ source, NoLineEnd l)
    (h : (Optimization.applyRules job source).result = .ok p) : ∀ l ∈ p.lines, NoLineEnd l := by
  refine forall_ran noLineEnd_ignoresNumber (by decide) (fun l hl => hends l ?_)
    (conversational_stages hc hsource h)
  split at hl
  · exact List.mem_of_mem_filter hl
  · exact hl

/-- No rule has its turn on a conversational program for another control. -/
theorem applyRules_of_conversational (hc : job.controller ≠ .heidenhain)
    (hsource : isConversational source = true)
    (h : (Optimization.applyRules job source).result = .ok p) : p.lines = source := by
  obtain ⟨mid, hneutral, hcontrol, -⟩ := Optimization.applyRules_stages h
  have hnone : ∀ r : StandardRule, Optimization.hasTurn job true r = false := by
    intro r
    simp [Optimization.hasTurn, hc]
  rw [hsource] at hneutral hcontrol
  rw [ran_of_no_turn (fun r _ => hnone r) hcontrol, ran_of_no_turn (fun r _ => hnone r) hneutral]

end

/-! ## The report -/

/-- The error is about a feed. -/
def SafetyError.isFeed : SafetyError → Bool
  | negativeFeed _ _ => true
  | feedTooHigh _ _ _ => true
  | _ => false

namespace Validation

/-- A block whose first feed word is out of range. -/
def FeedOutOfRange (maxFeed : Float) (b : Block) : Prop :=
  ∃ feed, b.value 'F' = some feed ∧ (feed < 0.0 ∨ maxFeed < feed)

section

variable {job : Job} {gcode output : Lines} {said : List Notice} {report : Report}

theorem feedError?_isSome {maxFeed : Float} {b : Block} :
    (∃ error, feedError? maxFeed b = some error) ↔ FeedOutOfRange maxFeed b := by
  simp only [feedError?, FeedOutOfRange]
  cases b.value 'F' with
  | none => simp
  | some feed =>
    by_cases hnegative : feed < 0.0
    · simp [hnegative]
    · by_cases hhigh : maxFeed < feed <;> simp [hnegative, hhigh]

theorem isFeed_of_feedError? {maxFeed : Float} {b : Block} {error : SafetyError}
    (h : feedError? maxFeed b = some error) : error.isFeed = true := by
  simp only [feedError?] at h
  split at h
  · cases h
  · split_ifs at h <;> cases h <;> rfl

theorem isFeed_travelError? {e : Envelope} {p : Passage} {error : SafetyError}
    (h : travelError? e p = some error) : error.isFeed = false := by
  obtain ⟨w, -, rfl⟩ := Option.map_eq_some_iff.1 h
  rfl

theorem errors_append (a b : Report) : (a ++ b).errors = a.errors ++ b.errors := rfl

/-- The form of a program says nothing of feeds. -/
theorem isFeed_outputReport {c : Controller} {error : SafetyError}
    (h : error ∈ (outputReport c output).errors) : error.isFeed = false := by
  simp only [outputReport, errors_append, List.nil_append] at h
  split at h
  · simp only at h
    split at h
    · cases h
    · rw [List.mem_singleton.1 h]
      rfl
  · split at h
    · rw [List.mem_singleton.1 h]
      rfl
    · cases h

/-- An error about a feed comes from a block that the machine follows. -/
theorem feedError_of_motionReport {ls : Lines} {e : Envelope} {maxFeed : Float}
    {error : SafetyError} (h : motionReport ls e maxFeed = .ok report) (herror : error ∈ report.errors)
    (hfeed : error.isFeed = true) : ∃ b ∈ Block.readLinesFrom 1 ls, FeedOutOfRange maxFeed b := by
  simp only [motionReport] at h
  split at h
  · cases h
    rw [List.mem_singleton.1 herror] at hfeed
    cases hfeed
  · cases h
  · cases h
    rcases List.mem_append.1 herror with h | h
    · obtain ⟨p, -, htravel⟩ := List.mem_filterMap.1 h
      rw [isFeed_travelError? htravel] at hfeed
      cases hfeed
    · obtain ⟨b, hb, hblock⟩ := List.mem_filterMap.1 h
      exact ⟨b, hb, feedError?_isSome.1 ⟨error, hblock⟩⟩

theorem feedError_of_validate {error : SafetyError} (hsafety : job.flag .safetyChecks = true)
    (h : validate job gcode output said = .ok report) (herror : error ∈ report.errors)
    (hfeed : error.isFeed = true) :
    isConversational gcode = false ∧
      ∃ b ∈ Block.readLinesFrom 1 gcode, FeedOutOfRange job.profile.maxFeed b := by
  simp only [validate, hsafety, Bool.not_true, Bool.false_eq_true, if_false, bind_eq_ok,
    pure_eq_ok] at h
  obtain ⟨followed, hfollowed, rfl⟩ := h
  have hmem : error ∈ followed.errors := by
    rw [errors_append, errors_append, List.nil_append] at herror
    rcases List.mem_append.1 herror with hmem | hmem
    · exact hmem
    · rw [isFeed_outputReport hmem] at hfeed
      cases hfeed
  rw [gcodeReport] at hfollowed
  cases hgcode : isConversational gcode with
  | true =>
    rw [hgcode, if_pos rfl, pure_eq_ok] at hfollowed
    rw [← hfollowed] at hmem
    cases hmem
  | false =>
    simp only [hgcode, Bool.false_eq_true, if_false, bind_eq_ok, pure_eq_ok] at hfollowed
    obtain ⟨motion, hmotion, rfl⟩ := hfollowed
    rw [errors_append, List.append_nil] at hmem
    exact ⟨rfl, feedError_of_motionReport hmotion hmem hfeed⟩

/-- A block out of range is an error wherever the machine follows it. -/
theorem exists_feedError (hsafety : job.flag .safetyChecks = true)
    (h : validate job gcode output said = .ok report) (hends : ∀ l ∈ gcode, NoLineEnd l)
    (hgcode : isConversational gcode = false)
    (hblock : ∃ b ∈ Block.readLinesFrom 1 gcode, FeedOutOfRange job.profile.maxFeed b) :
    ∃ error ∈ report.errors, error.isFeed = true := by
  obtain ⟨b, hb, hrange⟩ := hblock
  obtain ⟨error, herror⟩ := feedError?_isSome.2 hrange
  have hblocks : Block.readLinesFrom 1 gcode ≠ [] := List.ne_nil_of_mem hb
  simp only [validate, gcodeReport, hsafety, hgcode, Bool.not_true, Bool.false_eq_true, if_false,
    bind_eq_ok, pure_eq_ok] at h
  obtain ⟨followed, ⟨motion, hmotion, rfl⟩, rfl⟩ := h
  obtain ⟨ps, hrun⟩ := (motionReport_ok_iff _ _ hends hblocks).1 ⟨motion, hmotion⟩
  rw [motionReport_eq_ok _ _ hends hblocks hrun] at hmotion
  cases hmotion
  refine ⟨error, ?_, isFeed_of_feedError? herror⟩
  simp only [errors_append, List.nil_append, List.append_nil, List.mem_append]
  exact .inl (.inr (List.mem_filterMap.2 ⟨b, hb, herror⟩))

end

end Validation

/-- No block is out of range where all lines are within the limits. -/
theorem not_feedOutOfRange {c : Controller} {ls : Lines} (h : ∀ l ∈ ls, IsWithinLimits c l) :
    ¬ ∃ b ∈ Block.readLinesFrom 1 ls, Validation.FeedOutOfRange c.profile.maxFeed b := by
  rintro ⟨b, hb, feed, hvalue, hrange⟩
  obtain ⟨i, l, hl, hread⟩ := Block.mem_readLinesFrom.1 hb
  have hsaid : feedSaid (sayings l) = some feed := by
    rw [Block.sayings_of_read? hread, Block.feedSaid_eq, hvalue]
  obtain ⟨hnegative, hhigh⟩ := (h l (List.mem_of_getElem? hl)).2 feed hsaid
  rcases hrange with hrange | hrange
  · exact hnegative hrange
  · exact hhigh hrange

/-- With feeds brought into range and the checks on, a report has an error about a feed only for a
conversational program that is numbered anew and has a line without any character in front of its
opening. The number on that line hides the opening, the blocks are followed as they came, and each
block out of range is an error. -/
theorem optimize_feedErrors_iff {source : String} {c : Controller} {o : Options} {r : Optimization}
    (h : optimize source (.ok c) (some o) = .ok r) (hfeeds : o.general .optimizeFeedrates = true)
    (hsafety : o.general .safetyChecks = true) :
    (∃ error ∈ r.report.errors, error.isFeed = true) ↔
      c = .heidenhain ∧ isConversational (lines source) = true ∧
        o.general .removeEmptyLines = false ∧
          "" ∈ (lines source).takeWhile (fun l => allBlank l.toList) ∧ r.lines ≠ lines source ∧
            ∃ b ∈ Block.readLinesFrom 1 r.lines, Validation.FeedOutOfRange c.profile.maxFeed b := by
  obtain ⟨-, -, -, hof⟩ := optimize_eq_ok.1 h
  simp only [Optimization.ofLines, bind_eq_ok, pure_eq_ok] at hof
  obtain ⟨p, hp, s, -, report, hreport, rfl⟩ := hof
  have hfeeds : (⟨c, o⟩ : Job).flag .optimizeFeedrates = true := hfeeds
  have hsafety : (⟨c, o⟩ : Job).flag .safetyChecks = true := hsafety
  have hends : ∀ l ∈ lines source, NoLineEnd l := fun l hl => noLineEnd_of_mem_lines hl
  cases hsource : isConversational (lines source) with
  | false =>
    have hlimits := followed_limits hsource hfeeds
      (fun l hl => Rule.noFeed_of_noLineEnd (hends l hl)) hp
    constructor
    · rintro ⟨error, herror, hfeed⟩
      exact absurd (Validation.feedError_of_validate hsafety hreport herror hfeed).2
        (not_feedOutOfRange hlimits)
    · rintro ⟨-, hfalse, -⟩
      cases hfalse
  | true =>
    have hfollowed : Optimization.followed (lines source) p = p.lines := by
      rw [Optimization.followed, hsource, Bool.not_true, Bool.and_false, if_neg Bool.false_ne_true]
    rw [hfollowed] at hreport
    by_cases hc : c = .heidenhain
    · have hlost := isConversational_applyRules hc hsource hp
      constructor
      · rintro ⟨error, herror, hfeed⟩
        obtain ⟨hgcode, hblock⟩ := Validation.feedError_of_validate hsafety hreport herror hfeed
        obtain ⟨hkept, hempty, hchanged⟩ := hlost.1 hgcode
        exact ⟨hc, rfl, hkept, hempty, hchanged, hblock⟩
      · rintro ⟨-, -, hkept, hempty, hchanged, hblock⟩
        exact Validation.exists_feedError hsafety hreport
          (noLineEnd_applyRules hc hsource hends hp)
          (hlost.2 ⟨hkept, hempty, hchanged⟩) hblock
    · have hleft := applyRules_of_conversational hc hsource hp
      constructor
      · rintro ⟨error, herror, hfeed⟩
        have hgcode := (Validation.feedError_of_validate hsafety hreport herror hfeed).1
        rw [hleft, hsource] at hgcode
        cases hgcode
      · rintro ⟨hheidenhain, -⟩
        exact absurd hheidenhain hc

/-- The options for a machine with rotary axes, with empty lines left in. -/
def rotaryOptions : Options where
  general := Switches.standard.set .removeEmptyLines false
  heidenhain := some (Switches.standard.set .useTcp true)

/-- A program in address words keeps within the limits: its feeds were brought into range before it
was converted. -/
theorem optimize_feedErrors_converted :
    ∃ r, optimize "\nT1\nG1 X1 F99999\nX2 F-5\nM30" (.ok .heidenhain) (some rotaryOptions) = .ok r ∧
      r.lines.drop 4 = ["4 FUNCTION TCPM F TCP AXIS POS PATHCTRL AXIS", "5 L X+1 R0 F15000",
        "6 L X+2 R0 F1", "7 FUNCTION RESET TCPM", "8 END PGM WORKPIECE MM"] ∧
      ∀ error ∈ r.report.errors, error.isFeed = false := by
  have hruns : (optimize "\nT1\nG1 X1 F99999\nX2 F-5\nM30" (.ok .heidenhain)
      (some rotaryOptions)).toOption.map (fun r => r.lines.drop 4) =
        some ["4 FUNCTION TCPM F TCP AXIS POS PATHCTRL AXIS", "5 L X+1 R0 F15000",
          "6 L X+2 R0 F1", "7 FUNCTION RESET TCPM", "8 END PGM WORKPIECE MM"] := by decide +kernel
  obtain ⟨r, hr, hlines⟩ := exists_of_toOption hruns
  refine ⟨r, hr, hlines, fun error herror => ?_⟩
  rw [Bool.eq_false_iff]
  intro hfeed
  obtain ⟨-, hsource, -⟩ := (optimize_feedErrors_iff hr rfl rfl).1 ⟨error, herror, hfeed⟩
  exact absurd hsource (by decide +kernel)

/-- An empty line in front of the opening of a conversational program: with a number on it, the
program is taken for blocks, and its feed is too high. -/
theorem optimize_feed_not_checked :
    ¬ ∀ source c o r, optimize source (.ok c) (some o) = .ok r →
      o.general .optimizeFeedrates = true → o.general .safetyChecks = true →
      ∀ error ∈ r.report.errors, error.isFeed = false := by
  intro hclaim
  have hruns : (optimize "\nBEGIN PGM A MM\nTOOL CALL 1 Z\nL X+1 R0 F99999\nEND PGM A MM"
      (.ok .heidenhain) (some rotaryOptions)).toOption.map
        (fun r => r.report.errors.map SafetyError.isFeed) = some [true, false] := by decide +kernel
  obtain ⟨r, hr, herrors⟩ := exists_of_toOption hruns
  have hall := hclaim _ _ _ r hr rfl rfl
  have hmem : true ∈ r.report.errors.map SafetyError.isFeed := by
    rw [herrors]
    exact .head _
  obtain ⟨error, herror, hfeed⟩ := List.mem_map.1 hmem
  rw [hall error herror] at hfeed
  cases hfeed

end PartProgram

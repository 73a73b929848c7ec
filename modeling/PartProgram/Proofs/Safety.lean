import Mathlib.Data.List.Find
import PartProgram.Proofs.Lines
import PartProgram.Proofs.Order
import PartProgram.Validation

/-!
# PartProgram.Proofs.Safety

The safety report is sound and complete. `TravelErrors` and `FeedErrors` say which errors a program
deserves, by its toolpath and its blocks alone: they are in the order of lines, one for a line at
most, and an error is there exactly when the line has done something to deserve it.

* `validate_errors`: the errors of a report are the travel errors and after them the feed errors of
  the program, so a program is valid exactly when all its points lie inside the envelope and all its
  feeds lie between zero and the limit of the control.
-/

namespace PartProgram

open Conversational Validation

/-- The line an error is about. -/
def SafetyError.line? : SafetyError → Option Int
  | outside n _ _ => some n
  | negativeFeed n _ => some n
  | feedTooHigh n _ _ => some n
  | _ => none

/-- One error for each line with a point outside, about the first such point of the line. -/
structure TravelErrors (e : Envelope) (points : List Waypoint) (errors : List SafetyError) :
    Prop where
  sorted : errors.Pairwise fun a b => a.line? < b.line?
  mem_iff : ∀ error, error ∈ errors ↔ ∃ n w,
    points.find? (fun w => w.line == n && !e.contains w.position.toList) = some w ∧
      error = .outside n w.position e

/-- One error for each block whose first feed word is negative or above the limit. -/
structure FeedErrors (maxFeed : Float) (blocks : List Block) (errors : List SafetyError) :
    Prop where
  sorted : errors.Pairwise fun a b => a.line? < b.line?
  mem_iff : ∀ error, error ∈ errors ↔ ∃ b ∈ blocks, ∃ feed, b.value 'F' = some feed ∧
    (feed < 0.0 ∧ error = .negativeFeed b.line feed ∨
      0.0 ≤ feed ∧ maxFeed < feed ∧ error = .feedTooHigh b.line feed maxFeed)

/-! ## Travel -/

section

variable {e : Envelope} {ps : List Passage}

theorem find?_of_line {points : List Waypoint} {k n : Int} (h : ∀ w ∈ points, w.line = k) :
    points.find? (fun w => w.line == n && !e.contains w.position.toList) =
      if k = n then points.find? (fun w => !e.contains w.position.toList) else none := by
  by_cases hn : k = n
  · rw [if_pos hn]
    refine List.find?_congr fun w hw => ?_
    simp [h w hw, hn]
  · rw [if_neg hn]
    refine List.find?_eq_none.2 fun w hw => ?_
    simp [h w hw, hn]

/-- The first point outside of a line is found in the passage of that line. -/
theorem find?_points {n : Int} {w : Waypoint}
    (hline : ∀ p ∈ ps, ∀ w ∈ p.points, w.line = p.block.line)
    (hsorted : (ps.map Passage.block).Pairwise fun a b => a.line < b.line) :
    (ps.flatMap Passage.points).find? (fun w => w.line == n && !e.contains w.position.toList) =
        some w ↔
      ∃ p ∈ ps, p.block.line = n ∧
        p.points.find? (fun w => !e.contains w.position.toList) = some w := by
  induction ps with
  | nil => simp
  | cons p rest ih =>
    simp only [List.map_cons, List.pairwise_cons, List.mem_map] at hsorted
    have hrest := ih (fun q hq => hline q (.tail _ hq)) hsorted.2
    simp only [List.flatMap_cons, List.find?_append, List.mem_cons, or_and_right, exists_or,
      exists_eq_left, Option.or_eq_some_iff, hrest, find?_of_line (hline p (.head _))]
    by_cases hn : p.block.line = n
    · have hlater : ∀ q ∈ rest, q.block.line ≠ n := by
        intro q hq
        have := hsorted.1 q.block ⟨q, hq, rfl⟩
        omega
      constructor
      · rintro (h | ⟨-, q, hq, hqn, -⟩)
        · exact .inl ⟨hn, by simpa [hn] using h⟩
        · exact absurd hqn (hlater q hq)
      · rintro (⟨-, h⟩ | ⟨q, hq, hqn, -⟩)
        · exact .inl (by simpa [hn] using h)
        · exact absurd hqn (hlater q hq)
    · simp [hn]

theorem travelError?_eq_some {p : Passage} {error : SafetyError}
    (hline : ∀ w ∈ p.points, w.line = p.block.line) :
    travelError? e p = some error ↔
      ∃ w, p.points.find? (fun w => !e.contains w.position.toList) = some w ∧
        error = .outside p.block.line w.position e := by
  simp only [travelError?, Option.map_eq_some_iff]
  refine exists_congr fun w => and_congr_right fun hw => ?_
  rw [hline w (List.mem_of_find?_eq_some hw), eq_comm]

theorem travelErrors (hline : ∀ p ∈ ps, ∀ w ∈ p.points, w.line = p.block.line)
    (hsorted : (ps.map Passage.block).Pairwise fun a b => a.line < b.line) :
    TravelErrors e (Toolpath.ofPassages ps).points (ps.filterMap (travelError? e)) where
  sorted := by
    rw [List.pairwise_filterMap]
    refine (List.pairwise_map.1 hsorted).imp_of_mem ?_
    intro p q hp hq hpq a ha b hb
    obtain ⟨v, -, rfl⟩ := (travelError?_eq_some (hline p hp)).1 ha
    obtain ⟨w, -, rfl⟩ := (travelError?_eq_some (hline q hq)).1 hb
    simpa [SafetyError.line?] using hpq
  mem_iff error := by
    simp only [Toolpath.ofPassages, find?_points hline hsorted, List.mem_filterMap]
    constructor
    · rintro ⟨p, hp, h⟩
      obtain ⟨w, hw, rfl⟩ := (travelError?_eq_some (hline p hp)).1 h
      exact ⟨_, w, ⟨p, hp, rfl, hw⟩, rfl⟩
    · rintro ⟨n, w, ⟨p, hp, rfl, hw⟩, rfl⟩
      exact ⟨p, hp, (travelError?_eq_some (hline p hp)).2 ⟨w, hw, rfl⟩⟩

theorem travelErrors_nil :
    ps.filterMap (travelError? e) = [] ↔
      ∀ w ∈ (Toolpath.ofPassages ps).points, e.contains w.position.toList = true := by
  simp only [List.filterMap_eq_nil_iff, travelError?, Option.map_eq_none_iff,
    List.find?_eq_none, Toolpath.ofPassages, List.mem_flatMap]
  constructor
  · rintro h w ⟨p, hp, hw⟩
    simpa using h p hp w hw
  · intro h p hp w hw
    simpa using h w ⟨p, hp, hw⟩

end

/-! ## Feeds -/

section

variable {maxFeed : Float}

theorem feedError?_eq_some {b : Block} {error : SafetyError} :
    feedError? maxFeed b = some error ↔ ∃ feed, b.value 'F' = some feed ∧
      (feed < 0.0 ∧ error = .negativeFeed b.line feed ∨
        0.0 ≤ feed ∧ maxFeed < feed ∧ error = .feedTooHigh b.line feed maxFeed) := by
  rw [feedError?]
  cases hvalue : b.value 'F' with
  | none => simp
  | some feed =>
    have hzero : ¬ feed < 0.0 ↔ 0.0 ≤ feed :=
      Number.not_lt (Block.value_isNumber hvalue) (by rfl)
    simp only [Option.some.injEq, exists_eq_left', ← hzero]
    by_cases hnegative : feed < 0.0
    · simp [hnegative, eq_comm]
    · by_cases hhigh : maxFeed < feed
      · simp [hnegative, hhigh, eq_comm]
      · simp [hnegative, hhigh]

theorem feedErrors {blocks : List Block}
    (hsorted : blocks.Pairwise fun a b => a.line < b.line) :
    FeedErrors maxFeed blocks (blocks.filterMap (feedError? maxFeed)) where
  sorted := by
    rw [List.pairwise_filterMap]
    refine hsorted.imp ?_
    intro a b hab x hx y hy
    have hline : ∀ {c : Block} {z}, feedError? maxFeed c = some z → z.line? = some c.line := by
      intro c z hz
      obtain ⟨feed, -, ⟨-, rfl⟩ | ⟨-, -, rfl⟩⟩ := feedError?_eq_some.1 hz
      · rfl
      · rfl
    rw [hline hx, hline hy]
    simpa using hab
  mem_iff error := by
    simp only [List.mem_filterMap, feedError?_eq_some]

theorem feedErrors_nil {blocks : List Block} (hmax : Number.IsNumber maxFeed) :
    blocks.filterMap (feedError? maxFeed) = [] ↔
      ∀ b ∈ blocks, ∀ feed, b.value 'F' = some feed → 0.0 ≤ feed ∧ feed ≤ maxFeed := by
  rw [List.filterMap_eq_nil_iff]
  refine forall₂_congr fun b _ => ?_
  rw [feedError?]
  cases hvalue : b.value 'F' with
  | none => simp
  | some feed =>
    have hfeed := Block.value_isNumber hvalue
    have hzero : ¬ feed < 0.0 ↔ 0.0 ≤ feed := Number.not_lt hfeed (by rfl)
    have hlimit : ¬ maxFeed < feed ↔ feed ≤ maxFeed := Number.not_lt hmax hfeed
    simp only [Option.some.injEq, forall_eq', ← hzero, ← hlimit]
    by_cases hnegative : feed < 0.0
    · simp [hnegative]
    · by_cases hhigh : maxFeed < feed
      · simp [hnegative, hhigh]
      · simp [hnegative, hhigh]

end

/-! ## The report -/

section

variable {job : Job} {ls output : Lines} {ps : List Passage}

theorem motionReport_eq_ok (e : Envelope) (maxFeed : Float)
    (hends : ∀ l ∈ ls, Text.NoLineEnd l) (hblocks : Block.readLinesFrom 1 ls ≠ [])
    (hrun : Modal.initial.passFrom .standard 1 ls = .ok ps) :
    motionReport ls e maxFeed = .ok
      { errors := ps.filterMap (travelError? e) ++
          (Block.readLinesFrom 1 ls).filterMap (feedError? maxFeed)
        notices := (ps.flatMap Passage.warnings).map .line } := by
  simp only [motionReport, isBlankText_joinLines hblocks, passages_joinLines hends hrun hblocks]

theorem outputReport_errors (hcontrol : job.controller ≠ .heidenhain)
    (houtput : isConversational output = false) :
    (outputReport job.controller output).errors = [] := by
  simp only [outputReport, houtput, hcontrol]
  rfl

theorem validate_eq_ok (said : List Notice) (hsafety : job.flag .safetyChecks = true)
    (hcontrol : job.controller ≠ .heidenhain) (hends : ∀ l ∈ ls, Text.NoLineEnd l)
    (hgcode : isConversational ls = false) (houtput : isConversational output = false)
    (hblocks : Block.readLinesFrom 1 ls ≠ [])
    (hrun : Modal.initial.passFrom .standard 1 ls = .ok ps) :
    ∃ report, validate job ls output said = .ok report ∧
      report.errors = ps.filterMap (travelError? (envelopeOf job)) ++
        (Block.readLinesFrom 1 ls).filterMap (feedError? job.profile.maxFeed) := by
  have hmotion := motionReport_eq_ok (envelopeOf job) job.profile.maxFeed hends hblocks hrun
  refine ⟨_, by simp only [validate, gcodeReport, hsafety, hgcode, hmotion]; rfl, ?_⟩
  have herrors := outputReport_errors hcontrol houtput
  show [] ++ (_ ++ []) ++ _ = _
  rw [herrors]
  simp

end

/-- With the checks on, the errors of a report are those that the toolpath and the blocks of the
program deserve: first a travel error for each line that leaves the envelope, then a feed error for
each block whose first feed is out of range. The program is valid exactly when no line does. -/
theorem validate_errors {job : Job} {ls output : Lines} (said : List Notice)
    {ps : List Passage} (hsafety : job.flag .safetyChecks = true)
    (hcontrol : job.controller ≠ .heidenhain) (hends : ∀ l ∈ ls, Text.NoLineEnd l)
    (hgcode : isConversational ls = false) (houtput : isConversational output = false)
    (hblocks : Block.readLinesFrom 1 ls ≠ [])
    (hrun : Modal.initial.passFrom .standard 1 ls = .ok ps) :
    ∃ report travel feeds, validate job ls output said = .ok report ∧
      report.errors = travel ++ feeds ∧
      TravelErrors (envelopeOf job) (Toolpath.ofPassages ps).points travel ∧
      FeedErrors job.profile.maxFeed (Block.readLinesFrom 1 ls) feeds ∧
      (report.isValid = true ↔
        (∀ w ∈ (Toolpath.ofPassages ps).points,
          (envelopeOf job).contains w.position.toList = true) ∧
        ∀ b ∈ Block.readLinesFrom 1 ls, ∀ feed, b.value 'F' = some feed →
          0.0 ≤ feed ∧ feed ≤ job.profile.maxFeed) := by
  obtain ⟨hpassed, last, hfollows⟩ := passFrom_eq_ok_iff.1 hrun
  have hline : ∀ p ∈ ps, ∀ w ∈ p.points, w.line = p.block.line :=
    fun p hp => (hfollows.follows p hp).line
  have hsorted := Block.readLinesFrom_sorted 1 ls
  obtain ⟨report, hreport, herrors⟩ :=
    validate_eq_ok said hsafety hcontrol hends hgcode houtput hblocks hrun
  refine ⟨report, _, _, hreport, herrors, travelErrors hline (by rw [hpassed]; exact hsorted),
    feedErrors hsorted, ?_⟩
  have hmax : Number.IsNumber job.profile.maxFeed := Controller.maxFeed_isNumber _
  rw [Report.isValid, List.isEmpty_iff, herrors, List.append_eq_nil_iff, travelErrors_nil,
    feedErrors_nil hmax]

/-- Two arcs that bulge over the limit, a hole beyond it, a negative feed, one that is too high and
stands before another, and an empty line at the end. -/
theorem validate_errors_bulge :
    let job : Job := ⟨.generic, {}⟩
    let ls : Lines := ["G0 X998 Y0", "G3 X998 Y10 J5 F-3", "(over) G2 X998 Y0 J-5 F20000 F1",
      "G81 X1001 Y5 Z-5 R2 F100", ""]
    job.flag .safetyChecks = true ∧ job.controller ≠ .heidenhain ∧
      (∀ l ∈ ls, Text.NoLineEnd l) ∧ isConversational ls = false ∧
      Block.readLinesFrom 1 ls ≠ [] ∧
      ∃ ps, Modal.initial.passFrom .standard 1 ls = .ok ps ∧
        ∃ report travel feeds, validate job ls ls [] = .ok report ∧
          report.errors = travel ++ feeds ∧
          TravelErrors (envelopeOf job) (Toolpath.ofPassages ps).points travel ∧
          FeedErrors job.profile.maxFeed (Block.readLinesFrom 1 ls) feeds ∧
          report.errors.map SafetyError.line? = [some 2, some 3, some 4, some 2, some 3] := by
  intro job ls
  have hsafety : job.flag .safetyChecks = true := rfl
  have hcontrol : job.controller ≠ .heidenhain := by decide
  have hends : ∀ l ∈ ls, Text.NoLineEnd l := by decide +kernel
  have hgcode : isConversational ls = false := by decide +kernel
  have hblocks : Block.readLinesFrom 1 ls ≠ [] :=
    List.isEmpty_eq_false_iff.1 (by decide +kernel)
  obtain ⟨ps, hrun⟩ := exists_eq_ok (x := Modal.initial.passFrom .standard 1 ls)
    (by decide +kernel)
  obtain ⟨report, travel, feeds, hreport, herrors, htravel, hfeeds, -⟩ :=
    validate_errors [] hsafety hcontrol hends hgcode hgcode hblocks hrun
  refine ⟨hsafety, hcontrol, hends, hgcode, hblocks, ps, hrun, report, travel, feeds, hreport,
    herrors, htravel, hfeeds, ?_⟩
  have hlines : (validate job ls ls []).toOption.map (fun r => r.errors.map SafetyError.line?) =
      some [some 2, some 3, some 4, some 2, some 3] := by decide +kernel
  rw [hreport] at hlines
  exact Option.some.inj hlines

end PartProgram

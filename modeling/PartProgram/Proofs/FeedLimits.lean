import PartProgram.Proofs.ArcFeeds
import PartProgram.Proofs.FeedLaw

/-!
# PartProgram.Proofs.FeedLimits

Feeds within the limits of a control. A feed that was brought into the range of a machine is neither
negative nor above the limit, and it keeps to that under all rules that come afterwards, whichever
of them have their turn.

* `neutralRules_limits`: the rules for every control bring all feeds into the limits.
* `blockRules_limits`: the rules for a control that reads blocks keep them there.
* `isWithinLimits_ignoresNumber`: so do rules that number lines anew.
-/

namespace PartProgram

open Text Conversational

/-! ## Limits -/

/-- A feed that the control has no objection to, if there is one. -/
def WithinLimits (c : Controller) (feed : Option Float) : Prop :=
  ∀ x, feed = some x → ¬ x < 0.0 ∧ ¬ c.profile.maxFeed < x

theorem withinLimits_none (c : Controller) : WithinLimits c none := by simp [WithinLimits]

theorem SameFeed.withinLimits {c : Controller} {a b : Option Float} (h : SameFeed a b)
    (hb : WithinLimits c b) : WithinLimits c a := by
  rcases h with rfl | h
  · exact hb
  · rintro x rfl
    cases b with
    | none => cases h
    | some y =>
      have hsame : (x == y) = true := h
      rw [Number.lt_congr_left hsame, Number.lt_congr_right hsame]
      exact hb y rfl

/-- What is not less than zero stays so as the lower limit of a feed. -/
theorem larger_not_negative {feed least : Float} (hleast : least = 0.0 ∨ 0.0 < least)
    (hnot : ¬ least < 0.0) : ¬ Scalar.larger feed least < 0.0 := by
  rw [Scalar.larger]
  split
  · exact hnot
  · rename_i hreached
    intro hnegative
    rcases hleast with rfl | hpositive
    · exact hreached hnegative
    · exact hreached (Number.lt_of_neg_of_pos hnegative hpositive)

/-- A feed in the range of a machine is within its limits. -/
theorem withinLimits_clampFeed (c : Controller) (perTurn : Bool) (feed : Float) :
    WithinLimits c (some (Rule.clampFeed c.profile perTurn feed)) := by
  have hlimits : 0.0 < c.profile.minFeed ∧ ¬ c.profile.minFeed < 0.0 ∧ ¬ c.profile.maxFeed < 0.0 ∧
      ¬ c.profile.maxFeed < c.profile.maxFeed ∧ ¬ (0.0 : Float) < 0.0 := by
    cases c <;> decide
  obtain ⟨hpositive, hmin, hmax, hself, hzero⟩ := hlimits
  have hraised : ¬ Scalar.larger feed (if perTurn then 0.0 else c.profile.minFeed) < 0.0 := by
    cases perTurn with
    | true => exact larger_not_negative (.inl rfl) hzero
    | false => exact larger_not_negative (.inr hpositive) hmin
  rintro x ⟨⟩
  rw [Rule.clampFeed]
  generalize Scalar.larger feed (if perTurn then 0.0 else c.profile.minFeed) = raised at hraised
  rw [Scalar.smaller]
  split
  · exact ⟨hmax, hself⟩
  · exact ⟨hraised, by assumption⟩

/-- A line whose feed is within the limits of a control. -/
def IsWithinLimits (c : Controller) (l : String) : Prop :=
  '\n' ∉ l.toList ∧ WithinLimits c (feedSaid (sayings l))

section

variable {c : Controller} {t : FeedTrack} {l : String} {ls ls' : Lines}

theorem withinLimits_read (ht : WithinLimits c t.feed) (hl : IsWithinLimits c l) :
    WithinLimits c (t.read l).feed := by
  have hfeed := hl.2
  rw [FeedTrack.read, FeedTrack.hear_feed]
  cases hsaid : feedSaid (sayings l) with
  | none => exact ht
  | some x => rwa [hsaid] at hfeed

theorem isWithinLimits_of_read (noFeed : '\n' ∉ l.toList) (h : WithinLimits c (t.read l).feed) :
    IsWithinLimits c l := by
  refine ⟨noFeed, fun x hx => h x ?_⟩
  rw [FeedTrack.read, FeedTrack.hear_feed, hx]
  rfl

/-- The limits do not depend on the number in front of a line. -/
theorem isWithinLimits_ignoresNumber (c : Controller) : IgnoresNumber (IsWithinLimits c) :=
  feedSaid_ignoresNumber (WithinLimits c)

/-! ## Rules for every control -/

theorem traces_of_noFeed (t : FeedTrack) (noFeed : ∀ l ∈ ls, '\n' ∉ l.toList) :
    Traces (fun _ _ _ => True) t ls ls := by
  induction ls generalizing t with
  | nil => exact .nil t
  | cons l ls ih =>
    exact .cons (noFeed l (.head _)) trivial (ih _ fun l hl => noFeed l (.tail _ hl))

theorem Traces.forall_mem {ι : Type} {Q : FeedTrack → String → ι → Prop} {os : List ι}
    {P : String → Prop} (h : Traces Q t ls os)
    (hQ : ∀ (t : FeedTrack) (l : String) (o : ι), '\n' ∉ l.toList → Q (t.read l) l o → P l) :
    ∀ l ∈ ls, P l := by
  induction h with
  | nil => simp
  | cons noFeed here _ ih => exact List.forall_mem_cons.2 ⟨hQ _ _ _ noFeed here, ih⟩

section

variable {job : Job} {turn : StandardRule → Bool} {source : Lines}

/-- A program without feed characters, line by line, has none after a rule that leaves marks in
order. -/
theorem noFeed_ran {r : StandardRule} (noFeed : ∀ l ∈ ls, '\n' ∉ l.toList)
    (hrun : if turn r then (r.run job ls).result = .ok ls' else ls' = ls)
    (hrule : Traces (fun _ _ _ => True) {} ls ls → (r.run job ls).result = .ok ls' →
      Follows (fun _ _ _ => True) {} ls' ls) : ∀ l ∈ ls', '\n' ∉ l.toList := by
  split at hrun
  · obtain ⟨kept, hkept, -⟩ := hrule (traces_of_noFeed {} noFeed) hrun
    exact hkept.noFeed
  · rwa [hrun]

/-- A program whose feeds are brought into the range of the machine is within its limits. -/
theorem optimizeFeedrates_limits (noFeed : ∀ l ∈ ls, '\n' ∉ l.toList) :
    ∀ l ∈ Rule.optimizeFeedrates job ls, IsWithinLimits job.controller l := by
  have hclamp : ∀ t t' : FeedTrack, SameFeed t'.feed (t.last.map (Rule.clampWord job.profile)) →
      WithinLimits job.controller t'.feed := by
    intro t t' hsame
    refine hsame.withinLimits ?_
    cases t.last with
    | none => exact withinLimits_none _
    | some w => exact withinLimits_clampFeed _ _ _
  have hfollows : Follows (fun t _ _ => WithinLimits job.controller t.feed) {}
      (Rule.optimizeFeedrates job ls) ls :=
    Rule.optimizeFeedrates_follows (fun t t' _ _ _ hsame _ _ => hclamp t t' hsame)
      (traces_of_noFeed {} noFeed)
  obtain ⟨kept, hkept, -⟩ := hfollows
  exact hkept.forall_mem fun _ _ _ noFeed here => isWithinLimits_of_read noFeed here

/-- The rules for every control bring all feeds into the limits of the control. -/
theorem neutralRules_limits (hturn : turn .optimizeFeedrates = true)
    (hplain : turn .removeEmptyLines = job.flag .removeEmptyLines)
    (hcomments : turn .removeComments = job.flag .removeComments)
    (noFeed : ∀ l ∈ source, '\n' ∉ l.toList)
    (h : Optimization.Ran job turn Optimization.neutralRules source ls) :
    ∀ l ∈ ls, IsWithinLimits job.controller l := by
  obtain ⟨l₁, hempty, l₂, hcode, l₃, hmoves, l₄, hrestated, l₅, hrapids, l₆, hmodal, l₇, hclamped,
    l₈, hchains, rfl⟩ := h
  rw [hplain] at hempty
  rw [hcomments] at hcode
  -- before the feeds are brought into range nothing is known of them but that they can be read
  have hplain : ∀ l ∈ l₂, '\n' ∉ l.toList := by
    rw [plain_lines hempty hcode]
    intro l hl
    obtain ⟨raw, hraw, hline⟩ := List.mem_filterMap.1 hl
    exact feed_not_mem_plainLine hline (noFeed raw hraw)
  have hmoved : ∀ l ∈ l₃, '\n' ∉ l.toList := noFeed_ran hplain hmoves fun htraces hrun =>
    Rule.removeRedundantMoves_follows (fun _ _ _ _ _ _ => trivial) htraces hrun
  have honce : ∀ l ∈ l₄, '\n' ∉ l.toList := noFeed_ran hmoved hrestated fun htraces hrun =>
    Rule.removeRedundantCodes_follows (fun _ _ _ _ _ _ _ _ => trivial) htraces hrun
  have hjoined : ∀ l ∈ l₅, '\n' ∉ l.toList := noFeed_ran honce hrapids fun htraces hrun =>
    Rule.optimizeRapidMoves_follows (fun _ _ _ _ _ _ => trivial) htraces hrun
  have hstated : ∀ l ∈ l₆, '\n' ∉ l.toList := noFeed_ran hjoined hmodal fun htraces hrun => by
    rw [← Told.result_pure_eq_ok.1 hrun]
    exact Rule.consolidateCodes_follows (fun _ _ _ _ _ _ => trivial) htraces
  have hranged : ∀ l ∈ l₇, IsWithinLimits job.controller l := by
    rw [hturn, if_pos rfl] at hclamped
    rw [← Told.result_pure_eq_ok.1 hclamped]
    exact optimizeFeedrates_limits hstated
  split at hchains
  · intro l hl
    obtain ⟨hfeed, raw, hraw, hsame⟩ :=
      Rule.useArcOptimization_feeds (fun l hl => (hranged l hl).1) hchains l hl
    refine ⟨hfeed, ?_⟩
    rw [hsame]
    exact (hranged raw hraw).2
  · rwa [hchains]

/-! ## Rules for one control -/

theorem traces_of_limits (ht : WithinLimits c t.feed) (h : ∀ l ∈ ls, IsWithinLimits c l) :
    Traces (Keeps fun t _ => WithinLimits c t.feed) t ls (ls.map fun l => ⟨l, {}, {}⟩) := by
  induction ls generalizing t with
  | nil => exact .nil t
  | cons l ls ih =>
    have hnext := withinLimits_read ht (h l (.head _))
    exact .cons (h l (.head _)).1 ⟨rfl, hnext⟩ (ih hnext fun l hl => h l (.tail _ hl))

/-- The rules for a control that reads blocks keep all feeds within the limits. -/
theorem blockRules_limits (h : ∀ l ∈ ls, IsWithinLimits c l)
    (hran : Optimization.Ran job turn Optimization.blockRules ls ls') :
    ∀ l ∈ ls', IsWithinLimits c l := by
  obtain ⟨marks, hmarks, -⟩ :=
    blockRules_feed (traces_of_limits (t := {}) (withinLimits_none c) h).follows hran
  refine hmarks.forall_mem fun t l mark noFeed here => ?_
  cases mark with
  | none =>
    refine ⟨noFeed, ?_⟩
    rw [Rule.IsStill.feed here]
    exact withinLimits_none c
  | some o => exact isWithinLimits_of_read noFeed here.2

/-- The lines for the tool centre point say no feed. -/
theorem tcpmLines_limits : ∀ l ∈ [Rule.tcpmOn, Rule.tcpmOff], IsWithinLimits c l := by
  have hsilent : ∀ l ∈ [Rule.tcpmOn, Rule.tcpmOff],
      '\n' ∉ l.toList ∧ feedSaid (sayings l) = none := by
    decide
  intro l hl
  obtain ⟨noFeed, hnone⟩ := hsilent l hl
  refine ⟨noFeed, ?_⟩
  rw [hnone]
  exact withinLimits_none c

end

end

end PartProgram

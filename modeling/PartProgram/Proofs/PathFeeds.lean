import PartProgram.Proofs.Printout

/-!
# PartProgram.Proofs.PathFeeds

Feeds in converted programs. A control takes the feed of a path block from the last feed that some
path block says. A feed is written for the feed word of a block that goes along a path, and before
the moves of a cycle that is worked move by move; a feed word on any other block, on a rapid or on a
line of its own, is not written. The feed that is said last is the one that was written last, and
that need not be the feed in effect.

* `lastFeed_places`: the feed that is said last in a row of places.
* `conversion_feeds`: the feed that is said last at every block of a cut.
-/

namespace PartProgram.Conversational

open Text Number

/-! ## Feeds of stops -/

/-- Whether a motion goes along a path at a feed. -/
def cuts : Action → Bool
  | .linear | .arc _ => true
  | _ => false

def isCut (s : Stop) : Bool := (s.resolution?.bind Resolution.motion?).any fun m => cuts m.action

theorem exists_of_isCut {s : Stop} {b : Block} {r : Resolution} (hs : s.found = some (b, r))
    (h : isCut s = true) : ∃ m, r.effect = .motion m ∧ cuts m.action = true := by
  rw [isCut, Stop.resolution?, hs, Option.map_some, Option.bind_some, Resolution.motion?] at h
  split at h
  · rename_i m hm
    exact ⟨m, hm, h⟩
  · cases h

/-- The feed of an expanded cycle; none is written for zero. -/
def cycleFeed (feed : Option Float) : Option Float := feed.filter fun f => !(f == 0.0)

/-- The feed that is written for a motion: its own word, if it is written as a path block. -/
def motionFeed (b : Block) : Action → Option Float
  | .linear => if b.hasAxis then b.value 'F' else none
  | .arc _ => b.value 'F'
  | _ => none

/-- The feed that is written for a stop, if one is. -/
def writtenFeed (job : Job) (s : Stop) : Option Float :=
  s.found.bind fun (b, r) =>
    match r.effect with
    | .none => none
    | .cycle c => if expandsCycle job c then cycleFeed r.state.feed else none
    | .motion m => motionFeed b m.action

/-- The last feed that is written for a row of stops. -/
def lastWritten (job : Job) (stops : List Stop) : Option Float :=
  (stops.filterMap (writtenFeed job)).getLast?

/-- The feed that lines say last. -/
def lastFeed? (ls : Lines) : Option String := (ls.flatMap feedNumbers).getLast?

theorem lastFeed_append (ls ms : Lines) :
    lastFeed? (ls ++ ms) = (lastFeed? ms).or (lastFeed? ls) := by
  rw [lastFeed?, List.flatMap_append, List.getLast?_append]
  rfl

theorem lastWritten_append (job : Job) (ss ts : List Stop) :
    lastWritten job (ss ++ ts) = (lastWritten job ts).or (lastWritten job ss) := by
  rw [lastWritten, List.filterMap_append, List.getLast?_append]
  rfl

theorem lastWritten_singleton (job : Job) (s : Stop) : lastWritten job [s] = writtenFeed job s := by
  rw [lastWritten, List.filterMap_cons, List.filterMap_nil]
  cases writtenFeed job s <;> rfl

/-! ## Feeds of cycles -/

/-- Whatever a cycle does, it feeds. -/
theorem expand_feeds {kind : CycleKind} {h : Hole Float} {e : Expansion Float}
    (he : kind.expand h = .ok e) : ∃ p ∈ e.phases, p.kind = .feed := by
  have hdrill : ∃ p ∈ h.drillPhases, p.kind = .feed := ⟨h.feedTo h.z, .head _, rfl⟩
  cases kind with
  | peckDrilling =>
    rw [CycleKind.expand] at he
    split at he
    · cases he
      exact hdrill
    · simp only [bind_eq_ok, pure_eq_ok, Hole.peckPhases, Hole.peckDepths] at he
      obtain ⟨-, ⟨depths, ⟨n, -, rfl⟩, rfl⟩, rfl⟩ := he
      refine ⟨_, List.mem_flatMap.2 ⟨_, List.mem_map.2 ⟨0, List.mem_range.2 ?_, rfl⟩, .head _⟩, rfl⟩
      omega
  | backBoring =>
    cases he
    exact ⟨_, .tail _ (.tail _ (.head _)), rfl⟩
  | drilling =>
    cases he
    exact hdrill
  | _ =>
    cases he
    exact ⟨_, .head _, rfl⟩

theorem phases_feed {c : FixedCycle} {e : Expansion Float} (he : c.phases = .ok e) :
    ∃ p ∈ e.phases, p.kind = .feed := by
  simp only [FixedCycle.phases, FixedCycle.expand, bind_eq_ok, pure_eq_ok] at he
  obtain ⟨e', he', rfl⟩ := he
  have hfeed : ∃ p ∈ e'.phases, p.kind = .feed := by
    split at he'
    · exact expand_feeds he'
    · cases he'
      exact ⟨c.hole.feedTo c.hole.z, .head _, rfl⟩
  obtain ⟨p, hp, hkind⟩ := hfeed
  exact ⟨p, .tail _ hp, hkind⟩

theorem feeds_phaseEntry (feed : Option Float) (p : Phase Float) :
    (phaseEntry feed p).feeds = if p.kind = .feed then (cycleFeed feed).toList else [] := by
  rw [phaseEntry]
  cases p.kind with
  | rapid => rfl
  | dwell => rfl
  | feed =>
    rw [if_pos rfl]
    show (Entry.move
      { coordinates := _, feed := ((cycleFeed feed).map PathFeed.feed).getD .same }).feeds = _
    cases cycleFeed feed <;> rfl

theorem getLast_feeds_phases (feed : Option Float) {phases : List (Phase Float)}
    (h : ∃ p ∈ phases, p.kind = .feed) :
    ((phases.map (phaseEntry feed)).flatMap Entry.feeds).getLast? = cycleFeed feed := by
  have hfeeds : (phases.map (phaseEntry feed)).flatMap Entry.feeds =
      phases.flatMap fun p => if p.kind = .feed then (cycleFeed feed).toList else [] := by
    rw [List.flatMap_map]
    exact List.flatMap_congr fun p _ => feeds_phaseEntry feed p
  rw [hfeeds]
  cases hf : cycleFeed feed with
  | none =>
    have hnone : (phases.flatMap fun p =>
        if p.kind = .feed then (none : Option Float).toList else []) = [] := by
      refine List.flatMap_eq_nil_iff.2 fun p _ => ?_
      split <;> rfl
    rw [hnone]
    rfl
  | some f =>
    obtain ⟨p, hp, hkind⟩ := h
    have hmem : f ∈ phases.flatMap fun p => if p.kind = .feed then (some f).toList else [] :=
      List.mem_flatMap.2 ⟨p, hp, by simp [hkind]⟩
    have hall : ∀ g ∈ phases.flatMap (fun p => if p.kind = .feed then (some f).toList else []),
        g = f := by
      intro g hg
      obtain ⟨q, -, hg⟩ := List.mem_flatMap.1 hg
      split at hg
      · exact List.mem_singleton.1 hg
      · cases hg
    rw [List.getLast?_eq_some_getLast (List.ne_nil_of_mem hmem), hall _ (List.getLast_mem _)]

/-! ## Feeds of places -/

section

variable {job : Job} {ls output : Lines} {s : Stop} {t : Tooling} {b : Block} {r : Resolution}
  {es : List Entry}

theorem feeds_auxiliaryEntries (codes : List Code) :
    (auxiliaryEntries codes).flatMap Entry.feeds = [] := by
  rw [auxiliaryEntries]
  split <;> rfl

theorem getLast_feeds_feedWord (b : Block) (path : Path) (coordinates : List Coordinate)
    (codes : List Code) :
    (Entry.move ⟨path, coordinates, feedWord b, codes⟩).feeds.getLast? = b.value 'F' := by
  rw [feedWord]
  cases b.value 'F' <;> rfl

theorem hasAxis_eq_true_iff {b : Block} :
    b.hasAxis = true ↔ ∃ a : Axis, b.has [a.letter] = true := by
  have hone : ∀ a : Axis, b.has [a.letter] = true ↔ ∃ w ∈ b.words, w.letter = a.letter := by
    intro a
    simp [Block.has]
  have hletters : ∀ c, c ∈ axisLetters ↔ ∃ a : Axis, c = a.letter := by
    intro c
    constructor
    · intro hc
      simp only [axisLetters, List.mem_cons, List.not_mem_nil, or_false] at hc
      rcases hc with rfl | rfl | rfl
      · exact ⟨.x, rfl⟩
      · exact ⟨.y, rfl⟩
      · exact ⟨.z, rfl⟩
    · rintro ⟨a, rfl⟩
      cases a <;> decide
  rw [Block.hasAxis, Block.has, List.any_eq_true]
  constructor
  · rintro ⟨w, hw, hletter⟩
    obtain ⟨a, ha⟩ := (hletters _).1 (List.contains_iff_mem.1 hletter)
    exact ⟨a, (hone a).2 ⟨w, hw, ha⟩⟩
  · rintro ⟨a, ha⟩
    obtain ⟨w, hw, hletter⟩ := (hone a).1 ha
    exact ⟨w, hw, List.contains_iff_mem.2 ((hletters _).2 ⟨a, hletter⟩)⟩

/-- A block names coordinates if it names an axis. -/
theorem blockCoordinates_isEmpty (b : Block) (state : Modal) (m : Motion) :
    (blockCoordinates b state m).isEmpty = !b.hasAxis := by
  have hall : ∀ a : Axis, a ∈ Axis.all := by
    intro a
    cases a <;> decide
  rw [blockCoordinates, List.isEmpty_map]
  cases haxis : b.hasAxis with
  | true =>
    obtain ⟨a, ha⟩ := hasAxis_eq_true_iff.1 haxis
    exact List.isEmpty_eq_false_iff.2 (List.ne_nil_of_mem (List.mem_filter.2 ⟨hall a, ha⟩))
  | false =>
    rw [Bool.not_false, List.isEmpty_iff, List.filter_eq_nil_iff]
    intro a _ ha
    rw [hasAxis_eq_true_iff.2 ⟨a, ha⟩] at haxis
    cases haxis

theorem becomes_feeds (h : Becomes job b r es) (hs : s.found = some (b, r)) :
    (es.flatMap Entry.feeds).getLast? = writtenFeed job s := by
  rw [writtenFeed, hs, Option.bind_some]
  cases h with
  | modes hr =>
    simp only [hr]
    rw [feeds_auxiliaryEntries]
    rfl
  | expanded hr hexpands he =>
    simp only [hr]
    rw [if_pos hexpands, List.flatMap_append, feeds_auxiliaryEntries, List.append_nil,
      getLast_feeds_phases _ (phases_feed he)]
  | defined hr hexpands _ =>
    simp only [hr]
    rw [hexpands, if_neg Bool.false_ne_true]
    rfl
  | rapid hr hm =>
    simp only [hr, hm]
    rw [straightEntries]
    split
    · rw [feeds_auxiliaryEntries]
      rfl
    · rfl
  | linear hr hm =>
    simp only [hr, hm, motionFeed]
    rw [straightEntries, blockCoordinates_isEmpty]
    cases b.hasAxis with
    | false =>
      rw [Bool.not_false, if_pos rfl, feeds_auxiliaryEntries]
      rfl
    | true =>
      rw [Bool.not_true, if_neg Bool.false_ne_true, List.flatMap_singleton,
        getLast_feeds_feedWord]
      rfl
  | arc hr hm =>
    simp only [hr, hm, motionFeed]
    rw [arcEntries]
    split
    · rw [List.flatMap_singleton, getLast_feeds_feedWord]
    · rw [List.flatMap_cons, List.flatMap_singleton]
      exact getLast_feeds_feedWord b _ _ _
  | dwell hr hm =>
    simp only [hr, hm]
    rfl
  | shape hr hm =>
    simp only [hr, hm]
    rfl

theorem lastFeed_place {place : Place}
    (h : (stopEntries job t place.stop).result = .ok place.entries) :
    lastFeed? place.lines = (writtenFeed job place.stop).map coordinate := by
  have hsaid :
      place.lines.flatMap feedNumbers = (place.entries.flatMap Entry.feeds).map coordinate := by
    rw [Place.flatMap_lines h fun e he => Entry.feedNumbers_lines he, List.map_flatMap]
  rw [lastFeed?, hsaid, List.getLast?_map]
  rcases stopEntries_flatMap (f := Entry.feeds) (fun _ => rfl) (fun _ _ => rfl) h with
    ⟨hfound, hnone⟩ | ⟨b, r, effects, hfound, hbecomes, heffects⟩
  · rw [hnone, writtenFeed, hfound]
    rfl
  · rw [heffects, becomes_feeds hbecomes hfound]

/-- The feed that is said last is the feed that was written last. -/
theorem lastFeed_places {places : List Place}
    (h : ∀ place ∈ places, ∃ t, (stopEntries job t place.stop).result = .ok place.entries) :
    lastFeed? (places.flatMap Place.lines) =
      (lastWritten job (places.map Place.stop)).map coordinate := by
  induction places with
  | nil => rfl
  | cons place rest ih =>
    obtain ⟨t, hplace⟩ := h place (.head _)
    rw [List.flatMap_cons, lastFeed_append, lastFeed_place hplace,
      ih fun p hp => h p (.tail _ hp), List.map_cons, ← List.singleton_append, lastWritten_append,
      lastWritten_singleton]
    cases lastWritten job (rest.map Place.stop) <;> rfl

theorem lastFeed_head {p : Printout} (hp : printout job ls = .ok p) :
    lastFeed? p.headLines = none := by
  have hsaid : p.headLines.flatMap feedNumbers = [] := by
    rw [Printout.headLines, List.flatMap_assoc]
    refine List.flatMap_eq_nil_iff.2 fun e he => ?_
    have hnone (hfeeds : e.feeds = []) (hcodes : e.codes = []) :
        e.lines.flatMap feedNumbers = [] := by
      rw [Entry.feedNumbers_lines (by simp [Entry.HasAuxiliary, hcodes]), hfeeds]
      rfl
    rcases printout_head hp he with ⟨_, rfl⟩ | ⟨_, rfl | rfl⟩ | ⟨_, _, rfl⟩ <;> exact hnone rfl rfl
  rw [lastFeed?, hsaid]
  rfl

/-! ## Cuts -/

/-- Only a cycle becomes more than one path block. -/
theorem becomes_path (h : Becomes job b r es) (hr : ∀ c, r.effect ≠ .cycle c) :
    (es.flatMap fun e => e.lines.filter isPathBlock).length ≤ 1 := by
  have hone {e : Entry} {line : String} (he : e.lines = [line]) :
      (e.lines.filter isPathBlock).length ≤ 1 := by
    rw [he]
    exact List.length_filter_le _ _
  have hquiet {e : Entry} (he : e.isQuiet = true) : e.lines.filter isPathBlock = [] := by
    refine List.filter_eq_nil_iff.2 fun line hline => ?_
    rw [(Entry.isQuiet_lines he hline).1]
    exact Bool.false_ne_true
  have hauxiliary (codes : List Code) :
      ((auxiliaryEntries codes).flatMap fun e => e.lines.filter isPathBlock).length ≤ 1 := by
    rw [auxiliaryEntries]
    split
    · exact Nat.zero_le _
    · rw [List.flatMap_singleton]
      exact hone rfl
  have hstraight (coordinates : List Coordinate) (feed : PathFeed) (codes : List Code) :
      ((straightEntries coordinates feed codes).flatMap fun e =>
        e.lines.filter isPathBlock).length ≤ 1 := by
    rw [straightEntries]
    split
    · exact hauxiliary codes
    · rw [List.flatMap_singleton]
      exact hone rfl
  cases h with
  | modes _ => exact hauxiliary _
  | expanded hcycle _ _ => exact absurd hcycle (hr _)
  | defined hcycle _ _ => exact absurd hcycle (hr _)
  | rapid _ _ => exact hstraight _ _ _
  | linear _ _ => exact hstraight _ _ _
  | arc _ _ =>
    rw [arcEntries]
    split
    · rw [List.flatMap_singleton]
      exact hone rfl
    · rw [List.flatMap_cons, List.flatMap_singleton, hquiet rfl, List.nil_append]
      exact hone rfl
  | dwell _ _ =>
    rw [List.flatMap_singleton, hquiet rfl]
    exact Nat.zero_le _
  | shape _ _ =>
    rw [List.flatMap_singleton, hquiet rfl]
    exact Nat.zero_le _

/-- Nothing after the path block of a stop that works no cycle is one. -/
theorem not_isPathBlock_after {place : Place} {before after : Lines} {line : String}
    (h : (stopEntries job t place.stop).result = .ok place.entries)
    (hlines : place.lines = before ++ line :: after) (hline : isPathBlock line = true)
    (hcycle : ∀ b r c, place.stop.found = some (b, r) → r.effect ≠ .cycle c) :
    ∀ l ∈ after, isPathBlock l = false := by
  have hcount : (place.lines.filter isPathBlock).length ≤ 1 := by
    have hentries : place.lines.filter isPathBlock =
        place.entries.flatMap fun e => e.lines.filter isPathBlock := by
      rw [Place.lines, List.filter_flatMap]
    have hremark (text : String) : (Entry.remark text).lines.filter isPathBlock = [] := by
      refine List.filter_eq_nil_iff.2 fun line hmem => ?_
      rw [(Entry.isQuiet_lines rfl hmem).1]
      exact Bool.false_ne_true
    have hcall (tool : Option Int) (speed : Option Float) :
        (Entry.toolCall tool speed).lines.filter isPathBlock = [] := by
      rw [Entry.toolCall_lines]
      simp [Entry.isPathBlock_toolCall]
    rw [hentries]
    rcases stopEntries_flatMap (f := fun e => e.lines.filter isPathBlock) hremark hcall h with
      ⟨-, hnone⟩ | ⟨b, r, effects, hfound, hbecomes, heffects⟩
    · rw [hnone]
      exact Nat.zero_le _
    · rw [heffects]
      exact becomes_path hbecomes fun c => hcycle b r c hfound
  rw [hlines, List.filter_append, List.filter_cons_of_pos hline, List.length_append,
    List.length_cons] at hcount
  have hnone : after.filter isPathBlock = [] := List.length_eq_zero_iff.1 (by omega)
  intro l hl
  simpa using List.filter_eq_nil_iff.1 hnone l hl

/-- No feed is said after the path block of a cut. -/
theorem feedNumbers_after_cut {place : Place} {before after : Lines} {line : String}
    (h : (stopEntries job t place.stop).result = .ok place.entries)
    (hlines : place.lines = before ++ line :: after) (hline : isPathBlock line = true)
    (hcut : isCut place.stop = true) : after.flatMap feedNumbers = [] := by
  refine List.flatMap_eq_nil_iff.2 fun l hl => feedNumbers_of_not_path ?_
  refine not_isPathBlock_after h hlines hline (fun b r c hfound hcycle => ?_) l hl
  obtain ⟨m, hr, -⟩ := exists_of_isCut hfound hcut
  rw [hr] at hcycle
  cases hcycle

end

/-- What is true at every block of a cut with a feed in effect: of the lines up to the block and
with it, of the stops up to its own and with it, and of the feed. -/
def Printout.ForallCuts (p : Printout) (P : Lines → List Stop → Float → Prop) : Prop :=
  ∀ past place future before line after feed, p.places = past ++ place :: future →
    place.lines = before ++ line :: after → isPathBlock line = true → isCut place.stop = true →
    place.stop.after.feed = some feed →
    P (p.headLines ++ past.flatMap Place.lines ++ (before ++ [line]))
      (past.map Place.stop ++ [place.stop]) feed

/-- At every block of a cut the feed that was said last is the feed in effect. -/
def Printout.KeepsFeeds (p : Printout) : Prop :=
  p.ForallCuts fun said _ feed => lastFeed? said = some (coordinate feed)

section

variable {job : Job} {ls output : Lines}

/-- Two things that agree at every cut are true together. -/
theorem Printout.ForallCuts.congr {p : Printout} {P Q : Lines → List Stop → Float → Prop}
    (h : p.ForallCuts fun said stops feed => P said stops feed ↔ Q said stops feed) :
    p.ForallCuts P ↔ p.ForallCuts Q := by
  constructor
  · intro hP past place future before line after feed hplaces hlines hline hcut hfeed
    exact (h _ _ _ _ _ _ _ hplaces hlines hline hcut hfeed).1
      (hP _ _ _ _ _ _ _ hplaces hlines hline hcut hfeed)
  · intro hQ past place future before line after feed hplaces hlines hline hcut hfeed
    exact (h _ _ _ _ _ _ _ hplaces hlines hline hcut hfeed).2
      (hQ _ _ _ _ _ _ _ hplaces hlines hline hcut hfeed)

theorem lastFeed_cuts {p : Printout} (hp : printout job ls = .ok p) :
    p.ForallCuts fun said stops _ => lastFeed? said = (lastWritten job stops).map coordinate := by
  intro past place future before line after feed hplaces hlines hline hcut _
  obtain ⟨-, hmade, -⟩ := printout_spec hp
  have hmem : ∀ q ∈ past, q ∈ p.places := by
    intro q hq
    rw [hplaces]
    exact List.mem_append_left _ hq
  have hpast : ∀ q ∈ past, ∃ t, (stopEntries job t q.stop).result = .ok q.entries :=
    fun q hq => stopEntries_of_mem hmade (hmem q hq)
  rw [hplaces] at hmade
  have hplace := placesFrom_split hmade
  have hhere : lastFeed? (before ++ [line]) = (writtenFeed job place.stop).map coordinate := by
    have hwhole : place.lines = (before ++ [line]) ++ after := by rw [hlines, List.append_cons]
    have hsilent : lastFeed? after = none := by
      rw [lastFeed?, feedNumbers_after_cut hplace hlines hline hcut]
      rfl
    rw [← lastFeed_place hplace, hwhole, lastFeed_append _ after, hsilent, Option.none_or]
  rw [lastFeed_append _ (before ++ [line]), hhere, lastFeed_append, lastFeed_head hp,
    lastFeed_places hpast, lastWritten_append, lastWritten_singleton]
  cases writtenFeed job place.stop with
  | some x => rfl
  | none => cases lastWritten job (past.map Place.stop) <;> rfl

/-- The feed that is said last at a block of a cut is the one that was written last: for the feed
word of a block along a path, or for a cycle that is worked move by move. It is the feed in effect
where the two are printed alike. -/
theorem conversion_feeds (h : (Rule.conversationalFormat job ls).result = .ok output)
    (hblocks : isConversational ls = false) :
    ∃ p, printout job ls = .ok p ∧ dropNumbers output = p.lines ∧
      (p.ForallCuts fun said stops _ => lastFeed? said = (lastWritten job stops).map coordinate) ∧
      (p.KeepsFeeds ↔ p.ForallCuts fun _ stops feed =>
        (lastWritten job stops).map coordinate = some (coordinate feed)) := by
  obtain ⟨p, hp, houtput⟩ := conversationalFormat_printout h hblocks
  have hlaw := lastFeed_cuts hp
  refine ⟨p, hp, houtput, hlaw, Printout.ForallCuts.congr ?_⟩
  intro past place future before line after feed hplaces hlines hline hcut hfeed
  rw [hlaw _ _ _ _ _ _ _ hplaces hlines hline hcut hfeed]

/-- A job with the options a control starts with. -/
def plainJob : Job := ⟨.heidenhain, {}⟩

/-- A feed that stays over two blocks. -/
theorem conversion_feeds_straight :
    ∃ output p, (Rule.conversationalFormat plainJob ["T1", "G1 X1 F100", "X2", "M30"]).result =
        .ok output ∧
      printout plainJob ["T1", "G1 X1 F100", "X2", "M30"] = .ok p ∧
      dropNumbers output = p.lines ∧
      (p.KeepsFeeds ↔ p.ForallCuts fun _ stops feed =>
        (lastWritten plainJob stops).map coordinate = some (coordinate feed)) := by
  obtain ⟨output, houtput⟩ := exists_eq_ok (x := (Rule.conversationalFormat plainJob
    ["T1", "G1 X1 F100", "X2", "M30"]).result) (by decide +kernel)
  obtain ⟨p, hp, hlines, -, hkeeps⟩ := conversion_feeds houtput (by decide +kernel)
  exact ⟨output, p, houtput, hp, hlines, hkeeps⟩

/-- A feed word on a line of its own is not written. -/
theorem conversion_feed_lost :
    ¬ ∀ job ls output, (Rule.conversationalFormat job ls).result = .ok output →
      isConversational ls = false →
      ∃ p, printout job ls = .ok p ∧ dropNumbers output = p.lines ∧ p.KeepsFeeds := by
  intro hclaim
  obtain ⟨output, houtput⟩ := exists_eq_ok (x := (Rule.conversationalFormat plainJob
    ["T1", "G0 X0", "F100", "G1 X1", "M30"]).result) (by decide +kernel)
  obtain ⟨p, hp, -, hkeeps⟩ := hclaim _ _ _ houtput (by decide +kernel)
  have hcheck : (printout plainJob ["T1", "G0 X0", "F100", "G1 X1", "M30"]).toOption.any (fun p =>
      p.places[3]?.any fun place =>
        place.lines == ["L X+1 R0"] && isCut place.stop && place.stop.after.feed.isSome &&
          (lastFeed? (p.headLines ++ (p.places.take 3).flatMap Place.lines ++
            ["L X+1 R0"])).isNone) = true := by decide +kernel
  rw [hp, Except.toOption, Option.any_some] at hcheck
  obtain ⟨place, hplace, hcheck⟩ := (Option.any_eq_true _ _).1 hcheck
  simp only [Bool.and_eq_true, beq_iff_eq] at hcheck
  obtain ⟨⟨⟨hlines, hcut⟩, hfeed⟩, hsilent⟩ := hcheck
  obtain ⟨feed, hfeed⟩ := Option.isSome_iff_exists.1 hfeed
  have hsaid := hkeeps _ place _ [] "L X+1 R0" [] feed (eq_take_append_drop hplace) hlines
    (by decide) hcut hfeed
  rw [List.nil_append] at hsaid
  rw [hsaid] at hsilent
  cases hsilent

end

end PartProgram.Conversational

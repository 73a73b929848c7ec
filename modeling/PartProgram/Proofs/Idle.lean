import PartProgram.Proofs.Comments
import PartProgram.Proofs.Order
import PartProgram.Proofs.Render
import PartProgram.Proofs.Walk
import PartProgram.Rule.Standard

/-!
# PartProgram.Proofs.Idle

When a rule that follows blocks has nothing to do. For each rule it is said, by the lines and by the
walk through them, what must not be found there; the rule leaves the lines as they are exactly when
nothing of it is found. Every line that a rule writes anew reads as another block than the line it
stands for, and so is another line.

* `clampedLine_cases`: what becomes of a line with a feed word.
* `removeRedundantCodes_eq_self_iff`, `optimizeFeedrates_eq_self_iff` and their like, one for each
  rule.
-/

namespace PartProgram

open Text

/-- What holds along the walk through a program that can be followed. -/
def Along (ls : Lines) (P : List Stop → Prop) : Prop := ∃ stops, walk ls = .ok stops ∧ P stops

namespace Rule

/-! ## What the rules look for -/

/-- No positioning, no plane and no feed is stated again while it is in force. -/
def RestatesNothing (s : Stated) : List Stop → Prop
  | [] => True
  | stop :: rest =>
    match stop.block? with
    | none => RestatesNothing s rest
    | some b =>
      (s.repeated (b.codes 'G')).2 = [] ∧ repeatsFeed stop.before b = false ∧
        RestatesNothing (s.repeated (b.codes 'G')).1 rest

/-- The ends of a rapid that another one may go on from. -/
def rapidEnds? (s : Stop) : Option (Position × Position) :=
  if isPlainRapid s then some (s.before.position, s.after.position) else none

/-- Whether a rapid goes on in the direction of the one before it. -/
def goesOn (ends : Position × Position) (s : Stop) : Bool :=
  isPlainRapid s && s.block?.any fun b =>
    omitsFixed b ends.1 ends.2 && continues ends.1 ends.2 s.after.position

/-- Whether a line only states modal codes, none of a group that the one before it states. -/
def goesWith (codes : List Code) (line : String × Option Block) : Bool :=
  (modalOnly? line.2).any (disjointGroups codes)

/-- Every feed is in range, and none is stated again where that may be left out. -/
def FeedsInRange (p : Profile) (dropRestated : Bool) (m : FeedMode) :
    List (String × Option Block) → Prop
  | [] => True
  | (_, none) :: rest => FeedsInRange p dropRestated m rest
  | (_, some b) :: rest =>
    match b.value 'F' with
    | none => FeedsInRange p dropRestated (m.meet b) rest
    | some feed =>
      let clamped := clampFeed p (m.meet b).perTurn feed
      (clamped == feed) = true ∧ (dropRestated && (m.meet b).active.any (clamped == ·)) = false ∧
        FeedsInRange p dropRestated { m.meet b with active := some clamped } rest

/-- At no line begins a chain that fits an arc. -/
def HasNoChain (fit : Fit) : List Stop → Prop
  | [] => True
  | s :: rest => chainAt? fit s rest = none ∧ HasNoChain fit rest

/-- No line ends in a corner to be rounded. -/
def HasNoCorner : List Stop → Prop
  | [] => True
  | s :: rest => rounded? s rest = none ∧ HasNoCorner rest

/-! ## Rules that follow the walk -/

section

variable {ls : Lines} {stops : List Stop}

theorem ofWalk_eq_self_iff {f : List Stop → Lines} :
    (Revised.ofWalk ls f).result = .ok ls ↔ Along ls fun stops => f stops = stops.map Stop.raw := by
  simp only [Revised.ofWalk, map_eq_ok, Along]
  refine exists_congr fun stops => and_congr_right fun hwalk => ?_
  rw [walkFrom_raw hwalk]

theorem along_congr {P Q : List Stop → Prop}
    (h : ∀ stops, walk ls = .ok stops → (P stops ↔ Q stops)) : Along ls P ↔ Along ls Q :=
  exists_congr fun stops => and_congr_right fun hwalk => h stops hwalk

/-- The block reads from the line and is well formed. -/
def ReadsFrom (raw : String) (b : Block) : Prop :=
  b.WellFormed ∧ ∃ k, Block.read? raw k = some b

/-- What a stop has found reads from its line. -/
def Reads (s : Stop) : Prop := ∀ b, s.block? = some b → ReadsFrom s.raw b

theorem noFeed_of_noLineEnd {l : String} (h : NoLineEnd l) : '\n' ∉ l.toList := by
  intro hmem
  have hend : isLineEnd '\n' = true := by decide
  rw [h _ hmem] at hend
  cases hend

theorem walk_reads (hwalk : walk ls = .ok stops) : ∀ s ∈ stops, Reads s := by
  intro s hs b hb
  obtain ⟨k, hread⟩ := walkFrom_block hwalk s hs b hb
  exact ⟨Block.wellFormed_of_read? hread, k, hread⟩

/-- A line from which words were taken is not as it was. -/
theorem render_without_ne {raw : String} {b : Block} (marks : List String) (h : ReadsFrom raw b)
    (hmark : ∃ w ∈ b.words, (.singleton w.letter ∈ marks ∨ w.code ∈ marks)) :
    (b.without marks).render ≠ raw := by
  obtain ⟨hwell, k, hread⟩ := h
  refine Block.render_ne hread (hwell.without marks) (.inl fun heq => ?_)
  obtain ⟨w, hw, hmark⟩ := hmark
  have hkept := List.filter_eq_self.1 heq w hw
  simp only [Bool.and_eq_true, Bool.not_eq_true', List.contains_eq_mem, decide_eq_false_iff_not]
    at hkept
  rcases hmark with hmark | hmark
  · exact hkept.1 hmark
  · exact hkept.2 hmark

theorem removeRedundantMoves_eq_self_iff :
    (removeRedundantMoves ls).result = .ok ls ↔
      Along ls fun stops => ∀ s ∈ stops, isRedundantMove s = false := by
  rw [removeRedundantMoves, ofWalk_eq_self_iff]
  simp only [filter_map_eq_map_iff, Bool.not_eq_true']

theorem Stated.repeated_subset (s : Stated) (codes : List Code) :
    (s.repeated codes).2 ⊆ codes := by
  induction codes generalizing s with
  | nil => simp [Stated.repeated]
  | cons code rest ih =>
    simp only [Stated.repeated]
    split
    · exact List.cons_subset_cons _ (ih _)
    · exact List.subset_cons_of_subset _ (ih _)

theorem mem_codes {b : Block} {letter : Char} {code : Code} (h : code ∈ b.codes letter) :
    ∃ w ∈ b.words, w.letter = letter ∧ w.code = code := by
  simp only [Block.codes, List.mem_map, List.mem_filter, beq_iff_eq] at h
  obtain ⟨w, ⟨hw, hletter⟩, hcode⟩ := h
  exact ⟨w, hw, hletter, hcode⟩

theorem value_eq_some {b : Block} {letter : Char} {x : Float} (h : b.value letter = some x) :
    ∃ w ∈ b.words, w.letter = letter ∧ w.value = x := by
  simp only [Block.value, Option.map_eq_some_iff] at h
  obtain ⟨w, hfind, hx⟩ := h
  exact ⟨w, List.mem_of_find?_eq_some hfind, by simpa using List.find?_some hfind, hx⟩

/-- What is left of a line, given what to take out of its block. -/
def leftOf (raw : String) (b : Block) (drop : List String) : Option String :=
  if drop.isEmpty then some raw
  else if (b.without drop).isBare then none else some (b.without drop).render

theorem leftOf_eq_some_iff {raw : String} {b : Block} {drop : List String} (h : ReadsFrom raw b)
    (hdrop : ∀ mark ∈ drop, ∃ w ∈ b.words, .singleton w.letter = mark ∨ w.code = mark) :
    leftOf raw b drop = some raw ↔ drop = [] := by
  constructor
  · intro hleft
    cases drop with
    | nil => rfl
    | cons mark marks =>
      obtain ⟨w, hw, hmark⟩ := hdrop mark (.head _)
      have hne := render_without_ne (mark :: marks) h
        ⟨w, hw, hmark.imp (by rintro rfl; exact .head _) (by rintro rfl; exact .head _)⟩
      simp only [leftOf, List.isEmpty_cons, Bool.false_eq_true, if_false] at hleft
      split at hleft
      · cases hleft
      · exact absurd (Option.some.inj hleft) hne
  · rintro rfl
    rfl

/-- The marks of the words that are stated again on a block. -/
def restated (s : Stated) (before : Modal) (b : Block) : List String :=
  (s.repeated (b.codes 'G')).2 ++ if repeatsFeed before b then ["F"] else []

theorem mem_restated {s : Stated} {before : Modal} {b : Block} {mark : String}
    (h : mark ∈ restated s before b) :
    ∃ w ∈ b.words, .singleton w.letter = mark ∨ w.code = mark := by
  rw [restated, List.mem_append] at h
  rcases h with h | h
  · obtain ⟨w, hw, -, hcode⟩ := mem_codes (Stated.repeated_subset s _ h)
    exact ⟨w, hw, .inr hcode⟩
  · cases hfeed : repeatsFeed before b with
    | false => simp [hfeed] at h
    | true =>
      simp only [hfeed, if_true, List.mem_singleton] at h
      subst h
      cases hvalue : b.value 'F' with
      | none => simp [repeatsFeed, hvalue] at hfeed
      | some x =>
        obtain ⟨w, hw, hletter, -⟩ := value_eq_some hvalue
        exact ⟨w, hw, .inl (by rw [hletter]; rfl)⟩

theorem trimStated_cons_none (s : Stated) {stop : Stop} (h : stop.block? = none)
    (rest : List Stop) : trimStated s (stop :: rest) = stop.raw :: trimStated s rest := by
  rw [trimStated, h]

theorem trimStated_cons_some (s : Stated) {stop : Stop} {b : Block} (h : stop.block? = some b)
    (rest : List Stop) :
    trimStated s (stop :: rest) =
      (leftOf stop.raw b (restated s stop.before b)).toList ++
        trimStated (s.repeated (b.codes 'G')).1 rest := by
  have hunfold : trimStated s (stop :: rest) =
      if (restated s stop.before b).isEmpty then
        stop.raw :: trimStated (s.repeated (b.codes 'G')).1 rest
      else if (b.without (restated s stop.before b)).isBare then
        trimStated (s.repeated (b.codes 'G')).1 rest
      else (b.without (restated s stop.before b)).render ::
        trimStated (s.repeated (b.codes 'G')).1 rest := by
    rw [trimStated, h]
    rfl
  rw [hunfold, leftOf]
  by_cases hempty : (restated s stop.before b).isEmpty = true
  · simp [hempty]
  · by_cases hbare : (b.without (restated s stop.before b)).isBare = true
    · simp [hempty, hbare]
    · simp [hempty, hbare]

theorem length_trimStated_le (s : Stated) (stops : List Stop) :
    (trimStated s stops).length ≤ stops.length := by
  induction stops generalizing s with
  | nil => simp [trimStated]
  | cons stop rest ih =>
    cases hb : stop.block? with
    | none => simpa [trimStated_cons_none s hb] using ih s
    | some b =>
      have hrest := ih (s.repeated (b.codes 'G')).1
      have hleft := Option.length_toList_le (o := leftOf stop.raw b (restated s stop.before b))
      rw [trimStated_cons_some s hb, List.length_append, List.length_cons]
      omega

theorem trimStated_eq_raws_iff (s : Stated) (hreads : ∀ s ∈ stops, Reads s) :
    trimStated s stops = stops.map Stop.raw ↔ RestatesNothing s stops := by
  induction stops generalizing s with
  | nil => simp [trimStated, RestatesNothing]
  | cons stop rest ih =>
    have ih := fun s => ih s fun t ht => hreads t (.tail _ ht)
    cases hb : stop.block? with
    | none => simp [trimStated_cons_none s hb, RestatesNothing, hb, ih]
    | some b =>
      have hlength := length_trimStated_le (s.repeated (b.codes 'G')).1 rest
      rw [trimStated_cons_some s hb, List.map_cons,
        toList_append_eq_cons_iff (by simpa using hlength), ih,
        leftOf_eq_some_iff (hreads stop (.head _) b hb) fun _ => mem_restated]
      simp [restated, RestatesNothing, hb, and_assoc]

theorem removeRedundantCodes_eq_self_iff :
    (removeRedundantCodes ls).result = .ok ls ↔ Along ls (RestatesNothing {}) := by
  rw [removeRedundantCodes, ofWalk_eq_self_iff]
  exact along_congr fun stops hwalk => trimStated_eq_raws_iff {} (walk_reads hwalk)

/-- What is known of a block that repeats a motion code. -/
structure Restates (before : Modal) (b : Block) (code : Code) : Prop where
  mode : code ∈ Code.motionModes
  only : (b.codes 'G').filter Code.motionModes.contains = [code]
  motion : before.motion = some code
  cycle : before.cycle = none

theorem restates_of_restatedMotion? {before : Modal} {b : Block} {code : Code}
    (h : restatedMotion? before b = some code) : Restates before b code := by
  unfold restatedMotion? at h
  split at h
  · rename_i hcycle hfilter
    split at h
    · rename_i hmotion
      cases h
      have hmem : code ∈ (b.codes 'G').filter Code.motionModes.contains := by simp [hfilter]
      exact ⟨List.contains_iff_mem.1 (List.mem_filter.1 hmem).2, hfilter, beq_iff_eq.1 hmotion,
        hcycle⟩
    · cases h
  · cases h

theorem Restates.mem {before : Modal} {b : Block} {code : Code} (h : Restates before b code) :
    code ∈ b.codes 'G' := by
  have hmem : code ∈ (b.codes 'G').filter Code.motionModes.contains := by simp [h.only]
  exact (List.mem_filter.1 hmem).1

/-- A block that repeats a motion code loses it, and its line goes if no other word is there; any
other line stays as it stands. -/
theorem dropMotionCode_cases (s : Stop) :
    (∀ b, s.block? = some b → restatedMotion? s.before b = none) ∧
        dropMotionCode s = some s.raw ∨
      ∃ b code, s.block? = some b ∧ restatedMotion? s.before b = some code ∧
        ((b.without [code]).words = [] ∧ dropMotionCode s = none ∨
          dropMotionCode s = some (b.without [code]).render) := by
  rw [dropMotionCode]
  cases hb : s.block? with
  | none =>
    refine .inl ⟨?_, rfl⟩
    rintro b ⟨⟩
  | some b =>
    cases hcode : restatedMotion? s.before b with
    | none =>
      refine .inl ⟨?_, by simp only [hcode]⟩
      rintro b ⟨⟩
      exact hcode
    | some code =>
      refine .inr ⟨b, code, rfl, hcode, ?_⟩
      simp only [hcode]
      split
      · rename_i hempty
        exact .inl ⟨List.isEmpty_iff.1 (Bool.and_eq_true_iff.1 hempty).1, rfl⟩
      · exact .inr rfl

/-- A line without the motion code that it repeats is not as it was. -/
theorem dropMotionCode_eq_some_iff {s : Stop} (hs : Reads s) :
    dropMotionCode s = some s.raw ↔ ∀ b, s.block? = some b → restatedMotion? s.before b = none := by
  rcases dropMotionCode_cases s with ⟨hnone, hstays⟩ | ⟨b, code, hb, hcode, hleft⟩
  · exact iff_of_true hstays hnone
  · obtain ⟨w, hw, -, hwcode⟩ := mem_codes (restates_of_restatedMotion? hcode).mem
    have hne := render_without_ne [code] (hs b hb) ⟨w, hw, .inr (by simp [hwcode])⟩
    refine iff_of_false (fun hstays => ?_) fun hnone => ?_
    · rcases hleft with ⟨-, hgone⟩ | hleft
      · rw [hgone] at hstays
        cases hstays
      · rw [hleft] at hstays
        exact hne (Option.some.inj hstays)
    · rw [hnone b hb] at hcode
      cases hcode

theorem dropMotionCodes_eq_self_iff :
    (dropMotionCodes ls).result = .ok ls ↔ Along ls fun stops =>
      ∀ s ∈ stops, ∀ b, s.block? = some b → restatedMotion? s.before b = none := by
  rw [dropMotionCodes, ofWalk_eq_self_iff]
  refine along_congr fun stops hwalk => ?_
  rw [filterMap_eq_map_iff]
  exact forall₂_congr fun s hs => dropMotionCode_eq_some_iff (walk_reads hwalk s hs)

/-! ## Rules that join neighbours -/

theorem rapids_joining : Joining rapidEnds? goesOn Stop.raw Rapids.add Rapids.written
    Rapids.open? where
  keep r s h := by
    simp only [Rapids.add]
    split
    · rename_i b hb hrapid
      have hends : rapidEnds? s = some (s.before.position, s.after.position) := by
        simp [rapidEnds?, hrapid]
      split
      · exact ⟨rfl, hends.symm⟩
      · rename_i start middle hopen
        have hnot : (omitsFixed b start middle &&
            continues start middle s.after.position) = false := by
          simpa [goesOn, hopen, hrapid, hb] using h
        simp [hnot, hends]
    · rename_i hnone
      have hplain : isPlainRapid s = false := by
        cases hrapid : isPlainRapid s with
        | false => rfl
        | true =>
          cases hb : s.block? with
          | some b => exact absurd hrapid (hnone b hb)
          | none =>
            simp only [Stop.block?, Option.map_eq_none_iff] at hb
            simp [isPlainRapid, hb] at hrapid
      simp [rapidEnds?, hplain]
  join r s h := by
    simp only [Option.any_eq_true, goesOn, Bool.and_eq_true] at h
    obtain ⟨⟨start, middle⟩, hopen, hrapid, b, hb, hjoin⟩ := h
    exact ⟨(asRapid b).render, by simp [Rapids.add, hb, hrapid, hopen, hjoin]⟩

theorem optimizeRapidMoves_eq_self_iff :
    (optimizeRapidMoves ls).result = .ok ls ↔ Along ls fun stops =>
      stops.IsChain fun s t => (rapidEnds? s).any (goesOn · t) = false := by
  rw [optimizeRapidMoves, ofWalk_eq_self_iff]
  refine along_congr fun stops _ => ?_
  have := rapids_joining.foldl_eq_iff stops {} (by simp)
  rw [← noneJoins_none, ← this]
  rfl

theorem modalLines_joining : Joining (fun line : String × Option Block => modalOnly? line.2)
    goesWith Prod.fst ModalLines.add ModalLines.written ModalLines.open? where
  keep m line h := by
    simp only [ModalLines.add]
    split
    · rename_i hnone
      exact ⟨rfl, hnone.symm⟩
    · rename_i codes hcodes
      split
      · exact ⟨rfl, hcodes.symm⟩
      · rename_i before hopen
        have hnot : disjointGroups before codes = false := by
          simpa [goesWith, hopen, hcodes] using h
        simp [hnot, hcodes]
  join m line h := by
    simp only [Option.any_eq_true, goesWith] at h
    obtain ⟨before, hopen, codes, hcodes, hjoin⟩ := h
    exact ⟨" ".intercalate (before ++ codes), by simp [ModalLines.add, hcodes, hopen, hjoin]⟩

theorem readLines_map_fst (n : Int) (ls : Lines) : (readLines n ls).map Prod.fst = ls := by
  induction ls generalizing n with
  | nil => rfl
  | cons raw rest ih => simp [readLines, ih]

theorem consolidateCodes_eq_self_iff :
    consolidateCodes ls = ls ↔
      (readLines 1 ls).IsChain fun a b => (modalOnly? a.2).any (goesWith · b) = false := by
  have := modalLines_joining.foldl_eq_iff (readLines 1 ls) {} (by simp)
  rw [← noneJoins_none, ← this, readLines_map_fst]
  rfl

/-! ## Feeds -/

theorem read_of_mem_readLines {n : Int} {line : String × Option Block}
    (h : line ∈ readLines n ls) : ∃ k, Block.read? line.1 k = line.2 := by
  induction ls generalizing n with
  | nil => cases h
  | cons raw rest ih =>
    simp only [readLines, List.mem_cons] at h
    rcases h with rfl | h
    · exact ⟨n, rfl⟩
    · exact ih h

/-- What is left of a line when its feed is brought into range. -/
def clampedLine (p : Profile) (dropRestated : Bool) (m : FeedMode) (raw : String) (b : Block)
    (feed : Float) : Option String :=
  let clamped := clampFeed p m.perTurn feed
  if dropRestated && m.active.any (clamped == ·) then
    if (b.without ["F"]).isBare then none else some (b.without ["F"]).render
  else if clamped == feed then some raw
  else some (withFeed b clamped).render

theorem clampFeeds_cons_some (p : Profile) (dropRestated : Bool) (m : FeedMode) {raw : String}
    {b : Block} {feed : Float} (hvalue : b.value 'F' = some feed)
    (rest : List (String × Option Block)) :
    clampFeeds p dropRestated m ((raw, some b) :: rest) =
      (clampedLine p dropRestated (m.meet b) raw b feed).toList ++
        clampFeeds p dropRestated
          { m.meet b with active := some (clampFeed p (m.meet b).perTurn feed) } rest := by
  simp only [clampFeeds, hvalue, clampedLine]
  split
  · split <;> rfl
  · split <;> rfl

/-- A feed that is in effect already goes, with its line if nothing else is there; a feed in range
stays as it stands, and any other one is written anew. -/
theorem clampedLine_cases (p : Profile) (dropRestated : Bool) (m : FeedMode) (raw : String)
    (b : Block) (feed : Float) :
    let x := clampFeed p m.perTurn feed
    (dropRestated && m.active.any (x == ·)) = true ∧
        ((b.without ["F"]).isBare = true ∧ clampedLine p dropRestated m raw b feed = none ∨
          clampedLine p dropRestated m raw b feed = some (b.without ["F"]).render) ∨
      (dropRestated && m.active.any (x == ·)) = false ∧
        ((x == feed) = true ∧ clampedLine p dropRestated m raw b feed = some raw ∨
          (x == feed) = false ∧
            clampedLine p dropRestated m raw b feed = some (withFeed b x).render) := by
  intro x
  simp only [clampedLine]
  cases dropRestated && m.active.any (x == ·) with
  | true =>
    rw [if_pos rfl]
    cases (b.without ["F"]).isBare with
    | true => exact .inl ⟨rfl, .inl ⟨rfl, rfl⟩⟩
    | false => exact .inl ⟨rfl, .inr rfl⟩
  | false =>
    rw [if_neg Bool.false_ne_true]
    cases x == feed with
    | true => exact .inr ⟨rfl, .inl ⟨rfl, rfl⟩⟩
    | false => exact .inr ⟨rfl, .inr ⟨rfl, rfl⟩⟩

/-- A feed that is brought into range is a limit. -/
theorem clampFeed_cases (p : Profile) (perTurn : Bool) (feed : Float) :
    clampFeed p perTurn feed = feed ∨
      clampFeed p perTurn feed ∈ [if perTurn then 0.0 else p.minFeed, p.maxFeed] := by
  simp only [clampFeed, Scalar.smaller, Scalar.larger]
  split_ifs <;> simp

/-- A limit is written as a numeral that stands for it. -/
theorem limit_numeral (c : Controller) (perTurn : Bool) {x : Float}
    (h : x ∈ [if perTurn then 0.0 else c.profile.minFeed, c.profile.maxFeed]) :
    IsNumeral (Number.coordinate x).toList ∧
      (x == Number.numeralValue (Number.coordinate x).toList) = true := by
  have hread : ∀ x ∈ [if perTurn then 0.0 else c.profile.minFeed, c.profile.maxFeed],
      Number.numeral? (Number.coordinate x).toList = some ((Number.coordinate x).toList, []) ∧
        (x == Number.numeralValue (Number.coordinate x).toList) = true := by
    cases c <;> cases perTurn <;> decide +kernel
  obtain ⟨hnumeral, hvalue⟩ := hread x h
  exact ⟨(numeral?_spec hnumeral).2, hvalue⟩

/-- A feed that is changed is brought to a limit. -/
theorem clampFeed_numeral {c : Controller} {perTurn : Bool} {b : Block} {feed : Float}
    (hfeed : b.value 'F' = some feed)
    (hdiffer : ¬ (clampFeed c.profile perTurn feed == feed) = true) :
    IsNumeral (Number.coordinate (clampFeed c.profile perTurn feed)).toList ∧
      (clampFeed c.profile perTurn feed == Number.numeralValue
        (Number.coordinate (clampFeed c.profile perTurn feed)).toList) = true := by
  refine limit_numeral c perTurn
    ((clampFeed_cases c.profile perTurn feed).resolve_left fun hsame => ?_)
  rw [hsame] at hdiffer
  exact hdiffer (Number.beq_self (Block.value_isNumber hfeed))

theorem withFeed_wellFormed {b : Block} {feed : Float} (h : b.WellFormed)
    (hfeed : IsNumeral (Number.coordinate feed).toList) : (withFeed b feed).WellFormed where
  words w hw := by
    obtain ⟨v, hv, rfl⟩ := List.mem_map.1 hw
    split
    · have hletter : 'F' ∈ addressLetters := by decide
      exact ⟨hletter, hfeed⟩
    · exact h.words v hv
  corner := h.corner
  comment := h.comment

/-- A line whose feed was changed is not as it was. -/
theorem render_withFeed_ne {raw : String} {b : Block} {feed x : Float} (h : ReadsFrom raw b)
    (hx : IsNumeral (Number.coordinate x).toList)
    (hvalue : (x == Number.numeralValue (Number.coordinate x).toList) = true)
    (hfeed : b.value 'F' = some feed) (hne : (x == feed) = false) :
    (withFeed b x).render ≠ raw := by
  obtain ⟨hwell, k, hread⟩ := h
  refine Block.render_ne hread (withFeed_wellFormed hwell hx) (.inl fun heq => ?_)
  obtain ⟨w, hw, hletter, rfl⟩ := value_eq_some hfeed
  have hsame := map_eq_self_iff.1 heq w hw
  simp only [hletter, beq_self_eq_true, if_true] at hsame
  rw [← hsame] at hne
  exact absurd hvalue (by simpa [Word.value] using hne)

theorem clampedLine_eq_some_iff {c : Controller} {dropRestated : Bool} {m : FeedMode}
    {raw : String} {b : Block} {feed : Float} (h : ReadsFrom raw b)
    (hfeed : b.value 'F' = some feed) :
    clampedLine c.profile dropRestated m raw b feed = some raw ↔
      (clampFeed c.profile m.perTurn feed == feed) = true ∧
        (dropRestated && m.active.any (clampFeed c.profile m.perTurn feed == ·)) = false := by
  rcases clampedLine_cases c.profile dropRestated m raw b feed with
    ⟨hdrop, hleft⟩ | ⟨hkeep, ⟨hsame, hleft⟩ | ⟨hdiffer, hleft⟩⟩
  · obtain ⟨w, hw, hletter, -⟩ := value_eq_some hfeed
    have hne := render_without_ne ["F"] h ⟨w, hw, .inl (by rw [hletter]; exact .head _)⟩
    simp only [hdrop, Bool.true_eq_false, and_false, iff_false]
    rcases hleft with ⟨-, hleft⟩ | hleft
    · simp [hleft]
    · rw [hleft]
      exact fun heq => hne (Option.some.inj heq)
  · simp [hleft, hsame, hkeep]
  · obtain ⟨hnumeral, hvalue⟩ := clampFeed_numeral hfeed (Bool.eq_false_iff.1 hdiffer)
    have hne := render_withFeed_ne h hnumeral hvalue hfeed hdiffer
    rw [hleft]
    simp only [hdiffer, Bool.false_eq_true, false_and, iff_false]
    exact fun heq => hne (Option.some.inj heq)

theorem length_clampFeeds_le (p : Profile) (dropRestated : Bool) (m : FeedMode)
    (lines : List (String × Option Block)) :
    (clampFeeds p dropRestated m lines).length ≤ lines.length := by
  induction lines generalizing m with
  | nil => simp [clampFeeds]
  | cons line rest ih =>
    obtain ⟨raw, block?⟩ := line
    cases block? with
    | none => simpa [clampFeeds] using ih m
    | some b =>
      cases hvalue : b.value 'F' with
      | none => simpa [clampFeeds, hvalue] using ih (m.meet b)
      | some feed =>
        have hrest := ih
          { m.meet b with active := some (clampFeed p (m.meet b).perTurn feed) }
        have hline := Option.length_toList_le
          (o := clampedLine p dropRestated (m.meet b) raw b feed)
        rw [clampFeeds_cons_some p dropRestated m hvalue, List.length_append, List.length_cons]
        omega

theorem clampFeeds_eq_raws_iff (c : Controller) (dropRestated : Bool) (m : FeedMode)
    {lines : List (String × Option Block)}
    (hreads : ∀ line ∈ lines, ∀ b, line.2 = some b → ReadsFrom line.1 b) :
    clampFeeds c.profile dropRestated m lines = lines.map Prod.fst ↔
      FeedsInRange c.profile dropRestated m lines := by
  induction lines generalizing m with
  | nil => simp [clampFeeds, FeedsInRange]
  | cons line rest ih =>
    have ih := fun m => ih m fun line hline => hreads line (.tail _ hline)
    obtain ⟨raw, block?⟩ := line
    cases block? with
    | none => simp [clampFeeds, FeedsInRange, ih]
    | some b =>
      cases hvalue : b.value 'F' with
      | none => simp [clampFeeds, FeedsInRange, hvalue, ih]
      | some feed =>
        have hlength := length_clampFeeds_le c.profile dropRestated
          { m.meet b with active := some (clampFeed c.profile (m.meet b).perTurn feed) } rest
        rw [clampFeeds_cons_some _ _ _ hvalue, List.map_cons,
          toList_append_eq_cons_iff (by simpa using hlength), ih,
          clampedLine_eq_some_iff (hreads _ (.head _) b rfl) hvalue]
        simp [FeedsInRange, hvalue, and_assoc]

theorem optimizeFeedrates_eq_self_iff {job : Job} :
    optimizeFeedrates job ls = ls ↔
      FeedsInRange job.profile (job.flag .removeRedundantCodes) {} (readLines 1 ls) := by
  have hreads : ∀ line ∈ readLines 1 ls, ∀ b, line.2 = some b → ReadsFrom line.1 b := by
    intro line hline b hb
    obtain ⟨k, hread⟩ := read_of_mem_readLines hline
    rw [hb] at hread
    exact ⟨Block.wellFormed_of_read? hread, k, hread⟩
  have := clampFeeds_eq_raws_iff job.controller (job.flag .removeRedundantCodes) {} hreads
  rw [readLines_map_fst] at this
  exact this

/-! ## Arcs, smoothing and corners -/

theorem length_growChain_le (fit : Fit) (points : List (PlanePoint Float)) (rest : List Stop) :
    (growChain fit points rest).length ≤ points.length + rest.length := by
  induction rest generalizing points with
  | nil => simp [growChain]
  | cons s rest ih =>
    simp only [growChain]
    split
    · split
      · have hlonger := ih (points ++ [flat s.after.position])
        simp only [List.length_append, List.length_cons, List.length_nil] at hlonger ⊢
        omega
      · omega
    · omega

/-- A chain takes in lines that follow its first one. -/
theorem chainAt?_more {fit : Fit} {s : Stop} {rest : List Stop} {block : String} {more : Nat}
    (h : chainAt? fit s rest = some (block, more)) : 1 ≤ more ∧ more ≤ rest.length := by
  simp only [chainAt?] at h
  split at h
  · cases h
  · rename_i b r _
    split at h
    · cases h
    · split at h
      · cases h
      · rename_i hlong
        have hgrow := length_growChain_le fit
          [flat s.before.position, flat r.state.position] rest
        simp only [Option.bind_eq_bind, Option.bind_eq_some_iff, Option.pure_def,
          Option.some.injEq, Prod.mk.injEq] at h
        obtain ⟨arc, -, finish, -, -, rfl⟩ := h
        simp only [CircleFit.minChords, List.length_cons, List.length_nil] at hlong hgrow
        omega

theorem length_replaceChains_le (fit : Fit) (lost : Bool) (skip : Nat) (stops : List Stop) :
    (replaceChains fit lost skip stops).length ≤ stops.length - skip := by
  induction stops generalizing lost skip with
  | nil => simp [replaceChains]
  | cons s rest ih =>
    cases skip with
    | succ k => simpa [replaceChains] using ih lost k
    | zero =>
      simp only [replaceChains]
      split
      · rename_i block more _
        have hrest := ih true more
        simp only [List.length_cons]
        omega
      · have hrest := ih (restoreFeedMode lost s).2 0
        simp only [List.length_cons]
        omega

theorem restoreFeedMode_false (s : Stop) : restoreFeedMode false s = (s.raw, false) := by
  cases s.found <;> simp [restoreFeedMode]

theorem replaceChains_eq_raws_iff (fit : Fit) :
    replaceChains fit false 0 stops = stops.map Stop.raw ↔ HasNoChain fit stops := by
  induction stops with
  | nil => simp [replaceChains, HasNoChain]
  | cons s rest ih =>
    simp only [replaceChains, HasNoChain, List.map_cons]
    cases hchain : chainAt? fit s rest with
    | none => simp [restoreFeedMode_false, ih]
    | some found =>
      obtain ⟨block, more⟩ := found
      have hmore := chainAt?_more hchain
      have hlength := length_replaceChains_le fit true more rest
      simp only [reduceCtorEq, false_and, iff_false]
      intro heq
      have hcount := congrArg List.length heq
      simp only [List.length_cons, List.length_map] at hcount
      omega

theorem useArcOptimization_eq_self_iff :
    (useArcOptimization ls).result = .ok ls ↔ Along ls (HasNoChain CircleFit.fit) := by
  rw [useArcOptimization, ofWalk_eq_self_iff]
  exact along_congr fun stops _ => replaceChains_eq_raws_iff CircleFit.fit

theorem useHighSpeedMode_eq_self_iff {job : Job} :
    useHighSpeedMode job ls = ls ↔ saysSmoothing ls = true := by
  simp only [useHighSpeedMode]
  split
  · rename_i hsmooth
    simp [hsmooth]
  · rename_i hsmooth
    simp only [Bool.not_eq_true _ ▸ hsmooth, Bool.false_eq_true, iff_false]
    intro heq
    have hlength := congrArg List.length heq
    rw [length_insertAt, length_insertAt] at hlength
    have hon : (smoothingOn job).length ≠ 0 := by simp [smoothingOn]
    omega

theorem rounded?_spec {s : Stop} {rest : List Stop} {b' : Block} (h : rounded? s rest = some b') :
    ∃ b, s.block? = some b ∧ b.corner = none ∧ b' = { b with corner := some cornerWord } := by
  simp only [rounded?, Option.bind_eq_bind, Option.bind_eq_some_iff, Prod.exists] at h
  obtain ⟨b, r, hfound, h⟩ := h
  split at h
  · cases h
  · rename_i hcorner
    simp only [Option.bind_eq_some_iff] at h
    obtain ⟨m, -, n, -, h⟩ := h
    split at h
    · cases h
      exact ⟨b, by simp [Stop.block?, hfound], by simpa using hcorner, rfl⟩
    · cases h

theorem cornerWord_wellFormed : cornerWord.WellFormed where
  letter := .inl rfl
  numeral := by
    have h : Number.numeral? cornerWord.text.toList = some (cornerWord.text.toList, []) := by
      decide
    exact (numeral?_spec h).2

theorem wellFormed_cornered {b : Block} (h : b.WellFormed) :
    ({ b with corner := some cornerWord } : Block).WellFormed :=
  ⟨h.words, fun c hc => by cases hc; exact cornerWord_wellFormed, h.comment⟩

theorem roundCornersOf_eq_raws_iff (hreads : ∀ s ∈ stops, Reads s) :
    roundCornersOf stops = stops.map Stop.raw ↔ HasNoCorner stops := by
  induction stops with
  | nil => simp [roundCornersOf, HasNoCorner]
  | cons s rest ih =>
    have ih := ih fun t ht => hreads t (.tail _ ht)
    simp only [roundCornersOf, HasNoCorner, List.map_cons, List.cons.injEq, ih]
    cases hround : rounded? s rest with
    | none => simp
    | some b' =>
      obtain ⟨b, hb, hcorner, rfl⟩ := rounded?_spec hround
      obtain ⟨hwell, k, hread⟩ := hreads s (.head _) b hb
      have hne := Block.render_ne hread (wellFormed_cornered hwell) (.inr (by simp [hcorner]))
      simp [hne]

theorem roundCorners_eq_self_iff :
    (roundCorners ls).result = .ok ls ↔ Along ls HasNoCorner := by
  rw [roundCorners, ofWalk_eq_self_iff]
  exact along_congr fun stops hwalk => roundCornersOf_eq_raws_iff (walk_reads hwalk)

end

end Rule

end PartProgram

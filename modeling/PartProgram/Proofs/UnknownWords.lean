import PartProgram.Proofs.MergedRapids
import PartProgram.Proofs.RestatedModes

/-!
# PartProgram.Proofs.UnknownWords

Address words that no control knows, such as the words of rotary axes. Reading a line passes over
them, so a block that is written from its parts has none. The rules that write blocks leave of every
line either the line as it stands, with all its words, or a line without such words, or nothing.

* `unknownWords_render`: what a block is written as holds no unknown words.
* `StandardRule.leavings`: what a rule leaves of every line.
* `StandardRule.run_unknownWords`: the unknown words that are left are those of the lines that stay
  as they stand; none is lost exactly if no other line has any.
-/

namespace PartProgram

open Text

/-- All address words of a line, in order. -/
def wordsOn (line : String) : List Word :=
  let code := trim ((CommentedLine.ofChars (Block.dropLineEnd line.toList)).codeWith [' '])
  Block.addressWords (Block.splitCorner (Block.splitNumber code).2).2

/-- Those that no control knows. -/
def unknownWords (line : String) : List Word :=
  (wordsOn line).filter fun w => !addressLetters.contains w.letter

/-! ## Written blocks -/

section

variable {line : String} {n : Int} {b : Block}

/-- A block holds the other words of its line. -/
theorem words_of_read? (h : Block.read? line n = some b) :
    b.words = (wordsOn line).filter fun w => addressLetters.contains w.letter := by
  simp only [Block.read?, Option.map_eq_some_iff] at h
  obtain ⟨code, hcode, rfl⟩ := h
  rw [Block.code?] at hcode
  split at hcode
  · cases hcode
  · rw [wordsOn, Option.some.inj hcode]

/-- A line without a block holds no words at all. -/
theorem wordsOn_of_read?_none (h : Block.read? line n = none) : wordsOn line = [] := by
  rw [Block.read?, Option.map_eq_none_iff, Block.code?] at h
  split at h
  · rename_i hcode
    rw [wordsOn]
    simp only [Bool.or_eq_true, List.isEmpty_iff, decide_eq_true_eq] at hcode
    rcases hcode with hcode | hcode <;> rw [hcode] <;> decide
  · cases h

/-- A written block holds its own words and no others. -/
theorem wordsOn_render (h : b.WellFormed) : wordsOn b.render = b.words := by
  by_cases hparts : b.parts = []
  · have hwords : b.words = [] := by
      by_contra hwords
      exact Block.parts_ne_nil (.inl hwords) hparts
    rw [hwords, wordsOn_of_read?_none (Block.read?_render_of_parts_nil h hparts 1)]
  · obtain ⟨blanks, hblanks, hcode, -⟩ := h.ofChars hparts
    obtain ⟨rest, cs, hnumber, hcorner, hwords⟩ := h.splitCode hparts
    have hnil : ∀ c ∈ ([] : List Char), isBlank c = true := by simp
    have htrim : trim (joined b.parts ++ blanks) = joined b.parts := by
      simpa using (snug_joined hparts h.snug).trim hnil hblanks
    rw [wordsOn, dropLineEnd_of_snug (h.snug_render hparts), hcode, htrim, hnumber, hcorner, hwords]

theorem unknownWords_render (h : b.WellFormed) : unknownWords b.render = [] := by
  rw [unknownWords, wordsOn_render h, List.filter_eq_nil_iff]
  intro w hw
  simpa using (h.words w hw).letter

end

/-! ## Lines that are left -/

/-- A line that is left is the line that was there, or has no unknown words. -/
def SparesUnknown (line : String) (left : Option String) : Prop :=
  ∀ l ∈ left, l = line ∨ unknownWords l = []

theorem sparesUnknown_self (line : String) : SparesUnknown line (some line) := by
  rintro l ⟨⟩
  exact .inl rfl

theorem sparesUnknown_none (line : String) : SparesUnknown line none := by
  rintro l ⟨⟩

theorem sparesUnknown_render (line : String) {b : Block} (h : b.WellFormed) :
    SparesUnknown line (some b.render) := by
  rintro l ⟨⟩
  exact .inr (unknownWords_render h)

section

variable {ls : Lines} {left : List (Option String)}

/-- The unknown words that are left are those of the lines that stay as they stand. -/
theorem flatMap_unknownWords (h : List.Forall₂ SparesUnknown ls left) :
    left.reduceOption.flatMap unknownWords =
      (ls.zip left).flatMap fun p => if p.2 = some p.1 then unknownWords p.1 else [] := by
  induction h with
  | nil => rfl
  | @cons line o ls left hline _ ih =>
    rw [List.zip_cons_cons, List.flatMap_cons, ← ih]
    cases o with
    | none => rfl
    | some l =>
      rw [List.reduceOption_cons_of_some, List.flatMap_cons]
      by_cases hsame : l = line
      · rw [if_pos (by rw [hsame]), hsame]
      · rw [if_neg (by simpa using hsame), (hline l rfl).resolve_left hsame]

/-- No unknown word is lost exactly if all of them stand on lines that stay. -/
theorem flatMap_unknownWords_eq_iff (h : List.Forall₂ SparesUnknown ls left) :
    left.reduceOption.flatMap unknownWords = ls.flatMap unknownWords ↔
      ∀ p ∈ ls.zip left, p.2 = some p.1 ∨ unknownWords p.1 = [] := by
  have hall : ls.flatMap unknownWords = (ls.zip left).flatMap fun p => unknownWords p.1 := by
    rw [← List.flatMap_map Prod.fst, List.map_fst_zip h.length_eq.le]
  rw [flatMap_unknownWords h, hall, flatMap_eq_iff fun p _ => by split <;> simp]
  refine forall₂_congr fun p _ => ?_
  by_cases hsame : p.2 = some p.1
  · simp [hsame]
  · rw [if_neg hsame, eq_comm]
    exact (or_iff_right hsame).symm

end

namespace Rule

variable {m : Modal} {settings : Settings} {n : Int} {ls : Lines} {stops : List Stop}

/-! ## Restated words -/

theorem spares_leftOf {raw : String} {b : Block} (hread : Block.read? raw n = some b)
    (drop : List String) : SparesUnknown raw (leftOf raw b drop) := by
  have hwell := (Block.wellFormed_of_read? hread).without drop
  rw [leftOf]
  split
  · exact sparesUnknown_self raw
  · split
    · exact sparesUnknown_none raw
    · exact sparesUnknown_render raw hwell

theorem spares_trims (s : Stated) (h : m.walkFrom settings n ls = .ok stops) :
    List.Forall₂ SparesUnknown ls ((trims s stops).map Trim.left) := by
  induction ls generalizing m n s stops with
  | nil =>
    cases h
    exact .nil
  | cons raw rest ih =>
    simp only [Modal.walkFrom, bind_eq_ok, pure_eq_ok] at h
    obtain ⟨stop, hstop, more, hmore, rfl⟩ := h
    obtain ⟨hraw, -, hblock⟩ := stopAt_eq_ok hstop
    rw [trims, List.map_cons]
    refine .cons ?_ (ih _ hmore)
    rw [trimOf]
    split
    · rw [hraw]
      exact sparesUnknown_self raw
    · rename_i b hb
      rw [hraw]
      exact spares_leftOf (hblock.symm.trans hb) _

/-! ## Motion codes and corners -/

theorem spares_dropMotionCode {s : Stop} (h : ∀ b, s.block? = some b → b.WellFormed) :
    SparesUnknown s.raw (dropMotionCode s) := by
  rcases dropMotionCode_cases s with ⟨-, hleft⟩ | ⟨b, code, hb, -, ⟨-, hleft⟩ | hleft⟩ <;> rw [hleft]
  · exact sparesUnknown_self s.raw
  · exact sparesUnknown_none s.raw
  · exact sparesUnknown_render s.raw ((h b hb).without [code])

theorem spares_rounded {s : Stop} (h : ∀ b, s.block? = some b → b.WellFormed)
    (rest : List Stop) :
    SparesUnknown s.raw (some (((rounded? s rest).map Block.render).getD s.raw)) := by
  cases hround : rounded? s rest with
  | none => exact sparesUnknown_self s.raw
  | some b' =>
    obtain ⟨b, hb, -, rfl⟩ := rounded?_spec hround
    exact sparesUnknown_render s.raw (wellFormed_cornered (h b hb))

theorem spares_roundCornersOf (h : ∀ s ∈ stops, ∀ b, s.block? = some b → b.WellFormed) :
    List.Forall₂ SparesUnknown (stops.map Stop.raw) ((roundCornersOf stops).map some) := by
  induction stops with
  | nil => exact .nil
  | cons s rest ih =>
    rw [roundCornersOf]
    exact .cons (spares_rounded (h s (.head _)) rest) (ih fun t ht => h t (.tail _ ht))

/-! ## Joined lines -/

theorem spares_leftRapids (h : ∀ s ∈ stops, ∀ b, s.block? = some b → b.WellFormed) :
    List.Forall₂ (fun s => SparesUnknown s.raw) stops (leftRapids {} stops) := by
  refine forall_joinedLeft (fun _ => True) trivial fun s hs r _ => ⟨trivial, ?_⟩
  rcases add_cases r s with ⟨-, hwritten, -⟩ | ⟨-, _, _, b, -, hb, -, -, hwritten, -⟩
  · rw [hwritten]
    exact sparesUnknown_self s.raw
  · rw [hwritten]
    exact sparesUnknown_render s.raw (wellFormed_asRapid (h s hs b hb))

/-- What is left of each line when modal codes come together. -/
def leftModes : ModalLines → List (String × Option Block) → List (Option String) :=
  joinedLeft goesWith ModalLines.add ModalLines.written ModalLines.open?

/-- The codes that are open belong to groups. -/
def OpenGrouped (m : ModalLines) : Prop :=
  ∀ codes, m.open? = some codes → ∀ code ∈ codes, (ModalGroup.ofCode? code).isSome = true

theorem spares_addModes {m : ModalLines} {line : String × Option Block}
    (hread : Block.read? line.1 n = line.2) (hm : OpenGrouped m) :
    OpenGrouped (m.add line) ∧ SparesUnknown line.1 (m.add line).written.head? := by
  simp only [ModalLines.add]
  split
  · refine ⟨fun codes hopen => ?_, sparesUnknown_self line.1⟩
    cases hopen
  · rename_i codes hcodes
    rw [← hread] at hcodes
    have hgroups := (modalOnly?_states hcodes).groups
    have hopen : OpenGrouped ⟨line.1 :: m.written, some codes⟩ := by
      rintro codes' ⟨⟩
      exact hgroups
    split
    · exact ⟨hopen, sparesUnknown_self line.1⟩
    · rename_i before hbefore
      split
      · have hjoined : ∀ code ∈ before ++ codes, (ModalGroup.ofCode? code).isSome = true :=
          fun code hcode => (List.mem_append.1 hcode).elim (hm before hbefore code) (hgroups code)
        refine ⟨?_, ?_⟩
        · rintro codes' ⟨⟩
          exact hjoined
        · rw [← render_codeBlock hjoined]
          exact sparesUnknown_render line.1 (wellFormed_codeBlock hjoined)
      · exact ⟨hopen, sparesUnknown_self line.1⟩

theorem spares_leftModes (n : Int) (ls : Lines) :
    List.Forall₂ (fun line => SparesUnknown line.1) (readLines n ls)
      (leftModes {} (readLines n ls)) := by
  have hnone : OpenGrouped {} := fun codes hopen => by cases hopen
  refine forall_joinedLeft OpenGrouped hnone fun line hline m hm => ?_
  obtain ⟨k, hread⟩ := read_of_mem_readLines hline
  exact spares_addModes hread hm

/-! ## Feeds -/

/-- What is left of each line when feeds are brought into range. -/
def leftFeeds (p : Profile) (dropRestated : Bool) (m : FeedMode) :
    List (String × Option Block) → List (Option String)
  | [] => []
  | (raw, none) :: rest => some raw :: leftFeeds p dropRestated m rest
  | (raw, some b) :: rest =>
    match b.value 'F' with
    | none => some raw :: leftFeeds p dropRestated (m.meet b) rest
    | some feed =>
      clampedLine p dropRestated (m.meet b) raw b feed ::
        leftFeeds p dropRestated
          { m.meet b with active := some (clampFeed p (m.meet b).perTurn feed) } rest

theorem reduceOption_leftFeeds (p : Profile) (dropRestated : Bool) (m : FeedMode)
    (lines : List (String × Option Block)) :
    (leftFeeds p dropRestated m lines).reduceOption = clampFeeds p dropRestated m lines := by
  induction lines generalizing m with
  | nil => rfl
  | cons line rest ih =>
    obtain ⟨raw, b?⟩ := line
    cases b? with
    | none => rw [leftFeeds, List.reduceOption_cons_of_some, ih, clampFeeds]
    | some b =>
      cases hvalue : b.value 'F' with
      | none => simp only [leftFeeds, clampFeeds, hvalue, List.reduceOption_cons_of_some, ih]
      | some feed =>
        rw [clampFeeds_cons_some p dropRestated m hvalue, ← ih]
        simp only [leftFeeds, hvalue]
        cases clampedLine p dropRestated (m.meet b) raw b feed with
        | none => rfl
        | some l => rfl

theorem spares_clampedLine {c : Controller} (dropRestated : Bool) (m : FeedMode) {raw : String}
    {b : Block} {feed : Float} (hread : Block.read? raw n = some b)
    (hvalue : b.value 'F' = some feed) :
    SparesUnknown raw (clampedLine c.profile dropRestated m raw b feed) := by
  have hwell := Block.wellFormed_of_read? hread
  rcases clampedLine_cases c.profile dropRestated m raw b feed with
    ⟨-, ⟨-, hleft⟩ | hleft⟩ | ⟨-, ⟨-, hleft⟩ | ⟨hdiffer, hleft⟩⟩ <;> rw [hleft]
  · exact sparesUnknown_none raw
  · exact sparesUnknown_render raw (hwell.without ["F"])
  · exact sparesUnknown_self raw
  · have hnumeral := (clampFeed_numeral hvalue (Bool.eq_false_iff.1 hdiffer)).1
    exact sparesUnknown_render raw (withFeed_wellFormed hwell hnumeral)

theorem spares_leftFeeds {c : Controller} {dropRestated : Bool} {m : FeedMode} (n : Int)
    (ls : Lines) :
    List.Forall₂ SparesUnknown ls (leftFeeds c.profile dropRestated m (readLines n ls)) := by
  induction ls generalizing m n with
  | nil => exact .nil
  | cons raw rest ih =>
    rw [readLines]
    cases hread : Block.read? raw n with
    | none => exact .cons (sparesUnknown_self raw) (ih _)
    | some b =>
      rw [leftFeeds]
      cases hvalue : b.value 'F' with
      | none => exact .cons (sparesUnknown_self raw) (ih _)
      | some feed => exact .cons (spares_clampedLine dropRestated _ hread hvalue) (ih _)

end Rule

/-! ## Rules that write blocks -/

namespace StandardRule

/-- Rules that write blocks from their parts. -/
def blockWriters : List StandardRule :=
  [removeRedundantCodes, optimizeRapidMoves, consolidateCodes, optimizeFeedrates, dropMotionCodes,
    roundCorners]

/-- What a rule of these leaves of every line. -/
def leavings (r : StandardRule) (job : Job) (ls : Lines) : Except Fault (List (Option String)) :=
  match r with
  | removeRedundantCodes => (walk ls).map fun stops => (Rule.trims {} stops).map Trim.left
  | optimizeRapidMoves => (walk ls).map (Rule.leftRapids {})
  | consolidateCodes => .ok (Rule.leftModes {} (readLines 1 ls))
  | optimizeFeedrates =>
    .ok (Rule.leftFeeds job.profile (job.flag .removeRedundantCodes) {} (readLines 1 ls))
  | dropMotionCodes => (walk ls).map (·.map Rule.dropMotionCode)
  | roundCorners => (walk ls).map fun stops => (Rule.roundCornersOf stops).map some
  | _ => .ok []

variable {r : StandardRule} {job : Job} {ls out : Lines} {left : List (Option String)}

theorem result_ofWalk {f : List Stop → Lines} {g : List Stop → List (Option String)}
    (h : ∀ stops, (g stops).reduceOption = f stops) (ls : Lines) :
    (Revised.ofWalk ls f).result = ((walk ls).map g).map List.reduceOption := by
  rw [Revised.ofWalk]
  cases walk ls with
  | error e => rfl
  | ok stops => exact congrArg Except.ok (h stops).symm

/-- The rules write what is left of the lines. -/
theorem run_leavings (hr : r ∈ blockWriters) (job : Job) (ls : Lines) :
    (r.run job ls).result = (r.leavings job ls).map List.reduceOption := by
  simp only [blockWriters, List.mem_cons, List.not_mem_nil, or_false] at hr
  rcases hr with rfl | rfl | rfl | rfl | rfl | rfl
  · refine result_ofWalk (fun stops => ?_) ls
    rw [← Rule.trims_left, List.reduceOption, List.filterMap_map]
    rfl
  · exact result_ofWalk (fun stops => (Rule.rapids_joining.foldl_start stops rfl rfl).symm) ls
  · exact congrArg Except.ok (Rule.modalLines_joining.foldl_start (readLines 1 ls) rfl rfl)
  · exact congrArg Except.ok (Rule.reduceOption_leftFeeds _ _ _ _).symm
  · refine result_ofWalk (fun stops => ?_) ls
    rw [List.reduceOption, List.filterMap_map]
    rfl
  · refine result_ofWalk (fun stops => ?_) ls
    rw [List.reduceOption, List.filterMap_map]
    exact List.filterMap_some

theorem spares_leavings (hr : r ∈ blockWriters) (h : r.leavings job ls = .ok left) :
    List.Forall₂ SparesUnknown ls left := by
  have hstops : ∀ {stops}, walk ls = .ok stops → stops.map Stop.raw = ls ∧
      ∀ s ∈ stops, ∀ b, s.block? = some b → b.WellFormed := by
    intro stops hwalk
    refine ⟨walkFrom_raw hwalk, fun s hs b hb => ?_⟩
    obtain ⟨k, hread⟩ := walkFrom_block hwalk s hs b hb
    exact Block.wellFormed_of_read? hread
  simp only [blockWriters, List.mem_cons, List.not_mem_nil, or_false] at hr
  rcases hr with rfl | rfl | rfl | rfl | rfl | rfl
  · obtain ⟨stops, hwalk, rfl⟩ := map_eq_ok.1 h
    exact Rule.spares_trims {} hwalk
  · obtain ⟨stops, hwalk, rfl⟩ := map_eq_ok.1 h
    obtain ⟨hraw, hblocks⟩ := hstops hwalk
    rw [← hraw, List.forall₂_map_left_iff]
    exact Rule.spares_leftRapids hblocks
  · cases h
    have hlines := Rule.spares_leftModes 1 ls
    rwa [← List.forall₂_map_left_iff, Rule.readLines_map_fst] at hlines
  · cases h
    exact Rule.spares_leftFeeds 1 ls
  · obtain ⟨stops, hwalk, rfl⟩ := map_eq_ok.1 h
    obtain ⟨hraw, hblocks⟩ := hstops hwalk
    rw [← hraw, List.forall₂_map_left_iff, List.forall₂_map_right_iff, List.forall₂_same]
    exact fun s hs => Rule.spares_dropMotionCode (hblocks s hs)
  · obtain ⟨stops, hwalk, rfl⟩ := map_eq_ok.1 h
    obtain ⟨hraw, hblocks⟩ := hstops hwalk
    rw [← hraw]
    exact Rule.spares_roundCornersOf hblocks

/-- Of the words that no control knows a rule that writes blocks leaves those on the lines that stay
as they stand, in order. It loses none exactly if all of them stand on such lines. -/
theorem run_unknownWords (hr : r ∈ blockWriters) (hrun : (r.run job ls).result = .ok out) :
    ∃ left, r.leavings job ls = .ok left ∧ out = left.reduceOption ∧
      List.Forall₂ SparesUnknown ls left ∧
      out.flatMap unknownWords =
        ((ls.zip left).flatMap fun p => if p.2 = some p.1 then unknownWords p.1 else []) ∧
      (out.flatMap unknownWords = ls.flatMap unknownWords ↔
        ∀ p ∈ ls.zip left, p.2 = some p.1 ∨ unknownWords p.1 = []) := by
  rw [run_leavings hr, map_eq_ok] at hrun
  obtain ⟨left, hleft, rfl⟩ := hrun
  have hspares := spares_leavings hr hleft
  exact ⟨left, hleft, rfl, hspares, flatMap_unknownWords hspares,
    flatMap_unknownWords_eq_iff hspares⟩

/-- A feed is brought into range, and all unknown words stand on other lines. -/
theorem run_unknownWords_kept :
    let ls := ["O1", "G1 X1 B90 F500", "X2 F99999", "C-5 (turn) U2"]
    let out := ["O1", "G1 X1 B90 F500", "X2 F10000", "C-5 (turn) U2"]
    optimizeFeedrates ∈ blockWriters ∧
      (optimizeFeedrates.run ⟨.generic, {}⟩ ls).result = .ok out ∧
      out.flatMap unknownWords = [⟨'O', "1"⟩, ⟨'B', "90"⟩, ⟨'C', "-5"⟩, ⟨'U', "2"⟩] ∧
      out.flatMap unknownWords = ls.flatMap unknownWords := by
  intro ls out
  have hr : optimizeFeedrates ∈ blockWriters := by decide
  obtain ⟨out', hout, heq⟩ := exists_of_toOption
    (x := (optimizeFeedrates.run ⟨.generic, {}⟩ ls).result) (f := id) (b := out)
    (by decide +kernel)
  have hrun := hout.trans (congrArg Except.ok heq)
  obtain ⟨left, hleft, -, -, -, hiff⟩ := run_unknownWords hr hrun
  refine ⟨hr, hrun, by decide +kernel, hiff.2 ?_⟩
  cases hleft
  decide +kernel

/-- The first rapid turns a rotary axis as well, and goes with the turn. -/
theorem run_unknownWords_lost :
    let ls := ["G0 X1 B90", "G0 X2"]
    ∃ out, (optimizeRapidMoves.run ⟨.generic, {}⟩ ls).result = .ok out ∧ out = ["G0 X2"] ∧
      ls.flatMap unknownWords = [⟨'B', "90"⟩] ∧ out.flatMap unknownWords = [] := by
  intro ls
  obtain ⟨out, hrun, heq⟩ := exists_of_toOption
    (x := (optimizeRapidMoves.run ⟨.generic, {}⟩ ls).result) (f := id) (b := ["G0 X2"])
    (by decide +kernel)
  cases heq
  exact ⟨_, hrun, rfl, by decide +kernel, by decide +kernel⟩

end StandardRule

end PartProgram

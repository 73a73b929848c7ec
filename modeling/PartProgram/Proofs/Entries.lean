import PartProgram.Proofs.Numbering
import PartProgram.Proofs.Printing

/-!
# PartProgram.Proofs.Entries

Conversational lines read back. A line is words with a blank between any two. A path block says
feeds and auxiliary codes, a tool call says a speed, and other lines say nothing of these; what a
printed entry says is what stands in the entry.

* `textWords_intercalate`: words are read as they were written.
* `Entry.feedNumbers_lines`, `Entry.pathCodes_lines`, `Entry.speedNumbers_lines`: what the lines of
  an entry say.
-/

namespace PartProgram.Conversational

open Text Number

/-! ## What lines say -/

/-- The words of a line; a blank parts any two of them. -/
def textWords (line : String) : List String := (line.toList.splitOn ' ').map .ofList

def isPathBlock (line : String) : Bool := (textWords line).head?.any ["L", "C", "CR"].contains

def isToolCall (line : String) : Bool := (textWords line).take 2 == ["TOOL", "CALL"]

/-- A word without its letter. -/
def afterLetter? (letter : Char) (word : String) : Option String :=
  match word.toList with
  | [] => none
  | c :: cs => if c = letter then some (.ofList cs) else none

/-- The number of a feed word. The rapid feed has none. -/
def feedNumber? (word : String) : Option String :=
  if word = "FMAX" then none else afterLetter? 'F' word

def isAuxiliary (word : String) : Bool := word.toList.head? == some 'M'

/-- The feeds that a line says if it is a path block. -/
def feedNumbers (line : String) : List String :=
  if isPathBlock line then (textWords line).tail.filterMap feedNumber? else []

/-- The auxiliary codes that a line says if it is a path block. -/
def pathCodes (line : String) : List Code :=
  if isPathBlock line then (textWords line).tail.filter isAuxiliary else []

/-- The spindle speeds that a line says if it is a tool call. -/
def speedNumbers (line : String) : List String :=
  if isToolCall line then ((textWords line).drop 2).filterMap (afterLetter? 'S') else []

theorem textWords_intercalate {ws : List String} (hne : ws ≠ []) (h : ∀ w ∈ ws, ' ' ∉ w.toList) :
    textWords (" ".intercalate ws) = ws := by
  have hchars : ∀ cs ∈ ws.map String.toList, ' ' ∉ cs := by
    intro cs hcs
    obtain ⟨w, hw, rfl⟩ := List.mem_map.1 hcs
    exact h w hw
  rw [textWords, String.toList_intercalate]
  show (List.splitOn ' ' ([' '].intercalate (ws.map String.toList))).map _ = _
  rw [List.splitOn_intercalate ' ' hchars (by simpa using hne), List.map_map]
  simp

theorem textWords_of_first {line w : String} {rest : List Char}
    (h : line.toList = w.toList ++ ' ' :: rest) (hw : ' ' ∉ w.toList) :
    (textWords line).head? = some w := by
  rw [textWords, h, List.splitOn, List.splitOnP_append_cons_of_forall_mem]
  · simp
  · intro c hc
    simp only [beq_eq_false_iff_ne, ne_eq]
    rintro rfl
    exact hw hc
  · rfl

/-! ## Lines that say nothing -/

/-- The first word of a line, with a blank after it. -/
def StartsWith (w line : String) : Prop :=
  ' ' ∉ w.toList ∧ ∃ rest, line.toList = w.toList ++ ' ' :: rest

theorem StartsWith.head {w line : String} (h : StartsWith w line) :
    (textWords line).head? = some w := by
  obtain ⟨hw, rest, hline⟩ := h
  exact textWords_of_first hline hw

/-- Neither a path block nor a tool call. -/
def IsQuiet (line : String) : Prop := isPathBlock line = false ∧ isToolCall line = false

theorem StartsWith.isQuiet {w line : String} (h : StartsWith w line)
    (hw : w ∉ ["L", "C", "CR", "TOOL"]) : IsQuiet line := by
  simp only [List.mem_cons, List.not_mem_nil, or_false, not_or] at hw
  refine ⟨?_, ?_⟩
  · rw [isPathBlock, h.head]
    simp [hw]
  · rw [isToolCall]
    have hhead := h.head
    cases hwords : textWords line with
    | nil => rfl
    | cons v vs =>
      rw [hwords, List.head?_cons, Option.some.injEq] at hhead
      subst hhead
      simp [hw]

theorem feedNumbers_of_not_path {line : String} (h : isPathBlock line = false) :
    feedNumbers line = [] := by
  rw [feedNumbers, h]
  rfl

theorem pathCodes_of_not_path {line : String} (h : isPathBlock line = false) :
    pathCodes line = [] := by
  rw [pathCodes, h]
  rfl

theorem speedNumbers_of_not_call {line : String} (h : isToolCall line = false) :
    speedNumbers line = [] := by
  rw [speedNumbers, h]
  rfl

/-! ## Words -/

/-- A word with the letter in front and no blank in it. -/
def HasLetter (letter : Char) (word : String) : Prop :=
  word.toList.head? = some letter ∧ ' ' ∉ word.toList

theorem HasLetter.afterLetter_of_ne {c d : Char} {w : String} (h : HasLetter c w) (hne : c ≠ d) :
    afterLetter? d w = none := by
  rw [afterLetter?]
  have hhead := h.1
  cases hw : w.toList with
  | nil => rfl
  | cons c' cs =>
    rw [hw, List.head?_cons, Option.some.injEq] at hhead
    subst hhead
    simp [hne]

theorem HasLetter.feedNumber_of_ne {c : Char} {w : String} (h : HasLetter c w) (hne : c ≠ 'F') :
    feedNumber? w = none := by
  rw [feedNumber?, h.afterLetter_of_ne hne, ite_self]

theorem HasLetter.isAuxiliary {c : Char} {w : String} (h : HasLetter c w) :
    isAuxiliary w = (c == 'M') := by
  rw [Conversational.isAuxiliary, h.1]
  rfl

theorem hasLetter_append {p text : String} {c : Char} (hp : p.toList.head? = some c)
    (hblank : ' ' ∉ p.toList) (htext : ' ' ∉ text.toList) : HasLetter c (p ++ text) := by
  refine ⟨?_, ?_⟩
  · rw [String.toList_append, List.head?_append, hp]
    rfl
  · rw [String.toList_append, List.mem_append]
    exact not_or.2 ⟨hblank, htext⟩

theorem blank_not_mem_coordinate (x : Float) : ' ' ∉ (coordinate x).toList :=
  fun h => not_isPrintChar_blank (isPrintChar_of_mem_coordinate h)

theorem blank_not_mem_signedCoordinate (x : Float) : ' ' ∉ (signedCoordinate x).toList :=
  fun h => not_isPrintChar_blank (isPrintChar_of_mem_signedCoordinate h)

theorem afterLetter_coordinate {letter : Char} {p : String} (hp : p.toList = [letter]) (x : Float) :
    afterLetter? letter (p ++ coordinate x) = some (coordinate x) := by
  rw [afterLetter?, String.toList_append, hp]
  simp

theorem feedNumber_coordinate (x : Float) :
    feedNumber? ("F" ++ coordinate x) = some (coordinate x) := by
  have hne : "F" ++ coordinate x ≠ "FMAX" := by
    intro h
    have hchars : (coordinate x).toList = "MAX".toList := by
      have hcancel : "F".toList ++ (coordinate x).toList = "F".toList ++ "MAX".toList := by
        rw [← String.toList_append, h]
        rfl
      exact List.append_cancel_left hcancel
    have hmem : 'M' ∈ (coordinate x).toList := by
      rw [hchars]
      decide
    exact not_isPrintChar (by decide) (by decide) (isPrintChar_of_mem_coordinate hmem)
  rw [feedNumber?, if_neg hne, afterLetter_coordinate rfl]

/-- Coordinates are no feeds and no codes. -/
theorem Coordinate.hasLetter (c : Coordinate) :
    ∃ letter, letter ∉ ['F', 'M', 'S'] ∧ HasLetter letter c.render := by
  have hletter : ∀ a : Axis, a.letter ∉ ['F', 'M', 'S'] ∧ a.letter ≠ ' ' := by
    intro a
    cases a <;> decide
  have hvalue := blank_not_mem_signedCoordinate c.value
  obtain ⟨haxis, hblank⟩ := hletter c.axis
  rw [Coordinate.render]
  cases c.isStep with
  | true =>
    refine ⟨'I', by decide, hasLetter_append ?_ ?_ hvalue⟩
    · simp
    · simpa using hblank.symm
  | false =>
    refine ⟨c.axis.letter, haxis, hasLetter_append ?_ ?_ hvalue⟩
    · simp
    · simpa using hblank.symm

theorem Path.hasLetter {p : Path} {w : String} (h : w ∈ p.words) :
    ∃ letter, letter ∉ ['F', 'M', 'S'] ∧ HasLetter letter w := by
  have hplain : HasLetter 'R' "R0" := ⟨by decide, by decide⟩
  have hrotation : ∀ d, HasLetter 'D' (rotation d) := by
    intro d
    cases d <;> exact ⟨by decide, by decide⟩
  cases p with
  | straight =>
    rw [Path.words, List.mem_singleton] at h
    exact ⟨'R', by decide, h ▸ hplain⟩
  | about d =>
    simp only [Path.words, List.mem_cons, List.not_mem_nil, or_false] at h
    rcases h with rfl | rfl
    · exact ⟨'D', by decide, hrotation d⟩
    · exact ⟨'R', by decide, hplain⟩
  | withRadius r d =>
    simp only [Path.words, List.mem_cons, List.not_mem_nil, or_false] at h
    rcases h with rfl | rfl | rfl
    · exact ⟨'R', by decide,
        hasLetter_append rfl (by decide) (blank_not_mem_signedCoordinate r)⟩
    · exact ⟨'D', by decide, hrotation d⟩
    · exact ⟨'R', by decide, hplain⟩

theorem PathFeed.hasLetter {f : PathFeed} {w : String} (h : w ∈ f.words) : HasLetter 'F' w := by
  cases f with
  | rapid =>
    rw [PathFeed.words, List.mem_singleton] at h
    subst h
    exact ⟨by decide, by decide⟩
  | feed x =>
    rw [PathFeed.words, List.mem_singleton] at h
    subst h
    exact hasLetter_append rfl (by decide) (blank_not_mem_coordinate x)
  | same => cases h

/-! ## What entries say -/

namespace Entry

/-- The feeds of an entry. -/
def feeds : Entry → List Float
  | move m => match m.feed with
    | .feed x => [x]
    | _ => []
  | _ => []

/-- The auxiliary codes of an entry. -/
def codes : Entry → List Code
  | move m => m.codes
  | auxiliary codes => codes
  | _ => []

/-- The spindle speeds of an entry. -/
def speeds : Entry → List Float
  | toolCall _ speed => speed.toList
  | _ => []

/-- Every code of the entry is an auxiliary one. -/
def HasAuxiliary (e : Entry) : Prop := ∀ code ∈ e.codes, HasLetter 'M' code

end Entry

/-- The words of a path block after its keyword. -/
def Move.words (m : Move) : List String :=
  m.coordinates.map Coordinate.render ++ m.path.words ++ m.feed.words ++ m.codes

/-- Nothing but the feed and the codes of a path block is read as such. -/
theorem Move.words_eq (m : Move) :
    ∃ ws, m.words = ws ++ m.feed.words ++ m.codes ∧
      ∀ w ∈ ws, ∃ letter, letter ∉ ['F', 'M', 'S'] ∧ HasLetter letter w := by
  refine ⟨_, rfl, fun w hw => ?_⟩
  rcases List.mem_append.1 hw with hw | hw
  · obtain ⟨c, -, rfl⟩ := List.mem_map.1 hw
    exact c.hasLetter
  · exact Path.hasLetter hw

theorem Path.keyword_spec (p : Path) :
    ["L", "C", "CR"].contains p.keyword = true ∧ ' ' ∉ p.keyword.toList := by
  cases p <;> simp [Path.keyword]

namespace Move

variable {m : Move}

theorem textWords_render (h : ∀ code ∈ m.codes, HasLetter 'M' code) :
    textWords m.render = m.path.keyword :: m.words := by
  have hrender : m.render = " ".intercalate (m.path.keyword :: m.words) := by
    simp [Move.render, Move.words]
  obtain ⟨ws, hwords, hws⟩ := m.words_eq
  rw [hrender]
  refine textWords_intercalate (by simp) fun w hw => ?_
  rw [hwords] at hw
  simp only [List.mem_cons, List.mem_append] at hw
  rcases hw with rfl | (hw | hw) | hw
  · exact m.path.keyword_spec.2
  · obtain ⟨-, -, -, hblank⟩ := hws w hw
    exact hblank
  · exact (PathFeed.hasLetter hw).2
  · exact (h w hw).2

theorem isPathBlock_render (h : ∀ code ∈ m.codes, HasLetter 'M' code) :
    isPathBlock m.render = true := by
  rw [isPathBlock, textWords_render h]
  exact m.path.keyword_spec.1

theorem feedNumbers_render (h : ∀ code ∈ m.codes, HasLetter 'M' code) :
    feedNumbers m.render = (Entry.move m).feeds.map coordinate := by
  obtain ⟨ws, hwords, hws⟩ := m.words_eq
  have hquiet : ws.filterMap feedNumber? = [] := by
    refine List.filterMap_eq_nil_iff.2 fun w hw => ?_
    obtain ⟨letter, hne, hw⟩ := hws w hw
    exact hw.feedNumber_of_ne fun heq => hne (by simp [heq])
  have hcodes : m.codes.filterMap feedNumber? = [] :=
    List.filterMap_eq_nil_iff.2 fun w hw => (h w hw).feedNumber_of_ne (by decide)
  have hfeed : m.feed.words.filterMap feedNumber? = (Entry.move m).feeds.map coordinate := by
    rw [Entry.feeds]
    cases m.feed with
    | rapid => rfl
    | feed x => simp [PathFeed.words, feedNumber_coordinate]
    | same => rfl
  rw [feedNumbers, isPathBlock_render h, if_pos rfl, textWords_render h, List.tail_cons, hwords,
    List.filterMap_append, List.filterMap_append, hquiet, hcodes, hfeed]
  simp

theorem pathCodes_render (h : ∀ code ∈ m.codes, HasLetter 'M' code) :
    pathCodes m.render = m.codes := by
  obtain ⟨ws, hwords, hws⟩ := m.words_eq
  have hquiet : ws.filter isAuxiliary = [] := by
    refine List.filter_eq_nil_iff.2 fun w hw => ?_
    obtain ⟨letter, hne, hw⟩ := hws w hw
    rw [hw.isAuxiliary, beq_iff_eq]
    exact fun heq => hne (by simp [heq])
  have hfeed : m.feed.words.filter isAuxiliary = [] := by
    refine List.filter_eq_nil_iff.2 fun w hw => ?_
    rw [(PathFeed.hasLetter hw).isAuxiliary]
    decide
  have hcodes : m.codes.filter isAuxiliary = m.codes :=
    List.filter_eq_self.2 fun w hw => (h w hw).isAuxiliary
  rw [pathCodes, isPathBlock_render h, if_pos rfl, textWords_render h, List.tail_cons, hwords,
    List.filter_append, List.filter_append, hquiet, hfeed, hcodes]
  simp

end Move

theorem isToolCall_of_isPathBlock {line : String} (h : isPathBlock line = true) :
    isToolCall line = false := by
  rw [isPathBlock] at h
  rw [isToolCall]
  cases hwords : textWords line with
  | nil => rfl
  | cons w ws =>
    rw [hwords, List.head?_cons, Option.any_some, List.contains_iff_mem] at h
    simp only [List.mem_cons, List.not_mem_nil, or_false] at h
    rcases h with rfl | rfl | rfl <;> simp

theorem textWords_auxiliary {codes : List Code} (h : ∀ code ∈ codes, HasLetter 'M' code) :
    textWords (" ".intercalate ("L" :: codes)) = "L" :: codes := by
  refine textWords_intercalate (by simp) fun w hw => ?_
  rcases List.mem_cons.1 hw with rfl | hw
  · decide
  · exact (h w hw).2

theorem isPathBlock_auxiliary {codes : List Code} (h : ∀ code ∈ codes, HasLetter 'M' code) :
    isPathBlock (" ".intercalate ("L" :: codes)) = true := by
  rw [isPathBlock, textWords_auxiliary h]
  rfl

theorem feedNumbers_auxiliary {codes : List Code} (h : ∀ code ∈ codes, HasLetter 'M' code) :
    feedNumbers (" ".intercalate ("L" :: codes)) = [] := by
  rw [feedNumbers, isPathBlock_auxiliary h, if_pos rfl, textWords_auxiliary h]
  exact List.filterMap_eq_nil_iff.2 fun w hw => (h w hw).feedNumber_of_ne (by decide)

theorem pathCodes_auxiliary {codes : List Code} (h : ∀ code ∈ codes, HasLetter 'M' code) :
    pathCodes (" ".intercalate ("L" :: codes)) = codes := by
  rw [pathCodes, isPathBlock_auxiliary h, if_pos rfl, textWords_auxiliary h]
  exact List.filter_eq_self.2 fun w hw => (h w hw).isAuxiliary

/-- The words of a tool call. -/
def callWords (tool : Option Int) (speed : Option Float) : List String :=
  tool.toList.map toString ++ ["Z"] ++ speed.toList.map fun s => "S" ++ coordinate s

theorem textWords_toolCall (tool : Option Int) (speed : Option Float) :
    textWords (" ".intercalate ("TOOL CALL" :: callWords tool speed)) =
      "TOOL" :: "CALL" :: callWords tool speed := by
  have hline : " ".intercalate ("TOOL CALL" :: callWords tool speed) =
      " ".intercalate ("TOOL" :: "CALL" :: callWords tool speed) := by
    refine String.toList_inj.1 ?_
    rw [toList_intercalate_cons, toList_intercalate_cons, spaced_cons]
    rfl
  have hspeed : ∀ s, ' ' ∉ ("S" ++ coordinate s).toList := fun s =>
    (hasLetter_append rfl (by decide) (blank_not_mem_coordinate s) : HasLetter 'S' _).2
  rw [hline]
  refine textWords_intercalate (by simp) fun w hw => ?_
  simp only [callWords, List.mem_cons, List.mem_append, List.mem_map, List.not_mem_nil,
    or_false] at hw
  rcases hw with rfl | rfl | (⟨n, -, rfl⟩ | rfl) | ⟨s, -, rfl⟩
  · decide
  · decide
  · exact fun hmem => not_isPrintChar_blank (isPrintChar_of_mem_intText hmem)
  · decide
  · exact hspeed s

theorem speedNumbers_toolCall (tool : Option Int) (speed : Option Float) :
    speedNumbers (" ".intercalate ("TOOL CALL" :: callWords tool speed)) =
      speed.toList.map coordinate := by
  have htool : (tool.toList.map toString).filterMap (afterLetter? 'S') = [] := by
    refine List.filterMap_eq_nil_iff.2 fun w hw => ?_
    obtain ⟨n, -, rfl⟩ := List.mem_map.1 hw
    rw [afterLetter?]
    cases hchars : (toString n).toList with
    | nil => rfl
    | cons c cs =>
      have hc : c ≠ 'S' := by
        rintro rfl
        have hmem : 'S' ∈ (toString n).toList := by
          rw [hchars]
          exact .head _
        exact not_isPrintChar (by decide) (by decide) (isPrintChar_of_mem_intText hmem)
      simp [hc]
  have hspeed : (speed.toList.map fun s => "S" ++ coordinate s).filterMap (afterLetter? 'S') =
      speed.toList.map coordinate := by
    cases speed with
    | none => rfl
    | some s =>
      have hletter : afterLetter? 'S' ("S" ++ coordinate s) = some (coordinate s) :=
        afterLetter_coordinate rfl s
      simp [hletter]
  have haxis : ["Z"].filterMap (afterLetter? 'S') = [] := by decide
  have hcall : isToolCall (" ".intercalate ("TOOL CALL" :: callWords tool speed)) = true := by
    rw [isToolCall, textWords_toolCall]
    rfl
  rw [speedNumbers, hcall, if_pos rfl, textWords_toolCall]
  show (callWords tool speed).filterMap _ = _
  rw [callWords, List.filterMap_append, List.filterMap_append, htool, haxis, hspeed]
  rfl

/-! ## Lines of entries -/

theorem StartsWith.append {w line : String} (h : StartsWith w line) (more : String) :
    StartsWith w (line ++ more) := by
  obtain ⟨hw, rest, hline⟩ := h
  refine ⟨hw, rest ++ more.toList, ?_⟩
  rw [String.toList_append, hline, List.append_assoc]
  rfl

theorem mem_continued {ls : List String} {line : String} (h : line ∈ continued ls) :
    ∃ l ∈ ls, line = l ∨ line = l ++ " ~" := by
  induction ls with
  | nil => cases h
  | cons l ls ih =>
    cases ls with
    | nil => exact ⟨l, .head _, .inl (List.mem_singleton.1 h)⟩
    | cons l' ls =>
      rcases List.mem_cons.1 h with rfl | h
      · exact ⟨l, .head _, .inr rfl⟩
      · obtain ⟨m, hm, hline⟩ := ih h
        exact ⟨m, .tail _ hm, hline⟩

theorem Parameter.startsWith (p : Parameter) : StartsWith "" p.render := by
  refine ⟨by decide, ' ' :: (p.render.toList.drop 2), ?_⟩
  simp [Parameter.render]

/-- The lines of a definition have its mark in front, or a blank. -/
theorem Definition.startsWith {d : Definition} {line : String} (h : line ∈ d.lines) :
    StartsWith "CYCL" line ∨ StartsWith "" line := by
  obtain ⟨l, hl, hline⟩ := mem_continued h
  have hstart : StartsWith "CYCL" l ∨ StartsWith "" l := by
    rcases List.mem_cons.1 hl with rfl | hl
    · refine .inl ⟨by decide, ("DEF " ++ toString d.number ++ " " ++ d.name).toList, ?_⟩
      simp [definitionMark]
    · obtain ⟨p, -, rfl⟩ := List.mem_map.1 hl
      exact .inr p.startsWith
  rcases hline with rfl | rfl
  · exact hstart
  · exact hstart.imp (·.append _) (·.append _)

namespace Entry

/-- Path blocks and tool calls are not quiet. -/
def isQuiet : Entry → Bool
  | move _ | auxiliary _ | toolCall _ _ => false
  | _ => true

/-- The words that lines of a quiet entry start with. -/
def marks : Entry → List String
  | centre _ _ => ["CC"]
  | definition _ => ["CYCL", ""]
  | dwell _ => ["CYCL"]
  | remark _ => [";"]
  | blankFrom _ | blankTo _ => ["BLK"]
  | opening _ => ["BEGIN"]
  | closing _ => ["END"]
  | _ => []

theorem startsWith_lines {e : Entry} (h : e.isQuiet = true) {line : String}
    (hline : line ∈ e.lines) : ∃ w ∈ e.marks, StartsWith w line := by
  have hfirst : ∀ w ∈ e.marks, ' ' ∉ w.toList → ∀ rest : String,
      line.toList = w.toList ++ ' ' :: rest.toList → ∃ w ∈ e.marks, StartsWith w line :=
    fun w hw hblank rest hchars => ⟨w, hw, hblank, rest.toList, hchars⟩
  cases e with
  | move m => cases h
  | auxiliary codes => cases h
  | toolCall tool speed => cases h
  | definition d =>
    rcases d.startsWith hline with h | h
    · exact ⟨"CYCL", .head _, h⟩
    · exact ⟨"", .tail _ (.head _), h⟩
  | dwell seconds =>
    simp only [lines, List.mem_cons, List.not_mem_nil, or_false] at hline
    rcases hline with rfl | rfl
    · exact hfirst "CYCL" (.head _) (by decide) "DEF 9.0 DWELL TIME" (by simp)
    · exact hfirst "CYCL" (.head _) (by decide) ("DEF 9.1 DWELL " ++ coordinate seconds) (by simp)
  | centre first second =>
    rw [List.mem_singleton.1 hline] at hfirst ⊢
    exact hfirst "CC" (.head _) (by decide) (first.render ++ " " ++ second.render) (by simp)
  | remark text =>
    rw [List.mem_singleton.1 hline] at hfirst ⊢
    exact hfirst ";" (.head _) (by decide) text (by simp)
  | blankFrom p =>
    rw [List.mem_singleton.1 hline] at hfirst ⊢
    exact hfirst "BLK" (.head _) (by decide) ("FORM 0.1 Z " ++ corner p) (by simp)
  | blankTo p =>
    rw [List.mem_singleton.1 hline] at hfirst ⊢
    exact hfirst "BLK" (.head _) (by decide) ("FORM 0.2 " ++ corner p) (by simp)
  | opening name =>
    rw [List.mem_singleton.1 hline] at hfirst ⊢
    exact hfirst "BEGIN" (.head _) (by decide) ("PGM " ++ name ++ " MM") (by simp)
  | closing name =>
    rw [List.mem_singleton.1 hline] at hfirst ⊢
    exact hfirst "END" (.head _) (by decide) ("PGM " ++ name ++ " MM") (by simp)

/-- The words that quiet lines start with. -/
def quietWords : List String := ["CYCL", "", "CC", ";", "BLK", "BEGIN", "END"]

theorem marks_subset (e : Entry) : e.marks ⊆ quietWords := by
  cases e <;> simp [marks, quietWords]

theorem isQuiet_lines {e : Entry} (h : e.isQuiet = true) {line : String} (hline : line ∈ e.lines) :
    IsQuiet line := by
  obtain ⟨w, hw, hstart⟩ := startsWith_lines h hline
  have hnone : ∀ w ∈ quietWords, w ∉ ["L", "C", "CR", "TOOL"] := by decide
  exact hstart.isQuiet (hnone w (e.marks_subset hw))

theorem flatMap_quiet {α : Type} {f : String → List α} {e : Entry} (h : e.isQuiet = true)
    (hf : ∀ line, IsQuiet line → f line = []) : e.lines.flatMap f = [] :=
  List.flatMap_eq_nil_iff.2 fun _ hline => hf _ (isQuiet_lines h hline)

theorem toolCall_lines (tool : Option Int) (speed : Option Float) :
    (toolCall tool speed).lines = [" ".intercalate ("TOOL CALL" :: callWords tool speed)] := by
  simp [lines, callWords]

theorem isToolCall_toolCall (tool : Option Int) (speed : Option Float) :
    isToolCall (" ".intercalate ("TOOL CALL" :: callWords tool speed)) = true := by
  rw [isToolCall, textWords_toolCall]
  rfl

theorem isPathBlock_toolCall (tool : Option Int) (speed : Option Float) :
    isPathBlock (" ".intercalate ("TOOL CALL" :: callWords tool speed)) = false := by
  rw [isPathBlock, textWords_toolCall]
  rfl

/-- The feeds that the lines of an entry say. -/
theorem feedNumbers_lines {e : Entry} (h : e.HasAuxiliary) :
    e.lines.flatMap feedNumbers = e.feeds.map coordinate := by
  have hquiet (hquiet : e.isQuiet = true) (hnone : e.feeds = []) :
      e.lines.flatMap feedNumbers = e.feeds.map coordinate := by
    rw [flatMap_quiet hquiet fun line hline => feedNumbers_of_not_path hline.1, hnone]
    rfl
  cases e with
  | move m =>
    rw [lines, List.flatMap_singleton]
    exact Move.feedNumbers_render h
  | auxiliary codes =>
    rw [lines, List.flatMap_singleton]
    exact feedNumbers_auxiliary h
  | toolCall tool speed =>
    rw [toolCall_lines, List.flatMap_singleton]
    exact feedNumbers_of_not_path (isPathBlock_toolCall tool speed)
  | _ => exact hquiet rfl rfl

/-- The auxiliary codes that the lines of an entry say. -/
theorem pathCodes_lines {e : Entry} (h : e.HasAuxiliary) : e.lines.flatMap pathCodes = e.codes := by
  have hquiet (hquiet : e.isQuiet = true) (hnone : e.codes = []) :
      e.lines.flatMap pathCodes = e.codes := by
    rw [flatMap_quiet hquiet fun line hline => pathCodes_of_not_path hline.1, hnone]
  cases e with
  | move m =>
    rw [lines, List.flatMap_singleton]
    exact Move.pathCodes_render h
  | auxiliary codes =>
    rw [lines, List.flatMap_singleton]
    exact pathCodes_auxiliary h
  | toolCall tool speed =>
    rw [toolCall_lines, List.flatMap_singleton]
    exact pathCodes_of_not_path (isPathBlock_toolCall tool speed)
  | _ => exact hquiet rfl rfl

/-- The spindle speeds that the lines of an entry say. -/
theorem speedNumbers_lines {e : Entry} (h : e.HasAuxiliary) :
    e.lines.flatMap speedNumbers = e.speeds.map coordinate := by
  have hpath {line : String} (hline : isPathBlock line = true) : speedNumbers line = [] :=
    speedNumbers_of_not_call (isToolCall_of_isPathBlock hline)
  have hquiet (hquiet : e.isQuiet = true) (hnone : e.speeds = []) :
      e.lines.flatMap speedNumbers = e.speeds.map coordinate := by
    rw [flatMap_quiet hquiet fun line hline => speedNumbers_of_not_call hline.2, hnone]
    rfl
  cases e with
  | move m =>
    rw [lines, List.flatMap_singleton]
    exact hpath (Move.isPathBlock_render h)
  | auxiliary codes =>
    rw [lines, List.flatMap_singleton]
    exact hpath (isPathBlock_auxiliary h)
  | toolCall tool speed =>
    rw [toolCall_lines, List.flatMap_singleton]
    exact speedNumbers_toolCall tool speed
  | _ => exact hquiet rfl rfl

/-- A printed line has one of a few letters in front, or goes on with the line before it. -/
theorem head_lines (e : Entry) {line : String} (hline : line ∈ e.lines) :
    ∃ c ∈ " LCTBE;".toList, line.toList.head? = some c := by
  have hquiet (hquiet : e.isQuiet = true) : ∃ c ∈ " LCTBE;".toList, line.toList.head? = some c := by
    obtain ⟨w, hw, -, rest, hchars⟩ := startsWith_lines hquiet hline
    have hw := e.marks_subset hw
    rw [hchars]
    simp only [quietWords, List.mem_cons, List.not_mem_nil, or_false] at hw
    rcases hw with rfl | rfl | rfl | rfl | rfl | rfl | rfl
    · exact ⟨'C', by decide, rfl⟩
    · exact ⟨' ', by decide, rfl⟩
    · exact ⟨'C', by decide, rfl⟩
    · exact ⟨';', by decide, rfl⟩
    · exact ⟨'B', by decide, rfl⟩
    · exact ⟨'B', by decide, rfl⟩
    · exact ⟨'E', by decide, rfl⟩
  cases e with
  | move m =>
    rw [List.mem_singleton.1 hline, Move.render, List.cons_append, List.cons_append,
      List.cons_append, toList_intercalate_cons]
    cases m.path <;> simp [Path.keyword]
  | auxiliary codes =>
    rw [List.mem_singleton.1 hline, toList_intercalate_cons]
    exact ⟨'L', by decide, rfl⟩
  | toolCall tool speed =>
    rw [toolCall_lines, List.mem_singleton] at hline
    rw [hline, toList_intercalate_cons]
    exact ⟨'T', by decide, rfl⟩
  | _ => exact hquiet rfl

end Entry

/-- The lines of an entry get their numbers and lose them again. -/
theorem Entry.isPlain_lines (e : Entry) {line : String} (hline : line ∈ e.lines) :
    IsPlain line := by
  obtain ⟨c, hc, hhead⟩ := e.head_lines hline
  obtain ⟨rest, hchars⟩ := List.head?_eq_some_iff.1 hhead
  have hmarks : ∀ c ∈ " LCTBE;".toList, isBlank c = true ∨ isBlank c = false ∧ isDigit c = false :=
    forall_mem_of_all (by decide)
  rcases hmarks c hc with hblank | hletter
  · left
    rw [isContinuation, startsBlank, hhead]
    exact hblank
  · exact .inr ⟨c, rest, hchars, hletter⟩

end PartProgram.Conversational

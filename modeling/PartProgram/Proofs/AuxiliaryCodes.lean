import PartProgram.Proofs.Printout

/-!
# PartProgram.Proofs.AuxiliaryCodes

Auxiliary codes in converted programs. Every block hands its codes on to a path block: to that of
its move, to the call of its cycle, or to one that says nothing else. Blocks that dwell and blocks
that work a shape become no path block, and their codes are gone.

* `ownCodes`: the codes of a conversational program, the calls of cycles apart.
* `conversion_codes`: which codes come through.
-/

namespace PartProgram.Conversational

open Text Number

/-! ## Codes of conversational programs -/

/-- Whether a definition ends right before the next block. -/
def definedAfter (defined : Bool) (line : String) : Bool :=
  if isContinuation line then defined else opensDefinition line

/-- The code that calls a cycle. -/
def callCode : Code := "M99"

/-- The codes of path blocks. The call after a definition belongs to the definition. -/
def ownCodesFrom (defined : Bool) : Lines → List Code
  | [] => []
  | line :: rest =>
    (if defined then (pathCodes line).erase callCode else pathCodes line) ++
      ownCodesFrom (definedAfter defined line) rest

def ownCodes (ls : Lines) : List Code := ownCodesFrom false ls

/-- Lines that say the codes, with no definition left open at their end. -/
def SayCodes (ls : Lines) (codes : List Code) : Prop :=
  ownCodes ls = codes ∧ ls.foldl definedAfter false = false

theorem ownCodesFrom_append (defined : Bool) (ls ms : Lines) :
    ownCodesFrom defined (ls ++ ms) =
      ownCodesFrom defined ls ++ ownCodesFrom (ls.foldl definedAfter defined) ms := by
  induction ls generalizing defined with
  | nil => rfl
  | cons l ls ih => rw [List.cons_append, ownCodesFrom, ih, ownCodesFrom, List.append_assoc,
      List.foldl_cons]

theorem SayCodes.append {ls ms : Lines} {codes more : List Code} (h : SayCodes ls codes)
    (h' : SayCodes ms more) : SayCodes (ls ++ ms) (codes ++ more) := by
  obtain ⟨hcodes, hclosed⟩ := h
  obtain ⟨hcodes', hclosed'⟩ := h'
  refine ⟨?_, ?_⟩
  · rw [ownCodes, ownCodesFrom_append, hclosed]
    show ownCodes ls ++ ownCodes ms = _
    rw [hcodes, hcodes']
  · rw [List.foldl_append, hclosed, hclosed']

theorem sayCodes_nil : SayCodes [] [] := ⟨rfl, rfl⟩

theorem sayCodes_of_closed {ls : Lines} (h : ∀ l ∈ ls, opensDefinition l = false) :
    SayCodes ls (ls.flatMap pathCodes) := by
  induction ls with
  | nil => exact sayCodes_nil
  | cons l ls ih =>
    have hl : definedAfter false l = false := by
      rw [definedAfter, h l (.head _), ite_self]
    have hfirst : SayCodes [l] (pathCodes l) := by
      refine ⟨?_, hl⟩
      rw [ownCodes, ownCodesFrom, if_neg Bool.false_ne_true]
      exact List.append_nil _
    exact hfirst.append (ih fun l' hl' => h l' (.tail _ hl'))

/-! ## Entries -/

section

variable {e : Entry} {line : String}

/-- A line that opens a definition starts with its mark and ends with a tilde. -/
theorem opensDefinition_spec (hline : line ∈ e.lines) (h : opensDefinition line = true) :
    (textWords line).head? = some "CYCL" ∧ '~' ∈ line.toList := by
  simp only [opensDefinition, Bool.and_eq_true, Bool.not_eq_true', beq_iff_eq] at h
  obtain ⟨⟨hnew, hmark⟩, hlast⟩ := h
  have hplain := congrArg String.toList ((e.isPlain_lines hline).unnumbered hnew)
  rw [unnumbered, String.toList_ofList] at hplain
  rw [hplain] at hmark hlast
  refine ⟨?_, ?_⟩
  · obtain ⟨more, hmore⟩ := List.isPrefixOf_iff_prefix.1 hmark
    have hstart : line.toList = "CYCL".toList ++ ' ' :: ("DEF".toList ++ more) := hmore.symm
    exact textWords_of_first hstart (by decide)
  · exact (trimRight_isPrefix _).subset (List.mem_of_getLast? hlast)

/-- Only definitions are opened. -/
theorem opensDefinition_lines (haux : e.HasAuxiliary) (h : ∀ d, e ≠ .definition d)
    (hline : line ∈ e.lines) : opensDefinition line = false := by
  rw [← Bool.not_eq_true]
  intro hopens
  obtain ⟨hfirst, htilde⟩ := opensDefinition_spec hline hopens
  cases e with
  | move m =>
    rw [List.mem_singleton.1 hline, Move.textWords_render haux, List.head?_cons,
      Option.some.injEq] at hfirst
    cases hm : m.path <;> simp [hm, Path.keyword] at hfirst
  | auxiliary codes =>
    have hwords : textWords (" ".intercalate ("L" :: codes)) = "L" :: codes :=
      textWords_auxiliary haux
    rw [List.mem_singleton.1 hline, hwords] at hfirst
    simp at hfirst
  | toolCall tool speed =>
    rw [Entry.toolCall_lines, List.mem_singleton] at hline
    rw [hline, textWords_toolCall] at hfirst
    simp at hfirst
  | definition d => exact h d rfl
  | dwell seconds =>
    simp only [Entry.lines, List.mem_cons, List.not_mem_nil, or_false] at hline
    rcases hline with rfl | rfl
    · exact absurd htilde (by decide)
    · rw [String.toList_append, List.mem_append] at htilde
      rcases htilde with htilde | htilde
      · exact absurd htilde (by decide)
      · exact not_isPrintChar (by decide) (by decide) (isPrintChar_of_mem_coordinate htilde)
  | _ =>
    obtain ⟨w, hw, hstart⟩ := Entry.startsWith_lines rfl hline
    rw [hstart.head, Option.some.injEq] at hfirst
    rw [hfirst] at hw
    simp [Entry.marks] at hw

theorem sayCodes_entry (haux : e.HasAuxiliary) (h : ∀ d, e ≠ .definition d) :
    SayCodes e.lines e.codes := by
  rw [← Entry.pathCodes_lines haux]
  exact sayCodes_of_closed fun line hline => opensDefinition_lines haux h hline

theorem sayCodes_entries {es : List Entry} (haux : ∀ e ∈ es, e.HasAuxiliary)
    (h : ∀ e ∈ es, ∀ d, e ≠ .definition d) :
    SayCodes (es.flatMap Entry.lines) (es.flatMap Entry.codes) := by
  induction es with
  | nil => exact sayCodes_nil
  | cons e es ih =>
    exact (sayCodes_entry (haux e (.head _)) (h e (.head _))).append
      (ih (fun e' he' => haux e' (.tail _ he')) fun e' he' => h e' (.tail _ he'))

/-! ## Cycles -/

theorem isContinuation_append {line : String} (h : isContinuation line = true) (more : String) :
    isContinuation (line ++ more) = true := by
  rw [isContinuation, startsBlank] at h ⊢
  rw [String.toList_append, List.head?_append]
  cases hhead : line.toList.head? with
  | none =>
    rw [hhead] at h
    cases h
  | some c =>
    rw [hhead] at h
    exact h

theorem Parameter.isContinuation_render (p : Parameter) : isContinuation p.render = true := by
  obtain ⟨-, rest, hchars⟩ := p.startsWith
  rw [isContinuation, hchars]
  exact (by decide : isBlank ' ' = true)

theorem isContinuation_parameters {ps : List Parameter} {line : String}
    (h : line ∈ continued (ps.map Parameter.render)) : isContinuation line = true := by
  obtain ⟨l, hl, hline⟩ := mem_continued h
  obtain ⟨p, -, rfl⟩ := List.mem_map.1 hl
  rcases hline with rfl | rfl
  · exact p.isContinuation_render
  · exact isContinuation_append p.isContinuation_render _

theorem foldl_definedAfter_of_continuation {ls : Lines} (h : ∀ l ∈ ls, isContinuation l = true)
    (defined : Bool) : ls.foldl definedAfter defined = defined := by
  induction ls with
  | nil => rfl
  | cons l ls ih =>
    rw [List.foldl_cons, definedAfter, if_pos (h l (.head _))]
    exact ih fun l' hl' => h l' (.tail _ hl')

theorem getLast_trimRight {c : Char} (h : isBlank c = false) (cs : List Char) :
    (trimRight (cs ++ [c])).getLast? = some c := by
  rw [trimRight, List.reverse_append, List.reverse_singleton, List.singleton_append,
    List.dropWhile_cons_of_neg (by simp [h]), List.getLast?_reverse, List.head?_cons]

theorem opensDefinition_first (number : Nat) (name : String) :
    isContinuation (definitionMark ++ " " ++ toString number ++ " " ++ name ++ " ~") = false ∧
      opensDefinition (definitionMark ++ " " ++ toString number ++ " " ++ name ++ " ~") = true := by
  let more := "YCL DEF ".toList ++ (toString number ++ " " ++ name ++ " ").toList
  have hchars : (definitionMark ++ " " ++ toString number ++ " " ++ name ++ " ~").toList =
      'C' :: more ++ ['~'] := by
    simp [more, definitionMark]
  have hnew : isContinuation (definitionMark ++ " " ++ toString number ++ " " ++ name ++ " ~") =
      false := by
    rw [isContinuation, hchars]
    exact (by decide : isBlank 'C' = false)
  have hplain : dropNumber ('C' :: more ++ ['~']) = 'C' :: more ++ ['~'] :=
    dropNumber_of_letter (by decide) (by decide)
  have hmark : definitionMark.toList.isPrefixOf ('C' :: more ++ ['~']) = true := by
    refine List.isPrefixOf_iff_prefix.2
      ⟨' ' :: (toString number ++ " " ++ name ++ " ").toList ++ ['~'], ?_⟩
    simp [more, definitionMark]
  refine ⟨hnew, ?_⟩
  simp only [opensDefinition]
  rw [hnew, hchars, hplain, hmark, getLast_trimRight (by decide)]
  rfl

theorem foldl_definedAfter_definition {d : Definition} (h : d.parameters ≠ []) :
    d.lines.foldl definedAfter false = true := by
  obtain ⟨p, ps, hparameters⟩ := List.exists_cons_of_ne_nil h
  have hlines : d.lines = (definitionMark ++ " " ++ toString d.number ++ " " ++ d.name ++ " ~") ::
      continued (d.parameters.map Parameter.render) := by
    rw [Definition.lines, hparameters]
    rfl
  obtain ⟨hnew, hopens⟩ := opensDefinition_first d.number d.name
  rw [hlines, List.foldl_cons, definedAfter, hnew, if_neg Bool.false_ne_true, hopens,
    foldl_definedAfter_of_continuation fun l hl => isContinuation_parameters hl]

theorem ownCodesFrom_of_quiet {ls : Lines} (h : ∀ l ∈ ls, IsQuiet l) (defined : Bool) :
    ownCodesFrom defined ls = [] := by
  induction ls generalizing defined with
  | nil => rfl
  | cons l ls ih =>
    rw [ownCodesFrom, pathCodes_of_not_path (h l (.head _)).1,
      ih fun l' hl' => h l' (.tail _ hl')]
    cases defined <;> rfl

theorem Move.isContinuation_render (m : Move) : isContinuation m.render = false := by
  have hblank : isBlank 'L' = false ∧ isBlank 'C' = false := by decide
  rw [isContinuation, startsBlank, Move.render, List.cons_append, List.cons_append,
    List.cons_append, toList_intercalate_cons]
  cases m.path <;> simp [Path.keyword, hblank]

/-- The call after a definition is no code of the program. -/
theorem sayCodes_call {d : Definition} {m : Move} {codes : List Code} (hd : d.parameters ≠ [])
    (hm : m.codes = callCode :: codes) (haux : ∀ code ∈ m.codes, HasLetter 'M' code) :
    SayCodes ([Entry.definition d, .move m].flatMap Entry.lines) codes := by
  have hclosed : opensDefinition m.render = false :=
    opensDefinition_lines (e := .move m) haux (by intro _ h; cases h) (.head _)
  have hlines : [Entry.definition d, .move m].flatMap Entry.lines = d.lines ++ [m.render] := by
    simp [Entry.lines]
  have hquiet : ∀ l ∈ d.lines, IsQuiet l := fun l hl =>
    Entry.isQuiet_lines (e := .definition d) rfl hl
  refine ⟨?_, ?_⟩
  · rw [hlines, ownCodes, ownCodesFrom_append, ownCodesFrom_of_quiet hquiet,
      foldl_definedAfter_definition hd, List.nil_append, ownCodesFrom, if_pos rfl,
      Move.pathCodes_render haux, hm, List.erase_cons_head]
    exact List.append_nil _
  · rw [hlines, List.foldl_append, foldl_definedAfter_definition hd, List.foldl_cons,
      List.foldl_nil, definedAfter, m.isContinuation_render, if_neg Bool.false_ne_true, hclosed]

end

/-! ## Codes of places -/

/-- Whether a motion becomes no path block, whatever its codes are. -/
def becomesNoPath : Action → Bool
  | .dwell _ | .shape _ _ => true
  | _ => false

/-- Whether a block leaves its codes behind. -/
def leavesCodes (r : Resolution) : Bool := r.motion?.any fun m => becomesNoPath m.action

/-- The codes of the block at a stop that a conversational program has to say. -/
def stopCodes (s : Stop) : List Code := s.block?.toList.flatMap extraCodes

/-- The codes that come through. -/
def forwardedCodes (s : Stop) : List Code :=
  if s.resolution?.any leavesCodes then [] else stopCodes s

/-- The auxiliary codes of a program. The end of the program is its closing, and a tool call changes
the tool. -/
def auxiliaryCodes (ls : Lines) : List Code := (Block.readLinesFrom 1 ls).flatMap extraCodes

section

variable {job : Job} {ls output : Lines} {s : Stop} {t : Tooling} {b : Block} {r : Resolution}
  {es : List Entry}

theorem flatMap_codes_auxiliary (codes : List Code) :
    (auxiliaryEntries codes).flatMap Entry.codes = codes := by
  rw [auxiliaryEntries]
  split
  · rename_i hnone
    rw [List.isEmpty_iff.1 hnone]
    rfl
  · exact List.append_nil _

theorem flatMap_codes_straight (coordinates : List Coordinate) (feed : PathFeed)
    (codes : List Code) : (straightEntries coordinates feed codes).flatMap Entry.codes = codes := by
  rw [straightEntries]
  split
  · exact flatMap_codes_auxiliary codes
  · exact List.append_nil _

theorem flatMap_codes_phases (feed : Option Float) (phases : List (Phase Float)) :
    (phases.map (phaseEntry feed)).flatMap Entry.codes = [] := by
  refine List.flatMap_eq_nil_iff.2 fun e he => ?_
  obtain ⟨p, -, rfl⟩ := List.mem_map.1 he
  exact codes_phaseEntry feed p

theorem flatMap_codes_arc (b : Block) (m : Motion) (a : Arc) (codes : List Code) :
    (arcEntries b m a codes).flatMap Entry.codes = codes := by
  rw [arcEntries]
  split <;> exact List.append_nil _

theorem leavesCodes_motion {m : Motion} (h : r.effect = .motion m) :
    leavesCodes r = becomesNoPath m.action := by
  rw [leavesCodes, Resolution.motion?, h]
  rfl

theorem leavesCodes_still (h : ∀ m, r.effect ≠ .motion m) : leavesCodes r = false := by
  rw [leavesCodes, Resolution.motion?]
  split
  · rename_i m hm
    exact absurd hm (h m)
  · rfl

theorem becomes_codes (h : Becomes job b r es) :
    SayCodes (es.flatMap Entry.lines) (if leavesCodes r then [] else extraCodes b) := by
  have hsaid (hcycle : ∀ c, r.effect = .cycle c → expandsCycle job c = true) {codes : List Code}
      (hcodes : es.flatMap Entry.codes = codes) : SayCodes (es.flatMap Entry.lines) codes := by
    rw [← hcodes]
    refine sayCodes_entries h.hasAuxiliary fun e he d hd => ?_
    obtain ⟨c, hc, hdefined⟩ := (h.of_mem he).2 d hd
    rw [hcycle c hc] at hdefined
    cases hdefined
  cases h with
  | modes hr =>
    rw [leavesCodes_still (by simp [hr]), if_neg Bool.false_ne_true]
    exact hsaid (by simp [hr]) (flatMap_codes_auxiliary _)
  | expanded hr hexpands _ =>
    rw [leavesCodes_still (by simp [hr]), if_neg Bool.false_ne_true]
    refine hsaid (by simp [hr, hexpands]) ?_
    rw [List.flatMap_append, flatMap_codes_phases, flatMap_codes_auxiliary, List.nil_append]
  | defined hr _ hd =>
    -- the call of the definition has its own code in front of those of the block
    rw [leavesCodes_still (by simp [hr]), if_neg Bool.false_ne_true]
    refine sayCodes_call hd rfl fun code hcode => ?_
    rcases List.mem_cons.1 hcode with rfl | hcode
    · exact ⟨by decide, by decide⟩
    · exact hasLetter_extraCodes hcode
  | rapid hr hm =>
    rw [leavesCodes_motion hr, hm]
    exact hsaid (by simp [hr]) (flatMap_codes_straight _ _ _)
  | linear hr hm =>
    rw [leavesCodes_motion hr, hm]
    exact hsaid (by simp [hr]) (flatMap_codes_straight _ _ _)
  | arc hr hm =>
    rw [leavesCodes_motion hr, hm]
    exact hsaid (by simp [hr]) (flatMap_codes_arc _ _ _ _)
  | dwell hr hm =>
    rw [leavesCodes_motion hr, hm]
    exact hsaid (by simp [hr]) rfl
  | shape hr hm =>
    rw [leavesCodes_motion hr, hm]
    exact hsaid (by simp [hr]) rfl

/-- Entries without codes. -/
theorem sayCodes_silent {es : List Entry} (h : ∀ e ∈ es, e.codes = [] ∧ ∀ d, e ≠ .definition d) :
    SayCodes (es.flatMap Entry.lines) [] := by
  have hnone : es.flatMap Entry.codes = [] := List.flatMap_eq_nil_iff.2 fun e he => (h e he).1
  rw [← hnone]
  refine sayCodes_entries (fun e he code hcode => ?_) fun e he => (h e he).2
  rw [(h e he).1] at hcode
  cases hcode

theorem sayCodes_place {place : Place}
    (h : (stopEntries job t place.stop).result = .ok place.entries) :
    SayCodes place.lines (forwardedCodes place.stop) := by
  rw [Place.lines, forwardedCodes, stopCodes, Stop.resolution?, Stop.block?]
  have hremarks (remarks : List String) :
      SayCodes ((remarks.map Entry.remark).flatMap Entry.lines) [] := by
    refine sayCodes_silent fun e he => ?_
    obtain ⟨text, -, rfl⟩ := List.mem_map.1 he
    exact ⟨rfl, by simp⟩
  obtain ⟨remarks, ⟨hfound, hentries⟩ | ⟨b, r, tools, effects, hfound, htools, hbecomes,
    hentries⟩⟩ := stopEntries_eq_ok h
  · rw [hentries, hfound]
    exact hremarks remarks
  · have hcalls : SayCodes (tools.flatMap Entry.lines) [] := by
      refine sayCodes_silent fun e he => ?_
      obtain ⟨tool, speed, rfl⟩ := toolEntries_isToolCall htools e he
      exact ⟨rfl, by simp⟩
    have hsaid := (hcalls.append (becomes_codes hbecomes)).append (hremarks remarks)
    rw [List.nil_append, List.append_nil] at hsaid
    rw [hentries, hfound, List.flatMap_append, List.flatMap_append]
    simpa using hsaid

theorem sayCodes_places {places : List Place}
    (h : ∀ place ∈ places, ∃ t, (stopEntries job t place.stop).result = .ok place.entries) :
    SayCodes (places.flatMap Place.lines) ((places.map Place.stop).flatMap forwardedCodes) := by
  induction places with
  | nil => exact sayCodes_nil
  | cons place rest ih =>
    obtain ⟨t, hplace⟩ := h place (.head _)
    exact (sayCodes_place hplace).append (ih fun p hp => h p (.tail _ hp))

theorem sayCodes_printout {p : Printout} (hp : printout job ls = .ok p) :
    SayCodes p.lines (p.stops.flatMap forwardedCodes) := by
  obtain ⟨-, hplaces, bounds, -, hlast⟩ := printout_spec hp
  have hhead : SayCodes p.headLines [] := by
    refine sayCodes_silent fun e he => ?_
    rcases printout_head hp he with ⟨_, rfl⟩ | ⟨_, rfl | rfl⟩ | ⟨_, _, rfl⟩ <;>
      exact ⟨rfl, by simp⟩
  have hclosing : SayCodes p.last.lines [] := by
    rw [hlast]
    exact sayCodes_entry (by intro code hcode; cases hcode) (by simp)
  have hsaid := (hhead.append
    (sayCodes_places fun place hplace => stopEntries_of_mem hplaces hplace)).append hclosing
  rwa [List.nil_append, List.append_nil] at hsaid

/-- The blocks of a walk are those of the program. -/
theorem readLinesFrom_walk {settings : Settings} {m : Modal} {n : Int} {stops : List Stop}
    (h : m.walkFrom settings n ls = .ok stops) :
    Block.readLinesFrom n ls = stops.flatMap fun s => s.block?.toList := by
  induction ls generalizing m n stops with
  | nil =>
    cases h
    rfl
  | cons raw rest ih =>
    simp only [Modal.walkFrom, bind_eq_ok, pure_eq_ok] at h
    obtain ⟨s, hs, more, hmore, rfl⟩ := h
    rw [Block.readLinesFrom, ih hmore, List.flatMap_cons, (stopAt_eq_ok hs).2.2]

theorem auxiliaryCodes_walk {stops : List Stop} (h : walk ls = .ok stops) :
    auxiliaryCodes ls = stops.flatMap stopCodes := by
  rw [auxiliaryCodes, readLinesFrom_walk h, List.flatMap_assoc]
  rfl

theorem forwardedCodes_sublist (s : Stop) : (forwardedCodes s).Sublist (stopCodes s) := by
  rw [forwardedCodes]
  split
  · exact List.nil_sublist _
  · exact .refl _

/-- Codes come through as they stand if none is left behind. -/
theorem flatMap_forwardedCodes_eq_iff (stops : List Stop) :
    stops.flatMap forwardedCodes = stops.flatMap stopCodes ↔
      ∀ s ∈ stops, s.resolution?.any leavesCodes = true → stopCodes s = [] := by
  have hone : ∀ s, forwardedCodes s = stopCodes s ↔
      (s.resolution?.any leavesCodes = true → stopCodes s = []) := by
    intro s
    rw [forwardedCodes]
    split
    · rename_i hleaves
      exact ⟨fun hnone _ => hnone.symm, fun hnone => (hnone hleaves).symm⟩
    · rename_i hleaves
      exact ⟨fun _ hleft => absurd hleft hleaves, fun _ => rfl⟩
  have hlength : ∀ stops : List Stop,
      (stops.flatMap forwardedCodes).length ≤ (stops.flatMap stopCodes).length := by
    intro stops
    induction stops with
    | nil => exact Nat.le_refl 0
    | cons s rest ih =>
      have hs := (forwardedCodes_sublist s).length_le
      rw [List.flatMap_cons, List.flatMap_cons, List.length_append, List.length_append]
      omega
  induction stops with
  | nil => simp
  | cons s rest ih =>
    rw [List.flatMap_cons, List.flatMap_cons, List.forall_mem_cons, ← hone]
    refine Iff.trans ?_ (and_congr_right' ih)
    constructor
    · intro heq
      have hs := (forwardedCodes_sublist s).length_le
      have hrest := hlength rest
      have hsum := congrArg List.length heq
      rw [List.length_append, List.length_append] at hsum
      exact List.append_inj heq (by omega)
    · rintro ⟨hs, hrest⟩
      rw [hs, hrest]

/-- The codes of the path blocks are those of the program that stand on no block that dwells or
works a shape; the calls of defined cycles are not among them. They are all the codes of the program
where such blocks have none. -/
theorem conversion_codes (h : (Rule.conversationalFormat job ls).result = .ok output)
    (hblocks : isConversational ls = false) :
    ∃ stops, walk ls = .ok stops ∧
      ownCodes (dropNumbers output) = stops.flatMap forwardedCodes ∧
      (ownCodes (dropNumbers output) = auxiliaryCodes ls ↔
        ∀ s ∈ stops, s.resolution?.any leavesCodes = true → stopCodes s = []) := by
  obtain ⟨p, hp, houtput⟩ := conversationalFormat_printout h hblocks
  have hwalk := (printout_spec hp).1
  have hcodes : ownCodes (dropNumbers output) = p.stops.flatMap forwardedCodes := by
    rw [houtput]
    exact (sayCodes_printout hp).1
  refine ⟨p.stops, hwalk, hcodes, ?_⟩
  rw [hcodes, auxiliaryCodes_walk hwalk]
  exact flatMap_forwardedCodes_eq_iff p.stops

/-- Codes that come through: of a move, of a cycle, and alone. -/
theorem conversion_codes_cycle :
    ∃ output stops, (Rule.conversationalFormat ⟨.heidenhain, {}⟩
        ["T1 M6", "G0 X0 M3", "G81 X1 Z-2 R1 F90 M8", "M99", "M5 M30"]).result = .ok output ∧
      walk ["T1 M6", "G0 X0 M3", "G81 X1 Z-2 R1 F90 M8", "M99", "M5 M30"] = .ok stops ∧
      ownCodes (dropNumbers output) = stops.flatMap forwardedCodes ∧
      ownCodes (dropNumbers output) = ["M3", "M8", "M99", "M5"] := by
  obtain ⟨output, houtput⟩ := exists_eq_ok (x := (Rule.conversationalFormat ⟨.heidenhain, {}⟩
    ["T1 M6", "G0 X0 M3", "G81 X1 Z-2 R1 F90 M8", "M99", "M5 M30"]).result) (by decide +kernel)
  obtain ⟨stops, hwalk, hcodes, hall⟩ := conversion_codes houtput (by decide +kernel)
  have hcheck : (walk ["T1 M6", "G0 X0 M3", "G81 X1 Z-2 R1 F90 M8", "M99", "M5 M30"]).toOption.any
      (fun stops => stops.flatMap forwardedCodes == ["M3", "M8", "M99", "M5"]) = true := by
    decide +kernel
  rw [hwalk] at hcheck
  exact ⟨output, stops, houtput, hwalk, hcodes, hcodes.trans (beq_iff_eq.1 hcheck)⟩

/-- A dwell leaves its code behind. -/
theorem conversion_code_lost :
    ¬ ∀ job ls output, (Rule.conversationalFormat job ls).result = .ok output →
      isConversational ls = false → ownCodes (dropNumbers output) = auxiliaryCodes ls := by
  intro hclaim
  have hcheck : ((Rule.conversationalFormat ⟨.heidenhain, {}⟩
      ["T1", "G1 X1 F100", "G4 P500 M8", "M30"]).result.toOption.any fun output =>
        ownCodes (dropNumbers output) != auxiliaryCodes ["T1", "G1 X1 F100", "G4 P500 M8", "M30"]) =
      true := by decide +kernel
  obtain ⟨output, houtput⟩ := exists_eq_ok (x := (Rule.conversationalFormat ⟨.heidenhain, {}⟩
    ["T1", "G1 X1 F100", "G4 P500 M8", "M30"]).result) (by decide +kernel)
  have hsame := hclaim _ _ _ houtput (by decide +kernel)
  rw [houtput] at hcheck
  exact bne_iff_ne.1 hcheck hsame

end

end PartProgram.Conversational

import PartProgram.Proofs.AuxiliaryCodes
import PartProgram.Proofs.Openings
import PartProgram.Proofs.SpindleSpeeds

/-!
# PartProgram.Proofs.BlockNumbers

Converted programs as they are printed. Every entry is printed as blocks: a text, which gets a number,
and the parameter lines of a cycle, which are indented and get none. The numbers count from zero and
leave the texts as they are.

* `numberFrom_blocks`: numbering the lines of blocks prints the blocks.
* `exists_toolCall`: a tool is called in the head of a program or in its body.
* `conversationalFormat_wellFormed`: what is converted is well formed, and is not converted again.
-/

namespace PartProgram.Conversational

open Text

/-! ## Blocks -/

/-- A block as it is printed: its text, and the lines that go on with it. -/
structure PrintedBlock where
  text : String
  more : List String

namespace PrintedBlock

def lines (b : PrintedBlock) : List String := b.text :: b.more

/-- The text of a block begins with neither a blank nor a digit, and what goes on with it with a
blank. -/
structure WellFormed (b : PrintedBlock) : Prop where
  text : ∃ c rest, b.text.toList = c :: rest ∧ isBlank c = false ∧ isDigit c = false
  more : ∀ l ∈ b.more, isContinuation l = true

/-- The first line of a block with its number. -/
def numbered (n : Nat) (b : PrintedBlock) : String := toString n ++ " " ++ b.text

/-- Blocks with their numbers. -/
def print (n : Nat) : List PrintedBlock → List String
  | [] => []
  | b :: rest => b.numbered n :: b.more ++ print (n + 1) rest

variable {b : PrintedBlock} {bs : List PrintedBlock}

theorem WellFormed.not_isContinuation (h : b.WellFormed) : isContinuation b.text = false := by
  obtain ⟨c, rest, hchars, hblank, -⟩ := h.text
  rw [isContinuation, startsBlank, hchars]
  exact hblank

theorem WellFormed.unnumbered (h : b.WellFormed) : unnumbered b.text = b.text := by
  obtain ⟨c, rest, hchars, hblank, hdigit⟩ := h.text
  exact unnumbered_of_letter hchars hblank hdigit

/-- Lines of blocks are numbered block by block. -/
theorem numberFrom_blocks (h : ∀ b ∈ bs, b.WellFormed) (n : Nat) :
    numberFrom n (bs.flatMap lines) = print n bs := by
  induction bs generalizing n with
  | nil => rfl
  | cons b bs ih =>
    have hb := h b (.head _)
    have ih := ih (fun b' hb' => h b' (.tail _ hb')) (n + 1)
    rw [List.flatMap_cons, lines, List.cons_append, numberFrom, hb.not_isContinuation,
      if_neg Bool.false_ne_true, hb.unnumbered, numberFrom_append_of_continuation hb.more, ih]
    rfl

theorem print_append (n : Nat) (bs more : List PrintedBlock) :
    print n (bs ++ more) = print n bs ++ print (n + bs.length) more := by
  induction bs generalizing n with
  | nil => rfl
  | cons b bs ih =>
    rw [List.cons_append, print, ih, print, List.append_assoc, List.length_cons, Nat.add_right_comm,
      Nat.add_assoc]

/-- The last block of a program, if nothing goes on with it. -/
theorem getLast?_print (n : Nat) (bs : List PrintedBlock) (text : String) :
    (print n (bs ++ [⟨text, []⟩])).getLast? = some (toString (n + bs.length) ++ " " ++ text) := by
  rw [print_append]
  exact List.getLast?_concat

theorem mem_print (n : Nat) (h : b ∈ bs) : ∃ k, b.numbered k ∈ print n bs := by
  induction bs generalizing n with
  | nil => cases h
  | cons b' bs ih =>
    rcases List.mem_cons.1 h with rfl | h
    · exact ⟨n, .head _⟩
    · obtain ⟨k, hk⟩ := ih (n + 1) h
      exact ⟨k, List.mem_append_right _ hk⟩

/-- The lines that begin with a blank are those that go on with a block. -/
theorem filter_isContinuation_print (h : ∀ b ∈ bs, b.WellFormed) (n : Nat) :
    (print n bs).filter isContinuation = bs.flatMap more := by
  induction bs generalizing n with
  | nil => rfl
  | cons b bs ih =>
    have ih := ih (fun b' hb' => h b' (.tail _ hb')) (n + 1)
    have hfirst : isContinuation (b.numbered n) = false := isContinuation_number n b.text
    rw [print, List.cons_append, List.filter_cons_of_neg (by simp [hfirst]), List.filter_append, ih,
      List.filter_eq_self.2 (h b (.head _)).more, List.flatMap_cons]

/-- All other lines are the texts of the blocks with their numbers, one after the other. -/
theorem filter_numbered_print (h : ∀ b ∈ bs, b.WellFormed) (n : Nat) :
    (print n bs).filter (!isContinuation ·) = (bs.zipIdx n).map fun (b, i) => b.numbered i := by
  induction bs generalizing n with
  | nil => rfl
  | cons b bs ih =>
    have ih := ih (fun b' hb' => h b' (.tail _ hb')) (n + 1)
    have hfirst : isContinuation (b.numbered n) = false := isContinuation_number n b.text
    have hmore : b.more.filter (!isContinuation ·) = [] :=
      List.filter_eq_nil_iff.2 fun l hl => by simp [(h b (.head _)).more l hl]
    rw [print, List.cons_append, List.filter_cons_of_pos (by simp [hfirst]), List.filter_append, ih,
      hmore, List.zipIdx_cons, List.map_cons, List.nil_append]

end PrintedBlock

/-! ## Blocks of entries -/

/-- The parameter lines of a cycle. -/
def Entry.parameterLines : Entry → List String
  | definition d => continued (d.parameters.map Parameter.render)
  | _ => []

/-- The first line of a definition, which says that the block goes on if it has parameters. -/
def Definition.heading (d : Definition) : String :=
  let text := definitionMark ++ " " ++ toString d.number ++ " " ++ d.name
  if d.parameters.isEmpty then text else text ++ " ~"

/-- The blocks that an entry is printed as. Only a definition goes over several lines. -/
def Entry.blocks : Entry → List PrintedBlock
  | definition d => [⟨d.heading, (definition d).parameterLines⟩]
  | e => e.lines.map (⟨·, []⟩)

theorem Definition.lines_eq (d : Definition) :
    d.lines = d.heading :: (Entry.definition d).parameterLines := by
  rw [Definition.lines, Definition.heading, Entry.parameterLines]
  cases d.parameters <;> rfl

namespace Entry

variable {e : Entry}

theorem blocks_of_not_definition (h : ∀ d, e ≠ definition d) :
    e.blocks = e.lines.map (⟨·, []⟩) ∧ e.parameterLines = [] := by
  cases e with
  | definition d => exact absurd rfl (h d)
  | _ => exact ⟨rfl, rfl⟩

/-- An entry is printed with all its lines. -/
theorem flatMap_blocks (e : Entry) : e.blocks.flatMap PrintedBlock.lines = e.lines := by
  by_cases h : ∃ d, e = definition d
  · obtain ⟨d, rfl⟩ := h
    rw [lines, Definition.lines_eq]
    simp [blocks, PrintedBlock.lines]
  · rw [(blocks_of_not_definition fun d hd => h ⟨d, hd⟩).1, List.flatMap_map]
    exact List.flatMap_singleton' e.lines

theorem flatMap_more (e : Entry) : e.blocks.flatMap PrintedBlock.more = e.parameterLines := by
  by_cases h : ∃ d, e = definition d
  · obtain ⟨d, rfl⟩ := h
    simp [blocks]
  · obtain ⟨hblocks, hparameters⟩ := blocks_of_not_definition fun d hd => h ⟨d, hd⟩
    rw [hblocks, hparameters, List.flatMap_map]
    simp

theorem not_isContinuation_lines (h : ∀ d, e ≠ definition d) {line : String}
    (hline : line ∈ e.lines) : isContinuation line = false := by
  have hmarks : ∀ c ∈ "LTC;BE".toList, isBlank c = false := forall_mem_of_all (by decide)
  have hhead (c : Char) (hc : c ∈ "LTC;BE".toList) (hline : line.toList.head? = some c) :
      isContinuation line = false := by
    rw [isContinuation, startsBlank, hline]
    exact hmarks c hc
  cases e with
  | definition d => exact absurd rfl (h d)
  | move m =>
    rw [List.mem_singleton.1 hline]
    exact m.isContinuation_render
  | auxiliary codes =>
    refine hhead 'L' (by decide) ?_
    rw [List.mem_singleton.1 hline, toList_intercalate_cons]
    rfl
  | toolCall tool speed =>
    refine hhead 'T' (by decide) ?_
    rw [toolCall_lines, List.mem_singleton] at hline
    rw [hline, toList_intercalate_cons]
    rfl
  | dwell seconds =>
    simp only [lines, List.mem_cons, List.not_mem_nil, or_false] at hline
    rcases hline with rfl | rfl
    · exact hhead 'C' (by decide) (by simp)
    · exact hhead 'C' (by decide) (by simp)
  | centre _ _ => exact hhead 'C' (by decide) (by simp [List.mem_singleton.1 hline])
  | remark _ => exact hhead ';' (by decide) (by simp [List.mem_singleton.1 hline])
  | blankFrom _ => exact hhead 'B' (by decide) (by simp [List.mem_singleton.1 hline])
  | blankTo _ => exact hhead 'B' (by decide) (by simp [List.mem_singleton.1 hline])
  | opening _ => exact hhead 'B' (by decide) (by simp [List.mem_singleton.1 hline])
  | closing _ => exact hhead 'E' (by decide) (by simp [List.mem_singleton.1 hline])

theorem wellFormed_blocks (e : Entry) : ∀ b ∈ e.blocks, b.WellFormed := by
  intro b hb
  by_cases h : ∃ d, e = definition d
  · obtain ⟨d, rfl⟩ := h
    obtain rfl := List.mem_singleton.1 hb
    refine ⟨?_, fun l hl => isContinuation_parameters hl⟩
    have hmark : ∃ rest, d.heading.toList = 'C' :: rest := by
      rw [Definition.heading]
      split <;> simp [definitionMark]
    obtain ⟨rest, hchars⟩ := hmark
    exact ⟨'C', rest, hchars, by decide, by decide⟩
  · have hnone : ∀ d, e ≠ definition d := fun d hd => h ⟨d, hd⟩
    rw [(blocks_of_not_definition hnone).1] at hb
    obtain ⟨line, hline, rfl⟩ := List.mem_map.1 hb
    refine ⟨?_, by simp⟩
    exact (e.isPlain_lines hline).resolve_left (by simp [not_isContinuation_lines hnone hline])

end Entry

/-! ## Tool calls -/

section

variable {job : Job} {ls output : Lines} {t : Tooling}

/-- A stop after which a tool is called where none was called before calls it. -/
theorem exists_toolCall_stop {s : Stop} {es : List Entry}
    (h : (stopEntries job t s).result = .ok es) (ht : t.isCalled = false)
    (hcalled : (t.after s).isCalled = true) : ∃ tool speed, .toolCall tool speed ∈ es := by
  obtain ⟨remarks, ⟨hfound, -⟩ | ⟨b, r, tools, effects, hfound, htools, -, rfl⟩⟩ :=
    stopEntries_eq_ok h
  · simp [Tooling.after, Stop.block?, hfound, ht] at hcalled
  · have hhas : b.has ['T'] = true := by
      simpa [Tooling.after, Stop.block?, hfound, Tooling.meet, ht] using hcalled
    obtain ⟨tool, htool⟩ : ∃ tool, b.value 'T' = some tool := by
      refine Option.ne_none_iff_exists'.1 fun hnone => ?_
      rw [value_eq_none_iff.1 hnone] at hhas
      cases hhas
    simp only [toolEntries, htool, bind_eq_ok, pure_eq_ok] at htools
    obtain ⟨n, -, rfl⟩ := htools
    exact ⟨some n, b.value 'S', by simp⟩

theorem exists_toolCall_places {stops : List Stop} {places : List Place}
    (h : placesFrom job t stops = .ok places) (ht : t.isCalled = false)
    (hcalled : (stops.foldl Tooling.after t).isCalled = true) :
    ∃ tool speed, .toolCall tool speed ∈ places.flatMap Place.entries := by
  induction stops generalizing t places with
  | nil => simp [ht] at hcalled
  | cons s rest ih =>
    simp only [placesFrom, bind_eq_ok, pure_eq_ok] at h
    obtain ⟨entries, hentries, more, hmore, rfl⟩ := h
    rw [List.flatMap_cons]
    cases hafter : (t.after s).isCalled with
    | false =>
      obtain ⟨tool, speed, hmem⟩ := ih hmore hafter hcalled
      exact ⟨tool, speed, List.mem_append_right _ hmem⟩
    | true =>
      obtain ⟨tool, speed, hmem⟩ := exists_toolCall_stop hentries ht hafter
      exact ⟨tool, speed, List.mem_append_left _ hmem⟩

/-- A tool is called by the program, or else in front of it. -/
theorem exists_toolCall {p : Printout} (hp : printout job ls = .ok p) :
    ∃ tool speed, .toolCall tool speed ∈ p.head ++ p.places.flatMap Place.entries := by
  obtain ⟨-, hplaces, bounds, hhead, -⟩ := printout_spec hp
  cases hcalled : (p.stops.foldl Tooling.after {}).isCalled with
  | true =>
    obtain ⟨tool, speed, hmem⟩ := exists_toolCall_places hplaces rfl hcalled
    exact ⟨tool, speed, List.mem_append_right _ hmem⟩
  | false =>
    refine ⟨some 1, (p.stops.foldl Tooling.after {}).firstSpeed, List.mem_append_left _ ?_⟩
    simp [hhead, headCall, hcalled]

/-! ## Converted programs -/

/-- A conversational program of some entries: their blocks, numbered from zero on, with the opening
and the closing of the program around them and a tool call among them. -/
structure IsProgram (name : String) (entries : List Entry) (output : Lines) : Prop where
  printed : output = PrintedBlock.print 0 (entries.flatMap Entry.blocks)
  /-- all lines that begin with a blank -/
  parameters : output.filter isContinuation = entries.flatMap Entry.parameterLines
  /-- all other lines -/
  numbered : output.filter (!isContinuation ·) =
    (entries.flatMap Entry.blocks).zipIdx.map fun (b, n) => toString n ++ " " ++ b.text
  intact : dropNumbers output = entries.flatMap Entry.lines
  first : output.head? = some ("0 BEGIN PGM " ++ name ++ " MM")
  last : ∃ n, n + 1 = (entries.flatMap Entry.blocks).length ∧
    output.getLast? = some (toString n ++ " END PGM " ++ name ++ " MM")
  toolCall : ∃ (n : Nat) (text : String), toString n ++ " TOOL CALL " ++ text ∈ output
  conversational : isConversational output = true

theorem wellFormed_flatMap_blocks (entries : List Entry) :
    ∀ b ∈ entries.flatMap Entry.blocks, b.WellFormed := by
  intro b hb
  obtain ⟨e, -, hb⟩ := List.mem_flatMap.1 hb
  exact e.wellFormed_blocks b hb

theorem renumber_entries (entries : List Entry) :
    renumber (entries.flatMap Entry.lines) =
      PrintedBlock.print 0 (entries.flatMap Entry.blocks) := by
  have hlines : entries.flatMap Entry.lines =
      (entries.flatMap Entry.blocks).flatMap PrintedBlock.lines := by
    rw [List.flatMap_assoc]
    exact List.flatMap_congr fun e _ => e.flatMap_blocks.symm
  rw [hlines]
  exact PrintedBlock.numberFrom_blocks (wellFormed_flatMap_blocks entries) 0

/-- A tool call is a block of the program. -/
theorem mem_print_toolCall {entries : List Entry} {tool : Option Int} {speed : Option Float}
    (h : .toolCall tool speed ∈ entries) :
    ∃ (n : Nat) (text : String),
      toString n ++ " TOOL CALL " ++ text ∈
        PrintedBlock.print 0 (entries.flatMap Entry.blocks) := by
  have hblock : ⟨" ".intercalate ("TOOL CALL" :: callWords tool speed), []⟩ ∈
      entries.flatMap Entry.blocks := by
    refine List.mem_flatMap.2 ⟨_, h, ?_⟩
    rw [Entry.blocks, Entry.toolCall_lines]
    · exact .head _
    · simp
  obtain ⟨n, hn⟩ := PrintedBlock.mem_print 0 hblock
  obtain ⟨w, ws, hwords⟩ : ∃ w ws, callWords tool speed = w :: ws :=
    List.exists_cons_of_ne_nil (by simp [callWords])
  refine ⟨n, " ".intercalate (w :: ws), ?_⟩
  have htext : toString n ++ " " ++ " ".intercalate ("TOOL CALL" :: w :: ws) =
      toString n ++ " TOOL CALL " ++ " ".intercalate (w :: ws) := by
    rw [String.intercalate_cons_cons]
    exact String.toList_inj.1 (by simp)
  rw [hwords] at hn
  exact htext ▸ hn

/-- Entries between the opening and the closing of a program. -/
def framed (name : String) (body : List Entry) : List Entry :=
  .opening name :: body ++ [.closing name]

/-- The entries of a program are framed, and a tool is called among them. -/
theorem programEntries_framed {entries : List Entry}
    (h : (programEntries job ls).result = .ok entries) :
    ∃ body tool speed, entries = framed (String.ofList job.options.name) body ∧
      .toolCall tool speed ∈ body := by
  obtain ⟨p, hp, rfl⟩ := programEntries_printout h
  obtain ⟨tool, speed, hcall⟩ := exists_toolCall hp
  obtain ⟨-, -, bounds, hhead, hlast⟩ := printout_spec hp
  refine ⟨blankEntries bounds ++ headCall p.stops ++ p.places.flatMap Place.entries, tool, speed,
    by rw [hhead, hlast]; simp [framed], ?_⟩
  simpa [hhead] using hcall

theorem isProgram_renumber {name : String} {body : List Entry} {tool : Option Int}
    {speed : Option Float} (hcall : .toolCall tool speed ∈ body)
    (hopens : isConversational (renumber ((framed name body).flatMap Entry.lines)) = true) :
    IsProgram name (framed name body) (renumber ((framed name body).flatMap Entry.lines)) := by
  have hprint := renumber_entries (framed name body)
  have hwell := wellFormed_flatMap_blocks (framed name body)
  have hblocks : (framed name body).flatMap Entry.blocks =
      ⟨"BEGIN PGM " ++ name ++ " MM", []⟩ :: body.flatMap Entry.blocks ++
        [⟨"END PGM " ++ name ++ " MM", []⟩] := by
    simp [framed, Entry.blocks, Entry.lines]
  constructor
  · exact hprint
  · rw [hprint, PrintedBlock.filter_isContinuation_print hwell, List.flatMap_assoc]
    exact List.flatMap_congr fun e _ => e.flatMap_more
  · rw [hprint]
    exact PrintedBlock.filter_numbered_print hwell 0
  · refine dropNumbers_renumber fun l hl => ?_
    obtain ⟨e, -, hl⟩ := List.mem_flatMap.1 hl
    exact (e.isPlain_lines hl).unnumbered
  · rw [hprint, hblocks]
    rfl
  · refine ⟨(body.flatMap Entry.blocks).length + 1, by rw [hblocks]; simp, ?_⟩
    rw [hprint, hblocks, PrintedBlock.getLast?_print, Nat.zero_add, List.length_cons]
    exact congrArg some (String.toList_inj.1 (by simp))
  · have hmem : .toolCall tool speed ∈ framed name body := by simp [framed, hcall]
    rw [hprint]
    exact mem_print_toolCall hmem
  · exact hopens

/-- What is converted is a conversational program of the entries that stand for it, and is not
converted again. -/
theorem conversationalFormat_wellFormed
    (h : (Rule.conversationalFormat job ls).result = .ok output)
    (hblocks : isConversational ls = false) :
    ∃ entries, (programEntries job ls).result = .ok entries ∧
      IsProgram (String.ofList job.options.name) entries output ∧
      ∀ job', Rule.conversationalFormat job' output = pure output := by
  rw [Rule.conversationalFormat, hblocks, if_neg Bool.false_ne_true] at h
  have hopens : isConversational output = true := isConversational_of_convert h
  rw [convert, Told.result_bind_eq_ok] at h
  obtain ⟨entries, hentries, h⟩ := h
  rw [Told.result_pure_eq_ok] at h
  subst h
  obtain ⟨body, tool, speed, rfl, hcall⟩ := programEntries_framed hentries
  refine ⟨_, hentries, isProgram_renumber hcall hopens, fun job' => ?_⟩
  rw [Rule.conversationalFormat, if_pos hopens]

/-- A comment that begins with a number, and a cycle with its eight parameters. -/
theorem conversationalFormat_wellFormed_cycle :
    ∃ output entries, (Rule.conversationalFormat ⟨.heidenhain, {}⟩
        ["(12 HOLES)", "S900 M3", "G81 X1 Y2 Z-2 R1 F90", "G80 M30"]).result = .ok output ∧
      IsProgram "WORKPIECE" entries output ∧
      (∀ job', Rule.conversationalFormat job' output = pure output) ∧
      "3 TOOL CALL 1 Z S900" ∈ output ∧ "4 ; 12 HOLES" ∈ output ∧
      (output.filter isContinuation).length = 8 := by
  obtain ⟨output, houtput⟩ := exists_eq_ok (x := (Rule.conversationalFormat ⟨.heidenhain, {}⟩
    ["(12 HOLES)", "S900 M3", "G81 X1 Y2 Z-2 R1 F90", "G80 M30"]).result) (by decide +kernel)
  obtain ⟨entries, -, hprogram, hagain⟩ :=
    conversationalFormat_wellFormed houtput (by decide +kernel)
  have hcheck : ((Rule.conversationalFormat ⟨.heidenhain, {}⟩
      ["(12 HOLES)", "S900 M3", "G81 X1 Y2 Z-2 R1 F90", "G80 M30"]).result.toOption.any
        fun output => output.contains "3 TOOL CALL 1 Z S900" && output.contains "4 ; 12 HOLES" &&
          (output.filter isContinuation).length == 8) = true := by
    decide +kernel
  rw [houtput] at hcheck
  simp only [Except.toOption, Option.any_some, Bool.and_eq_true, List.contains_iff_mem,
    beq_iff_eq] at hcheck
  exact ⟨output, entries, houtput, hprogram, hagain, hcheck.1.1, hcheck.1.2, hcheck.2⟩

end

end PartProgram.Conversational

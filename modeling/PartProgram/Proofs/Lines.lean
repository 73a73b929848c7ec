import Mathlib.Data.List.TakeWhile
import PartProgram.Proofs.Run
import PartProgram.Proofs.Scanning

/-!
# PartProgram.Proofs.Lines

Lines that are joined and split again. Lines without line ends inside come back as they were, except
that an empty line at the end is lost; it holds no block, so a program is passed the same either
way.

* `lines_joinLines`: the lines of joined lines.
* `passages_joinLines`: joined lines pass the machine as the lines do.
-/

namespace PartProgram

/-! ## Joining and splitting -/

namespace Text

/-- No character of the line ends it. -/
def NoLineEnd (l : String) : Prop := ∀ c ∈ l.toList, isLineEnd c = false

instance (l : String) : Decidable (NoLineEnd l) :=
  List.decidableBAll (isLineEnd · = false) l.toList

theorem linesAfter_feed (line rest : List Char) :
    linesAfter line ('\n' :: rest) = line.reverse :: linesAfter [] rest := by
  rw [linesAfter]
  · have h : isLineEnd '\n' = true := by decide
    simp [h]
  · simp

theorem linesAfter_of_not_end {c : Char} (hc : isLineEnd c = false) (line rest : List Char) :
    linesAfter line (c :: rest) = linesAfter (c :: line) rest := by
  rw [linesAfter]
  · simp [hc]
  · rintro _ rfl
    have h : isLineEnd '\r' = true := by decide
    simp [h] at hc

theorem linesAfter_append {cs : List Char} (h : ∀ c ∈ cs, isLineEnd c = false)
    (line rest : List Char) : linesAfter line (cs ++ rest) = linesAfter (cs.reverse ++ line) rest := by
  induction cs generalizing line with
  | nil => rfl
  | cons c cs ih =>
    simp only [List.cons_append, linesAfter_of_not_end (h c (.head _)),
      ih fun c' hc' => h c' (.tail _ hc')]
    simp

theorem toList_joinLines_cons_cons (l l' : String) (rest : List String) :
    (joinLines (l :: l' :: rest)).toList = l.toList ++ '\n' :: (joinLines (l' :: rest)).toList := by
  simp [joinLines, String.intercalate_cons_cons]

theorem lines_joinLines_singleton {l : String} (h : NoLineEnd l) :
    lines (joinLines [l]) = if l = "" then [] else [l] := by
  have hl := linesAfter_append h [] []
  simp only [List.append_nil] at hl
  simp only [lines, joinLines, String.intercalate_singleton, hl, linesAfter]
  by_cases hnil : l = ""
  · simp [hnil]
  · simp [hnil]

theorem lines_joinLines_cons_cons {l : String} (h : NoLineEnd l) (l' : String)
    (rest : List String) :
    lines (joinLines (l :: l' :: rest)) = l :: lines (joinLines (l' :: rest)) := by
  simp only [lines, toList_joinLines_cons_cons, linesAfter_append h, linesAfter_feed]
  simp

/-- Lines without line ends inside come back, the last one only if it is not empty. -/
theorem lines_joinLines {ls : List String} (h : ∀ l ∈ ls, NoLineEnd l) :
    lines (joinLines ls) = ls ∨ lines (joinLines ls) ++ [""] = ls := by
  induction ls with
  | nil => exact .inl rfl
  | cons l rest ih =>
    cases rest with
    | nil =>
      rw [lines_joinLines_singleton (h l (.head _))]
      by_cases hnil : l = ""
      · simp [hnil]
      · simp [hnil]
    | cons l' rest =>
      rw [lines_joinLines_cons_cons (h l (.head _))]
      rcases ih fun x hx => h x (.tail _ hx) with hrest | hrest
      · exact .inl (by rw [hrest])
      · exact .inr (by rw [List.cons_append, hrest])

theorem mem_of_mem_joinLines {ls : List String} {l : String} (hl : l ∈ ls) :
    ∀ c ∈ l.toList, c ∈ (joinLines ls).toList := by
  induction ls with
  | nil => cases hl
  | cons k rest ih =>
    cases rest with
    | nil =>
      simp only [List.mem_singleton] at hl
      simp [hl, joinLines]
    | cons k' rest =>
      intro c hc
      rw [toList_joinLines_cons_cons, List.mem_append, List.mem_cons]
      cases hl with
      | head => exact .inl hc
      | tail _ hl => exact .inr (.inr (ih hl c hc))

end Text

/-! ## Blank lines -/

open Text

theorem CommentedLine.ofChars_of_no_mark {cs : List Char} (h : ∀ c ∈ cs, c ≠ '(' ∧ c ≠ ';') :
    ofChars cs = ⟨cs, []⟩ := by
  have hscan : scan Comment.recognise cs = cs.map .inl :=
    scan_of_not_found fun _ c hc _ => by simp [Comment.recognise, h c hc]
  rw [ofChars, hscan]
  clear h hscan
  induction cs with
  | nil => rfl
  | cons c rest ih => simp [ih, prepend]

theorem Text.trim_of_allBlank {cs : List Char} (h : allBlank cs = true) : trim cs = [] := by
  simp only [allBlank, List.all_eq_true] at h
  simp [trim, trimRight, trimLeft, List.dropWhile_eq_nil_iff.2 h]

theorem Block.mem_of_mem_dropLineEnd {cs : List Char} {c : Char} (h : c ∈ dropLineEnd cs) :
    c ∈ cs := by
  simpa using (List.dropWhile_sublist _).mem (List.mem_reverse.1 h)

/-- A blank line holds no block. -/
theorem Block.read?_of_allBlank {raw : String} (h : allBlank raw.toList = true) (n : Int) :
    Block.read? raw n = none := by
  simp only [allBlank, List.all_eq_true] at h
  have hblank : ∀ c ∈ dropLineEnd raw.toList, isBlank c = true :=
    fun c hc => h c (mem_of_mem_dropLineEnd hc)
  have hmarks : ∀ c ∈ dropLineEnd raw.toList, c ≠ '(' ∧ c ≠ ';' := by
    intro c hc
    have hc := hblank c hc
    refine ⟨?_, ?_⟩ <;> rintro rfl <;> exact absurd hc (by decide)
  have htrim : trim (dropLineEnd raw.toList) = [] :=
    trim_of_allBlank (by simpa [allBlank] using hblank)
  simp [read?, CommentedLine.ofChars_of_no_mark hmarks, code?, CommentedLine.codeWith, htrim]

/-- Where a block stands there is text. -/
theorem isBlankText_joinLines {ls : List String} {n : Int} (h : Block.readLinesFrom n ls ≠ []) :
    Toolpath.isBlankText (joinLines ls) = false := by
  obtain ⟨b, hb⟩ := List.exists_mem_of_ne_nil _ h
  obtain ⟨i, raw, hi, hread⟩ := Block.mem_readLinesFrom.1 hb
  cases hblank : Toolpath.isBlankText (joinLines ls) with
  | false => rfl
  | true =>
    have hraw : allBlank raw.toList = true := by
      simp only [Toolpath.isBlankText, allBlank, List.all_eq_true] at hblank ⊢
      exact fun c hc => hblank c (mem_of_mem_joinLines (List.mem_of_getElem? hi) c hc)
    rw [Block.read?_of_allBlank hraw] at hread
    cases hread

/-! ## Passing joined lines -/

theorem passFrom_append_empty (settings : Settings) (m : Modal) (n : Int) (ls : List String) :
    m.passFrom settings n (ls ++ [""]) = m.passFrom settings n ls := by
  induction ls generalizing m n with
  | nil =>
    have h : Block.read? "" n = none := Block.read?_of_allBlank (by decide) n
    simp [Modal.passFrom, h]
  | cons raw rest ih =>
    simp only [List.cons_append, Modal.passFrom]
    cases Block.read? raw n with
    | none => exact ih m (n + 1)
    | some b => simp only [ih]

theorem passFrom_joinLines {ls : List String} (hends : ∀ l ∈ ls, NoLineEnd l)
    (settings : Settings) (m : Modal) (n : Int) :
    m.passFrom settings n (lines (joinLines ls)) = m.passFrom settings n ls := by
  rcases lines_joinLines hends with h | h
  · rw [h]
  · conv => rhs; rw [← h]
    rw [passFrom_append_empty]

/-- Joined lines pass the machine as the lines do. -/
theorem passages_joinLines {ls : List String} {settings : Settings} {ps : List Passage}
    (hends : ∀ l ∈ ls, NoLineEnd l) (hrun : Modal.initial.passFrom settings 1 ls = .ok ps)
    (hblocks : Block.readLinesFrom 1 ls ≠ []) :
    Toolpath.passages (joinLines ls) settings = .ok ps := by
  have hps : ps ≠ [] := by
    rintro rfl
    have := (passFrom_eq_ok_iff.1 hrun).1
    exact hblocks this.symm
  simp [Toolpath.passages, isBlankText_joinLines hblocks, passFrom_joinLines hends, hrun,
    hps, bind, Except.bind, pure, Except.pure]

end PartProgram

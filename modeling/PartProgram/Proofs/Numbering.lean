import PartProgram.Proofs.Conversational
import PartProgram.Proofs.Lines
import PartProgram.Proofs.Render

/-!
# PartProgram.Proofs.Numbering

Numbers in front of lines. What stands before the text of a block is a number between blanks; lines
get their numbers and lose them again. The rules that number a conversational program anew change
nothing else on its lines, so what holds of lines whatever their numbers are stays true.

* `dropNumbers_renumber`: lines get their numbers and lose them again.
* `forall_functionBlocks`, `forall_tcpm`: what stays true of all lines.
-/

namespace PartProgram

open Text

namespace Conversational

/-! ## Numbers in front of a text -/

/-- Blanks and digits. -/
def IsNumbering (as : List Char) : Prop := ∀ c ∈ as, isBlank c = true ∨ isDigit c = true

theorem IsNumbering.not_mem {as : List Char} (h : IsNumbering as) {c : Char}
    (hblank : isBlank c = false) (hdigit : isDigit c = false) : c ∉ as := by
  intro hc
  rcases h c hc with hc | hc
  · rw [hblank] at hc
    cases hc
  · rw [hdigit] at hc
    cases hc

theorem isNumbering_takeWhile (cs : List Char) : IsNumbering (cs.takeWhile isBlank) :=
  fun c hc => .inl (List.all_eq_true.1 List.all_takeWhile c hc)

/-- The number of a block and the space after it. -/
theorem isNumbering_number (n : Nat) : IsNumbering ((toString n).toList ++ [' ']) := by
  intro c hc
  rcases List.mem_append.1 hc with hc | hc
  · exact .inr (isDigit_of_mem_toString hc)
  · rw [List.mem_singleton.1 hc]
    exact .inl (by decide)

/-- What is dropped is a number with blanks around it, if anything. -/
theorem dropNumber_spec (cs : List Char) : ∃ as, IsNumbering as ∧ cs = as ++ dropNumber cs := by
  simp only [dropNumber]
  split
  · exact ⟨[], by simp [IsNumbering], rfl⟩
  · obtain ⟨happend, hdigits, -⟩ := spanDigits_spec (trimLeft cs)
    have hblanks := isNumbering_takeWhile cs
    have hafter := isNumbering_takeWhile (spanDigits (trimLeft cs)).2
    refine ⟨cs.takeWhile isBlank ++ ((spanDigits (trimLeft cs)).1 ++
      (spanDigits (trimLeft cs)).2.takeWhile isBlank), ?_, ?_⟩
    · intro c hc
      rcases List.mem_append.1 hc with hc | hc
      · exact hblanks c hc
      · rcases List.mem_append.1 hc with hc | hc
        · exact .inr (hdigits c hc)
        · exact hafter c hc
    · rw [List.append_assoc, List.append_assoc, trimLeft, trimLeft,
        List.takeWhile_append_dropWhile]
      rw [trimLeft] at happend
      rw [← happend, List.takeWhile_append_dropWhile]

/-- A text that begins with no number is left as it is. -/
theorem dropNumber_of_noDigit {cs : List Char} (h : NoDigitHead (trimLeft cs)) :
    dropNumber cs = cs := by
  simp [dropNumber, spanDigits_of_noDigitHead h]

theorem dropNumber_of_letter {c : Char} {rest : List Char} (hblank : isBlank c = false)
    (hdigit : isDigit c = false) : dropNumber (c :: rest) = c :: rest := by
  refine dropNumber_of_noDigit ?_
  rw [trimLeft_of_head rfl hblank]
  simp [NoDigitHead, hdigit]

/-- A text is found again behind its number. -/
theorem dropNumber_number (n : Nat) (cs : List Char) :
    dropNumber ((toString n).toList ++ ' ' :: cs) = trimLeft cs := by
  have hspace : isBlank ' ' = true := by decide
  have hdigits : ∀ d ∈ (toString n).toList, isDigit d = true := fun _ => isDigit_of_mem_toString
  have hne := toList_toString_ne_nil n
  have htrim : trimLeft ((toString n).toList ++ ' ' :: cs) = (toString n).toList ++ ' ' :: cs := by
    obtain ⟨d, ds, hn⟩ := List.exists_cons_of_ne_nil hne
    rw [hn] at hdigits ⊢
    exact trimLeft_of_head rfl (isBlank_of_isDigit (hdigits d (.head _)))
  have hspan : spanDigits ((toString n).toList ++ ' ' :: cs) = ((toString n).toList, ' ' :: cs) :=
    spanDigits_append hdigits (by simp [NoDigitHead]; decide)
  rw [dropNumber, htrim, hspan]
  simp [startsBlank, hspace, trimLeft]

/-! ## Numbers in front of lines -/

theorem unnumbered_spec (l : String) :
    ∃ as, IsNumbering as ∧ l = .ofList (as ++ (unnumbered l).toList) := by
  obtain ⟨as, has, hl⟩ := dropNumber_spec l.toList
  refine ⟨as, has, ?_⟩
  rw [unnumbered, String.toList_ofList, ← hl, String.ofList_toList]

theorem number_append (n : Nat) (l : String) :
    toString n ++ " " ++ l = .ofList (((toString n).toList ++ [' ']) ++ l.toList) := by
  rw [← String.toList_inj, String.toList_ofList, String.toList_append, String.toList_append]
  rfl

theorem isContinuation_number (n : Nat) (l : String) :
    isContinuation (toString n ++ " " ++ l) = false := by
  obtain ⟨d, ds, hn⟩ := List.exists_cons_of_ne_nil (toList_toString_ne_nil n)
  have hd : d ∈ (toString n).toList := by
    rw [hn]
    exact .head _
  rw [isContinuation, startsBlank, String.toList_append, String.toList_append, hn]
  exact isBlank_of_isDigit (isDigit_of_mem_toString hd)

theorem unnumbered_of_letter {l : String} {c : Char} {rest : List Char} (h : l.toList = c :: rest)
    (hblank : isBlank c = false) (hdigit : isDigit c = false) : unnumbered l = l := by
  rw [unnumbered, h, dropNumber_of_letter hblank hdigit, ← h, String.ofList_toList]

theorem unnumbered_number (n : Nat) (l : String) :
    unnumbered (toString n ++ " " ++ l) = .ofList (trimLeft l.toList) := by
  rw [unnumbered, number_append, String.toList_ofList, List.append_assoc, List.singleton_append,
    dropNumber_number]

/-- Text without a blank in front has none behind its number either. -/
theorem isContinuation_unnumbered {l : String} (h : isContinuation l = false) :
    isContinuation (unnumbered l) = false := by
  rw [isContinuation, unnumbered, String.toList_ofList, dropNumber]
  simp only
  split
  · exact h
  · rw [startsBlank]
    cases hcut : trimLeft (spanDigits (trimLeft l.toList)).2 with
    | nil => rfl
    | cons c rest => exact head_dropWhile_isBlank _ (by rw [← trimLeft, hcut]; rfl)

/-- A line that has no number and is read as it stands. -/
def IsPlain (line : String) : Prop :=
  isContinuation line = true ∨
    ∃ c rest, line.toList = c :: rest ∧ isBlank c = false ∧ isDigit c = false

theorem IsPlain.unnumbered {l : String} (h : IsPlain l) (hnew : isContinuation l = false) :
    unnumbered l = l := by
  obtain ⟨c, rest, hchars, hblank, hdigit⟩ := h.resolve_left (Bool.eq_false_iff.1 hnew)
  exact unnumbered_of_letter hchars hblank hdigit

section

variable {ls : List String}

theorem dropNumbers_eq_self (h : ∀ l ∈ ls, isContinuation l = false → unnumbered l = l) :
    dropNumbers ls = ls := by
  rw [dropNumbers]
  refine (List.map_congr_left fun l hl => ?_).trans (List.map_id ls)
  split
  · rfl
  · rename_i hnew
    exact h l hl (Bool.eq_false_iff.2 hnew)

/-- Lines get their numbers and lose them again. -/
theorem dropNumbers_numberFrom (h : ∀ l ∈ ls, isContinuation l = false → unnumbered l = l)
    (n : Nat) : dropNumbers (numberFrom n ls) = ls := by
  induction ls generalizing n with
  | nil => rfl
  | cons l ls ih =>
    have ih := ih fun l' hl' => h l' (.tail _ hl')
    rw [numberFrom]
    split
    · rename_i hcontinued
      rw [dropNumbers, List.map_cons, if_pos hcontinued]
      exact congrArg _ (ih n)
    · rename_i hnew
      have hplain := h l (.head _) (Bool.eq_false_iff.2 hnew)
      have hback : unnumbered (toString n ++ " " ++ l) = l := by
        rw [unnumbered_number]
        cases hchars : l.toList with
        | nil => exact (String.toList_eq_nil_iff.1 hchars).symm
        | cons c rest =>
          have hblank : isBlank c = false := by simpa [isContinuation, startsBlank, hchars] using hnew
          rw [trimLeft_of_head rfl hblank, ← hchars, String.ofList_toList]
      rw [hplain, dropNumbers, List.map_cons, isContinuation_number, if_neg Bool.false_ne_true, hback]
      exact congrArg _ (ih (n + 1))

theorem dropNumbers_renumber (h : ∀ l ∈ ls, isContinuation l = false → unnumbered l = l) :
    dropNumbers (renumber ls) = ls := dropNumbers_numberFrom h 0

/-- All lines that begin a block are numbered one after the other. -/
theorem filter_numberFrom (n : Nat) (ls : List String) :
    (numberFrom n ls).filter (!isContinuation ·) =
      (((dropNumbers ls).filter (!isContinuation ·)).zipIdx n).map fun (text, i) =>
        toString i ++ " " ++ text := by
  induction ls generalizing n with
  | nil => rfl
  | cons l ls ih =>
    rw [numberFrom, dropNumbers, List.map_cons, ← dropNumbers]
    split
    · rename_i hcontinued
      rw [List.filter_cons_of_neg (by simp [hcontinued]), List.filter_cons_of_neg (by simp [hcontinued]),
        ih]
    · rename_i hnew
      have hnew := isContinuation_unnumbered (Bool.eq_false_iff.2 hnew)
      rw [List.filter_cons_of_pos (by rw [isContinuation_number]; rfl),
        List.filter_cons_of_pos (by simp [hnew]), ih, List.zipIdx_cons, List.map_cons]

end

/-! ## What holds of all lines -/

/-- What holds of a line holds of it with any number in front. -/
structure IgnoresNumber (P : String → Prop) : Prop where
  drop : ∀ l, P l → P (unnumbered l)
  number : ∀ (n : Nat) (l : String), P l → P (toString n ++ " " ++ l)

section

variable {P : String → Prop} {ls : List String}

theorem IgnoresNumber.forall_dropNumbers (hP : IgnoresNumber P) (h : ∀ l ∈ ls, P l) :
    ∀ l ∈ dropNumbers ls, P l := by
  simp only [dropNumbers, List.forall_mem_map]
  intro l hl
  split
  · exact h l hl
  · exact hP.drop l (h l hl)

theorem IgnoresNumber.forall_numberFrom (hP : IgnoresNumber P) (n : Nat) (h : ∀ l ∈ ls, P l) :
    ∀ l ∈ numberFrom n ls, P l := by
  induction ls generalizing n with
  | nil => simp [numberFrom]
  | cons l ls ih =>
    have hl := h l (.head _)
    have ih := fun n => ih n fun l hl => h l (.tail _ hl)
    rw [numberFrom]
    split
    · exact List.forall_mem_cons.2 ⟨hl, ih n⟩
    · exact List.forall_mem_cons.2 ⟨hP.number n _ (hP.drop l hl), ih (n + 1)⟩

theorem Part.dropRepeated_sublist (active : Option Part) (parts : List Part) :
    (dropRepeated active parts).Sublist parts := by
  induction parts generalizing active with
  | nil => exact .slnil
  | cons part rest ih =>
    cases part with
    | line text => exact (ih active).cons_cons _
    | definition first parameters =>
      simp only [dropRepeated]
      split
      · exact (ih active).cons _
      · exact (ih _).cons_cons _

theorem forall_insertAt {place : Nat} {new : List String} (hnew : ∀ l ∈ new, P l)
    (h : ∀ l ∈ ls, P l) : ∀ l ∈ insertAt place new ls, P l := by
  intro l hl
  simp only [insertAt, List.mem_append] at hl
  rcases hl with (hl | hl) | hl
  · exact h l (List.mem_of_mem_take hl)
  · exact hnew l hl
  · exact h l (List.mem_of_mem_drop hl)

theorem forall_functionBlocks (hP : IgnoresNumber P) (h : ∀ l ∈ ls, P l) :
    ∀ l ∈ Rule.functionBlocks ls, P l := by
  rw [Rule.functionBlocks]
  split
  · exact h
  · simp only
    split
    · exact h
    · refine hP.forall_numberFrom 0 fun l hl => ?_
      obtain ⟨p, hp, hl⟩ := List.mem_flatMap.1 hl
      have hplain := hP.forall_dropNumbers h
      rw [← Part.ofLines_flatMap (dropNumbers ls)] at hplain
      exact hplain l (List.mem_flatMap.2 ⟨p, (Part.dropRepeated_sublist _ _).subset hp, hl⟩)

theorem forall_tcpm {ls' : List String} (hP : IgnoresNumber P)
    (hframe : ∀ l ∈ [Rule.tcpmOn, Rule.tcpmOff], P l) (h : ∀ l ∈ ls, P l)
    (hrun : (Rule.tcpm ls).result = .ok ls') : ∀ l ∈ ls', P l := by
  simp only [Rule.tcpm] at hrun
  split at hrun
  · rw [← Told.result_pure_eq_ok.1 hrun]
    exact h
  · split at hrun
    · rw [← Told.result_pure_eq_ok.1 hrun]
      have hon : ∀ l ∈ [Rule.tcpmOn], P l := fun l hl => hframe l (by simp_all)
      have hoff : ∀ l ∈ [Rule.tcpmOff], P l := fun l hl => hframe l (by simp_all)
      exact hP.forall_numberFrom 0
        (forall_insertAt hon (forall_insertAt hoff (hP.forall_dropNumbers h)))
    · rw [Told.result_bind_eq_ok] at hrun
      obtain ⟨_, -, hrun⟩ := hrun
      rw [← Told.result_pure_eq_ok.1 hrun]
      exact h

end

/-- A number ends no line. -/
theorem noLineEnd_ignoresNumber : IgnoresNumber NoLineEnd where
  drop l h := by
    obtain ⟨as, -, hl⟩ := unnumbered_spec l
    intro c hc
    refine h c ?_
    rw [hl, String.toList_ofList]
    exact List.mem_append_right _ hc
  number n l h := by
    have hdigits : ∀ {c}, isDigit c = true → isLineEnd c = false := fun hc =>
      forall_digit (P := fun c => isLineEnd c = false) (by decide +kernel) (by decide +kernel) hc
    intro c hc
    rw [number_append, String.toList_ofList] at hc
    rcases List.mem_append.1 hc with hc | hc
    · rcases List.mem_append.1 hc with hc | hc
      · exact hdigits (isDigit_of_mem_toString hc)
      · rw [List.mem_singleton.1 hc]
        decide
    · exact h c hc

end Conversational

end PartProgram

import PartProgram.Proofs.Merging
import PartProgram.Proofs.Result
import PartProgram.Rule.Conversational

/-!
# PartProgram.Proofs.Conversational

When the rules for conversational programs have nothing to do. What the conversion gives out is
conversational; a program that loses a definition has fewer lines, and one that gets the tool centre
point managed has two more.

* `isConversational_of_convert`: the conversion gives out conversational programs.
* `functionBlocks_eq_self_iff`, `tcpm_eq_self_iff`: what the other two rules look for.
-/

namespace PartProgram

open Text

theorem Told.result_bind_eq_ok {α β : Type} {t : Told α} {f : α → Told β} {b : β} :
    (t >>= f).result = .ok b ↔ ∃ a, t.result = .ok a ∧ (f a).result = .ok b := by
  show (Told.bind t f).result = .ok b ↔ _
  rw [Told.bind]
  cases h : t.result <;> simp

theorem Told.result_lift {α : Type} (e : Except Fault α) : (liftM e : Told α).result = e := rfl

theorem Told.result_pure_eq_ok {α : Type} {a b : α} : (pure a : Told α).result = .ok b ↔ a = b := by
  show Except.ok a = .ok b ↔ _
  simp

namespace Conversational

/-! ## Numbers in front of lines -/

@[simp]
theorem length_dropNumbers (ls : List String) : (dropNumbers ls).length = ls.length := by
  simp [dropNumbers]

theorem length_numberFrom (n : Nat) (ls : List String) : (numberFrom n ls).length = ls.length := by
  induction ls generalizing n with
  | nil => rfl
  | cons l ls ih =>
    rw [numberFrom]
    split
    · simp [ih]
    · simp [ih]

@[simp]
theorem length_renumber (ls : List String) : (renumber ls).length = ls.length :=
  length_numberFrom 0 ls

/-! ## The conversion -/

theorem programEntries_opening {job : Job} {ls : Lines} {entries : List Entry}
    (h : (programEntries job ls).result = .ok entries) :
    ∃ rest, entries = .opening (String.ofList job.options.name) :: rest := by
  rw [programEntries, Told.result_bind_eq_ok] at h
  obtain ⟨⟨body, t⟩, -, h⟩ := h
  rw [Told.result_bind_eq_ok] at h
  obtain ⟨bounds, -, h⟩ := h
  rw [Told.result_pure_eq_ok] at h
  exact ⟨_, h.symm⟩

/-- The characters of the line that opens a program. -/
def openingChars (more : List Char) : List Char := opening.toList ++ ' ' :: more

theorem dropNumber_openingChars (more : List Char) :
    dropNumber (openingChars more) = openingChars more := by
  have hblank : isBlank 'B' = false := by decide
  have hdigit : isDigit 'B' = false := by decide
  simp [dropNumber, openingChars, opening, trimLeft, hblank, spanDigits, hdigit]

theorem trimLeft_openingChars (more : List Char) :
    trimLeft (openingChars more) = openingChars more := by
  have hblank : isBlank 'B' = false := by decide
  simp [openingChars, opening, trimLeft, hblank]

theorem dropNumber_numbered (more : List Char) :
    dropNumber ('0' :: ' ' :: openingChars more) = openingChars more := by
  have hblanks : isBlank '0' = false ∧ isBlank ' ' = true := by decide
  have hdigits : isDigit '0' = true ∧ isDigit ' ' = false := by decide
  have hafter : trimLeft (' ' :: openingChars more) = openingChars more := by
    rw [trimLeft, List.dropWhile_cons_of_pos hblanks.2]
    exact trimLeft_openingChars more
  have hfirst : trimLeft ('0' :: ' ' :: openingChars more) = '0' :: ' ' :: openingChars more := by
    simp [trimLeft, hblanks]
  simp [dropNumber, hfirst, spanDigits, hdigits, startsBlank, hblanks, hafter]

/-- The line that opens a program is known by its words, with a number in front of them. -/
theorem isOpening_numbered {line : String} {more : List Char} (h : line.toList = openingChars more) :
    isOpening ("0 " ++ line) = true := by
  have hchars : ("0 " ++ line).toList = '0' :: ' ' :: openingChars more := by simp [h]
  have hend : isWordCharacter ' ' = false := by decide
  have hbody : trimLeft (dropNumber ("0 " ++ line).toList) = openingChars more := by
    rw [hchars, dropNumber_numbered, trimLeft_openingChars]
  have hafter : (openingChars more).drop opening.length = ' ' :: more := by
    simp [openingChars, ← String.length_toList]
  have hprefix : opening.toList.isPrefixOf (openingChars more) = true := by
    simp [openingChars]
  rw [isOpening, hbody, hafter, hprefix]
  simp [hend]

theorem isConversational_renumber {line : String} {more : List Char}
    (h : line.toList = openingChars more) (rest : List String) :
    isConversational (renumber (line :: rest)) = true := by
  have hplain : isContinuation line = false := by
    have hblank : isBlank 'B' = false := by decide
    simp [isContinuation, startsBlank, h, openingChars, opening, hblank]
  have hunnumbered : unnumbered line = line := by
    rw [unnumbered, h, dropNumber_openingChars, ← h, String.ofList_toList]
  have hnumbered : renumber (line :: rest) = ("0 " ++ line) :: numberFrom 1 rest := by
    rw [renumber, numberFrom, hplain, hunnumbered]
    rfl
  have hfirst : allBlank ("0 " ++ line).toList = false := by
    have hblank : isBlank '0' = false := by decide
    simp [allBlank, hblank]
  rw [isConversational, hnumbered, List.find?_cons_of_pos (by rw [hfirst]; rfl)]
  exact isOpening_numbered h

theorem isConversational_of_convert {job : Job} {ls output : Lines}
    (h : (convert job ls).result = .ok output) : isConversational output = true := by
  rw [convert, Told.result_bind_eq_ok] at h
  obtain ⟨entries, hentries, h⟩ := h
  rw [Told.result_pure_eq_ok] at h
  obtain ⟨rest, rfl⟩ := programEntries_opening hentries
  have hline : ("BEGIN PGM " ++ String.ofList job.options.name ++ " MM").toList =
      openingChars (job.options.name ++ " MM".toList) := by
    simp [openingChars, opening]
  rw [← h, List.flatMap_cons]
  exact isConversational_renumber hline _

/-! ## Repeated definitions -/

/-- No definition says again what the last one before it said. -/
def NoneRepeated (active : Option Part) : List Part → Prop
  | [] => True
  | .line _ :: rest => NoneRepeated active rest
  | .definition first parameters :: rest =>
    active ≠ some (.definition first parameters) ∧
      NoneRepeated (some (.definition first parameters)) rest

namespace Part

theorem length_dropRepeated_le (active : Option Part) (parts : List Part) :
    (dropRepeated active parts).length ≤ parts.length := by
  induction parts generalizing active with
  | nil => simp [dropRepeated]
  | cons part rest ih =>
    cases part with
    | line text => simpa [dropRepeated] using ih active
    | definition first parameters =>
      simp only [dropRepeated]
      split
      · exact (ih active).trans (Nat.le_succ _)
      · simpa using ih (some (definition first parameters))

theorem length_dropRepeated_eq_iff {active : Option Part} {parts : List Part} :
    (dropRepeated active parts).length = parts.length ↔ NoneRepeated active parts := by
  induction parts generalizing active with
  | nil => simp [dropRepeated, NoneRepeated]
  | cons part rest ih =>
    cases part with
    | line text => simp [dropRepeated, NoneRepeated, ih]
    | definition first parameters =>
      simp only [dropRepeated, NoneRepeated, beq_iff_eq]
      split
      · rename_i hsame
        subst hsame
        have hle := length_dropRepeated_le (some (definition first parameters)) rest
        simp only [ne_eq, not_true, false_and, iff_false, List.length_cons]
        omega
      · rename_i hdiffer
        simp [hdiffer, ih]

theorem lines_length_pos (p : Part) : 1 ≤ p.lines.length := by
  cases p <;> simp [lines]

/-- Parts that are left out take a line each at least. -/
theorem length_flatMap_dropRepeated (active : Option Part) (parts : List Part) :
    ((dropRepeated active parts).flatMap lines).length + parts.length ≤
      (parts.flatMap lines).length + (dropRepeated active parts).length := by
  induction parts generalizing active with
  | nil => simp [dropRepeated]
  | cons part rest ih =>
    cases part with
    | line text =>
      have := ih active
      simp only [dropRepeated, List.flatMap_cons, List.length_append, List.length_cons]
      omega
    | definition first parameters =>
      have hpos := lines_length_pos (definition first parameters)
      simp only [dropRepeated]
      split
      · have := ih active
        simp only [List.flatMap_cons, List.length_append, List.length_cons]
        omega
      · have := ih (some (definition first parameters))
        simp only [List.flatMap_cons, List.length_append, List.length_cons]
        omega

theorem split_flatMap (ls : List String) :
    (split ls).1 ++ (split ls).2.flatMap lines = ls := by
  induction ls with
  | nil => rfl
  | cons text rest ih =>
    simp only [split]
    split
    · simp [ih]
    · split
      · simp [lines, ih]
      · have hlines : ((split rest).1.map line).flatMap lines = (split rest).1 := by
          simp [List.flatMap_map, lines]
        simp [lines, hlines, ih]

/-- The parts of a program hold all its lines. -/
theorem ofLines_flatMap (ls : List String) : (ofLines ls).flatMap lines = ls := by
  have hlines : ((split ls).1.map line).flatMap lines = (split ls).1 := by
    simp [List.flatMap_map, lines]
  rw [ofLines, List.flatMap_append, hlines, split_flatMap]

end Part

end Conversational

/-! ## Rules -/

namespace Rule

open Conversational

variable {job : Job} {ls : Lines}

theorem conversationalFormat_eq_self_iff :
    (conversationalFormat job ls).result = .ok ls ↔ isConversational ls = true := by
  rw [conversationalFormat]
  split
  · rename_i h
    simp [h, Told.result_pure_eq_ok]
  · rename_i h
    exact ⟨isConversational_of_convert, fun h' => absurd h' h⟩

theorem functionBlocks_eq_self_iff :
    functionBlocks ls = ls ↔
      (isConversational ls = true → NoneRepeated none (Part.ofLines (dropNumbers ls))) := by
  rw [← Part.length_dropRepeated_eq_iff, functionBlocks]
  cases isConversational ls with
  | false => simp
  | true =>
    simp only [Bool.not_true, Bool.false_eq_true, if_false, forall_const]
    constructor
    · intro h
      split at h
      · assumption
      · have hshort := Part.length_flatMap_dropRepeated none (Part.ofLines (dropNumbers ls))
        have hle := Part.length_dropRepeated_le none (Part.ofLines (dropNumbers ls))
        have hlength := congrArg List.length h
        rw [length_renumber] at hlength
        rw [Part.ofLines_flatMap, length_dropNumbers] at hshort
        omega
    · intro h
      rw [if_pos h]

/-- There is a place to manage the tool centre point from, and one to end it. -/
def HasRoomForTcpm (plain : Lines) : Prop :=
  (plain.findIdx? (beginsWith toolCall)).isSome = true ∧
    (lastIndex? (beginsWith closing) plain).isSome = true

theorem tcpm_eq_self_iff :
    (tcpm ls).result = .ok ls ↔
      (isConversational ls = true → HasRoomForTcpm (dropNumbers ls) →
        (dropNumbers ls).any (beginsWith "FUNCTION TCPM") = true) := by
  rw [tcpm]
  cases isConversational ls with
  | false => simp [Told.result_pure_eq_ok]
  | true =>
    cases hmanaged : (dropNumbers ls).any (beginsWith "FUNCTION TCPM") with
    | true => simp [Told.result_pure_eq_ok]
    | false =>
      simp only [Bool.not_true, Bool.or_self, Bool.false_eq_true, if_false, forall_const]
      split
      · rename_i tool finish htool hfinish
        have hroom : HasRoomForTcpm (dropNumbers ls) := ⟨by simp [htool], by simp [hfinish]⟩
        simp only [Told.result_pure_eq_ok, hroom, iff_false, forall_const]
        intro heq
        have hlength := congrArg List.length heq
        simp only [length_renumber, length_insertAt, length_dropNumbers, List.length_cons] at hlength
        omega
      · rename_i hnone
        have hnoroom : ¬ HasRoomForTcpm (dropNumbers ls) := by
          rintro ⟨htool, hfinish⟩
          obtain ⟨tool, htool⟩ := Option.isSome_iff_exists.1 htool
          obtain ⟨finish, hfinish⟩ := Option.isSome_iff_exists.1 hfinish
          exact hnone tool finish htool hfinish
        simp [Told.result_bind_eq_ok, Told.result_pure_eq_ok, hnoroom, Told.say]

end Rule

end PartProgram

import Mathlib.Data.List.Destutter
import PartProgram.Proofs.Openings

/-!
# PartProgram.Proofs.RepeatedCycles

One definition for a row of equal cycles. The parts of a program are found again in what their lines
make up, and so they are after some definitions have gone; what is left calls every cycle that it
called before.

* `Part.ofLines_of_isParsed`: parts that are found where they stand.
* `Rule.functionBlocks_collapses`: what the rule leaves of a program.
-/

namespace PartProgram

open Text

namespace Conversational

namespace Part

/-! ## Parts of a program -/

/-- The lines after a definition do not go on with it. -/
def EndsDefinition (parts : List Part) : Prop :=
  ∀ text, parts.head? = some (.line text) → isContinuation text = false

/-- Parts that are found where they stand: a definition takes all indented lines that follow it. -/
inductive IsParsed : List Part → Prop where
  | nil : IsParsed []
  | line {text : String} {rest : List Part} : opensDefinition text = false → IsParsed rest →
      IsParsed (.line text :: rest)
  | definition {first : String} {parameters : List String} {rest : List Part} :
      opensDefinition first = true → (∀ l ∈ parameters, isContinuation l = true) →
        EndsDefinition rest → IsParsed rest → IsParsed (.definition first parameters :: rest)

theorem opensDefinition_of_isContinuation {text : String} (h : isContinuation text = true) :
    opensDefinition text = false := by
  simp [opensDefinition, h]

theorem isContinuation_of_opensDefinition {text : String} (h : opensDefinition text = true) :
    isContinuation text = false := by
  cases hc : isContinuation text with
  | false => rfl
  | true =>
    rw [opensDefinition_of_isContinuation hc] at h
    cases h

theorem IsParsed.append_lines {ls : List String} {parts : List Part}
    (hls : ∀ l ∈ ls, isContinuation l = true) (h : IsParsed parts) :
    IsParsed (ls.map .line ++ parts) := by
  induction ls with
  | nil => exact h
  | cons l ls ih =>
    exact .line (opensDefinition_of_isContinuation (hls l (.head _)))
      (ih fun l' hl' => hls l' (.tail _ hl'))

theorem split_spec (ls : List String) : (∀ l ∈ (split ls).1, isContinuation l = true) ∧
    EndsDefinition (split ls).2 ∧ IsParsed (split ls).2 := by
  induction ls with
  | nil => exact ⟨by simp [split], by simp [split, EndsDefinition], .nil⟩
  | cons text rest ih =>
    obtain ⟨hindented, hends, hparsed⟩ := ih
    simp only [split]
    split
    · rename_i hcontinued
      exact ⟨List.forall_mem_cons.2 ⟨hcontinued, hindented⟩, hends, hparsed⟩
    · rename_i hnew
      split
      · rename_i hopens
        exact ⟨by simp, by simp [EndsDefinition], .definition hopens hindented hends hparsed⟩
      · rename_i hplain
        refine ⟨by simp, ?_, .line (Bool.eq_false_iff.2 hplain) (.append_lines hindented hparsed)⟩
        simpa [EndsDefinition] using hnew

theorem isParsed_ofLines (ls : List String) : IsParsed (ofLines ls) := by
  obtain ⟨hindented, -, hparsed⟩ := split_spec ls
  exact .append_lines hindented hparsed

theorem split_append {ls : List String} (hls : ∀ l ∈ ls, isContinuation l = true)
    (rest : List String) : split (ls ++ rest) = (ls ++ (split rest).1, (split rest).2) := by
  induction ls with
  | nil => rfl
  | cons l ls ih =>
    rw [List.cons_append, split, ih fun l' hl' => hls l' (.tail _ hl'), hls l (.head _)]
    rfl

theorem split_of_endsDefinition {parts : List Part} (hends : EndsDefinition parts)
    (h : IsParsed parts) : (split (parts.flatMap lines)).1 = [] := by
  cases h with
  | nil => rfl
  | line hplain _ =>
    have hnew := hends _ rfl
    simp [lines, split, hnew, hplain]
  | definition hopens _ _ _ => simp [lines, split, isContinuation_of_opensDefinition hopens, hopens]

/-- Parts that are found where they stand are the parts of what they make up. -/
theorem ofLines_of_isParsed {parts : List Part} (h : IsParsed parts) :
    ofLines (parts.flatMap lines) = parts := by
  induction h with
  | nil => rfl
  | line hplain _ ih =>
    rw [List.flatMap_cons, lines, List.singleton_append, ofLines_cons hplain, ih]
  | @definition first parameters rest hopens hparameters hends hparsed ih =>
    have hnone := split_of_endsDefinition hends hparsed
    have hrest : (split (rest.flatMap lines)).2 = rest := by
      simpa only [ofLines, hnone, List.map_nil, List.nil_append] using ih
    have hnew := isContinuation_of_opensDefinition hopens
    rw [List.flatMap_cons, lines, List.cons_append, ofLines, split, split_append hparameters, hnone,
      hrest, hnew, hopens, List.append_nil]
    rfl

/-! ## Repeated definitions -/

/-- What ends a definition still ends it when repeated definitions in front of it have gone. -/
theorem EndsDefinition.dropRepeated {parts : List Part} (h : EndsDefinition parts)
    (hparsed : IsParsed parts) (active : Option Part) :
    EndsDefinition (dropRepeated active parts) := by
  induction hparsed generalizing active with
  | nil => exact h
  | line _ _ _ => exact h
  | definition _ _ hends _ ih =>
    simp only [Part.dropRepeated]
    split
    · exact ih hends active
    · simp [EndsDefinition]

theorem IsParsed.dropRepeated {parts : List Part} (h : IsParsed parts) (active : Option Part) :
    IsParsed (dropRepeated active parts) := by
  induction h generalizing active with
  | nil => exact .nil
  | line hplain _ ih => exact .line hplain (ih active)
  | definition hopens hparameters hends hparsed ih =>
    simp only [Part.dropRepeated]
    split
    · exact ih active
    · exact .definition hopens hparameters (hends.dropRepeated hparsed _) (ih _)

theorem noneRepeated_dropRepeated (active : Option Part) (parts : List Part) :
    NoneRepeated active (dropRepeated active parts) := by
  induction parts generalizing active with
  | nil => trivial
  | cons part rest ih =>
    cases part with
    | line text => exact ih active
    | definition first parameters =>
      simp only [dropRepeated, beq_iff_eq]
      split
      · exact ih active
      · rename_i hnew
        exact ⟨hnew, ih _⟩

/-- The lines outside definitions, each with the last definition before it. -/
def calls (active : Option Part) : List Part → List (String × Option Part)
  | [] => []
  | line text :: rest => (text, active) :: calls active rest
  | definition first parameters :: rest => calls (some (definition first parameters)) rest

theorem calls_dropRepeated (active : Option Part) (parts : List Part) :
    calls active (dropRepeated active parts) = calls active parts := by
  induction parts generalizing active with
  | nil => rfl
  | cons part rest ih =>
    cases part with
    | line text => simp only [dropRepeated, calls, ih]
    | definition first parameters =>
      simp only [dropRepeated, beq_iff_eq]
      split
      · rename_i hsame
        rw [ih, hsame, calls]
      · rw [calls, calls, ih]

def isDefinition : Part → Bool
  | definition _ _ => true
  | line _ => false

/-- The definitions of a program in order. -/
def definitions (parts : List Part) : List Part := parts.filter isDefinition

theorem definitions_dropRepeated_some (d : Part) (parts : List Part) :
    d :: definitions (dropRepeated (some d) parts) = (definitions parts).destutter' (· ≠ ·) d := by
  induction parts generalizing d with
  | nil => rfl
  | cons part rest ih =>
    cases part with
    | line text => exact ih d
    | definition first parameters =>
      have hdefinitions : definitions (definition first parameters :: rest) =
          definition first parameters :: definitions rest := rfl
      simp only [dropRepeated, beq_iff_eq, Option.some.injEq]
      rw [hdefinitions]
      split
      · rename_i hsame
        rw [List.destutter'_cons_neg _ (by simp [hsame]), ih]
      · rename_i hnew
        rw [List.destutter'_cons_pos _ hnew, ← ih]
        rfl

/-- Of each row of equal definitions the first one is left. -/
theorem definitions_dropRepeated (parts : List Part) :
    definitions (dropRepeated none parts) = (definitions parts).destutter (· ≠ ·) := by
  induction parts with
  | nil => rfl
  | cons part rest ih =>
    cases part with
    | line text => exact ih
    | definition first parameters => exact definitions_dropRepeated_some _ rest

end Part

end Conversational

namespace Rule

open Conversational

/-- The parts of a program, whatever the numbers of its blocks. -/
def partsOf (ls : Lines) : List Part := Part.ofLines (dropNumbers ls)

theorem unnumbered_dropNumbers {ls : Lines}
    (h : ∀ l ∈ ls, isContinuation l = false → unnumbered (unnumbered l) = unnumbered l) :
    ∀ l ∈ dropNumbers ls, isContinuation l = false → unnumbered l = l := by
  simp only [dropNumbers, List.forall_mem_map]
  intro l hl hnew
  split at hnew
  · rename_i hcontinued
    rw [hcontinued] at hnew
    cases hnew
  · rename_i hplain
    rw [if_neg hplain]
    exact h l hl (Bool.eq_false_iff.2 hplain)

/-- A program that changes is numbered anew, without its repeated definitions. -/
theorem functionBlocks_of_ne {ls : Lines} (h : functionBlocks ls ≠ ls) :
    functionBlocks ls = renumber ((Part.dropRepeated none (partsOf ls)).flatMap Part.lines) := by
  rw [functionBlocks] at h ⊢
  split at h
  · exact absurd rfl h
  · rename_i hconversational
    rw [if_neg hconversational]
    simp only at h ⊢
    split at h
    · exact absurd rfl h
    · rename_i hrepeated
      rw [if_neg hrepeated, partsOf]

theorem unnumbered_kept {ls : Lines}
    (htexts : ∀ l ∈ ls, isContinuation l = false → unnumbered (unnumbered l) = unnumbered l) :
    ∀ l ∈ (Part.dropRepeated none (partsOf ls)).flatMap Part.lines,
      isContinuation l = false → unnumbered l = l := by
  intro l hl
  obtain ⟨p, hp, hl⟩ := List.mem_flatMap.1 hl
  have hlines := unnumbered_dropNumbers htexts
  rw [← Part.ofLines_flatMap (dropNumbers ls)] at hlines
  exact hlines l (List.mem_flatMap.2 ⟨p, (Part.dropRepeated_sublist _ _).subset hp, hl⟩)

theorem partsOf_functionBlocks {ls : Lines}
    (htexts : ∀ l ∈ ls, isContinuation l = false → unnumbered (unnumbered l) = unnumbered l)
    (h : functionBlocks ls ≠ ls) :
    partsOf (functionBlocks ls) = Part.dropRepeated none (partsOf ls) := by
  rw [functionBlocks_of_ne h, partsOf, dropNumbers_renumber (unnumbered_kept htexts)]
  exact Part.ofLines_of_isParsed ((Part.isParsed_ofLines _).dropRepeated none)

/-- What the rule leaves of a program. -/
structure Collapsed (ls out : Lines) : Prop where
  /-- Only whole parts are missing, each with all its lines. -/
  parts : (partsOf out).Sublist (partsOf ls)
  /-- Every line outside definitions is there in order, with the same definition in force. -/
  calls : Part.calls none (partsOf out) = Part.calls none (partsOf ls)
  /-- Of each row of equal definitions the first one is there. -/
  definitions : out ≠ ls → Part.definitions (partsOf out) =
    (Part.definitions (partsOf ls)).destutter (· ≠ ·)
  /-- No two definitions in a row are equal. -/
  apart : out ≠ ls → (Part.definitions (partsOf out)).IsChain (· ≠ ·)
  /-- The blocks are numbered from zero on. -/
  numbered : out ≠ ls → out.filter (!isContinuation ·) =
    ((dropNumbers out).filter (!isContinuation ·)).zipIdx.map fun (text, i) =>
      toString i ++ " " ++ text
  /-- There is nothing left to do. -/
  settled : functionBlocks out = out

/-- One definition is left for a row of equal cycles, and every cycle is called as before. -/
theorem functionBlocks_collapses (ls : Lines)
    (htexts : ∀ l ∈ ls, isContinuation l = false → unnumbered (unnumbered l) = unnumbered l) :
    Collapsed ls (functionBlocks ls) := by
  by_cases hsame : functionBlocks ls = ls
  · rw [hsame]
    exact ⟨.refl _, rfl, fun h => absurd rfl h, fun h => absurd rfl h, fun h => absurd rfl h, hsame⟩
  · have hparts := partsOf_functionBlocks htexts hsame
    have hdefinitions : Part.definitions (partsOf (functionBlocks ls)) =
        (Part.definitions (partsOf ls)).destutter (· ≠ ·) := by
      rw [hparts, Part.definitions_dropRepeated]
    refine ⟨?_, ?_, fun _ => hdefinitions, fun _ => ?_, fun _ => ?_, ?_⟩
    · rw [hparts]
      exact Part.dropRepeated_sublist none _
    · rw [hparts, Part.calls_dropRepeated]
    · rw [hdefinitions]
      exact List.isChain_destutter _ _
    · have hplain := unnumbered_kept htexts
      rw [functionBlocks_of_ne hsame, dropNumbers_renumber hplain, renumber, filter_numberFrom,
        dropNumbers_eq_self hplain]
    · refine functionBlocks_eq_self_iff.2 fun _ => ?_
      rw [← partsOf, hparts]
      exact Part.noneRepeated_dropRepeated none _

/-- A cycle that is defined twice in a row, around a line with a call, and then another one. -/
def twoHoles : Lines :=
  ["0 BEGIN PGM PART MM", "1 CYCL DEF 200 DRILLING ~", "  Q201=-5 ;DEPTH", "2 L X+1 M99",
    "3 CYCL DEF 200 DRILLING ~", "  Q201=-5 ;DEPTH", "4 L X+2 M99", "5 CYCL DEF 200 DRILLING ~",
    "  Q201=-6 ;DEPTH", "6 L X+3 M99", "7 END PGM PART MM"]

theorem functionBlocks_collapses_twoHoles :
    (∀ l ∈ twoHoles, isContinuation l = false → unnumbered (unnumbered l) = unnumbered l) ∧
      functionBlocks twoHoles =
        ["0 BEGIN PGM PART MM", "1 CYCL DEF 200 DRILLING ~", "  Q201=-5 ;DEPTH", "2 L X+1 M99",
          "3 L X+2 M99", "4 CYCL DEF 200 DRILLING ~", "  Q201=-6 ;DEPTH", "5 L X+3 M99",
          "6 END PGM PART MM"] ∧
      Collapsed twoHoles (functionBlocks twoHoles) :=
  ⟨by decide +kernel, by decide +kernel, functionBlocks_collapses _ (by decide +kernel)⟩

end Rule

end PartProgram

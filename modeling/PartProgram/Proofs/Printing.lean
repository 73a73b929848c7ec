import PartProgram.Conversational.Conversion
import PartProgram.Proofs.Render

/-!
# PartProgram.Proofs.Printing

The characters of printed numbers: digits, signs and points, and the letters of an exponent or of a
number that is none. No number is printed with a blank in it, so the words of a printed block are
those it was written from.
-/

namespace PartProgram

open Text Number

theorem forall_mem_of_all {P : Char → Prop} [DecidablePred P] {cs : List Char}
    (h : cs.all (fun c => decide (P c)) = true) : ∀ c ∈ cs, P c :=
  fun c hc => of_decide_eq_true (List.all_eq_true.1 h c hc)

/-! ## Numbers that are none -/

/-- The names of what is not finite. -/
def floatNames : List (List Char) := [['n', 'a', 'n'], ['i', 'n', 'f'], ['-', 'i', 'n', 'f']]

theorem fixedText_name (places : Nat) {x : Float}
    (h : ¬ (isNaN x = false ∧ isInfinite x = false)) :
    (fixedText places x).toList ∈ floatNames := by
  cases hnan : isNaN x with
  | true => simp [fixedText, signed, hnan, floatNames]
  | false =>
    have hinfinite : isInfinite x = true := by
      by_contra hfinite
      exact h ⟨hnan, by simpa using hfinite⟩
    cases hnegative : isNegative x <;>
      simp [fixedText, signed, hnan, hinfinite, hnegative, floatNames]

/-- What is not finite is printed as a name. -/
theorem printedChars_name (places : Nat) {x : Float}
    (h : ¬ (isNaN x = false ∧ isInfinite x = false)) : printedChars places x ∈ floatNames := by
  have hname := fixedText_name places h
  simp only [floatNames, List.mem_cons, List.not_mem_nil, or_false] at hname
  rw [printedChars]
  rcases hname with hname | hname | hname <;> rw [hname] <;> decide

/-! ## Printed numbers -/

/-- A character of a printed number. -/
def IsPrintChar (c : Char) : Prop := isDigit c = true ∨ c ∈ ".-+einaf".toList

theorem isPrintChar_of_mem_digitChars {n : Nat} {c : Char} (h : c ∈ digitChars n) :
    IsPrintChar c := .inl (isDigit_of_mem_toString h)

theorem isPrintChar_of_mem_zeros {n : Nat} {c : Char} (h : c ∈ zeros n) : IsPrintChar c := by
  rw [List.eq_of_mem_replicate h]
  exact .inl (by decide)

theorem mem_of_mem_dropZeros {cs : List Char} {c : Char} (h : c ∈ dropZeros cs) : c ∈ cs := by
  rw [dropZeros, List.mem_reverse] at h
  exact List.mem_reverse.1 ((List.dropWhile_suffix _).subset h)

theorem isPrintChar_of_mem_pointed {whole rest : List Char} {c : Char}
    (hwhole : ∀ c ∈ whole, IsPrintChar c) (hrest : ∀ c ∈ rest, IsPrintChar c)
    (h : c ∈ pointed whole rest) : IsPrintChar c := by
  rw [pointed] at h
  split at h
  · exact hwhole c h
  · rcases List.mem_append.1 h with h | h
    · exact hwhole c h
    · rcases List.mem_cons.1 h with rfl | h
      · exact .inr (by decide)
      · exact hrest c h

theorem isPrintChar_of_mem_exponentChars {e : Int} {c : Char} (h : c ∈ exponentChars e) :
    IsPrintChar c := by
  simp only [exponentChars, List.mem_cons] at h
  rcases h with rfl | rfl | h
  · exact .inr (by decide)
  · split <;> exact .inr (by decide)
  · split at h
    · rcases List.mem_cons.1 h with rfl | h
      · exact .inl (by decide)
      · exact isPrintChar_of_mem_digitChars h
    · exact isPrintChar_of_mem_digitChars h

theorem isPrintChar_of_mem_signed {write : Float → List Char} {x : Float} {c : Char}
    (hwrite : ∀ c ∈ write x, IsPrintChar c) (h : c ∈ (signed write x).toList) : IsPrintChar c := by
  have hnan : ∀ c ∈ "nan".toList, c ∈ ".-+einaf".toList := forall_mem_of_all (by decide)
  have hinf : ∀ c ∈ ['i', 'n', 'f'], c ∈ ".-+einaf".toList := forall_mem_of_all (by decide)
  have hbody : ∀ c ∈ (if isInfinite x then ['i', 'n', 'f'] else write x), IsPrintChar c := by
    intro c hc
    split at hc
    · exact .inr (hinf c hc)
    · exact hwrite c hc
  simp only [signed] at h
  split at h
  · exact .inr (hnan c h)
  · rw [String.toList_ofList] at h
    split at h
    · rcases List.mem_cons.1 h with rfl | h
      · exact .inr (by decide)
      · exact hbody c h
    · exact hbody c h

theorem isPrintChar_of_mem_positional (d : Digits) :
    (∀ c ∈ d.positional.1, IsPrintChar c) ∧ ∀ c ∈ d.positional.2, IsPrintChar c := by
  rw [Digits.positional]
  split
  · refine ⟨fun c hc => .inl ?_, fun c hc => ?_⟩
    · rw [List.mem_singleton.1 hc]
      decide
    · rcases List.mem_append.1 (mem_of_mem_dropZeros hc) with hc | hc
      · exact isPrintChar_of_mem_zeros hc
      · exact isPrintChar_of_mem_digitChars hc
  · refine ⟨fun c hc => ?_, fun c hc => ?_⟩
    · rcases List.mem_append.1 hc with hc | hc
      · exact isPrintChar_of_mem_digitChars (List.mem_of_mem_take hc)
      · exact isPrintChar_of_mem_zeros hc
    · exact isPrintChar_of_mem_digitChars (List.mem_of_mem_drop (mem_of_mem_dropZeros hc))

theorem isPrintChar_of_mem_general {x : Float} {c : Char} (h : c ∈ (general x).toList) :
    IsPrintChar c := by
  refine isPrintChar_of_mem_signed (fun c hc => ?_) h
  rw [Layout.write] at hc
  split at hc
  · obtain ⟨hwhole, hrest⟩ := isPrintChar_of_mem_positional (significant 6 x)
    exact isPrintChar_of_mem_pointed hwhole hrest hc
  · rcases List.mem_append.1 hc with hc | hc
    · refine isPrintChar_of_mem_pointed
        (fun c hc => isPrintChar_of_mem_digitChars (List.mem_of_mem_take hc)) (fun c hc => ?_) hc
      exact isPrintChar_of_mem_digitChars (List.mem_of_mem_drop (mem_of_mem_dropZeros hc))
    · exact isPrintChar_of_mem_exponentChars hc

theorem mem_placed {places n : Nat} {c : Char} (h : c ∈ placed places n) :
    isDigit c = true ∨ c = '.' := by
  have hdigits : ∀ c ∈ zeros (places + 1 - (digitChars n).length) ++ digitChars n,
      isDigit c = true := by
    intro c hc
    rcases List.mem_append.1 hc with hc | hc
    · rw [List.eq_of_mem_replicate hc]
      decide
    · exact isDigit_of_mem_toString hc
  simp only [placed, pointed] at h
  split at h
  · exact .inl (hdigits c (List.mem_of_mem_take h))
  · rcases List.mem_append.1 h with h | h
    · exact .inl (hdigits c (List.mem_of_mem_take h))
    · rcases List.mem_cons.1 h with rfl | h
      · exact .inr rfl
      · exact .inl (hdigits c (List.mem_of_mem_drop h))

theorem isPrintChar_of_mem_fixedText {places : Nat} {x : Float} {c : Char}
    (h : c ∈ (fixedText places x).toList) : IsPrintChar c := by
  refine isPrintChar_of_mem_signed (fun c hc => ?_) h
  rcases mem_placed hc with hdigit | rfl
  · exact .inl hdigit
  · exact .inr (by decide)

theorem mem_printedChars {places : Nat} {x : Float} {c : Char} (h : c ∈ printedChars places x) :
    c = '0' ∨ c ∈ (fixedText places x).toList := by
  simp only [printedChars] at h
  split at h
  · exact .inl (List.mem_singleton.1 h)
  · rw [dropPoint, List.mem_reverse] at h
    have hmem := List.mem_reverse.1 ((List.dropWhile_suffix _).subset h)
    exact .inr (mem_of_mem_dropZeros hmem)

theorem isPrintChar_of_mem_printedChars {places : Nat} {x : Float} {c : Char}
    (h : c ∈ printedChars places x) : IsPrintChar c := by
  rcases mem_printedChars h with rfl | h
  · exact .inl (by decide)
  · exact isPrintChar_of_mem_fixedText h

theorem isPrintChar_of_mem_coordinate {x : Float} {c : Char} (h : c ∈ (coordinate x).toList) :
    IsPrintChar c := by
  rw [coordinate, printed, String.toList_ofList] at h
  exact isPrintChar_of_mem_printedChars h

theorem isPrintChar_of_mem_signedCoordinate {x : Float} {c : Char}
    (h : c ∈ (signedCoordinate x).toList) : IsPrintChar c := by
  rw [signedCoordinate, printedSigned, String.toList_ofList] at h
  split at h
  · exact isPrintChar_of_mem_printedChars h
  · rcases List.mem_cons.1 h with rfl | h
    · exact .inr (by decide)
    · exact isPrintChar_of_mem_printedChars h

theorem isPrintChar_of_mem_intText {n : Int} {c : Char} (h : c ∈ (toString n).toList) :
    IsPrintChar c := by
  cases n with
  | ofNat n => exact .inl (isDigit_of_mem_toString h)
  | negSucc n =>
    have hchars : (toString (Int.negSucc n)).toList = '-' :: (toString (n + 1)).toList := by
      show ("-" ++ (n + 1).repr).toList = _
      simp [Nat.toString_eq_repr]
    rw [hchars] at h
    rcases List.mem_cons.1 h with rfl | h
    · exact .inr (by decide)
    · exact .inl (isDigit_of_mem_toString h)

theorem isPrintChar_of_mem_codeNumber {x : Float} {c : Char} (h : c ∈ (codeNumber x).toList) :
    IsPrintChar c := by
  rw [codeNumber] at h
  split at h
  · exact isPrintChar_of_mem_intText h
  · exact isPrintChar_of_mem_general h

/-- A character that is no part of a printed number. -/
theorem not_isPrintChar {c : Char} (hdigit : isDigit c = false) (hmark : c ∉ ".-+einaf".toList) :
    ¬ IsPrintChar c := by
  rintro (h | h)
  · rw [hdigit] at h
    cases h
  · exact hmark h

theorem not_isPrintChar_blank : ¬ IsPrintChar ' ' := not_isPrintChar (by decide) (by decide)

end PartProgram

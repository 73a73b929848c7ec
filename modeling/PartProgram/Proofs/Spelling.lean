import PartProgram.Proofs.Comments
import PartProgram.Proofs.Render
import PartProgram.Rule.Spelling

/-!
# PartProgram.Proofs.Spelling

Lines that are spelled as a control wants them. A zero or a blank that is left out makes the code
shorter, and a point makes it longer, so a line is changed exactly when something of it is found.

* `compactCode_eq_self_iff`, `decimalFormat_eq_self_iff`: lines that stay as they are.
-/

namespace PartProgram

open Text

/-- The code parts of a line. -/
def CommentedLine.codes (l : CommentedLine) : List (List Char) := l.head :: l.tail.map Prod.snd

/-- Parts of a line that none makes longer make up the same line only if they are the same. -/
theorem CommentedLine.mapCode_eq_iff {f g : List Char → List Char} {l : CommentedLine}
    (h : ∀ code, (f code).length ≤ (g code).length) :
    l.mapCode f = l.mapCode g ↔ ∀ code ∈ l.codes, f code = g code := by
  have htail := flatMap_eq_iff (l := l.tail) (f := fun x => x.1.spelled ++ f x.2)
    (g := fun x => x.1.spelled ++ g x.2) fun x _ => by simpa using h x.2
  have hle := length_flatMap_le_of_forall (l := l.tail) (f := fun x => x.1.spelled ++ f x.2)
    (g := fun x => x.1.spelled ++ g x.2) fun x _ => by simpa using h x.2
  have hhead := h l.head
  simp only [codes, List.forall_mem_cons, List.forall_mem_map]
  have hparts : (∀ x ∈ l.tail, f x.2 = g x.2) ↔
      l.tail.flatMap (fun x => x.1.spelled ++ f x.2) =
        l.tail.flatMap fun x => x.1.spelled ++ g x.2 := by
    rw [htail]
    simp
  rw [hparts]
  constructor
  · intro heq
    refine List.append_inj heq ?_
    have hlength := congrArg List.length heq
    simp only [mapCode, List.length_append] at hlength
    omega
  · rintro ⟨hf, ht⟩
    rw [mapCode, mapCode, hf]
    exact congrArg (g l.head ++ ·) ht

theorem CommentedLine.length_mapCode_le {f : List Char → List Char}
    (h : ∀ code, (f code).length ≤ code.length) (cs : List Char) :
    ((ofChars cs).mapCode f).length ≤ cs.length := by
  conv => rhs; rw [← mapCode_ofChars cs]
  have hhead := h (ofChars cs).head
  have htail := length_flatMap_le_of_forall (l := (ofChars cs).tail)
    (f := fun x => x.1.spelled ++ f x.2) (g := fun x => x.1.spelled ++ id x.2)
    fun x _ => by simpa using h x.2
  simp only [mapCode, List.length_append, id] at htail ⊢
  omega

namespace Rule

variable {ls : Lines}

/-! ## Zeros in front -/

theorem leadingZeros_spec {previous : Option Char} {cs new : List Char} {n : Nat}
    (h : recogniseLeadingZeros previous cs = some (new, n)) :
    new.length < n ∧ 1 ≤ n ∧ n ≤ cs.length := by
  cases cs with
  | nil => cases h
  | cons c rest =>
    have hzeros := (List.takeWhile_sublist (· == '0') (l := rest)).length_le
    have hafter := List.length_drop (i := (rest.takeWhile (· == '0')).length) (l := rest)
    simp only [recogniseLeadingZeros] at h
    rw [List.length_cons]
    split at h
    · split at h
      · cases h
      · rename_i zeros d after hcount hdrop
        rw [hdrop, List.length_cons] at hafter
        split at h
        · split at h
          · cases h
            simp only [List.length_cons, List.length_nil]
            omega
          · cases h
        · split at h
          · rename_i hleast
            cases h
            simp only [Bool.and_eq_true, decide_eq_true_eq] at hleast
            simp only [List.length_cons, List.length_nil]
            omega
          · cases h
      · rename_i zeros hcount hdrop
        split at h
        · cases h
          simp only [List.length_cons, List.length_nil]
          omega
        · cases h
    · cases h

theorem leadingZeros_takesSome : TakesSome recogniseLeadingZeros :=
  fun _ _ _ _ h => (leadingZeros_spec h).2

/-- No two blanks stand together, and none of them is a tab. -/
structure HasSingleBlanks (code : List Char) : Prop where
  apart : code.IsChain fun a b => ¬ (isGap a = true ∧ isGap b = true)
  noTab : '\t' ∉ code

theorem scanFrom_recogniseGap (least : Nat) (p q : Option Char) (skip : Nat) (cs : List Char) :
    scanFrom (recogniseGap least) p skip cs = scanFrom (recogniseGap least) q 0 (cs.drop skip) := by
  induction cs generalizing p skip with
  | nil => simp [scanFrom]
  | cons c cs ih =>
    cases skip with
    | succ k => simpa [scanFrom] using ih (some c) k
    | zero => rfl

theorem replaceGaps_cons_of_not {c : Char} (hc : isGap c = false) (cs : List Char) :
    replaceAll (recogniseGap 1) (c :: cs) = c :: replaceAll (recogniseGap 1) cs := by
  have hnone : recogniseGap 1 none (c :: cs) = none := by simp [recogniseGap, hc]
  simp only [replaceAll, scan, scanFrom, hnone, List.flatMap_cons,
    scanFrom_recogniseGap 1 (some c) none 0 cs, List.drop_zero]
  rfl

theorem drop_length_takeWhile (p : Char → Bool) (cs : List Char) :
    cs.drop (cs.takeWhile p).length = cs.dropWhile p := by
  conv => lhs; rhs; rw [← List.takeWhile_append_dropWhile (p := p) (l := cs)]
  exact List.drop_left

theorem replaceGaps_cons_of_gap {c : Char} (hc : isGap c = true) (cs : List Char) :
    replaceAll (recogniseGap 1) (c :: cs) =
      ' ' :: replaceAll (recogniseGap 1) (cs.dropWhile isGap) := by
  have hsome : recogniseGap 1 none (c :: cs) = some ([' '], (cs.takeWhile isGap).length + 1) := by
    simp [recogniseGap, hc]
  simp only [replaceAll, scan, scanFrom, hsome, List.flatMap_cons, Nat.add_sub_cancel]
  rw [scanFrom_recogniseGap 1 (some c) none, drop_length_takeWhile]
  rfl

theorem hasSingleBlanks_cons {c : Char} {cs : List Char} :
    HasSingleBlanks (c :: cs) ↔
      (isGap c = true → c = ' ' ∧ ∀ d ∈ cs.head?, isGap d = false) ∧ HasSingleBlanks cs := by
  constructor
  · rintro ⟨hapart, htab⟩
    rw [List.isChain_cons] at hapart
    simp only [List.mem_cons, not_or] at htab
    refine ⟨fun hc => ⟨?_, fun d hd => ?_⟩, hapart.2, htab.2⟩
    · simp only [isGap, Bool.or_eq_true, decide_eq_true_eq] at hc
      exact hc.resolve_right (Ne.symm htab.1)
    · simpa [hc] using hapart.1 d hd
  · rintro ⟨hc, hapart, htab⟩
    refine ⟨List.isChain_cons.2 ⟨fun d hd hgaps => ?_, hapart⟩, ?_⟩
    · rw [(hc hgaps.1).2 d hd] at hgaps
      exact absurd hgaps.2 Bool.false_ne_true
    · simp only [List.mem_cons, not_or]
      refine ⟨?_, htab⟩
      rintro rfl
      exact absurd (hc (by decide)).1 (by decide)

theorem replaceGaps_eq_self_iff {code : List Char} :
    replaceAll (recogniseGap 1) code = code ↔ HasSingleBlanks code := by
  induction code with
  | nil => exact ⟨fun _ => ⟨.nil, by simp⟩, fun _ => rfl⟩
  | cons c cs ih =>
    rw [hasSingleBlanks_cons, ← ih]
    cases hc : isGap c with
    | false => simp [replaceGaps_cons_of_not hc]
    | true =>
      rw [replaceGaps_cons_of_gap hc]
      cases cs with
      | nil =>
        rw [List.dropWhile_nil, List.cons.injEq, eq_comm]
        simp
      | cons d ds =>
        cases hd : isGap d with
        | false =>
          rw [List.dropWhile_cons_of_neg (by simp [hd]), List.cons.injEq, eq_comm]
          simp [hd]
        | true =>
          -- two blanks become one, so the code gets shorter
          have hle := length_replaceGaps_le 1 (Nat.le_refl _) (ds.dropWhile isGap)
          have hdrop := (List.dropWhile_sublist isGap (l := ds)).length_le
          rw [List.dropWhile_cons_of_pos hd]
          simp only [List.head?_cons, Option.mem_def, Option.some.injEq, forall_eq', hd,
            Bool.true_eq_false, and_false, imp_false, not_true, false_and, iff_false]
          intro heq
          have hlength := congrArg List.length heq
          simp only [List.length_cons] at hlength
          omega

theorem compact_eq_self_iff {code : List Char} :
    compact code = code ↔ matchesOf recogniseLeadingZeros code = [] ∧ HasSingleBlanks code := by
  have hshort : ∀ previous cs new n, recogniseLeadingZeros previous cs = some (new, n) →
      new.length < n := fun _ _ _ _ h => (leadingZeros_spec h).1
  have hzeros : replaceAll recogniseLeadingZeros code = code ↔ _ :=
    replaceAll_eq_self_iff leadingZeros_takesSome (.inl hshort)
  rw [← replaceGaps_eq_self_iff, compact]
  constructor
  · intro h
    have hgaps := length_replaceGaps_le 1 (Nat.le_refl _) (replaceAll recogniseLeadingZeros code)
    rw [h] at hgaps
    have hnone := matchesOf_eq_nil_of_length_le leadingZeros_takesSome hshort hgaps
    rw [hzeros.2 hnone] at h
    exact ⟨hnone, h⟩
  · rintro ⟨hnone, hgaps⟩
    rw [hzeros.2 hnone, hgaps]

/-! ## Points -/

theorem wholeLength_spec {previous : Option Char} {cs new : List Char} {n : Nat}
    (h : recogniseWholeLength previous cs = some (new, n)) :
    n < new.length ∧ 1 ≤ n ∧ n ≤ cs.length := by
  cases cs with
  | nil => cases h
  | cons c rest =>
    simp only [recogniseWholeLength] at h
    split at h
    · split at h
      · cases h
        have hsign := (List.filter_sublist (p := Number.isSign) (l := rest.take 1)).length_le
        have hdigits := (List.takeWhile_sublist isDigit
          (l := rest.drop ((rest.take 1).filter Number.isSign).length)).length_le
        simp only [List.length_drop, List.length_take] at hdigits hsign
        simp only [spanDigits, List.length_append, List.length_cons, List.length_nil]
        omega
      · cases h
    · cases h

theorem wholeLength_takesSome : TakesSome recogniseWholeLength :=
  fun _ _ _ _ h => (wholeLength_spec h).2

theorem pointLengths_eq_self_iff {code : List Char} :
    pointLengths code = code ↔ matchesOf recogniseWholeLength code = [] :=
  replaceAll_eq_self_iff wholeLength_takesSome
    (.inr fun _ _ _ _ h => (wholeLength_spec h).1)

theorem length_le_pointLengths (code : List Char) : code.length ≤ (pointLengths code).length :=
  length_le_replaceAll wholeLength_takesSome
    (fun _ _ _ _ h => Nat.le_of_lt (wholeLength_spec h).1) code

/-! ## Lines -/

/-- A line whose codes have no zeros in front, with single blanks and none around it. -/
structure IsCompact (line : String) : Prop where
  codes : ∀ code ∈ (CommentedLine.ofChars line.toList).codes,
    matchesOf recogniseLeadingZeros code = [] ∧ HasSingleBlanks code
  trimmed : trim line.toList = line.toList

theorem length_compact_le (code : List Char) : (compact code).length ≤ code.length := by
  have hgaps := length_replaceGaps_le 1 (Nat.le_refl _) (replaceAll recogniseLeadingZeros code)
  have hzeros := length_replaceAll_le leadingZeros_takesSome
    (fun _ _ _ _ h => Nat.le_of_lt (leadingZeros_spec h).1) code
  exact hgaps.trans hzeros

theorem trim_eq_of_length_le {cs : List Char} (h : cs.length ≤ (trim cs).length) : trim cs = cs := by
  have hleft : trimLeft cs <:+ cs := List.dropWhile_suffix isBlank
  have hright := trimRight_isPrefix (trimLeft cs)
  have hle := hleft.length_le
  have hle' := hright.length_le
  have hsame := hright.eq_of_length_le (by rw [trim] at h; omega)
  rw [trim, hsame]
  exact hleft.eq_of_length_le (by rw [trim, hsame] at h; omega)

theorem compactLine_eq_self_iff {line : String} : compactLine line = line ↔ IsCompact line := by
  have hcodes := CommentedLine.mapCode_eq_iff (l := CommentedLine.ofChars line.toList)
    (f := compact) (g := id) length_compact_le
  rw [CommentedLine.mapCode_ofChars] at hcodes
  simp only [id, compact_eq_self_iff] at hcodes
  rw [compactLine, mapCodeText, trimmed, String.toList_ofList]
  constructor
  · intro h
    have hchars := congrArg String.toList h
    rw [String.toList_ofList] at hchars
    have hle := CommentedLine.length_mapCode_le length_compact_le line.toList
    have hsame : trim _ = _ := trim_eq_of_length_le (by rwa [hchars])
    rw [hchars] at hsame
    rw [← hsame] at hchars
    exact ⟨hcodes.1 hsame.symm, hchars⟩
  · rintro ⟨hcompact, htrimmed⟩
    rw [hcodes.2 hcompact, htrimmed, String.ofList_toList]

theorem compactCode_eq_self_iff : compactCode ls = ls ↔ ∀ l ∈ ls, IsCompact l := by
  simp only [compactCode, map_eq_self_iff, compactLine_eq_self_iff]

/-- No length of the line is written as a whole number without a point. -/
def HasPoints (line : String) : Prop :=
  ∀ code ∈ (CommentedLine.ofChars line.toList).codes, matchesOf recogniseWholeLength code = []

theorem decimalFormat_eq_self_iff : decimalFormat ls = ls ↔ ∀ l ∈ ls, HasPoints l := by
  rw [decimalFormat, map_eq_self_iff]
  refine forall₂_congr fun line _ => ?_
  have hcodes := CommentedLine.mapCode_eq_iff (l := CommentedLine.ofChars line.toList)
    (f := id) (g := pointLengths) length_le_pointLengths
  rw [CommentedLine.mapCode_ofChars] at hcodes
  simp only [id, eq_comm (a := (_ : List Char)) (b := pointLengths _), pointLengths_eq_self_iff]
    at hcodes
  rw [pointLine, mapCodeText, HasPoints, ← hcodes, ← String.toList_inj, String.toList_ofList,
    eq_comm]

end Rule

end PartProgram

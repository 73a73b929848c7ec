import PartProgram.Proofs.Rereading

/-!
# PartProgram.Proofs.Formatting

What the spelling rules leave as it is. They write zeros, gaps and points in another way, so a
control reads from every line what it read before.

* `read?_compactLine`, `read?_pointLine`: the block of a line that was written anew.
-/

namespace PartProgram

open Text Number

/-! ## Replacing -/

/-- What is found may be written as it is replaced, wherever it stands. -/
def Respells (recognise : Recogniser (List Char)) : Prop :=
  ∀ previous cs new n, recognise previous cs = some (new, n) →
    ∃ old after, cs = old ++ after ∧ old.length = n ∧ old ≠ [] ∧
      ∀ xs ys, EndsNumeral xs → Respelled (after ++ xs) ys →
        Respelled (old ++ (after ++ xs)) (new ++ ys)

/-- A code with its matches replaced is respelled, whatever follows it. -/
theorem respelled_replaceAll {recognise : Recogniser (List Char)} (h : Respells recognise)
    (code : List Char) {xs ys : List Char} (hends : EndsNumeral xs) (hxy : Respelled xs ys) :
    Respelled (code ++ xs) (replaceAll recognise code ++ ys) := by
  have hscan : ∀ n previous, ∀ code : List Char, code.length = n → Respelled (code ++ xs)
      ((scanFrom recognise previous 0 code).flatMap (Sum.elim (fun c => [c]) id) ++ ys) := by
    intro n
    induction n using Nat.strongRecOn with
    | ind n ih =>
      intro previous code hn
      subst hn
      cases code with
      | nil => simpa [scanFrom] using hxy
      | cons c rest =>
        cases hfound : recognise previous (c :: rest) with
        | none =>
          have hrest := ih rest.length (by simp) (some c) rest rfl
          simpa [scanFrom, hfound] using Respelled.char c hrest
        | some found =>
          obtain ⟨new, n⟩ := found
          obtain ⟨old, after, happend, hlength, hne, hrespell⟩ := h _ _ _ _ hfound
          obtain ⟨d, old', rfl⟩ := List.exists_cons_of_ne_nil hne
          simp only [List.cons_append, List.cons.injEq] at happend
          obtain ⟨rfl, rfl⟩ := happend
          obtain ⟨previous', hskip⟩ := scanFrom_skip recognise (some c) old' after
          have hcount : n - 1 = old'.length := by
            rw [List.length_cons] at hlength
            omega
          have hrest := ih after.length
            (by simp only [List.length_cons, List.length_append]; omega) previous' after rfl
          simp only [scanFrom, hfound, hcount, hskip, List.flatMap_cons, List.append_assoc]
          simpa using hrespell xs _ hends hrest
  have hpieces : replaceAll recognise code =
      (scan recognise code).flatMap (Sum.elim (fun c => [c]) id) :=
    List.flatMap_congr fun piece _ => by cases piece <;> rfl
  rw [hpieces]
  exact hscan code.length none code rfl

/-- A line whose codes are respelled is a respelling of the line. -/
theorem respelled_mapCode {f g : List Char → List Char}
    (h : ∀ code xs ys, EndsNumeral xs → Respelled xs ys → Respelled (f code ++ xs) (g code ++ ys))
    (l : CommentedLine) : Respelled (l.mapCode f) (l.mapCode g) := by
  have htail : ∀ tail : List (Comment × List Char),
      EndsNumeral (tail.flatMap fun x => x.1.spelled ++ f x.2) ∧
        Respelled (tail.flatMap fun x => x.1.spelled ++ f x.2)
          (tail.flatMap fun x => x.1.spelled ++ g x.2) := by
    intro tail
    induction tail with
    | nil => exact ⟨endsNumeral_nil, .refl []⟩
    | cons x tail ih =>
      obtain ⟨comment, code⟩ := x
      refine ⟨?_, ?_⟩
      · cases comment <;> exact endsNumeral_cons (by decide) (by decide)
      · simp only [List.flatMap_cons, List.append_assoc]
        exact .append_left comment.spelled (h code _ _ ih.1 ih.2)
  obtain ⟨hends, hrest⟩ := htail l.tail
  exact h l.head _ _ hends hrest

namespace Rule

/-! ## Gaps and zeros -/

theorem isGap_spec {c : Char} (h : isGap c = true) : isBlank c = true ∧ c ≠ '\n' := by
  simp only [isGap, Bool.or_eq_true, decide_eq_true_eq] at h
  rcases h with rfl | rfl <;> exact ⟨by decide, by decide⟩

theorem respells_gap {least : Nat} (hleast : 1 ≤ least) : Respells (recogniseGap least) := by
  intro previous cs new n h
  simp only [recogniseGap] at h
  split at h
  · rename_i hlength
    cases h
    have hne : cs.takeWhile isGap ≠ [] := List.length_pos_iff.1 (hleast.trans hlength)
    refine ⟨cs.takeWhile isGap, cs.dropWhile isGap, List.takeWhile_append_dropWhile.symm, rfl, hne,
      fun xs ys _ hxy => .gap hne (by simp) (fun c hc => ?_) (by simp [Blanks]; decide) hxy⟩
    have hall := List.all_takeWhile (l := cs) (p := isGap)
    exact isGap_spec (List.all_eq_true.1 hall c hc)
  · cases h

theorem endsNumeral_of_endsWhole {cs : List Char} (h : endsWhole cs = true) {xs : List Char}
    (hxs : EndsNumeral xs) : EndsNumeral (cs ++ xs) := by
  cases cs with
  | nil => exact hxs
  | cons c cs =>
    simp only [endsWhole, List.head?_cons, Option.any_some, Bool.not_eq_true', Bool.or_eq_false_iff,
      decide_eq_false_iff_not] at h
    exact endsNumeral_cons h.1 h.2

theorem numeralValue_digits {ds : List Char} (h : ∀ c ∈ ds, isDigit c = true) :
    numeralValue ds = ofRatio false (digitsValue ds) 1 := by
  have hspan := spanDigits_of_digits h
  have hsign : splitSign ds = (false, ds) := by
    cases ds with
    | nil => rfl
    | cons c ds => simp [splitSign, isSign_of_isDigit (h c (.head _))]
  simp [numeralValue, hsign, placesOf, hspan]

theorem digitsValue_zeros (n : Nat) (ds : List Char) :
    digitsValue (List.replicate n '0' ++ ds) = digitsValue ds := by
  induction n with
  | zero => rfl
  | succ n ih =>
    rw [← ih, List.replicate_succ, List.cons_append]
    have hzero : (digit? '0').getD 0 = 0 := by decide
    simp [digitsValue, hzero]

theorem takeWhile_zeros (cs : List Char) : cs.takeWhile (· == '0') =
    List.replicate (cs.takeWhile (· == '0')).length '0' := by
  rw [List.eq_replicate_iff]
  refine ⟨rfl, fun c hc => ?_⟩
  have hall := List.all_eq_true.1 (List.all_takeWhile (l := cs) (p := (· == '0'))) c hc
  simpa using hall

theorem isNumeral_digits {ds : List Char} (hne : ds ≠ []) (h : ∀ c ∈ ds, isDigit c = true) :
    IsNumeral ds := .plain (.whole hne h)

theorem isDigit_of_mem_zeros {n : Nat} {c : Char} (h : c ∈ List.replicate n '0') :
    isDigit c = true := by
  rw [List.eq_of_mem_replicate h]
  decide

theorem isDigit_of_mem_row {n : Nat} {d : Char} (hd : isDigit d = true) :
    ∀ x ∈ List.replicate n '0' ++ [d], isDigit x = true := by
  intro x hx
  rcases List.mem_append.1 hx with hx | hx
  · exact isDigit_of_mem_zeros hx
  · rwa [List.mem_singleton.1 hx]

/-- A whole number without the zeros before its last digit. -/
theorem respelled_zeros {c d : Char} {n : Nat} (hc : c = 'G' ∨ c = 'M') (hd : isDigit d = true)
    {cs ys : List Char} (hends : EndsNumeral cs) (h : Respelled cs ys) :
    Respelled (c :: (List.replicate n '0' ++ [d] ++ cs)) ([c, d] ++ ys) := by
  have hdigits := isDigit_of_mem_row (n := n) hd
  have hone : ∀ x ∈ [d], isDigit x = true := fun x hx => by rwa [List.mem_singleton.1 hx]
  refine .number (u := List.replicate n '0' ++ [d]) (v := [d]) ?_ (isNumeral_digits (by simp) hdigits)
    (isNumeral_digits (by simp) hone) ?_ hends (h.endsNumeral hends) h
  · rcases hc with rfl | rfl <;> decide
  · rw [numeralValue_digits hdigits, numeralValue_digits hone, digitsValue_zeros]

/-- A code whose number is a row of zeros and one more digit. -/
theorem respells_code {c d : Char} {rest after : List Char} {count : Nat} (hc : c = 'G' ∨ c = 'M')
    (hd : isDigit d = true) (hwhole : endsWhole after = true)
    (hrest : List.replicate count '0' ++ d :: after = rest) :
    ∃ old after', c :: rest = old ++ after' ∧ old.length = count + 2 ∧ old ≠ [] ∧
      ∀ xs ys, EndsNumeral xs → Respelled (after' ++ xs) ys →
        Respelled (old ++ (after' ++ xs)) ([c, d] ++ ys) := by
  subst hrest
  refine ⟨c :: (List.replicate count '0' ++ [d]), after, by simp, by simp, by simp, ?_⟩
  intro xs ys hends hxy
  exact respelled_zeros hc hd (endsNumeral_of_endsWhole hwhole hends) hxy

theorem replicate_zeros_succ (n : Nat) (cs : List Char) :
    List.replicate (n + 1) '0' ++ cs = List.replicate n '0' ++ '0' :: cs := by
  rw [List.replicate_succ', List.append_assoc]
  rfl

/-- What is found for its leading zeros is a code whose number is a row of zeros and one more digit,
the last zero of the row if no other digit follows it. -/
theorem leadingZeros_of_recognise {previous : Option Char} {c : Char} {rest new : List Char}
    {n : Nat} (h : recogniseLeadingZeros previous (c :: rest) = some (new, n)) :
    beginsWord previous = true ∧ (c = 'G' ∨ c = 'M') ∧ ∃ zeros d after,
      rest = List.replicate (zeros + 1) '0' ++ d :: after ∧ isDigit d = true ∧
        endsWhole after = true ∧ new = [c, d] ∧ n = zeros + 3 := by
  have hzero : isDigit '0' = true := by decide
  have hzeros := takeWhile_zeros rest
  have hsplit := List.takeWhile_append_dropWhile (p := (· == '0')) (l := rest)
  simp only [recogniseLeadingZeros, drop_length_takeWhile] at h
  generalize (rest.takeWhile (· == '0')).length = zeros at h hzeros
  rw [hzeros] at hsplit
  split at h
  · rename_i hletter
    simp only [Bool.and_eq_true, Bool.or_eq_true, decide_eq_true_eq] at hletter
    refine ⟨hletter.1, hletter.2, ?_⟩
    split at h
    · cases h
    · rename_i count d after hafter
      rw [hafter] at hsplit
      split at h
      · rename_i hd
        split at h
        · rename_i hwhole
          cases h
          exact ⟨count, d, after, hsplit.symm, hd, hwhole, rfl, rfl⟩
        · cases h
      · split at h
        · rename_i hleast
          simp only [Bool.and_eq_true, decide_eq_true_eq] at hleast
          cases h
          obtain ⟨count, rfl⟩ : ∃ k, count = k + 1 := ⟨count - 1, by omega⟩
          rw [replicate_zeros_succ] at hsplit
          exact ⟨count, '0', d :: after, hsplit.symm, hzero, hleast.2, rfl, rfl⟩
        · cases h
    · rename_i count hafter
      rw [hafter] at hsplit
      split at h
      · rename_i hleast
        cases h
        obtain ⟨count, rfl⟩ : ∃ k, count = k + 1 := ⟨count - 1, by omega⟩
        rw [replicate_zeros_succ] at hsplit
        exact ⟨count, '0', [], hsplit.symm, hzero, rfl, rfl, rfl⟩
      · cases h
  · cases h

theorem respells_leadingZeros : Respells recogniseLeadingZeros := by
  intro previous cs new n h
  cases cs with
  | nil => cases h
  | cons c rest =>
    obtain ⟨-, hletter, zeros, d, after, hrest, hd, hwhole, rfl, rfl⟩ := leadingZeros_of_recognise h
    exact respells_code hletter hd hwhole hrest.symm

/-! ## Points -/

theorem numeralValue_sign {s : List Char} (hs : s = [] ∨ ∃ c, s = [c] ∧ isSign c = true)
    {ds : List Char} (h : ∀ c ∈ ds, isDigit c = true) (hne : ds ≠ []) :
    numeralValue (s ++ (ds ++ ['.'])) = numeralValue (s ++ ds) ∧ IsNumeral (s ++ ds) ∧
      IsNumeral (s ++ (ds ++ ['.'])) := by
  have hplain := spanDigits_of_digits h
  have hpointed : spanDigits (ds ++ ['.']) = (ds, ['.']) :=
    spanDigits_append h (by simp [NoDigitHead]; decide)
  have hplaces : placesOf (ds ++ ['.']) = placesOf ds := by
    have hnil : spanDigits [] = ([], []) := rfl
    simp [placesOf, hplain, hpointed, hnil]
  have hwhole : IsMagnitude ds := .whole hne h
  have hpoint : IsMagnitude (ds ++ ['.']) := .pointed (by simp [hne]) h (by simp)
  rcases hs with rfl | ⟨c, rfl, hc⟩
  · obtain ⟨d, ds', rfl⟩ := List.exists_cons_of_ne_nil hne
    have hsign := isSign_of_isDigit (h d (.head _))
    refine ⟨?_, .plain hwhole, .plain hpoint⟩
    simp only [List.cons_append] at hplaces
    simp [numeralValue, splitSign, hsign, hplaces]
  · refine ⟨?_, .signed hc hwhole, .signed hc hpoint⟩
    simp [numeralValue, splitSign, hc, hplaces]

theorem respells_wholeLength : Respells recogniseWholeLength := by
  intro previous cs new n h
  cases cs with
  | nil => cases h
  | cons c rest =>
    simp only [recogniseWholeLength] at h
    split at h
    · rename_i hletter
      simp only [Bool.and_eq_true, List.contains_iff_mem] at hletter
      have hc : c ∈ respelledLetters := .tail _ (.tail _ hletter.2)
      obtain ⟨hdigits, hspan, -⟩ :=
        spanDigits_spec (rest.drop ((rest.take 1).filter isSign).length)
      have hsign : rest = (rest.take 1).filter isSign ++
          rest.drop ((rest.take 1).filter isSign).length ∧
            ((rest.take 1).filter isSign = [] ∨
              ∃ c, (rest.take 1).filter isSign = [c] ∧ isSign c = true) := by
        cases rest with
        | nil => simp
        | cons d rest => cases hd : isSign d <;> simp [hd]
      generalize hs : (rest.take 1).filter isSign = s at h hdigits hspan hsign
      split at h
      · rename_i hends
        simp only [Bool.and_eq_true, Bool.not_eq_true', List.isEmpty_eq_false_iff] at hends
        cases h
        generalize hds : spanDigits (rest.drop s.length) = found at hends hdigits hspan
        obtain ⟨ds, after⟩ := found
        obtain ⟨hvalue, hu, hv⟩ := numeralValue_sign hsign.2 hspan hends.1
        refine ⟨c :: (s ++ ds), after, ?_, by simp; omega, by simp, fun xs ys hxs hxy => ?_⟩
        · rw [hsign.1, hdigits]
          simp
        · have hafter := endsNumeral_of_endsWhole hends.2 hxs
          simpa using Respelled.number hc hu hv hvalue.symm hafter (hxy.endsNumeral hafter) hxy
      · cases h
    · cases h

/-! ## Lines -/

theorem respelled_zerosLine (l : CommentedLine) :
    Respelled (l.mapCode id) (l.mapCode (replaceAll recogniseLeadingZeros)) :=
  respelled_mapCode (fun code _ _ => respelled_replaceAll respells_leadingZeros code) l

theorem respelled_gapsLine (l : CommentedLine) :
    Respelled (l.mapCode (replaceAll recogniseLeadingZeros)) (l.mapCode compact) :=
  respelled_mapCode (fun code _ _ => respelled_replaceAll (respells_gap (Nat.le_refl 1))
    (replaceAll recogniseLeadingZeros code)) l

/-- A control reads from a compacted line what it read before. -/
theorem read?_compactLine {l : String} (hfeed : '\n' ∉ l.toList) (n : Int) :
    '\n' ∉ (compactLine l).toList ∧
      (Block.read? (compactLine l) n).map Block.said = (Block.read? l n).map Block.said := by
  have hzeros := respelled_zerosLine (CommentedLine.ofChars l.toList)
  have hgaps := respelled_gapsLine (CommentedLine.ofChars l.toList)
  rw [CommentedLine.mapCode_ofChars] at hzeros
  have hfeedZeros := fun hmem => hfeed (hzeros.feed_mem.2 hmem)
  have hfeedGaps : '\n' ∉ (mapCodeText compact l).toList := by
    rw [mapCodeText, String.toList_ofList]
    exact fun hmem => hfeedZeros (hgaps.feed_mem.2 hmem)
  have hreadZeros := hzeros.read?_ofList hfeed n
  have hreadGaps := hgaps.read?_ofList hfeedZeros n
  rw [String.ofList_toList] at hreadZeros
  rw [compactLine]
  constructor
  · rw [trimmed, String.toList_ofList]
    exact feed_not_mem_trim hfeedGaps
  · rw [Block.said_read?_trimmed hfeedGaps, mapCodeText, ← hreadGaps, ← hreadZeros]

/-- A control reads from a line with its points what it read before. -/
theorem read?_pointLine {l : String} (hfeed : '\n' ∉ l.toList) (n : Int) :
    '\n' ∉ (pointLine l).toList ∧
      (Block.read? (pointLine l) n).map Block.said = (Block.read? l n).map Block.said := by
  have hsame := respelled_mapCode (f := id) (g := pointLengths)
    (fun code _ _ => respelled_replaceAll respells_wholeLength code)
    (CommentedLine.ofChars l.toList)
  rw [CommentedLine.mapCode_ofChars] at hsame
  have hread := hsame.read?_ofList hfeed n
  rw [String.ofList_toList] at hread
  rw [pointLine, mapCodeText]
  constructor
  · rw [String.toList_ofList]
    exact fun hmem => hfeed (hsame.feed_mem.2 hmem)
  · exact hread.symm

end Rule

end PartProgram

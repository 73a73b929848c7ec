import PartProgram.Proofs.Numerals

/-!
# PartProgram.Proofs.Scanning

What a scan finds. A text is scanned piece by piece: characters at which nothing is found stay, and
a match takes its characters out. The address words of a text are found in this way, so words with
blanks between them are found as they stand.

* `mem_matchesOf`: every match was found somewhere.
* `wordsOf_spaced`: words written with a blank before each of them.
-/

namespace PartProgram

open Text

/-! ## Scans -/

section

variable {α : Type} {recognise : Recogniser α}

theorem scanFrom_append_of_not_found {cs : List Char}
    (h : ∀ previous, ∀ c ∈ cs, ∀ rest, recognise previous (c :: rest) = none)
    (previous : Option Char) (rest : List Char) :
    scanFrom recognise previous 0 (cs ++ rest) =
      cs.map .inl ++ scanFrom recognise (cs.getLast?.or previous) 0 rest := by
  induction cs generalizing previous with
  | nil => rfl
  | cons c cs ih =>
    have hlast : (c :: cs).getLast?.or previous = cs.getLast?.or (some c) := by
      cases cs with
      | nil => rfl
      | cons d ds =>
        rw [List.getLast?_cons_cons, List.getLast?_cons]
        rfl
    simp only [List.cons_append, scanFrom, h previous c (.head _), List.map_cons, hlast,
      ih fun p c' hc' => h p c' (.tail _ hc')]

theorem scan_of_not_found {cs : List Char}
    (h : ∀ previous, ∀ c ∈ cs, ∀ rest, recognise previous (c :: rest) = none) :
    scan recognise cs = cs.map .inl := by
  have := scanFrom_append_of_not_found h none []
  simpa [scan, scanFrom] using this

theorem scanFrom_skip (recognise : Recogniser α) (previous : Option Char) (cs rest : List Char) :
    ∃ previous', scanFrom recognise previous cs.length (cs ++ rest) =
      scanFrom recognise previous' 0 rest := by
  induction cs generalizing previous with
  | nil => exact ⟨previous, rfl⟩
  | cons c cs ih =>
    obtain ⟨previous', h⟩ := ih (some c)
    exact ⟨previous', by simpa [scanFrom] using h⟩

/-- Every match was found at the head of what was left of the text. -/
theorem mem_scanFrom {previous : Option Char} {skip : Nat} {cs : List Char} {a : α}
    (h : .inr a ∈ scanFrom recognise previous skip cs) :
    ∃ previous' before rest n, cs = before ++ rest ∧ recognise previous' rest = some (a, n) := by
  induction cs generalizing previous skip with
  | nil => simp [scanFrom] at h
  | cons c cs ih =>
    have later : ∀ {p k}, Sum.inr a ∈ scanFrom recognise p k cs → ∃ previous' before rest n,
        c :: cs = before ++ rest ∧ recognise previous' rest = some (a, n) := by
      intro p k hmem
      obtain ⟨previous', before, rest, n, rfl, hfound⟩ := ih hmem
      exact ⟨previous', c :: before, rest, n, rfl, hfound⟩
    cases skip with
    | succ k => exact later h
    | zero =>
      simp only [scanFrom] at h
      split at h
      · rename_i a' n hfound
        simp only [List.mem_cons, Sum.inr.injEq] at h
        rcases h with rfl | h
        · exact ⟨previous, [], c :: cs, n, rfl, hfound⟩
        · exact later h
      · simp only [List.mem_cons, reduceCtorEq, false_or] at h
        exact later h

theorem mem_matchesOf {cs : List Char} {a : α} (h : a ∈ matchesOf recognise cs) :
    ∃ previous before rest n, cs = before ++ rest ∧ recognise previous rest = some (a, n) := by
  simp only [matchesOf, List.mem_filterMap] at h
  obtain ⟨x, hx, hxa⟩ := h
  cases x with
  | inl c => cases hxa
  | inr b =>
    cases hxa
    exact mem_scanFrom hx

end

/-! ## Words of a text -/

/-- The address words of a text in upper case. -/
def wordsOf (cs : List Char) : List Word := matchesOf Block.recogniseWord cs

theorem scanFrom_recogniseWord (p q : Option Char) (skip : Nat) (cs : List Char) :
    scanFrom Block.recogniseWord p skip cs = scanFrom Block.recogniseWord q skip cs := by
  cases cs with
  | nil => simp [scanFrom]
  | cons c rest => cases skip <;> rfl

theorem wordsOf_nil : wordsOf [] = [] := rfl

theorem wordsOf_cons_of_none {c : Char} {rest : List Char}
    (h : Block.recogniseWord none (c :: rest) = none) : wordsOf (c :: rest) = wordsOf rest := by
  simp only [wordsOf, matchesOf, scan, scanFrom, h, List.filterMap_cons]
  rw [scanFrom_recogniseWord (some c) none]

theorem wordsOf_cons_of_not_letter {c : Char} (hc : Block.isWordLetter c = false)
    (rest : List Char) : wordsOf (c :: rest) = wordsOf rest :=
  wordsOf_cons_of_none (by simp [Block.recogniseWord, hc])

theorem wordsOf_cons_of_some {c : Char} {t rest after : List Char}
    (hc : Block.isWordLetter c = true) (h : Number.numeral? (trimLeft rest) = some (t, after)) :
    wordsOf (c :: rest) = ⟨c, .ofList t⟩ :: wordsOf after := by
  obtain ⟨happend, -⟩ := numeral?_spec h
  have hrest : rest = rest.takeWhile isBlank ++ (t ++ after) := by
    rw [← happend, trimLeft, List.takeWhile_append_dropWhile]
  have hfound : Block.recogniseWord none (c :: rest) =
      some (⟨c, .ofList t⟩, (rest.takeWhile isBlank ++ t).length + 1) := by
    have hlength := congrArg List.length hrest
    simp only [List.length_append] at hlength
    simp only [Block.recogniseWord, hc, if_true, h, Option.map_some, taken, List.length_cons,
      List.length_append]
    have : rest.length + 1 - after.length = (rest.takeWhile isBlank).length + t.length + 1 := by
      omega
    rw [this]
  simp only [wordsOf, matchesOf, scan, scanFrom, hfound, List.filterMap_cons,
    Nat.add_sub_cancel]
  have hsplit : rest = (rest.takeWhile isBlank ++ t) ++ after := by
    rw [List.append_assoc, ← hrest]
  obtain ⟨previous, hskip⟩ := scanFrom_skip Block.recogniseWord (some c)
    (rest.takeWhile isBlank ++ t) after
  rw [← hsplit] at hskip
  rw [hskip, scanFrom_recogniseWord previous none]

/-- A word that is found as it is written. -/
structure Word.WellFormed (w : Word) : Prop where
  letter : w.letter ∈ addressLetters
  numeral : IsNumeral w.text.toList

theorem isWordLetter_of_address : ∀ c ∈ addressLetters, Block.isWordLetter c = true :=
  List.all_eq_true.1 (by decide)

theorem trimLeft_append {t : List Char} (h : IsNumeral t) (rest : List Char) :
    trimLeft (t ++ rest) = t ++ rest := by
  have hchar : ∀ c, isDigit c = true ∨ c = '.' ∨ Number.isSign c = true → isBlank c = false := by
    rintro c (hc | rfl | hc)
    · exact isBlank_of_isDigit hc
    · decide
    · simp only [Number.isSign, Bool.or_eq_true, decide_eq_true_eq] at hc
      rcases hc with rfl | rfl <;> decide
  cases t with
  | nil => exact absurd rfl h.ne_nil
  | cons c cs => simp [trimLeft, hchar c (h.chars c (.head _))]

theorem wordsOf_render {w : Word} (h : w.WellFormed) {rest : List Char}
    (hrest : EndsNumeral rest) : wordsOf (w.render.toList ++ rest) = w :: wordsOf rest := by
  have hchars : w.render.toList ++ rest = w.letter :: (w.text.toList ++ rest) := by
    simp [Word.render]
  have hread : Number.numeral? (trimLeft (w.text.toList ++ rest)) = some (w.text.toList, rest) := by
    rw [trimLeft_append h.numeral rest, h.numeral.read hrest]
  rw [hchars, wordsOf_cons_of_some (isWordLetter_of_address _ h.letter) hread]
  simp

/-- Texts with a blank before each of them. -/
def spaced (parts : List String) : List Char := parts.flatMap fun p => ' ' :: p.toList

theorem spaced_cons (p : String) (parts : List String) :
    spaced (p :: parts) = ' ' :: (p.toList ++ spaced parts) := rfl

theorem spaced_append (ps qs : List String) : spaced (ps ++ qs) = spaced ps ++ spaced qs := by
  simp [spaced]

theorem endsNumeral_spaced_append (parts : List String) {rest : List Char}
    (hrest : EndsNumeral rest) : EndsNumeral (spaced parts ++ rest) := by
  cases parts with
  | nil => exact hrest
  | cons p parts => exact endsNumeral_cons (by decide) (by decide)

/-- Words with a blank before each of them are found as they stand. -/
theorem wordsOf_spaced {ws : List Word} (h : ∀ w ∈ ws, w.WellFormed) {rest : List Char}
    (hrest : EndsNumeral rest) :
    wordsOf (spaced (ws.map Word.render) ++ rest) = ws ++ wordsOf rest := by
  induction ws with
  | nil => rfl
  | cons w ws ih =>
    have hnext := endsNumeral_spaced_append (ws.map Word.render) hrest
    rw [List.map_cons, spaced_cons, List.cons_append, List.append_assoc,
      wordsOf_cons_of_not_letter (by decide), wordsOf_render (h w (.head _)) hnext,
      ih fun w' hw' => h w' (.tail _ hw')]
    rfl

end PartProgram

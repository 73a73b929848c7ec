import PartProgram.Proofs.Merging
import PartProgram.Proofs.Scanning

/-!
# PartProgram.Proofs.Replacing

Texts with their matches replaced. A scan loses nothing, so a text is what its scan spells; another
text in the place of each match makes it longer or shorter by the difference.

* `scanFrom_flatMap`: a scan spells the text.
* `replaceAll_eq_self_iff`: a text stays as it is exactly when nothing is found in it.
-/

namespace PartProgram

namespace Text

/-- A recogniser that gives what it finds along with the characters it finds it in. -/
def spelling {α : Type} (recognise : Recogniser α) : Recogniser (List Char × α) :=
  fun previous cs => (recognise previous cs).map fun (a, n) => ((cs.take n, a), n)

/-- A match takes some of the characters that there are. -/
def TakesSome {α : Type} (recognise : Recogniser α) : Prop :=
  ∀ previous cs a n, recognise previous cs = some (a, n) → 1 ≤ n ∧ n ≤ cs.length

section

variable {α : Type} {recognise : Recogniser α}

/-- What is found makes up the text. -/
theorem scanFrom_flatMap {spell : α → List Char}
    (hspell : ∀ previous cs a n, recognise previous cs = some (a, n) →
      ∃ rest, cs = spell a ++ rest ∧ n = (spell a).length ∧ spell a ≠ [])
    (previous : Option Char) (skip : Nat) (cs : List Char) :
    (scanFrom recognise previous skip cs).flatMap (Sum.elim (fun c => [c]) spell) =
      cs.drop skip := by
  induction cs generalizing previous skip with
  | nil => simp [scanFrom]
  | cons c cs ih =>
    cases skip with
    | succ k => simpa [scanFrom] using ih (some c) k
    | zero =>
      simp only [scanFrom]
      split
      · rename_i a n hfound
        obtain ⟨rest, hcs, rfl, hne⟩ := hspell _ _ _ _ hfound
        rw [List.flatMap_cons, ih]
        cases hspelled : spell a with
        | nil => exact absurd hspelled hne
        | cons d ds =>
          rw [hspelled, List.cons_append, List.cons.injEq] at hcs
          obtain ⟨rfl, rfl⟩ := hcs
          simp [hspelled]
      · rw [List.flatMap_cons, ih]
        rfl

theorem spelling_eq_some {previous : Option Char} {cs : List Char} {a : List Char × α} {n : Nat}
    (h : spelling recognise previous cs = some (a, n)) :
    recognise previous cs = some (a.2, n) ∧ a.1 = cs.take n := by
  simp only [spelling, Option.map_eq_some_iff, Prod.mk.injEq] at h
  obtain ⟨⟨b, k⟩, hfound, rfl, rfl⟩ := h
  exact ⟨hfound, rfl⟩

theorem scanFrom_spelling (recognise : Recogniser α) (previous : Option Char) (skip : Nat)
    (cs : List Char) :
    (scanFrom (spelling recognise) previous skip cs).map (Sum.map id Prod.snd) =
      scanFrom recognise previous skip cs := by
  induction cs generalizing previous skip with
  | nil => simp [scanFrom]
  | cons c cs ih =>
    cases skip with
    | succ k => simpa [scanFrom] using ih (some c) k
    | zero =>
      cases hfound : recognise previous (c :: cs) with
      | none => simp [scanFrom, spelling, hfound, ih]
      | some found => simp [scanFrom, spelling, hfound, ih]

/-- The text, as its matches spell it. -/
theorem flatMap_spelling (h : TakesSome recognise) (cs : List Char) :
    (scan (spelling recognise) cs).flatMap (Sum.elim (fun c => [c]) Prod.fst) = cs := by
  refine scanFrom_flatMap (fun previous cs a n hfound => ?_) none 0 cs
  obtain ⟨hfound, ha⟩ := spelling_eq_some hfound
  obtain ⟨hpos, hle⟩ := h _ _ _ _ hfound
  have hlength : n = a.1.length := by
    rw [ha, List.length_take]
    omega
  refine ⟨cs.drop n, by rw [ha, List.take_append_drop], hlength, fun hnil => ?_⟩
  rw [hnil, List.length_nil] at hlength
  omega

theorem matchesOf_spelling (cs : List Char) :
    (matchesOf (spelling recognise) cs).map Prod.snd = matchesOf recognise cs := by
  have hscan := scanFrom_spelling recognise none 0 cs
  rw [matchesOf, matchesOf, scan, scan, ← hscan, List.filterMap_map, List.map_filterMap]
  refine List.filterMap_congr fun x _ => ?_
  cases x <;> rfl

theorem matchesOf_eq_nil_iff {cs : List Char} :
    matchesOf recognise cs = [] ↔ ∀ x ∈ scan recognise cs, x.isLeft = true := by
  rw [matchesOf, List.filterMap_eq_nil_iff]
  refine forall₂_congr fun x _ => ?_
  cases x <;> simp

end

section

variable {recognise : Recogniser (List Char)}

/-- The text with its matches replaced, from what its matches spell. -/
theorem replaceAll_spelling (cs : List Char) :
    replaceAll recognise cs =
      (scan (spelling recognise) cs).flatMap (Sum.elim (fun c => [c]) Prod.snd) := by
  rw [replaceAll, scan, scan, ← scanFrom_spelling recognise none 0 cs, List.flatMap_map]
  refine List.flatMap_congr fun x _ => ?_
  cases x <;> rfl

/-- What is found is spelled by so many characters. -/
theorem length_of_mem_scan (h : TakesSome recognise) {cs : List Char} {a : List Char × List Char}
    (ha : .inr a ∈ scan (spelling recognise) cs) :
    ∃ previous cs, recognise previous cs = some (a.2, a.1.length) := by
  obtain ⟨previous, before, rest, n, -, hfound⟩ := mem_scanFrom ha
  obtain ⟨hfound, ha⟩ := spelling_eq_some hfound
  have hlength : a.1.length = n := by
    have := h _ _ _ _ hfound
    rw [ha, List.length_take]
    omega
  exact ⟨previous, rest, by rw [hlength, hfound]⟩

theorem length_replaceAll_le (h : TakesSome recognise)
    (hshort : ∀ previous cs new n, recognise previous cs = some (new, n) → new.length ≤ n)
    (cs : List Char) : (replaceAll recognise cs).length ≤ cs.length := by
  conv => rhs; rw [← flatMap_spelling h cs]
  rw [replaceAll_spelling]
  refine length_flatMap_le_of_forall fun x hx => ?_
  cases x with
  | inl c => exact Nat.le_refl _
  | inr a =>
    obtain ⟨previous, cs, hfound⟩ := length_of_mem_scan h hx
    exact hshort _ _ _ _ hfound

theorem length_le_replaceAll (h : TakesSome recognise)
    (hlong : ∀ previous cs new n, recognise previous cs = some (new, n) → n ≤ new.length)
    (cs : List Char) : cs.length ≤ (replaceAll recognise cs).length := by
  conv => lhs; rw [← flatMap_spelling h cs]
  rw [replaceAll_spelling]
  refine length_flatMap_le_of_forall fun x hx => ?_
  cases x with
  | inl c => exact Nat.le_refl _
  | inr a =>
    obtain ⟨previous, cs, hfound⟩ := length_of_mem_scan h hx
    exact hlong _ _ _ _ hfound

/-- In a text that gets no shorter nothing was found, given that a replacement is always shorter
than what it stands for. -/
theorem matchesOf_eq_nil_of_length_le (h : TakesSome recognise)
    (hshort : ∀ previous cs new n, recognise previous cs = some (new, n) → new.length < n)
    {cs : List Char} (hlength : cs.length ≤ (replaceAll recognise cs).length) :
    matchesOf recognise cs = [] := by
  have hspelled : ∀ a : List Char × List Char, .inr a ∈ scan (spelling recognise) cs →
      a.2.length < a.1.length := by
    intro a ha
    obtain ⟨previous, cs, hfound⟩ := length_of_mem_scan h ha
    exact hshort _ _ _ _ hfound
  have hpieces := length_eq_of_length_flatMap_le (l := scan (spelling recognise) cs)
    (f := Sum.elim (fun c => [c]) Prod.snd) (g := Sum.elim (fun c => [c]) Prod.fst)
    (fun x hx => by
      cases x with
      | inl c => exact Nat.le_refl _
      | inr a => exact Nat.le_of_lt (hspelled a hx))
    (by rwa [flatMap_spelling h, ← replaceAll_spelling])
  rw [← matchesOf_spelling, List.map_eq_nil_iff, matchesOf_eq_nil_iff]
  intro x hx
  cases x with
  | inl c => rfl
  | inr a => exact absurd (hpieces _ hx) (Nat.ne_of_lt (hspelled a hx))

/-- A text stays as it is exactly when nothing is found in it, given that a replacement is always
shorter than what it stands for, or always longer. -/
theorem replaceAll_eq_self_iff (h : TakesSome recognise)
    (hlength : (∀ previous cs new n, recognise previous cs = some (new, n) → new.length < n) ∨
      ∀ previous cs new n, recognise previous cs = some (new, n) → n < new.length)
    {cs : List Char} : replaceAll recognise cs = cs ↔ matchesOf recognise cs = [] := by
  have hfound : ∀ a : List Char × List Char, .inr a ∈ scan (spelling recognise) cs →
      a.1 ≠ a.2 := by
    intro a ha heq
    obtain ⟨previous, cs, hfound⟩ := length_of_mem_scan h ha
    rw [heq] at hfound
    rcases hlength with hshort | hlong
    · exact absurd (hshort _ _ _ _ hfound) (Nat.lt_irrefl _)
    · exact absurd (hlong _ _ _ _ hfound) (Nat.lt_irrefl _)
  have hnone : (∀ x ∈ scan (spelling recognise) cs, Sum.elim (fun c => [c]) Prod.fst x =
      Sum.elim (fun c => [c]) Prod.snd x) ↔ matchesOf recognise cs = [] := by
    rw [← matchesOf_spelling, List.map_eq_nil_iff, matchesOf_eq_nil_iff]
    refine forall₂_congr fun x hx => ?_
    cases x with
    | inl c => simp
    | inr a => simp [hfound a hx]
  conv => lhs; rhs; rw [← flatMap_spelling h cs]
  rw [replaceAll_spelling, ← hnone]
  rcases hlength with hshort | hlong
  · rw [flatMap_eq_iff]
    · exact forall₂_congr fun _ _ => eq_comm
    · intro x hx
      cases x with
      | inl c => exact Nat.le_refl _
      | inr a =>
        obtain ⟨previous, cs, hfound⟩ := length_of_mem_scan h hx
        exact Nat.le_of_lt (hshort _ _ _ _ hfound)
  · rw [eq_comm, flatMap_eq_iff]
    intro x hx
    cases x with
    | inl c => exact Nat.le_refl _
    | inr a =>
      obtain ⟨previous, cs, hfound⟩ := length_of_mem_scan h hx
      exact Nat.le_of_lt (hlong _ _ _ _ hfound)

end

end Text

end PartProgram

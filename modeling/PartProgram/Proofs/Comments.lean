import PartProgram.Proofs.Replacing
import PartProgram.Rule.Normalize

/-!
# PartProgram.Proofs.Comments

Lines taken apart and put together again. Code and comments of a line, written in order, are the
line. What is left of a line without its comments is shorter than the line.

* `CommentedLine.mapCode_ofChars`: code and comments make up the line.
* `removeCommentsOf_eq_some_iff`: a line is kept as it is exactly when it has no comment.
-/

namespace PartProgram

open Text

/-! ## Code and comments -/

theorem bracketText?_spec {cs t : List Char} (h : Comment.bracketText? cs = some t) :
    ∃ rest, cs = t ++ ')' :: rest := by
  induction cs generalizing t with
  | nil => cases h
  | cons c cs ih =>
    rw [Comment.bracketText?] at h
    split at h
    · rename_i hc
      cases h
      exact ⟨cs, by rw [hc]; rfl⟩
    · split at h
      · cases h
      · obtain ⟨t', ht, rfl⟩ := Option.map_eq_some_iff.1 h
        obtain ⟨rest, rfl⟩ := ih ht
        exact ⟨rest, rfl⟩

theorem trailingText?_spec {cs t : List Char} (h : Comment.trailingText? cs = some t) :
    ∃ rest, cs = t ++ rest := by
  induction cs generalizing t with
  | nil =>
    cases h
    exact ⟨[], rfl⟩
  | cons c cs ih =>
    rw [Comment.trailingText?] at h
    split at h
    · split at h
      · cases h
        exact ⟨_, rfl⟩
      · cases h
    · obtain ⟨t', ht, rfl⟩ := Option.map_eq_some_iff.1 h
      obtain ⟨rest, rfl⟩ := ih ht
      exact ⟨rest, rfl⟩

/-- A comment is found as it is spelled. -/
theorem recogniseComment_spec {previous : Option Char} {cs : List Char} {c : Comment} {n : Nat}
    (h : Comment.recognise previous cs = some (c, n)) :
    ∃ rest, cs = c.spelled ++ rest ∧ n = c.spelled.length ∧ c.spelled ≠ [] := by
  cases cs with
  | nil => cases h
  | cons d cs =>
    simp only [Comment.recognise, Option.map_eq_some_iff, Prod.mk.injEq] at h
    obtain ⟨c', hfound, rfl, rfl⟩ := h
    split at hfound
    · rename_i hd
      obtain ⟨t, ht, rfl⟩ := Option.map_eq_some_iff.1 hfound
      obtain ⟨rest, rfl⟩ := bracketText?_spec ht
      exact ⟨rest, by simp [Comment.spelled, hd], rfl, by simp [Comment.spelled]⟩
    · split at hfound
      · rename_i hd
        obtain ⟨t, ht, rfl⟩ := Option.map_eq_some_iff.1 hfound
        obtain ⟨rest, rfl⟩ := trailingText?_spec ht
        exact ⟨rest, by simp [Comment.spelled, hd], rfl, by simp [Comment.spelled]⟩
      · cases hfound

theorem mapCode_foldr (xs : List (Char ⊕ Comment)) :
    (xs.foldr CommentedLine.prepend ⟨[], []⟩).mapCode id =
      xs.flatMap (Sum.elim (fun c => [c]) Comment.spelled) := by
  induction xs with
  | nil => rfl
  | cons x xs ih =>
    rw [List.foldr_cons, List.flatMap_cons, ← ih]
    cases x with
    | inl c => rfl
    | inr c => simp [CommentedLine.prepend, CommentedLine.mapCode]

/-- Code and comments make up the line. -/
theorem CommentedLine.mapCode_ofChars (cs : List Char) : (ofChars cs).mapCode id = cs := by
  rw [ofChars, mapCode_foldr, scan,
    scanFrom_flatMap (fun _ _ _ _ h => recogniseComment_spec h) none 0 cs]
  rfl

theorem CommentedLine.length_codeWith_nil_lt {cs : List Char} (h : (ofChars cs).tail ≠ []) :
    ((ofChars cs).codeWith []).length < cs.length := by
  have hcs := congrArg List.length (mapCode_ofChars cs)
  rw [← hcs]
  have hle : ∀ tail : List (Comment × List Char),
      (tail.flatMap fun x => ([] : List Char) ++ x.2).length + tail.length ≤
        (tail.flatMap fun x => x.1.spelled ++ x.2).length := by
    intro tail
    induction tail with
    | nil => simp
    | cons x tail ih =>
      have hpos : 1 ≤ x.1.spelled.length := by cases x.1 <;> simp [Comment.spelled]
      simp only [List.flatMap_cons, List.length_append, List.length_cons, List.length_nil] at ih ⊢
      omega
  have htail := List.length_pos_iff.2 h
  have hflat := hle (ofChars cs).tail
  simp only [codeWith, mapCode, List.length_append, id]
  omega

/-! ## Lines without comments -/

namespace Rule

theorem length_trim_le (cs : List Char) : (trim cs).length ≤ cs.length := by
  have hleft : (trimLeft cs).length ≤ cs.length := (List.dropWhile_sublist _).length_le
  have hright := (List.dropWhile_sublist isBlank (l := (trimLeft cs).reverse)).length_le
  simp only [trim, trimRight, List.length_reverse] at hright ⊢
  omega

theorem recogniseGap_eq_some {least n : Nat} {previous : Option Char} {cs new : List Char}
    (h : recogniseGap least previous cs = some (new, n)) :
    new = [' '] ∧ least ≤ n ∧ n ≤ cs.length := by
  simp only [recogniseGap] at h
  split at h
  · rename_i hleast
    cases h
    exact ⟨rfl, hleast, (List.takeWhile_sublist isGap).length_le⟩
  · cases h

theorem length_replaceGaps_le (least : Nat) (hleast : 1 ≤ least) (cs : List Char) :
    (replaceAll (recogniseGap least) cs).length ≤ cs.length := by
  refine length_replaceAll_le (fun previous cs new n h => ?_) (fun previous cs new n h => ?_) cs
  · obtain ⟨-, hn, hle⟩ := recogniseGap_eq_some h
    exact ⟨hleast.trans hn, hle⟩
  · obtain ⟨rfl, hn, -⟩ := recogniseGap_eq_some h
    exact hleast.trans hn

theorem length_codeAlone_le (l : CommentedLine) :
    (codeAlone l).length ≤ (l.codeWith []).length := by
  have := length_trim_le (replaceAll (recogniseGap 2) (l.codeWith []))
  have := length_replaceGaps_le 2 (by decide) (l.codeWith [])
  rw [codeAlone]
  omega

/-- A line is kept as it is exactly when it has no comment. -/
theorem removeCommentsOf_eq_some_iff {line : String} :
    removeCommentsOf line = some line ↔ (CommentedLine.ofChars line.toList).tail = [] := by
  simp only [removeCommentsOf]
  constructor
  · intro h
    cases htail : (CommentedLine.ofChars line.toList).tail with
    | nil => rfl
    | cons x tail =>
      have hne : (CommentedLine.ofChars line.toList).tail ≠ [] := by simp [htail]
      simp only [htail, List.isEmpty_cons, Bool.false_eq_true, if_false] at h
      split at h
      · cases h
      · simp only [Option.some.injEq] at h
        have hlength := congrArg (fun s => s.toList.length) h
        have hle := length_codeAlone_le (CommentedLine.ofChars line.toList)
        have hlt := CommentedLine.length_codeWith_nil_lt hne
        simp only [String.toList_ofList] at hlength
        omega
  · intro h
    simp [h]

theorem removeComments_eq_self_iff {ls : Lines} :
    removeComments ls = ls ↔ ∀ l ∈ ls, (CommentedLine.ofChars l.toList).tail = [] := by
  simp only [removeComments, filterMap_eq_self_iff, removeCommentsOf_eq_some_iff]

end Rule

end PartProgram

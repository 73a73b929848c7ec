import PartProgram.Proofs.Numbering
import PartProgram.Rule.Normalize

/-!
# PartProgram.Proofs.Openings

Where a conversational program opens. The rules that number a program anew keep its opening, but a
line without any character in front of it gets a number as well and is no blank line any more: the
program does not begin with its opening then, and is not known for what it is.

* `isConversational_iff_opens`: a program is conversational if it opens after blank lines.
* `Renumbers.isConversational_iff`: when a rule keeps the opening.
-/

namespace PartProgram.Conversational

open Text

/-! ## Openings -/

/-- A program opens after some blank lines. -/
inductive Opens (front : List String) : List String → Prop where
  | intro {op : String} {rest : List String} (blank : ∀ l ∈ front, allBlank l.toList = true)
      (opening : isOpening op = true) : Opens front (front ++ op :: rest)

/-- The first character of a line behind its number. -/
def headOf (l : String) : Option Char := (trimLeft (dropNumber l.toList)).head?

theorem headOf_of_isOpening {l : String} (h : isOpening l = true) : headOf l = some 'B' := by
  simp only [isOpening, Bool.and_eq_true, List.isPrefixOf_iff_prefix] at h
  obtain ⟨rest, hrest⟩ := h.1
  rw [headOf, ← hrest]
  rfl

/-- An opening is known by the text behind its number. -/
theorem isOpening_congr {l m : String}
    (h : trimLeft (dropNumber l.toList) = trimLeft (dropNumber m.toList)) :
    isOpening l = isOpening m := by
  simp only [isOpening, h]

theorem headOf_of_allBlank {l : String} (h : allBlank l.toList = true) : headOf l = none := by
  obtain ⟨as, -, hl⟩ := dropNumber_spec l.toList
  have hnil : trimLeft (dropNumber l.toList) = [] := by
    refine List.dropWhile_eq_nil_iff.2 fun c hc => List.all_eq_true.1 h c ?_
    rw [hl]
    exact List.mem_append_right _ hc
  rw [headOf, hnil]
  rfl

theorem allBlank_of_isOpening {l : String} (h : isOpening l = true) :
    allBlank l.toList = false := by
  rw [Bool.eq_false_iff]
  intro hblank
  have hhead := headOf_of_isOpening h
  rw [headOf_of_allBlank hblank] at hhead
  cases hhead

theorem isConversational_of_opens {front ls : List String} (h : Opens front ls) :
    isConversational ls = true := by
  cases h with
  | intro blank opening =>
    have hfront : front.find? (fun line => !allBlank line.toList) = none :=
      List.find?_eq_none.2 fun l hl => by simp [blank l hl]
    rw [isConversational, List.find?_append, hfront,
      List.find?_cons_of_pos (by simp [allBlank_of_isOpening opening])]
    exact opening

theorem isConversational_iff_opens {ls : List String} :
    isConversational ls = true ↔ ∃ front, Opens front ls := by
  refine ⟨fun h => ?_, fun ⟨_, h⟩ => isConversational_of_opens h⟩
  obtain ⟨op, hop, hopening⟩ := (Option.any_eq_true _ _).1 h
  obtain ⟨-, front, rest, rfl, hfront⟩ := List.find?_eq_some_iff_append.1 hop
  exact ⟨front, .intro (fun l hl => by simpa using hfront l hl) hopening⟩

/-- The blank lines in front of the opening are those that the program begins with. -/
theorem Opens.front_eq {front ls : List String} (h : Opens front ls) :
    ls.takeWhile (fun l => allBlank l.toList) = front := by
  cases h with
  | intro blank opening =>
    rw [List.takeWhile_append_of_pos blank,
      List.takeWhile_cons_of_neg (by simp [allBlank_of_isOpening opening]), List.append_nil]

/-! ## Numbers -/

theorem isOpening_unnumbered {l : String} (h : isOpening l = true) :
    isOpening (unnumbered l) = true := by
  obtain ⟨rest, hrest⟩ := List.head?_eq_some_iff.1 (headOf_of_isOpening h)
  have hplain : dropNumber (dropNumber l.toList) = dropNumber l.toList := by
    refine dropNumber_of_noDigit ?_
    rw [hrest]
    simp only [NoDigitHead, List.head?_cons, Option.mem_def, Option.some.injEq, forall_eq']
    decide
  rw [← h]
  refine isOpening_congr ?_
  rw [unnumbered, String.toList_ofList, hplain]

theorem isOpening_number {l : String} (h : isOpening l = true) (n : Nat) :
    isOpening (toString n ++ " " ++ unnumbered l) = true := by
  obtain ⟨rest, hrest⟩ := List.head?_eq_some_iff.1 (headOf_of_isOpening h)
  rw [← h]
  refine isOpening_congr ?_
  rw [number_append, String.toList_ofList, List.append_assoc, List.singleton_append,
    dropNumber_number, unnumbered, String.toList_ofList, hrest, trimLeft_of_head rfl (by decide)]

/-- A blank line with any character goes on with the block before it. -/
theorem isContinuation_of_allBlank {l : String} (hblank : allBlank l.toList = true) (hne : l ≠ "") :
    isContinuation l = true := by
  rw [isContinuation, startsBlank]
  cases hl : l.toList with
  | nil => exact absurd (String.toList_eq_nil_iff.1 hl) hne
  | cons c cs =>
    rw [hl] at hblank
    simpa [allBlank] using (List.all_eq_true.1 hblank c (.head _))

theorem unnumbered_empty : unnumbered "" = "" := by decide

section

variable {front ls : List String}

theorem opens_dropNumbers (h : Opens front ls) : Opens front (dropNumbers ls) := by
  cases h with
  | @intro op rest blank opening =>
    have hfront : dropNumbers front = front := by
      conv => rhs; rw [← List.map_id front]
      refine List.map_congr_left fun l hl => ?_
      split
      · rfl
      · -- a blank line that is no continuation has no character in it
        rename_i hnew
        have hempty : l = "" := by
          by_contra hne
          exact hnew (isContinuation_of_allBlank (blank l hl) hne)
        rw [hempty]
        exact unnumbered_empty
    have hsplit : dropNumbers (front ++ op :: rest) =
        dropNumbers front ++ (if isContinuation op then op else unnumbered op) ::
          dropNumbers rest := List.map_append
    rw [hsplit, hfront]
    refine .intro blank ?_
    split
    · exact opening
    · exact isOpening_unnumbered opening

theorem numberFrom_append_of_continuation (h : ∀ l ∈ front, isContinuation l = true) (n : Nat) :
    numberFrom n (front ++ ls) = front ++ numberFrom n ls := by
  induction front with
  | nil => rfl
  | cons l front ih =>
    rw [List.cons_append, numberFrom, if_pos (h l (.head _)), ih fun l' hl' => h l' (.tail _ hl')]
    rfl

/-- Blank lines keep the opening where they have characters in them. -/
theorem opens_renumber (h : Opens front ls) (hne : "" ∉ front) : Opens front (renumber ls) := by
  cases h with
  | @intro op rest blank opening =>
    have hfront : ∀ l ∈ front, isContinuation l = true := by
      intro l hl
      refine isContinuation_of_allBlank (blank l hl) ?_
      rintro rfl
      exact hne hl
    rw [renumber, numberFrom_append_of_continuation hfront, numberFrom]
    split
    · exact .intro blank opening
    · exact .intro blank (isOpening_number opening 0)

/-- A line without characters gets a number, and the program begins with it. -/
theorem not_isConversational_renumber (h : Opens front ls) (hmem : "" ∈ front) :
    isConversational (renumber ls) = false := by
  cases h with
  | @intro op rest blank opening =>
    obtain ⟨before, after, rfl, hbefore⟩ := List.eq_append_cons_of_mem hmem
    have hfront : ∀ l ∈ before, isContinuation l = true := by
      intro l hl
      refine isContinuation_of_allBlank (blank l (List.mem_append_left _ hl)) ?_
      rintro rfl
      exact hbefore hl
    have hblank : before.find? (fun line => !allBlank line.toList) = none :=
      List.find?_eq_none.2 fun l hl => by simp [blank l (List.mem_append_left _ hl)]
    have hnew : isContinuation "" = false := by decide
    have hnumber : allBlank ("0 " : String).toList = false ∧ isOpening "0 " = false := by decide
    rw [renumber, List.append_assoc, numberFrom_append_of_continuation hfront, List.cons_append,
      numberFrom, hnew, if_neg Bool.false_ne_true, unnumbered_empty, isConversational,
      List.find?_append, hblank]
    have hfirst : toString 0 ++ " " ++ "" = "0 " := rfl
    rw [hfirst, List.find?_cons_of_pos (by rw [hnumber.1]; rfl)]
    exact hnumber.2

end

/-! ## Lines in front -/

/-- No line up to the opening begins with the letter of another block. -/
theorem headOf_front {front : List String} {op l : String}
    (blank : ∀ l ∈ front, allBlank l.toList = true) (opening : isOpening op = true)
    (hl : l ∈ front ++ [op]) : headOf l = none ∨ headOf l = some 'B' := by
  rcases List.mem_append.1 hl with hl | hl
  · exact .inl (headOf_of_allBlank (blank l hl))
  · rw [List.mem_singleton.1 hl]
    exact .inr (headOf_of_isOpening opening)

theorem headOf_of_opensDefinition {l : String} (h : opensDefinition l = true) :
    headOf l = some 'C' := by
  simp only [opensDefinition, Bool.and_eq_true, List.isPrefixOf_iff_prefix] at h
  obtain ⟨rest, hrest⟩ := h.1.2
  rw [headOf, ← hrest]
  exact congrArg List.head? (trimLeft_of_head (c := 'C') rfl (by decide))

theorem headOf_of_beginsWith {mark l : String} {c : Char} {cs : List Char}
    (hmark : mark.toList = c :: cs) (hblank : isBlank c = false) (hdigit : isDigit c = false)
    (h : Rule.beginsWith mark l = true) : headOf l = some c := by
  rw [Rule.beginsWith, List.isPrefixOf_iff_prefix] at h
  obtain ⟨rest, hrest⟩ := h
  rw [hmark, List.cons_append] at hrest
  rw [headOf, ← hrest, dropNumber_of_letter hblank hdigit, trimLeft_of_head rfl hblank]
  rfl

theorem Part.ofLines_cons {text : String} (h : opensDefinition text = false) (rest : List String) :
    ofLines (text :: rest) = line text :: ofLines rest := by
  simp only [ofLines, split, h, Bool.false_eq_true, if_false]
  split <;> rfl

theorem Part.ofLines_append {front : List String} (h : ∀ l ∈ front, opensDefinition l = false)
    (rest : List String) : ofLines (front ++ rest) = front.map line ++ ofLines rest := by
  induction front with
  | nil => rfl
  | cons l front ih =>
    rw [List.cons_append, ofLines_cons (h l (.head _)), ih fun l' hl' => h l' (.tail _ hl')]
    rfl

theorem Part.dropRepeated_append (active : Option Part) (front : List String) (parts : List Part) :
    dropRepeated active (front.map line ++ parts) =
      front.map line ++ dropRepeated active parts := by
  induction front with
  | nil => rfl
  | cons l front ih => simp [dropRepeated, ih]

theorem insertAt_append {α : Type} {place : Nat} {front : List α} (h : front.length ≤ place)
    (new as : List α) :
    insertAt place new (front ++ as) = front ++ insertAt (place - front.length) new as := by
  simp [insertAt, List.take_append, List.drop_append, List.take_of_length_le h,
    List.drop_eq_nil_of_le h]

theorem lastIndex?_spec {α : Type} {isKind : α → Bool} {as : List α} {n : Nat}
    (h : lastIndex? isKind as = some n) : ∃ a, as[n]? = some a ∧ isKind a = true := by
  induction as generalizing n with
  | nil => cases h
  | cons a as ih =>
    simp only [lastIndex?] at h
    split at h
    · rename_i m hm
      cases h
      simpa using ih hm
    · split at h
      · cases h
        exact ⟨a, rfl, by assumption⟩
      · cases h

theorem length_le_of_getElem? {α : Type} {isKind : α → Bool} {front as : List α} {n : Nat} {a : α}
    (hfront : ∀ b ∈ front, isKind b = false) (h : (front ++ as)[n]? = some a)
    (ha : isKind a = true) : front.length ≤ n := by
  by_contra hlt
  rw [List.getElem?_append_left (by omega)] at h
  rw [hfront a (List.mem_of_getElem? h)] at ha
  cases ha

/-! ## Rules -/

/-- A rule leaves lines alone, or numbers lines anew that open as they did. -/
def Renumbers (ls ls' : List String) : Prop :=
  ls' = ls ∨ ∃ plain, ls' = renumber plain ∧ ∀ front, Opens front ls → Opens front plain

section

variable {front ls mid ls' : List String}

theorem renumbers_functionBlocks (ls : List String) : Renumbers ls (Rule.functionBlocks ls) := by
  rw [Rule.functionBlocks]
  split
  · exact .inl rfl
  · simp only
    split
    · exact .inl rfl
    · refine .inr ⟨_, rfl, fun front h => ?_⟩
      have hplain := opens_dropNumbers h
      generalize dropNumbers ls = plain at hplain
      cases hplain with
      | @intro op rest blank opening =>
        -- up to the opening no definition begins, so nothing there is taken for a repetition
        have hlines : ∀ l ∈ front ++ [op], opensDefinition l = false := by
          intro l hl
          rw [Bool.eq_false_iff]
          intro hdefinition
          have hhead := headOf_front blank opening hl
          rw [headOf_of_opensDefinition hdefinition] at hhead
          simp at hhead
        have hkept : ∀ ls : List String, (ls.map Part.line).flatMap Part.lines = ls := by
          intro ls
          simp [List.flatMap_map, Part.lines]
        have hsplit : front ++ op :: rest = (front ++ [op]) ++ rest := by simp
        rw [hsplit, Part.ofLines_append hlines, Part.dropRepeated_append, List.flatMap_append,
          hkept, List.append_assoc, List.singleton_append]
        exact .intro blank opening

theorem renumbers_tcpm (h : (Rule.tcpm ls).result = .ok ls') : Renumbers ls ls' := by
  simp only [Rule.tcpm] at h
  split at h
  · exact .inl (Told.result_pure_eq_ok.1 h).symm
  · split at h
    · rename_i tool finish htool hfinish
      refine .inr ⟨_, (Told.result_pure_eq_ok.1 h).symm, fun front hopens => ?_⟩
      have hplain := opens_dropNumbers hopens
      generalize dropNumbers ls = plain at hplain htool hfinish
      cases hplain with
      | @intro op rest blank opening =>
        -- both lines go in front of a block of another kind, so behind the opening
        have hbefore : ∀ {mark : String} {c : Char} {cs : List Char}, mark.toList = c :: cs →
            isBlank c = false → isDigit c = false → c ≠ 'B' →
              ∀ l ∈ front ++ [op], Rule.beginsWith mark l = false := by
          intro mark c cs hmark hblank hdigit hc l hl
          rw [Bool.eq_false_iff]
          intro hbegins
          have hhead := headOf_front blank opening hl
          rw [headOf_of_beginsWith hmark hblank hdigit hbegins] at hhead
          simp [hc] at hhead
        have hsplit : front ++ op :: rest = (front ++ [op]) ++ rest := by simp
        rw [hsplit] at htool hfinish ⊢
        obtain ⟨a, ha, haKind⟩ := lastIndex?_spec hfinish
        have hnoClosing : ∀ l ∈ front ++ [op], Rule.beginsWith closing l = false :=
          hbefore rfl (by decide) (by decide) (by decide)
        have hnoCall : ∀ l ∈ front ++ [op], Rule.beginsWith toolCall l = false :=
          hbefore rfl (by decide) (by decide) (by decide)
        have hfinish : (front ++ [op]).length ≤ finish := length_le_of_getElem? hnoClosing ha haKind
        obtain ⟨hlt, hbegins, -⟩ := List.findIdx?_eq_some_iff_getElem.1 htool
        have htool : (front ++ [op]).length ≤ tool :=
          length_le_of_getElem? hnoCall (List.getElem?_eq_getElem hlt) hbegins
        rw [insertAt_append hfinish, insertAt_append (by omega), List.append_assoc,
          List.singleton_append]
        exact .intro blank opening
    · rw [Told.result_bind_eq_ok] at h
      obtain ⟨_, -, h⟩ := h
      exact .inl (Told.result_pure_eq_ok.1 h).symm

theorem Renumbers.opens (h : Renumbers ls ls') (hopens : Opens front ls) (hne : "" ∉ front) :
    Opens front ls' := by
  rcases h with rfl | ⟨plain, rfl, hplain⟩
  · exact hopens
  · exact opens_renumber (hplain front hopens) hne

theorem Renumbers.not_isConversational (h : Renumbers ls ls') (hopens : Opens front ls)
    (hmem : "" ∈ front) (hne : ls' ≠ ls) : isConversational ls' = false := by
  rcases h with rfl | ⟨plain, rfl, hplain⟩
  · exact absurd rfl hne
  · exact not_isConversational_renumber (hplain front hopens) hmem

/-- Two such rules in a row lose the opening exactly where a line without characters stands in front
of it and the lines are numbered anew at all. -/
theorem Renumbers.isConversational_iff (h : Renumbers ls mid) (h' : Renumbers mid ls')
    (hleft : isConversational mid = false → ls' = mid) (hopens : Opens front ls) :
    isConversational ls' = false ↔ "" ∈ front ∧ ls' ≠ ls := by
  by_cases hmem : "" ∈ front
  · have hls := isConversational_of_opens hopens
    simp only [hmem, true_and]
    constructor
    · rintro hlost rfl
      rw [hls] at hlost
      cases hlost
    · intro hne
      by_cases hmid : mid = ls
      · rw [hmid] at h'
        exact h'.not_isConversational hopens hmem hne
      · have hlost := h.not_isConversational hopens hmem hmid
        rw [hleft hlost]
        exact hlost
  · simp only [hmem, false_and, iff_false, Bool.not_eq_false]
    exact isConversational_of_opens (h'.opens (h.opens hopens hmem) hmem)

/-- Blank lines go, and the opening is the first line. -/
theorem opens_removeEmptyLines (hopens : Opens front ls) : Opens [] (Rule.removeEmptyLines ls) := by
  cases hopens with
  | @intro op rest blank opening =>
    have hfront : front.filter (fun l => !allBlank l.toList) = [] :=
      List.filter_eq_nil_iff.2 fun l hl => by simp [blank l hl]
    rw [Rule.removeEmptyLines, List.filter_append, hfront,
      List.filter_cons_of_pos (by simp [allBlank_of_isOpening opening])]
    exact .intro (by simp) opening

theorem empty_not_mem_numberFrom (n : Nat) (ls : List String) : "" ∉ numberFrom n ls := by
  induction ls generalizing n with
  | nil => simp [numberFrom]
  | cons l ls ih =>
    rw [numberFrom]
    split
    · rename_i hcontinued
      have hl : "" ≠ l := by
        rintro rfl
        exact absurd hcontinued (by decide)
      simp [hl, ih]
    · have hl : "" ≠ toString n ++ " " ++ unnumbered l := by
        intro heq
        have hchars := congrArg String.toList heq
        simp at hchars
      simp only [List.mem_cons, not_or]
      exact ⟨hl, ih (n + 1)⟩

/-- A program that was converted has no line without characters in front of its opening. -/
theorem opens_of_convert {job : Job} (h : (convert job ls).result = .ok ls') :
    ∃ front, Opens front ls' ∧ "" ∉ front := by
  obtain ⟨front, hopens⟩ := isConversational_iff_opens.1 (isConversational_of_convert h)
  refine ⟨front, hopens, fun hmem => ?_⟩
  rw [convert, Told.result_bind_eq_ok] at h
  obtain ⟨entries, -, h⟩ := h
  rw [Told.result_pure_eq_ok] at h
  refine empty_not_mem_numberFrom 0 (entries.flatMap Entry.lines) ?_
  rw [← renumber, h]
  cases hopens with
  | intro => exact List.mem_append_left _ hmem

end

end PartProgram.Conversational

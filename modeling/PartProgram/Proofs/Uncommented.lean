import PartProgram.Proofs.Gaps
import PartProgram.Proofs.Spelling

/-!
# PartProgram.Proofs.Uncommented

What is left of a line without its comments. The comments are closed up, where a control that reads
the line sees a blank for each of them; the two readings agree unless a number goes on behind a
comment, as in `X1(A)0`, or a comment parts the letter of a block number from its digits.

* `contentOf_closedCode`: closed up or not, the code reads the same where no comment parts a number.
* `Rule.removeComments_uncommented`: what becomes of each line.
-/

namespace PartProgram

open Text

/-! ## Characters that are not blank -/

/-- A text without its blanks. -/
def inked (cs : List Char) : List Char := cs.filter (!isBlank ·)

theorem inked_append (cs ds : List Char) : inked (cs ++ ds) = inked cs ++ inked ds :=
  List.filter_append cs ds

theorem inked_of_blank {as : List Char} (h : ∀ c ∈ as, isBlank c = true) : inked as = [] :=
  List.filter_eq_nil_iff.2 fun c hc => by simp [h c hc]

theorem inked_eq_nil_iff {cs : List Char} : inked cs = [] ↔ allBlank cs = true := by
  simp [inked, allBlank]

theorem inked_trimLeft (cs : List Char) : inked (trimLeft cs) = inked cs := by
  obtain ⟨as, has, hsplit⟩ := exists_blank_append cs
  conv => rhs; rw [hsplit, inked_append, inked_of_blank has, List.nil_append]

theorem inked_trim (cs : List Char) : inked (trim cs) = inked cs := by
  obtain ⟨as, has, hright⟩ := eq_trimRight_append (trimLeft cs)
  conv => rhs; rw [← inked_trimLeft, hright, inked_append, inked_of_blank has, List.append_nil]
  rfl

theorem saysNothing_iff {code : List Char} :
    SaysNothing code ↔ inked code = [] ∨ inked code = ['%'] := by
  refine or_congr (trim_eq_nil_iff.trans inked_eq_nil_iff.symm) ?_
  rw [trim_eq_singleton_iff (by decide), ← inked_trimLeft]
  cases hcut : trimLeft code with
  | nil => simp [inked]
  | cons c rest =>
    have hblank : isBlank c = false := head_dropWhile_isBlank code (by rw [← trimLeft, hcut]; rfl)
    have hcons : inked (c :: rest) = c :: inked rest := List.filter_cons_of_pos (by simp [hblank])
    rw [hcons, List.cons.injEq, inked_eq_nil_iff]
    simp [and_assoc]

instance (code : List Char) : Decidable (SaysNothing code) :=
  inferInstanceAs (Decidable (_ ∨ _))

/-! ## Text without comments -/

/-- No comment begins anywhere in a text. -/
def Bare (cs : List Char) : Prop := ';' ∉ cs ∧ cs.Pairwise fun c d => c = '(' → d ≠ ')'

theorem bare_inked {cs : List Char} : Bare (inked cs) ↔ Bare cs := by
  refine and_congr (not_congr ?_) ?_
  · rw [inked, List.mem_filter]
    exact and_iff_left (by decide)
  · rw [inked, List.pairwise_filter]
    refine List.Pairwise.iff fun c d => ⟨fun h hc hd => ?_, fun h _ _ => h⟩
    subst hc hd
    exact h (by decide) (by decide) rfl rfl

/-- A bracket opens a comment in a line exactly if it is closed further on. -/
theorem bracketText?_eq_none {cs : List Char} (hfeed : '\n' ∉ cs) :
    Comment.bracketText? cs = none ↔ ')' ∉ cs := by
  induction cs with
  | nil => simp [Comment.bracketText?]
  | cons c cs ih =>
    simp only [List.mem_cons, not_or] at hfeed ⊢
    rw [Comment.bracketText?]
    split
    · rename_i hc
      simp [hc]
    · rename_i hc
      simp [Ne.symm hfeed.1, Ne.symm hc, ih hfeed.2]

namespace CommentedLine

theorem ofChars_of_bare {cs : List Char} (hfeed : '\n' ∉ cs) (h : Bare cs) :
    ofChars cs = ⟨cs, []⟩ := by
  induction cs with
  | nil => rfl
  | cons c cs ih =>
    obtain ⟨hmark, hpair⟩ := h
    simp only [List.mem_cons, not_or] at hmark hfeed
    rw [List.pairwise_cons] at hpair
    have hnone : Comment.recognise none (c :: cs) = none := by
      by_cases hc : c = '('
      · have hclose : ')' ∉ cs := fun hmem => hpair.1 _ hmem hc rfl
        simp [Comment.recognise, hc, (bracketText?_eq_none hfeed.2).2 hclose]
      · simp [Comment.recognise, hc, Ne.symm hmark.1]
    rw [ofChars_cons_of_none hnone, ih hfeed.2 ⟨hmark.2, hpair.2⟩]
    rfl

theorem codeWith_prepend_code (gap : List Char) (c : Char) (l : CommentedLine) :
    (prepend (.inl c) l).codeWith gap = c :: l.codeWith gap := rfl

theorem codeWith_prepend_comment (gap : List Char) (k : Comment) (l : CommentedLine) :
    (prepend (.inr k) l).codeWith gap = gap ++ l.codeWith gap := by
  simp [prepend, codeWith]

/-- The code that is left when the comments are closed up has no comment. -/
theorem bare_codeWith_nil {cs : List Char} (hfeed : '\n' ∉ cs) :
    Bare ((ofChars cs).codeWith []) := by
  induction hn : cs.length using Nat.strongRecOn generalizing cs with
  | ind n ih =>
    subst hn
    cases cs with
    | nil => exact ⟨by simp [ofChars, scan, scanFrom, codeWith], .nil⟩
    | cons c cs =>
      rcases ofChars_cases c cs with ⟨hnone, heq⟩ | ⟨k, rest, hcs, hle, -, heq⟩
      · simp only [List.mem_cons, not_or] at hfeed
        obtain ⟨hmark, hpair⟩ := ih cs.length (by simp) hfeed.2 rfl
        rw [heq, codeWith_prepend_code]
        constructor
        · simp only [List.mem_cons, not_or]
          refine ⟨?_, hmark⟩
          rintro rfl
          simp [Comment.recognise, trailingText?_of_no_feed hfeed.2] at hnone
        · refine List.pairwise_cons.2 ⟨?_, hpair⟩
          rintro d hd rfl rfl
          have hmem : ')' ∈ cs := by
            rcases mem_codeWith hd with h | h
            · cases h
            · rwa [mapCode_ofChars] at h
          simp only [Comment.recognise, if_true, Option.map_eq_none_iff] at hnone
          exact (bracketText?_eq_none hfeed.2).1 hnone hmem
      · have hrest : '\n' ∉ rest := by
          intro hmem
          rw [hcs] at hfeed
          exact hfeed (List.mem_append_right _ hmem)
        rw [heq, codeWith_prepend_comment]
        exact ih rest.length (by rw [List.length_cons]; omega) hrest rfl

end CommentedLine

/-! ## Gaps left by comments -/

namespace Rule

/-- Text with its gaps narrowed begins with the same character, or with a blank for a gap. -/
theorem replaceGaps_cases {least : Nat} (hleast : 1 ≤ least) (c : Char) (cs : List Char) :
    replaceAll (recogniseGap least) (c :: cs) = c :: replaceAll (recogniseGap least) cs ∨
      isGap c = true ∧ replaceAll (recogniseGap least) (c :: cs) =
        ' ' :: replaceAll (recogniseGap least) (cs.dropWhile isGap) := by
  cases hfound : recogniseGap least none (c :: cs) with
  | none =>
    refine .inl ?_
    simp only [replaceAll, scan, scanFrom, hfound, List.flatMap_cons,
      scanFrom_recogniseGap least (some c) none 0 cs, List.drop_zero]
    rfl
  | some found =>
    obtain ⟨new, n⟩ := found
    have hfound' := hfound
    simp only [recogniseGap] at hfound'
    split at hfound'
    · rename_i hle
      cases hfound'
      have hc : isGap c = true := by
        by_contra hc
        simp [hc] at hle
        omega
      refine .inr ⟨hc, ?_⟩
      simp only [List.takeWhile_cons_of_pos hc, List.length_cons] at hfound
      simp only [replaceAll, scan, scanFrom, hfound, List.flatMap_cons, Nat.add_sub_cancel]
      rw [scanFrom_recogniseGap least (some c) none, drop_length_takeWhile]
      rfl
    · cases hfound'

/-- A text and the same with its gaps narrowed: each character stays, or a gap becomes one blank. -/
inductive Narrowed : List Char → List Char → Prop where
  | nil : Narrowed [] []
  | char (c : Char) {cs ds : List Char} : Narrowed cs ds → Narrowed (c :: cs) (c :: ds)
  | gap {c : Char} {cs ds : List Char} : isGap c = true → Narrowed (cs.dropWhile isGap) ds →
      Narrowed (c :: cs) (' ' :: ds)

theorem narrowed_replaceGaps {least : Nat} (hleast : 1 ≤ least) (cs : List Char) :
    Narrowed cs (replaceAll (recogniseGap least) cs) := by
  induction hn : cs.length using Nat.strongRecOn generalizing cs with
  | ind n ih =>
    subst hn
    cases cs with
    | nil => exact .nil
    | cons c cs =>
      rcases replaceGaps_cases hleast c cs with heq | ⟨hc, heq⟩
      · rw [heq]
        exact .char c (ih cs.length (by simp) cs rfl)
      · have hdrop := (List.dropWhile_sublist isGap (l := cs)).length_le
        rw [heq]
        exact .gap hc (ih _ (by rw [List.length_cons]; omega) _ rfl)

theorem isBlank_of_isGap {c : Char} (h : isGap c = true) : isBlank c = true := by
  simp only [isGap, Bool.or_eq_true, decide_eq_true_eq] at h
  rcases h with rfl | rfl <;> decide

theorem trimLeft_dropWhile_isGap (cs : List Char) :
    trimLeft (cs.dropWhile isGap) = trimLeft cs := by
  have hgaps : ∀ c ∈ cs.takeWhile isGap, isBlank c = true := fun c hc =>
    isBlank_of_isGap (List.all_eq_true.1 List.all_takeWhile c hc)
  conv => rhs; rw [← List.takeWhile_append_dropWhile (p := isGap) (l := cs)]
  rw [trimLeft_append_of_blank hgaps]

namespace Narrowed

variable {cs ds : List Char}

theorem mem (h : Narrowed cs ds) {d : Char} (hd : d ∈ ds) : d = ' ' ∨ d ∈ cs := by
  induction h with
  | nil => cases hd
  | char c _ ih =>
    rcases List.mem_cons.1 hd with rfl | hd
    · exact .inr (.head _)
    · exact (ih hd).imp_right (List.mem_cons_of_mem c)
  | @gap c cs ds _ _ ih =>
    rcases List.mem_cons.1 hd with rfl | hd
    · exact .inl rfl
    · exact (ih hd).imp_right fun h => List.mem_cons_of_mem c (List.dropWhile_subset _ h)

theorem inked (h : Narrowed cs ds) : inked ds = inked cs := by
  have hcons : ∀ c cs, PartProgram.inked (c :: cs) =
      PartProgram.inked [c] ++ PartProgram.inked cs := fun c cs => inked_append [c] cs
  induction h with
  | nil => rfl
  | @char c cs ds _ ih => rw [hcons c ds, hcons c cs, ih]
  | @gap c cs ds hc _ ih =>
    have hrest : PartProgram.inked (cs.dropWhile isGap) = PartProgram.inked cs := by
      rw [← inked_trimLeft, trimLeft_dropWhile_isGap, inked_trimLeft]
    have hblank : PartProgram.inked [c] = [] :=
      inked_of_blank (by simpa using isBlank_of_isGap hc)
    rw [hcons ' ' ds, hcons c cs, ih, hrest, hblank]
    rfl

/-- Narrower gaps are not read. -/
theorem contentOf (h : Narrowed cs ds) (before : List Char) :
    contentOf (before ++ ds) = contentOf (before ++ cs) := by
  induction h generalizing before with
  | nil => rfl
  | char c _ ih => simpa using ih (before ++ [c])
  | @gap c cs ds hc _ ih =>
    have hrest := ih (before ++ [' '])
    have hblank := isBlank_of_isGap hc
    have hspace : isBlank ' ' = true := by decide
    have hgap : IsGap before (' ' :: cs.dropWhile isGap) (c :: cs) := by
      refine isGap_of_blank ?_ (by simp [hspace]) (by simp [hblank])
      have htrim := trimLeft_dropWhile_isGap cs
      simp only [trimLeft] at htrim ⊢
      rw [List.dropWhile_cons_of_pos hspace, List.dropWhile_cons_of_pos hblank, htrim]
    rw [List.append_assoc, List.append_assoc, List.singleton_append,
      List.singleton_append] at hrest
    rw [hrest, contentOf_gap hgap]

end Narrowed

end Rule

/-! ## Code closed up -/

/-- The code of a line without anything in the place of its comments. -/
def closedCode (cs : List Char) : List Char := (CommentedLine.ofChars cs).codeWith []

/-- Two texts put together run on in a number, or in the digits of a block number. -/
def runsOn (before code : List Char) : Bool :=
  (before.getLast?.any isNumberChar && code.head?.any fun c => isDigit c || c = '.') ||
    ((trimLeft before).map Char.toUpper = ['N'] && code.head?.any isDigit)

/-- A comment parts a number, or a block number from its letter, once those before it are closed
up. -/
def partsNumber (before : List Char) : List (Comment × List Char) → Bool
  | [] => false
  | (_, code) :: tail => runsOn before code || partsNumber (before ++ code) tail

/-- Where a comment does not part a number, it leaves a gap. -/
theorem isGap_of_runsOn {before code rest : List Char} (h : runsOn before code = false)
    (hne : before ≠ []) (hrest : ∀ c ∈ rest.head?, c = ' ') :
    IsGap before (' ' :: (code ++ rest)) (code ++ rest) := by
  simp only [runsOn, Bool.or_eq_false_iff, Bool.and_eq_false_iff, decide_eq_false_iff_not] at h
  obtain ⟨hnumber, hblock⟩ := h
  have hspace : isBlank ' ' = true ∧ isDigit ' ' = false := by decide
  have hends : EndsNumeral rest := by
    cases rest with
    | nil => exact endsNumeral_nil
    | cons c rest =>
      rw [hrest c rfl]
      exact endsNumeral_cons hspace.2 (by decide)
  refine ⟨by simp [trimLeft, hspace.1], .inl (endsNumeral_cons hspace.2 (by decide)), ?_, ?_⟩
  · cases code with
    | nil => exact .inl hends
    | cons d ds =>
      rcases hnumber with hlast | hhead
      · have hlast' : isNumberChar (before.getLast hne) = false := by
          simpa [List.getLast?_eq_some_getLast hne] using hlast
        exact .inr ⟨_, List.getLast?_eq_some_getLast hne, hlast'⟩
      · simp only [List.head?_cons, Option.any_some, Bool.or_eq_false_iff,
          decide_eq_false_iff_not] at hhead
        exact .inl (endsNumeral_cons hhead.1 hhead.2)
  · intro c hc hletter
    refine ⟨by simp [NoDigitHead, hspace.2], ?_⟩
    have hhead := hblock.resolve_left (by simp [hc, hletter])
    cases code with
    | nil => exact hends.1
    | cons d ds => simpa [NoDigitHead] using hhead

/-- Closed up or not, the code reads the same where no comment parts a number. -/
theorem contentOf_codeWith {head : List Char} {tail : List (Comment × List Char)}
    (h : partsNumber head tail = false) :
    contentOf (CommentedLine.codeWith [] ⟨head, tail⟩) =
      contentOf (CommentedLine.codeWith [' '] ⟨head, tail⟩) := by
  induction tail generalizing head with
  | nil => rfl
  | cons x tail ih =>
    obtain ⟨k, code⟩ := x
    rw [partsNumber, Bool.or_eq_false_iff] at h
    have hrest := ih h.2
    simp only [CommentedLine.codeWith, List.flatMap_cons, List.nil_append, List.append_assoc,
      List.singleton_append] at hrest ⊢
    rw [hrest]
    by_cases hne : head = []
    · -- there is no character that a number could go on behind
      subst hne
      rw [List.nil_append, List.nil_append, List.cons_append, ← contentOf_trimLeft,
        ← contentOf_trimLeft (' ' :: _)]
      rfl
    · refine (contentOf_gap (isGap_of_runsOn h.1 hne ?_)).symm
      cases tail <;> simp

/-! ## Lines -/

/-- Blanks at the end of a line are blanks at the end of its code. -/
theorem trim_codeOf_append {cs as : List Char} (has : ∀ c ∈ as, isBlank c = true)
    (hfeed : '\n' ∉ cs ++ as) : trim (codeOf (cs ++ as)) = trim (codeOf cs) := by
  obtain ⟨bs, hbs, heq⟩ : ∃ bs, (∀ c ∈ bs, isBlank c = true) ∧
      codeOf (cs ++ as) = codeOf cs ++ bs := by
    induction hn : cs.length using Nat.strongRecOn generalizing cs with
    | ind n ih =>
      subst hn
      cases cs with
      | nil =>
        refine ⟨as, has, ?_⟩
        rw [List.nil_append, codeOf, CommentedLine.ofChars_of_blank has]
        simp [CommentedLine.codeWith, codeOf_nil]
      | cons c cs =>
        rcases CommentedLine.ofChars_append_cases has c cs with ⟨heq, heq'⟩ |
          ⟨k, rest, hle, hcs, heq, heq'⟩ | ⟨t, rest, rfl, -, hcs, hrest, heq⟩
        · obtain ⟨bs, hbs, hcode⟩ := ih cs.length (by simp)
            (fun hmem => hfeed (List.mem_cons_of_mem c hmem)) rfl
          rw [codeOf, codeOf] at hcode
          refine ⟨bs, hbs, ?_⟩
          rw [List.cons_append, codeOf, codeOf, heq, heq', CommentedLine.codeWith_prepend_code,
            CommentedLine.codeWith_prepend_code, hcode, List.cons_append]
        · have hrest : '\n' ∉ rest ++ as := by
            intro hmem
            rw [hcs, List.append_assoc] at hfeed
            exact hfeed (List.mem_append_right _ hmem)
          obtain ⟨bs, hbs, hcode⟩ := ih rest.length (by rw [List.length_cons]; omega) hrest rfl
          rw [codeOf, codeOf] at hcode
          refine ⟨bs, hbs, ?_⟩
          rw [List.cons_append, codeOf, codeOf, heq, heq', CommentedLine.codeWith_prepend_comment,
            CommentedLine.codeWith_prepend_comment, hcode, List.append_assoc]
        · have hline : '\n' ∉ cs ++ as := fun hmem => hfeed (List.mem_cons_of_mem _ hmem)
          refine ⟨[], by simp, ?_⟩
          rw [List.cons_append, codeOf_semicolon hline,
            codeOf_semicolon fun hmem => hline (List.mem_append_left _ hmem), List.append_nil]
  rw [heq, CommentedLine.trim_append_of_blank hbs]

namespace Block

/-- The block number, the corner and the words of a block. -/
def content (b : Block) : Option Nat × Option Corner × List Word := (b.number, b.corner, b.words)

/-- What is read from a line is read from its code; the end of the line does not matter. -/
theorem content_read? {l : String} (hfeed : '\n' ∉ l.toList) (n : Int) :
    (read? l n).map content =
      if SaysNothing (codeOf l.toList) then none else some (contentOf (codeOf l.toList)) := by
  obtain ⟨as, has, hsplit⟩ := eq_dropLineEnd_append l.toList
  have htrim : trim (codeOf l.toList) = trim (codeOf (dropLineEnd l.toList)) := by
    conv => lhs; rw [hsplit]
    exact trim_codeOf_append has (by rwa [← hsplit])
  have hnothing : SaysNothing (codeOf l.toList) ↔ SaysNothing (codeOf (dropLineEnd l.toList)) := by
    rw [SaysNothing, SaysNothing, htrim]
  split
  · rename_i h
    rw [read?_of_saysNothing (hnothing.1 h)]
    rfl
  · rename_i h
    rw [← contentOf_trim, htrim]
    simp only [read?, code?_eq_some (hnothing.not.1 h), Option.map_some, content, contentOf]

end Block

namespace Rule

/-- What becomes of a line when its comments go. -/
structure Uncommented (line : String) (left : Option String) : Prop where
  /-- A line goes exactly if it has comments and no code. -/
  dropped : left = none ↔ (CommentedLine.ofChars line.toList).tail ≠ [] ∧
    allBlank (codeOf line.toList) = true
  /-- A line without comments stays as it is. -/
  kept : (CommentedLine.ofChars line.toList).tail = [] → left = some line
  /-- No comment is left. -/
  bare : ∀ l ∈ left, (CommentedLine.ofChars l.toList).tail = []
  /-- The line that is left reads as the code with the comments closed up. -/
  reads : ∀ l ∈ left, ∀ n, (Block.read? l n).map Block.content =
    if SaysNothing (codeOf line.toList) then none else some (contentOf (closedCode line.toList))
  /-- The line that is left reads as the line, unless a comment parts a number. -/
  same : partsNumber (CommentedLine.ofChars line.toList).head
      (CommentedLine.ofChars line.toList).tail = false →
    ∀ l ∈ left, ∀ n, (Block.read? l n).map Block.content = (Block.read? line n).map Block.content

theorem inked_closedCode (cs : List Char) : inked (closedCode cs) = inked (codeOf cs) := by
  have hspace : isBlank ' ' = true := by decide
  simp [closedCode, codeOf, CommentedLine.codeWith, inked, List.filter_flatMap, hspace]

theorem inked_codeAlone (cs : List Char) :
    inked (codeAlone (CommentedLine.ofChars cs)) = inked (codeOf cs) := by
  rw [codeAlone, inked_trim, (narrowed_replaceGaps (by decide) _).inked, ← closedCode,
    inked_closedCode]

theorem feed_not_mem_codeAlone {cs : List Char} (hfeed : '\n' ∉ cs) :
    '\n' ∉ codeAlone (CommentedLine.ofChars cs) := by
  refine feed_not_mem_trim fun hmem => ?_
  rcases (narrowed_replaceGaps (by decide) _).mem hmem with h | h
  · cases h
  · rcases CommentedLine.mem_codeWith h with h | h
    · cases h
    · rw [CommentedLine.mapCode_ofChars] at h
      exact hfeed h

theorem contentOf_codeAlone (cs : List Char) :
    contentOf (codeAlone (CommentedLine.ofChars cs)) = contentOf (closedCode cs) := by
  rw [codeAlone, contentOf_trim]
  exact (narrowed_replaceGaps (by decide) _).contentOf []

theorem codeOf_of_bare {cs : List Char} (hfeed : '\n' ∉ cs) (h : Bare cs) : codeOf cs = cs := by
  rw [codeOf, CommentedLine.ofChars_of_bare hfeed h]
  exact List.append_nil cs

theorem bare_codeAlone {cs : List Char} (hfeed : '\n' ∉ cs) :
    Bare (codeAlone (CommentedLine.ofChars cs)) := by
  rw [← bare_inked, inked_codeAlone, ← inked_closedCode, bare_inked]
  exact CommentedLine.bare_codeWith_nil hfeed

theorem codeAlone_eq_nil_iff {cs : List Char} :
    codeAlone (CommentedLine.ofChars cs) = [] ↔ allBlank (codeOf cs) = true := by
  rw [codeAlone, trim_eq_nil_iff, ← inked_eq_nil_iff, (narrowed_replaceGaps (by decide) _).inked,
    ← closedCode, inked_closedCode, inked_eq_nil_iff]

/-- The line that is left reads as the code with the comments closed up. -/
theorem content_read?_left {line l : String} (hfeed : '\n' ∉ line.toList)
    (hl : removeCommentsOf line = some l) (n : Int) :
    (Block.read? l n).map Block.content =
      if SaysNothing (codeOf line.toList) then none
      else some (contentOf (closedCode line.toList)) := by
  simp only [removeCommentsOf] at hl
  split at hl
  · rename_i htail
    cases hl
    have hcode : closedCode line.toList = codeOf line.toList := by
      simp [closedCode, codeOf, CommentedLine.codeWith, List.isEmpty_iff.1 htail]
    rw [Block.content_read? hfeed, hcode]
  · split at hl
    · cases hl
    · rw [Option.some.injEq] at hl
      subst hl
      have hfeed' := feed_not_mem_codeAlone hfeed
      have hcode := codeOf_of_bare hfeed' (bare_codeAlone hfeed)
      have hnothing : SaysNothing (codeAlone (CommentedLine.ofChars line.toList)) ↔
          SaysNothing (codeOf line.toList) := by
        rw [saysNothing_iff, saysNothing_iff, inked_codeAlone]
      rw [Block.content_read? (by rwa [String.toList_ofList]), String.toList_ofList, hcode,
        contentOf_codeAlone]
      exact if_congr hnothing rfl rfl

theorem uncommented {line : String} (hfeed : '\n' ∉ line.toList) :
    Uncommented line (removeCommentsOf line) where
  dropped := by
    simp only [removeCommentsOf, List.isEmpty_iff, codeAlone_eq_nil_iff]
    split
    · rename_i htail
      simp [htail]
    · rename_i htail
      split <;> simp_all
  kept := removeCommentsOf_eq_some_iff.2
  bare := by
    intro l hl
    simp only [removeCommentsOf, List.isEmpty_iff] at hl
    split at hl
    · rename_i htail
      cases hl
      exact htail
    · split at hl
      · cases hl
      · rw [← Option.some.inj hl, String.toList_ofList,
          CommentedLine.ofChars_of_bare (feed_not_mem_codeAlone hfeed) (bare_codeAlone hfeed)]
  reads := fun _ hl => content_read?_left hfeed hl
  same := by
    intro hparts l hl n
    rw [content_read?_left hfeed hl, Block.content_read? hfeed, closedCode, codeOf,
      ← contentOf_codeWith hparts]

/-- Without their comments the lines of a program are left in order, each as its code with the
comments closed up. -/
theorem removeComments_uncommented (ls : Lines) (hfeed : ∀ l ∈ ls, '\n' ∉ l.toList) :
    ∃ left : List (Option String), List.Forall₂ Uncommented ls left ∧
      removeComments ls = left.reduceOption := by
  refine ⟨ls.map removeCommentsOf, ?_, ?_⟩
  · rw [List.forall₂_map_right_iff, List.forall₂_same]
    exact fun l hl => uncommented (hfeed l hl)
  · rw [removeComments, List.reduceOption, List.filterMap_map]
    rfl

/-- A program with a comment behind a word, one in front of a number and one alone on a line. -/
theorem removeComments_uncommented_pocket :
    (∀ l ∈ ["N10 G1 X1(to)Y2 ; edge", "(pocket)", "X (deep) 5"], '\n' ∉ l.toList) ∧
      ∃ left : List (Option String),
        List.Forall₂ Uncommented ["N10 G1 X1(to)Y2 ; edge", "(pocket)", "X (deep) 5"] left ∧
          removeComments ["N10 G1 X1(to)Y2 ; edge", "(pocket)", "X (deep) 5"] =
            left.reduceOption :=
  ⟨by decide, removeComments_uncommented _ (by decide)⟩

/-- A comment between two digits parts a number that is one number without it. -/
theorem removeComments_joins_number :
    removeComments ["G1 X1(A)0 F100"] = ["G1 X10 F100"] ∧
      (Block.read? "G1 X10 F100" 1).map Block.content ≠
        (Block.read? "G1 X1(A)0 F100" 1).map Block.content := by
  decide +kernel

end Rule

end PartProgram

import PartProgram.Proofs.Rereading

/-!
# PartProgram.Proofs.KeptComments

Where the comments of a line stand. A line is taken apart at its brackets, semicolons and feeds, so
code that is written in another way, without one of these, leaves every comment as it is; and a line
cut off in the blanks at its end has the same comments, the last of them cut off as well.

* `CommentedLine.ofChars_mapCode`: a line with its code written in another way, taken apart again.
* `CommentedLine.ofChars_cut`, `CommentedLine.remarks_trim`: the parts of a line cut off at its end.
-/

namespace PartProgram

open Text

/-! ## Marks -/

/-- No character begins, closes or cuts off a comment. -/
def Plain (cs : List Char) : Prop := ∀ c ∈ cs, c ∉ ['(', ')', ';', '\n']

/-- Texts that differ in rows of plain characters, with no row in one text only. -/
inductive SameMarks : List Char → List Char → Prop where
  | nil : SameMarks [] []
  | char (c : Char) {cs ds : List Char} : SameMarks cs ds → SameMarks (c :: cs) (c :: ds)
  | row {as bs cs ds : List Char} : as ≠ [] → bs ≠ [] → Plain as → Plain bs → SameMarks cs ds →
      SameMarks (as ++ cs) (bs ++ ds)

namespace Comment

theorem isSome_bracketText?_append {as : List Char} (h : Plain as) (cs : List Char) :
    (bracketText? (as ++ cs)).isSome = (bracketText? cs).isSome := by
  induction as with
  | nil => rfl
  | cons a as ih =>
    have ha := h a (.head _)
    simp only [List.mem_cons, List.not_mem_nil, or_false, not_or] at ha
    simp [bracketText?, ha, ih fun c hc => h c (.tail _ hc)]

theorem isSome_trailingText?_append {as : List Char} (h : Plain as) (cs : List Char) :
    (trailingText? (as ++ cs)).isSome = (trailingText? cs).isSome := by
  induction as with
  | nil => rfl
  | cons a as ih =>
    have ha := h a (.head _)
    simp only [List.mem_cons, List.not_mem_nil, or_false, not_or] at ha
    simp [trailingText?, ha, ih fun c hc => h c (.tail _ hc)]

theorem bracketText?_self {t : List Char} (hclose : ')' ∉ t) (hfeed : '\n' ∉ t) (rest : List Char) :
    bracketText? (t ++ ')' :: rest) = some t := by
  induction t with
  | nil => rfl
  | cons c t ih =>
    simp only [List.mem_cons, not_or] at hclose hfeed
    simp [bracketText?, Ne.symm hclose.1, Ne.symm hfeed.1, ih hclose.2 hfeed.2]

/-- The text of a comment in brackets, and what surrounds it. -/
theorem bracketText?_eq_some {cs t : List Char} (h : bracketText? cs = some t) :
    ∃ rest, cs = t ++ ')' :: rest ∧ ')' ∉ t ∧ '\n' ∉ t := by
  induction cs generalizing t with
  | nil => cases h
  | cons c cs ih =>
    rw [bracketText?] at h
    split at h
    · rename_i hc
      cases h
      exact ⟨cs, by rw [hc]; rfl, by simp, by simp⟩
    · rename_i hclose
      split at h
      · cases h
      · rename_i hfeed
        obtain ⟨t', ht, rfl⟩ := Option.map_eq_some_iff.1 h
        obtain ⟨rest, rfl, hclose', hfeed'⟩ := ih ht
        exact ⟨rest, rfl, by simp [Ne.symm hclose, hclose'], by simp [Ne.symm hfeed, hfeed']⟩

/-- A comment that takes the rest of the line leaves at most a feed. -/
theorem trailingText?_eq_some {cs t : List Char} (h : trailingText? cs = some t) :
    '\n' ∉ t ∧ (cs = t ∨ cs = t ++ ['\n']) := by
  induction cs generalizing t with
  | nil =>
    cases h
    simp
  | cons c cs ih =>
    rw [trailingText?] at h
    split at h
    · rename_i hc
      split at h
      · rename_i hend
        cases h
        rw [hc, List.isEmpty_iff.1 hend]
        simp
      · cases h
    · rename_i hc
      obtain ⟨t', ht, rfl⟩ := Option.map_eq_some_iff.1 h
      obtain ⟨hfeed, hcs⟩ := ih ht
      refine ⟨by simp [Ne.symm hc, hfeed], ?_⟩
      rcases hcs with rfl | rfl <;> simp

/-- A comment in brackets is found whatever follows it. -/
theorem recognise_bracketed {t cs : List Char} :
    recognise none ((bracketed t).spelled ++ cs) =
      some (bracketed t, (bracketed t).spelled.length) ↔ ')' ∉ t ∧ '\n' ∉ t := by
  have hspelled : (bracketed t).spelled ++ cs = '(' :: (t ++ ')' :: cs) := by simp [spelled]
  rw [hspelled]
  constructor
  · intro h
    simp only [recognise, if_true, Option.map_map, Option.map_eq_some_iff] at h
    obtain ⟨t', ht, heq⟩ := h
    simp only [Function.comp_apply, Prod.mk.injEq, bracketed.injEq] at heq
    rw [heq.1] at ht
    obtain ⟨rest, -, hnone⟩ := bracketText?_eq_some ht
    exact hnone
  · rintro ⟨hclose, hfeed⟩
    simp [recognise, bracketText?_self hclose hfeed]

/-- A comment that takes the rest of the line is found at the end of a line. -/
theorem recognise_trailing {t cs : List Char} :
    recognise none ((trailing t).spelled ++ cs) =
      some (trailing t, (trailing t).spelled.length) ↔ '\n' ∉ t ∧ (cs = [] ∨ cs = ['\n']) := by
  have hspelled : (trailing t).spelled ++ cs = ';' :: (t ++ cs) := by simp [spelled]
  have hne : ¬ (';' : Char) = '(' := by decide
  rw [hspelled]
  constructor
  · intro h
    simp only [recognise, if_true, hne, if_false, Option.map_map, Option.map_eq_some_iff] at h
    obtain ⟨t', ht, heq⟩ := h
    simp only [Function.comp_apply, Prod.mk.injEq, trailing.injEq] at heq
    rw [heq.1] at ht
    obtain ⟨hfeed, hrest⟩ := trailingText?_eq_some ht
    refine ⟨hfeed, ?_⟩
    simpa only [List.append_right_eq_self, List.append_cancel_left_eq] using hrest
  · rintro ⟨hfeed, hrest⟩
    have htext : trailingText? (t ++ cs) = some t := by
      clear hspelled
      induction t with
      | nil => rcases hrest with rfl | rfl <;> rfl
      | cons c t ih =>
        simp only [List.mem_cons, not_or] at hfeed
        simp [trailingText?, Ne.symm hfeed.1, ih hfeed.2]
    simp [recognise, htext]

end Comment

namespace SameMarks

variable {cs ds xs ys : List Char}

theorem refl (cs : List Char) : SameMarks cs cs := by
  induction cs with
  | nil => exact .nil
  | cons c cs ih => exact .char c ih

theorem append (h : SameMarks cs ds) (hrest : SameMarks xs ys) :
    SameMarks (cs ++ xs) (ds ++ ys) := by
  induction h with
  | nil => exact hrest
  | char c _ ih => exact .char c ih
  | row hane hbne ha hb _ ih =>
    rw [List.append_assoc, List.append_assoc]
    exact .row hane hbne ha hb ih

theorem isEmpty (h : SameMarks cs ds) : cs.isEmpty = ds.isEmpty := by
  cases h with
  | nil => rfl
  | char c _ => rfl
  | row hane hbne =>
    obtain ⟨a, as, rfl⟩ := List.exists_cons_of_ne_nil hane
    obtain ⟨b, bs, rfl⟩ := List.exists_cons_of_ne_nil hbne
    rfl

/-- Both texts go on to a closing bracket, or neither does. -/
theorem isSome_bracketText? (h : SameMarks cs ds) :
    (Comment.bracketText? cs).isSome = (Comment.bracketText? ds).isSome := by
  induction h with
  | nil => rfl
  | char c _ ih =>
    simp only [Comment.bracketText?]
    split
    · rfl
    · split
      · rfl
      · simpa using ih
  | row _ _ ha hb _ ih =>
    rw [Comment.isSome_bracketText?_append ha, Comment.isSome_bracketText?_append hb, ih]

theorem isSome_trailingText? (h : SameMarks cs ds) :
    (Comment.trailingText? cs).isSome = (Comment.trailingText? ds).isSome := by
  induction h with
  | nil => rfl
  | char c htail ih =>
    simp only [Comment.trailingText?, htail.isEmpty]
    split
    · rfl
    · simpa using ih
  | row _ _ ha hb _ ih =>
    rw [Comment.isSome_trailingText?_append ha, Comment.isSome_trailingText?_append hb, ih]

/-- A comment begins at a character in both texts or in neither. -/
theorem isSome_recognise (h : SameMarks cs ds) (c : Char) :
    (Comment.recognise none (c :: cs)).isSome = (Comment.recognise none (c :: ds)).isSome := by
  have hbracket := h.isSome_bracketText?
  have htrailing := h.isSome_trailingText?
  simp only [Comment.recognise, Option.isSome_map]
  split
  · simpa using hbracket
  · split
    · simpa using htrailing
    · rfl

theorem eq_nil (h : SameMarks [] ds) : ds = [] :=
  List.isEmpty_iff.1 (h.isEmpty.symm.trans rfl)

theorem eq_feed (h : SameMarks ['\n'] ds) : ds = ['\n'] := by
  generalize hcs : ['\n'] = cs at h
  cases h with
  | nil => cases hcs
  | char c htail =>
    cases hcs
    rw [htail.eq_nil]
  | @row as bs cs ds hane _ ha _ _ =>
    obtain ⟨a, as, rfl⟩ := List.exists_cons_of_ne_nil hane
    rw [List.cons_append, List.cons.injEq] at hcs
    exact absurd (ha a (.head _)) (by simp [← hcs.1])

/-- The comment at the head of a text stays when what follows it is written in another way. -/
theorem recognise_spelled (h : SameMarks cs ds) {k : Comment}
    (hk : Comment.recognise none (k.spelled ++ cs) = some (k, k.spelled.length)) :
    Comment.recognise none (k.spelled ++ ds) = some (k, k.spelled.length) := by
  cases k with
  | bracketed t =>
    rw [Comment.recognise_bracketed] at hk ⊢
    exact hk
  | trailing t =>
    rw [Comment.recognise_trailing] at hk ⊢
    refine ⟨hk.1, ?_⟩
    rcases hk.2 with rfl | rfl
    · exact .inl h.eq_nil
    · exact .inr h.eq_feed

end SameMarks

/-! ## Lines taken apart -/

namespace CommentedLine

theorem ofChars_cons_of_none {c : Char} {cs : List Char}
    (h : Comment.recognise none (c :: cs) = none) :
    ofChars (c :: cs) = prepend (.inl c) (ofChars cs) := by
  simp only [ofChars, scan, scanFrom, h, List.foldr_cons,
    scanFrom_recogniseComment (some c) none 0 cs, List.drop_zero]

theorem ofChars_spelled {k : Comment} {rest : List Char}
    (h : Comment.recognise none (k.spelled ++ rest) = some (k, k.spelled.length)) :
    ofChars (k.spelled ++ rest) = prepend (.inr k) (ofChars rest) := by
  obtain ⟨c, cs, hspelled⟩ : ∃ c cs, k.spelled = c :: cs := by
    cases k <;> exact ⟨_, _, rfl⟩
  rw [hspelled, List.cons_append] at h ⊢
  simp only [ofChars, scan, scanFrom, h, List.foldr_cons, List.length_cons, Nat.add_sub_cancel,
    scanFrom_recogniseComment (some c) none cs.length, List.drop_left]

/-- A line is taken apart character by character and comment by comment. -/
theorem ofChars_cases (c : Char) (cs : List Char) :
    (Comment.recognise none (c :: cs) = none ∧ ofChars (c :: cs) = prepend (.inl c) (ofChars cs)) ∨
      ∃ k rest, c :: cs = k.spelled ++ rest ∧ rest.length ≤ cs.length ∧
        Comment.recognise none (c :: cs) = some (k, k.spelled.length) ∧
          ofChars (c :: cs) = prepend (.inr k) (ofChars rest) := by
  cases h : Comment.recognise none (c :: cs) with
  | none => exact .inl ⟨rfl, ofChars_cons_of_none h⟩
  | some found =>
    obtain ⟨k, n⟩ := found
    obtain ⟨rest, hcs, rfl, hne⟩ := recogniseComment_spec h
    have hlength := congrArg List.length hcs
    have hpos := List.length_pos_iff.2 hne
    rw [List.length_append, List.length_cons] at hlength
    refine .inr ⟨k, rest, hcs, by omega, rfl, ?_⟩
    rw [hcs] at h ⊢
    exact ofChars_spelled h

/-- The line with its code parts changed. -/
def withCode (f : List Char → List Char) (l : CommentedLine) : CommentedLine :=
  ⟨f l.head, l.tail.map fun x => (x.1, f x.2)⟩

theorem mapCode_withCode (f g : List Char → List Char) (l : CommentedLine) :
    (l.withCode f).mapCode g = l.mapCode (g ∘ f) := by
  simp [withCode, mapCode, List.flatMap_map]

theorem withCode_withCode (f g : List Char → List Char) (l : CommentedLine) :
    (l.withCode f).withCode g = l.withCode (g ∘ f) := by
  simp [withCode]

theorem codes_withCode (f : List Char → List Char) (l : CommentedLine) :
    (l.withCode f).codes = l.codes.map f := by
  simp [withCode, codes]

theorem remarks_withCode (f : List Char → List Char) (l : CommentedLine) :
    (l.withCode f).remarks = l.remarks := by
  simp [withCode, remarks, Function.comp_def]

/-- Comments with the code after each of them, as they were written. -/
def spelledTail (tail : List (Comment × List Char)) : List Char :=
  tail.flatMap fun (comment, code) => comment.spelled ++ code

theorem spelledTail_cons (k : Comment) (code : List Char) (tail : List (Comment × List Char)) :
    spelledTail ((k, code) :: tail) = k.spelled ++ (code ++ spelledTail tail) := by
  simp [spelledTail]

theorem mapCode_id (l : CommentedLine) : l.mapCode id = l.head ++ spelledTail l.tail := rfl

/-- No comment begins in the code, which `rest` follows. -/
def NoComment (rest : List Char) : List Char → Prop
  | [] => True
  | c :: code => Comment.recognise none (c :: (code ++ rest)) = none ∧ NoComment rest code

/-- Code and comments, each found where it stands. -/
def IsParsed : List Char → List (Comment × List Char) → Prop
  | head, [] => NoComment [] head
  | head, (k, code) :: tail =>
    NoComment (spelledTail ((k, code) :: tail)) head ∧
      Comment.recognise none (spelledTail ((k, code) :: tail)) = some (k, k.spelled.length) ∧
        IsParsed code tail

theorem IsParsed.noComment {head : List Char} {tail : List (Comment × List Char)}
    (h : IsParsed head tail) : NoComment (spelledTail tail) head := by
  cases tail with
  | nil => exact h
  | cons x tail => exact h.1

theorem IsParsed.withHead {head head' : List Char} {tail : List (Comment × List Char)}
    (h : IsParsed head tail) (hhead : NoComment (spelledTail tail) head') :
    IsParsed head' tail := by
  cases tail with
  | nil => exact hhead
  | cons x tail => exact ⟨hhead, h.2⟩

theorem isParsed_ofChars (cs : List Char) : IsParsed (ofChars cs).head (ofChars cs).tail := by
  induction hn : cs.length using Nat.strongRecOn generalizing cs with
  | ind n ih =>
    subst hn
    cases cs with
    | nil => exact trivial
    | cons c cs =>
      rcases ofChars_cases c cs with ⟨hnone, heq⟩ | ⟨k, rest, hcs, hle, hfound, heq⟩
      · have hrest := ih cs.length (by simp) cs rfl
        rw [heq]
        refine hrest.withHead ⟨?_, hrest.noComment⟩
        rwa [← mapCode_id, mapCode_ofChars]
      · have hrest := ih rest.length (by rw [List.length_cons]; omega) rest rfl
        rw [heq]
        refine ⟨trivial, ?_, hrest⟩
        rwa [spelledTail_cons, ← mapCode_id, mapCode_ofChars, ← hcs]

theorem ofChars_append {rest code : List Char} (h : NoComment rest code) :
    ofChars (code ++ rest) = ⟨code ++ (ofChars rest).head, (ofChars rest).tail⟩ := by
  induction code with
  | nil => rfl
  | cons c code ih =>
    rw [List.cons_append, ofChars_cons_of_none h.1, ih h.2]
    rfl

/-- Parts that are found where they stand are the parts of what they make up. -/
theorem ofChars_of_isParsed {head : List Char} {tail : List (Comment × List Char)}
    (h : IsParsed head tail) : ofChars (head ++ spelledTail tail) = ⟨head, tail⟩ := by
  induction tail generalizing head with
  | nil =>
    rw [ofChars_append h.noComment]
    simp [spelledTail, ofChars, scan, scanFrom]
  | cons x tail ih =>
    obtain ⟨k, code⟩ := x
    obtain ⟨hhead, hfound, hrest⟩ := h
    rw [ofChars_append hhead]
    rw [spelledTail_cons] at hfound ⊢
    rw [ofChars_spelled hfound, ih hrest]
    simp [prepend]

theorem NoComment.sameMarks {code code' rest rest' : List Char} (h : NoComment rest code)
    (hcode : SameMarks code code') (hrest : SameMarks rest rest') : NoComment rest' code' := by
  induction hcode with
  | nil => exact trivial
  | char c htail ih =>
    refine ⟨?_, ih h.2⟩
    have hsame := (htail.append hrest).isSome_recognise c
    rw [h.1] at hsame
    exact Option.isNone_iff_eq_none.1 (by simp [← Option.not_isSome, ← hsame])
  | @row as bs cs ds _ _ _ hb _ ih =>
    have hafter : ∀ xs : List Char, NoComment rest (xs ++ cs) → NoComment rest cs := by
      intro xs hxs
      induction xs with
      | nil => exact hxs
      | cons x xs ihx => exact ihx hxs.2
    have hplain : ∀ xs, Plain xs → NoComment rest' (xs ++ ds) := by
      intro xs hxs
      induction xs with
      | nil => exact ih (hafter as h)
      | cons x xs ihx =>
        refine ⟨?_, ihx fun c hc => hxs c (.tail _ hc)⟩
        have hx := hxs x (.head _)
        simp only [List.mem_cons, List.not_mem_nil, or_false, not_or] at hx
        simp [Comment.recognise, hx]
    exact hplain bs hb

theorem sameMarks_spelledTail {f : List Char → List Char} (hf : ∀ code, SameMarks code (f code))
    (tail : List (Comment × List Char)) :
    SameMarks (spelledTail tail) (spelledTail (tail.map fun x => (x.1, f x.2))) := by
  induction tail with
  | nil => exact .nil
  | cons x tail ih =>
    rw [List.map_cons, spelledTail_cons, spelledTail_cons]
    exact (SameMarks.refl _).append ((hf x.2).append ih)

theorem IsParsed.map {f : List Char → List Char} (hf : ∀ code, SameMarks code (f code))
    {head : List Char} {tail : List (Comment × List Char)} (h : IsParsed head tail) :
    IsParsed (f head) (tail.map fun x => (x.1, f x.2)) := by
  induction tail generalizing head with
  | nil => exact h.noComment.sameMarks (hf head) .nil
  | cons x tail ih =>
    obtain ⟨k, code⟩ := x
    have hsame := sameMarks_spelledTail hf ((k, code) :: tail)
    refine ⟨h.1.sameMarks (hf head) hsame, ?_, ih h.2.2⟩
    have hfound := h.2.1
    rw [spelledTail_cons] at hfound
    rw [spelledTail_cons]
    exact ((hf code).append (sameMarks_spelledTail hf tail)).recognise_spelled hfound

/-- A line with its code written in another way has that code around the same comments. -/
theorem ofChars_mapCode {f : List Char → List Char} (hf : ∀ code, SameMarks code (f code))
    (cs : List Char) : ofChars ((ofChars cs).mapCode f) = (ofChars cs).withCode f := by
  have h := ofChars_of_isParsed ((isParsed_ofChars cs).map hf)
  rw [withCode, ← h, mapCode, spelledTail, List.flatMap_map]

theorem ofChars_mapCode_comp {f g : List Char → List Char} (hf : ∀ code, SameMarks code (f code))
    (hg : ∀ code, SameMarks code (g code)) (cs : List Char) :
    ofChars ((ofChars cs).mapCode (g ∘ f)) = (ofChars cs).withCode (g ∘ f) := by
  have h := ofChars_mapCode hg ((ofChars cs).mapCode f)
  rwa [ofChars_mapCode hf, mapCode_withCode, withCode_withCode] at h

end CommentedLine

/-! ## Blanks at the ends -/

theorem no_mark_of_blank {as : List Char} (has : ∀ c ∈ as, isBlank c = true) :
    ∀ c ∈ as, c ≠ '(' ∧ c ≠ ';' ∧ c ≠ ')' := by
  intro c hc
  have hblank := has c hc
  refine ⟨?_, ?_, ?_⟩ <;>
  · rintro rfl
    exact absurd hblank (by decide)

namespace Comment

theorem bracketText?_append_blank {as : List Char} (has : ∀ c ∈ as, isBlank c = true)
    (cs : List Char) (h : bracketText? cs = none) : bracketText? (cs ++ as) = none := by
  induction cs with
  | nil =>
    cases htext : bracketText? as with
    | none => exact htext
    | some t =>
      obtain ⟨rest, rfl, -⟩ := bracketText?_eq_some htext
      exact absurd rfl (no_mark_of_blank has ')' (by simp)).2.2
  | cons c cs ih =>
    simp only [bracketText?, List.cons_append] at h ⊢
    split at h
    · cases h
    · rename_i hclose
      rw [if_neg hclose]
      split at h
      · rename_i hfeed
        rw [if_pos hfeed]
      · rename_i hfeed
        rw [if_neg hfeed, ih (Option.map_eq_none_iff.1 h), Option.map_none]

theorem trailingText?_of_append {cs as : List Char} (h : trailingText? cs = none) :
    trailingText? (cs ++ as) = none := by
  induction cs with
  | nil => cases h
  | cons c cs ih =>
    simp only [trailingText?, List.cons_append] at h ⊢
    split at h
    · rename_i hfeed
      rw [if_pos hfeed]
      split at h
      · cases h
      · rename_i hmore
        rw [if_neg (by simp_all)]
    · rename_i hfeed
      rw [if_neg hfeed, ih (Option.map_eq_none_iff.1 h), Option.map_none]

/-- Blanks at the end of a line begin no comment. -/
theorem recognise_append_blank {as : List Char} (has : ∀ c ∈ as, isBlank c = true) {c : Char}
    {cs : List Char} (h : recognise none (c :: cs) = none) :
    recognise none (c :: (cs ++ as)) = none := by
  simp only [recognise, Option.map_eq_none_iff] at h ⊢
  split at h
  · rename_i hc
    rw [if_pos hc, Option.map_eq_none_iff]
    exact bracketText?_append_blank has cs (Option.map_eq_none_iff.1 h)
  · rename_i hc
    rw [if_neg hc]
    split at h
    · rename_i hc'
      rw [if_pos hc', Option.map_eq_none_iff]
      exact trailingText?_of_append (Option.map_eq_none_iff.1 h)
    · rename_i hc'
      rw [if_neg hc']

end Comment

/-- A code ends here, in a blank or in a comment that takes the rest of the line. -/
def EndsCode (rest : List Char) : Prop := ∀ c ∈ rest.head?, isBlank c = true ∨ c = ';'

theorem endsCode_nil : EndsCode [] := by simp [EndsCode]

theorem endsCode_of_blank {as : List Char} (has : ∀ c ∈ as, isBlank c = true) : EndsCode as :=
  fun c hc => .inl (has c (List.mem_of_mem_head? hc))

namespace CommentedLine

/-- The code of a line that is another cut off at its end: each part begins a part of the other. -/
structure IsCut (l m : CommentedLine) : Prop where
  head : ∃ rest, EndsCode rest ∧ m.head = l.head ++ rest
  tail : ∀ x ∈ l.tail, x.2 = [] ∨ x.2 = ['\n'] ∨
    ∃ rest, EndsCode rest ∧ ∃ y ∈ m.tail, y.2 = x.2 ++ rest

/-- With blanks at its end a line begins as it did, up to a comment that takes the rest of it. -/
theorem ofChars_append_cases {as : List Char} (has : ∀ c ∈ as, isBlank c = true) (c : Char)
    (cs : List Char) :
    (ofChars (c :: cs) = prepend (.inl c) (ofChars cs) ∧
      ofChars (c :: (cs ++ as)) = prepend (.inl c) (ofChars (cs ++ as))) ∨
    (∃ k rest, rest.length ≤ cs.length ∧ c :: cs = k.spelled ++ rest ∧
      ofChars (c :: cs) = prepend (.inr k) (ofChars rest) ∧
        ofChars (c :: (cs ++ as)) = prepend (.inr k) (ofChars (rest ++ as))) ∨
    ∃ t rest, c = ';' ∧ '\n' ∉ t ∧ cs = t ++ rest ∧ (rest = [] ∨ rest = ['\n']) ∧
      ofChars (c :: cs) = ⟨[], [(.trailing t, rest)]⟩ := by
  rcases ofChars_cases c cs with ⟨hnone, heq⟩ | ⟨k, rest, hcs, hle, hfound, heq⟩
  · exact .inl ⟨heq, ofChars_cons_of_none (Comment.recognise_append_blank has hnone)⟩
  · refine .inr ?_
    rw [hcs] at hfound
    cases k with
    | bracketed t =>
      refine .inl ⟨.bracketed t, rest, hle, hcs, heq, ?_⟩
      rw [← List.cons_append, hcs, List.append_assoc]
      exact ofChars_spelled (Comment.recognise_bracketed.2 (Comment.recognise_bracketed.1 hfound))
    | trailing t =>
      obtain ⟨hfeed, hrest⟩ := Comment.recognise_trailing.1 hfound
      simp only [Comment.spelled, List.cons_append, List.cons.injEq] at hcs
      have hparts : ofChars rest = ⟨rest, []⟩ := by rcases hrest with rfl | rfl <;> rfl
      exact .inr ⟨t, rest, hcs.1, hfeed, hcs.2, hrest, by rw [heq, hparts, prepend]⟩

theorem ofChars_of_blank {as : List Char} (has : ∀ c ∈ as, isBlank c = true) :
    ofChars as = ⟨as, []⟩ :=
  ofChars_of_no_mark fun c hc => ⟨(no_mark_of_blank has c hc).1, (no_mark_of_blank has c hc).2.1⟩

theorem isCut_ofChars {as : List Char} (has : ∀ c ∈ as, isBlank c = true) (cs : List Char) :
    IsCut (ofChars cs) (ofChars (cs ++ as)) := by
  induction hn : cs.length using Nat.strongRecOn generalizing cs with
  | ind n ih =>
    subst hn
    cases cs with
    | nil =>
      rw [List.nil_append, ofChars_of_blank has]
      exact ⟨⟨as, endsCode_of_blank has, rfl⟩, by simp [ofChars, scan, scanFrom]⟩
    | cons c cs =>
      rw [List.cons_append]
      rcases ofChars_append_cases has c cs with ⟨heq, heq'⟩ | ⟨k, rest, hle, -, heq, heq'⟩ |
        ⟨t, rest, rfl, -, -, hrest, heq⟩
      · obtain ⟨⟨more, hmore, hhead⟩, htail⟩ := ih cs.length (by simp) cs rfl
        rw [heq, heq']
        exact ⟨⟨more, hmore, by simp [prepend, hhead]⟩, htail⟩
      · obtain ⟨hhead, htail⟩ := ih rest.length (by rw [List.length_cons]; omega) rest rfl
        rw [heq, heq']
        refine ⟨⟨[], endsCode_nil, rfl⟩, fun x hx => ?_⟩
        rcases List.mem_cons.1 hx with rfl | hx
        · obtain ⟨more, hmore, hhead⟩ := hhead
          exact .inr (.inr ⟨more, hmore, _, .head _, hhead⟩)
        · rcases htail x hx with h | h | ⟨more, hmore, y, hy, h⟩
          · exact .inl h
          · exact .inr (.inl h)
          · exact .inr (.inr ⟨more, hmore, y, .tail _ hy, h⟩)
      · rw [heq]
        constructor
        · -- the semicolon may be plain code in the longer line, where a feed follows it
          rcases ofChars_cases ';' (cs ++ as) with ⟨-, heq'⟩ | ⟨k, after, -, -, -, heq'⟩
          · exact ⟨_, by simp [EndsCode, heq', prepend], rfl⟩
          · exact ⟨[], endsCode_nil, by rw [heq']; rfl⟩
        · intro x hx
          rw [List.mem_singleton.1 hx]
          rcases hrest with rfl | rfl
          · exact .inl rfl
          · exact .inr (.inl rfl)

/-- Blanks in front of a line belong to its code. -/
theorem ofChars_blank_append {as : List Char} (has : ∀ c ∈ as, isBlank c = true) (cs : List Char) :
    ofChars (as ++ cs) = ⟨as ++ (ofChars cs).head, (ofChars cs).tail⟩ := by
  refine ofChars_append ?_
  induction as with
  | nil => exact trivial
  | cons a as ih =>
    have ha := no_mark_of_blank has a (.head _)
    exact ⟨by simp [Comment.recognise, ha], ih fun c hc => has c (.tail _ hc)⟩

/-- What holds of the code of a line holds of the code of the line between its blanks, if blanks in
front and what follows the code make no difference. -/
theorem forall_codes_trim {P : List Char → Prop}
    (hleft : ∀ as code, (∀ c ∈ as, isBlank c = true) → P (as ++ code) → P code)
    (hright : ∀ code rest, EndsCode rest → P (code ++ rest) → P code) (hfeed : P ['\n'])
    {cs : List Char} (h : ∀ code ∈ (ofChars cs).codes, P code) :
    ∀ code ∈ (ofChars (trim cs)).codes, P code := by
  have hblank : ∀ c ∈ cs.takeWhile isBlank, isBlank c = true :=
    List.all_eq_true.1 List.all_takeWhile
  have hnil : P [] := hright [] ['\n'] (endsCode_of_blank (by simp; decide)) hfeed
  have hsplit : cs.takeWhile isBlank ++ trimLeft cs = cs := List.takeWhile_append_dropWhile
  obtain ⟨as, has, hcut⟩ := eq_trimRight_append (trimLeft cs)
  rw [← hsplit, ofChars_blank_append hblank, codes, List.forall_mem_cons, List.forall_mem_map] at h
  obtain ⟨hhead, htail⟩ := h
  have hlines := isCut_ofChars has (trimRight (trimLeft cs))
  rw [← hcut] at hlines
  obtain ⟨⟨rest, hrest, heq⟩, hparts⟩ := hlines
  rw [codes, List.forall_mem_cons, List.forall_mem_map]
  constructor
  · refine hright _ rest hrest ?_
    rw [trim, ← heq]
    exact hleft _ _ hblank hhead
  · intro x hx
    rcases hparts x hx with hx | hx | ⟨rest, hrest, y, hy, hx⟩
    · rwa [hx]
    · rwa [hx]
    · refine hright _ rest hrest ?_
      rw [← hx]
      exact htail y hy

/-! ## What comments say -/

theorem trim_append_of_blank {as : List Char} (has : ∀ c ∈ as, isBlank c = true) (cs : List Char) :
    trim (cs ++ as) = trim cs := by
  have hright : ∀ xs, trimRight (xs ++ as) = trimRight xs := by
    intro xs
    have hreverse : ∀ c ∈ as.reverse, isBlank c = true := fun c hc => has c (List.mem_reverse.1 hc)
    simp only [trimRight, List.reverse_append, List.dropWhile_append_of_pos hreverse]
  cases hcs : allBlank cs with
  | true =>
    rw [trim_of_allBlank hcs, trim_of_allBlank]
    simp only [allBlank, List.all_append, Bool.and_eq_true, List.all_eq_true] at hcs ⊢
    exact ⟨hcs, has⟩
  | false =>
    have hleft : trimLeft (cs ++ as) = trimLeft cs ++ as := by
      have hne : trimLeft cs ≠ [] := by
        rw [trimLeft, Ne, List.dropWhile_eq_nil_iff, ← List.all_eq_true]
        simpa [allBlank] using hcs
      rw [trimLeft, List.dropWhile_append, if_neg (by simpa [trimLeft] using hne)]
      rfl
    rw [trim, hleft, hright, trim]

theorem trim_trim (cs : List Char) : trim (trim cs) = trim cs := by
  obtain ⟨as, has, hcut⟩ := eq_trimRight_append (trimLeft cs)
  have hsplit : cs.takeWhile isBlank ++ trimLeft cs = cs := List.takeWhile_append_dropWhile
  have hleft : trim (trimLeft cs) = trim cs := by
    conv => rhs; rw [← hsplit, trim, trimLeft_append_of_blank (List.all_eq_true.1 List.all_takeWhile)]
    rfl
  have hright := trim_append_of_blank has (trimRight (trimLeft cs))
  rw [← hcut, hleft] at hright
  exact hright.symm

/-- Blanks at the end of a line are not part of what its comments say. -/
theorem remarks_append_blank {as : List Char} (has : ∀ c ∈ as, isBlank c = true)
    (hfeed : '\n' ∉ as) {cs : List Char} (hcs : '\n' ∉ cs) :
    (ofChars (cs ++ as)).remarks = (ofChars cs).remarks := by
  have htexts : (ofChars (cs ++ as)).tail.map (fun x => trim x.1.text) =
      (ofChars cs).tail.map fun x => trim x.1.text := by
    induction hn : cs.length using Nat.strongRecOn generalizing cs with
    | ind n ih =>
      subst hn
      cases cs with
      | nil => rw [List.nil_append, ofChars_of_blank has]; rfl
      | cons c cs =>
        rw [List.cons_append]
        rcases ofChars_append_cases has c cs with ⟨heq, heq'⟩ | ⟨k, rest, hle, hspelled, heq, heq'⟩ |
          ⟨t, rest, rfl, ht, rfl, hrest, heq⟩
        · rw [heq, heq']
          exact ih cs.length (by simp) (fun hmem => hcs (.tail _ hmem)) rfl
        · have hrest : '\n' ∉ rest := by
            intro hmem
            rw [hspelled] at hcs
            exact hcs (List.mem_append_right _ hmem)
          have h := ih rest.length (by rw [List.length_cons]; omega) hrest rfl
          rw [heq, heq']
          simpa [prepend] using h
        · obtain rfl : rest = [] := by
            rcases hrest with rfl | rfl
            · rfl
            · exact absurd (by simp) hcs
          have hfound : Comment.recognise none ((Comment.trailing (t ++ as)).spelled ++ []) = _ :=
            Comment.recognise_trailing.2 ⟨by simp [ht, hfeed], .inl rfl⟩
          have heq' := ofChars_spelled hfound
          simp only [Comment.spelled, List.append_nil] at heq'
          rw [List.append_nil] at heq ⊢
          rw [heq, heq']
          simp [prepend, ofChars, scan, scanFrom, Comment.text, trim_append_of_blank has]
  have hremarks : ∀ l : CommentedLine, l.remarks =
      (l.tail.map fun x => trim x.1.text).filter (!·.isEmpty) := fun _ => rfl
  rw [hremarks, hremarks, htexts]

/-- A line that another is with blanks at its end has the same remarks. -/
theorem remarks_eq_of_append_blank {cs ds as : List Char} (has : ∀ c ∈ as, isBlank c = true)
    (hds : ds = cs ++ as) (hfeed : '\n' ∉ ds) : (ofChars cs).remarks = (ofChars ds).remarks := by
  rw [hds, List.mem_append, not_or] at hfeed
  rw [hds, remarks_append_blank has hfeed.2 hfeed.1]

theorem remarks_trim {cs : List Char} (hfeed : '\n' ∉ cs) :
    (ofChars (trim cs)).remarks = (ofChars cs).remarks := by
  have hsplit : cs.takeWhile isBlank ++ trimLeft cs = cs := List.takeWhile_append_dropWhile
  have hleft : (ofChars (trimLeft cs)).remarks = (ofChars cs).remarks := by
    conv => rhs; rw [← hsplit, ofChars_blank_append (List.all_eq_true.1 List.all_takeWhile)]
    rfl
  obtain ⟨as, has, hright⟩ := eq_trimRight_append (trimLeft cs)
  rw [← hleft, trim]
  exact remarks_eq_of_append_blank has hright fun hmem => hfeed (List.dropWhile_subset _ hmem)

theorem remarks_dropLineEnd {cs : List Char} (hfeed : '\n' ∉ cs) :
    (ofChars (Block.dropLineEnd cs)).remarks = (ofChars cs).remarks := by
  obtain ⟨as, has, hcs⟩ := Block.eq_dropLineEnd_append cs
  exact remarks_eq_of_append_blank has hcs hfeed

end CommentedLine

end PartProgram

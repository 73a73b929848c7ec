import PartProgram.Proofs.Spelling

/-!
# PartProgram.Proofs.Respelling

Other spellings of a line. Two texts are respellings of each other if they differ in the width of
their gaps, in the blanks at their end, and in how the numbers of some words are written. A control
reads one block from both: the same block number, words of the same letters and values, and the same
corner.

* `Respelled.numeral?`: a numeral at the head of both texts.
* `Respelled.codeOf`: both texts without their comments.
-/

namespace PartProgram

open Text Number

/-- Blanks within a line. -/
def Blanks (cs : List Char) : Prop := ∀ c ∈ cs, isBlank c = true ∧ c ≠ '\n'

/-- Letters of words whose numbers may be written in another way. -/
def respelledLetters : List Char := 'G' :: 'M' :: Rule.lengthLetters

/-- Texts that differ in gaps, in the blanks at the end, and in how numbers are written. -/
inductive Respelled : List Char → List Char → Prop where
  | ends {as bs : List Char} : Blanks as → Blanks bs → Respelled as bs
  | char (c : Char) {cs ds : List Char} : Respelled cs ds → Respelled (c :: cs) (c :: ds)
  | gap {as bs cs ds : List Char} : as ≠ [] → bs ≠ [] → Blanks as → Blanks bs → Respelled cs ds →
      Respelled (as ++ cs) (bs ++ ds)
  | number {c : Char} {u v cs ds : List Char} : c ∈ respelledLetters → IsNumeral u → IsNumeral v →
      numeralValue u = numeralValue v → EndsNumeral cs → EndsNumeral ds → Respelled cs ds →
      Respelled (c :: (u ++ cs)) (c :: (v ++ ds))

/-! ## Blanks and letters -/

theorem blanks_nil : Blanks [] := by simp [Blanks]

theorem Blanks.isBlank {as : List Char} (h : Blanks as) : ∀ c ∈ as, Text.isBlank c = true :=
  fun c hc => (h c hc).1

theorem Blanks.endsNumeral {as : List Char} (h : Blanks as) (hne : as ≠ []) (cs : List Char) :
    EndsNumeral (as ++ cs) := by
  cases as with
  | nil => exact absurd rfl hne
  | cons a as =>
    have ha := (h a (.head _)).1
    refine endsNumeral_cons ?_ ?_
    · cases hdigit : isDigit a with
      | false => rfl
      | true =>
        rw [isBlank_of_isDigit hdigit] at ha
        cases ha
    · rintro rfl
      exact absurd ha (by decide)

/-- A respelled word begins with a capital that is neither a blank nor a part of a comment. -/
theorem respelledLetter_spec {c : Char} (h : c ∈ respelledLetters) :
    isBlank c = false ∧ isDigit c = false ∧ Block.isWordLetter c = true ∧ upperChar c = [c] ∧
      c ∉ ['\n', '.', '+', '-', '(', ')', ';', ',', '%', 'N', 'n', ' '] := by
  have hall : respelledLetters.all (fun c => !isBlank c && !isDigit c && Block.isWordLetter c &&
      decide (upperChar c = [c]) &&
        !(['\n', '.', '+', '-', '(', ')', ';', ',', '%', 'N', 'n', ' '].contains c)) = true := by
    decide
  have hc := List.all_eq_true.1 hall c h
  simpa only [Bool.and_eq_true, Bool.not_eq_true', decide_eq_true_eq, List.contains_eq_mem,
    decide_eq_false_iff_not, and_assoc] using hc

namespace Respelled

variable {cs ds : List Char}

theorem refl (cs : List Char) : Respelled cs cs := by
  induction cs with
  | nil => exact .ends blanks_nil blanks_nil
  | cons c cs ih => exact .char c ih

theorem symm (h : Respelled cs ds) : Respelled ds cs := by
  induction h with
  | ends ha hb => exact .ends hb ha
  | char c _ ih => exact .char c ih
  | gap hane hbne ha hb _ ih => exact .gap hbne hane hb ha ih
  | number hc hu hv hvalue hcs hds _ ih => exact .number hc hv hu hvalue.symm hds hcs ih

theorem append_left (cs : List Char) {xs ys : List Char} (h : Respelled xs ys) :
    Respelled (cs ++ xs) (cs ++ ys) := by
  induction cs with
  | nil => exact h
  | cons c cs ih => exact .char c ih

theorem append_blanks (cs : List Char) {as : List Char} (h : Blanks as) :
    Respelled cs (cs ++ as) := by
  have := append_left cs (Respelled.ends blanks_nil h)
  rwa [List.append_nil] at this

/-- What holds of no blank holds of the first character of both texts or of neither. -/
theorem head? (h : Respelled cs ds) {p : Char → Bool} (hp : ∀ c, isBlank c = true → p c = false) :
    cs.head?.any p = ds.head?.any p := by
  have hblank : ∀ {as : List Char}, Blanks as → ∀ xs, as ≠ [] → (as ++ xs).head?.any p = false := by
    intro as ha xs hne
    cases as with
    | nil => exact absurd rfl hne
    | cons a as => simp [hp a (ha a (.head _)).1]
  cases h with
  | ends ha hb =>
    have hend : ∀ {as : List Char}, Blanks as → as.head?.any p = false := by
      intro as ha
      cases as with
      | nil => rfl
      | cons a as => simpa using hblank ha [] (by simp)
    rw [hend ha, hend hb]
  | char c _ => rfl
  | gap hane hbne ha hb _ => rw [hblank ha _ hane, hblank hb _ hbne]
  | number => rfl

theorem endsNumeral (h : Respelled cs ds) (hcs : EndsNumeral cs) : EndsNumeral ds := by
  have hhead := h.head? (p := fun c => isDigit c || c == '.') fun c hc => by
    have hdigit : isDigit c = false := by
      cases hd : isDigit c with
      | false => rfl
      | true =>
        rw [isBlank_of_isDigit hd] at hc
        cases hc
    have hpoint : c ≠ '.' := by
      rintro rfl
      exact absurd hc (by decide)
    simp [hdigit, hpoint]
  have hiff : ∀ xs : List Char, EndsNumeral xs ↔
      xs.head?.any (fun c => isDigit c || c == '.') = false := by
    intro xs
    cases xs with
    | nil => simp [endsNumeral_nil]
    | cons x xs => simp [EndsNumeral, NoDigitHead]
  rw [hiff] at hcs ⊢
  rw [← hhead, hcs]

/-- A feed in one text is a feed in the other. -/
theorem feed_mem (h : Respelled cs ds) : '\n' ∈ cs ↔ '\n' ∈ ds := by
  have hnumeral : ∀ {u : List Char}, IsNumeral u → '\n' ∉ u := by
    intro u hu hmem
    rcases hu.chars _ hmem with h | h | h <;> exact absurd h (by decide)
  have hblanks : ∀ {as : List Char}, Blanks as → '\n' ∉ as := fun ha hmem => (ha _ hmem).2 rfl
  induction h with
  | ends ha hb => simp [hblanks ha, hblanks hb]
  | char c _ ih => simp [ih]
  | gap _ _ ha hb _ ih => simp [hblanks ha, hblanks hb, ih]
  | number _ hu hv _ _ _ _ ih => simp [hnumeral hu, hnumeral hv, ih]

theorem allBlank (h : Respelled cs ds) : Text.allBlank cs = Text.allBlank ds := by
  have hblanks : ∀ {as : List Char}, Blanks as → as.all Text.isBlank = true :=
    fun ha => List.all_eq_true.2 ha.isBlank
  simp only [Text.allBlank]
  induction h with
  | ends ha hb => rw [hblanks ha, hblanks hb]
  | char c _ ih => simp [ih]
  | gap _ _ ha hb _ ih => simp [hblanks ha, hblanks hb, ih]
  | number hc => simp [(respelledLetter_spec hc).1]

/-- A character that is no blank stands in both texts; if the texts do not go on alike there, it is
the letter of a respelled word. -/
theorem head_cases {c : Char} (h : Respelled (c :: cs) ds) (hblank : isBlank c = false) :
    (∃ ds', ds = c :: ds' ∧ Respelled cs ds') ∨
      ∃ u v xs ys, cs = u ++ xs ∧ ds = c :: (v ++ ys) ∧ c ∈ respelledLetters ∧ IsNumeral u ∧
        IsNumeral v ∧ numeralValue u = numeralValue v ∧ EndsNumeral xs ∧ EndsNumeral ys ∧
          Respelled xs ys := by
  generalize heq : c :: cs = xs at h
  cases h with
  | ends ha =>
    subst heq
    rw [(ha c (.head _)).1] at hblank
    cases hblank
  | char _ htail =>
    cases heq
    exact .inl ⟨_, rfl, htail⟩
  | @gap as bs cs' ds' hane _ ha =>
    cases as with
    | nil => exact absurd rfl hane
    | cons a as =>
      cases heq
      rw [(ha c (.head _)).1] at hblank
      cases hblank
  | number hc hu hv hvalue hcs hds htail =>
    cases heq
    exact .inr ⟨_, _, _, _, rfl, rfl, hc, hu, hv, hvalue, hcs, hds, htail⟩

theorem tail {c : Char} (h : Respelled (c :: cs) ds) (hblank : isBlank c = false)
    (hletter : c ∉ respelledLetters) : ∃ ds', ds = c :: ds' ∧ Respelled cs ds' := by
  rcases h.head_cases hblank with h | ⟨u, v, xs, ys, -, -, hc, -⟩
  · exact h
  · exact absurd hc hletter

/-- After blanks one text goes on as the other. -/
theorem trimLeft (h : Respelled cs ds) : Respelled (trimLeft cs) (trimLeft ds) := by
  induction h with
  | ends ha hb =>
    have hnil : ∀ {as : List Char}, Blanks as → Text.trimLeft as = [] :=
      fun ha => List.dropWhile_eq_nil_iff.2 ha.isBlank
    rw [hnil ha, hnil hb]
    exact refl []
  | char c htail ih =>
    cases hc : isBlank c with
    | true => simpa [Text.trimLeft, hc] using ih
    | false =>
      have := Respelled.char c htail
      simpa [Text.trimLeft, hc] using this
  | gap _ _ ha hb _ ih =>
    rw [trimLeft_append_of_blank ha.isBlank, trimLeft_append_of_blank hb.isBlank]
    exact ih
  | number hc hu hv hvalue hcs hds htail _ =>
    have hblank := (respelledLetter_spec hc).1
    have := Respelled.number hc hu hv hvalue hcs hds htail
    simpa [Text.trimLeft, hblank] using this

end Respelled

/-! ## Numerals -/

namespace Respelled

variable {cs ds : List Char}

theorem spanDigits (h : Respelled cs ds) :
    (spanDigits cs).1 = (spanDigits ds).1 ∧ Respelled (spanDigits cs).2 (spanDigits ds).2 := by
  have hstop : ∀ {xs ys : List Char}, Respelled xs ys → EndsNumeral xs →
      (Text.spanDigits xs).1 = (Text.spanDigits ys).1 ∧
        Respelled (Text.spanDigits xs).2 (Text.spanDigits ys).2 := by
    intro xs ys hxy hxs
    rw [spanDigits_of_noDigitHead hxs.1, spanDigits_of_noDigitHead (hxy.endsNumeral hxs).1]
    exact ⟨rfl, hxy⟩
  induction h with
  | @ends as bs ha hb =>
    refine hstop (.ends ha hb) ?_
    cases as with
    | nil => exact endsNumeral_nil
    | cons a as => simpa using ha.endsNumeral (by simp) []
  | char c htail ih =>
    cases hc : isDigit c with
    | true => simpa [Text.spanDigits, hc] using ih
    | false =>
      have := Respelled.char c htail
      simpa [Text.spanDigits, hc] using this
  | gap hane hbne ha hb htail _ =>
    exact hstop (.gap hane hbne ha hb htail) (ha.endsNumeral hane _)
  | number hc hu hv hvalue hcs hds htail _ =>
    have hletter := respelledLetter_spec hc
    refine hstop (.number hc hu hv hvalue hcs hds htail) (endsNumeral_cons hletter.2.1 ?_)
    rintro rfl
    exact absurd hc (by decide)

theorem magnitude? (h : Respelled cs ds) {t xs : List Char} (ht : magnitude? cs = some (t, xs)) :
    ∃ ys, magnitude? ds = some (t, ys) ∧ Respelled xs ys := by
  obtain ⟨hwhole, hrest⟩ := h.spanDigits
  by_cases hpoint : ∃ after, (Text.spanDigits cs).2 = '.' :: after
  · obtain ⟨after, hafter⟩ := hpoint
    rw [hafter] at hrest
    obtain ⟨after', hafter', htail⟩ := hrest.tail (by decide) (by decide)
    obtain ⟨hplaces, hlast⟩ := htail.spanDigits
    simp only [Number.magnitude?, hafter] at ht
    simp only [Number.magnitude?, hafter', ← hwhole, ← hplaces]
    split at ht
    · cases ht
    · rename_i hsome
      cases ht
      exact ⟨_, if_neg hsome, hlast⟩
  · have hnone : ∀ after, (Text.spanDigits ds).2 ≠ '.' :: after := by
      intro after hafter
      have hback := hrest.symm
      rw [hafter] at hback
      obtain ⟨after', hafter', -⟩ := hback.tail (by decide) (by decide)
      exact hpoint ⟨after', hafter'⟩
    rw [magnitude?_of_no_point (not_exists.1 hpoint)] at ht
    split at ht
    · cases ht
    · rename_i hsome
      simp only [Option.some.injEq] at ht
      rw [ht] at hwhole hrest hsome
      rw [magnitude?_of_no_point hnone, ← hwhole, if_neg hsome]
      exact ⟨(Text.spanDigits ds).2, congrArg some (Prod.ext hwhole.symm rfl), hrest⟩

/-- A numeral at the head of one text is at the head of the other. -/
theorem numeral? (h : Respelled cs ds) {t xs : List Char} (ht : numeral? cs = some (t, xs)) :
    ∃ ys, numeral? ds = some (t, ys) ∧ Respelled xs ys := by
  cases cs with
  | nil => cases ht
  | cons c cs =>
    obtain ⟨happend, hnumeral⟩ := numeral?_spec ht
    obtain ⟨d, t', rfl⟩ := List.exists_cons_of_ne_nil hnumeral.ne_nil
    cases happend
    have hc := hnumeral.chars c (.head _)
    have hblank : isBlank c = false := by
      rcases hc with hc | rfl | hc
      · exact isBlank_of_isDigit hc
      · decide
      · simp only [isSign, Bool.or_eq_true, decide_eq_true_eq] at hc
        rcases hc with rfl | rfl <;> decide
    have hletter : c ∉ respelledLetters := by
      intro hmem
      obtain ⟨-, hdigit, -, -, hother⟩ := respelledLetter_spec hmem
      rcases hc with hc | rfl | hc
      · rw [hdigit] at hc
        cases hc
      · exact hother (by decide)
      · simp only [isSign, Bool.or_eq_true, decide_eq_true_eq] at hc
        rcases hc with rfl | rfl <;> exact hother (by decide)
    obtain ⟨ds', rfl, htail⟩ := h.tail hblank hletter
    simp only [Number.numeral?] at ht ⊢
    split at ht
    · rename_i hsign
      simp only [Option.map_eq_some_iff, Prod.exists, Prod.mk.injEq] at ht
      obtain ⟨t'', xs', hmagnitude, heq, rfl⟩ := ht
      obtain ⟨ys, hys, hrest⟩ := htail.magnitude? hmagnitude
      exact ⟨ys, by simp [hsign, hys, heq], hrest⟩
    · rename_i hsign
      rw [if_neg hsign]
      exact h.magnitude? ht

theorem numeral?_none (h : Respelled cs ds) (ht : Number.numeral? cs = none) :
    Number.numeral? ds = none := by
  rw [Option.eq_none_iff_forall_ne_some]
  rintro ⟨t, ys⟩ hys
  obtain ⟨xs, hxs, -⟩ := h.symm.numeral? hys
  rw [ht] at hxs
  cases hxs

end Respelled

/-! ## Comments -/

/-- What follows the first closing bracket of a text. -/
def afterClose : List Char → Option (List Char)
  | [] => none
  | c :: rest => if c = ')' then some rest else afterClose rest

theorem afterClose_append {as : List Char} (h : ')' ∉ as) (rest : List Char) :
    afterClose (as ++ rest) = afterClose rest := by
  induction as with
  | nil => rfl
  | cons a as ih =>
    simp only [List.mem_cons, not_or] at h
    simp [afterClose, Ne.symm h.1, ih h.2]

theorem bracketText?_eq {cs : List Char} (h : '\n' ∉ cs) :
    (Comment.bracketText? cs).map (fun t => cs.drop (t.length + 1)) = afterClose cs := by
  induction cs with
  | nil => rfl
  | cons c cs ih =>
    simp only [List.mem_cons, not_or] at h
    rw [Comment.bracketText?, afterClose]
    split
    · rfl
    · rw [if_neg (Ne.symm h.1), ← ih h.2, Option.map_map]
      rfl

/-- The code of a text with a blank for each comment. -/
def codeOf (cs : List Char) : List Char := (CommentedLine.ofChars cs).codeWith [' ']

theorem length_afterClose {cs xs : List Char} (h : afterClose cs = some xs) :
    xs.length < cs.length := by
  induction cs with
  | nil => cases h
  | cons c cs ih =>
    rw [afterClose] at h
    split at h
    · cases h
      simp
    · have := ih h
      rw [List.length_cons]
      omega

theorem afterClose_subset {cs xs : List Char} (h : afterClose cs = some xs) : xs ⊆ cs := by
  induction cs with
  | nil => cases h
  | cons c cs ih =>
    rw [afterClose] at h
    split at h
    · cases h
      exact List.subset_cons_self _ _
    · exact List.subset_cons_of_subset _ (ih h)

theorem recogniseComment_previous (p q : Option Char) (cs : List Char) :
    Comment.recognise p cs = Comment.recognise q cs := by
  cases cs <;> rfl

theorem scanFrom_recogniseComment (p q : Option Char) (skip : Nat) (cs : List Char) :
    scanFrom Comment.recognise p skip cs = scanFrom Comment.recognise q 0 (cs.drop skip) := by
  induction cs generalizing p skip with
  | nil => simp [scanFrom]
  | cons c cs ih =>
    cases skip with
    | succ k => simpa [scanFrom] using ih (some c) k
    | zero => simp only [scanFrom, List.drop_zero, recogniseComment_previous p q]

theorem codeOf_nil : codeOf [] = [] := rfl

theorem codeOf_cons_of_none {c : Char} {cs : List Char}
    (h : Comment.recognise none (c :: cs) = none) : codeOf (c :: cs) = c :: codeOf cs := by
  simp only [codeOf, CommentedLine.ofChars, scan, scanFrom, h, List.foldr_cons,
    scanFrom_recogniseComment (some c) none 0 cs, List.drop_zero]
  rfl

theorem codeOf_cons_of_some {c : Char} {cs : List Char} {k : Comment} {n : Nat}
    (h : Comment.recognise none (c :: cs) = some (k, n)) :
    codeOf (c :: cs) = ' ' :: codeOf (cs.drop (n - 1)) := by
  simp only [codeOf, CommentedLine.ofChars, scan, scanFrom, h, List.foldr_cons,
    scanFrom_recogniseComment (some c) none (n - 1) cs]
  rfl

theorem codeOf_cons {c : Char} (hbracket : c ≠ '(') (hsemicolon : c ≠ ';') (cs : List Char) :
    codeOf (c :: cs) = c :: codeOf cs :=
  codeOf_cons_of_none (by simp [Comment.recognise, hbracket, hsemicolon])

theorem codeOf_bracket {cs : List Char} (h : '\n' ∉ cs) :
    codeOf ('(' :: cs) =
      match afterClose cs with
      | some xs => ' ' :: codeOf xs
      | none => '(' :: codeOf cs := by
  have hclose := bracketText?_eq h
  cases htext : Comment.bracketText? cs with
  | none =>
    rw [htext] at hclose
    rw [← hclose]
    exact codeOf_cons_of_none (by simp [Comment.recognise, htext])
  | some t =>
    rw [htext] at hclose
    rw [← hclose]
    exact codeOf_cons_of_some (k := .bracketed t) (n := t.length + 2)
      (by simp [Comment.recognise, htext, Comment.spelled])

theorem codeOf_semicolon {cs : List Char} (h : '\n' ∉ cs) : codeOf (';' :: cs) = [' '] := by
  have hfound : Comment.recognise none (';' :: cs) = some (.trailing cs, cs.length + 1) := by
    simp [Comment.recognise, trailingText?_of_no_feed h, Comment.spelled]
  rw [codeOf_cons_of_some hfound, Nat.add_sub_cancel, List.drop_length, codeOf_nil]

/-- Where no numeral goes on, none goes on in the code. -/
theorem endsNumeral_codeOf {cs : List Char} (h : EndsNumeral cs) : EndsNumeral (codeOf cs) := by
  cases cs with
  | nil => exact endsNumeral_nil
  | cons c cs =>
    cases hfound : Comment.recognise none (c :: cs) with
    | none =>
      rw [codeOf_cons_of_none hfound]
      exact h
    | some found =>
      rw [codeOf_cons_of_some hfound]
      exact endsNumeral_cons (by decide) (by decide)

theorem codeOf_append {as : List Char} (h : ∀ c ∈ as, c ≠ '(' ∧ c ≠ ';') (cs : List Char) :
    codeOf (as ++ cs) = as ++ codeOf cs := by
  induction as with
  | nil => rfl
  | cons a as ih =>
    have ha := h a (.head _)
    rw [List.cons_append, codeOf_cons ha.1 ha.2, ih fun c hc => h c (.tail _ hc), List.cons_append]

namespace Respelled

variable {cs ds : List Char}

theorem no_mark {as : List Char} (h : Blanks as) : ∀ c ∈ as, c ≠ '(' ∧ c ≠ ';' := by
  intro c hc
  have hblank := (h c hc).1
  constructor
  · rintro rfl
    exact absurd hblank (by decide)
  · rintro rfl
    exact absurd hblank (by decide)

theorem numeral_no_mark {u : List Char} (h : IsNumeral u) : ∀ c ∈ u, c ≠ '(' ∧ c ≠ ';' :=
  fun c hc => (h.codeChars c hc).no_comment

theorem close_not_mem {as : List Char} (h : Blanks as) : ')' ∉ as :=
  fun hmem => absurd (h _ hmem).1 (by decide)

theorem numeral_close_not_mem {u : List Char} (h : IsNumeral u) : ')' ∉ u := by
  intro hmem
  rcases h.chars _ hmem with h | h | h <;> exact absurd h (by decide)

theorem afterClose (h : Respelled cs ds) {xs : List Char} (hxs : afterClose cs = some xs) :
    ∃ ys, PartProgram.afterClose ds = some ys ∧ Respelled xs ys := by
  induction h with
  | ends ha =>
    have hnone := afterClose_append (close_not_mem ha) []
    rw [List.append_nil, hxs] at hnone
    cases hnone
  | char c htail ih =>
    simp only [PartProgram.afterClose] at hxs ⊢
    split at hxs
    · rename_i hc
      cases hxs
      exact ⟨_, if_pos hc, htail⟩
    · rename_i hc
      rw [if_neg hc]
      exact ih hxs
  | gap _ _ ha hb _ ih =>
    rw [afterClose_append (close_not_mem ha)] at hxs
    rw [afterClose_append (close_not_mem hb)]
    exact ih hxs
  | number hc hu hv _ _ _ _ ih =>
    have hclose : ∀ {c : Char}, c ∈ respelledLetters → c ≠ ')' := by
      rintro c hmem rfl
      exact absurd hmem (by decide)
    simp only [PartProgram.afterClose, hclose hc, if_false] at hxs ⊢
    rw [afterClose_append (numeral_close_not_mem hu)] at hxs
    rw [afterClose_append (numeral_close_not_mem hv)]
    exact ih hxs

theorem afterClose_none (h : Respelled cs ds) (hclose : PartProgram.afterClose cs = none) :
    PartProgram.afterClose ds = none := by
  rw [Option.eq_none_iff_forall_ne_some]
  intro ys hys
  obtain ⟨xs, hxs, -⟩ := h.symm.afterClose hys
  rw [hclose] at hxs
  cases hxs

/-- Without its comments one text is a respelling of the other. -/
theorem codeOf (h : Respelled cs ds) (hfeed : '\n' ∉ cs) : Respelled (codeOf cs) (codeOf ds) := by
  induction hn : cs.length using Nat.strongRecOn generalizing cs ds with
  | ind n ih =>
    subst hn
    have hfeed' : '\n' ∉ ds := fun hmem => hfeed (h.feed_mem.2 hmem)
    cases h with
    | ends ha hb =>
      have hcode : ∀ {as : List Char}, Blanks as → PartProgram.codeOf as = as := by
        intro as ha
        have := codeOf_append (no_mark ha) []
        rwa [List.append_nil, codeOf_nil, List.append_nil] at this
      rw [hcode ha, hcode hb]
      exact .ends ha hb
    | @char c cs ds htail =>
      simp only [List.mem_cons, not_or] at hfeed hfeed'
      have hrest := ih cs.length (by simp) htail hfeed.2 rfl
      by_cases hbracket : c = '('
      · subst hbracket
        rw [codeOf_bracket hfeed.2, codeOf_bracket hfeed'.2]
        cases hclose : PartProgram.afterClose cs with
        | some xs =>
          obtain ⟨ys, hys, hxy⟩ := htail.afterClose hclose
          have hsub : '\n' ∉ xs := fun hmem => hfeed.2 (afterClose_subset hclose hmem)
          have hlt := length_afterClose hclose
          rw [hys]
          exact .char ' ' (ih xs.length (by rw [List.length_cons]; omega) hxy hsub rfl)
        | none =>
          rw [htail.afterClose_none hclose]
          exact .char '(' hrest
      · by_cases hsemicolon : c = ';'
        · subst hsemicolon
          rw [codeOf_semicolon hfeed.2, codeOf_semicolon hfeed'.2]
          exact refl [' ']
        · rw [codeOf_cons hbracket hsemicolon, codeOf_cons hbracket hsemicolon]
          exact .char c hrest
    | @gap as bs cs ds hane hbne ha hb htail =>
      have hpos := List.length_pos_iff.2 hane
      rw [codeOf_append (no_mark ha), codeOf_append (no_mark hb)]
      refine .gap hane hbne ha hb (ih cs.length ?_ htail (fun hmem => hfeed ?_) rfl)
      · rw [List.length_append]
        omega
      · exact List.mem_append_right _ hmem
    | @number c u v cs ds hc hu hv hvalue hcs hds htail =>
      have hmark : c ≠ '(' ∧ c ≠ ';' := by
        obtain ⟨-, -, -, -, hother⟩ := respelledLetter_spec hc
        exact ⟨by rintro rfl; exact hother (by decide), by rintro rfl; exact hother (by decide)⟩
      rw [codeOf_cons hmark.1 hmark.2, codeOf_cons hmark.1 hmark.2,
        codeOf_append (numeral_no_mark hu), codeOf_append (numeral_no_mark hv)]
      refine .number hc hu hv hvalue (endsNumeral_codeOf hcs) (endsNumeral_codeOf hds)
        (ih cs.length ?_ htail (fun hmem => hfeed ?_) rfl)
      · simp only [List.length_cons, List.length_append]
        omega
      · exact .tail _ (List.mem_append_right _ hmem)

end Respelled

end PartProgram

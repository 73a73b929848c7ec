import PartProgram.Proofs.Lines

/-!
# PartProgram.Proofs.Render

Blocks that are written and read again. A block that was read from a line is well formed, and so is
what the rules make of it; when a well formed block is written as a line, the line reads as the same
block.

* `Block.read?_wellFormed`: what is read is well formed.
* `Block.read?_render`: what is written reads as it was.
* `Block.read?_render_of_read?`: writing a line that was read again loses nothing.
-/

namespace PartProgram

open Text Number

/-! ## Texts between blanks -/

/-- A text that neither begins nor ends with a blank. -/
structure Snug (cs : List Char) : Prop where
  head : ∃ c, cs.head? = some c ∧ isBlank c = false
  last : ∃ c, cs.getLast? = some c ∧ isBlank c = false

theorem Snug.ne_nil {cs : List Char} (h : Snug cs) : cs ≠ [] := by
  rintro rfl
  obtain ⟨c, hc, -⟩ := h.head
  cases hc

theorem snug_of_forall {cs : List Char} (hne : cs ≠ []) (h : ∀ c ∈ cs, isBlank c = false) :
    Snug cs where
  head := ⟨cs.head hne, List.head?_eq_some_head hne, h _ (List.head_mem hne)⟩
  last := ⟨cs.getLast hne, List.getLast?_eq_some_getLast hne, h _ (List.getLast_mem hne)⟩

theorem Snug.append {xs ys : List Char} (hx : Snug xs) (zs : List Char) (hy : Snug ys) :
    Snug (xs ++ (zs ++ ys)) where
  head := by
    obtain ⟨c, hc, hblank⟩ := hx.head
    exact ⟨c, by rw [List.head?_append, hc]; rfl, hblank⟩
  last := by
    obtain ⟨c, hc, hblank⟩ := hy.last
    exact ⟨c, by rw [List.getLast?_append, List.getLast?_append, hc]; rfl, hblank⟩

theorem trimLeft_of_head {cs : List Char} {c : Char} (hc : cs.head? = some c)
    (hblank : isBlank c = false) : trimLeft cs = cs := by
  cases cs with
  | nil => rfl
  | cons d ds =>
    cases hc
    simp [trimLeft, hblank]

theorem trimLeft_append_of_blank {bs : List Char} (h : ∀ c ∈ bs, isBlank c = true)
    (cs : List Char) : trimLeft (bs ++ cs) = trimLeft cs := by
  rw [trimLeft, List.dropWhile_append_of_pos h]
  rfl

theorem Snug.trim {cs : List Char} (h : Snug cs) {before after : List Char}
    (hbefore : ∀ c ∈ before, isBlank c = true) (hafter : ∀ c ∈ after, isBlank c = true) :
    Text.trim (before ++ (cs ++ after)) = cs := by
  obtain ⟨c, hc, hblank⟩ := h.head
  obtain ⟨d, hd, hblank'⟩ := h.last
  have hleft : trimLeft (cs ++ after) = cs ++ after :=
    trimLeft_of_head (by rw [List.head?_append, hc]; rfl) hblank
  have hright : trimLeft cs.reverse = cs.reverse :=
    trimLeft_of_head (by rw [List.head?_reverse, hd]) hblank'
  have hreverse : ∀ c ∈ after.reverse, isBlank c = true :=
    fun c hc => hafter c (List.mem_reverse.1 hc)
  have htrim : trimLeft (cs ++ after).reverse = cs.reverse := by
    rw [List.reverse_append, trimLeft_append_of_blank hreverse, hright]
  rw [Text.trim, trimLeft_append_of_blank hbefore, hleft, trimRight]
  rw [trimLeft] at htrim
  rw [htrim, List.reverse_reverse]

theorem head_dropWhile_isBlank (cs : List Char) {c : Char}
    (h : (cs.dropWhile isBlank).head? = some c) : isBlank c = false := by
  have := List.head?_dropWhile_not isBlank cs
  rw [h] at this
  simpa using this

theorem trimRight_isPrefix (cs : List Char) : trimRight cs <+: cs := by
  have := List.dropWhile_suffix (l := cs.reverse) isBlank
  rw [← List.reverse_prefix, List.reverse_reverse] at this
  exact this

theorem snug_trim {cs : List Char} (h : trim cs ≠ []) : Snug (trim cs) where
  head := by
    have hhead := List.head?_eq_some_head h
    refine ⟨_, hhead, ?_⟩
    obtain ⟨rest, hrest⟩ := trimRight_isPrefix (trimLeft cs)
    apply head_dropWhile_isBlank cs
    show (trimLeft cs).head? = _
    rw [← hrest, List.head?_append]
    show (trim cs).head?.or _ = _
    rw [hhead]
    rfl
  last := by
    have hlast := List.getLast?_eq_some_getLast h
    refine ⟨_, hlast, ?_⟩
    apply head_dropWhile_isBlank (trimLeft cs).reverse
    rw [← hlast, trim, trimRight, List.getLast?_reverse]

/-! ## The characters of a block -/

/-- The parts of a block that are written with blanks between them. -/
def Block.parts (b : Block) : List String :=
  b.number.toList.map (fun n => "N" ++ toString n) ++ b.words.map Word.render ++
    b.corner.toList.map Corner.render

theorem toList_intercalate_cons (p : String) (parts : List String) :
    (" ".intercalate (p :: parts)).toList = p.toList ++ spaced parts := by
  induction parts generalizing p with
  | nil => simp [spaced]
  | cons q parts ih => simp [String.intercalate_cons_cons, ih, spaced_cons]

structure Corner.WellFormed (c : Corner) : Prop where
  letter : c.letter = 'R' ∨ c.letter = 'C'
  numeral : IsNumeral c.text.toList

/-- A block that reads as it is written. -/
structure Block.WellFormed (b : Block) : Prop where
  words : ∀ w ∈ b.words, w.WellFormed
  corner : ∀ c, b.corner = some c → c.WellFormed
  comment : ∀ s, b.comment = some s → Snug s.toList ∧ '\n' ∉ s.toList

theorem Block.WellFormed.without {b : Block} (h : b.WellFormed) (marks : List String) :
    (b.without marks).WellFormed :=
  ⟨fun w hw => h.words w (List.mem_filter.1 hw).1, h.corner, h.comment⟩

theorem snug_spaced {p : String} {parts : List String} (h : ∀ q ∈ p :: parts, Snug q.toList) :
    Snug (p.toList ++ spaced parts) := by
  induction parts generalizing p with
  | nil => simpa [spaced] using h p (.head _)
  | cons q parts ih =>
    have hrest := ih (p := q) fun r hr => h r (.tail _ hr)
    exact (h p (.head _)).append [' '] hrest

/-- Marks and letters that stand in the code of a written block. -/
def codeMarks : List Char := [',', '.', '+', '-', 'N', 'C'] ++ addressLetters

/-- A character of the code of a written block, blanks apart. -/
def IsCodeChar (c : Char) : Prop := isDigit c = true ∨ c ∈ codeMarks

theorem IsCodeChar.not_blank {c : Char} (h : IsCodeChar c) : isBlank c = false := by
  rcases h with h | h
  · exact isBlank_of_isDigit h
  · have hmarks : codeMarks.all (!isBlank ·) = true := by decide
    simpa using List.all_eq_true.1 hmarks c h

theorem IsCodeChar.upperChar {c : Char} (h : IsCodeChar c) : upperChar c = [c] := by
  rcases h with h | h
  · exact upperChar_of_isDigit h
  · have hmarks : codeMarks.all (fun c => Text.upperChar c == [c]) = true := by decide
    simpa using List.all_eq_true.1 hmarks c h

theorem IsCodeChar.no_comment {c : Char} (h : IsCodeChar c) : c ≠ '(' ∧ c ≠ ';' := by
  rcases h with h | h
  · exact ⟨ne_of_isDigit h (by decide), ne_of_isDigit h (by decide)⟩
  · have hmarks : codeMarks.all (fun c => c != '(' && c != ';') = true := by decide
    simpa using List.all_eq_true.1 hmarks c h

theorem IsNumeral.codeChars {t : List Char} (h : IsNumeral t) : ∀ c ∈ t, IsCodeChar c := by
  intro c hc
  rcases h.chars c hc with h | rfl | h
  · exact .inl h
  · exact .inr (by decide)
  · simp only [isSign, Bool.or_eq_true, decide_eq_true_eq] at h
    rcases h with rfl | rfl <;> exact .inr (by decide)

theorem Word.toList_render (w : Word) : w.render.toList = w.letter :: w.text.toList := by
  simp [Word.render]

theorem Corner.toList_render (k : Corner) :
    k.render.toList = ',' :: k.letter :: k.text.toList := by
  simp [Corner.render]

theorem toList_number (n : Nat) : ("N" ++ toString n).toList = 'N' :: (toString n).toList := by
  simp

theorem Word.WellFormed.codeChars {w : Word} (h : w.WellFormed) :
    ∀ c ∈ w.render.toList, IsCodeChar c := by
  rw [toList_render]
  intro c hc
  cases hc with
  | head => exact .inr (List.mem_append_right _ h.letter)
  | tail _ hc => exact h.numeral.codeChars c hc

theorem Corner.WellFormed.codeChars {k : Corner} (h : k.WellFormed) :
    ∀ c ∈ k.render.toList, IsCodeChar c := by
  rw [toList_render]
  intro c hc
  simp only [List.mem_cons] at hc
  rcases hc with rfl | rfl | hc
  · exact .inr (by decide)
  · rcases h.letter with h | h <;> rw [h] <;> exact .inr (by decide)
  · exact h.numeral.codeChars c hc

theorem number_codeChars (n : Nat) : ∀ c ∈ ("N" ++ toString n).toList, IsCodeChar c := by
  rw [toList_number]
  intro c hc
  cases hc with
  | head => exact .inr (by decide)
  | tail _ hc => exact .inl (isDigit_of_mem_toString hc)

theorem Block.WellFormed.parts {b : Block} (h : b.WellFormed) :
    ∀ p ∈ b.parts, p.toList ≠ [] ∧ ∀ c ∈ p.toList, IsCodeChar c := by
  intro p hp
  simp only [Block.parts, List.mem_append, List.mem_map, Option.mem_toList] at hp
  rcases hp with (⟨n, -, rfl⟩ | ⟨w, hw, rfl⟩) | ⟨k, hk, rfl⟩
  · exact ⟨by simp, number_codeChars n⟩
  · exact ⟨by simp [Word.render], (h.words w hw).codeChars⟩
  · exact ⟨by simp [Corner.render], (h.corner k hk).codeChars⟩

theorem Block.WellFormed.snug {b : Block} (h : b.WellFormed) : ∀ p ∈ b.parts, Snug p.toList := by
  intro p hp
  obtain ⟨hne, hchars⟩ := h.parts p hp
  exact snug_of_forall hne fun c hc => (hchars c hc).not_blank

/-! ## Reading a written block -/

/-- Texts with single blanks between them. -/
def joined (parts : List String) : List Char := (" ".intercalate parts).toList

theorem joined_cons (p : String) (parts : List String) :
    joined (p :: parts) = p.toList ++ spaced parts := toList_intercalate_cons p parts

theorem mem_spaced {parts : List String} {c : Char} (h : c ∈ spaced parts) :
    c = ' ' ∨ ∃ p ∈ parts, c ∈ p.toList := by
  simp only [spaced, List.mem_flatMap, List.mem_cons] at h
  obtain ⟨p, hp, rfl | hc⟩ := h
  · exact .inl rfl
  · exact .inr ⟨p, hp, hc⟩

theorem mem_joined {parts : List String} {c : Char} (h : c ∈ joined parts) :
    c = ' ' ∨ ∃ p ∈ parts, c ∈ p.toList := by
  cases parts with
  | nil => simp [joined] at h
  | cons p parts =>
    rw [joined_cons, List.mem_append] at h
    rcases h with h | h
    · exact .inr ⟨p, .head _, h⟩
    · rcases mem_spaced h with h | ⟨q, hq, h⟩
      · exact .inl h
      · exact .inr ⟨q, .tail _ hq, h⟩

theorem Block.toList_renderCode (b : Block) : b.renderCode.toList = joined b.parts := rfl

theorem dropLineEnd_of_snug {cs : List Char} (h : Snug cs) : Block.dropLineEnd cs = cs := by
  obtain ⟨c, hc, hblank⟩ := h.last
  have hne : c ≠ '\r' ∧ c ≠ '\n' :=
    ⟨by rintro rfl; exact absurd hblank (by decide), by rintro rfl; exact absurd hblank (by decide)⟩
  have hhead : cs.reverse.head? = some c := by rw [List.head?_reverse, hc]
  rw [Block.dropLineEnd]
  cases hcs : cs.reverse with
  | nil => rw [hcs] at hhead; cases hhead
  | cons d ds =>
    rw [hcs] at hhead
    cases hhead
    rw [List.dropWhile_cons_of_neg (by simp [hne]), ← hcs, List.reverse_reverse]

theorem snug_joined {parts : List String} (hne : parts ≠ []) (h : ∀ p ∈ parts, Snug p.toList) :
    Snug (joined parts) := by
  cases parts with
  | nil => exact absurd rfl hne
  | cons p parts =>
    rw [joined_cons]
    exact snug_spaced h

theorem trailingText?_of_no_feed {cs : List Char} (h : '\n' ∉ cs) :
    Comment.trailingText? cs = some cs := by
  induction cs with
  | nil => rfl
  | cons c cs ih =>
    simp only [List.mem_cons, not_or] at h
    simp [Comment.trailingText?, Ne.symm h.1, ih h.2]

theorem foldr_prepend (cs : List Char) (l : CommentedLine) :
    (cs.map fun c => (.inl c : Char ⊕ Comment)).foldr CommentedLine.prepend l =
      { l with head := cs ++ l.head } := by
  induction cs with
  | nil => rfl
  | cons c cs ih => simp [ih, CommentedLine.prepend]

/-- Code before a semicolon, and the comment after it. -/
theorem ofChars_trailing {code text : List Char} (hcode : ∀ c ∈ code, c ≠ '(' ∧ c ≠ ';')
    (htext : '\n' ∉ text) :
    CommentedLine.ofChars (code ++ ';' :: text) = ⟨code, [(.trailing text, [])]⟩ := by
  have hnone : ∀ previous, ∀ c ∈ code, ∀ rest,
      Comment.recognise previous (c :: rest) = none :=
    fun _ c hc _ => by simp [Comment.recognise, hcode c hc]
  have hfound : ∀ previous, Comment.recognise previous (';' :: text) =
      some (.trailing text, text.length + 1) := by
    intro previous
    simp [Comment.recognise, trailingText?_of_no_feed htext, Comment.spelled]
  have hskip : ∀ previous, scanFrom Comment.recognise previous text.length text = [] := by
    intro previous
    obtain ⟨previous', h⟩ := scanFrom_skip Comment.recognise previous text []
    simpa [scanFrom] using h
  rw [CommentedLine.ofChars, scan, scanFrom_append_of_not_found hnone]
  simp only [scanFrom, hfound, Nat.add_sub_cancel, hskip, List.foldr_append, List.foldr_cons,
    List.foldr_nil, foldr_prepend]
  simp [CommentedLine.prepend]

theorem Block.WellFormed.renderCode_isEmpty {b : Block} (h : b.WellFormed) (hparts : b.parts ≠ []) :
    b.renderCode.isEmpty = false := by
  rw [Bool.eq_false_iff, ne_eq, String.isEmpty_iff]
  intro hnil
  have hne := (snug_joined hparts h.snug).ne_nil
  rw [← toList_renderCode, hnil] at hne
  exact hne rfl

/-- The line of a written block as code and comment. -/
theorem Block.WellFormed.ofChars {b : Block} (h : b.WellFormed) (hparts : b.parts ≠ []) :
    ∃ blanks, (∀ c ∈ blanks, isBlank c = true) ∧
      (CommentedLine.ofChars b.render.toList).codeWith [' '] = joined b.parts ++ blanks ∧
      (CommentedLine.ofChars b.render.toList).remark? = b.comment := by
  have hcode : ∀ c ∈ joined b.parts, c ≠ '(' ∧ c ≠ ';' := by
    intro c hc
    rcases mem_joined hc with rfl | ⟨p, hp, hc⟩
    · decide
    · exact ((h.parts p hp).2 c hc).no_comment
  have hempty := h.renderCode_isEmpty hparts
  cases hcomment : b.comment with
  | none =>
    have hrender : b.render.toList = joined b.parts := by
      rw [render, hcomment, toList_renderCode]
    rw [hrender, CommentedLine.ofChars_of_no_mark hcode]
    exact ⟨[], by simp, by simp [CommentedLine.codeWith], rfl⟩
  | some s =>
    obtain ⟨hsnug, hfeed⟩ := h.comment s hcomment
    have hrender : b.render.toList = (joined b.parts ++ [' ']) ++ ';' :: (' ' :: s.toList) := by
      rw [render, hcomment]
      simp [hempty, toList_renderCode]
    have hcode' : ∀ c ∈ joined b.parts ++ [' '], c ≠ '(' ∧ c ≠ ';' := by
      intro c hc
      simp only [List.mem_append, List.mem_singleton] at hc
      rcases hc with hc | rfl
      · exact hcode c hc
      · decide
    have htrim : trim (' ' :: s.toList) = s.toList := by
      have hblank : ∀ c ∈ [' '], isBlank c = true := List.all_eq_true.1 (by decide)
      have hnil : ∀ c ∈ ([] : List Char), isBlank c = true := by simp
      simpa using hsnug.trim hblank hnil
    rw [hrender, ofChars_trailing hcode' (by simp [hfeed])]
    refine ⟨[' ', ' '], List.all_eq_true.1 (by decide), by simp [CommentedLine.codeWith], ?_⟩
    simp only [CommentedLine.remark?, CommentedLine.remarks, List.map_cons, Comment.text, htrim,
      List.map_nil]
    have hne : s.toList.isEmpty = false := by
      rw [Bool.eq_false_iff, ne_eq, List.isEmpty_iff]
      exact hsnug.ne_nil
    simp [hne]

theorem upperCase_of_codeChars {cs : List Char} (h : ∀ c ∈ cs, c = ' ' ∨ IsCodeChar c) :
    upperCase cs = cs := by
  induction cs with
  | nil => rfl
  | cons c cs ih =>
    have hc : upperChar c = [c] := by
      rcases h c (.head _) with rfl | hc
      · decide
      · exact hc.upperChar
    have hrest := ih fun c' hc' => h c' (.tail _ hc')
    simp only [upperCase, List.flatMap_cons, hc] at hrest ⊢
    rw [hrest]
    rfl

/-- A block number is taken off the code. -/
theorem splitNumber_number (n : Nat) (parts : List String) :
    Block.splitNumber (joined (("N" ++ toString n) :: parts)) = (some n, spaced parts) := by
  have hspan : spanDigits ((toString n).toList ++ spaced parts) =
      ((toString n).toList, spaced parts) := by
    refine spanDigits_append (fun c hc => isDigit_of_mem_toString hc) ?_
    cases parts with
    | nil => simp [spaced, NoDigitHead]
    | cons p parts =>
      rw [spaced_cons]
      simp only [NoDigitHead, List.head?_cons, Option.mem_def, Option.some.injEq, forall_eq']
      decide
  rw [joined_cons, toList_number, List.cons_append, Block.splitNumber,
    trimLeft_of_head (c := 'N') rfl (by decide)]
  have hsome : (toString n).toList.isEmpty = false := by
    rw [Bool.eq_false_iff, ne_eq, List.isEmpty_iff]
    exact toList_toString_ne_nil n
  simp only [hspan, hsome, digitsValue_toString]
  rfl

/-- Code that begins with another letter has no block number. -/
theorem splitNumber_none {c : Char} {cs : List Char} (hblank : isBlank c = false)
    (hc : c.toUpper ≠ 'N') : Block.splitNumber (c :: cs) = (none, c :: cs) := by
  rw [Block.splitNumber, trimLeft_of_head (c := c) rfl hblank]
  simp [hc]

theorem firstMatch_of_no_comma {cs : List Char} (h : ',' ∉ cs) (rest : List Char) :
    firstMatch Block.recogniseCorner (cs ++ rest) =
      (firstMatch Block.recogniseCorner rest).map fun x => (cs ++ x.1, x.2.1, x.2.2) := by
  induction cs with
  | nil => simp
  | cons c cs ih =>
    simp only [List.mem_cons, not_or] at h
    have hnone : Block.recogniseCorner (c :: (cs ++ rest)) = none := by
      simp [Block.recogniseCorner, Ne.symm h.1]
    rw [List.cons_append, firstMatch, hnone, ih h.2]
    cases firstMatch Block.recogniseCorner rest <;> rfl

theorem splitCorner_none {cs : List Char} (h : ',' ∉ cs) : Block.splitCorner cs = (none, cs) := by
  have := firstMatch_of_no_comma h []
  rw [List.append_nil] at this
  simp [Block.splitCorner, this, firstMatch]

theorem Corner.WellFormed.recognise {k : Corner} (h : k.WellFormed) :
    Block.recogniseCorner k.render.toList = some (k, k.render.toList.length) := by
  have hletter : k.letter.toUpper = k.letter ∧ isBlank k.letter = false ∧
      (k.letter = 'R' ∨ k.letter = 'C') := by
    rcases h.letter with h | h <;> rw [h] <;> decide
  obtain ⟨hupper, hblank, hletter⟩ := hletter
  have hread : numeral? (trimLeft k.text.toList) = some (k.text.toList, []) := by
    have htrim := trimLeft_append h.numeral []
    have hread := h.numeral.read endsNumeral_nil
    rw [List.append_nil] at htrim hread
    rw [htrim, hread]
  rw [toList_render, Block.recogniseCorner, if_pos rfl,
    trimLeft_of_head (c := k.letter) rfl hblank]
  simp [hupper, hletter, hread, taken]

/-- A corner word at the end of the code is taken out. -/
theorem splitCorner_some {k : Corner} (h : k.WellFormed) {cs : List Char} (hcs : ',' ∉ cs) :
    Block.splitCorner (cs ++ k.render.toList) = (some k, cs ++ [' ']) := by
  have hfirst : firstMatch Block.recogniseCorner k.render.toList = some ([], k, []) := by
    have hfound := h.recognise
    rw [Corner.toList_render] at hfound ⊢
    rw [firstMatch, hfound]
    simp
  rw [Block.splitCorner, firstMatch_of_no_comma hcs, hfirst]
  simp

theorem Word.WellFormed.no_comma {w : Word} (h : w.WellFormed) : ',' ∉ w.render.toList := by
  have hletters : ',' ∉ addressLetters := by decide
  rw [toList_render]
  intro hc
  simp only [List.mem_cons] at hc
  rcases hc with hc | hc
  · exact hletters (hc ▸ h.letter)
  · rcases h.numeral.chars _ hc with hc | hc | hc <;> exact absurd hc (by decide)

theorem no_comma_spaced {ws : List Word} (h : ∀ w ∈ ws, w.WellFormed) :
    ',' ∉ spaced (ws.map Word.render) := by
  intro hc
  rcases mem_spaced hc with hc | ⟨p, hp, hc⟩
  · exact absurd hc (by decide)
  · obtain ⟨w, hw, rfl⟩ := List.mem_map.1 hp
    exact (h w hw).no_comma hc

theorem splitCorner_cons_blank (cs : List Char) :
    Block.splitCorner (' ' :: cs) =
      ((Block.splitCorner cs).1, ' ' :: (Block.splitCorner cs).2) := by
  have hcomma : ',' ∉ [' '] := by decide
  have hfirst := firstMatch_of_no_comma hcomma cs
  simp only [List.singleton_append] at hfirst
  simp only [Block.splitCorner, hfirst]
  cases firstMatch Block.recogniseCorner cs with
  | none => rfl
  | some x => rfl

/-- What is found in words and a corner word with a blank before each of them. -/
theorem Block.WellFormed.splitCorner_spaced {b : Block} (h : b.WellFormed) :
    ∃ cs, Block.splitCorner
        (spaced (b.words.map Word.render ++ b.corner.toList.map Corner.render)) =
          (b.corner, cs) ∧ addressWords cs = b.words := by
  have hcomma := no_comma_spaced h.words
  have hwords : ∀ blanks : List Char, EndsNumeral blanks → (∀ c ∈ blanks, c = ' ') →
      wordsOf blanks = [] →
        addressWords (spaced (b.words.map Word.render) ++ blanks) = b.words := by
    intro blanks hends hblanks hnone
    have hupper : ∀ c ∈ spaced (b.words.map Word.render) ++ blanks, c = ' ' ∨ IsCodeChar c := by
      intro c hc
      rw [List.mem_append] at hc
      rcases hc with hc | hc
      · rcases mem_spaced hc with hc | ⟨p, hp, hc⟩
        · exact .inl hc
        · obtain ⟨w, hw, rfl⟩ := List.mem_map.1 hp
          exact .inr ((h.words w hw).codeChars c hc)
      · exact .inl (hblanks c hc)
    rw [addressWords, upperCase_of_codeChars hupper]
    show wordsOf _ = _
    rw [wordsOf_spaced h.words hends, hnone, List.append_nil]
  cases hcorner : b.corner with
  | none =>
    refine ⟨_, by simpa using splitCorner_none hcomma, ?_⟩
    simpa using hwords [] endsNumeral_nil (by simp) rfl
  | some k =>
    have hcomma' : ',' ∉ spaced (b.words.map Word.render) ++ [' '] := by simpa using hcomma
    have hsplit := splitCorner_some (h.corner k hcorner) hcomma'
    refine ⟨_, ?_, hwords [' ', ' '] (endsNumeral_cons (by decide) (by decide)) (by simp)
      (by decide)⟩
    rw [spaced_append]
    simpa [spaced] using hsplit

theorem spaced_eq_cons {parts : List String} (h : parts ≠ []) :
    spaced parts = ' ' :: joined parts := by
  cases parts with
  | nil => exact absurd rfl h
  | cons p parts => rw [spaced_cons, joined_cons]

theorem addressWords_cons_blank (cs : List Char) :
    Block.addressWords (' ' :: cs) = Block.addressWords cs := by
  have hupper : upperCase (' ' :: cs) = ' ' :: upperCase cs := by
    have hblank : upperChar ' ' = [' '] := by decide
    simp [upperCase, hblank]
  rw [Block.addressWords, hupper]
  exact wordsOf_cons_of_not_letter (by decide) _

/-- Without a block number the code does not begin with its letter. -/
theorem Block.WellFormed.splitNumber_none {b : Block} (h : b.WellFormed) (hnumber : b.number = none)
    (hparts : b.parts ≠ []) : splitNumber (joined b.parts) = (none, joined b.parts) := by
  have hletters : ∀ c ∈ addressLetters, (!isBlank c && c.toUpper != 'N') = true :=
    List.all_eq_true.1 (by decide)
  simp only [Block.parts, hnumber, Option.toList_none, List.map_nil, List.nil_append] at hparts ⊢
  cases hwords : b.words with
  | cons w ws =>
    have hletter := hletters _ (h.words w (by simp [hwords])).letter
    simp only [Bool.and_eq_true, Bool.not_eq_true', bne_iff_ne] at hletter
    obtain ⟨hblank, hupper⟩ := hletter
    rw [List.map_cons, List.cons_append, joined_cons, Word.toList_render, List.cons_append]
    exact PartProgram.splitNumber_none hblank hupper
  | nil =>
    cases hcorner : b.corner with
    | none => simp [hwords, hcorner] at hparts
    | some k =>
      simp only [List.map_nil, Option.toList_some, List.map_cons, List.nil_append]
      rw [joined_cons, Corner.toList_render, List.cons_append]
      exact PartProgram.splitNumber_none (by decide) (by decide)

/-- The number, the corner and the words that are found in the code of a written block. -/
theorem Block.WellFormed.splitCode {b : Block} (h : b.WellFormed) (hparts : b.parts ≠ []) :
    ∃ rest cs, splitNumber (joined b.parts) = (b.number, rest) ∧
      splitCorner rest = (b.corner, cs) ∧ addressWords cs = b.words := by
  obtain ⟨cs, hcorner, hwords⟩ := h.splitCorner_spaced
  cases hnumber : b.number with
  | some n =>
    have hcons : b.parts = ("N" ++ toString n) ::
        (b.words.map Word.render ++ b.corner.toList.map Corner.render) := by
      simp [Block.parts, hnumber]
    rw [hcons, splitNumber_number]
    exact ⟨_, cs, rfl, hcorner, hwords⟩
  | none =>
    have hrest : b.words.map Word.render ++ b.corner.toList.map Corner.render = b.parts := by
      simp [Block.parts, hnumber]
    rw [hrest, spaced_eq_cons hparts, splitCorner_cons_blank, Prod.mk.injEq] at hcorner
    refine ⟨_, _, h.splitNumber_none hnumber hparts, Prod.ext hcorner.1 rfl, ?_⟩
    rw [← addressWords_cons_blank, hcorner.2, hwords]

theorem Block.WellFormed.snug_render {b : Block} (h : b.WellFormed) (hparts : b.parts ≠ []) :
    Snug b.render.toList := by
  have hcode := snug_joined hparts h.snug
  have hempty := h.renderCode_isEmpty hparts
  cases hcomment : b.comment with
  | none =>
    rw [render, hcomment, toList_renderCode]
    exact hcode
  | some s =>
    rw [render, hcomment]
    have := hcode.append [' ', ';', ' '] (h.comment s hcomment).1
    simpa [hempty, toList_renderCode] using this

/-- What a well formed block is written as reads as the block. -/
theorem Block.read?_render {b : Block} (h : b.WellFormed) (hparts : b.parts ≠ []) (n : Int) :
    read? b.render n = some { b with raw := b.render, line := n } := by
  obtain ⟨blanks, hblanks, hcode, hcomment⟩ := h.ofChars hparts
  obtain ⟨rest, cs, hnumber, hcorner, hwords⟩ := h.splitCode hparts
  have hsnug := snug_joined hparts h.snug
  have hnil : ∀ c ∈ ([] : List Char), isBlank c = true := by simp
  have htrim : trim (joined b.parts ++ blanks) = joined b.parts := by
    simpa using hsnug.trim hnil hblanks
  have hfilter : (b.words.filter fun w => addressLetters.contains w.letter) = b.words :=
    List.filter_eq_self.2 fun w hw => by simpa using (h.words w hw).letter
  have hsome : code? (CommentedLine.ofChars b.render.toList) = some (joined b.parts) := by
    have hpercent : joined b.parts ≠ ['%'] := by
      intro heq
      have hmem : '%' ∈ joined b.parts := by simp [heq]
      rcases mem_joined hmem with hc | ⟨p, hp, hc⟩
      · exact absurd hc (by decide)
      · rcases (h.parts p hp).2 _ hc with hc | hc <;> exact absurd hc (by decide)
    simp [code?, hcode, htrim, hsnug.ne_nil, hpercent]
  simp only [read?, dropLineEnd_of_snug (h.snug_render hparts), hsome, Option.map_some, hnumber,
    hcorner, hwords, hfilter, hcomment, String.ofList_toList]

/-! ## What is read is well formed -/

theorem Block.mem_addressWords {cs : List Char} {w : Word} (h : w ∈ addressWords cs) :
    IsNumeral w.text.toList := by
  obtain ⟨previous, before, rest, n, -, hfound⟩ := mem_matchesOf h
  cases rest with
  | nil => cases hfound
  | cons c rest =>
    simp only [recogniseWord] at hfound
    split at hfound
    · simp only [Option.map_eq_some_iff, Prod.mk.injEq, Prod.exists] at hfound
      obtain ⟨t, after, hread, rfl, -⟩ := hfound
      simpa using (numeral?_spec hread).2
    · cases hfound

theorem firstMatch_spec {α : Type} {recognise : List Char → Option (α × Nat)} {cs before after :
    List Char} {a : α} (h : firstMatch recognise cs = some (before, a, after)) :
    ∃ rest n, recognise rest = some (a, n) := by
  induction cs generalizing before with
  | nil => cases h
  | cons c cs ih =>
    rw [firstMatch] at h
    split at h
    · rename_i a' n hfound
      simp only [Option.some.injEq, Prod.mk.injEq] at h
      obtain ⟨-, rfl, -⟩ := h
      exact ⟨_, n, hfound⟩
    · simp only [Option.map_eq_some_iff, Prod.exists, Prod.mk.injEq] at h
      obtain ⟨before', a', after', h, -, rfl, rfl⟩ := h
      exact ih h

theorem Block.splitCorner_wellFormed {cs after : List Char} {k : Corner}
    (h : splitCorner cs = (some k, after)) : k.WellFormed := by
  rw [splitCorner] at h
  split at h
  · rename_i before k' after' hfirst
    cases h
    obtain ⟨rest, n, hfound⟩ := firstMatch_spec hfirst
    cases rest with
    | nil => cases hfound
    | cons c rest =>
      rw [recogniseCorner] at hfound
      split at hfound
      · split at hfound
        · cases hfound
        · split at hfound
          · rename_i letter after hletter
            simp only [Option.map_eq_some_iff, Prod.mk.injEq, Prod.exists] at hfound
            obtain ⟨t, after', hread, rfl, -⟩ := hfound
            exact ⟨by simpa using hletter, by simpa using (numeral?_spec hread).2⟩
          · cases hfound
      · cases hfound
  · cases h

theorem bracketText?_subset {cs t : List Char} (h : Comment.bracketText? cs = some t) : t ⊆ cs := by
  induction cs generalizing t with
  | nil => cases h
  | cons c cs ih =>
    rw [Comment.bracketText?] at h
    split at h
    · cases h; simp
    · split at h
      · cases h
      · obtain ⟨t', ht, rfl⟩ := Option.map_eq_some_iff.1 h
        exact List.cons_subset_cons _ (ih ht)

theorem trailingText?_subset {cs t : List Char} (h : Comment.trailingText? cs = some t) :
    t ⊆ cs := by
  induction cs generalizing t with
  | nil => cases h; simp
  | cons c cs ih =>
    rw [Comment.trailingText?] at h
    split at h
    · split at h
      · cases h; simp
      · cases h
    · obtain ⟨t', ht, rfl⟩ := Option.map_eq_some_iff.1 h
      exact List.cons_subset_cons _ (ih ht)

theorem CommentedLine.mem_foldr {xs : List (Char ⊕ Comment)} {c : Comment} {code : List Char}
    (h : (c, code) ∈ (xs.foldr prepend ⟨[], []⟩).tail) : .inr c ∈ xs := by
  induction xs generalizing code with
  | nil => cases h
  | cons x xs ih =>
    cases x with
    | inl a => exact .tail _ (ih h)
    | inr d =>
      simp only [List.foldr_cons, prepend, List.mem_cons, Prod.mk.injEq] at h
      rcases h with ⟨rfl, -⟩ | h
      · exact .head _
      · exact .tail _ (ih h)

/-- A comment says nothing that does not stand in its line. -/
theorem CommentedLine.text_subset {cs : List Char} {c : Comment} {code : List Char}
    (h : (c, code) ∈ (ofChars cs).tail) : c.text ⊆ cs := by
  obtain ⟨previous, before, rest, n, rfl, hfound⟩ := mem_scanFrom (mem_foldr h)
  refine fun x hx => List.mem_append_right _ ?_
  cases rest with
  | nil => cases hfound
  | cons d rest =>
    simp only [Comment.recognise, Option.map_eq_some_iff, Prod.mk.injEq] at hfound
    obtain ⟨c', hfound, rfl, -⟩ := hfound
    split at hfound
    · obtain ⟨t, ht, rfl⟩ := Option.map_eq_some_iff.1 hfound
      exact .tail _ (bracketText?_subset ht hx)
    · split at hfound
      · obtain ⟨t, ht, rfl⟩ := Option.map_eq_some_iff.1 hfound
        exact .tail _ (trailingText?_subset ht hx)
      · cases hfound

theorem CommentedLine.remark?_spec {l : CommentedLine} {s : String} (h : l.remark? = some s)
    (hfeed : ∀ part ∈ l.tail, '\n' ∉ part.1.text) : Snug s.toList ∧ '\n' ∉ s.toList := by
  rw [remark?] at h
  split at h
  · cases h
  · rename_i hsome
    cases h
    have hremark : ∀ p ∈ l.remarks.map String.ofList,
        Snug p.toList ∧ '\n' ∉ p.toList := by
      intro p hp
      simp only [remarks, List.mem_map, List.mem_filter, Bool.not_eq_true', Prod.exists] at hp
      obtain ⟨t, ⟨⟨c, code, hc, rfl⟩, ht⟩, rfl⟩ := hp
      simp only [String.toList_ofList]
      refine ⟨snug_trim (by simpa using ht), fun hmem => hfeed _ hc ?_⟩
      exact List.dropWhile_subset _ ((trimRight_isPrefix _).subset hmem)
    refine ⟨snug_joined (by simpa using hsome) fun p hp => (hremark p hp).1, fun hmem => ?_⟩
    rcases mem_joined hmem with hc | ⟨p, hp, hc⟩
    · exact absurd hc (by decide)
    · exact (hremark p hp).2 hc

/-- What is read from a line is well formed. -/
theorem Block.read?_wellFormed {raw : String} {n : Int} {b : Block} (h : read? raw n = some b)
    (hfeed : '\n' ∉ raw.toList) : b.WellFormed := by
  simp only [read?, Option.map_eq_some_iff] at h
  obtain ⟨code, -, rfl⟩ := h
  refine ⟨fun w hw => ?_, fun k hk => ?_, fun s hs => ?_⟩
  · simp only [List.mem_filter, List.contains_iff_mem] at hw
    exact ⟨hw.2, mem_addressWords hw.1⟩
  · exact splitCorner_wellFormed (Prod.ext hk rfl)
  · refine CommentedLine.remark?_spec hs fun part hpart hmem => hfeed ?_
    exact mem_of_mem_dropLineEnd (CommentedLine.text_subset hpart hmem)

theorem bracketText?_noFeed {cs t : List Char} (h : Comment.bracketText? cs = some t) :
    '\n' ∉ t := by
  induction cs generalizing t with
  | nil => cases h
  | cons c cs ih =>
    rw [Comment.bracketText?] at h
    split at h
    · cases h; simp
    · split at h
      · cases h
      · rename_i hfeed
        obtain ⟨t', ht, rfl⟩ := Option.map_eq_some_iff.1 h
        exact fun hmem => (List.mem_cons.1 hmem).elim (Ne.symm hfeed) (ih ht)

theorem trailingText?_noFeed {cs t : List Char} (h : Comment.trailingText? cs = some t) :
    '\n' ∉ t := by
  induction cs generalizing t with
  | nil => cases h; simp
  | cons c cs ih =>
    rw [Comment.trailingText?] at h
    split at h
    · split at h
      · cases h; simp
      · cases h
    · rename_i hfeed
      obtain ⟨t', ht, rfl⟩ := Option.map_eq_some_iff.1 h
      exact fun hmem => (List.mem_cons.1 hmem).elim (Ne.symm hfeed) (ih ht)

/-- A comment holds no feed, also in a text that does. -/
theorem CommentedLine.text_noFeed {cs : List Char} {part : Comment × List Char}
    (h : part ∈ (ofChars cs).tail) : '\n' ∉ part.1.text := by
  obtain ⟨previous, before, rest, n, rfl, hfound⟩ := mem_scanFrom (mem_foldr h)
  cases rest with
  | nil => cases hfound
  | cons d rest =>
    simp only [Comment.recognise, Option.map_eq_some_iff, Prod.mk.injEq] at hfound
    obtain ⟨c', hfound, hcomment, -⟩ := hfound
    rw [← hcomment]
    split at hfound
    · obtain ⟨t, ht, rfl⟩ := Option.map_eq_some_iff.1 hfound
      exact bracketText?_noFeed ht
    · split at hfound
      · obtain ⟨t, ht, rfl⟩ := Option.map_eq_some_iff.1 hfound
        exact trailingText?_noFeed ht
      · cases hfound

/-- What is read is well formed, also from a text with feeds in it. -/
theorem Block.wellFormed_of_read? {raw : String} {n : Int} {b : Block} (h : read? raw n = some b) :
    b.WellFormed := by
  simp only [read?, Option.map_eq_some_iff] at h
  obtain ⟨code, -, rfl⟩ := h
  refine ⟨fun w hw => ?_, fun k hk => ?_, fun s hs => ?_⟩
  · simp only [List.mem_filter, List.contains_iff_mem] at hw
    exact ⟨hw.2, mem_addressWords hw.1⟩
  · exact splitCorner_wellFormed (Prod.ext hk rfl)
  · exact CommentedLine.remark?_spec hs fun part hpart => CommentedLine.text_noFeed hpart

/-! ## Reading, writing and reading again -/

theorem Block.parts_ne_nil {b : Block} (h : b.words ≠ [] ∨ b.number ≠ none ∨ b.corner ≠ none) :
    b.parts ≠ [] := by
  intro hnil
  simp only [parts, List.append_eq_nil_iff, List.map_eq_nil_iff, Option.toList_eq_nil_iff] at hnil
  obtain ⟨⟨hnumber, hwords⟩, hcorner⟩ := hnil
  rcases h with h | h | h
  · exact h hwords
  · exact h hnumber
  · exact h hcorner

/-- A block that was read from a line and says more than a comment reads as itself again, word for
word, wherever the line it is written as stands. -/
theorem Block.read?_render_of_read? {line : String} {n : Int} {b : Block}
    (hread : read? line n = some b) (hfeed : '\n' ∉ line.toList)
    (hsaid : b.words ≠ [] ∨ b.number ≠ none ∨ b.corner ≠ none) (k : Int) :
    read? b.render k = some { b with raw := b.render, line := k } := by
  have hformed : b.WellFormed := read?_wellFormed hread hfeed
  exact read?_render hformed (parts_ne_nil hsaid) k

/-- Two comments, a corner word, a block number, lower case and a letter that is two in upper case:
the line is not what the block is written as, but what it is written as reads the same. -/
theorem Block.read?_render_of_mixed_line : ∃ b : Block,
    read? "n10 (a;b) g01x-.5 ,r0.5 ß5 ;c (d" 1 = some b ∧
    b.words = [⟨'G', "01"⟩, ⟨'X', "-.5"⟩, ⟨'S', "5"⟩] ∧ b.number = some 10 ∧
    b.corner = some ⟨'R', "0.5"⟩ ∧ b.comment = some "a;b c (d" ∧
    b.render = "N10 G01 X-.5 S5 ,R0.5 ; a;b c (d" ∧
    read? b.render 2 = some { b with raw := b.render, line := 2 } := by
  have hread : read? "n10 (a;b) g01x-.5 ,r0.5 ß5 ;c (d" 1 =
      some ⟨"n10 (a;b) g01x-.5 ,r0.5 ß5 ;c (d", 1, [⟨'G', "01"⟩, ⟨'X', "-.5"⟩, ⟨'S', "5"⟩],
        some "a;b c (d", some 10, some ⟨'R', "0.5"⟩⟩ := by
    decide +kernel
  refine ⟨_, hread, rfl, rfl, rfl, rfl, by decide +kernel, ?_⟩
  exact read?_render_of_read? hread (by decide +kernel) (.inl (by decide)) 2

/-! ## Lines that are no blocks -/

theorem Block.renderCode_of_parts_nil {b : Block} (hparts : b.parts = []) : b.renderCode = "" := by
  show " ".intercalate b.parts = ""
  rw [hparts]
  rfl

/-- A block with nothing to write but a comment is written as that comment. -/
theorem Block.WellFormed.render_of_parts_nil {b : Block} (h : b.WellFormed) (hparts : b.parts = [])
    {s : String} (hcomment : b.comment = some s) :
    Snug b.render.toList ∧ CommentedLine.ofChars b.render.toList =
      ⟨[], [(.trailing (' ' :: s.toList), [])]⟩ := by
  obtain ⟨hsnug, hfeed⟩ := h.comment s hcomment
  have hrender : b.render.toList = [] ++ ';' :: (' ' :: s.toList) := by
    rw [render, hcomment, renderCode_of_parts_nil hparts]
    simp
  rw [hrender]
  have hmark : Snug [';'] := ⟨⟨';', rfl, by decide⟩, ⟨';', rfl, by decide⟩⟩
  exact ⟨by simpa using hmark.append [' '] hsnug, ofChars_trailing (by simp) (by simp [hfeed])⟩

/-- So it is written as no block. -/
theorem Block.read?_render_of_parts_nil {b : Block} (h : b.WellFormed) (hparts : b.parts = [])
    (n : Int) : read? b.render n = none := by
  cases hcomment : b.comment with
  | none =>
    rw [render, hcomment, renderCode_of_parts_nil hparts]
    exact read?_of_allBlank (by decide) n
  | some s =>
    obtain ⟨hline, hchars⟩ := h.render_of_parts_nil hparts hcomment
    have hnone : code? (CommentedLine.ofChars b.render.toList) = none := by
      have hblank : trim [' '] = [] := trim_of_allBlank (by decide)
      rw [hchars]
      simp [code?, CommentedLine.codeWith, hblank]
    rw [read?, dropLineEnd_of_snug hline]
    simp [hnone]

/-- A line that reads as another block is not what a block is written as. -/
theorem Block.render_ne {b b' : Block} {raw : String} {n : Int} (hread : read? raw n = some b)
    (h : b'.WellFormed) (hne : b'.words ≠ b.words ∨ b'.corner ≠ b.corner) : b'.render ≠ raw := by
  rintro rfl
  by_cases hparts : b'.parts = []
  · rw [read?_render_of_parts_nil h hparts] at hread
    cases hread
  · rw [read?_render h hparts] at hread
    cases hread
    rcases hne with hne | hne <;> exact hne rfl

end PartProgram

import PartProgram.Proofs.Joined
import PartProgram.Proofs.Leftovers

/-!
# PartProgram.Proofs.Regrouped

Modal codes that come together on one line. Seen as parts, the lines that do more than state modal
codes and the codes of those that do not, a program stays as it is when lines are joined; where the
walk through it comes to is a matter of its parts alone, as codes on one line are heard one after
the other. A line that does more is a wall: what stands before it and what stands after it are
joined on their own.

* `modalParts_consolidateCodes`: the parts of a program stay as they are.
* `endState_eq_foldlM`: the state that a program leads to, from its parts.
* `consolidateCodes_append_wall`: lines on either side of a wall are joined on their own.
* `consolidateCodes_regroups`: what stays, and that no more lines can be joined.
-/

namespace PartProgram

/-- The state that the walk through a program comes to; nothing if the walk comes to a fault. The
state in which the walk meets a line is the end state of the lines before it. -/
def endState (ls : Lines) : Option Modal :=
  (walk ls).toOption.map fun stops => (stops.getLast?.map Stop.after).getD .initial

namespace Rule

/-- The codes of a line that only states modal codes. -/
def modesOn? (l : String) : Option (List Code) := modalOnly? (Block.read? l 1)

/-- Two lines that only state modal codes and share no group. -/
def Joinable (l l' : String) : Prop :=
  ∃ codes codes', modesOn? l = some codes ∧ modesOn? l' = some codes' ∧
    disjointGroups codes codes' = true

/-- A line that does more than state modal codes, or a code of one that does not. -/
inductive ModalPart where
  | line (l : String)
  | code (c : Code)

namespace ModalPart

def line? : ModalPart → Option String
  | line l => some l
  | code _ => none

def code? : ModalPart → Option Code
  | line _ => none
  | code c => some c

end ModalPart

def modalParts (l : String) : List ModalPart :=
  match modesOn? l with
  | none => [.line l]
  | some codes => codes.map .code

section

variable {l l' : String} {b : Block} {codes codes' : List Code} {ls pre post : Lines} {m : Modal}
  {n n' : Int} {settings : Settings}

theorem modalParts_of_none (h : modesOn? l = none) : modalParts l = [.line l] := by
  rw [modalParts, h]

theorem modalParts_of_some (h : modesOn? l = some codes) : modalParts l = codes.map .code := by
  rw [modalParts, h]

/-- Where the line stands does not matter. -/
theorem modalOnly?_read? (l : String) (n : Int) : modalOnly? (Block.read? l n) = modesOn? l := by
  rw [modesOn?, Block.read?, Block.read?]
  cases Block.code? (CommentedLine.ofChars (Block.dropLineEnd l.toList)) <;> rfl

/-! ## Lines that only state modal codes -/

/-- What is known of a block that only states modal codes. -/
structure OnlyModes (b : Block) (codes : List Code) : Prop where
  said : b.codes 'G' = codes
  words : b.words ≠ []
  letters : b.onlyLetters ['G'] = true
  groups : ∀ code ∈ codes, (ModalGroup.ofCode? code).isSome = true
  nodup : (codes.map ModalGroup.ofCode?).Nodup

theorem onlyModes_of_modesOn? (h : modesOn? l = some codes) :
    ∃ b, Block.read? l 1 = some b ∧ OnlyModes b codes := by
  rw [modesOn?] at h
  cases hread : Block.read? l 1 with
  | none =>
    rw [hread] at h
    cases h
  | some b =>
    rw [hread] at h
    simp only [modalOnly?] at h
    split at h
    · cases h
    · rename_i hnot
      cases h
      simp only [Bool.or_eq_true, Bool.not_eq_true', not_or, Bool.not_eq_false,
        decide_eq_false_iff_not, not_not, List.isEmpty_iff, List.all_map, List.all_eq_true] at hnot
      obtain ⟨⟨⟨⟨⟨hwords, -⟩, -⟩, hletters⟩, hgroups⟩, hnodup⟩ := hnot
      exact ⟨b, rfl, rfl, hwords, hletters, hgroups, hnodup⟩

theorem codes_codeBlock (h : ∀ code ∈ codes, (ModalGroup.ofCode? code).isSome = true) :
    (codeBlock codes).codes 'G' = codes := by
  have hall : (codes.map codeWord).filter (·.letter == 'G') = codes.map codeWord := by
    rw [List.filter_eq_self]
    intro w hw
    obtain ⟨code, -, rfl⟩ := List.mem_map.1 hw
    rfl
  rw [Block.codes, codeBlock, hall, List.map_map]
  exact (List.map_congr_left fun code hcode =>
    (codeWord_of_mem (mem_groupedCodes (h code hcode))).2.2).trans (List.map_id _)

/-- Codes of different groups that are written on one line are what the line states. -/
theorem modesOn?_intercalate (hne : codes ≠ [])
    (hgroups : ∀ code ∈ codes, (ModalGroup.ofCode? code).isSome = true)
    (hnodup : (codes.map ModalGroup.ofCode?).Nodup) :
    modesOn? (" ".intercalate codes) = some codes := by
  have hwell := wellFormed_codeBlock hgroups
  have hwords : (codeBlock codes).words ≠ [] := by simpa [codeBlock] using hne
  have hread := Block.read?_render hwell (Block.parts_ne_nil (.inl hwords)) 1
  rw [render_codeBlock hgroups] at hread
  have hcodes := codes_codeBlock hgroups
  rw [modesOn?, hread, modalOnly?]
  rw [Block.codes] at hcodes
  have hletters : (codeBlock codes).onlyLetters ['G'] = true := by
    rw [Block.onlyLetters, List.all_eq_true]
    intro w hw
    obtain ⟨code, -, rfl⟩ := List.mem_map.1 hw
    rfl
  rw [Block.onlyLetters] at hletters
  have hempty : (codeBlock codes).words.isEmpty = false := by simpa using hwords
  have hall : (codes.map ModalGroup.ofCode?).all Option.isSome = true := by
    simpa using hgroups
  simp only [Block.codes, Block.onlyLetters, hcodes, hletters, hempty, hall, hnodup]
  rfl

theorem nodup_append (h : (codes.map ModalGroup.ofCode?).Nodup)
    (h' : (codes'.map ModalGroup.ofCode?).Nodup) (hdisjoint : disjointGroups codes codes' = true) :
    ((codes ++ codes').map ModalGroup.ofCode?).Nodup := by
  rw [List.map_append, List.nodup_append]
  refine ⟨h, h', ?_⟩
  simp only [disjointGroups, List.all_eq_true, bne_iff_ne] at hdisjoint
  simpa using hdisjoint

/-- Two lines that can be joined state, on one line, the codes of both. -/
theorem modesOn?_joined (h : modesOn? l = some codes) (h' : modesOn? l' = some codes')
    (hdisjoint : disjointGroups codes codes' = true) :
    modesOn? (" ".intercalate (codes ++ codes')) = some (codes ++ codes') := by
  obtain ⟨b, -, hb⟩ := onlyModes_of_modesOn? h
  obtain ⟨b', -, hb'⟩ := onlyModes_of_modesOn? h'
  refine modesOn?_intercalate ?_ ?_ (nodup_append hb.nodup hb'.nodup hdisjoint)
  · obtain ⟨w, hw⟩ := List.exists_mem_of_ne_nil _ hb.words
    have hletter : w.letter = 'G' := by simpa using List.all_eq_true.1 hb.letters w hw
    have hcode : w.code ∈ codes := by
      rw [← hb.said]
      exact List.mem_map_of_mem (List.mem_filter.2 ⟨hw, by simp [hletter]⟩)
    exact List.ne_nil_of_mem (List.mem_append_left _ hcode)
  · intro code hcode
    exact (List.mem_append.1 hcode).elim (hb.groups code) (hb'.groups code)

/-! ## Where the parts of a program lead -/

/-- What a part does to the state; nothing if it comes to a fault. -/
def ModalPart.act (settings : Settings) (m : Modal) : ModalPart → Option Modal
  | .line l => (m.stopAt settings 1 l).toOption.map Stop.after
  | .code c => some (m.applyCode c)

theorem foldlM_codes (settings : Settings) (m : Modal) (codes : List Code) :
    (codes.map ModalPart.code).foldlM (ModalPart.act settings) m =
      some (codes.foldl Modal.applyCode m) := by
  induction codes generalizing m with
  | nil => rfl
  | cons code rest ih => exact ih (m.applyCode code)

/-- A block that only states modal codes applies them one after the other. -/
theorem OnlyModes.resolve (h : OnlyModes b codes) (settings : Settings) (m : Modal) :
    m.resolve settings b = .ok ⟨codes.foldl Modal.applyCode m, .none, []⟩ := by
  have hletter : ∀ w ∈ b.words, w.letter = 'G' := by
    intro w hw
    simpa using List.all_eq_true.1 h.letters w hw
  have hdominant : b.dominant? = none := by
    have hapart : ∀ code ∈ groupedCodes, code ∉ Code.byDominance := by decide
    rw [Block.dominant?, List.find?_eq_none]
    intro code hcode hmem
    rw [h.said, List.contains_iff_mem] at hmem
    exact hapart code (mem_groupedCodes (h.groups code hmem)) hcode
  have haxis : b.hasAxis = false := by
    rw [Block.hasAxis, Block.has, List.any_eq_false]
    intro w hw
    rw [hletter w hw]
    decide
  have hfeed : b.value 'F' = none := by
    rw [Block.value, Option.map_eq_none_iff, List.find?_eq_none]
    intro w hw
    rw [hletter w hw]
    decide
  have happly : m.apply b = codes.foldl Modal.applyCode m := by
    rw [Modal.apply, hfeed, h.said]
    unfold Modal.applyDominant
    rw [hdominant]
    rfl
  simp [Modal.resolve, hdominant, haxis, happly]

theorem exists_holdsWords (l : String) : ∃ b : Block, HoldsWords l b.words := by
  cases hread : Block.read? l 1 with
  | none => exact ⟨.empty, holdsWords_of_read?_none hread⟩
  | some b => exact ⟨b, holdsWords_of_read? hread⟩

theorem eq_of_agrees {m m' : Modal} (h : m.Agrees Eq m') : m' = m := by
  obtain ⟨hpositioning, hplane, hposition, hfeed, hmotion, hcycle⟩ := h
  cases m
  cases m'
  simp_all

/-- Where a line leads does not depend on where it stands. -/
theorem after_at (settings : Settings) (m : Modal) (n n' : Int) (l : String) :
    (m.stopAt settings n l).toOption.map Stop.after =
      (m.stopAt settings n' l).toOption.map Stop.after := by
  have hsame : Equivalence (Eq (α := Option Float)) := ⟨fun _ => rfl, Eq.symm, Eq.trans⟩
  have hm : m.Agrees Eq m := .refl hsame m
  obtain ⟨b, hb⟩ := exists_holdsWords l
  have hmove : ∀ n n' s, m.stopAt settings n l = .ok s →
      ∃ s', m.stopAt settings n' l = .ok s' ∧ s'.after = s.after := by
    intro n n' s hs
    obtain ⟨r, hr, hstate, -⟩ := exists_resolve_of_stopAt hsame hb hm hs
    obtain ⟨s', hs', hstate', -⟩ := stopAt_words (n := n') hsame hb hm hr
    exact ⟨s', hs', (eq_of_agrees hstate').trans (eq_of_agrees hstate).symm⟩
  cases hs : m.stopAt settings n l with
  | ok s =>
    obtain ⟨s', hs', hafter⟩ := hmove n n' s hs
    rw [hs']
    exact congrArg some hafter.symm
  | error fault =>
    cases hs' : m.stopAt settings n' l with
    | error fault' => rfl
    | ok s' =>
      obtain ⟨s, hok, -⟩ := hmove n' n s' hs'
      rw [hs] at hok
      cases hok

/-- The parts of a line lead where the line leads. -/
theorem foldlM_modalParts (settings : Settings) (m : Modal) (n : Int) (l : String) :
    (modalParts l).foldlM (ModalPart.act settings) m =
      (m.stopAt settings n l).toOption.map Stop.after := by
  rw [after_at settings m n 1 l]
  cases h : modesOn? l with
  | none =>
    rw [modalParts_of_none h, List.foldlM_cons, ModalPart.act]
    cases m.stopAt settings 1 l <;> rfl
  | some codes =>
    obtain ⟨b, hread, hb⟩ := onlyModes_of_modesOn? h
    rw [modalParts_of_some h, foldlM_codes, Modal.stopAt, hread]
    simp only [hb.resolve]
    rfl

/-- The state that a walk leaves. -/
def lastState (m : Modal) (stops : List Stop) : Modal := (stops.getLast?.map Stop.after).getD m

theorem lastState_cons (m : Modal) (s : Stop) (stops : List Stop) :
    lastState m (s :: stops) = lastState s.after stops := by
  cases stops with
  | nil => rfl
  | cons t stops => rw [lastState, lastState, List.getLast?_cons_cons, List.getLast?_cons]; rfl

theorem walkFrom_eq_foldlM (settings : Settings) (m : Modal) (n : Int) (ls : Lines) :
    (m.walkFrom settings n ls).toOption.map (lastState m) =
      (ls.flatMap modalParts).foldlM (ModalPart.act settings) m := by
  induction ls generalizing m n with
  | nil => rfl
  | cons l ls ih =>
    rw [List.flatMap_cons, List.foldlM_append, foldlM_modalParts settings m n, Modal.walkFrom]
    cases m.stopAt settings n l with
    | error fault => rfl
    | ok s =>
      have hrest := ih s.after (n + 1)
      show _ = (ls.flatMap modalParts).foldlM (ModalPart.act settings) s.after
      rw [← hrest]
      cases hwalk : s.after.walkFrom settings (n + 1) ls with
      | error fault => simp [bind, Except.bind, hwalk, Except.toOption]
      | ok stops =>
        have hlast : lastState m (s :: stops) = lastState s.after stops := lastState_cons m s stops
        simp [bind, Except.bind, hwalk, Except.toOption, pure, Except.pure, hlast]

/-- The state that a program leads to is the one that its parts lead to. -/
theorem endState_eq_foldlM (ls : Lines) :
    endState ls = (ls.flatMap modalParts).foldlM (ModalPart.act .standard) .initial :=
  walkFrom_eq_foldlM .standard .initial 1 ls

/-! ## Joining lines -/

/-- What a line adds to those written: a line of its own, or its codes on the last of them. -/
theorem add_modal_cases (m : ModalLines) (l : String) (n : Int) :
    (m.add (l, Block.read? l n) = ⟨l :: m.written, modesOn? l⟩ ∧
      ∀ codes codes', m.open? = some codes → modesOn? l = some codes' →
        disjointGroups codes codes' = false) ∨
    ∃ codes codes', m.open? = some codes ∧ modesOn? l = some codes' ∧
      disjointGroups codes codes' = true ∧
      m.add (l, Block.read? l n) =
        ⟨" ".intercalate (codes ++ codes') :: m.written.tail, some (codes ++ codes')⟩ := by
  rw [ModalLines.add, modalOnly?_read?]
  cases hmodes : modesOn? l with
  | none => exact .inl ⟨rfl, fun _ _ _ h => by cases h⟩
  | some codes' =>
    cases hopen : m.open? with
    | none => exact .inl ⟨rfl, fun _ _ h => by cases h⟩
    | some codes =>
      cases hdisjoint : disjointGroups codes codes' with
      | false =>
        refine .inl ⟨by simp [hdisjoint], ?_⟩
        rintro _ _ ⟨⟩ ⟨⟩
        exact hdisjoint
      | true => exact .inr ⟨codes, codes', rfl, rfl, hdisjoint, by simp [hdisjoint]⟩

/-- The lines written for a program so far, the last one first: they have its parts, none of them
can be joined to the one before it, and the codes of the last one are open. -/
structure Grouped (ls : Lines) (m : ModalLines) : Prop where
  opened : m.open? = m.written.head?.bind modesOn?
  parts : m.written.reverse.flatMap modalParts = ls.flatMap modalParts
  tight : m.written.IsChain fun l' l => ¬ Joinable l l'
  known : ∀ l ∈ m.written, l ∈ ls ∨ (modesOn? l).isSome = true

theorem grouped_nil : Grouped [] {} := ⟨rfl, rfl, .nil, by simp⟩

/-- What shares a group with the last line shares it with the line that takes the last one in. -/
theorem Joinable.of_joined (h' : modesOn? l' = some codes)
    (hmodes : modesOn? (" ".intercalate (codes ++ codes')) = some (codes ++ codes'))
    (h : Joinable l (" ".intercalate (codes ++ codes'))) : Joinable l l' := by
  obtain ⟨before, both, hbefore, hboth, hdisjoint⟩ := h
  rw [hmodes] at hboth
  cases hboth
  refine ⟨before, codes, hbefore, h', ?_⟩
  simp only [disjointGroups, List.all_eq_true, List.all_append, Bool.and_eq_true] at hdisjoint ⊢
  exact fun code hcode => (hdisjoint code hcode).1

theorem Grouped.add {g : ModalLines} (h : Grouped ls g) (l : String) (n : Int) :
    Grouped (ls ++ [l]) (g.add (l, Block.read? l n)) := by
  have hknown : ∀ l' ∈ g.written, l' ∈ ls ++ [l] ∨ (modesOn? l').isSome = true := fun l' hl' =>
    (h.known l' hl').imp_left (List.mem_append_left _)
  rcases add_modal_cases g l n with ⟨hadd, hapart⟩ | ⟨codes, codes', hopen, hmodes, hdisjoint, hadd⟩
  · rw [hadd]
    refine ⟨by rw [List.head?_cons, Option.bind_some], ?_,
      List.isChain_cons.2 ⟨fun last hlast => ?_, h.tight⟩,
      List.forall_mem_cons.2 ⟨.inl (by simp), hknown⟩⟩
    · rw [List.reverse_cons, List.flatMap_append, List.flatMap_append, h.parts]
    · rintro ⟨codes, codes', hcodes, hcodes', hdisjoint⟩
      have hopen : g.open? = some codes := by
        rw [h.opened, Option.mem_def.1 hlast, Option.bind_some, hcodes]
      rw [hapart codes codes' hopen hcodes'] at hdisjoint
      cases hdisjoint
  · obtain ⟨last, hlast, hcodes⟩ := Option.bind_eq_some_iff.1 (h.opened.symm.trans hopen)
    obtain ⟨older, hwritten⟩ := List.head?_eq_some_iff.1 hlast
    have hboth := modesOn?_joined hcodes hmodes hdisjoint
    obtain ⟨-, hparts, htight, -⟩ := h
    rw [hwritten] at hparts htight hknown
    rw [hadd, hwritten, List.tail_cons]
    rw [List.reverse_cons, List.flatMap_append, List.flatMap_singleton,
      modalParts_of_some hcodes] at hparts
    have hsome : (modesOn? (" ".intercalate (codes ++ codes'))).isSome = true := by
      rw [hboth]
      rfl
    refine ⟨by rw [List.head?_cons, Option.bind_some, hboth], ?_,
      List.isChain_cons.2 ⟨fun l' hl' => ?_, htight.of_cons⟩,
      List.forall_mem_cons.2 ⟨.inr hsome, fun l' hl' => hknown l' (.tail _ hl')⟩⟩
    · rw [List.reverse_cons, List.flatMap_append, List.flatMap_append, List.flatMap_singleton,
        List.flatMap_singleton, modalParts_of_some hboth, modalParts_of_some hmodes, List.map_append,
        ← List.append_assoc, hparts]
    · exact fun hjoin => (List.isChain_cons.1 htight).1 l' hl' (hjoin.of_joined hcodes hboth)

theorem grouped_foldl (n : Int) (post : Lines) {g : ModalLines} (h : Grouped pre g) :
    Grouped (pre ++ post) ((readLines n post).foldl ModalLines.add g) := by
  induction post generalizing n pre g with
  | nil =>
    rw [List.append_nil]
    exact h
  | cons l post ih =>
    have hrest := ih (n + 1) (h.add l n)
    rw [List.append_assoc, List.singleton_append] at hrest
    rwa [readLines, List.foldl_cons]

/-- The lines of a program that are written, the last one first. -/
theorem grouped_consolidateCodes (ls : Lines) :
    Grouped ls ((readLines 1 ls).foldl ModalLines.add {}) := grouped_foldl 1 ls grouped_nil

theorem modalParts_consolidateCodes (ls : Lines) :
    (consolidateCodes ls).flatMap modalParts = ls.flatMap modalParts :=
  (grouped_consolidateCodes ls).parts

theorem endState_consolidateCodes (ls : Lines) : endState (consolidateCodes ls) = endState ls := by
  rw [endState_eq_foldlM, endState_eq_foldlM, modalParts_consolidateCodes]

theorem consolidateCodes_tight (ls : Lines) :
    (consolidateCodes ls).IsChain fun l l' => ¬ Joinable l l' :=
  List.isChain_reverse.2 (grouped_consolidateCodes ls).tight

/-- Lines of which no two neighbours can be joined stay as they are. -/
theorem consolidateCodes_of_tight (h : ls.IsChain fun l l' => ¬ Joinable l l') :
    consolidateCodes ls = ls := by
  rw [consolidateCodes_eq_self_iff]
  generalize (1 : Int) = n
  induction ls generalizing n with
  | nil => exact .nil
  | cons l ls ih =>
    obtain ⟨hnext, hrest⟩ := List.isChain_cons.1 h
    refine List.isChain_cons.2 ⟨fun line hline => ?_, ih hrest (n + 1)⟩
    cases ls with
    | nil => cases hline
    | cons l' ls =>
      cases hline
      rw [modalOnly?_read?, Bool.eq_false_iff]
      intro hany
      obtain ⟨codes, hcodes, hgoes⟩ := (Option.any_eq_true _ _).1 hany
      simp only [goesWith, modalOnly?_read?] at hgoes
      obtain ⟨codes', hcodes', hdisjoint⟩ := (Option.any_eq_true _ _).1 hgoes
      exact hnext l' rfl ⟨codes, codes', hcodes, hcodes', hdisjoint⟩

/-! ## Walls -/

/-- Lines written before, under the ones that count, have no part in what is added. -/
theorem add_under (under : Lines) {ws : Lines} {open? : Option (List Code)}
    (hws : open?.isSome = true → ws ≠ []) (l : String) (n n' : Int) :
    let g := ModalLines.add ⟨ws, open?⟩ (l, Block.read? l n')
    ModalLines.add ⟨ws ++ under, open?⟩ (l, Block.read? l n) = ⟨g.written ++ under, g.open?⟩ ∧
      (g.open?.isSome = true → g.written ≠ []) := by
  simp only [ModalLines.add, modalOnly?_read?]
  cases modesOn? l with
  | none => simp
  | some codes =>
    cases open? with
    | none => simp
    | some before =>
      have htail : (ws ++ under).tail = ws.tail ++ under := List.tail_append_of_ne_nil (hws rfl)
      cases hdisjoint : disjointGroups before codes with
      | false => simp [hdisjoint]
      | true => simp [hdisjoint, htail]

theorem foldl_add_under (post under : Lines) (n n' : Int) {ws : Lines} {open? : Option (List Code)}
    (hws : open?.isSome = true → ws ≠ []) :
    ((readLines n post).foldl ModalLines.add ⟨ws ++ under, open?⟩).written =
      ((readLines n' post).foldl ModalLines.add ⟨ws, open?⟩).written ++ under := by
  induction post generalizing n n' ws open? with
  | nil => rfl
  | cons l post ih =>
    obtain ⟨hadd, hws'⟩ := add_under under hws l n n'
    rw [readLines, readLines, List.foldl_cons, List.foldl_cons, hadd]
    generalize ModalLines.add ⟨ws, open?⟩ (l, Block.read? l n') = g at hws' ⊢
    exact ih (n + 1) (n' + 1) hws'

theorem readLines_append (n : Int) (pre post : Lines) :
    ∃ k, readLines n (pre ++ post) = readLines n pre ++ readLines k post := by
  induction pre generalizing n with
  | nil => exact ⟨n, rfl⟩
  | cons l pre ih =>
    obtain ⟨k, hk⟩ := ih (n + 1)
    exact ⟨k, congrArg (List.cons _) hk⟩

/-- What stands before a wall and what stands after it are joined on their own. -/
theorem consolidateCodes_append_wall (h : modesOn? l = none) :
    consolidateCodes (pre ++ l :: post) = consolidateCodes pre ++ l :: consolidateCodes post := by
  obtain ⟨k, hlines⟩ := readLines_append 1 pre (l :: post)
  have hwall : ∀ g : ModalLines, g.add (l, Block.read? l k) = ⟨l :: g.written, none⟩ := by
    intro g
    rw [ModalLines.add, modalOnly?_read?, h]
  rw [consolidateCodes, hlines, List.foldl_append, readLines, List.foldl_cons, hwall]
  have hunder := foldl_add_under post
    (l :: ((readLines 1 pre).foldl ModalLines.add {}).written) (k + 1) 1
    (by simp : (none : Option (List Code)).isSome = true → ([] : Lines) ≠ [])
  rw [List.nil_append] at hunder
  rw [hunder, List.reverse_append, List.reverse_cons, List.append_assoc]
  rfl

/-! ## What stays -/

theorem filterMap_line?_modalParts (ls : Lines) :
    (ls.flatMap modalParts).filterMap ModalPart.line? = ls.filter fun l => (modesOn? l).isNone := by
  induction ls with
  | nil => rfl
  | cons l ls ih =>
    rw [List.flatMap_cons, List.filterMap_append, ih]
    cases h : modesOn? l with
    | none =>
      rw [modalParts_of_none h, List.filter_cons_of_pos (by rw [h]; rfl)]
      rfl
    | some codes =>
      have hnone : (codes.map ModalPart.code).filterMap ModalPart.line? = [] := by
        simp [List.filterMap_eq_nil_iff, ModalPart.line?]
      rw [modalParts_of_some h, hnone, List.filter_cons_of_neg (by rw [h]; exact Bool.false_ne_true)]
      rfl

theorem filterMap_code?_modalParts (ls : Lines) :
    (ls.flatMap modalParts).filterMap ModalPart.code? = ls.flatMap fun l => (modesOn? l).getD [] := by
  rw [List.filterMap_flatMap]
  refine List.flatMap_congr fun l _ => ?_
  cases h : modesOn? l with
  | none =>
    rw [modalParts_of_none h]
    rfl
  | some codes =>
    rw [modalParts_of_some h, List.filterMap_map]
    exact List.filterMap_some

theorem lastState_take {stops : List Stop} (hwalk : m.walkFrom settings n ls = .ok stops) (i : Nat)
    (hi : i < stops.length) :
    (m.walkFrom settings n (ls.take i)).toOption.map (lastState m) = some stops[i].before := by
  induction ls generalizing m n stops i with
  | nil =>
    cases hwalk
    cases hi
  | cons l ls ih =>
    simp only [Modal.walkFrom, bind_eq_ok, pure_eq_ok] at hwalk
    obtain ⟨s, hs, more, hmore, rfl⟩ := hwalk
    cases i with
    | zero => exact congrArg some (stopAt_eq_ok hs).2.1.symm
    | succ i =>
      have hrest := ih hmore i (Nat.lt_of_succ_lt_succ hi)
      rw [walkFrom_eq_foldlM] at hrest ⊢
      rw [List.take_succ_cons, List.flatMap_cons, List.foldlM_append, foldlM_modalParts settings m n,
        hs]
      exact hrest

/-- A walk meets a line in the end state of the lines before it. -/
theorem endState_take {stops : List Stop} (hwalk : walk ls = .ok stops) (i : Nat)
    (hi : i < stops.length) : endState (ls.take i) = some stops[i].before :=
  lastState_take hwalk i hi

/-- Joining modal codes leaves every line that does more than state modal codes as it is, in its
place, and the walk meets it in the same state and leaves it in the same state, as it ends in the
same state; the codes on the other lines are the same in the same order; every line that comes out
is one of those that do more, or states codes of different groups; no two neighbours of the second
kind can be joined, and joining again changes nothing. -/
theorem consolidateCodes_regroups (ls : Lines) :
    (∀ pre l post, ls = pre ++ l :: post → modesOn? l = none →
      consolidateCodes ls = consolidateCodes pre ++ l :: consolidateCodes post ∧
        endState (consolidateCodes pre) = endState pre ∧
          endState (consolidateCodes pre ++ [l]) = endState (pre ++ [l])) ∧
    endState (consolidateCodes ls) = endState ls ∧
    ((consolidateCodes ls).filter fun l => (modesOn? l).isNone) =
      (ls.filter fun l => (modesOn? l).isNone) ∧
    ((consolidateCodes ls).flatMap fun l => (modesOn? l).getD []) =
      (ls.flatMap fun l => (modesOn? l).getD []) ∧
    (∀ l ∈ consolidateCodes ls, l ∈ ls ∧ modesOn? l = none ∨
      ∃ b, Block.read? l 1 = some b ∧ OnlyModes b (b.codes 'G')) ∧
    (consolidateCodes ls).IsChain (fun l l' => ¬ Joinable l l') ∧
    consolidateCodes (consolidateCodes ls) = consolidateCodes ls := by
  have hparts := modalParts_consolidateCodes ls
  have htight := consolidateCodes_tight ls
  refine ⟨?_, endState_consolidateCodes ls, ?_, ?_, fun l hl => ?_, htight,
    consolidateCodes_of_tight htight⟩
  · rintro pre l post rfl hwall
    refine ⟨consolidateCodes_append_wall hwall, endState_consolidateCodes pre, ?_⟩
    have hone : consolidateCodes (pre ++ [l]) = consolidateCodes pre ++ [l] :=
      consolidateCodes_append_wall hwall
    rw [← hone, endState_consolidateCodes]
  · rw [← filterMap_line?_modalParts, ← filterMap_line?_modalParts, hparts]
  · rw [← filterMap_code?_modalParts, ← filterMap_code?_modalParts, hparts]
  · cases hmodes : modesOn? l with
    | none =>
      have hknown := (grouped_consolidateCodes ls).known l (List.mem_reverse.1 hl)
      rw [hmodes] at hknown
      exact .inl ⟨hknown.resolve_right Bool.false_ne_true, rfl⟩
    | some codes =>
      obtain ⟨b, hread, hb⟩ := onlyModes_of_modesOn? hmodes
      refine .inr ⟨b, hread, ?_⟩
      rw [hb.said]
      exact hb

/-- A code may find its place on the line before, but not past a wall. -/
example : consolidateCodes ["G90", "G17 G21", "(turn)", "G91", "G80", "G90 G54"] =
    ["G90 G17 G21", "(turn)", "G91 G80", "G90 G54"] := by
  decide +kernel

end

end Rule

end PartProgram

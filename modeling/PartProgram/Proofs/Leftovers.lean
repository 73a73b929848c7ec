import Mathlib.Data.List.Find
import Mathlib.Data.List.Forall2
import Mathlib.Data.List.ReduceOption
import PartProgram.Proofs.Agreement
import PartProgram.Proofs.Render
import PartProgram.Proofs.Walk

/-!
# PartProgram.Proofs.Leftovers

Programs from whose blocks words were taken. A `Trim` says for a stop of a walk what goes from its
block and what line is left of it. The walk through the lines that are left keeps to the walk
through all lines if every line that is left does the same from the same state, and lines that went
did nothing: as no block looks further back than the state before it, it is enough that each
block does the same on its own.

* `Stop.Keeps`: what is left of a stop does what the stop did.
* `aligned_iff`: the walks keep to each other exactly if every block keeps what it does.
* `aligned_work`: walks that keep to each other do the same work.
-/

namespace PartProgram

/-! ## Blocks without some words -/

theorem Block.without_nil (b : Block) : b.without [] = b := by
  simp [without]

theorem Block.codes_without {b : Block} {marks : List String} (hG : "G" ∉ marks) :
    (b.without marks).codes 'G' = (b.codes 'G').filter fun code => !marks.contains code := by
  have hletter : ∀ w : Word, w.letter = 'G' → String.singleton w.letter ∉ marks := by
    intro w hw
    rw [hw]
    exact hG
  rw [codes, codes, without, List.filter_map, List.filter_filter, List.filter_filter]
  refine congrArg _ (List.filter_congr fun w _ => ?_)
  by_cases hw : w.letter = 'G'
  · simp [hw, hG]
  · simp [beq_false_of_ne hw]

theorem Block.value_without {b : Block} {marks : List String} {letter : Char}
    (h : ∀ w ∈ b.words, w.letter = letter → .singleton w.letter ∉ marks ∧ w.code ∉ marks) :
    (b.without marks).value letter = b.value letter := by
  rw [value, value, without, List.find?_filter]
  refine congrArg _ (List.find?_congr fun w hw => ?_)
  by_cases hletter : w.letter = letter
  · obtain ⟨hall, hcode⟩ := h w hw hletter
    subst hletter
    simp [hall, hcode]
  · simp [hletter]

/-- Codes and feed words are not looked at where blocks are alike. -/
theorem Block.alike_without (b : Block) {marks : List String}
    (h : ∀ mark ∈ marks, mark.toList.head? = some 'G' ∨ mark.toList.head? = some 'F') :
    b.Alike (b.without marks) := by
  intro letter hG hF
  refine value_without fun w _ hletter => ?_
  have hno : ∀ mark, mark.toList.head? = some letter → mark ∉ marks := by
    intro mark hhead hmark
    rcases h mark hmark with hmark | hmark
    · exact hG (Option.some.inj (hhead.symm.trans hmark))
    · exact hF (Option.some.inj (hhead.symm.trans hmark))
  exact ⟨hno _ (by simp [hletter]), hno _ (by simp [Word.code, hletter])⟩

/-! ## Lines and the words on them -/

/-- The line reads as a block with these words wherever it stands; without words it may be none. -/
def HoldsWords (line : String) (words : List Word) : Prop :=
  ∀ n, ((Block.read? line n).map Block.words).getD [] = words

theorem holdsWords_of_read? {line : String} {n : Int} {b : Block}
    (h : Block.read? line n = some b) : HoldsWords line b.words := by
  intro k
  simp only [Block.read?, Option.map_eq_some_iff] at h
  obtain ⟨code, hcode, rfl⟩ := h
  simp [Block.read?, hcode]

theorem holdsWords_of_read?_none {line : String} {n : Int} (h : Block.read? line n = none) :
    HoldsWords line [] := by
  intro k
  simp only [Block.read?, Option.map_eq_none_iff] at h
  simp [Block.read?, h]

theorem Block.WellFormed.holdsWords {b : Block} (h : b.WellFormed) :
    HoldsWords b.render b.words := by
  intro n
  by_cases hparts : b.parts = []
  · have hwords : b.words = [] := by
      by_contra hwords
      exact parts_ne_nil (.inl hwords) hparts
    rw [read?_render_of_parts_nil h hparts, hwords]
    rfl
  · rw [read?_render h hparts]
    rfl

/-- A block that says nothing. -/
def Block.empty : Block := ⟨"", 0, [], none, none, none⟩

/-- The block at a stop; one that says nothing where there is none. -/
def Stop.block (s : Stop) : Block := s.block?.getD .empty

/-- What a stop sets going. -/
def Stop.effect (s : Stop) : Effect := (s.resolution?.map Resolution.effect).getD .none

namespace Stop

variable {s : Stop} {b : Block} {r : Resolution}

theorem block_of_some (h : s.block? = some b) : s.block = b := by
  rw [block, h]
  rfl

theorem block_of_none (h : s.block? = none) : s.block = .empty := by
  rw [block, h]
  rfl

theorem block?_of_found (h : s.found = some (b, r)) : s.block? = some b := by
  rw [block?, h]
  rfl

theorem after_of_found (h : s.found = some (b, r)) : s.after = r.state := by
  rw [after, resolution?, h]
  rfl

theorem effect_of_found (h : s.found = some (b, r)) : s.effect = r.effect := by
  rw [effect, resolution?, h]
  rfl

end Stop

theorem resolve_of_no_words {settings : Settings} {b : Block} (h : b.words = []) (m : Modal) :
    m.resolve settings b = .ok ⟨m, .none, []⟩ := by
  have hcodes : b.codes 'G' = [] := by simp [Block.codes, h]
  have hdominant : b.dominant? = none := by simp [Block.dominant?, hcodes]
  have haxis : b.hasAxis = false := by simp [Block.hasAxis, Block.has, h]
  have hfeed : b.value 'F' = none := by simp [Block.value, h]
  have happly : m.apply b = m := by
    rw [Modal.apply, hcodes, hfeed]
    unfold Modal.applyDominant
    rw [hdominant]
    rfl
  simp [Modal.resolve, hdominant, haxis, happly]

section Stops

variable {same : Option Float → Option Float → Prop} {settings : Settings} {m m' : Modal} {n : Int}
  {line : String} {s : Stop} {b : Block} {r : Resolution}

/-- What happens at a line is what its words do. -/
theorem stopAt_words (hsame : Equivalence same) (hline : HoldsWords line b.words)
    (hm : m.Agrees same m') (h : m.resolve settings b = .ok r) :
    ∃ s, m'.stopAt settings n line = .ok s ∧ r.state.Agrees same s.after ∧
      r.effect.Agrees same s.effect := by
  have hwords := hline n
  rw [Modal.stopAt]
  cases hread : Block.read? line n with
  | none =>
    rw [hread] at hwords
    rw [resolve_of_no_words hwords.symm] at h
    cases h
    exact ⟨_, rfl, hm, .none⟩
  | some b' =>
    rw [hread] at hwords
    obtain ⟨r', hr', hagrees⟩ := resolve_agrees hsame hwords hm h
    refine ⟨⟨line, m', some (b', r')⟩, ?_, hagrees.state, hagrees.effect⟩
    simp only [hr', bind_eq_ok, pure_eq_ok]
    exact ⟨r', rfl, rfl⟩

theorem exists_resolve_of_stopAt (hsame : Equivalence same) (hline : HoldsWords line b.words)
    (hm : m.Agrees same m') (h : m'.stopAt settings n line = .ok s) :
    ∃ r, m.resolve settings b = .ok r ∧ r.state.Agrees same s.after ∧
      r.effect.Agrees same s.effect := by
  have hwords := hline n
  rw [Modal.stopAt] at h
  split at h
  · rename_i hread
    rw [hread] at hwords
    cases h
    exact ⟨_, resolve_of_no_words hwords.symm m, hm, .none⟩
  · rename_i b' hread
    rw [hread] at hwords
    simp only [bind_eq_ok, pure_eq_ok] at h
    obtain ⟨r', hr', rfl⟩ := h
    obtain ⟨r, hr, hagrees⟩ := resolve_agrees hsame hwords.symm (hm.symm hsame) hr'
    exact ⟨r, hr, hagrees.state.symm hsame, hagrees.effect.symm hsame⟩

end Stops

/-! ## Trimmed stops -/

/-- A stop, what goes from its block, and the line that is left of it. -/
structure Trim where
  stop : Stop
  drop : List String
  left : Option String

namespace Trim

/-- What stays of the block. -/
def kept (t : Trim) : Block := t.stop.block.without t.drop

/-- The line that is left holds the words that stay. -/
def Valid (t : Trim) : Prop :=
  match t.left with
  | none => t.kept.words = []
  | some line => HoldsWords line t.kept.words

end Trim

/-- Nothing is set going. -/
def Effect.IsNone (e : Effect) : Prop := e = .none

section Keeping

variable (same : Option Float → Option Float → Prop) (lost : Effect → Prop)

/-- What is left of a stop does the same from the same state, and leaves the same state; a stop is
gone only if it left the state as it was. Some effects may be lost. -/
inductive Stop.Keeps : Stop → Option Stop → Prop where
  | gone {s : Stop} (effect : lost s.effect) (state : s.after.Agrees same s.before) : Keeps s none
  | stays {s s' : Stop} (before : s.before.Agrees same s'.before)
      (after : s.after.Agrees same s'.after)
      (effect : s.effect.Agrees same s'.effect ∨ lost s.effect ∧ s'.effect = .none) :
      Keeps s (some s')

/-- The block that stays does on its own what the whole block does. -/
def Trim.DoesTheSame (settings : Settings) (t : Trim) : Prop :=
  ∃ r, t.stop.before.resolve settings t.kept = .ok r ∧ t.stop.after.Agrees same r.state ∧
    (t.stop.effect.Agrees same r.effect ∨ lost t.stop.effect ∧ r.effect = .none)

/-- The walk through the lines that are left keeps, line for line, to the stops. -/
def Aligned (settings : Settings) (m : Modal) (n : Int) (trims : List Trim) : Prop :=
  ∃ found : List (Option Stop),
    m.walkFrom settings n (trims.filterMap Trim.left) = .ok found.reduceOption ∧
      found.map (Option.map Stop.raw) = trims.map Trim.left ∧
        List.Forall₂ (Stop.Keeps same lost) (trims.map Trim.stop) found

end Keeping

section Walks

variable {same : Option Float → Option Float → Prop} {lost : Effect → Prop} {settings : Settings}
  {m m' : Modal} {n n' : Int} {t : Trim} {trims : List Trim} {ls : List String} {line : String}

theorem aligned_nil : Aligned same lost settings m n [] := ⟨[], rfl, rfl, .nil⟩

theorem aligned_cons_none (ht : t.left = none) :
    Aligned same lost settings m n (t :: trims) ↔
      t.stop.Keeps same lost none ∧ Aligned same lost settings m n trims := by
  constructor
  · rintro ⟨found, hwalk, hraw, hkeeps⟩
    rw [List.map_cons] at hkeeps
    cases hkeeps with
    | @cons _ f _ found hkeep hkeeps =>
      rw [List.map_cons, List.map_cons, ht] at hraw
      obtain ⟨hf, hmore⟩ := List.cons.inj hraw
      cases Option.map_eq_none_iff.1 hf
      rw [List.filterMap_cons_none ht, List.reduceOption_cons_of_none] at hwalk
      exact ⟨hkeep, found, hwalk, hmore, hkeeps⟩
  · rintro ⟨hkeep, found, hwalk, hraw, hkeeps⟩
    refine ⟨none :: found, ?_, ?_, .cons hkeep hkeeps⟩
    · rw [List.filterMap_cons_none ht, List.reduceOption_cons_of_none]
      exact hwalk
    · rw [List.map_cons, List.map_cons, ht, hraw]
      rfl

theorem aligned_cons_some (ht : t.left = some line) :
    Aligned same lost settings m n (t :: trims) ↔
      ∃ s, m.stopAt settings n line = .ok s ∧ t.stop.Keeps same lost (some s) ∧
        Aligned same lost settings s.after (n + 1) trims := by
  constructor
  · rintro ⟨found, hwalk, hraw, hkeeps⟩
    rw [List.map_cons] at hkeeps
    cases hkeeps with
    | @cons _ f _ found hkeep hkeeps =>
      rw [List.map_cons, List.map_cons, ht] at hraw
      obtain ⟨hf, hmore⟩ := List.cons.inj hraw
      obtain ⟨s, rfl, -⟩ := Option.map_eq_some_iff.1 hf
      rw [List.filterMap_cons_some ht, List.reduceOption_cons_of_some, Modal.walkFrom] at hwalk
      simp only [bind_eq_ok, pure_eq_ok, List.cons.injEq] at hwalk
      obtain ⟨s', hs', rest, hrest, rfl, rfl⟩ := hwalk
      exact ⟨s', hs', hkeep, found, hrest, hmore, hkeeps⟩
  · rintro ⟨s, hs, hkeep, found, hwalk, hraw, hkeeps⟩
    refine ⟨some s :: found, ?_, ?_, .cons hkeep hkeeps⟩
    · rw [List.filterMap_cons_some ht, List.reduceOption_cons_of_some, Modal.walkFrom]
      simp only [bind_eq_ok, pure_eq_ok]
      exact ⟨s, hs, _, hwalk, rfl⟩
    · rw [List.map_cons, List.map_cons, ht, hraw, Option.map_some, (stopAt_eq_ok hs).1]

/-- A block from which nothing goes does the same. -/
theorem doesTheSame_of_kept_eq (hsame : Equivalence same)
    (hstop : t.stop.before.stopAt settings n line = .ok t.stop) (hkept : t.kept = t.stop.block) :
    t.DoesTheSame same lost settings := by
  cases hfound : t.stop.found with
  | none =>
    have hblock : t.stop.block = .empty := by
      refine Stop.block_of_none ?_
      rw [Stop.block?, hfound]
      rfl
    have hafter : t.stop.after = t.stop.before := by
      rw [Stop.after, Stop.resolution?, hfound]
      rfl
    have heffect : t.stop.effect = .none := by
      rw [Stop.effect, Stop.resolution?, hfound]
      rfl
    refine ⟨_, resolve_of_no_words (by rw [hkept, hblock]; rfl) _, ?_, .inl ?_⟩
    · rw [hafter]
      exact .refl hsame _
    · rw [heffect]
      exact .none
  | some found =>
    obtain ⟨b, r⟩ := found
    have hresolve := stopAt_resolve hstop hfound
    rw [← Stop.block_of_some (Stop.block?_of_found hfound), ← hkept] at hresolve
    refine ⟨r, hresolve, ?_, .inl ?_⟩
    · rw [Stop.after_of_found hfound]
      exact .refl hsame _
    · rw [Stop.effect_of_found hfound]
      exact .refl hsame _

/-- What is left of a stop, from a state that agrees with the one before the stop, keeps to it
exactly if the block that stays does the same on its own. -/
theorem keeps_iff_of_none (hlost : lost .none) (ht : t.Valid)
    (hleft : t.left = none) :
    t.stop.Keeps same lost none ↔ t.DoesTheSame same lost settings := by
  rw [Trim.Valid, hleft] at ht
  have hresolve : t.stop.before.resolve settings t.kept = .ok ⟨t.stop.before, .none, []⟩ :=
    resolve_of_no_words ht t.stop.before
  constructor
  · rintro ⟨effect, state⟩
    exact ⟨_, hresolve, state, .inr ⟨effect, rfl⟩⟩
  · rintro ⟨r, hr, state, effect⟩
    rw [hresolve] at hr
    cases hr
    refine .gone ?_ state
    rcases effect with effect | effect
    · generalize t.stop.effect = e at effect
      cases effect
      exact hlost
    · exact effect.1

theorem keeps_iff_of_some (hsame : Equivalence same) (ht : t.Valid) (hleft : t.left = some line)
    (hm : t.stop.before.Agrees same m') :
    (∃ s, m'.stopAt settings n line = .ok s ∧ t.stop.Keeps same lost (some s)) ↔
      t.DoesTheSame same lost settings := by
  rw [Trim.Valid, hleft] at ht
  constructor
  · rintro ⟨s, hs, hkeep⟩
    obtain ⟨r, hr, hstate, heffect⟩ := exists_resolve_of_stopAt hsame ht hm hs
    cases hkeep with
    | stays before after effect =>
      refine ⟨r, hr, after.trans hsame (hstate.symm hsame), ?_⟩
      rcases effect with effect | ⟨effect, hnone⟩
      · exact .inl (effect.trans hsame (heffect.symm hsame))
      · rw [hnone] at heffect
        generalize r.effect = e at heffect
        cases heffect
        exact .inr ⟨effect, rfl⟩
  · rintro ⟨r, hr, hafter, heffect⟩
    obtain ⟨s, hs, hstate, hagrees⟩ := stopAt_words (n := n) hsame ht hm hr
    refine ⟨s, hs, .stays ?_ (hafter.trans hsame hstate) ?_⟩
    · rw [(stopAt_eq_ok hs).2.1]
      exact hm
    · rcases heffect with heffect | ⟨heffect, hnone⟩
      · exact .inl (heffect.trans hsame hagrees)
      · rw [hnone] at hagrees
        generalize s.effect = e at hagrees
        cases hagrees
        exact .inr ⟨heffect, rfl⟩

/-- The walks keep to each other exactly if every block does the same without what goes from it. -/
theorem aligned_iff (hsame : Equivalence same) (hlost : lost .none)
    (hvalid : ∀ t ∈ trims, t.Valid)
    (hwalk : m.walkFrom settings n ls = .ok (trims.map Trim.stop)) (hm : m.Agrees same m') :
    Aligned same lost settings m' n' trims ↔ ∀ t ∈ trims, t.DoesTheSame same lost settings := by
  induction trims generalizing m m' n n' ls with
  | nil => simp [aligned_nil]
  | cons t trims ih =>
    cases ls with
    | nil => cases hwalk
    | cons raw ls =>
      simp only [Modal.walkFrom, bind_eq_ok, pure_eq_ok, List.map_cons, List.cons.injEq] at hwalk
      obtain ⟨s, hs, more, hmore, rfl, rfl⟩ := hwalk
      have ht := hvalid t (.head _)
      have ih (m' : Modal) (hm : t.stop.after.Agrees same m') :
          Aligned same lost settings m' (if t.left.isSome then n' + 1 else n') trims ↔
            ∀ t ∈ trims, t.DoesTheSame same lost settings :=
        ih (fun t ht => hvalid t (.tail _ ht)) hmore hm
      have hbefore : t.stop.before.Agrees same m' := by
        rw [(stopAt_eq_ok hs).2.1]
        exact hm
      rw [List.forall_mem_cons]
      cases hleft : t.left with
      | none =>
        rw [hleft] at ih
        rw [aligned_cons_none hleft, ← keeps_iff_of_none hlost ht hleft]
        refine and_congr_right fun hkeep => ?_
        cases hkeep with
        | gone effect state => exact ih m' (state.trans hsame hbefore)
      | some line =>
        rw [hleft] at ih
        rw [aligned_cons_some hleft, ← keeps_iff_of_some (n := n') hsame ht hleft hbefore]
        constructor
        · rintro ⟨s', hs', hkeep, haligned⟩
          refine ⟨⟨s', hs', hkeep⟩, ?_⟩
          cases hkeep with
          | stays before after effect => exact (ih _ after).1 haligned
        · rintro ⟨⟨s', hs', hkeep⟩, hrest⟩
          refine ⟨s', hs', hkeep, ?_⟩
          cases hkeep with
          | stays before after effect => exact (ih _ after).2 hrest

/-! ## Work -/

/-- What is set going at the stops, as far as it counts. -/
def workOf (counts : Effect → Bool) (stops : List Stop) : List Effect :=
  (stops.map Stop.effect).filter counts

theorem workOf_cons_of_pos {counts : Effect → Bool} {s : Stop} (h : counts s.effect = true)
    (stops : List Stop) : workOf counts (s :: stops) = s.effect :: workOf counts stops := by
  rw [workOf, List.map_cons, List.filter_cons_of_pos h]
  rfl

theorem workOf_cons_of_neg {counts : Effect → Bool} {s : Stop} (h : counts s.effect = false)
    (stops : List Stop) : workOf counts (s :: stops) = workOf counts stops := by
  rw [workOf, List.map_cons, List.filter_cons_of_neg (by simp [h])]
  rfl

/-- Walks that keep to each other set the same going, apart from effects that may be lost. -/
theorem aligned_work (counts : Effect → Bool) (hlost : lost .none)
    (hno : ∀ e, lost e → counts e = false)
    (hcounts : ∀ e e', e.Agrees same e' → counts e' = counts e)
    (h : Aligned same lost settings m n trims) :
    ∃ stops, m.walkFrom settings n (trims.filterMap Trim.left) = .ok stops ∧
      List.Forall₂ (Effect.Agrees same) (workOf counts (trims.map Trim.stop))
        (workOf counts stops) := by
  obtain ⟨found, hwalk, -, hkeeps⟩ := h
  refine ⟨_, hwalk, ?_⟩
  clear hwalk
  generalize trims.map Trim.stop = stops at hkeeps
  induction hkeeps with
  | nil => exact .nil
  | @cons s f stops found hkeep _ ih =>
    cases hkeep with
    | gone effect state =>
      rw [List.reduceOption_cons_of_none, workOf_cons_of_neg (hno _ effect)]
      exact ih
    | @stays s' before after effect =>
      rw [List.reduceOption_cons_of_some]
      rcases effect with effect | ⟨effect, hnone⟩
      · have heq := hcounts _ _ effect
        cases hs : counts s.effect with
        | false => rw [workOf_cons_of_neg hs, workOf_cons_of_neg (heq.trans hs)]; exact ih
        | true =>
          rw [workOf_cons_of_pos hs, workOf_cons_of_pos (heq.trans hs)]
          exact .cons effect ih
      · have hs' : counts s'.effect = false := by rw [hnone]; exact hno _ hlost
        rw [workOf_cons_of_neg (hno _ effect), workOf_cons_of_neg hs']
        exact ih

end Walks

end PartProgram

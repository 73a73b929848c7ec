import PartProgram.Proofs.Leftovers
import PartProgram.Proofs.Printout

/-!
# PartProgram.Proofs.ConversionNotices

What a conversion says about the lines that it cannot put into conversational blocks. A notice comes
from what a block sets going: a shape, a cycle without a definition, or a thread whose pitch is not
known. A code that sets nothing going and changes no mode is passed over without a word.

* `resolve_heardWords`: a block does the same without codes that nothing listens to.
* `conversationalFormat_notices`: all that a conversion says, in order, and when it names every
  block with such a code.
-/

namespace PartProgram

/-- The codes that a block or the modes listen to. -/
def Code.heard : List Code := byDominance ++ ["G17", "G18", "G19", "G80", "G90", "G91"]

/-- Whether a code stands on the block that nothing listens to, such as a unit or an offset. -/
def Block.hasIdleCode (b : Block) : Bool := (b.codes 'G').any fun code => !Code.heard.contains code

/-- The block without codes that nothing listens to. -/
def Block.heardWords (b : Block) : Block :=
  { b with words := b.words.filter fun w => w.letter != 'G' || Code.heard.contains w.code }

/-- The line that a notice is about. -/
def Notice.line? : Notice → Option Int
  | line w => some w.line
  | pitchUnknown n => some n
  | shapeAsComment n _ => some n
  | cycleAsMoves n _ => some n
  | longBlock n _ _ => some n
  | _ => none

/-! ## Codes that nothing listens to -/

section Idle

variable {m : Modal} {b : Block} {code : Code} {settings : Settings} {r : Resolution}

theorem applyCode_of_not_heard (hcode : code ∉ Code.heard) : m.applyCode code = m := by
  have hplane : ∀ plane : Plane, plane.code ∈ Code.heard := by
    intro plane
    cases plane <;> decide
  have hnone : Plane.ofCode? code = none := by
    cases hfound : Plane.ofCode? code with
    | none => rfl
    | some plane =>
      have heq : plane.code = code := by simpa using List.find?_some hfound
      exact absurd (heq ▸ hplane plane) hcode
  have hmode : code ∉ Code.motionModes :=
    fun h => hcode ((by decide : ∀ c ∈ Code.motionModes, c ∈ Code.heard) code h)
  have hcycle : code ∉ Code.cycles :=
    fun h => hcode ((by decide : ∀ c ∈ Code.cycles, c ∈ Code.heard) code h)
  have hone : ∀ c ∈ Code.heard, code ≠ c := by
    rintro c hc rfl
    exact hcode hc
  unfold Modal.applyCode
  rw [if_neg (hone "G90" (by decide)), if_neg (hone "G91" (by decide)), hnone,
    if_neg (hone "G80" (by decide)), if_neg hmode, if_neg hcycle]

theorem codes_heardWords (b : Block) :
    b.heardWords.codes 'G' = (b.codes 'G').filter Code.heard.contains := by
  rw [Block.codes, Block.codes, Block.heardWords, List.filter_map, List.filter_filter,
    List.filter_filter]
  refine congrArg _ (List.filter_congr fun w _ => ?_)
  by_cases hw : w.letter = 'G'
  · simp [hw]
  · simp [beq_false_of_ne hw]

theorem applyCodes_heard (codes : List Code) :
    (codes.filter Code.heard.contains).foldl Modal.applyCode m = codes.foldl Modal.applyCode m := by
  induction codes generalizing m with
  | nil => rfl
  | cons code rest ih =>
    by_cases hcode : code ∈ Code.heard
    · rw [List.filter_cons_of_pos (List.contains_iff_mem.2 hcode), List.foldl_cons, List.foldl_cons,
        ih]
    · rw [List.filter_cons_of_neg (by simpa using hcode), List.foldl_cons,
        applyCode_of_not_heard hcode, ih]

theorem value_heardWords {letter : Char} (hletter : letter ≠ 'G') :
    b.heardWords.value letter = b.value letter := by
  rw [Block.value, Block.value, Block.heardWords, List.find?_filter]
  refine congrArg _ (List.find?_congr fun w _ => ?_)
  by_cases hw : w.letter = letter
  · subst hw
    simp [bne_iff_ne.2 hletter]
  · simp [hw]

theorem dominant?_heardWords (b : Block) : b.heardWords.dominant? = b.dominant? := by
  unfold Block.dominant?
  rw [codes_heardWords]
  refine List.find?_congr fun code hcode => ?_
  have hheard : code ∈ Code.heard := List.mem_append_left _ hcode
  rw [Bool.eq_iff_iff, List.contains_iff_mem, List.contains_iff_mem, List.mem_filter]
  exact ⟨fun h => h.1, fun h => ⟨h, List.contains_iff_mem.2 hheard⟩⟩

/-- A block does the same without codes that nothing listens to. -/
theorem resolve_heardWords (h : m.resolve settings b = .ok r) :
    ∃ r', m.resolve settings b.heardWords = .ok r' ∧ r.Agrees Eq r' := by
  have happly : m.apply b.heardWords = m.apply b := by
    unfold Modal.apply Modal.applyDominant
    rw [codes_heardWords, applyCodes_heard, dominant?_heardWords, value_heardWords (by decide)]
  refine resolve_agrees_of_apply rfl (fun letter hG _ => value_heardWords hG)
    (dominant?_heardWords b) ?_ h
  rw [happly]
  exact .refl ⟨fun _ => rfl, Eq.symm, Eq.trans⟩ _

end Idle

/-! ## What is said -/

theorem Told.notices_bind {α β : Type} {t : Told α} {f : α → Told β} {a : α}
    (h : t.result = .ok a) : (t >>= f).notices = t.notices ++ (f a).notices := by
  show (Told.bind t f).notices = _
  rw [Told.bind, h]

theorem Told.notices_pure {α : Type} (a : α) : (pure a : Told α).notices = [] := rfl

theorem Told.notices_lift {α : Type} (e : Except Fault α) : (liftM e : Told α).notices = [] := rfl

namespace Conversational

/-- What is said about a cycle. -/
def cycleNotices (job : Job) (c : FixedCycle) (feed speed : Option Float) : List Notice :=
  match c.kind with
  | none => [.cycleAsMoves c.line c.code]
  | some kind =>
    if job.heidenhainFlag .useCycleDefine && (kind = .rightTapping && (pitch? feed speed).isNone) then
      [.pitchUnknown c.line]
    else []

/-- What is said about a stop, with what is known about tool and spindle before it. -/
def stopNotices (job : Job) (t : Tooling) (s : Stop) : List Notice :=
  match s.found with
  | none => []
  | some (b, r) =>
    match r.effect with
    | .none => []
    | .cycle c => cycleNotices job c r.state.feed (t.meet b).speed
    | .motion { action := .shape kind _, .. } => [.shapeAsComment b.line kind.code]
    | .motion _ => []

/-- The stops with what is known about tool and spindle before each of them. -/
def withTooling (t : Tooling) : List Stop → List (Stop × Tooling)
  | [] => []
  | s :: rest => (s, t) :: withTooling (t.after s) rest

/-- What is said about all stops. -/
def toldFrom (job : Job) (t : Tooling) (stops : List Stop) : List Notice :=
  (withTooling t stops).flatMap fun (s, t) => stopNotices job t s

variable {job : Job} {t : Tooling} {s : Stop} {ls output : Lines} {stops : List Stop}
  {settings : Settings} {m : Modal} {n : Int}

theorem ofCycle_notices {kind : CycleKind} {h : Hole Float} {line : Int} {feed speed : Option Float}
    {d : Definition} (hd : (Definition.ofCycle kind h line feed speed).result = .ok d) :
    (Definition.ofCycle kind h line feed speed).notices =
      if kind = .rightTapping && (pitch? feed speed).isNone then [.pitchUnknown line] else [] := by
  rw [Definition.ofCycle] at hd ⊢
  split at hd
  · rename_i htapping
    simp only [Told.result_bind_eq_ok] at hd
    obtain ⟨-, -, rest, hrest, -⟩ := hd
    rw [if_pos htapping, if_pos htapping, Told.notices_bind rfl, Told.notices_bind hrest]
    rfl
  · rename_i htapping
    simp only [Told.result_bind_eq_ok] at hd
    obtain ⟨rest, hrest, -⟩ := hd
    rw [if_neg htapping, if_neg htapping, Told.notices_bind hrest]
    rfl

theorem cycleEntries_notices {c : FixedCycle} {feed speed : Option Float} {codes : List Code}
    {es : List Entry} (h : (cycleEntries job c feed speed codes).result = .ok es) :
    (cycleEntries job c feed speed codes).notices = cycleNotices job c feed speed := by
  unfold cycleEntries at h ⊢
  unfold cycleNotices
  cases hkind : c.kind with
  | none =>
    simp only
    rw [Told.notices_bind rfl]
    rfl
  | some kind =>
    simp only [hkind] at h ⊢
    cases hflag : job.heidenhainFlag .useCycleDefine with
    | false => rfl
    | true =>
      simp only [hflag, if_true, Told.result_bind_eq_ok] at h ⊢
      obtain ⟨d, hd, -⟩ := h
      rw [Told.notices_bind hd, ofCycle_notices hd, Told.notices_pure, List.append_nil,
        Bool.true_and]

theorem stopEntries_notices {es : List Entry} (h : (stopEntries job t s).result = .ok es) :
    (stopEntries job t s).notices = stopNotices job t s := by
  unfold stopEntries at h ⊢
  unfold stopNotices
  cases hfound : s.found with
  | none => rfl
  | some found =>
    obtain ⟨b, r⟩ := found
    simp only [hfound, Told.result_bind_eq_ok] at h ⊢
    obtain ⟨tools, htools, effects, heffects, -⟩ := h
    rw [Told.notices_bind htools, Told.notices_lift, List.nil_append, Told.notices_bind heffects,
      Told.notices_pure, List.append_nil]
    unfold effectEntries at heffects ⊢
    cases heffect : r.effect with
    | none => rfl
    | cycle c =>
      simp only [heffect] at heffects ⊢
      exact cycleEntries_notices heffects
    | motion mo =>
      obtain ⟨start, finish, line, feed, action⟩ := mo
      cases action <;> rfl

theorem convertFrom_notices {entries : List Entry} {t' : Tooling}
    (h : (convertFrom job m t n ls).result = .ok (entries, t'))
    (hwalk : m.walkFrom .standard n ls = .ok stops) :
    (convertFrom job m t n ls).notices = toldFrom job t stops := by
  induction ls generalizing m t n entries t' stops with
  | nil =>
    cases hwalk
    rfl
  | cons raw rest ih =>
    simp only [Modal.walkFrom, bind_eq_ok, pure_eq_ok] at hwalk
    obtain ⟨s, hs, more, hmore, rfl⟩ := hwalk
    simp only [convertFrom, Told.result_bind_eq_ok] at h
    obtain ⟨s', hs', here, hhere, ⟨later, t''⟩, hlater, -⟩ := h
    rw [Told.result_lift] at hs'
    cases hs.symm.trans hs'
    have hstop : (liftM (m.stopAt .standard n raw) : Told Stop).result = .ok s := by
      rw [Told.result_lift, hs]
    rw [convertFrom, Told.notices_bind hstop, Told.notices_lift, List.nil_append,
      Told.notices_bind hhere, Told.notices_bind hlater, Told.notices_pure, List.append_nil,
      stopEntries_notices hhere, ih hlater hmore]
    rfl

/-! ## Which lines are named -/

/-- A notice names the line of the block that it is about. -/
theorem line_of_mem_stopNotices {raw : String} (hstop : m.stopAt settings n raw = .ok s)
    {notice : Notice} (h : notice ∈ stopNotices job t s) : notice.line? = some n := by
  rw [Modal.stopAt] at hstop
  split at hstop
  · cases hstop
    cases h
  · rename_i b hread
    simp only [bind_eq_ok, pure_eq_ok] at hstop
    obtain ⟨r, hr, rfl⟩ := hstop
    have hline := Block.read?_line hread
    have harrives := resolve_arrives hr
    simp only [stopNotices] at h
    split at h
    · cases h
    · rename_i c hcycle
      have hcline : c.line = n := by
        rw [← hline]
        cases harrives with
        | cycle line above =>
          cases hcycle
          exact line
        | _ => cases hcycle
      unfold cycleNotices at h
      split at h
      · rw [List.mem_singleton.1 h, Notice.line?, hcline]
      · split at h
        · rw [List.mem_singleton.1 h, Notice.line?, hcline]
        · cases h
    · rw [List.mem_singleton.1 h, Notice.line?, hline]
    · cases h

theorem line_of_mem_withTooling (hwalk : m.walkFrom settings n ls = .ok stops)
    {p : Stop × Tooling} (hp : p ∈ withTooling t stops) :
    ∃ k ≥ n, ∃ m raw, Modal.stopAt settings m k raw = .ok p.1 := by
  induction ls generalizing m n t stops with
  | nil =>
    cases hwalk
    cases hp
  | cons raw rest ih =>
    simp only [Modal.walkFrom, bind_eq_ok, pure_eq_ok] at hwalk
    obtain ⟨s, hs, more, hmore, rfl⟩ := hwalk
    cases hp with
    | head => exact ⟨n, le_refl n, m, raw, hs⟩
    | tail _ hp =>
      obtain ⟨k, hk, hstop⟩ := ih hmore hp
      exact ⟨k, by omega, hstop⟩

theorem line_of_block {raw : String} (hstop : m.stopAt settings n raw = .ok s)
    (hblock : s.found ≠ none) : s.block.line = n := by
  obtain ⟨found, hfound⟩ := Option.ne_none_iff_exists'.1 hblock
  obtain ⟨b, r⟩ := found
  have hb := Stop.block?_of_found hfound
  rw [Stop.block_of_some hb]
  rw [(stopAt_eq_ok hstop).2.2] at hb
  exact Block.read?_line hb

/-- The line of a block is named exactly if something is said about the block. -/
theorem named_iff (hwalk : m.walkFrom settings n ls = .ok stops) {p : Stop × Tooling}
    (hp : p ∈ withTooling t stops) (hblock : p.1.found ≠ none) :
    (∃ notice ∈ toldFrom job t stops, notice.line? = some p.1.block.line) ↔
      stopNotices job p.2 p.1 ≠ [] := by
  induction ls generalizing m n t stops with
  | nil =>
    cases hwalk
    cases hp
  | cons raw rest ih =>
    simp only [Modal.walkFrom, bind_eq_ok, pure_eq_ok] at hwalk
    obtain ⟨s, hs, more, hmore, rfl⟩ := hwalk
    have hlater : ∀ notice ∈ toldFrom job (t.after s) more, ∃ k > n, notice.line? = some k := by
      intro notice hnotice
      obtain ⟨q, hq, hnotice⟩ := List.mem_flatMap.1 hnotice
      obtain ⟨k, hk, m', raw', hstop⟩ := line_of_mem_withTooling hmore hq
      exact ⟨k, by omega, line_of_mem_stopNotices hstop hnotice⟩
    have hsplit : toldFrom job t (s :: more) =
        stopNotices job t s ++ toldFrom job (t.after s) more := by
      rw [toldFrom, withTooling, List.flatMap_cons]
      rfl
    rw [hsplit]
    cases hp with
    | head =>
      rw [line_of_block hs hblock]
      constructor
      · rintro ⟨notice, hnotice, hline⟩ hnil
        rw [hnil, List.nil_append] at hnotice
        obtain ⟨k, hk, hline'⟩ := hlater notice hnotice
        rw [hline] at hline'
        cases hline'
        omega
      · intro hne
        obtain ⟨notice, hnotice⟩ := List.exists_mem_of_ne_nil _ hne
        exact ⟨notice, List.mem_append_left _ hnotice, line_of_mem_stopNotices hs hnotice⟩
    | tail _ hp =>
      rw [← ih hmore hp]
      obtain ⟨k, hk, m', raw', hstop⟩ := line_of_mem_withTooling hmore hp
      rw [line_of_block hstop hblock]
      constructor
      · rintro ⟨notice, hnotice, hline⟩
        refine ⟨notice, (List.mem_append.1 hnotice).resolve_left fun hnotice => ?_, hline⟩
        rw [line_of_mem_stopNotices hs hnotice] at hline
        cases hline
        omega
      · rintro ⟨notice, hnotice, hline⟩
        exact ⟨notice, List.mem_append_right _ hnotice, hline⟩

theorem exists_withTooling (t : Tooling) (hs : s ∈ stops) : ∃ t', (s, t') ∈ withTooling t stops := by
  induction stops generalizing t with
  | nil => cases hs
  | cons s' rest ih =>
    cases hs with
    | head => exact ⟨t, .head _⟩
    | tail _ hs =>
      obtain ⟨t', ht'⟩ := ih (t.after s') hs
      exact ⟨t', .tail _ ht'⟩

theorem mem_of_mem_withTooling {p : Stop × Tooling} (hp : p ∈ withTooling t stops) :
    p.1 ∈ stops := by
  induction stops generalizing t with
  | nil => cases hp
  | cons s rest ih =>
    cases hp with
    | head => exact .head _
    | tail _ hp => exact .tail _ (ih hp)

theorem found_of_hasIdleCode (h : s.block.hasIdleCode = true) : s.found ≠ none := by
  intro hnone
  have hb : s.block? = none := by rw [Stop.block?, hnone]; rfl
  rw [Stop.block_of_none hb] at h
  cases h

/-! ## Whole programs -/

/-- Every notice of a conversion comes from the walk through the program. -/
theorem conversationalFormat_told (h : (Rule.conversationalFormat job ls).result = .ok output)
    (hblocks : isConversational ls = false) (hwalk : walk ls = .ok stops) :
    (Rule.conversationalFormat job ls).notices = toldFrom job {} stops := by
  rw [Rule.conversationalFormat, hblocks, if_neg Bool.false_ne_true] at h ⊢
  simp only [convert, Told.result_bind_eq_ok] at h
  obtain ⟨entries, hentries, -⟩ := h
  rw [convert, Told.notices_bind hentries, Told.notices_pure, List.append_nil]
  simp only [programEntries, Told.result_bind_eq_ok] at hentries
  obtain ⟨⟨body, t⟩, hbody, bounds, hbounds, -⟩ := hentries
  rw [programEntries, Told.notices_bind hbody, Told.notices_bind hbounds, Told.notices_lift,
    Told.notices_pure, List.nil_append, List.append_nil, convertFrom_notices hbody hwalk]

/-- A conversion says what its blocks give it to say, in their order, and nothing else. The line of
every block with a code that nothing listens to is named exactly if each of these blocks is a shape,
a cycle without a definition or a thread whose pitch is not known as well. That such a code stands
on a block is not said: the block does the same without it. -/
theorem conversationalFormat_notices (h : (Rule.conversationalFormat job ls).result = .ok output)
    (hblocks : isConversational ls = false) :
    ∃ stops, walk ls = .ok stops ∧
      (Rule.conversationalFormat job ls).notices = toldFrom job {} stops ∧
      ((∀ s ∈ stops, s.block.hasIdleCode = true →
          ∃ notice ∈ (Rule.conversationalFormat job ls).notices,
            notice.line? = some s.block.line) ↔
        ∀ p ∈ withTooling {} stops, p.1.block.hasIdleCode = true →
          stopNotices job p.2 p.1 ≠ []) ∧
      ∀ s ∈ stops, ∀ b r, s.found = some (b, r) →
        ∃ r', s.before.resolve .standard b.heardWords = .ok r' ∧ r.Agrees Eq r' := by
  obtain ⟨p, hprintout, -⟩ := conversationalFormat_printout h hblocks
  obtain ⟨hwalk, -, -⟩ := printout_spec hprintout
  refine ⟨p.stops, hwalk, conversationalFormat_told h hblocks hwalk, ?_, ?_⟩
  · rw [conversationalFormat_told h hblocks hwalk]
    constructor
    · intro hnamed q hq hidle
      rw [← named_iff hwalk hq (found_of_hasIdleCode hidle)]
      exact hnamed q.1 (mem_of_mem_withTooling hq) hidle
    · intro hsaid s hs hidle
      obtain ⟨t, ht⟩ := exists_withTooling {} hs
      rw [named_iff hwalk ht (found_of_hasIdleCode hidle)]
      exact hsaid _ ht hidle
  · intro s hs b r hfound
    obtain ⟨k, hstop⟩ := walkFrom_stopAt hwalk s hs
    exact resolve_heardWords (stopAt_resolve hstop hfound)

/-- Offsets on a shape, on a thread without a speed and on a cycle without a definition: each of
these lines is named for what it does. -/
theorem conversationalFormat_notices_shared :
    let ls := ["T1", "G54 G13", "G84 X5 Z-5 R2 F100", "G54 G73 X9 Z-5 R2"]
    ∃ output stops, (Rule.conversationalFormat ⟨.heidenhain, {}⟩ ls).result = .ok output ∧
      walk ls = .ok stops ∧
      (Rule.conversationalFormat ⟨.heidenhain, {}⟩ ls).notices = toldFrom ⟨.heidenhain, {}⟩ {} stops ∧
      (Rule.conversationalFormat ⟨.heidenhain, {}⟩ ls).notices.map Notice.line? =
        [some 2, some 3, some 4] ∧
      ∀ s ∈ stops, s.block.hasIdleCode = true →
        ∃ notice ∈ (Rule.conversationalFormat ⟨.heidenhain, {}⟩ ls).notices,
          notice.line? = some s.block.line := by
  intro ls
  have hcheck : ((Rule.conversationalFormat ⟨.heidenhain, {}⟩ ls).result.toBool &&
      (Rule.conversationalFormat ⟨.heidenhain, {}⟩ ls).notices.map Notice.line? ==
        [some 2, some 3, some 4]) = true := by decide +kernel
  obtain ⟨hok, hlines⟩ := Bool.and_eq_true_iff.1 hcheck
  obtain ⟨output, houtput⟩ := exists_eq_ok hok
  obtain ⟨stops, hwalk, htold, hnamed, -⟩ :=
    conversationalFormat_notices houtput (by decide +kernel)
  have hsaid : (walk ls).toOption.any (fun stops => (withTooling {} stops).all fun p =>
      !p.1.block.hasIdleCode || !(stopNotices ⟨.heidenhain, {}⟩ p.2 p.1).isEmpty) = true := by
    decide +kernel
  rw [hwalk, Except.toOption, Option.any_some, List.all_eq_true] at hsaid
  refine ⟨output, stops, houtput, hwalk, htold, beq_iff_eq.1 hlines,
    hnamed.2 fun p hp hidle => ?_⟩
  have hsaid := hsaid p hp
  rw [hidle] at hsaid
  simpa using hsaid

/-- Inches are passed over without a word, while the program opens in millimetres. -/
theorem conversationalFormat_units_lost :
    ¬ ∀ job ls output stops, (Rule.conversationalFormat job ls).result = .ok output →
      isConversational ls = false → walk ls = .ok stops →
      ∀ s ∈ stops, s.block.hasIdleCode = true →
        ∃ notice ∈ (Rule.conversationalFormat job ls).notices,
          notice.line? = some s.block.line := by
  intro hclaim
  have hcheck : ((Rule.conversationalFormat ⟨.heidenhain, {}⟩ ["G20 T1", "G1 X1 F100"]).result.toBool &&
      (Rule.conversationalFormat ⟨.heidenhain, {}⟩ ["G20 T1", "G1 X1 F100"]).notices.isEmpty) =
        true := by decide +kernel
  obtain ⟨hok, hsilent⟩ := Bool.and_eq_true_iff.1 hcheck
  obtain ⟨output, houtput⟩ := exists_eq_ok hok
  obtain ⟨stops, hwalk, hidle⟩ := exists_of_toOption (x := walk ["G20 T1", "G1 X1 F100"])
    (f := fun stops => stops.any fun s => s.block.hasIdleCode) (b := true) (by decide +kernel)
  obtain ⟨s, hs, hidle⟩ := List.any_eq_true.1 hidle
  obtain ⟨notice, hnotice, -⟩ := hclaim _ _ _ _ houtput (by decide +kernel) hwalk s hs hidle
  rw [List.isEmpty_iff.1 hsilent] at hnotice
  cases hnotice

end Conversational

end PartProgram

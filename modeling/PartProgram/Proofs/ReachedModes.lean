import PartProgram.Proofs.Order
import PartProgram.Proofs.Resolving
import PartProgram.Proofs.Walk

/-!
# PartProgram.Proofs.ReachedModes

The modes of a machine that starts from rest and takes blocks. The way of moving and the canned
cycle are changed in three places: by every code of a block in turn, by the code that moves the
block, and when the block is resolved. The codes alone may leave the two at odds with each other
only if one of them is a motion mode, and then a motion mode moves the block and has the last word.

* `Modal.Consistent`: what holds of the modes of every state that blocks lead to.
* `resolve_consistent`: a block keeps it.
* `reachable_consistent`: every state that blocks lead to has it, and a block that a motion mode
  moves leaves that mode and no cycle.
-/

namespace PartProgram

open Number

/-- The modes of a machine that can be. -/
structure Modal.Consistent (m : Modal) : Prop where
  exclusive : ∀ c, m.cycle = some c → m.motion = none
  motionMode : ∀ code, m.motion = some code → code ∈ Code.motionModes
  cycleCode : ∀ c, m.cycle = some c → c.code ∈ Code.cycles
  peckPositive : ∀ c q, m.cycle = some c → c.peck = some q → 0.0 < q

/-- The states that blocks lead to, whatever the settings each block is resolved with. -/
inductive Reachable : Modal → Prop where
  | initial : Reachable .initial
  | step {m : Modal} {settings : Settings} {b : Block} {r : Resolution} :
      Reachable m → m.resolve settings b = .ok r → Reachable r.state

theorem initial_consistent : Modal.initial.Consistent where
  exclusive := by intro c h; cases h
  motionMode := by intro code h; cases h
  cycleCode := by intro c h; cases h
  peckPositive := by intro c q h; cases h

section

variable {m m' before : Modal} {b : Block} {code : Code} {settings : Settings} {r : Resolution}

/-! ## Modal words -/

/-- Motion mode and cycle are what they were or are gone. -/
structure Modal.Wanes (m m' : Modal) : Prop where
  motion : m'.motion = m.motion ∨ m'.motion = none
  cycle : m'.cycle = m.cycle ∨ m'.cycle = none

theorem Modal.Wanes.refl (m : Modal) : m.Wanes m := ⟨.inl rfl, .inl rfl⟩

theorem Modal.Wanes.trans {m₁ m₂ m₃ : Modal} (h₁ : m₁.Wanes m₂) (h₂ : m₂.Wanes m₃) :
    m₁.Wanes m₃ := by
  refine ⟨?_, ?_⟩
  · rcases h₂.motion with h | h
    · rw [h]; exact h₁.motion
    · exact .inr h
  · rcases h₂.cycle with h | h
    · rw [h]; exact h₁.cycle
    · exact .inr h

theorem Modal.Consistent.of_wanes (h : m.Consistent) (hw : m.Wanes m') : m'.Consistent := by
  have hcycle : ∀ c, m'.cycle = some c → m.cycle = some c := by
    intro c hc
    rcases hw.cycle with heq | hnone
    · rw [← heq]; exact hc
    · rw [hnone] at hc; cases hc
  have hmotion : ∀ code, m'.motion = some code → m.motion = some code := by
    intro code hcode
    rcases hw.motion with heq | hnone
    · rw [← heq]; exact hcode
    · rw [hnone] at hcode; cases hcode
  refine ⟨?_, ?_, ?_, ?_⟩
  · intro c hc
    rcases hw.motion with heq | hnone
    · rw [heq]; exact h.exclusive c (hcycle c hc)
    · exact hnone
  · intro code hcode; exact h.motionMode code (hmotion code hcode)
  · intro c hc; exact h.cycleCode c (hcycle c hc)
  · intro c q hc hq; exact h.peckPositive c q (hcycle c hc) hq

/-- A motion mode alone brings a way of moving in. -/
theorem applyCode_wanes (hcode : code ∉ Code.motionModes) : m.Wanes (m.applyCode code) := by
  unfold Modal.applyCode
  split
  · exact ⟨.inl rfl, .inl rfl⟩
  split
  · exact ⟨.inl rfl, .inl rfl⟩
  split
  · exact ⟨.inl rfl, .inl rfl⟩
  split
  · exact ⟨.inr rfl, .inr rfl⟩
  split
  · exact ⟨.inr rfl, .inl rfl⟩
  · exact .refl m

theorem applyCodes_wanes {codes : List Code} (h : ∀ code ∈ codes, code ∉ Code.motionModes) :
    m.Wanes (codes.foldl Modal.applyCode m) := by
  induction codes generalizing m with
  | nil => exact .refl m
  | cons code rest ih =>
    have hrest : ∀ code ∈ rest, code ∉ Code.motionModes := fun c hc => h c (.tail _ hc)
    exact (applyCode_wanes (h code (.head _))).trans (ih hrest)

/-- A block with a motion mode among its codes is moved by one. -/
theorem dominant_of_motionMode (hmem : code ∈ b.codes 'G') (hcode : code ∈ Code.motionModes) :
    ∃ d ∈ Code.motionModes, b.dominant? = some d := by
  have hmodes : ∀ c ∈ Code.motionModes, c ∈ Code.arcs ++ Code.linear := by decide
  have hfirst : ∀ c ∈ Code.arcs ++ Code.linear, c ∈ Code.motionModes := by decide
  have hfound : ((Code.arcs ++ Code.linear).find? (b.codes 'G').contains).isSome = true := by
    rw [List.find?_isSome]
    exact ⟨code, hmodes code hcode, List.contains_iff_mem.2 hmem⟩
  obtain ⟨d, hd⟩ := Option.isSome_iff_exists.1 hfound
  refine ⟨d, hfirst d (List.mem_of_find?_eq_some hd), ?_⟩
  rw [Block.dominant?, Code.byDominance, List.append_assoc, List.append_assoc, List.find?_append,
    hd]
  rfl

theorem apply_of_motionMode (hd : b.dominant? = some code) (hcode : code ∈ Code.motionModes) :
    (m.apply b).motion = some code ∧ (m.apply b).cycle = none := by
  unfold Modal.apply Modal.applyDominant
  simp [hd, hcode]

/-- A block with a cycle among its codes is moved by one, unless a motion mode moves it. -/
theorem dominant_of_cycle (hmem : code ∈ b.codes 'G') (hcode : code ∈ Code.cycles)
    (hno : ∀ c ∈ b.codes 'G', c ∉ Code.motionModes) :
    ∃ d ∈ Code.cycles, b.dominant? = some d := by
  have hmodes : ∀ c ∈ Code.arcs ++ Code.linear, c ∈ Code.motionModes := by decide
  have hnone : (Code.arcs ++ Code.linear).find? (b.codes 'G').contains = none := by
    rw [List.find?_eq_none]
    exact fun c hc hmem => hno c (List.contains_iff_mem.1 hmem) (hmodes c hc)
  obtain ⟨d, hd⟩ : ∃ d, Code.cycles.find? (b.codes 'G').contains = some d := by
    rw [← Option.isSome_iff_exists, List.find?_isSome]
    exact ⟨code, hcode, List.contains_iff_mem.2 hmem⟩
  refine ⟨d, List.mem_of_find?_eq_some hd, ?_⟩
  rw [Block.dominant?, Code.byDominance, List.append_assoc, List.append_assoc, List.find?_append,
    hnone, Option.none_or, List.find?_append, hd]
  rfl

theorem applyCode_motionMode (hcode : code ∈ Code.motionModes) (m : Modal) :
    m.applyCode code = { m with motion := some code, cycle := none } := by
  simp only [Code.motionModes, List.mem_cons, List.not_mem_nil, or_false] at hcode
  rcases hcode with rfl | rfl | rfl | rfl <;> rfl

theorem applyCodes_motionMode (hcode : code ∈ Code.motionModes) {codes : List Code}
    (hne : codes ≠ []) (h : ∀ c ∈ codes, c = code) (m : Modal) :
    codes.foldl Modal.applyCode m = { m with motion := some code, cycle := none } := by
  induction codes generalizing m with
  | nil => exact absurd rfl hne
  | cons c rest ih =>
    rw [List.foldl_cons, h c (.head _), applyCode_motionMode hcode]
    cases rest with
    | nil => rfl
    | cons c' rest => rw [ih (by simp) fun c hc => h c (.tail _ hc)]

/-- The modal words of a block with a motion mode and no other code. -/
theorem apply_of_one_code (hcode : code ∈ Code.motionModes) (hne : b.codes 'G' ≠ [])
    (h : ∀ c ∈ b.codes 'G', c = code) (m : Modal) :
    b.dominant? = some code ∧ m.apply b =
      { m with motion := some code, cycle := none, feed := b.value 'F' <|> m.feed } := by
  obtain ⟨c, hc⟩ := List.exists_mem_of_ne_nil _ hne
  obtain ⟨d, -, hdominant⟩ := dominant_of_motionMode hc (by rw [h c hc]; exact hcode)
  have hd : d = code := h d (List.contains_iff_mem.1 (List.find?_some hdominant))
  rw [hd] at hdominant
  refine ⟨hdominant, ?_⟩
  rw [Modal.apply, applyCodes_motionMode hcode hne h, Modal.applyDominant, hdominant]
  simp only [if_pos hcode]

/-- The modal words of a block without codes. -/
theorem apply_of_no_code (h : b.codes 'G' = []) (m : Modal) :
    b.dominant? = none ∧ m.apply b = { m with feed := b.value 'F' <|> m.feed } := by
  have hdominant : b.dominant? = none := by simp [Block.dominant?, h]
  refine ⟨hdominant, ?_⟩
  rw [Modal.apply, h, Modal.applyDominant, List.foldl_nil, hdominant]

/-- Without a motion mode that moves the block, its modal words bring nothing in. -/
theorem apply_wanes (hd : ∀ d ∈ Code.motionModes, b.dominant? ≠ some d) :
    m.Wanes (m.apply b) := by
  have hcodes : ∀ code ∈ b.codes 'G', code ∉ Code.motionModes := by
    intro code hmem hcode
    obtain ⟨d, hmode, hdominant⟩ := dominant_of_motionMode hmem hcode
    exact hd d hmode hdominant
  have hdominant : ∀ m : Modal, m.applyDominant b = m := by
    intro m
    unfold Modal.applyDominant
    split
    · rename_i d hdominant
      rw [if_neg fun hmode => hd d hmode hdominant]
    · rfl
  have hwanes := applyCodes_wanes (m := m) hcodes
  unfold Modal.apply
  rw [hdominant]
  exact ⟨hwanes.motion, hwanes.cycle⟩

theorem apply_consistent (h : m.Consistent) (b : Block) : (m.apply b).Consistent := by
  by_cases hd : ∃ d ∈ Code.motionModes, b.dominant? = some d
  · obtain ⟨d, hmode, hdominant⟩ := hd
    obtain ⟨hmotion, hcycle⟩ := apply_of_motionMode (m := m) hdominant hmode
    refine ⟨?_, ?_, ?_, ?_⟩
    · intro c hc; rw [hcycle] at hc; cases hc
    · intro code hcode
      rw [hmotion, Option.some.injEq] at hcode
      rw [← hcode]
      exact hmode
    · intro c hc; rw [hcycle] at hc; cases hc
    · intro c q hc; rw [hcycle] at hc; cases hc
  · exact h.of_wanes (apply_wanes fun d hmode hdominant => hd ⟨d, hmode, hdominant⟩)

/-! ## Resolved blocks -/

theorem pos_of_not_le_zero {q : Float} (hq : IsNumber q) (h : ¬ q ≤ 0.0) : 0.0 < q := by
  have hzero : IsNumber 0.0 := rfl
  by_cases hpos : 0.0 < q
  · exact hpos
  · exact absurd ((not_lt hzero hq).1 hpos) h

/-- The increment of a cycle block is a word of the block or that of the cycle so far, and it is
dropped unless it is positive. -/
theorem resolveCycle_consistent (h : m.Consistent) (hcode : code ∈ Code.cycles) :
    (Modal.resolveCycle settings before m code b).state.Consistent where
  exclusive := by intro c _; rfl
  motionMode := by intro d hd; cases hd
  cycleCode := by
    intro c hc
    cases hc
    exact hcode
  peckPositive := by
    intro c q hc hq
    cases hc
    obtain ⟨hfound, hpositive⟩ := Option.filter_eq_some_iff.1 hq
    have hnot : ¬ q ≤ 0.0 := by simpa using hpositive
    cases hword : b.value 'Q' with
    | some x =>
      rw [hword] at hfound
      cases hfound
      exact pos_of_not_le_zero (Block.value_isNumber hword) hnot
    | none =>
      rw [hword] at hfound
      obtain ⟨active, hactive, hpeck⟩ := Option.bind_eq_some_iff.1 hfound
      exact h.peckPositive active q (Option.filter_eq_some_iff.1 hactive).1 hpeck

/-- Apart from the cycles, a block that moves leaves motion mode and cycle to its modal words. -/
theorem resolveCode_modes (hcode : code ∉ Code.cycles)
    (h : Modal.resolveCode settings before m code b = .ok r) :
    r.state.motion = m.motion ∧ r.state.cycle = m.cycle := by
  cases resolveCode_cases h with
  | cycle isCycle => exact absurd isCycle hcode
  | _ => exact ⟨rfl, rfl⟩

theorem resolveCode_consistent (hm : m.Consistent)
    (h : Modal.resolveCode settings before m code b = .ok r) : r.state.Consistent := by
  cases resolveCode_cases h with
  | cycle isCycle => exact resolveCycle_consistent hm isCycle
  | _ => exact hm.of_wanes ⟨.inl rfl, .inl rfl⟩

/-- A block keeps the modes consistent. -/
theorem resolve_consistent (hm : m.Consistent) (h : m.resolve settings b = .ok r) :
    r.state.Consistent := by
  have happly := apply_consistent hm b
  cases resolve_cases h with
  | code _ found => exact resolveCode_consistent happly found
  | modal => exact happly
  | cycle _ _ active => exact resolveCycle_consistent happly (happly.cycleCode _ active)
  | mode _ _ _ _ found => exact resolveCode_consistent happly found
  | first _ _ inactive _ =>
    -- no cycle is active, so only the way of moving is to be looked at
    have hnone : ∀ c, (m.apply b).cycle ≠ some c := fun c hc => by
      rw [inactive] at hc
      cases hc
    refine ⟨fun c hc => absurd hc (hnone c), ?_, fun c hc => absurd hc (hnone c),
      fun c q hc => absurd hc (hnone c)⟩
    intro code hcode
    cases hcode
    decide

/-! ## States that blocks lead to -/

theorem Reachable.consistent (h : Reachable m) : m.Consistent := by
  induction h with
  | initial => exact initial_consistent
  | step _ hr ih => exact resolve_consistent ih hr

theorem stopAt_reachable {n : Int} {raw : String} {s : Stop} (hm : Reachable m)
    (h : m.stopAt settings n raw = .ok s) : Reachable s.after := by
  rw [Modal.stopAt] at h
  split at h
  · cases h; exact hm
  · simp only [bind_eq_ok, pure_eq_ok] at h
    obtain ⟨r, hr, rfl⟩ := h
    exact hm.step hr

/-- A walk through a program stays among them. -/
theorem walkFrom_reachable {n : Int} {ls : List String} {stops : List Stop} (hm : Reachable m)
    (h : m.walkFrom settings n ls = .ok stops) : ∀ s ∈ stops, Reachable s.after := by
  induction ls generalizing m n stops with
  | nil =>
    cases h
    simp
  | cons raw rest ih =>
    simp only [Modal.walkFrom, bind_eq_ok, pure_eq_ok] at h
    obtain ⟨s, hs, more, hmore, rfl⟩ := h
    have hafter := stopAt_reachable hm hs
    intro t ht
    cases ht with
    | head => exact hafter
    | tail _ ht => exact ih hafter hmore t ht

/-- A motion mode that moves a block is the one in force after it, and no cycle is. -/
theorem resolve_of_motionMode (h : m.resolve settings b = .ok r) (hd : b.dominant? = some code)
    (hcode : code ∈ Code.motionModes) : r.state.motion = some code ∧ r.state.cycle = none := by
  have hno : ∀ c ∈ Code.motionModes, c ∉ Code.cycles := by decide
  simp only [Modal.resolve, hd] at h
  obtain ⟨hmotion, hcycle⟩ := resolveCode_modes (hno code hcode) h
  rw [hmotion, hcycle]
  exact apply_of_motionMode hd hcode

/-- Every state that blocks lead to has consistent modes, and a block that a motion mode moves
leaves that mode and no cycle, whatever other codes stand on it. -/
theorem reachable_consistent (h : Reachable m) :
    m.Consistent ∧
      ∀ settings b r code, m.resolve settings b = .ok r → b.dominant? = some code →
        code ∈ Code.motionModes → r.state.motion = some code ∧ r.state.cycle = none := by
  refine ⟨h.consistent, ?_⟩
  intro settings b r code hr hd hcode
  exact resolve_of_motionMode hr hd hcode

/-- A peck cycle, and a block that states its end, another cycle and a feed move at once. -/
theorem reachable_consistent_mixed :
    ∃ stops, walk ["G83 X1 Z-5 R2 Q3", "G80 G81 G1 X2"] = .ok stops ∧
      (stops.map fun s => (s.block?.bind Block.dominant?, s.after.motion,
        s.after.cycle.map ActiveCycle.code)) =
          [(some "G83", none, some "G83"), (some "G1", some "G1", none)] ∧
      ∀ s ∈ stops, Reachable s.after ∧ s.after.Consistent := by
  obtain ⟨stops, hwalk, hmodes⟩ := exists_of_toOption
    (x := walk ["G83 X1 Z-5 R2 Q3", "G80 G81 G1 X2"])
    (f := List.map fun s => (s.block?.bind Block.dominant?, s.after.motion,
      s.after.cycle.map ActiveCycle.code))
    (b := [(some "G83", none, some "G83"), (some "G1", some "G1", none)]) (by decide +kernel)
  refine ⟨stops, hwalk, hmodes, ?_⟩
  intro s hs
  have hreached := walkFrom_reachable .initial hwalk s hs
  exact ⟨hreached, (reachable_consistent hreached).1⟩

end

end PartProgram

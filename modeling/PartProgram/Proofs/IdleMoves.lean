import PartProgram.Proofs.Idle
import PartProgram.Proofs.SameStates

/-!
# PartProgram.Proofs.IdleMoves

Programs without the moves that go nowhere. Such a move leaves a state that is the same by its
numbers, so every later block is met in a state that is the same and does the same. It is judged
alike there as well, so a second pass finds nothing.

* `isRedundantMove_spec`: what a move that goes nowhere does.
* `isRedundantMove_same`: lines are judged alike in states that are the same.
* `removeRedundantMoves_simulates`: the walk through the lines that are left keeps to the walk
  through all lines.
-/

namespace PartProgram

open Number

/-! ## Comparisons see numbers only -/

theorem SameFeed.beq_congr {a a' c c' : Option Float} (h : SameFeed a a') (h' : SameFeed c c') :
    (a' == c') = (a == c) :=
  optionRel_beq (fun ha hc => (SameNumber.beq ha hc).symm) (sameFeed_iff.1 h) (sameFeed_iff.1 h')

theorem ActiveCycle.Same.beq_congr {a a' c c' : ActiveCycle} (h : a.Same a') (h' : c.Same c') :
    (a' == c') = (a == c) := by
  have hparts : ∀ a c : ActiveCycle, (a == c) = (a.code == c.code && (a.z == c.z &&
      (a.r == c.r && (a.peck == c.peck && a.dwell == c.dwell)))) := fun _ _ => rfl
  rw [hparts, hparts, h.code, h'.code, ← h.z.beq h'.z, ← h.r.beq h'.r, h.peck.beq_congr h'.peck,
    h.dwell.beq_congr h'.dwell]

section

variable {settings : Settings} {m m' after after' : Modal} {b : Block} {r r' : Resolution}

theorem moves_same {p p' q q' : Position} (hp : p.Unmoved p') (hq : q.Unmoved q') :
    b.moves p' q' = b.moves p q := by
  refine congrArg Axis.all.any (funext fun axis => ?_)
  rw [bne, bne, SameNumber.beq (hp axis) (hq axis)]

theorem unchangedBy_same (hm : m.Same m') (hafter : after.Same after') :
    m'.unchangedBy b after' = m.unchangedBy b after := by
  have hcycle : (m'.cycle == after'.cycle) = (m.cycle == after.cycle) :=
    optionRel_beq ActiveCycle.Same.beq_congr hm.cycle hafter.cycle
  rw [Modal.unchangedBy, Modal.unchangedBy, hm.positioning, hm.plane, hm.motion,
    hafter.positioning, hafter.plane, hafter.motion, moves_same hm.position hafter.position,
    hm.feed.beq_congr hafter.feed, hcycle]

theorem isStraight_same (h : r.effect.Same r'.effect) :
    r'.isRapid = r.isRapid ∧ r'.isLinear = r.isLinear := by
  rw [Resolution.isRapid, Resolution.isRapid, Resolution.isLinear, Resolution.isLinear]
  generalize r.effect = e at h
  generalize r'.effect = e' at h
  cases h with
  | none => exact ⟨rfl, rfl⟩
  | cycle => exact ⟨rfl, rfl⟩
  | @motion mo mo' start finish feed action =>
    obtain ⟨start, finish, line, feed, a⟩ := mo
    obtain ⟨start', finish', line', feed', a'⟩ := mo'
    cases action <;> exact ⟨rfl, rfl⟩

/-- What moves straight is a rapid or a feed move. -/
theorem action_of_straight (h : r.isRapid = true ∨ r.isLinear = true) :
    ∃ mo, r.effect = .motion mo ∧ (mo.action = .rapid ∨ mo.action = .linear) := by
  rcases h with h | h
  · simp only [Resolution.isRapid] at h
    split at h
    · rename_i heffect
      exact ⟨_, heffect, .inl rfl⟩
    · cases h
  · simp only [Resolution.isLinear] at h
    split at h
    · rename_i heffect
      exact ⟨_, heffect, .inr rfl⟩
    · cases h

end

namespace Rule

variable {settings : Settings} {m m' : Modal} {n n' : Int} {raw : String} {ls : Lines} {s s' : Stop}
  {stops : List Stop}

/-! ## Moves that go nowhere -/

/-- What is compared where a move is found to go nowhere. -/
theorem isRedundantMove_found (h : isRedundantMove s = true) :
    ∃ b r, s.found = some (b, r) ∧ (r.isRapid = true ∨ r.isLinear = true) ∧
      s.before.positioning = r.state.positioning ∧ s.before.plane = r.state.plane ∧
      b.moves s.before.position r.state.position = false ∧
      (s.before.feed == r.state.feed) = true ∧ s.before.motion = r.state.motion ∧
      (s.before.cycle == r.state.cycle) = true := by
  rw [isRedundantMove] at h
  split at h
  · cases h
  rename_i b r hfound
  simp only [Modal.unchangedBy, Bool.and_eq_true, Bool.or_eq_true, Bool.not_eq_true', beq_iff_eq]
    at h
  obtain ⟨⟨-, hstraight⟩, ⟨⟨⟨⟨hpositioning, hplane⟩, hmoves⟩, hfeed⟩, hmotion⟩, hcycle⟩ := h
  exact ⟨b, r, hfound, hstraight, hpositioning, hplane, hmoves, hfeed, hmotion, hcycle⟩

/-- A move that goes nowhere leaves the state the same, and is a rapid or a feed move that ends
where it starts. -/
theorem isRedundantMove_spec (hs : m.stopAt settings n raw = .ok s) (h : isRedundantMove s = true) :
    s.before.Same s.after ∧ ∃ mo, s.effect = .motion mo ∧
      (mo.action = .rapid ∨ mo.action = .linear) ∧ mo.start.Unmoved mo.finish := by
  obtain ⟨b, r, hfound, hstraight, hpositioning, hplane, hmoves, hfeed, hmotion, hcycle⟩ :=
    isRedundantMove_found h
  obtain ⟨mo, heffect, haction⟩ := action_of_straight hstraight
  have harrives := resolve_arrives (stopAt_resolve hs hfound)
  rw [Stop.after_of_found hfound, Stop.effect_of_found hfound]
  generalize s.before = before at *
  cases harrives with
  | still stays => cases heffect
  | cycle line above => cases heffect
  | @motion after mo' ws line starts finishes unnamed own =>
    cases heffect
    have hunmoved : mo.start.Unmoved mo.finish := by
      refine unmoved_of_not_moves unnamed ?_
      rw [starts, ← finishes]
      exact hmoves
    refine ⟨⟨hpositioning.symm, hplane.symm, ?_, .inr hfeed, hmotion.symm,
      optionRel_of_beq .of_beq hcycle⟩, mo, rfl, haction, hunmoved⟩
    rw [← starts, finishes]
    exact hunmoved

/-- A line that does the same is judged alike. -/
theorem isRedundantMove_same (hs : m.stopAt settings n raw = .ok s)
    (hs' : m'.stopAt settings n' raw = .ok s') (h : s.Same s') :
    isRedundantMove s' = isRedundantMove s := by
  have hbefore := h.before
  have hafter := h.after
  have heffect := h.effect
  rw [isRedundantMove, isRedundantMove]
  rw [Modal.stopAt, Block.read?_at (n := n) n'] at hs'
  rw [Modal.stopAt] at hs
  cases hread : Block.read? raw n with
  | none =>
    rw [hread] at hs hs'
    cases hs
    cases hs'
    rfl
  | some b =>
    rw [hread] at hs hs'
    simp only [Option.map_some, bind_eq_ok, pure_eq_ok] at hs hs'
    obtain ⟨r, -, rfl⟩ := hs
    obtain ⟨r', -, rfl⟩ := hs'
    obtain ⟨hrapid, hlinear⟩ := isStraight_same heffect
    have hunchanged := unchangedBy_same (b := b) hbefore hafter
    have hplain : isPlainMove { b with line := n' } = isPlainMove b := rfl
    have hmoves : Modal.unchangedBy m' { b with line := n' } r'.state =
        Modal.unchangedBy m' b r'.state := rfl
    dsimp only
    rw [hrapid, hlinear, hplain, hmoves]
    rw [show Modal.unchangedBy m' b r'.state = Modal.unchangedBy m b r.state from hunchanged]

/-! ## The walk through the lines that are left -/

/-- The walk from a state that is the same through the lines that are left: at each of them the same
happens, and none is found to go nowhere. -/
theorem walkFrom_filter (n' : Int) (hm : m.Same m')
    (h : m.walkFrom settings n ls = .ok stops) :
    ∃ stops', m'.walkFrom settings n' ((stops.filter fun s => !isRedundantMove s).map Stop.raw) =
        .ok stops' ∧
      List.Forall₂ Stop.Same (stops.filter fun s => !isRedundantMove s) stops' ∧
      ∀ s' ∈ stops', isRedundantMove s' = false := by
  induction ls generalizing m m' n n' stops with
  | nil =>
    cases h
    exact ⟨[], rfl, .nil, by simp⟩
  | cons raw rest ih =>
    simp only [Modal.walkFrom, bind_eq_ok, pure_eq_ok] at h
    obtain ⟨s, hs, more, hmore, rfl⟩ := h
    obtain ⟨hraw, hbefore, -⟩ := stopAt_eq_ok hs
    cases hidle : isRedundantMove s with
    | true =>
      have hback := (isRedundantMove_spec hs hidle).1.symm
      rw [hbefore] at hback
      simp only [List.filter_cons, hidle, Bool.not_true, Bool.false_eq_true, if_false]
      exact ih n' (hback.trans hm) hmore
    | false =>
      obtain ⟨s', hs', hsame⟩ := stopAt_same n' hm hs
      obtain ⟨stops', hwalk, hall, hnone⟩ := ih (n' + 1) hsame.after hmore
      simp only [List.filter_cons, hidle, Bool.not_false, if_true, List.map_cons, Modal.walkFrom,
        bind_eq_ok, pure_eq_ok]
      refine ⟨s' :: stops', ⟨s', by rw [hraw]; exact hs', stops', hwalk, rfl⟩, .cons hsame hall, ?_⟩
      rw [List.forall_mem_cons]
      exact ⟨(isRedundantMove_same hs hs' hsame).trans hidle, hnone⟩

/-- The lines that are left are lines of the program in their order, and a line is missing only if
it is a rapid or a feed move that ends where it starts. On the lines that are left, the walk comes
through the same states, with the same motions and cycles, and nothing more is found to leave
out. -/
theorem removeRedundantMoves_simulates (hwalk : walk ls = .ok stops) :
    ∃ left stops', (removeRedundantMoves ls).result = .ok left ∧ left.Sublist ls ∧
      left = (stops.filter fun s => !isRedundantMove s).map Stop.raw ∧
      (∀ s ∈ stops, isRedundantMove s = true → ∃ mo, s.effect = .motion mo ∧
        (mo.action = .rapid ∨ mo.action = .linear) ∧ mo.start.Unmoved mo.finish) ∧
      walk left = .ok stops' ∧
      List.Forall₂ Stop.Same (stops.filter fun s => !isRedundantMove s) stops' ∧
      (removeRedundantMoves left).result = .ok left := by
  obtain ⟨stops', hwalk', hsame, hnone⟩ := walkFrom_filter 1 (.refl _) hwalk
  refine ⟨_, stops', ?_, ?_, rfl, ?_, hwalk', hsame, ?_⟩
  · rw [removeRedundantMoves, Revised.ofWalk, hwalk]
    rfl
  · conv_rhs => rw [← walkFrom_raw hwalk]
    exact List.filter_sublist.map Stop.raw
  · intro s hs hidle
    obtain ⟨k, hstop⟩ := walkFrom_stopAt hwalk s hs
    exact (isRedundantMove_spec hstop hidle).2
  · exact removeRedundantMoves_eq_self_iff.2 ⟨stops', hwalk', hnone⟩

/-- Three moves end where they start: one of them turns the sign of a zero, and one follows an arc
without saying where its centre is. The step after the first of them starts from the other zero. -/
theorem removeRedundantMoves_simulates_signs :
    let ls := ["G0 X0", "X-0", "G1 X5 F100", "X5", "G91 X-5 Y-0", "G90 G2 X5 Y5 R5", "X5 Y5"]
    let left := ["G0 X0", "G1 X5 F100", "G91 X-5 Y-0", "G90 G2 X5 Y5 R5"]
    ∃ stops stops', walk ls = .ok stops ∧ (removeRedundantMoves ls).result = .ok left ∧
      walk left = .ok stops' ∧
      List.Forall₂ Stop.Same (stops.filter fun s => !isRedundantMove s) stops' ∧
      (removeRedundantMoves left).result = .ok left := by
  intro ls left
  obtain ⟨stops, hwalk, hstops⟩ := exists_of_toOption (x := walk ls)
    (f := fun stops => (stops.filter fun s => !isRedundantMove s).map Stop.raw) (b := left)
    (by decide +kernel)
  obtain ⟨_, stops', hrun, -, rfl, -, hwalk', hsame, hagain⟩ := removeRedundantMoves_simulates hwalk
  rw [hstops] at hrun hwalk' hagain
  exact ⟨stops, stops', hwalk, hrun, hwalk', hsame, hagain⟩

end Rule

end PartProgram

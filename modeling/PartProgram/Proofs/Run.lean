import PartProgram.Proofs.Arrival

/-!
# PartProgram.Proofs.Run

Runs of a program. `Run settings m ps m'` says that the passages `ps` take the machine from the
state `m` to the state `m'`: each block meets the state that the block before it has left.
`passFrom_eq_ok_iff` says that the passages of numbered lines are the runs through their blocks, so
what one passage keeps is carried to a whole program by induction on the run.

* `points_follow_position`: as far as a program runs without a fault, the points of every block end
  at the position after it, and the line numbers of the points never decrease.
-/

namespace PartProgram

/-! ## Blocks of numbered lines -/

theorem Block.read?_line {raw : String} {n : Int} {b : Block} (h : Block.read? raw n = some b) :
    b.line = n := by
  simp only [read?, Option.map_eq_some_iff] at h
  obtain ⟨code, -, rfl⟩ := h
  rfl

theorem Block.mem_readLinesFrom {n : Int} {ls : List String} {b : Block} :
    b ∈ Block.readLinesFrom n ls ↔
      ∃ i : Nat, ∃ raw, ls[i]? = some raw ∧ Block.read? raw (n + i) = some b := by
  induction ls generalizing n with
  | nil => simp [readLinesFrom]
  | cons raw rest ih =>
    have shift (i : Nat) : n + ((i + 1 : Nat) : Int) = n + 1 + i := by omega
    simp only [readLinesFrom, List.mem_append, Option.mem_toList, ih]
    constructor
    · rintro (h | ⟨i, raw', hi, h⟩)
      · exact ⟨0, raw, rfl, by simpa using h⟩
      · exact ⟨i + 1, raw', hi, by rw [shift]; exact h⟩
    · rintro ⟨i, raw', hi, h⟩
      cases i with
      | zero =>
        simp only [List.getElem?_cons_zero, Option.some.injEq] at hi
        subst hi
        exact .inl (by simpa using h)
      | succ i => exact .inr ⟨i, raw', hi, by rw [shift] at h; exact h⟩

theorem Block.le_of_mem_readLinesFrom {n : Int} {ls : List String} {b : Block}
    (h : b ∈ Block.readLinesFrom n ls) : n ≤ b.line := by
  obtain ⟨i, raw, -, hb⟩ := mem_readLinesFrom.1 h
  rw [read?_line hb]
  omega

/-- Blocks come in the order of their lines, one for a line at most. -/
theorem Block.readLinesFrom_sorted (n : Int) (ls : List String) :
    (Block.readLinesFrom n ls).Pairwise fun a b => a.line < b.line := by
  induction ls generalizing n with
  | nil => simp [readLinesFrom]
  | cons raw rest ih =>
    simp only [readLinesFrom]
    cases h : read? raw n with
    | none => simpa using ih (n + 1)
    | some b =>
      refine .cons (fun b' hb' => ?_) (ih (n + 1))
      have := le_of_mem_readLinesFrom hb'
      rw [read?_line h]
      omega

/-! ## Runs -/

/-- The passages take the machine from the first state to the last. -/
inductive Run (settings : Settings) : Modal → List Passage → Modal → Prop where
  | nil {m : Modal} : Run settings m [] m
  | cons {m m' : Modal} {b : Block} {r : Resolution} {e : Emission} {ps : List Passage} :
      m.resolve settings b = .ok r → r.emission settings = .ok e →
      Run settings r.state ps m' → Run settings m (⟨b, m, r, e⟩ :: ps) m'

section

variable {settings : Settings} {m m' : Modal} {n : Int} {ls : List String} {ps : List Passage}

/-- The passages of numbered lines are the runs through their blocks. -/
theorem passFrom_eq_ok_iff :
    m.passFrom settings n ls = .ok ps ↔
      ps.map Passage.block = Block.readLinesFrom n ls ∧ ∃ m', Run settings m ps m' := by
  induction ls generalizing m n ps with
  | nil =>
    simp only [Modal.passFrom, Except.ok.injEq, Block.readLinesFrom, List.map_eq_nil_iff]
    constructor
    · rintro rfl; exact ⟨rfl, m, .nil⟩
    · rintro ⟨rfl, -⟩; rfl
  | cons raw rest ih =>
    simp only [Modal.passFrom, Block.readLinesFrom]
    cases hread : Block.read? raw n with
    | none => simpa using ih
    | some b =>
      simp only [bind_eq_ok, pure_eq_ok, ih, Option.toList_some, List.singleton_append]
      constructor
      · rintro ⟨r, hr, e, he, ps, ⟨hblocks, m', hrun⟩, rfl⟩
        exact ⟨by simp [hblocks], m', .cons hr he hrun⟩
      · rintro ⟨hblocks, m', hrun⟩
        cases hrun with
        | nil => simp at hblocks
        | cons hr he hrun =>
          simp only [List.map_cons, List.cons.injEq] at hblocks
          obtain ⟨rfl, hblocks⟩ := hblocks
          exact ⟨_, hr, _, he, _, ⟨hblocks, m', hrun⟩, rfl⟩

/-- What holds of every block that is resolved and expanded holds of every passage of a run. -/
theorem Run.forall_passage {P : Passage → Prop}
    (step : ∀ {m : Modal} {b : Block} {r : Resolution} {e : Emission},
      m.resolve settings b = .ok r → r.emission settings = .ok e → P ⟨b, m, r, e⟩)
    (h : Run settings m ps m') : ∀ p ∈ ps, P p := by
  induction h with
  | nil => simp
  | cons hr he _ ih => simpa using ⟨step hr he, ih⟩

end

/-! ## Points along a run -/

/-- The points of a passage bear the number of its line and end where the state after it says that
the tool is; without points the tool has not moved. -/
structure Passage.Follows (p : Passage) : Prop where
  line : ∀ w ∈ p.points, w.line = p.block.line
  last : ∀ w, p.points.getLast? = some w → w.position = p.resolution.state.position
  still : p.points = [] → p.before.position.Unmoved p.resolution.state.position

theorem arcPoints_line {m : Motion} {a : Arc} {ps : List Position} :
    ∀ w ∈ m.arcPoints a ps, w.line = m.line := by
  cases ps <;> simp [Motion.arcPoints, Motion.point]

theorem motion_emission_line {m : Motion} {resolution : Float} {e : Emission}
    (h : m.emission resolution = .ok e) : ∀ w ∈ e.points, w.line = m.line := by
  unfold Motion.emission at h
  split at h
  · cases h; simp [Motion.point]
  · cases h; simp [Motion.point]
  · cases h; simp [Motion.point]
  · simp only [bind_eq_ok, pure_eq_ok] at h
    obtain ⟨ends, -, rfl⟩ := h
    exact arcPoints_line
  · simp only [bind_eq_ok] at h
    obtain ⟨outcome, -, h⟩ := h
    split at h
    · cases h
      simp only [Motion.shapePoints, Motion.point, List.cons_append, List.mem_cons,
        List.mem_append, List.mem_map, List.not_mem_nil, or_false]
      rintro w (rfl | ⟨q, -, rfl⟩ | rfl) <;> rfl
    · cases h
      split <;> simp [Motion.point]

theorem emission_line {settings : Settings} {before : Modal} {b : Block} {r : Resolution}
    {e : Emission} (hr : before.resolve settings b = .ok r) (he : r.emission settings = .ok e) :
    ∀ w ∈ e.points, w.line = b.line := by
  cases resolve_arrives hr with
  | still =>
    simp only [Resolution.emission, Except.ok.injEq] at he
    subst he; simp
  | cycle line above =>
    simp only [Resolution.emission, FixedCycle.emission, bind_eq_ok, pure_eq_ok] at he
    obtain ⟨x, -, rfl⟩ := he
    simp [Phase.waypoint, line]
  | motion line starts finishes unnamed own => rw [← line]; exact motion_emission_line he

theorem Run.follows {settings : Settings} {m m' : Modal} {ps : List Passage}
    (h : Run settings m ps m') : ∀ p ∈ ps, p.Follows :=
  h.forall_passage fun hr he =>
    ⟨emission_line hr he, fun _ hw => emission_last hr he hw, emission_still hr he⟩

/-- Points of passages in the order of their lines are in the order of their lines. -/
theorem points_sorted {ps : List Passage} (hline : ∀ p ∈ ps, ∀ w ∈ p.points, w.line = p.block.line)
    (hsorted : (ps.map Passage.block).Pairwise fun a b => a.line < b.line) :
    (ps.flatMap Passage.points).Pairwise fun v w => v.line ≤ w.line := by
  induction ps with
  | nil => simp
  | cons p rest ih =>
    simp only [List.map_cons, List.pairwise_cons] at hsorted
    have hrest := ih (fun q hq => hline q (.tail _ hq)) hsorted.2
    simp only [List.flatMap_cons, List.pairwise_append, List.mem_flatMap]
    refine ⟨?_, hrest, ?_⟩
    · rw [List.pairwise_iff_forall_sublist]
      intro v w hvw
      have hv := hline p (.head _) v (hvw.subset (by simp))
      have hw := hline p (.head _) w (hvw.subset (by simp))
      omega
    · rintro v hv w ⟨q, hq, hw⟩
      have hpq := hsorted.1 q.block (List.mem_map_of_mem hq)
      rw [hline p (.head _) v hv, hline q (.tail _ hq) w hw]
      omega

/-- As far as a program runs without a fault, each of its blocks is passed in order, meets the state
that the one before it has left, gives points that bear its line number and end at the position
after it, or leaves the tool where it was; and the line numbers along the toolpath never
decrease. -/
theorem points_follow_position {text : String} {settings : Settings} {k : Nat}
    {ps : List Passage}
    (h : Modal.initial.passFrom settings 1 ((Text.lines text).take k) = .ok ps) :
    ps.map Passage.block = Block.readLinesFrom 1 ((Text.lines text).take k) ∧
      (∃ last, Run settings .initial ps last) ∧ (∀ p ∈ ps, p.Follows) ∧
      (Toolpath.ofPassages ps).points.Pairwise fun v w => v.line ≤ w.line := by
  obtain ⟨hblocks, last, hrun⟩ := passFrom_eq_ok_iff.1 h
  refine ⟨hblocks, ⟨last, hrun⟩, hrun.follows, ?_⟩
  refine points_sorted (fun p hp => (hrun.follows p hp).line) ?_
  rw [hblocks]
  exact Block.readLinesFrom_sorted 1 _

/-- Two pecked holes, an arc, a shape that lacks its size and goes nowhere, and a blank line. -/
theorem points_follow_position_holes :
    let text := "G83 X10 Y5 Z-5 R2 Q2 F100\nX20\n\nG2 X30 I5\nG12 X30"
    ∃ ps, Modal.initial.passFrom .standard 1 ((Text.lines text).take 5) = .ok ps ∧
      ps.map (fun p => p.block.line) = [1, 2, 4, 5] ∧ (∀ p ∈ ps, p.Follows) ∧
      (Toolpath.ofPassages ps).points.Pairwise fun v w => v.line ≤ w.line := by
  intro text
  obtain ⟨ps, h⟩ := exists_eq_ok
    (x := Modal.initial.passFrom .standard 1 ((Text.lines text).take 5)) (by decide +kernel)
  obtain ⟨hblocks, -, hfollows, hsorted⟩ := points_follow_position h
  refine ⟨ps, h, ?_, hfollows, hsorted⟩
  have hlines : (Block.readLinesFrom 1 ((Text.lines text).take 5)).map Block.line = [1, 2, 4, 5] := by
    decide +kernel
  rw [← hlines, ← hblocks, List.map_map]
  rfl

end PartProgram

import Mathlib.Algebra.GroupWithZero.Nat
import PartProgram.Interpreter
import PartProgram.Proofs.Run

/-!
# PartProgram.Proofs.Streaming

A run pulled point by point against the run as a whole. A `Course` is a run as far as it goes, kept
also when a fault stops it; `Pulls` says which points an interpreter still has to give, what it shows
with each of them, and how it ends. An interpreter on the lines of a program gives the course of
these lines, and in which portions it is pulled makes no difference.

* `ofText_eq_course`: the toolpath of a text is its course, or the fault that stops it.
* `takes_eq_take_sum`: only the number of pulls counts.
* `Pulls.take`: what any number of pulls gives and shows.
* `takes_follow_course`: the points, the end, the warnings, the cycles and the state of a run in
  portions are those of the course.
-/

namespace PartProgram

/-! ## The run as a whole -/

/-- What stops a run, with what was said and begun on the block that it stops at. -/
structure Halt where
  fault : Fault
  warnings : List LineWarning := []
  cycles : List FixedCycle := []

/-- A run as far as it goes. -/
structure Course where
  passages : List Passage := []
  halt : Option Halt := none

namespace Course

def points (c : Course) : List Waypoint := c.passages.flatMap Passage.points

def warnings (c : Course) : List LineWarning :=
  c.passages.flatMap Passage.warnings ++ (c.halt.map Halt.warnings).getD []

def cycles (c : Course) : List FixedCycle :=
  (c.passages.filterMap fun p => p.resolution.cycle?) ++ (c.halt.map Halt.cycles).getD []

/-- The state after the last passage. -/
def last (c : Course) (m : Modal) : Modal :=
  (c.passages.getLast?.map fun p => p.resolution.state).getD m

/-- The passages, unless something has stopped the run. -/
def result (c : Course) : Except Fault (List Passage) :=
  match c.halt with
  | none => .ok c.passages
  | some h => .error h.fault

def pass (p : Passage) (c : Course) : Course := { c with passages := p :: c.passages }

/-- The end of the run. -/
def ending (c : Course) : Pulled :=
  match c.halt with
  | none => .done
  | some h => .fault h.fault

/-- A batch run comes to what the course holds. -/
def ComesTo (c : Course) : Except Fault Toolpath → Prop
  | .ok t => c.ending = .done ∧ t.points = c.points ∧ t.warnings = c.warnings ∧ t.cycles = c.cycles
  | .error f => c.ending = .fault f

/-- A run that meets no block is stopped for want of one, unless a block was met before. -/
def needBlock (begun : Bool) (c : Course) : Course :=
  if begun || !c.passages.isEmpty || c.halt.isSome then c
  else { halt := some { fault := .empty .onlyComments } }

@[simp]
theorem needBlock_true (c : Course) : c.needBlock true = c := rfl

@[simp]
theorem needBlock_pass (begun : Bool) (p : Passage) (c : Course) :
    (c.pass p).needBlock begun = c.pass p := by
  simp [needBlock, pass]

@[simp]
theorem needBlock_halt (begun : Bool) (h : Halt) :
    needBlock begun { halt := some h } = { halt := some h } := by
  simp [needBlock]

end Course

/-- The run through numbered lines, as far as it goes. -/
def Modal.courseFrom (settings : Settings) (m : Modal) (n : Int) : List String → Course
  | [] => {}
  | raw :: rest =>
    match Block.read? raw n with
    | none => m.courseFrom settings (n + 1) rest
    | some b =>
      match m.resolve settings b with
      | .error f => { halt := some { fault := f } }
      | .ok r =>
        match r.emission settings with
        | .error f => { halt := some ⟨f, r.warnings.map fun w => ⟨n, w⟩, r.cycle?.toList⟩ }
        | .ok e => (r.state.courseFrom settings (n + 1) rest).pass ⟨b, m, r, e⟩

/-- The run of a program text, as far as it goes. -/
def Course.ofText (text : String) (settings : Settings) : Course :=
  (Modal.initial.courseFrom settings 1 (Text.lines text)).needBlock false

section

variable {settings : Settings} {m : Modal} {n : Int} {ls : List String} {text : String}

/-- Passages come to a result exactly if nothing stops the run. -/
theorem passFrom_eq_course : m.passFrom settings n ls = (m.courseFrom settings n ls).result := by
  induction ls generalizing m n with
  | nil => rfl
  | cons raw rest ih =>
    rw [Modal.passFrom, Modal.courseFrom]
    cases Block.read? raw n with
    | none => exact ih
    | some b =>
      simp only
      cases m.resolve settings b with
      | error f => rfl
      | ok r =>
        simp only [bind, Except.bind]
        cases r.emission settings with
        | error f => rfl
        | ok e =>
          simp only [ih, Course.result, Course.pass]
          cases (r.state.courseFrom settings (n + 1) rest).halt <;> rfl

/-- The passages of a course are those of the lines in front of the one that it stops at, or of all
lines. -/
theorem courseFrom_place :
    let c := m.courseFrom settings n ls
    ∃ k, m.passFrom settings n (ls.take k) = .ok c.passages ∧
      (k < ls.length → ∃ h, c.halt = some h ∧
        m.passFrom settings n (ls.take (k + 1)) = .error h.fault) := by
  induction ls generalizing m n with
  | nil => exact ⟨0, rfl, fun h => absurd h (Nat.not_lt_zero 0)⟩
  | cons raw rest ih =>
    rw [Modal.courseFrom]
    cases hread : Block.read? raw n with
    | none =>
      obtain ⟨k, hpass, hstop⟩ := @ih m (n + 1)
      refine ⟨k + 1, ?_, fun hk => ?_⟩
      · rw [List.take_succ_cons, Modal.passFrom, hread]
        exact hpass
      · obtain ⟨h, hhalt, hfault⟩ := hstop (Nat.lt_of_succ_lt_succ hk)
        refine ⟨h, hhalt, ?_⟩
        rw [List.take_succ_cons, Modal.passFrom, hread]
        exact hfault
    | some b =>
      simp only
      cases hr : m.resolve settings b with
      | error f =>
        refine ⟨0, rfl, fun _ => ⟨_, rfl, ?_⟩⟩
        simp [Modal.passFrom, hread, hr, bind, Except.bind]
      | ok r =>
        simp only
        cases he : r.emission settings with
        | error f =>
          refine ⟨0, rfl, fun _ => ⟨_, rfl, ?_⟩⟩
          simp [Modal.passFrom, hread, hr, he, bind, Except.bind]
        | ok e =>
          obtain ⟨k, hpass, hstop⟩ := @ih r.state (n + 1)
          refine ⟨k + 1, ?_, fun hk => ?_⟩
          · rw [List.take_succ_cons, Modal.passFrom, hread]
            simp [hr, he, hpass, bind, Except.bind, pure, Except.pure, Course.pass]
          · obtain ⟨h, hhalt, hfault⟩ := hstop (Nat.lt_of_succ_lt_succ hk)
            refine ⟨h, hhalt, ?_⟩
            rw [List.take_succ_cons, Modal.passFrom, hread]
            simp [hr, he, hfault, bind, Except.bind]

/-- The course of a text has passed the lines in front of the one that it stops at. -/
theorem place_ofText (text : String) (settings : Settings) :
    let c := Course.ofText text settings
    ∃ k, Modal.initial.passFrom settings 1 ((Text.lines text).take k) = .ok c.passages ∧
      (k < (Text.lines text).length → ∃ f, c.ending = .fault f ∧
        Modal.initial.passFrom settings 1 ((Text.lines text).take (k + 1)) = .error f) := by
  obtain ⟨k, hpass, hstop⟩ := @courseFrom_place settings .initial 1 (Text.lines text)
  rw [Course.ofText, Course.needBlock]
  split
  · refine ⟨k, hpass, fun hk => ?_⟩
    obtain ⟨h, hhalt, hfault⟩ := hstop hk
    exact ⟨h.fault, by rw [Course.ending, hhalt], hfault⟩
  · rename_i hnone
    simp only [Bool.false_or, Bool.or_eq_true, not_or, Bool.not_eq_true, Bool.not_eq_false',
      List.isEmpty_iff, Option.isSome_eq_false_iff, Option.isNone_iff_eq_none] at hnone
    refine ⟨k, by rw [hpass, hnone.1], fun hk => ?_⟩
    obtain ⟨h, hhalt, -⟩ := hstop hk
    rw [hnone.2] at hhalt
    cases hhalt

theorem Course.comesTo_result (c : Course) : c.ComesTo (c.result.map Toolpath.ofPassages) := by
  obtain ⟨passages, halt⟩ := c
  cases halt with
  | none => exact ⟨rfl, rfl, (List.append_nil _).symm, (List.append_nil _).symm⟩
  | some h => rfl

/-- The toolpath of a text is its course, or the fault that stops it. -/
theorem ofText_eq_course (h : Toolpath.isBlankText text = false) :
    Toolpath.ofText text settings =
      (Course.ofText text settings).result.map Toolpath.ofPassages := by
  rw [Toolpath.ofText, Toolpath.passages, passFrom_eq_course, Course.ofText]
  generalize Modal.initial.courseFrom settings 1 (Text.lines text) = c
  obtain ⟨passages, halt⟩ := c
  cases halt with
  | some halt => simp [h, Course.result, Course.needBlock, bind, Except.bind]
  | none =>
    cases passages with
    | nil => simp [h, Course.result, Course.needBlock, bind, Except.bind, throw, throwThe,
      MonadExceptOf.throw]
    | cons p ps => simp [h, Course.result, Course.needBlock, bind, Except.bind, pure, Except.pure]

end

/-! ## What is shown on the way -/

/-- What an interpreter has on show. -/
structure View where
  state : Modal
  warnings : List LineWarning := []
  cycles : List FixedCycle := []

namespace View

/-- After a passage. -/
def pass (v : View) (p : Passage) : View :=
  ⟨p.resolution.state, v.warnings ++ p.warnings, v.cycles ++ p.resolution.cycle?.toList⟩

/-- With the points of a passage: the state is still the one before it. -/
def within (v : View) (p : Passage) : View := { v.pass p with state := p.before }

/-- At the end of a run. -/
def finish (v : View) (c : Course) : View :=
  ⟨c.last v.state, v.warnings ++ c.warnings, v.cycles ++ c.cycles⟩

theorem finish_pass (v : View) (p : Passage) (c : Course) :
    (v.pass p).finish c = v.finish (c.pass p) := by
  obtain ⟨passages, halt⟩ := c
  have hlast : (passages.getLast?.map fun q => q.resolution.state).getD p.resolution.state =
      (((p :: passages).getLast?).map fun q => q.resolution.state).getD v.state := by
    rw [List.getLast?_cons]
    cases passages.getLast? <;> rfl
  simp only [finish, pass, Course.pass, Course.last, Course.warnings, Course.cycles, hlast]
  cases hc : p.resolution.cycle? <;> simp [hc]

/-- The points of passages in order, each with what is shown when it has been pulled. -/
def pauses (v : View) : List Passage → List (Waypoint × View)
  | [] => []
  | p :: rest => p.points.map (fun w => (w, v.within p)) ++ (v.pass p).pauses rest

theorem pauses_pass (v : View) (p : Passage) (c : Course) :
    v.pauses (c.pass p).passages =
      p.points.map (fun w => (w, v.within p)) ++ (v.pass p).pauses c.passages := rfl

theorem pauses_points (v : View) (ps : List Passage) :
    (v.pauses ps).map Prod.fst = ps.flatMap Passage.points := by
  induction ps generalizing v with
  | nil => rfl
  | cons p rest ih => simp [pauses, ih, Function.comp_def]

theorem length_pauses (v : View) (ps : List Passage) :
    (v.pauses ps).length = (ps.flatMap Passage.points).length := by
  rw [← pauses_points v, List.length_map]

/-- What is shown with a point is what was shown and said up to its own passage. -/
theorem pauses_getElem {v u : View} {ps : List Passage} {k : Nat} {w : Waypoint}
    (h : (v.pauses ps)[k]? = some (w, u)) :
    ∃ done p rest, ps = done ++ p :: rest ∧ (done.flatMap Passage.points).length ≤ k ∧
      k < (done.flatMap Passage.points).length + p.points.length ∧ u.state = p.before ∧
      u.warnings = v.warnings ++ (done ++ [p]).flatMap Passage.warnings ∧
      u.cycles = v.cycles ++ (done ++ [p]).filterMap fun p => p.resolution.cycle? := by
  induction ps generalizing v k with
  | nil => simp [pauses] at h
  | cons p rest ih =>
    rw [pauses] at h
    by_cases hk : k < p.points.length
    · rw [List.getElem?_append_left (by simpa using hk), List.getElem?_map,
        List.getElem?_eq_getElem hk, Option.map_some, Option.some.injEq, Prod.mk.injEq] at h
      obtain ⟨-, rfl⟩ := h
      refine ⟨[], p, rest, rfl, Nat.zero_le k, by simpa using hk, rfl, ?_, ?_⟩
      · simp [within, pass]
      · cases hc : p.resolution.cycle? <;> simp [within, pass, hc]
    · have hle : p.points.length ≤ k := Nat.le_of_not_lt hk
      rw [List.getElem?_append_right (by simpa using hle), List.length_map] at h
      obtain ⟨done, q, more, rfl, hfrom, hto, hstate, hwarnings, hcycles⟩ := ih h
      refine ⟨p :: done, q, more, rfl, ?_, ?_, hstate, ?_, ?_⟩
      · rw [List.flatMap_cons, List.length_append]
        omega
      · rw [List.flatMap_cons, List.length_append]
        omega
      · simp [hwarnings, pass]
      · rw [hcycles, pass]
        cases hc : p.resolution.cycle? <;> simp [hc]

end View

/-! ## What an interpreter has to give -/

namespace Interpreter

def view (i : Interpreter) : View := ⟨i.state, i.warnings, i.cycles⟩

/-- Pulls in portions: all points, and how the run ended if it did. -/
def takes (i : Interpreter) : List Nat → Interpreter × List Waypoint × Option Pulled
  | [] => (i, [], none)
  | n :: rest =>
    let (i, points, ending) := i.take n
    let (i, more, later) := i.takes rest
    (i, points ++ more, ending.or later)

/-- What a pull has given, and what the pulls after it have still to give: points with what is shown
after each of them, then the end. -/
inductive Pulls : Interpreter × Pulled → List (Waypoint × View) → Pulled × View → Prop where
  | point {i : Interpreter} {w : Waypoint} {ps : List (Waypoint × View)} {e : Pulled × View} :
      Pulls i.pull ps e → Pulls (i, .point w) ((w, i.view) :: ps) e
  | done {i : Interpreter} : Pulls (i, .done) [] (.done, i.view)
  | fault {i : Interpreter} {f : Fault} : Pulls (i, .fault f) [] (.fault f, i.view)

/-- The points of the present block come before all others, with the same on show. -/
theorem pulls_pending {i : Interpreter} {ps : List (Waypoint × View)} {e : Pulled × View}
    (hopen : i.ended = false)
    (h : Pulls
      (({ i with pending := [], state := i.next } : Interpreter).advance i.lineNumber i.lines) ps e) :
    Pulls i.pull (i.pending.map (fun w => (w, i.view)) ++ ps) e := by
  obtain ⟨settings, lines, lineNumber, state, pending, next, begun, ended, warnings, cycles⟩ := i
  subst hopen
  induction pending with
  | nil => exact h
  | cons w rest ih => exact .point (ih h)

/-- With all noted that there is to say about a passage. -/
def noting (i : Interpreter) (p : Passage) : Interpreter :=
  { i with
    begun := true
    warnings := i.warnings ++ p.warnings
    cycles := i.cycles ++ p.resolution.cycle?.toList }

/-- On to the next point over a block that is passed. -/
theorem advance_passed {i : Interpreter} {n : Int} {raw : String} {rest : List String} {b : Block}
    {r : Resolution} {e : Emission} (hread : Block.read? raw n = some b)
    (hr : i.state.resolve i.settings b = .ok r) (he : r.emission i.settings = .ok e) :
    i.advance n (raw :: rest) =
      match e.points with
      | [] =>
        ({ i.noting ⟨b, i.state, r, e⟩ with state := r.state } : Interpreter).advance (n + 1) rest
      | w :: more =>
        ({ i.noting ⟨b, i.state, r, e⟩ with
          pending := more, next := r.state, lines := rest, lineNumber := n + 1 }, .point w) := by
  have hnoting : i.noting ⟨b, i.state, r, e⟩ =
      { i with
        begun := true
        warnings := i.warnings ++ (r.warnings.map fun w => ⟨n, w⟩) ++ e.warnings.map fun w => ⟨n, w⟩
        cycles := i.cycles ++ r.cycle?.toList } := by
    simp [noting, Passage.warnings, Block.read?_line hread]
  rw [hnoting, advance, hread]
  cases hpoints : e.points with
  | nil => simp [hr, he, hpoints]
  | cons w more => simp [hr, he, hpoints]

/-- A block that is passed gives its points, and behind them what any interpreter has to give that
goes on from there; whatever else such an interpreter still holds, it goes on from what it shows. -/
theorem pulls_passed {i : Interpreter} {n : Int} {raw : String} {rest : List String} {b : Block}
    {r : Resolution} {e : Emission} {ps : List (Waypoint × View)} {ending : Pulled × View}
    (hopen : i.ended = false) (hread : Block.read? raw n = some b)
    (hr : i.state.resolve i.settings b = .ok r) (he : r.emission i.settings = .ok e)
    (hrest : ∀ j : Interpreter, j.ended = false → j.settings = i.settings → j.begun = true →
      j.view = i.view.pass ⟨b, i.state, r, e⟩ → Pulls (j.advance (n + 1) rest) ps ending) :
    Pulls (i.advance n (raw :: rest))
      ((⟨b, i.state, r, e⟩ : Passage).points.map
        (fun w => (w, i.view.within ⟨b, i.state, r, e⟩)) ++ ps) ending := by
  let p : Passage := ⟨b, i.state, r, e⟩
  have hwithin : (i.noting p).view = i.view.within p := rfl
  rw [advance_passed hread hr he]
  cases hpoints : e.points with
  | nil =>
    have hnone : p.points = [] := hpoints
    rw [hnone]
    exact hrest _ hopen rfl rfl rfl
  | cons w more =>
    have hsome : p.points = w :: more := hpoints
    rw [hsome, List.map_cons, List.cons_append, ← hwithin]
    exact .point (pulls_pending hopen (hrest _ hopen rfl rfl rfl))

/-- What an interpreter shows that stops on a block. -/
theorem finish_halt (v : View) (h : Halt) :
    v.finish { halt := some h } = ⟨v.state, v.warnings ++ h.warnings, v.cycles ++ h.cycles⟩ := by
  simp [View.finish, Course.last, Course.warnings, Course.cycles]

/-- An interpreter that goes on to the next point gives the course of the lines before it. -/
theorem pulls_advance {i : Interpreter} {n : Int} {ls : List String} (hopen : i.ended = false) :
    let c := (i.state.courseFrom i.settings n ls).needBlock i.begun
    Pulls (i.advance n ls) (i.view.pauses c.passages) (c.ending, i.view.finish c) := by
  induction ls generalizing i n with
  | nil =>
    rw [advance, Modal.courseFrom]
    cases hbegun : i.begun with
    | true =>
      have hview : i.view.finish {} = i.stop.view := by
        simp [View.finish, view, stop, Course.last, Course.warnings, Course.cycles]
      simp only [Course.needBlock_true, hview]
      exact .done
    | false =>
      have hcourse : Course.needBlock false {} =
          { halt := some { fault := .empty .onlyComments } } := rfl
      simp only [hcourse, finish_halt, List.append_nil]
      exact .fault
  | cons raw rest ih =>
    rw [Modal.courseFrom]
    cases hread : Block.read? raw n with
    | none =>
      rw [advance, hread]
      exact ih hopen
    | some b =>
      simp only
      cases hr : i.state.resolve i.settings b with
      | error f =>
        rw [advance, hread]
        simp only [hr, Course.needBlock_halt, finish_halt, List.append_nil]
        exact .fault
      | ok r =>
        simp only
        cases he : r.emission i.settings with
        | error f =>
          rw [advance, hread]
          simp only [hr, he, Course.needBlock_halt, finish_halt]
          exact .fault
        | ok e =>
          rw [Course.needBlock_pass]
          simp only [View.pauses_pass, ← View.finish_pass]
          refine pulls_passed hopen hread hr he fun j hopen hsettings hbegun hview => ?_
          have hstate : j.state = r.state := congrArg View.state hview
          have h := @ih j (n + 1) hopen
          rw [hsettings, hbegun, hview, hstate] at h
          exact h

/-! ## Portions -/

theorem advance_ended (i : Interpreter) (n : Int) (ls : List String) :
    (∃ w, (i.advance n ls).2 = .point w) ∨ (i.advance n ls).1.ended = true := by
  induction ls generalizing i n with
  | nil => exact .inr rfl
  | cons raw rest ih =>
    rw [advance]
    split
    · exact ih i (n + 1)
    · simp only
      split
      · exact .inr rfl
      · split
        · exact .inr rfl
        · split
          · exact ih _ (n + 1)
          · exact .inl ⟨_, rfl⟩

/-- What gives no point any more gives none later. -/
theorem pull_ended (i : Interpreter) : (∃ w, i.pull.2 = .point w) ∨ i.pull.1.ended = true := by
  rw [pull]
  split
  · rename_i hended
    exact .inr hended
  · split
    · exact .inl ⟨_, rfl⟩
    · exact advance_ended _ _ _

theorem take_of_ended {i : Interpreter} (h : i.ended = true) (n : Nat) :
    ∃ ending, i.take n = (i, [], ending) := by
  cases n with
  | zero => exact ⟨none, rfl⟩
  | succ n =>
    refine ⟨some .done, ?_⟩
    rw [take, pull, if_pos h]

/-- A run stopped and taken up again goes on as if it had not been stopped. -/
theorem take_add (i : Interpreter) (m n : Nat) :
    i.take (m + n) =
      (((i.take m).1.take n).1, (i.take m).2.1 ++ ((i.take m).1.take n).2.1,
        (i.take m).2.2.or ((i.take m).1.take n).2.2) := by
  induction m generalizing i with
  | zero => simp [take]
  | succ m ih =>
    have hended := i.pull_ended
    rw [Nat.succ_add, take, take]
    generalize i.pull = pulled at hended
    obtain ⟨j, pulled⟩ := pulled
    cases pulled with
    | point w => simp only [ih j, List.cons_append]
    | done =>
      obtain ⟨ending, hending⟩ := take_of_ended (hended.resolve_left (by simp)) n
      simp [hending]
    | fault f =>
      obtain ⟨ending, hending⟩ := take_of_ended (hended.resolve_left (by simp)) n
      simp [hending]

/-- Only the number of pulls counts, not the portions that they come in. -/
theorem takes_eq_take_sum (i : Interpreter) (portions : List Nat) :
    i.takes portions = i.take portions.sum := by
  induction portions generalizing i with
  | nil => rfl
  | cons n rest ih =>
    rw [List.sum_cons, take_add, takes]
    simp only [ih]

/-- A number of pulls gives as many points, or all of them and the end; on show is what goes with
the last pull. -/
theorem Pulls.take {i : Interpreter} {ps : List (Waypoint × View)} {e : Pulled × View}
    (h : Pulls i.pull ps e) (n : Nat) :
    ∃ j, i.take n =
        (j, (ps.map Prod.fst).take n, if n ≤ ps.length then none else some e.1) ∧
      j.view = ((i.view :: ps.map Prod.snd)[n]?).getD e.2 := by
  induction n generalizing i ps with
  | zero => exact ⟨i, by simp [Interpreter.take], rfl⟩
  | succ n ih =>
    rw [Interpreter.take]
    generalize i.pull = pulled at h
    cases h with
    | point h =>
      obtain ⟨j, htake, hview⟩ := ih h
      refine ⟨j, ?_, by simpa using hview⟩
      simp [htake]
    | @done j => exact ⟨j, by simp, by simp⟩
    | @fault j f => exact ⟨j, by simp, by simp⟩

/-- An interpreter made for a text has the course of the text to give. -/
theorem pulls_ofText (text : String) (settings : Settings) :
    let c := Course.ofText text settings
    let i : Interpreter := { settings := settings, lines := Text.lines text }
    Pulls i.pull (i.view.pauses c.passages) (c.ending, i.view.finish c) :=
  pulls_pending rfl (pulls_advance rfl)

/-- What an interpreter shows after a number of pulls. -/
structure Shows (i : Interpreter) (c : Course) (pulls : Nat) : Prop where
  warnings : i.warnings <+: c.warnings
  cycles : i.cycles <+: c.cycles
  /-- before any pull -/
  start : pulls = 0 → i.state = .initial
  /-- with a point: the state before the block that gave it, and all that the block says -/
  paused : 0 < pulls → pulls ≤ c.points.length →
    ∃ done p rest, c.passages = done ++ p :: rest ∧
      (done.flatMap Passage.points).length < pulls ∧
      pulls ≤ (done.flatMap Passage.points).length + p.points.length ∧
      i.state = p.before ∧ i.warnings = (done ++ [p]).flatMap Passage.warnings ∧
      i.cycles = (done ++ [p]).filterMap fun p => p.resolution.cycle?
  /-- at the end -/
  ended : c.points.length < pulls →
    i.state = c.last .initial ∧ i.warnings = c.warnings ∧ i.cycles = c.cycles

/-- What has been said and begun up to a passage is the beginning of all that will be. -/
theorem upTo_prefix {c : Course} {done rest : List Passage} {p : Passage}
    (h : c.passages = done ++ p :: rest) :
    (done ++ [p]).flatMap Passage.warnings <+: c.warnings ∧
      ((done ++ [p]).filterMap fun p => p.resolution.cycle?) <+: c.cycles := by
  have hsplit : c.passages = (done ++ [p]) ++ rest := by simp [h]
  rw [Course.warnings, Course.cycles, hsplit, @List.flatMap_append _ _ (done ++ [p]),
    List.filterMap_append (l := done ++ [p])]
  exact ⟨(List.prefix_append _ _).trans (List.prefix_append _ _),
    (List.prefix_append _ _).trans (List.prefix_append _ _)⟩

/-- A run that shows what goes with its last pull shows what the course says. -/
theorem shows_of_view {i : Interpreter} {c : Course} {v : View} {n : Nat}
    (hv : v = { state := .initial })
    (h : i.view = ((v :: (v.pauses c.passages).map Prod.snd)[n]?).getD (v.finish c)) :
    i.Shows c n := by
  subst hv
  have hlength : (View.pauses { state := .initial } c.passages).length = c.points.length :=
    View.length_pauses _ _
  cases n with
  | zero =>
    have hview : i.view = { state := .initial } := h
    have hstate : i.state = .initial := congrArg View.state hview
    have hwarnings : i.warnings = [] := congrArg View.warnings hview
    have hcycles : i.cycles = [] := congrArg View.cycles hview
    exact ⟨by simp [hwarnings], by simp [hcycles], fun _ => hstate, by simp, by simp⟩
  | succ k =>
    rw [List.getElem?_cons_succ, List.getElem?_map] at h
    by_cases hk : k < c.points.length
    · obtain ⟨⟨w, u⟩, hu⟩ : ∃ x, (View.pauses { state := .initial } c.passages)[k]? = some x :=
        ⟨_, List.getElem?_eq_getElem (by omega)⟩
      rw [hu, Option.map_some, Option.getD_some] at h
      obtain ⟨done, p, rest, hpassages, hfrom, hto, hstate, hwarnings, hcycles⟩ :=
        View.pauses_getElem hu
      rw [List.nil_append] at hwarnings hcycles
      have hi : i.state = p.before ∧ i.warnings = (done ++ [p]).flatMap Passage.warnings ∧
          i.cycles = (done ++ [p]).filterMap fun p => p.resolution.cycle? :=
        ⟨(congrArg View.state h).trans hstate, (congrArg View.warnings h).trans hwarnings,
          (congrArg View.cycles h).trans hcycles⟩
      obtain ⟨hsaid, hbegun⟩ := upTo_prefix hpassages
      refine ⟨by rw [hi.2.1]; exact hsaid, by rw [hi.2.2]; exact hbegun, by simp, ?_, by omega⟩
      exact fun _ _ => ⟨done, p, rest, hpassages, by omega, by omega, hi⟩
    · rw [List.getElem?_eq_none (by omega), Option.map_none, Option.getD_none] at h
      have hwarnings : i.warnings = c.warnings := congrArg View.warnings h
      have hcycles : i.cycles = c.cycles := congrArg View.cycles h
      have hstate : i.state = c.last .initial := congrArg View.state h
      refine ⟨by simp [hwarnings], by simp [hcycles], by simp, fun _ hle => absurd hle (by omega), ?_⟩
      exact fun _ => ⟨hstate, hwarnings, hcycles⟩

end Interpreter

/-- However a run is pulled, in portions of any sizes: it begins with the fault of the batch run if
there is no text at all; else its points are the first ones of the course of the text, as many as
were pulled, until all are given and the run ends as the batch run does, with the fault that stops
it or without; and state, warnings and cycles on show are those of the course at that place. The
course has passed the lines in front of the one that the batch run stops at. -/
theorem takes_follow_course (text : String) (settings : Settings) (portions : List Nat) :
    (∀ f, Interpreter.ofText text settings = .error f → Toolpath.ofText text settings = .error f) ∧
      ∀ i, Interpreter.ofText text settings = .ok i →
        let c := Course.ofText text settings
        let n := portions.sum
        c.ComesTo (Toolpath.ofText text settings) ∧
          (∃ k, Modal.initial.passFrom settings 1 ((Text.lines text).take k) = .ok c.passages ∧
            (k < (Text.lines text).length → ∃ f, c.ending = .fault f ∧
              Modal.initial.passFrom settings 1 ((Text.lines text).take (k + 1)) = .error f)) ∧
          ∃ j, i.takes portions =
              (j, c.points.take n, if n ≤ c.points.length then none else some c.ending) ∧
            j.Shows c n := by
  rw [Interpreter.ofText]
  split
  · rename_i hblank
    refine ⟨fun f h => ?_, fun i h => nomatch h⟩
    cases h
    simp [Toolpath.ofText, Toolpath.passages, hblank, bind, Except.bind, throw, throwThe,
      MonadExceptOf.throw, Except.map]
  · rename_i hblank
    refine ⟨fun f h => (nomatch h), fun i h => ?_⟩
    cases h
    obtain ⟨j, htake, hshown⟩ := (Interpreter.pulls_ofText text settings).take portions.sum
    rw [View.pauses_points, View.length_pauses] at htake
    refine ⟨?_, place_ofText text settings, j, ?_, Interpreter.shows_of_view rfl hshown⟩
    · rw [ofText_eq_course (Bool.eq_false_iff.2 hblank)]
      exact Course.comesTo_result _
    · rw [Interpreter.takes_eq_take_sum]
      exact htake

/-- A pecked hole behind a straight move, and an arc that falls into chords without number: five
points end within the hole, and the ninth pull meets the fault. -/
theorem takes_follow_course_faulted :
    let text := "G1 X5 F100\nG83 Z-5 R2 Q3\n(no block)\nG2 X35 I15\nX7"
    let settings : Settings := { resolution := .ofBits 1, resolution_not_le := by decide +kernel }
    let c := Course.ofText text settings
    ∃ i, Interpreter.ofText text settings = .ok i ∧ c.points.length = 8 ∧ c.halt.isSome = true ∧
      c.ComesTo (Toolpath.ofText text settings) ∧
      (∃ j, i.takes [2, 0, 3] = (j, c.points.take 5, none) ∧ j.Shows c 5) ∧
      ∃ j, i.takes [2, 0, 7] = (j, c.points, some c.ending) ∧ j.Shows c 9 := by
  intro text settings c
  obtain ⟨i, hi⟩ := exists_eq_ok (x := Interpreter.ofText text settings) (by decide +kernel)
  have hlength : c.points.length = 8 := by decide +kernel
  have hhalt : c.halt.isSome = true := by decide +kernel
  obtain ⟨hbatch, -, paused⟩ := (takes_follow_course text settings [2, 0, 3]).2 i hi
  obtain ⟨-, -, ended⟩ := (takes_follow_course text settings [2, 0, 7]).2 i hi
  refine ⟨i, hi, hlength, hhalt, hbatch, ?_, ?_⟩
  · obtain ⟨j, htakes, hshows⟩ := paused
    refine ⟨j, ?_, hshows⟩
    rw [htakes, if_pos (by rw [hlength]; decide)]
    rfl
  · obtain ⟨j, htakes, hshows⟩ := ended
    refine ⟨j, ?_, hshows⟩
    rw [htakes, if_neg (by rw [hlength]; decide), List.take_of_length_le (by rw [hlength]; decide)]

end PartProgram

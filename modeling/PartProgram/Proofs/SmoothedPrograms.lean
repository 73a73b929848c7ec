import PartProgram.Proofs.Openings
import PartProgram.Proofs.Steady
import PartProgram.Proofs.Walk

/-!
# PartProgram.Proofs.SmoothedPrograms

Where smoothing is put into a program. It is switched on after the setup in front of the first line
that moves, and off in front of the last line that ends the program; the lines of the program stay
in order around it.

* `setupEnd_eq`: the place of the setup.
* `Rule.useHighSpeedMode_smoothed`: both places, and what stands before and after them.
-/

namespace PartProgram

open Text

/-! ## Places -/

section

variable {α : Type} {isKind : α → Bool} {as bs : List α}

theorem lastIndex?_cons (a : α) (as : List α) : lastIndex? isKind (a :: as) =
    ((lastIndex? isKind as).map (· + 1)).or (if isKind a then some 0 else none) := by
  rw [lastIndex?]
  cases lastIndex? isKind as <;> rfl

theorem lastIndex?_append (as bs : List α) :
    lastIndex? isKind (as ++ bs) =
      ((lastIndex? isKind bs).map (as.length + ·)).or (lastIndex? isKind as) := by
  induction as with
  | nil => simp [lastIndex?]
  | cons a as ih =>
    rw [List.cons_append, lastIndex?_cons, ih, lastIndex?_cons]
    cases lastIndex? isKind bs with
    | none => rfl
    | some n => simp [Nat.add_right_comm]

theorem lastIndex?_eq_none : lastIndex? isKind as = none ↔ ∀ a ∈ as, isKind a = false := by
  induction as with
  | nil => simp [lastIndex?]
  | cons a as ih =>
    rw [lastIndex?_cons, List.forall_mem_cons, ← ih]
    cases lastIndex? isKind as <;> cases isKind a <;> simp

theorem lastIndex?_lt {n : Nat} (h : lastIndex? isKind as = some n) : n < as.length := by
  obtain ⟨a, ha, -⟩ := Conversational.lastIndex?_spec h
  exact (List.getElem?_eq_some_iff.1 ha).1

theorem getElem?_of_takeWhile {i : Nat} {a : α} (h : (as.takeWhile isKind)[i]? = some a) :
    as[i]? = some a := by
  have hlt := (List.getElem?_eq_some_iff.1 h).1
  rw [← List.takeWhile_append_dropWhile (p := isKind) (l := as), List.getElem?_append_left hlt, h]

/-- What stands at a place in front of the end of a row is of the kind that the row is made of. -/
theorem isKind_of_lt_takeWhile {i : Nat} {a : α} (hlt : i < (as.takeWhile isKind).length)
    (h : as[i]? = some a) : isKind a = true := by
  have hkept := getElem?_of_takeWhile (List.getElem?_eq_getElem hlt)
  rw [Option.some.inj (h.symm.trans hkept)]
  exact List.mem_takeWhile_imp (List.getElem_mem hlt)

theorem mem_drop_of_getElem? {i k : Nat} {a : α} (h : as[i]? = some a) (hle : k ≤ i) :
    a ∈ as.drop k := by
  refine List.mem_of_getElem? (i := i - k) ?_
  rw [List.getElem?_drop, Nat.add_sub_cancel' hle, h]

theorem exists_lastIndex? (h : as.any isKind = true) : ∃ k, lastIndex? isKind as = some k := by
  obtain ⟨a, ha, hkind⟩ := List.any_eq_true.1 h
  refine Option.ne_none_iff_exists'.1 fun hnone => ?_
  rw [lastIndex?_eq_none.1 hnone a ha] at hkind
  cases hkind

/-- One row of elements put in at one place, and another at another place, with those around them in
order. -/
def Placed (on off : Nat) (front back as out : List α) : Prop :=
  ∃ before between after, as = before ++ between ++ after ∧
    (out = before ++ front ++ between ++ back ++ after ∧
        before.length = on ∧ (before ++ between).length = off ∨
      out = before ++ back ++ between ++ front ++ after ∧
        before.length = off ∧ (before ++ between).length = on ∧ off < on)

theorem insertAt_length_add (n : Nat) (new as bs : List α) :
    insertAt (as.length + n) new (as ++ bs) = as ++ bs.take n ++ new ++ bs.drop n := by
  rw [insertAt, List.take_length_add_append, List.drop_length_add_append]

/-- What comes in front of the last element of a kind, after something else was put in. -/
theorem placed_insertAt {on : Nat} (hle : on ≤ as.length) {front : List α} (back : List α)
    (hfront : ∀ a ∈ front, isKind a = false) :
    Placed on ((lastIndex? isKind as).getD as.length) front back as
      (insertAt ((lastIndex? isKind (insertAt on front as)).getD (insertAt on front as).length) back
        (insertAt on front as)) := by
  obtain ⟨bs, cs, rfl, rfl⟩ : ∃ bs cs, as = bs ++ cs ∧ bs.length = on :=
    ⟨as.take on, as.drop on, (List.take_append_drop on as).symm, List.length_take_of_le hle⟩
  have hopened : insertAt bs.length front (bs ++ cs) = bs ++ front ++ cs := by
    simpa using insertAt_length_add 0 front bs cs
  rw [hopened, lastIndex?_append (bs ++ front), lastIndex?_append bs front, lastIndex?_append bs cs,
    lastIndex?_eq_none.2 hfront]
  cases hafter : lastIndex? isKind cs with
  | some n =>
    refine ⟨bs, cs.take n, cs.drop n, by simp, .inl ⟨?_, rfl, ?_⟩⟩
    · exact insertAt_length_add n back (bs ++ front) cs
    · have := lastIndex?_lt hafter
      simp
      omega
  | none =>
    cases hbefore : lastIndex? isKind bs with
    | some n =>
      have hlt := lastIndex?_lt hbefore
      refine ⟨bs.take n, bs.drop n, cs, by simp, .inr ⟨?_, ?_, by simp, by simpa using hlt⟩⟩
      · simp [insertAt, List.take_append, List.drop_append, Nat.sub_eq_zero_of_le hlt.le]
      · simp
        omega
    | none =>
      refine ⟨bs, cs, [], by simp, .inl ⟨?_, rfl, rfl⟩⟩
      show insertAt (bs ++ front ++ cs).length back (bs ++ front ++ cs) = _
      rw [insertAt, List.take_length, List.drop_length]

end

namespace Rule

variable {job : Job} {ls : Lines}

/-! ## Moves and setup -/

/-- A block without a code that decides how it moves and without an axis goes nowhere. -/
def mayMove (b : Block) : Bool := b.dominant?.isSome || b.hasAxis

def lineMoves (l : String) : Bool := (Block.read? l 1).any mayMove

/-- Whether a line sets the machine up. -/
def setsUp (l : String) : Bool := (Block.read? l 1).any (hasCode setupCodes)

theorem any_read? {f : Block → Bool} (hf : ∀ b k, f { b with line := k } = f b) (l : String)
    (n : Int) : (Block.read? l n).any f = (Block.read? l 1).any f := by
  have h := congrArg (Option.any id) (Block.read?_map hf l n 1)
  rwa [Option.any_map, Option.any_map] at h

/-- A line that works the machine is one that moves. -/
theorem lineMoves_of_isWork {settings : Settings} {m : Modal} {n : Int} {stops : List Stop}
    {s : Stop} {b : Block} {r : Resolution} (h : m.walkFrom settings n ls = .ok stops)
    (hs : s ∈ stops) (hfound : s.found = some (b, r)) (hwork : r.isWork = true) :
    lineMoves s.raw = true := by
  obtain ⟨k, hstop⟩ := walkFrom_stopAt h s hs
  have hread := (stopAt_eq_ok hstop).2.2
  have hresolve := stopAt_resolve hstop hfound
  rw [Stop.block?, hfound, Option.map_some] at hread
  have hmoves : mayMove b = true := by
    by_contra hstill
    simp only [mayMove, Bool.or_eq_true, not_or, Bool.not_eq_true, Option.isSome_eq_false_iff,
      Option.isNone_iff_eq_none] at hstill
    simp only [Modal.resolve, hstill.1, hstill.2, Bool.not_false, if_true] at hresolve
    cases hresolve
    cases hwork
  rw [lineMoves, ← any_read? (fun _ _ => rfl) _ k, ← hread]
  exact hmoves

theorem setupLength_eq (ls : Lines) (n : Int) (index length : Nat) :
    setupLength index length ((readLines n ls).map Prod.snd) =
      ((lastIndex? setsUp (ls.takeWhile (!lineMoves ·))).map (index + 1 + ·)).getD length := by
  induction ls generalizing n index length with
  | nil => rfl
  | cons l ls ih =>
    have hmoves : lineMoves l = (Block.read? l n).any mayMove :=
      (any_read? (fun _ _ => rfl) l n).symm
    have hsets : setsUp l = (Block.read? l n).any (hasCode setupCodes) :=
      (any_read? (fun _ _ => rfl) l n).symm
    have hkept (hstill : lineMoves l = false) :
        lastIndex? setsUp ((l :: ls).takeWhile (!lineMoves ·)) =
          ((lastIndex? setsUp (ls.takeWhile (!lineMoves ·))).map (· + 1)).or
            (if setsUp l then some 0 else none) := by
      rw [← lastIndex?_cons, List.takeWhile_cons_of_pos (by rw [hstill]; rfl)]
    rw [readLines, List.map_cons]
    cases hread : Block.read? l n with
    | none =>
      rw [hread] at hmoves hsets
      rw [setupLength, ih, hkept hmoves, hsets]
      cases lastIndex? setsUp (ls.takeWhile (!lineMoves ·)) with
      | none => rfl
      | some k => simp; omega
    | some b =>
      rw [hread, Option.any_some] at hmoves hsets
      rw [setupLength]
      split
      · rename_i hmove
        have hmoves : lineMoves l = true := hmoves.trans hmove
        rw [List.takeWhile_cons_of_neg (by rw [hmoves]; decide)]
        rfl
      · rename_i hstill
        rw [ih, hkept (hmoves.trans (Bool.eq_false_iff.2 hstill)), hsets]
        cases lastIndex? setsUp (ls.takeWhile (!lineMoves ·)) with
        | none => cases hasCode setupCodes b <;> rfl
        | some k => simp; omega

/-- The setup ends with the last line before the first move that has a code for it. -/
theorem setupEnd_eq (ls : Lines) :
    setupEnd ls = ((lastIndex? setsUp (ls.takeWhile (!lineMoves ·))).map (1 + ·)).getD 0 := by
  rw [setupEnd, setupLength_eq, Nat.zero_add]

theorem setupEnd_le (ls : Lines) : setupEnd ls ≤ (ls.takeWhile (!lineMoves ·)).length := by
  rw [setupEnd_eq]
  cases hlast : lastIndex? setsUp (ls.takeWhile (!lineMoves ·)) with
  | none => exact Nat.zero_le _
  | some k =>
    have := lastIndex?_lt hlast
    simp
    omega

/-! ## Frame -/

/-- The marker at both ends of a tape. -/
def isTapeMarker (l : String) : Bool :=
  trim (codeOf (Block.dropLineEnd l.toList)) = ['%']

/-- A line with the number of the program and no word for the machine. -/
def isProgramNumber (l : String) : Bool :=
  (match trimLeft (codeOf (Block.dropLineEnd l.toList)) with
    | c :: d :: _ => c.toUpper = 'O' && isDigit d
    | _ => false) && (Block.read? l 1).all (·.words.isEmpty)

/-- The lines that open a tape. -/
def openingLines (ls : Lines) : Lines := ls.takeWhile fun l => isTapeMarker l || isProgramNumber l

theorem read?_of_isTapeMarker {l : String} (h : isTapeMarker l = true) (n : Int) :
    Block.read? l n = none :=
  Block.read?_of_saysNothing (.inr (of_decide_eq_true h)) n

theorem setsUp_of_isOpening {l : String} (h : (isTapeMarker l || isProgramNumber l) = true) :
    setsUp l = false := by
  rw [setsUp]
  rcases Bool.or_eq_true _ _ |>.mp h with hmarker | hnumber
  · rw [read?_of_isTapeMarker hmarker]
    rfl
  · rw [isProgramNumber, Bool.and_eq_true] at hnumber
    cases hread : Block.read? l 1 with
    | none => rfl
    | some b =>
      have hwords : b.words = [] := by simpa [hread] using hnumber.2
      simp [hasCode, Block.codes, hwords]

/-- Where a setup is stated before the first move, it ends behind the lines that open a tape. -/
theorem length_openingLines_le (h : (ls.takeWhile (!lineMoves ·)).any setsUp = true) :
    (openingLines ls).length ≤ setupEnd ls := by
  obtain ⟨k, hlast⟩ := exists_lastIndex? h
  obtain ⟨l, hl, hsets⟩ := Conversational.lastIndex?_spec hlast
  rw [setupEnd_eq, hlast, Option.map_some, Option.getD_some]
  refine Nat.le_of_not_lt fun hlong => ?_
  have hlt : k < (openingLines ls).length := by omega
  have hopening := isKind_of_lt_takeWhile hlt (getElem?_of_takeWhile hl)
  rw [setsUp_of_isOpening hopening] at hsets
  cases hsets

/-! ## Both places -/

theorem not_endsProgram_smoothing {l : String} (h : l ∈ smoothingLines) :
    endsProgram l = false := by
  have hall : ∀ l ∈ smoothingLines, endsProgram l = false := by decide
  exact hall l h

theorem useHighSpeedMode_placed (job : Job) (h : saysSmoothing ls = false) :
    Placed (setupEnd ls) ((lastIndex? endsProgram ls).getD ls.length) (smoothingOn job)
      (smoothingOff job) ls (useHighSpeedMode job ls) := by
  have hle := (setupEnd_le ls).trans (List.takeWhile_prefix _).length_le
  rw [useHighSpeedMode, h, if_neg Bool.false_ne_true]
  exact placed_insertAt hle _ fun l hl =>
    not_endsProgram_smoothing (mem_smoothing job l (List.mem_append_left _ hl))

/-- Where smoothing is switched on and off in a program. -/
structure Smoothed (job : Job) (ls : Lines) (on off : Nat) : Prop where
  /-- All lines are there in order, around what switches smoothing on and off. -/
  placed : Placed on off (smoothingOn job) (smoothingOff job) ls (useHighSpeedMode job ls)
  /-- It is switched on before the first line that moves. -/
  start : ∀ i l, ls[i]? = some l → lineMoves l = true → on ≤ i
  /-- Behind the opening of the tape, if a setup code stands before the first line that moves. -/
  opening : (ls.takeWhile (!lineMoves ·)).any setsUp = true → (openingLines ls).length ≤ on
  /-- It is switched off in front of the last line that ends the program. -/
  ending : ∀ i, lastIndex? endsProgram ls = some i → off = i
  /-- After the last line that moves, if the end does not come before that line or with it. -/
  finish : (∀ i, lastIndex? endsProgram ls = some i → ∀ l ∈ ls.drop i, lineMoves l = false) →
    ∀ i l, ls[i]? = some l → lineMoves l = true → i < off
  /-- Before the marker at the end of the tape, if some line ends the program. -/
  trailer : ls.any endsProgram = true → ∀ i l, ls[i]? = some l → isTapeMarker l = true →
    (∀ l ∈ ls.drop (i + 1), Block.read? l 1 = none) → off ≤ i

/-- Smoothing is switched on after the setup and off before the end. -/
theorem useHighSpeedMode_smoothed (job : Job) (ls : Lines) (h : saysSmoothing ls = false) :
    ∃ on off, Smoothed job ls on off := by
  refine ⟨setupEnd ls, (lastIndex? endsProgram ls).getD ls.length,
    useHighSpeedMode_placed job h, ?_, length_openingLines_le, fun i hi => by rw [hi]; rfl, ?_, ?_⟩
  · intro i l hl hmoves
    refine (setupEnd_le ls).trans (Nat.le_of_not_lt fun hlt => ?_)
    have hstill := isKind_of_lt_takeWhile hlt hl
    rw [hmoves] at hstill
    cases hstill
  · intro hend i l hl hmoves
    have hlt := (List.getElem?_eq_some_iff.1 hl).1
    cases hlast : lastIndex? endsProgram ls with
    | none => exact hlt
    | some k =>
      refine Nat.lt_of_not_le fun (hle : k ≤ i) => ?_
      rw [hend k hlast l (mem_drop_of_getElem? hl hle)] at hmoves
      cases hmoves
  · intro hends i l hl hmarker hrest
    obtain ⟨k, hlast⟩ := exists_lastIndex? hends
    obtain ⟨l', hl', hends⟩ := Conversational.lastIndex?_spec hlast
    rw [hlast]
    refine Nat.le_of_not_lt fun (hlt : i < k) => ?_
    rw [endsProgram, hrest l' (mem_drop_of_getElem? hl' hlt)] at hends
    cases hends

/-- Contour control by look-ahead, and nothing else. -/
def aiJob : Job := ⟨.fanuc, { fanuc := some (Switches.standard.set .useAi true) }⟩

/-- A program on a tape with a setup in front of its moves. -/
theorem useHighSpeedMode_smoothed_tape :
    saysSmoothing ["%", "O1000", "G90 G17", "G0 X0", "G1 X5 F100", "M30", "%"] = false ∧
      useHighSpeedMode aiJob ["%", "O1000", "G90 G17", "G0 X0", "G1 X5 F100", "M30", "%"] =
        ["%", "O1000", "G90 G17", "G05.1 Q1 (AI CONTOUR CONTROL ON)", "G64 (CUTTING MODE)", "G0 X0",
          "G1 X5 F100", "G05.1 Q0 (SMOOTHING OFF)", "M30", "%"] ∧
      ∃ on off, Smoothed aiJob
        ["%", "O1000", "G90 G17", "G0 X0", "G1 X5 F100", "M30", "%"] on off :=
  ⟨by decide +kernel, by decide +kernel, useHighSpeedMode_smoothed _ _ (by decide +kernel)⟩

/-- A line that moves and ends the program comes after smoothing is switched off. Without a setup it
is switched on in front of the tape marker, and without a line that ends the program it is switched
off behind the marker at the end. -/
theorem useHighSpeedMode_not_inside :
    useHighSpeedMode aiJob ["G90", "G1 X5 F100 M30"] =
        ["G90", "G05.1 Q1 (AI CONTOUR CONTROL ON)", "G64 (CUTTING MODE)",
          "G05.1 Q0 (SMOOTHING OFF)", "G1 X5 F100 M30"] ∧
      useHighSpeedMode aiJob ["%", "O1000", "G0 X0", "G1 X5 F100", "M30", "%"] =
        ["G05.1 Q1 (AI CONTOUR CONTROL ON)", "G64 (CUTTING MODE)", "%", "O1000", "G0 X0",
          "G1 X5 F100", "G05.1 Q0 (SMOOTHING OFF)", "M30", "%"] ∧
      useHighSpeedMode aiJob ["G90", "G1 X5 F100", "%"] =
        ["G90", "G05.1 Q1 (AI CONTOUR CONTROL ON)", "G64 (CUTTING MODE)", "G1 X5 F100", "%",
          "G05.1 Q0 (SMOOTHING OFF)"] := by
  decide +kernel

end Rule

end PartProgram

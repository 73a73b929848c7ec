import PartProgram.Proofs.Joined
import PartProgram.Proofs.ReachedModes
import PartProgram.Proofs.SameStates

/-!
# PartProgram.Proofs.MergedRapids

Rapids that take in the rapids before them. While rapids go on in one direction only the last of
them is written, so the walk through the lines that are left stands at the start of a rapid that
the walk through all lines has begun. The two meet again at the end of the last rapid: its words say
where it ends on every axis that it names, and the other axes have not moved, if coordinates that
are hard to tell apart are equal.

* `optimizeRapidMoves_merges`: the walk through the lines that are left.
-/

namespace PartProgram

open Number

namespace Rule

/-! ## Coordinates that can be told apart -/

/-- Where the tool is in the course of a walk. -/
def positionsOf (stops : List Stop) : List Position :=
  .origin :: stops.map fun s => s.after.position

/-- Two coordinates on one axis are equal, or so far apart that their difference counts. -/
def Apart (ps : List Position) : Prop :=
  ∀ p ∈ ps, ∀ q ∈ ps, ∀ axis ∈ Axis.all,
    (p.get axis == q.get axis) = true ∨ ¬ (p.get axis - q.get axis).abs < negligible

instance (ps : List Position) : Decidable (Apart ps) := by
  unfold Apart
  infer_instance

/-- What is left of each line when rapids take in those before them. -/
def leftRapids : Rapids → List Stop → List (Option String) :=
  joinedLeft goesOn Rapids.add Rapids.written Rapids.open?

/-- The lines that are left, stop by stop. A line is gone only if it is a rapid that the next one
takes in; after every other line the state is the same, and a line that is no rapid is met in the
same state and does the same. -/
inductive Merged : List Stop → List (Option Stop) → Prop where
  | nil : Merged [] []
  | taken {s t : Stop} {stops : List Stop} {found : List (Option Stop)}
      (rapid : isPlainRapid s = true) (next : isPlainRapid t = true)
      (rest : Merged (t :: stops) found) : Merged (s :: t :: stops) (none :: found)
  | stays {s s' : Stop} {stops : List Stop} {found : List (Option Stop)}
      (after : s.after.Same s'.after) (other : isPlainRapid s = false → s.Same s')
      (rest : Merged stops found) : Merged (s :: stops) (some s' :: found)

/-! ## What a rapid does -/

section

variable {settings : Settings} {m m' : Modal} {b : Block} {s : Stop} {n : Int} {raw : String}

/-- A block with the code of a rapid and no other one, and without a feed. -/
theorem resolve_rapid (hne : b.codes 'G' ≠ []) (h : ∀ code ∈ b.codes 'G', code = "G0")
    (hfeed : b.value 'F' = none) :
    m.resolve settings b = .ok
      ⟨{ m with position := m.target b, motion := some "G0", cycle := none },
        .motion ⟨m.position, m.target b, b.line, none, .rapid⟩, []⟩ := by
  obtain ⟨hdominant, happly⟩ := apply_of_one_code (by decide) hne h m
  rw [hfeed] at happly
  rw [Modal.resolve, happly, hdominant]
  rfl

/-- Only the code of a rapid moves a block as a rapid. -/
theorem resolveCode_isRapid {before : Modal} {code : Code} {r : Resolution}
    (h : Modal.resolveCode settings before m code b = .ok r) (hrapid : r.isRapid = true) :
    code = "G0" := by
  cases resolveCode_cases h with
  | rapid => rfl
  | @arc _ _ arc => cases arc <;> cases hrapid
  | _ => cases hrapid

/-- A rapid without a code goes on in the way of moving that is in force. -/
theorem state_of_no_code {r : Resolution} (hr : m.resolve settings b = .ok r)
    (hcodes : b.codes 'G' = []) (hfeed : b.value 'F' = none) (hrapid : r.isRapid = true)
    (hwarnings : r.warnings = []) :
    r.state = { m with position := m.target b, motion := some "G0", cycle := none } := by
  obtain ⟨hdominant, happly⟩ := apply_of_no_code hcodes m
  rw [hfeed] at happly
  cases resolve_cases hr with
  | code dominant =>
    rw [hdominant] at dominant
    cases dominant
  | modal => cases hrapid
  | cycle => cases hrapid
  | mode _ _ inactive motion found =>
    cases resolveCode_isRapid found hrapid
    cases found
    rw [happly] at inactive motion ⊢
    rw [← inactive, ← motion]
    rfl
  | first => cases hwarnings

theorem value_feed_of_letters (h : b.onlyLetters ['G', 'X', 'Y', 'Z'] = true) :
    b.value 'F' = none := by
  rw [Block.value_eq_none_iff, Block.has, List.any_eq_false]
  intro w hw heq
  have hletter := List.all_eq_true.1 h w hw
  simp only [List.contains_iff_mem, List.mem_singleton] at heq hletter
  rw [heq] at hletter
  exact absurd hletter (by decide)

/-- A plain rapid leaves everything but the position, the way of moving and the cycle. -/
theorem after_of_isPlainRapid (hs : m.stopAt settings n raw = .ok s) (h : isPlainRapid s = true) :
    ∃ b, s.block? = some b ∧ Block.read? raw n = some b ∧
      b.onlyLetters ['G', 'X', 'Y', 'Z'] = true ∧ (∀ code ∈ b.codes 'G', code = "G0") ∧
      m.positioning = .absolute ∧
      s.after = { m with position := m.target b, motion := some "G0", cycle := none } := by
  obtain ⟨-, hbefore, hblock⟩ := stopAt_eq_ok hs
  obtain ⟨b, r, hfound, hletters, hcodes, hrapid, hwarnings, habsolute⟩ := isPlainRapid_found h
  have hr := stopAt_resolve hs hfound
  rw [hbefore] at hr habsolute
  have hblock' := Stop.block?_of_found hfound
  have hfeed := value_feed_of_letters hletters
  refine ⟨b, hblock', by rw [← hblock, hblock'], hletters, hcodes, habsolute, ?_⟩
  rw [Stop.after_of_found hfound]
  by_cases hnil : b.codes 'G' = []
  · exact state_of_no_code hr hnil hfeed hrapid hwarnings
  · rw [resolve_rapid hnil hcodes hfeed] at hr
    cases hr
    rfl

/-! ## The rapid that is written -/

theorem codes_asRapid (h : ∀ code ∈ b.codes 'G', code = "G0") :
    (asRapid b).codes 'G' ≠ [] ∧ ∀ code ∈ (asRapid b).codes 'G', code = "G0" := by
  rw [asRapid]
  split
  · rename_i hmem
    exact ⟨List.ne_nil_of_mem (List.contains_iff_mem.1 hmem), h⟩
  · have hfirst : (b.withFirst ⟨'G', "0"⟩).codes 'G' = "G0" :: b.codes 'G' := by
      have hcode : (⟨'G', "0"⟩ : Word).code = "G0" := by decide +kernel
      rw [← hcode]
      exact Block.codes_of_first (b := b) (w := ⟨'G', "0"⟩) rfl
    rw [hfirst]
    exact ⟨List.cons_ne_nil _ _, by simpa using h⟩

theorem value_asRapid {letter : Char} (h : letter ≠ 'G') :
    (asRapid b).value letter = b.value letter := by
  rw [asRapid]
  split
  · rfl
  · exact Block.value_of_first (b := b) (w := ⟨'G', "0"⟩) rfl h

/-- Wherever the rapid is met that is written for a plain rapid, it leads where the words of the
plain rapid lead from there. -/
theorem stopAt_asRapid (m' : Modal) (settings : Settings) (n' : Int)
    (hread : Block.read? raw n = some b)
    (hletters : b.onlyLetters ['G', 'X', 'Y', 'Z'] = true)
    (hcodes : ∀ code ∈ b.codes 'G', code = "G0") :
    ∃ s', m'.stopAt settings n' (asRapid b).render = .ok s' ∧
      s'.after = { m' with position := m'.target b, motion := some "G0", cycle := none } := by
  obtain ⟨hne, hall⟩ := codes_asRapid hcodes
  have hwell := wellFormed_asRapid (Block.wellFormed_of_read? hread)
  have hwords := hwell.holdsWords n'
  rw [Modal.stopAt]
  cases hread' : Block.read? (asRapid b).render n' with
  | none =>
    rw [hread'] at hwords
    have hnil : (asRapid b).codes 'G' = [] := by simp [Block.codes, ← hwords]
    exact absurd hnil hne
  | some b' =>
    rw [hread'] at hwords
    have hwords : b'.words = (asRapid b).words := hwords
    have hcodes' : b'.codes 'G' = (asRapid b).codes 'G' := by rw [Block.codes, hwords, Block.codes]
    have hvalue : ∀ letter, letter ≠ 'G' → b'.value letter = b.value letter := by
      intro letter hletter
      rw [Block.value, hwords]
      exact value_asRapid hletter
    have htarget : m'.target b' = m'.target b := by
      refine congrArg Point.tabulate (funext fun axis => ?_)
      rw [Modal.targetOn, Modal.targetOn, hvalue _ (by cases axis <;> decide)]
    have hfeed : b'.value 'F' = none := by
      rw [hvalue 'F' (by decide)]
      exact value_feed_of_letters hletters
    rw [← hcodes'] at hne hall
    simp only [resolve_rapid hne hall hfeed, bind_eq_ok, pure_eq_ok, htarget]
    exact ⟨_, ⟨_, rfl, rfl⟩, rfl⟩

/-! ## Walks that are apart by the rapids taken in -/

/-- The state before a rapid was begun, in the middle of which the other state is. -/
structure Behind (start : Position) (m m' : Modal) : Prop where
  positioning : m'.positioning = m.positioning
  plane : m'.plane = m.plane
  position : start.Unmoved m'.position
  feed : SameFeed m.feed m'.feed

/-- A rapid that goes on from a rapid ends, wherever it was begun, in the same state: on every axis
that it does not name, it was begun where it goes on. -/
theorem ends_same {start : Position} (h : Behind start m m') (habsolute : m.positioning = .absolute)
    (homits : ∀ axis : Axis, b.has [axis.letter] = false →
      SameNumber (m.position.get axis) (start.get axis)) :
    Modal.Same { m with position := m.target b, motion := some "G0", cycle := none }
      { m' with position := m'.target b, motion := some "G0", cycle := none } := by
  refine ⟨h.positioning, h.plane, fun axis => ?_, h.feed, rfl, .none⟩
  show SameNumber ((m.target b).get axis) ((m'.target b).get axis)
  cases hnamed : b.has [axis.letter] with
  | false =>
    rw [Modal.target_unnamed hnamed, Modal.target_unnamed hnamed]
    exact (homits axis hnamed).trans (h.position axis)
  | true =>
    have hsome : b.value axis.letter ≠ none := by
      rw [ne_eq, Block.value_eq_none_iff, hnamed]
      simp
    obtain ⟨v, hv⟩ := Option.ne_none_iff_exists'.1 hsome
    rw [Modal.target, Modal.target, Point.get_tabulate, Point.get_tabulate, Modal.targetOn,
      Modal.targetOn, hv, h.positioning, habsolute]
    exact .refl v

theorem omits_of_apart {ps : List Position} {start middle : Position} (hapart : Apart ps)
    (hstart : start ∈ ps) (hmiddle : middle ∈ ps) (h : omitsFixed b start middle = true) :
    ∀ axis : Axis, b.has [axis.letter] = false →
      SameNumber (middle.get axis) (start.get axis) := by
  intro axis hunnamed
  have hall : axis ∈ Axis.all := by cases axis <;> simp [Axis.all]
  have hnear := List.all_eq_true.1 h axis hall
  rw [hunnamed, Bool.false_or, decide_eq_true_iff] at hnear
  rcases hapart start hstart middle hmiddle axis hall with heq | hfar
  · exact SameNumber.symm (.inr heq)
  · exact absurd hnear hfar

end

/-! ## The walk through the lines that are left -/

section

variable {settings : Settings} {ps : List Position} {m m' : Modal} {n n' : Int} {raw : String}
  {ls : Lines} {s : Stop} {stops : List Stop} {r : Rapids}

/-- A line is written as it stands, or takes in the rapid that is open. -/
theorem add_cases (r : Rapids) (s : Stop) :
    (r.open?.any (goesOn · s) = false ∧ (r.add s).written = s.raw :: r.written ∧
      (r.add s).open? = rapidEnds? s) ∨
    r.open?.any (goesOn · s) = true ∧ ∃ start middle b, r.open? = some (start, middle) ∧
      s.block? = some b ∧ isPlainRapid s = true ∧ omitsFixed b start middle = true ∧
      (r.add s).written = (asRapid b).render :: r.written.tail ∧
      (r.add s).open? = some (start, s.after.position) := by
  cases hjoin : r.open?.any (goesOn · s) with
  | false => exact .inl ⟨rfl, rapids_joining.keep r s hjoin⟩
  | true =>
    refine .inr ⟨rfl, ?_⟩
    simp only [Option.any_eq_true, goesOn, Bool.and_eq_true] at hjoin
    obtain ⟨⟨start, middle⟩, hopen, hrapid, b, hb, homits, hgoes⟩ := hjoin
    have hadd : r.add s =
        ⟨(asRapid b).render :: r.written.tail, some (start, s.after.position)⟩ := by
      simp [Rapids.add, hb, hrapid, hopen, homits, hgoes]
    exact ⟨start, middle, b, hopen, hb, hrapid, homits, by rw [hadd], by rw [hadd]⟩

/-- Only a rapid is open. -/
theorem isPlainRapid_of_open (h : (r.add s).open?.isSome = true) : isPlainRapid s = true := by
  rcases add_cases r s with ⟨-, -, hopen⟩ | ⟨-, _, _, _, -, -, hrapid, -⟩
  · rw [hopen, rapidEnds?] at h
    split at h
    · assumption
    · cases h
  · exact hrapid

/-- The ends of the rapid that is open are places where the tool was; the last one is where it
is. -/
def EndsAt (ps : List Position) (r : Rapids) (m : Modal) : Prop :=
  ∀ start middle, r.open? = some (start, middle) → start ∈ ps ∧ middle = m.position

theorem endsAt_add (hm : m.position ∈ ps) (hends : EndsAt ps r m) (hbefore : s.before = m) :
    EndsAt ps (r.add s) s.after := by
  intro start finish hopen
  rcases add_cases r s with ⟨-, -, hadd⟩ | ⟨-, start', middle, b, hold, -, -, -, -, hadd⟩
  · rw [hadd, rapidEnds?] at hopen
    split at hopen
    · cases hopen
      rw [hbefore]
      exact ⟨hm, rfl⟩
    · cases hopen
  · rw [hadd] at hopen
    cases hopen
    exact ⟨(hends _ _ hold).1, rfl⟩

/-- Where the walk through the lines that are left is: before the rapid that is open, if the next
line is joined to it, and otherwise before the next line. -/
def Keeps (r : Rapids) (stops : List Stop) (m m' : Modal) : Prop :=
  if joinsNext goesOn r.open? stops then ∀ start middle, r.open? = some (start, middle) →
    Behind start m m'
  else m.Same m'

theorem behind_after {start : Position} (hs : m.stopAt settings n raw = .ok s)
    (hrapid : isPlainRapid s = true) (h : Behind start m m') : Behind start s.after m' := by
  obtain ⟨b, -, -, -, -, -, hafter⟩ := after_of_isPlainRapid hs hrapid
  rw [hafter]
  exact ⟨h.positioning, h.plane, h.position, h.feed⟩

/-- A rapid that the next line takes in is not written, and the walk waits before it. -/
theorem behind_add (hs : m.stopAt settings n raw = .ok s) (hkeeps : Keeps r (s :: stops) m m')
    {start finish : Position} (hopen : (r.add s).open? = some (start, finish)) :
    Behind start s.after m' := by
  have hrapid := isPlainRapid_of_open (r := r) (s := s) (by rw [hopen]; rfl)
  refine behind_after hs hrapid ?_
  rcases add_cases r s with ⟨hjoin, -, hadd⟩ | ⟨hjoin, start', middle, b, hold, -, -, -, -, hadd⟩
  · rw [Keeps, show joinsNext goesOn r.open? (s :: stops) = false from hjoin,
      if_neg Bool.false_ne_true] at hkeeps
    rw [hadd, rapidEnds?, if_pos hrapid, (stopAt_eq_ok hs).2.1] at hopen
    cases hopen
    exact ⟨hkeeps.positioning, hkeeps.plane, hkeeps.position, hkeeps.feed⟩
  · rw [Keeps, show joinsNext goesOn r.open? (s :: stops) = true from hjoin, if_pos rfl] at hkeeps
    rw [hadd] at hopen
    cases hopen
    exact hkeeps _ _ hold

/-- A line that is written leaves the state that the line of the program leaves. -/
theorem written_same (hapart : Apart ps) (hm : m.position ∈ ps) (hends : EndsAt ps r m)
    (hs : m.stopAt settings n raw = .ok s) (hkeeps : Keeps r (s :: stops) m m') (n' : Int) :
    ∃ line s', (r.add s).written.head? = some line ∧ m'.stopAt settings n' line = .ok s' ∧
      s.after.Same s'.after ∧ (isPlainRapid s = false → s.Same s') := by
  obtain ⟨hraw, -, hblock⟩ := stopAt_eq_ok hs
  rcases add_cases r s with ⟨hjoin, hadd, -⟩ | ⟨hjoin, start, middle, b, hold, hb, hrapid, homits,
    hadd, -⟩
  · rw [Keeps, show joinsNext goesOn r.open? (s :: stops) = false from hjoin,
      if_neg Bool.false_ne_true] at hkeeps
    obtain ⟨s', hs', hsame⟩ := stopAt_same n' hkeeps hs
    exact ⟨raw, s', by rw [hadd, hraw]; rfl, hs', hsame.after, fun _ => hsame⟩
  · rw [Keeps, show joinsNext goesOn r.open? (s :: stops) = true from hjoin, if_pos rfl] at hkeeps
    obtain ⟨b', hb', hread, hletters, hcodes, habsolute, hafter⟩ := after_of_isPlainRapid hs hrapid
    rw [hb] at hb'
    cases hb'
    obtain ⟨s', hs', hafter'⟩ :=
      stopAt_asRapid m' settings n' hread hletters hcodes
    obtain ⟨hstart, rfl⟩ := hends _ _ hold
    refine ⟨_, s', by rw [hadd]; rfl, hs', ?_, fun hnot => ?_⟩
    · rw [hafter, hafter']
      exact ends_same (hkeeps _ _ hold) habsolute (omits_of_apart hapart hstart hm homits)
    · rw [hrapid] at hnot
      cases hnot

theorem walkFrom_merged (n' : Int) (hapart : Apart ps) (hm : m.position ∈ ps)
    (hps : ∀ s ∈ stops, s.after.position ∈ ps) (hends : EndsAt ps r m)
    (hkeeps : Keeps r stops m m') (h : m.walkFrom settings n ls = .ok stops) :
    ∃ found : List (Option Stop),
      m'.walkFrom settings n' (found.reduceOption.map Stop.raw) = .ok found.reduceOption ∧
        found.map (Option.map Stop.raw) = leftRapids r stops ∧ Merged stops found := by
  induction ls generalizing m m' n n' stops r with
  | nil =>
    cases h
    exact ⟨[], rfl, rfl, .nil⟩
  | cons raw rest ih =>
    simp only [Modal.walkFrom, bind_eq_ok, pure_eq_ok] at h
    obtain ⟨s, hs, more, hmore, rfl⟩ := h
    have hbefore := (stopAt_eq_ok hs).2.1
    have hafter := hps s (.head _)
    have hmoreps := fun t ht => hps t (.tail _ ht)
    have hends' := endsAt_add hm hends hbefore
    cases hnext : joinsNext goesOn (r.add s).open? more with
    | true =>
      have hkeeps' : Keeps (r.add s) more s.after m' := by
        rw [Keeps, hnext, if_pos rfl]
        exact fun _ _ hopen => behind_add hs hkeeps hopen
      obtain ⟨found, hwalk, hleft, hmerged⟩ := ih n' hafter hmoreps hends' hkeeps' hmore
      have hleft' : (none :: found).map (Option.map Stop.raw) = leftRapids r (s :: more) := by
        rw [leftRapids, joinedLeft, hnext, if_pos rfl, List.map_cons, hleft]
        rfl
      cases more with
      | nil => cases hnext
      | cons t more =>
        have hjoins : (r.add s).open?.any (goesOn · t) = true := hnext
        obtain ⟨ends, hopen, hgoes⟩ := (Option.any_eq_true _ _).1 hjoins
        have hs : isPlainRapid s = true := isPlainRapid_of_open (r := r) (by rw [hopen]; rfl)
        have ht : isPlainRapid t = true := (Bool.and_eq_true_iff.1 hgoes).1
        exact ⟨none :: found, hwalk, hleft', .taken hs ht hmerged⟩
    | false =>
      obtain ⟨line, s', hline, hs', hsame, hother⟩ := written_same hapart hm hends hs hkeeps n'
      have hkeeps' : Keeps (r.add s) more s.after s'.after := by
        rw [Keeps, hnext, if_neg Bool.false_ne_true]
        exact hsame
      obtain ⟨found, hwalk, hleft, hmerged⟩ := ih (n' + 1) hafter hmoreps hends' hkeeps' hmore
      refine ⟨some s' :: found, ?_, ?_, .stays hsame hother hmerged⟩
      · rw [List.reduceOption_cons_of_some, List.map_cons, (stopAt_eq_ok hs').1, Modal.walkFrom]
        simp only [bind_eq_ok, pure_eq_ok]
        exact ⟨s', hs', _, hwalk, rfl⟩
      · rw [leftRapids, joinedLeft, hnext, if_neg Bool.false_ne_true, hline, List.map_cons, hleft,
          Option.map_some, (stopAt_eq_ok hs').1]
        rfl

/-- If coordinates that are hard to tell apart are equal, the walk through the lines that are left
comes, after each of them, to the state that the walk through all lines comes to there. A line is
missing only if it is a rapid that stands directly before another one, and a line that is no such
rapid stays as it is. -/
theorem optimizeRapidMoves_merges (hwalk : walk ls = .ok stops)
    (hapart : Apart (positionsOf stops)) :
    ∃ found : List (Option Stop),
      (optimizeRapidMoves ls).result = .ok (found.reduceOption.map Stop.raw) ∧
        walk (found.reduceOption.map Stop.raw) = .ok found.reduceOption ∧ Merged stops found := by
  have hps : ∀ s ∈ stops, s.after.position ∈ positionsOf stops := fun s hs =>
    List.mem_cons_of_mem _ (List.mem_map_of_mem (f := fun s => s.after.position) hs)
  have hkeeps : Keeps {} stops .initial .initial := by
    rw [Keeps, joinsNext_none, if_neg Bool.false_ne_true]
    exact .refl _
  obtain ⟨found, hwalk', hleft, hmerged⟩ :=
    walkFrom_merged (r := {}) 1 hapart (.head _) hps (by intro _ _ h; cases h) hkeeps hwalk
  refine ⟨found, ?_, hwalk', hmerged⟩
  have hwritten := rapids_joining.foldl_start stops (s := {}) rfl rfl
  have hlines : (stops.foldl Rapids.add {}).written.reverse = found.reduceOption.map Stop.raw := by
    rw [hwritten, ← List.reduceOption_map, hleft]
    rfl
  rw [optimizeRapidMoves, Revised.ofWalk, hwalk, ← hlines]
  rfl

/-- Three rapids of which the second has no code and the third names one axis only, and two rapids
of which the second has a comment and so stays on its own. -/
theorem optimizeRapidMoves_merges_chain :
    let ls := ["G0 X1 Y2", "X2 Y4", "Z0 X3 Y6", "G1 X4 F100", "G0 X5", "X6 (note)"]
    let left := ["G0 Z0 X3 Y6", "G1 X4 F100", "G0 X5", "X6 (note)"]
    ∃ (stops : List Stop) (found : List (Option Stop)), walk ls = .ok stops ∧
      Apart (positionsOf stops) ∧ (optimizeRapidMoves ls).result = .ok left ∧
      walk left = .ok found.reduceOption ∧ Merged stops found := by
  intro ls left
  obtain ⟨stops, hwalk, hapart⟩ := exists_of_toOption (x := walk ls)
    (f := fun stops => decide (Apart (positionsOf stops))) (b := true) (by decide +kernel)
  have hapart := of_decide_eq_true hapart
  obtain ⟨found, hrun, hwalk', hmerged⟩ := optimizeRapidMoves_merges hwalk hapart
  obtain ⟨lines, hlines, heq⟩ := exists_of_toOption (x := (optimizeRapidMoves ls).result)
    (f := id) (b := left) (by decide +kernel)
  have hleft : found.reduceOption.map Stop.raw = left := by
    rw [hlines, Except.ok.injEq] at hrun
    rw [← hrun, ← heq]
    rfl
  rw [hleft] at hrun hwalk'
  exact ⟨stops, found, hwalk, hapart, hrun, hwalk', hmerged⟩

end

end Rule

end PartProgram

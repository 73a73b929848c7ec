import PartProgram.Proofs.Arrival
import PartProgram.Proofs.PathFeeds
import PartProgram.Proofs.Readback

/-!
# PartProgram.Proofs.Replay

Converted programs replayed. The straight blocks of a program say coordinates, and a tool that
follows them from the origin goes to a plain coordinate and by a step. A coordinate is printed to
the thousandth: a plain one leaves the tool within half of one of where it should be, wherever it
was, and a step adds what it lost to what was lost before it.

* `saidCoordinates_place`: what the straight blocks say that stand for a line.
* `Tracks`: how far the tool may be off, by the coordinates printed since the last plain one.
* `conversion_positions`: where the tool is after every straight block.
-/

namespace PartProgram.Conversational

open Text Number

/-! ## Replaying text -/

/-- A coordinate as a word says it; what is no number has no exact value. -/
structure SaidCoordinate where
  axis : Axis
  isStep : Bool
  number : Option ℚ

def axis? (c : Char) : Option Axis := Axis.all.find? fun a => a.letter == c

/-- The coordinate of a word, if it is one. -/
def saidCoordinate? (word : String) : Option SaidCoordinate :=
  match word.toList with
  | [] => none
  | 'I' :: c :: cs => (axis? c).map fun a => ⟨a, true, reading? cs⟩
  | c :: cs => (axis? c).map fun a => ⟨a, false, reading? cs⟩

def isStraightBlock (line : String) : Bool := (textWords line).head? == some "L"

/-- The coordinates that a line says if it is a straight block. -/
def saidCoordinates (line : String) : List SaidCoordinate :=
  if isStraightBlock line then (textWords line).tail.filterMap saidCoordinate? else []

/-- Where the tool is on each axis, as far as that is known. -/
abbrev Whereabouts := Axis → Option ℚ

/-- A plain coordinate says where to go, and a step how far from here. -/
def SaidCoordinate.goFrom (here : Option ℚ) (c : SaidCoordinate) : Option ℚ :=
  if c.isStep then do return (← here) + (← c.number) else c.number

def Whereabouts.go (w : Whereabouts) (c : SaidCoordinate) : Whereabouts := fun a =>
  if a = c.axis then c.goFrom (w a) else w a

/-- Where the tool is after the straight blocks of a program, from the origin. -/
def replay (ls : Lines) : Whereabouts :=
  (ls.flatMap saidCoordinates).foldl Whereabouts.go fun _ => some 0

theorem isPathBlock_of_isStraightBlock {line : String} (h : isStraightBlock line = true) :
    isPathBlock line = true := by
  rw [isStraightBlock, beq_iff_eq] at h
  rw [isPathBlock, h]
  rfl

theorem saidCoordinates_of_not_path {line : String} (h : isPathBlock line = false) :
    saidCoordinates line = [] := by
  have hstraight : isStraightBlock line = false := by
    by_contra hstraight
    rw [isPathBlock_of_isStraightBlock (by simpa using hstraight)] at h
    cases h
  rw [saidCoordinates, hstraight, if_neg Bool.false_ne_true]

/-! ## What entries say -/

/-- A coordinate as it is read back. -/
def Coordinate.said (c : Coordinate) : SaidCoordinate :=
  ⟨c.axis, c.isStep, reading? (signedCoordinate c.value).toList⟩

theorem Coordinate.saidCoordinate_render (c : Coordinate) :
    saidCoordinate? c.render = some c.said := by
  have hchars : c.render.toList = (if c.isStep then ['I'] else []) ++
      c.axis.letter :: (signedCoordinate c.value).toList := by
    rw [Coordinate.render, String.toList_append, String.toList_append]
    cases c.isStep <;> simp
  rw [saidCoordinate?, hchars, Coordinate.said]
  cases c.isStep <;> cases c.axis <;> rfl

theorem HasLetter.not_coordinate {letter : Char} {w : String} (h : HasLetter letter w)
    (hne : letter ∉ ['I', 'X', 'Y', 'Z']) : saidCoordinate? w = none := by
  simp only [List.mem_cons, List.not_mem_nil, or_false, not_or] at hne
  obtain ⟨hstep, hx, hy, hz⟩ := hne
  obtain ⟨cs, hw⟩ := List.head?_eq_some_iff.1 h.1
  have haxis : axis? letter = none := by
    simp [axis?, Axis.all, Axis.letter, Ne.symm hx, Ne.symm hy, Ne.symm hz]
  rw [saidCoordinate?, hw]
  split
  · rfl
  · rename_i heq
    exact absurd (List.cons.inj heq).1 hstep
  · rename_i heq
    rw [← (List.cons.inj heq).1, haxis, Option.map_none]

/-- The coordinates of a straight block. -/
def Entry.straightCoordinates : Entry → List Coordinate
  | .move m => match m.path with
    | .straight => m.coordinates
    | _ => []
  | _ => []

theorem Move.saidCoordinates_render {m : Move} (h : ∀ code ∈ m.codes, HasLetter 'M' code) :
    saidCoordinates m.render = (Entry.move m).straightCoordinates.map Coordinate.said := by
  have hblock : isStraightBlock m.render = (m.path.keyword == "L") := by
    rw [isStraightBlock, Move.textWords_render h]
    rfl
  rw [saidCoordinates, hblock, Move.textWords_render h, List.tail_cons, Entry.straightCoordinates]
  cases hpath : m.path with
  | about d => rfl
  | withRadius r d => rfl
  | straight =>
    have hsaid : (m.coordinates.map Coordinate.render).filterMap saidCoordinate? =
        m.coordinates.map Coordinate.said := by
      have hread : saidCoordinate? ∘ Coordinate.render = some ∘ Coordinate.said :=
        funext Coordinate.saidCoordinate_render
      rw [List.filterMap_map, hread, List.filterMap_eq_map]
    have hfeed : m.feed.words.filterMap saidCoordinate? = [] :=
      List.filterMap_eq_nil_iff.2 fun w hw => (PathFeed.hasLetter hw).not_coordinate (by decide)
    have hcodes : m.codes.filterMap saidCoordinate? = [] :=
      List.filterMap_eq_nil_iff.2 fun w hw => (h w hw).not_coordinate (by decide)
    have hplain : [("R0" : String)].filterMap saidCoordinate? = [] := by decide
    rw [if_pos (by rfl), Move.words, hpath, Path.words, List.filterMap_append,
      List.filterMap_append, List.filterMap_append, hsaid, hfeed, hcodes, hplain]
    simp

/-- What the lines of an entry say is the coordinates of a straight block. -/
theorem Entry.saidCoordinates_lines {e : Entry} (h : e.HasAuxiliary) :
    e.lines.flatMap saidCoordinates = e.straightCoordinates.map Coordinate.said := by
  have hquiet (hquiet : e.isQuiet = true) (hnone : e.straightCoordinates = []) :
      e.lines.flatMap saidCoordinates = e.straightCoordinates.map Coordinate.said := by
    rw [flatMap_quiet hquiet fun line hline => saidCoordinates_of_not_path hline.1, hnone]
    rfl
  cases e with
  | move m =>
    rw [lines, List.flatMap_singleton]
    exact Move.saidCoordinates_render h
  | auxiliary codes =>
    have hcodes : ∀ code ∈ codes, HasLetter 'M' code := h
    rw [lines, List.flatMap_singleton, saidCoordinates, textWords_auxiliary hcodes, List.tail_cons,
      List.filterMap_eq_nil_iff.2 fun w hw => (hcodes w hw).not_coordinate (by decide), ite_self]
    rfl
  | toolCall tool speed =>
    rw [toolCall_lines, List.flatMap_singleton]
    exact saidCoordinates_of_not_path (isPathBlock_toolCall tool speed)
  | _ => exact hquiet rfl rfl

/-! ## What stops print -/

/-- A stop at which the tool goes straight or stays where it is. -/
def isStraight (s : Stop) : Bool :=
  s.resolution?.all fun r => r.isRapid || r.isLinear || !r.isWork

/-- The coordinates of a motion, as a straight block has them. -/
def printedCoordinates (s : Stop) : List Coordinate :=
  match s.found with
  | some (b, r) => match r.effect with
    | .motion m => blockCoordinates b r.state m
    | _ => []
  | none => []

section

variable {job : Job} {ls output : Lines} {s : Stop} {t : Tooling} {b : Block} {r : Resolution}
  {es : List Entry} {a : Axis}

theorem straightCoordinates_straightEntries (coordinates : List Coordinate) (feed : PathFeed)
    (codes : List Code) :
    (straightEntries coordinates feed codes).flatMap Entry.straightCoordinates = coordinates := by
  rw [straightEntries]
  split
  · rename_i hnone
    rw [List.isEmpty_iff.1 hnone, auxiliaryEntries]
    split <;> rfl
  · rw [List.flatMap_singleton]
    rfl

theorem isStraight_cases (hs : s.found = some (b, r)) (h : isStraight s = true) :
    r.effect = .none ∨ ∃ m, r.effect = .motion m ∧ (m.action = .rapid ∨ m.action = .linear) := by
  rw [isStraight, Stop.resolution?, hs, Option.map_some, Option.all_some, Resolution.isRapid,
    Resolution.isLinear, Resolution.isWork] at h
  cases heffect : r.effect with
  | none => exact .inl rfl
  | cycle c =>
    rw [heffect] at h
    cases h
  | motion m =>
    obtain ⟨start, finish, line, feed, action⟩ := m
    rw [heffect] at h
    refine .inr ⟨_, rfl, ?_⟩
    cases action with
    | rapid => exact .inl rfl
    | linear => exact .inr rfl
    | _ => cases h

/-- What becomes of a block that goes straight has its coordinates. -/
theorem becomes_straight (h : Becomes job b r es) (hs : s.found = some (b, r))
    (hstraight : isStraight s = true) :
    es.flatMap Entry.straightCoordinates = printedCoordinates s := by
  rw [printedCoordinates, hs]
  cases h with
  | modes hr =>
    simp only [hr]
    rw [auxiliaryEntries]
    split <;> rfl
  | rapid hr _ =>
    simp only [hr]
    exact straightCoordinates_straightEntries _ _ _
  | linear hr _ =>
    simp only [hr]
    exact straightCoordinates_straightEntries _ _ _
  | _ =>
    -- what goes otherwise than straight becomes something else
    exfalso
    have := isStraight_cases hs hstraight
    simp_all

/-- What the straight blocks say that stand for a line. -/
theorem saidCoordinates_place {place : Place}
    (h : (stopEntries job t place.stop).result = .ok place.entries)
    (hstraight : isStraight place.stop = true) :
    place.lines.flatMap saidCoordinates = (printedCoordinates place.stop).map Coordinate.said := by
  rw [Place.flatMap_lines h fun e he => Entry.saidCoordinates_lines he, ← List.map_flatMap]
  rcases stopEntries_flatMap (f := Entry.straightCoordinates) (fun _ => rfl) (fun _ _ => rfl) h with
    ⟨hfound, hnone⟩ | ⟨b, r, effects, hfound, hbecomes, heffects⟩
  · rw [hnone, printedCoordinates, hfound]
  · rw [heffects, becomes_straight hbecomes hfound hstraight]

theorem saidCoordinates_head {p : Printout} (hp : printout job ls = .ok p) :
    p.headLines.flatMap saidCoordinates = [] := by
  rw [Printout.headLines, List.flatMap_assoc]
  refine List.flatMap_eq_nil_iff.2 fun e he => ?_
  have hnone (hcoordinates : e.straightCoordinates = []) (hcodes : e.codes = []) :
      e.lines.flatMap saidCoordinates = [] := by
    rw [Entry.saidCoordinates_lines (by simp [Entry.HasAuxiliary, hcodes]), hcoordinates]
    rfl
  rcases printout_head hp he with ⟨_, rfl⟩ | ⟨_, rfl | rfl⟩ | ⟨_, _, rfl⟩ <;> exact hnone rfl rfl

/-! ## Where stops lead -/

/-- The coordinates that a row of stops prints on one axis. -/
def printedOn (a : Axis) (stops : List Stop) : List Coordinate :=
  (stops.flatMap printedCoordinates).filter fun c => c.axis = a

theorem printedOn_append (a : Axis) (xs ys : List Stop) :
    printedOn a (xs ++ ys) = printedOn a xs ++ printedOn a ys := by
  rw [printedOn, List.flatMap_append, List.filter_append]
  rfl

/-- The coordinate of a motion on one axis. -/
def coordinateOn (state : Modal) (m : Motion) (a : Axis) : Coordinate :=
  match state.positioning with
  | .absolute => .ofPoint m.finish a
  | .incremental => { axis := a, isStep := true, value := m.finish.get a - m.start.get a }

theorem filter_blockCoordinates (b : Block) (state : Modal) (m : Motion) (a : Axis) :
    (blockCoordinates b state m).filter (fun c => c.axis = a) =
      if b.has [a.letter] then [coordinateOn state m a] else [] := by
  have hblock : blockCoordinates b state m =
      (Axis.all.filter fun axis => b.has [axis.letter]).map (coordinateOn state m) := rfl
  have haxis : ∀ axis, (coordinateOn state m axis).axis = axis := by
    intro axis
    rw [coordinateOn]
    cases state.positioning <;> rfl
  have hone : (Axis.all.filter fun axis => b.has [axis.letter]).filter (fun axis => axis = a) =
      if b.has [a.letter] then [a] else [] := by
    rw [List.filter_filter]
    cases a <;> simp [Axis.all, List.filter_cons]
  rw [hblock, List.filter_map]
  simp only [Function.comp_def, haxis, hone]
  split <;> rfl

/-- A straight block that names an axis prints one coordinate on it, which leads to where the tool
is then; on the other axes the tool stays. -/
theorem printedOn_stop {raw : String} {m : Modal} {n : Int}
    (hs : m.stopAt .standard n raw = .ok s) (hstraight : isStraight s = true) (a : Axis) :
    (printedOn a [s] = [] ∧ s.after.position.get a = m.position.get a) ∨
      ∃ c, printedOn a [s] = [c] ∧ c.value =
        if c.isStep then s.after.position.get a - m.position.get a
        else s.after.position.get a := by
  obtain ⟨-, hbefore, -⟩ := stopAt_eq_ok hs
  rw [printedOn, List.flatMap_singleton, printedCoordinates, Stop.after, Stop.resolution?]
  cases hfound : s.found with
  | none => exact .inl ⟨rfl, by rw [← hbefore]; rfl⟩
  | some found =>
    obtain ⟨b, r⟩ := found
    have harrives := resolve_arrives (stopAt_resolve hs hfound)
    rw [hbefore] at harrives
    simp only [Option.map_some, Option.getD_some]
    cases harrives with
    | still stays => exact .inl ⟨rfl, by rw [stays]⟩
    | cycle _ _ =>
      rcases isStraight_cases hfound hstraight with h | ⟨_, h, _⟩ <;> cases h
    | @motion state mo ws _ starts finishes unnamed _ =>
      simp only [filter_blockCoordinates]
      rw [finishes]
      cases hnamed : b.has [a.letter] with
      | false => exact .inl ⟨rfl, by rw [unnamed a hnamed, starts]⟩
      | true =>
        refine .inr ⟨_, if_pos rfl, ?_⟩
        rw [coordinateOn]
        cases state.positioning with
        | absolute => rfl
        | incremental => rw [← starts]; rfl

/-! ## How far the tool is off -/

/-- The coordinates since the last plain one, with it. -/
def sincePlain (cs : List Coordinate) (c : Coordinate) : List Coordinate :=
  if c.isStep then cs ++ [c] else [c]

/-- The coordinates that were printed on an axis since the last plain one. -/
def printedSince (a : Axis) (stops : List Stop) : List Coordinate :=
  (printedOn a stops).foldl sincePlain []

/-- What may get lost with a coordinate: half of the last digit that is printed, and before that a
part in `2^53` of a step, as the difference of two positions. -/
def Coordinate.loss (c : Coordinate) : ℚ :=
  if c.isStep then 1 / 2000 + |exactValue c.value| / 2 ^ 53 else 1 / 2000

/-- A tool that follows the coordinates is known to be somewhere while they are all finite, and then
it is off by what they lost at most. -/
structure Tracks (here : Option ℚ) (position : Float) (printed : List Coordinate) : Prop where
  known : here.isSome ↔ ∀ c ∈ printed, IsFinite c.value
  near : ∀ q, here = some q → IsFinite position ∧
    |q - exactValue position| ≤ (printed.map Coordinate.loss).sum

theorem tracks_origin (a : Axis) : Tracks (some 0) (Position.origin.get a) [] := by
  have hzero : Position.origin.get a = 0.0 := by cases a <;> rfl
  rw [hzero]
  refine ⟨by simp, ?_⟩
  rintro q ⟨⟩
  refine ⟨⟨by decide, by decide⟩, ?_⟩
  rw [exactValue_zero]
  simp

/-- The three ways in which a step goes wrong add up: where it starts, how it is printed, and how it
was computed. -/
theorem step_near {q p p' step said lost rounded : ℚ} (hstart : |q - p| ≤ lost)
    (hsaid : |said - step| ≤ 1 / 2000) (hstep : |step - (p' - p)| ≤ rounded) :
    |q + said - p'| ≤ lost + (1 / 2000 + rounded) := by
  have hsum : q + said - p' = (q - p) + (said - step) + (step - (p' - p)) := by ring
  calc |q + said - p'|
      ≤ |q - p| + |said - step| + |step - (p' - p)| := hsum ▸ abs_add_three _ _ _
    _ ≤ lost + (1 / 2000 + rounded) := by linarith

/-- A plain coordinate brings the tool near, from wherever it is. -/
theorem tracks_plain (here : Option ℚ) {p : Float} {c : Coordinate} (hplain : c.isStep = false)
    (hc : c.value = p) : Tracks (c.said.goFrom here) p [c] := by
  have hsaid : c.said.goFrom here = reading? (signedCoordinate c.value).toList := by
    rw [SaidCoordinate.goFrom, Coordinate.said, hplain, if_neg Bool.false_ne_true]
  have hloss : ([c].map Coordinate.loss).sum = 1 / 2000 := by
    rw [List.map_singleton, List.sum_singleton, Coordinate.loss, hplain, if_neg Bool.false_ne_true]
  rw [hsaid]
  refine ⟨by rw [List.forall_mem_singleton, reading_isSome_iff], fun q hq => ?_⟩
  rw [hloss, ← hc]
  exact reading_near hq

/-- A step takes what was lost before with it. -/
theorem Tracks.step {here : Option ℚ} {p p' : Float} {cs : List Coordinate} (h : Tracks here p cs)
    {c : Coordinate} (hstep : c.isStep = true) (hc : c.value = p' - p) :
    Tracks (c.said.goFrom here) p' (cs ++ [c]) := by
  have hsaid : c.said.goFrom here =
      do return (← here) + (← reading? (signedCoordinate c.value).toList) := by
    rw [SaidCoordinate.goFrom, Coordinate.said, hstep, if_pos rfl]
  have hloss : ((cs ++ [c]).map Coordinate.loss).sum =
      (cs.map Coordinate.loss).sum + (1 / 2000 + |exactValue c.value| / 2 ^ 53) := by
    rw [List.map_append, List.sum_append, List.map_singleton, List.sum_singleton, Coordinate.loss,
      hstep, if_pos rfl]
  have hfinite : (c.said.goFrom here).isSome = true ↔
      here.isSome = true ∧ (reading? (signedCoordinate c.value).toList).isSome = true := by
    rw [hsaid]
    cases here <;> cases reading? (signedCoordinate c.value).toList <;> simp
  refine ⟨?_, fun q hq => ?_⟩
  · rw [List.forall_mem_append, List.forall_mem_singleton, hfinite, h.known, reading_isSome_iff]
  · obtain ⟨hhere, hread⟩ := hfinite.1 (Option.isSome_of_eq_some hq)
    obtain ⟨start, hstart⟩ := Option.isSome_iff_exists.1 hhere
    obtain ⟨said, hread⟩ := Option.isSome_iff_exists.1 hread
    rw [hsaid, hstart, hread] at hq
    obtain rfl : start + said = q := Option.some.inj hq
    obtain ⟨hvalue, hprinted⟩ := reading_near hread
    rw [hc] at hvalue
    have hrounded := exactValue_sub hvalue
    rw [← hc] at hrounded
    rw [hloss]
    exact ⟨(units_sub hvalue).1, step_near (h.near start hstart).2 hprinted hrounded⟩

theorem Tracks.said {here : Option ℚ} {p p' : Float} {cs : List Coordinate} (h : Tracks here p cs)
    {c : Coordinate} (hc : c.value = if c.isStep then p' - p else p') :
    Tracks (c.said.goFrom here) p' (sincePlain cs c) := by
  rw [sincePlain]
  cases hstep : c.isStep with
  | false =>
    rw [hstep, if_neg Bool.false_ne_true] at hc
    exact tracks_plain here hstep hc
  | true =>
    rw [hstep, if_pos rfl] at hc
    exact h.step hstep hc

/-! ## Runs -/

/-- What a straight block prints on an axis is as far off as it says. -/
theorem Tracks.stop {raw : String} {m : Modal} {n : Int} {here : Option ℚ} {cs : List Coordinate}
    (h : Tracks here (m.position.get a) cs) (hs : m.stopAt .standard n raw = .ok s)
    (hstraight : isStraight s = true) :
    Tracks (((printedOn a [s]).map Coordinate.said).foldl SaidCoordinate.goFrom here)
      (s.after.position.get a) ((printedOn a [s]).foldl sincePlain cs) := by
  rcases printedOn_stop hs hstraight a with ⟨hnone, hstays⟩ | ⟨c, hone, hvalue⟩
  · rw [hnone, hstays]
    exact h
  · rw [hone]
    exact h.said hvalue

/-- At every stop of a straight walk the tool is as far off as the coordinates say that were printed
up to there. -/
theorem tracks_walk {m : Modal} {n : Int} {stops past future : List Stop} {here : Option ℚ}
    {cs : List Coordinate} (h : m.walkFrom .standard n ls = .ok stops)
    (hstraight : ∀ s ∈ stops, isStraight s = true) (hhere : Tracks here (m.position.get a) cs)
    (hsplit : stops = past ++ s :: future) :
    Tracks (((printedOn a (past ++ [s])).map Coordinate.said).foldl SaidCoordinate.goFrom here)
      (s.after.position.get a) ((printedOn a (past ++ [s])).foldl sincePlain cs) := by
  induction past generalizing m n ls stops here cs with
  | nil =>
    subst hsplit
    cases ls with
    | nil => cases h
    | cons raw rest =>
      simp only [Modal.walkFrom, bind_eq_ok, pure_eq_ok] at h
      obtain ⟨s', hs, more, -, heq⟩ := h
      cases heq
      exact hhere.stop hs (hstraight s (.head _))
  | cons first past ih =>
    subst hsplit
    cases ls with
    | nil => cases h
    | cons raw rest =>
      simp only [Modal.walkFrom, bind_eq_ok, pure_eq_ok] at h
      obtain ⟨s', hs, more, hmore, heq⟩ := h
      cases heq
      have hfirst := hhere.stop hs (hstraight first (.head _))
      have hrest := ih hmore (fun s hs => hstraight s (.tail _ hs)) hfirst rfl
      have hall : first :: past ++ [s] = [first] ++ (past ++ [s]) := rfl
      rw [hall, printedOn_append, List.map_append, List.foldl_append, List.foldl_append]
      exact hrest

/-- On one axis only the coordinates of that axis count. -/
theorem foldl_go (cs : List SaidCoordinate) (w : Whereabouts) (a : Axis) :
    (cs.foldl Whereabouts.go w) a =
      (cs.filter fun c => c.axis = a).foldl SaidCoordinate.goFrom (w a) := by
  induction cs generalizing w with
  | nil => rfl
  | cons c cs ih =>
    rw [List.foldl_cons, ih, Whereabouts.go]
    by_cases h : a = c.axis
    · rw [if_pos h, List.filter_cons_of_pos (by simpa using h.symm), List.foldl_cons]
    · rw [if_neg h, List.filter_cons_of_neg (by simpa using Ne.symm h)]

/-- Whether every block of a program goes straight, rapidly or at a feed, or stays. -/
def goesStraight (ls : Lines) : Bool := (walk ls).toOption.all fun stops => stops.all isStraight

/-- What is true after every straight block: of the lines up to the block and with it, of the stops
up to its own and with it, and of the position after that. -/
def Printout.ForallStraight (p : Printout) (P : Lines → List Stop → Position → Prop) : Prop :=
  ∀ past place future before line after, p.places = past ++ place :: future →
    place.lines = before ++ line :: after → isStraightBlock line = true →
    P (p.headLines ++ past.flatMap Place.lines ++ (before ++ [line]))
      (past.map Place.stop ++ [place.stop]) place.stop.after.position

/-- What is said up to a straight block is what was printed up to its stop. -/
theorem saidCoordinates_upTo {p : Printout} {past future : List Place} {place : Place}
    {before after : Lines} {line : String} (hp : printout job ls = .ok p)
    (hstraight : ∀ s ∈ p.stops, isStraight s = true) (hplaces : p.places = past ++ place :: future)
    (hlines : place.lines = before ++ line :: after) (hline : isStraightBlock line = true) :
    (p.headLines ++ past.flatMap Place.lines ++ (before ++ [line])).flatMap saidCoordinates =
      ((past.map Place.stop ++ [place.stop]).flatMap printedCoordinates).map Coordinate.said := by
  obtain ⟨-, hmade, -⟩ := printout_spec hp
  have hplace {q : Place} (hq : q ∈ p.places) : q.lines.flatMap saidCoordinates =
      (printedCoordinates q.stop).map Coordinate.said := by
    obtain ⟨t, ht⟩ := stopEntries_of_mem hmade hq
    exact saidCoordinates_place ht (hstraight _ (List.mem_map_of_mem hq))
  have hpast : (past.flatMap Place.lines).flatMap saidCoordinates =
      ((past.map Place.stop).flatMap printedCoordinates).map Coordinate.said := by
    rw [List.flatMap_assoc, List.flatMap_map, List.map_flatMap]
    exact List.flatMap_congr fun q hq => hplace (by rw [hplaces]; exact List.mem_append_left _ hq)
  have hmem : place ∈ p.places := by
    rw [hplaces]
    simp
  have hhere : (before ++ [line]).flatMap saidCoordinates =
      (printedCoordinates place.stop).map Coordinate.said := by
    obtain ⟨t, ht⟩ := stopEntries_of_mem hmade hmem
    have hsilent : after.flatMap saidCoordinates = [] := by
      refine List.flatMap_eq_nil_iff.2 fun l hl => saidCoordinates_of_not_path ?_
      refine not_isPathBlock_after ht hlines (isPathBlock_of_isStraightBlock hline) ?_ l hl
      intro b r c hfound hcycle
      rcases isStraight_cases hfound (hstraight _ (List.mem_map_of_mem hmem)) with h | ⟨_, h, _⟩ <;>
        rw [h] at hcycle <;> cases hcycle
    have hwhole : place.lines.flatMap saidCoordinates =
        (before ++ [line]).flatMap saidCoordinates ++ after.flatMap saidCoordinates := by
      rw [hlines, List.append_cons, List.flatMap_append]
    rw [← hplace hmem, hwhole, hsilent, List.append_nil]
  rw [List.flatMap_append, List.flatMap_append, saidCoordinates_head hp, hpast, hhere,
    List.flatMap_append, List.flatMap_singleton, List.map_append, List.nil_append]

/-- The tool of a converted program is off, after every straight block and on every axis, by at most
one half of the last digit for every coordinate that was printed on the axis since the last plain
one, and by what the steps among them lost when they were computed. -/
theorem conversion_positions (h : (Rule.conversationalFormat job ls).result = .ok output)
    (hblocks : isConversational ls = false) (hstraight : goesStraight ls = true) :
    ∃ p, printout job ls = .ok p ∧ dropNumbers output = p.lines ∧
      p.ForallStraight fun said stops position =>
        ∀ a, Tracks (replay said a) (position.get a) (printedSince a stops) := by
  obtain ⟨p, hp, houtput⟩ := conversationalFormat_printout h hblocks
  obtain ⟨hwalk, -, -⟩ := printout_spec hp
  have hstops : ∀ s ∈ p.stops, isStraight s = true := by
    rw [goesStraight, hwalk, Except.toOption, Option.all_some] at hstraight
    exact List.all_eq_true.1 hstraight
  refine ⟨p, hp, houtput, ?_⟩
  intro past place future before line after hplaces hlines hline a
  have hsplit : p.stops = past.map Place.stop ++ place.stop :: future.map Place.stop := by
    rw [Printout.stops, hplaces, List.map_append, List.map_cons]
  have hreplay : replay (p.headLines ++ past.flatMap Place.lines ++ (before ++ [line])) a =
      ((printedOn a (past.map Place.stop ++ [place.stop])).map Coordinate.said).foldl
        SaidCoordinate.goFrom (some 0) := by
    rw [replay, saidCoordinates_upTo hp hstops hplaces hlines hline, foldl_go, List.filter_map]
    rfl
  rw [hreplay, printedSince]
  exact tracks_walk hwalk hstops (tracks_origin a) hsplit

/-- A point, and two steps from it that are both lost. -/
theorem conversion_positions_mixed :
    ∃ output p, (Rule.conversationalFormat plainJob
        ["T1", "G1 X0.5 F100", "G91 X0.0004", "X0.0004", "M30"]).result = .ok output ∧
      printout plainJob ["T1", "G1 X0.5 F100", "G91 X0.0004", "X0.0004", "M30"] = .ok p ∧
      dropNumbers output = p.lines ∧
      p.ForallStraight fun said stops position =>
        ∀ a, Tracks (replay said a) (position.get a) (printedSince a stops) := by
  obtain ⟨output, houtput⟩ := exists_eq_ok (x := (Rule.conversationalFormat plainJob
    ["T1", "G1 X0.5 F100", "G91 X0.0004", "X0.0004", "M30"]).result) (by decide +kernel)
  obtain ⟨p, hp, hlines, htracks⟩ :=
    conversion_positions houtput (by decide +kernel) (by decide +kernel)
  exact ⟨output, p, houtput, hp, hlines, htracks⟩

/-- Two steps that are each printed as none lead away from where the tool should be. -/
theorem conversion_position_lost :
    ¬ ∀ job ls output, (Rule.conversationalFormat job ls).result = .ok output →
      isConversational ls = false → goesStraight ls = true →
      ∃ p, printout job ls = .ok p ∧ dropNumbers output = p.lines ∧
        p.ForallStraight fun said _ position =>
          ∀ a, ∃ q, replay said a = some q ∧ |q - exactValue (position.get a)| ≤ 1 / 2000 := by
  intro hclaim
  obtain ⟨output, houtput⟩ := exists_eq_ok (x := (Rule.conversationalFormat plainJob
    ["T1", "G91 G1 X0.0004 F100", "X0.0004", "M30"]).result) (by decide +kernel)
  obtain ⟨p, hp, -, hnear⟩ := hclaim _ _ _ houtput (by decide +kernel) (by decide +kernel)
  have hcheck : (printout plainJob ["T1", "G91 G1 X0.0004 F100", "X0.0004", "M30"]).toOption.any
      (fun p => p.places[2]?.any fun place => place.lines == ["L IX+0 R0"] &&
        (replay (p.headLines ++ (p.places.take 2).flatMap Place.lines ++ ["L IX+0 R0"]) .x).all
          fun q => decide (1 / 2000 < |q - exactValue place.stop.after.position.x|)) = true := by
    decide +kernel
  rw [hp, Except.toOption, Option.any_some] at hcheck
  obtain ⟨place, hplace, hcheck⟩ := (Option.any_eq_true _ _).1 hcheck
  simp only [Bool.and_eq_true, beq_iff_eq] at hcheck
  obtain ⟨hlines, hfar⟩ := hcheck
  obtain ⟨q, hq, hq'⟩ := hnear _ place _ [] "L IX+0 R0" [] (eq_take_append_drop hplace) hlines
    (by decide) .x
  rw [List.nil_append] at hq
  rw [hq, Option.all_some, decide_eq_true_eq] at hfar
  exact absurd hq' (not_le.2 hfar)

end

end PartProgram.Conversational

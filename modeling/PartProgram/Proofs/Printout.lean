import PartProgram.Proofs.Entries
import PartProgram.Proofs.Feeds

/-!
# PartProgram.Proofs.Printout

The conversion line by line. A program is walked through once, and every stop of the walk becomes
entries that stand where the line stood: between the opening, which may call a first tool, and the
closing.

* `stopEntries_eq_ok`: what a stop becomes, told apart by what the block on it does.
* `conversationalFormat_printout`: the converted program, place by place.
-/

namespace PartProgram.Conversational

open Text Number

variable {job : Job} {ls output : Lines} {s : Stop} {t : Tooling}

/-! ## Places -/

/-- What is known about tool and spindle after a stop. -/
def Tooling.after (t : Tooling) (s : Stop) : Tooling := (s.block?.map t.meet).getD t

/-- A stop and what it becomes. -/
structure Place where
  stop : Stop
  entries : List Entry

def Place.lines (p : Place) : Lines := p.entries.flatMap Entry.lines

def placesFrom (job : Job) (t : Tooling) : List Stop → Except Fault (List Place)
  | [] => .ok []
  | s :: rest => do
    let entries ← (stopEntries job t s).result
    let places ← placesFrom job (t.after s) rest
    return ⟨s, entries⟩ :: places

/-- A program in conversational blocks: its head, what stands for each line, and its closing. -/
structure Printout where
  head : List Entry
  places : List Place
  last : Entry

namespace Printout

def headLines (p : Printout) : Lines := p.head.flatMap Entry.lines

def lines (p : Printout) : Lines := p.headLines ++ p.places.flatMap Place.lines ++ p.last.lines

/-- The stops that the places stand for. -/
def stops (p : Printout) : List Stop := p.places.map Place.stop

end Printout

/-- The tool call in front of a program that calls no tool itself. -/
def headCall (stops : List Stop) : List Entry :=
  let t := stops.foldl Tooling.after {}
  if t.isCalled then [] else [.toolCall (some 1) t.firstSpeed]

/-- The conversion of a program, place by place. -/
def printout (job : Job) (ls : Lines) : Except Fault Printout := do
  let stops ← walk ls
  let places ← placesFrom job {} stops
  let bounds ← boundsOf ls
  let name := String.ofList job.options.name
  return ⟨.opening name :: blankEntries bounds ++ headCall stops, places, .closing name⟩

theorem placesFrom_stop {stops : List Stop} {places : List Place}
    (h : placesFrom job t stops = .ok places) : places.map Place.stop = stops := by
  induction stops generalizing t places with
  | nil =>
    cases h
    rfl
  | cons s rest ih =>
    simp only [placesFrom, bind_eq_ok, pure_eq_ok] at h
    obtain ⟨entries, -, more, hmore, rfl⟩ := h
    rw [List.map_cons, ih hmore]

theorem printout_spec {p : Printout} (h : printout job ls = .ok p) :
    walk ls = .ok p.stops ∧ placesFrom job {} p.stops = .ok p.places ∧
      ∃ bounds, p.head =
        .opening (String.ofList job.options.name) :: blankEntries bounds ++ headCall p.stops ∧
        p.last = .closing (String.ofList job.options.name) := by
  simp only [printout, bind_eq_ok, pure_eq_ok] at h
  obtain ⟨stops, hwalk, places, hplaces, bounds, -, rfl⟩ := h
  have hstops : places.map Place.stop = stops := placesFrom_stop hplaces
  refine ⟨?_, ?_, bounds, ?_, rfl⟩
  · rw [hwalk, Printout.stops, hstops]
  · rw [Printout.stops, hstops, hplaces]
  · rw [Printout.stops, hstops]

/-- The head of a program opens it, gives the workpiece and may call a first tool. -/
theorem printout_head {p : Printout} (h : printout job ls = .ok p) {e : Entry} (he : e ∈ p.head) :
    (∃ name, e = .opening name) ∨ (∃ corner, e = .blankFrom corner ∨ e = .blankTo corner) ∨
      ∃ tool speed, e = .toolCall tool speed := by
  obtain ⟨-, -, bounds, hhead, -⟩ := printout_spec h
  rw [hhead, List.cons_append] at he
  rcases List.mem_cons.1 he with rfl | he
  · exact .inl ⟨_, rfl⟩
  · rcases List.mem_append.1 he with he | he
    · simp only [blankEntries, List.mem_cons, List.not_mem_nil, or_false] at he
      rcases he with rfl | rfl
      · exact .inr (.inl ⟨_, .inl rfl⟩)
      · exact .inr (.inl ⟨_, .inr rfl⟩)
    · simp only [headCall] at he
      split at he
      · cases he
      · exact .inr (.inr ⟨_, _, List.mem_singleton.1 he⟩)

theorem convertFrom_places {m : Modal} {n : Int} {entries : List Entry} {t' : Tooling}
    (h : (convertFrom job m t n ls).result = .ok (entries, t')) :
    ∃ stops places, m.walkFrom .standard n ls = .ok stops ∧ placesFrom job t stops = .ok places ∧
      entries = places.flatMap Place.entries ∧ t' = stops.foldl Tooling.after t := by
  induction ls generalizing m t n entries t' with
  | nil =>
    rw [convertFrom, Told.result_pure_eq_ok] at h
    cases h
    exact ⟨[], [], rfl, rfl, rfl, rfl⟩
  | cons raw rest ih =>
    simp only [convertFrom, Told.result_bind_eq_ok, Told.result_pure_eq_ok] at h
    obtain ⟨s, hs, here, hhere, ⟨more, t''⟩, hmore, heq⟩ := h
    cases heq
    obtain ⟨stops, places, hwalk, hplaces, rfl, rfl⟩ := ih hmore
    rw [Told.result_lift] at hs
    refine ⟨s :: stops, ⟨s, here⟩ :: places, ?_, ?_, rfl, rfl⟩
    · simp only [Modal.walkFrom, bind_eq_ok, pure_eq_ok]
      exact ⟨s, hs, stops, hwalk, rfl⟩
    · simp only [placesFrom, bind_eq_ok, pure_eq_ok]
      exact ⟨here, hhere, places, hplaces, rfl⟩

theorem programEntries_printout {entries : List Entry}
    (h : (programEntries job ls).result = .ok entries) :
    ∃ p, printout job ls = .ok p ∧
      entries = p.head ++ p.places.flatMap Place.entries ++ [p.last] := by
  simp only [programEntries, Told.result_bind_eq_ok, Told.result_pure_eq_ok] at h
  obtain ⟨⟨body, t⟩, hbody, bounds, hbounds, rfl⟩ := h
  obtain ⟨stops, places, hwalk, hplaces, rfl, rfl⟩ := convertFrom_places hbody
  have hbounds : boundsOf ls = .ok bounds := hbounds
  let name := String.ofList job.options.name
  refine ⟨⟨.opening name :: blankEntries bounds ++ headCall stops, places, .closing name⟩, ?_, rfl⟩
  simp only [printout, bind_eq_ok, pure_eq_ok]
  exact ⟨stops, hwalk, places, hplaces, bounds, hbounds, rfl⟩

/-- The converted program without its block numbers is the printout. -/
theorem conversationalFormat_printout
    (h : (Rule.conversationalFormat job ls).result = .ok output)
    (hblocks : isConversational ls = false) :
    ∃ p, printout job ls = .ok p ∧ dropNumbers output = p.lines := by
  rw [Rule.conversationalFormat, hblocks, if_neg Bool.false_ne_true, convert,
    Told.result_bind_eq_ok] at h
  obtain ⟨entries, hentries, h⟩ := h
  rw [Told.result_pure_eq_ok] at h
  obtain ⟨p, hp, rfl⟩ := programEntries_printout hentries
  refine ⟨p, hp, ?_⟩
  rw [← h, dropNumbers_renumber]
  · simp only [Printout.lines, Printout.headLines, List.flatMap_append, List.flatMap_assoc,
      List.flatMap_singleton]
    rfl
  · intro l hl
    obtain ⟨e, -, hl⟩ := List.mem_flatMap.1 hl
    exact (e.isPlain_lines hl).unnumbered

/-! ## What a stop becomes -/

/-- A cycle that is worked move by move: it has no definition, or none is asked for. -/
def expandsCycle (job : Job) (c : FixedCycle) : Bool :=
  c.kind.isNone || !job.heidenhainFlag .useCycleDefine

/-- What a block becomes, told apart by what it does. -/
inductive Becomes (job : Job) (b : Block) (r : Resolution) : List Entry → Prop where
  | modes : r.effect = .none → Becomes job b r (auxiliaryEntries (extraCodes b))
  | expanded {c : FixedCycle} {e : Expansion Float} : r.effect = .cycle c →
      expandsCycle job c = true → c.phases = .ok e →
      Becomes job b r
        (e.phases.map (phaseEntry r.state.feed) ++ auxiliaryEntries (extraCodes b))
  | defined {c : FixedCycle} {d : Definition} {coordinates : List Coordinate} :
      r.effect = .cycle c → expandsCycle job c = false → d.parameters ≠ [] →
      Becomes job b r [.definition d,
        .move { coordinates := coordinates, feed := .rapid, codes := "M99" :: extraCodes b }]
  | rapid {m : Motion} : r.effect = .motion m → m.action = .rapid →
      Becomes job b r (straightEntries (blockCoordinates b r.state m) .rapid (extraCodes b))
  | linear {m : Motion} : r.effect = .motion m → m.action = .linear →
      Becomes job b r (straightEntries (blockCoordinates b r.state m) (feedWord b) (extraCodes b))
  | arc {m : Motion} {a : Arc} : r.effect = .motion m → m.action = .arc a →
      Becomes job b r (arcEntries b m a (extraCodes b))
  | dwell {m : Motion} {time : Option Float} : r.effect = .motion m → m.action = .dwell time →
      Becomes job b r [.dwell (seconds time)]
  | shape {m : Motion} {kind : ShapeKind} {block : Block} : r.effect = .motion m →
      m.action = .shape kind block → Becomes job b r [.remark b.renderCode]

theorem Definition.parameters_ofCycle {kind : CycleKind} {h : Hole Float} {line : Int}
    {feed speed : Option Float} {d : Definition}
    (hd : (Definition.ofCycle kind h line feed speed).result = .ok d) : d.parameters ≠ [] := by
  rw [Definition.ofCycle] at hd
  split at hd
  · simp only [Told.result_bind_eq_ok, Told.result_pure_eq_ok] at hd
    obtain ⟨-, -, rest, -, rfl⟩ := hd
    simp
  · simp only [Told.result_bind_eq_ok, Told.result_pure_eq_ok] at hd
    obtain ⟨rest, -, rfl⟩ := hd
    simp

theorem expandedEntries_eq_ok {c : FixedCycle} {feed : Option Float} {codes : List Code}
    {es : List Entry} (h : expandedEntries c feed codes = .ok es) :
    ∃ e, c.phases = .ok e ∧ es = e.phases.map (phaseEntry feed) ++ auxiliaryEntries codes := by
  simp only [expandedEntries, bind_eq_ok, pure_eq_ok, liftM_eq_ok] at h
  obtain ⟨e, he, rfl⟩ := h
  exact ⟨e, he, rfl⟩

/-- What a block does calls no tool, and only the cycles that have one become a definition. -/
theorem Becomes.of_mem {b : Block} {r : Resolution} {es : List Entry} {e : Entry}
    (h : Becomes job b r es) (he : e ∈ es) :
    (∀ tool speed, e ≠ .toolCall tool speed) ∧
      ∀ d, e = .definition d → ∃ c, r.effect = .cycle c ∧ expandsCycle job c = false := by
  have hauxiliary (codes : List Code) (he : e ∈ auxiliaryEntries codes) :
      e = .auxiliary codes := by
    rw [auxiliaryEntries] at he
    split at he
    · cases he
    · exact List.mem_singleton.1 he
  have hstraight {coordinates : List Coordinate} {feed : PathFeed} {codes : List Code}
      (he : e ∈ straightEntries coordinates feed codes) :
      (∃ m, e = .move m) ∨ e = .auxiliary codes := by
    rw [straightEntries] at he
    split at he
    · exact .inr (hauxiliary codes he)
    · exact .inl ⟨_, List.mem_singleton.1 he⟩
  cases h with
  | modes _ => simp [hauxiliary _ he]
  | @expanded c _ _ _ _ =>
    rcases List.mem_append.1 he with he | he
    · obtain ⟨p, -, rfl⟩ := List.mem_map.1 he
      rw [phaseEntry]
      split <;> simp
    · simp [hauxiliary _ he]
  | defined hr hdefined _ =>
    refine ⟨?_, fun _ _ => ⟨_, hr, hdefined⟩⟩
    rintro tool speed rfl
    simp at he
  | rapid _ _ =>
    rcases hstraight he with ⟨m, rfl⟩ | rfl <;> simp
  | linear _ _ =>
    rcases hstraight he with ⟨m, rfl⟩ | rfl <;> simp
  | arc _ _ =>
    rw [arcEntries] at he
    split at he
    · simp [List.mem_singleton.1 he]
    · simp only [List.mem_cons, List.not_mem_nil, or_false] at he
      rcases he with rfl | rfl <;> simp
  | dwell _ _ => simp [List.mem_singleton.1 he]
  | shape _ _ => simp [List.mem_singleton.1 he]

theorem cycleEntries_becomes {b : Block} {r : Resolution} {c : FixedCycle} {speed : Option Float}
    {es : List Entry} (hr : r.effect = .cycle c)
    (h : (cycleEntries job c r.state.feed speed (extraCodes b)).result = .ok es) :
    Becomes job b r es := by
  rw [cycleEntries] at h
  split at h
  · rename_i hkind
    rw [Told.result_bind_eq_ok] at h
    obtain ⟨-, -, h⟩ := h
    obtain ⟨e, he, rfl⟩ := expandedEntries_eq_ok h
    exact .expanded hr (by simp [expandsCycle, hkind]) he
  · rename_i kind hkind
    split at h
    · rename_i hflag
      simp only [Told.result_bind_eq_ok, Told.result_pure_eq_ok] at h
      obtain ⟨d, hd, rfl⟩ := h
      exact .defined hr (by simp [expandsCycle, hkind, hflag]) (Definition.parameters_ofCycle hd)
    · rename_i hflag
      obtain ⟨e, he, rfl⟩ := expandedEntries_eq_ok h
      exact .expanded hr (by simp [expandsCycle, hflag]) he

theorem motionEntries_becomes {b : Block} {r : Resolution} {m : Motion} {es : List Entry}
    (hr : r.effect = .motion m)
    (h : (motionEntries b r.state m (extraCodes b)).result = .ok es) : Becomes job b r es := by
  rw [motionEntries] at h
  split at h
  · rename_i hm
    rw [Told.result_pure_eq_ok] at h
    exact h ▸ .rapid hr hm
  · rename_i hm
    rw [Told.result_pure_eq_ok] at h
    exact h ▸ .linear hr hm
  · rename_i a hm
    rw [Told.result_pure_eq_ok] at h
    exact h ▸ .arc hr hm
  · rename_i time hm
    rw [Told.result_pure_eq_ok] at h
    exact h ▸ .dwell hr hm
  · rename_i kind block hm
    simp only [Told.result_bind_eq_ok, Told.result_pure_eq_ok] at h
    obtain ⟨-, -, rfl⟩ := h
    exact .shape hr hm

theorem effectEntries_becomes {b : Block} {r : Resolution} {es : List Entry}
    (h : (effectEntries job t b r).result = .ok es) : Becomes job b r es := by
  rw [effectEntries] at h
  split at h
  · rename_i hr
    rw [Told.result_pure_eq_ok] at h
    exact h ▸ .modes hr
  · rename_i c hr
    exact cycleEntries_becomes hr h
  · rename_i m hr
    exact motionEntries_becomes hr h

/-- A stop becomes its comment, with the tool call and what the block does before it. -/
theorem stopEntries_eq_ok {es : List Entry} (h : (stopEntries job t s).result = .ok es) :
    ∃ remarks : List String, (s.found = none ∧ es = remarks.map .remark) ∨
      ∃ b r tools effects, s.found = some (b, r) ∧ toolEntries t b r = .ok tools ∧
        Becomes job b r effects ∧ es = tools ++ effects ++ remarks.map .remark := by
  rw [stopEntries] at h
  split at h
  · rename_i hfound
    rw [Told.result_pure_eq_ok] at h
    exact ⟨_, .inl ⟨hfound, h.symm⟩⟩
  · rename_i b r hfound
    simp only [Told.result_bind_eq_ok, Told.result_pure_eq_ok] at h
    obtain ⟨tools, htools, effects, heffects, rfl⟩ := h
    exact ⟨_, .inr ⟨b, r, tools, effects, hfound, htools, effectEntries_becomes heffects, rfl⟩⟩

/-- Tool calls stand before everything else that a block becomes. -/
theorem toolEntries_isToolCall {b : Block} {r : Resolution} {tools : List Entry}
    (h : toolEntries t b r = .ok tools) : ∀ e ∈ tools, ∃ tool speed, e = .toolCall tool speed := by
  intro e he
  rw [toolEntries] at h
  split at h
  · simp only [bind_eq_ok, pure_eq_ok] at h
    obtain ⟨n, -, rfl⟩ := h
    exact ⟨_, _, List.mem_singleton.1 he⟩
  · split at h
    · cases h
      split at he
      · exact ⟨_, _, List.mem_singleton.1 he⟩
      · cases he
    · cases h
      cases he

/-- Of a stop that holds a block, what the block does becomes everything but tool calls and
comments. -/
theorem stopEntries_flatMap {α : Type} {f : Entry → List α} {es : List Entry}
    (hremark : ∀ text, f (.remark text) = []) (hcall : ∀ tool speed, f (.toolCall tool speed) = [])
    (h : (stopEntries job t s).result = .ok es) :
    (s.found = none ∧ es.flatMap f = []) ∨
      ∃ b r effects, s.found = some (b, r) ∧ Becomes job b r effects ∧
        es.flatMap f = effects.flatMap f := by
  have hremarks (remarks : List String) : (remarks.map Entry.remark).flatMap f = [] := by
    refine List.flatMap_eq_nil_iff.2 fun e he => ?_
    obtain ⟨text, -, rfl⟩ := List.mem_map.1 he
    exact hremark text
  obtain ⟨remarks, ⟨hfound, rfl⟩ | ⟨b, r, tools, effects, hfound, htools, heffects, rfl⟩⟩ :=
    stopEntries_eq_ok h
  · exact .inl ⟨hfound, hremarks remarks⟩
  · have hnone : tools.flatMap f = [] := by
      refine List.flatMap_eq_nil_iff.2 fun e he => ?_
      obtain ⟨tool, speed, rfl⟩ := toolEntries_isToolCall htools e he
      exact hcall tool speed
    refine .inr ⟨b, r, effects, hfound, heffects, ?_⟩
    rw [List.flatMap_append, List.flatMap_append, hnone, hremarks, List.nil_append, List.append_nil]

/-- What stands for a line was made knowing the tool calls and speeds of the lines before it. -/
theorem eq_take_append_drop {α : Type} {xs : List α} {x : α} {n : Nat} (h : xs[n]? = some x) :
    xs = xs.take n ++ x :: xs.drop (n + 1) := by
  obtain ⟨hlt, hx⟩ := List.getElem?_eq_some_iff.1 h
  rw [← hx, ← List.drop_eq_getElem_cons hlt, List.take_append_drop]

theorem placesFrom_split {stops : List Stop} {past future : List Place} {place : Place}
    (h : placesFrom job t stops = .ok (past ++ place :: future)) :
    (stopEntries job ((past.map Place.stop).foldl Tooling.after t) place.stop).result =
      .ok place.entries := by
  induction past generalizing t stops with
  | nil =>
    cases stops with
    | nil => cases h
    | cons s rest =>
      simp only [placesFrom, bind_eq_ok, pure_eq_ok] at h
      obtain ⟨entries, hentries, more, -, heq⟩ := h
      cases heq
      exact hentries
  | cons p past ih =>
    cases stops with
    | nil => cases h
    | cons s rest =>
      simp only [placesFrom, bind_eq_ok, pure_eq_ok] at h
      obtain ⟨entries, -, more, hmore, heq⟩ := h
      cases heq
      exact ih hmore

theorem stopEntries_of_mem {stops : List Stop} {places : List Place} {place : Place}
    (h : placesFrom job t stops = .ok places) (hplace : place ∈ places) :
    ∃ t', (stopEntries job t' place.stop).result = .ok place.entries := by
  obtain ⟨past, future, rfl⟩ := List.append_of_mem hplace
  exact ⟨_, placesFrom_split h⟩

/-! ## Auxiliary codes -/

theorem hasLetter_extraCodes {b : Block} {code : Code} (h : code ∈ extraCodes b) :
    HasLetter 'M' code := by
  obtain ⟨w, hw, rfl⟩ := List.mem_map.1 (List.mem_of_mem_filter h)
  have hletter : w.letter = 'M' := by simpa using (List.mem_filter.1 hw).2
  rw [Word.code, hletter]
  refine hasLetter_append rfl (by decide) fun hmem => ?_
  exact not_isPrintChar_blank (isPrintChar_of_mem_codeNumber hmem)

theorem hasAuxiliary_of_codes {e : Entry} {b : Block} (h : e.codes = [] ∨ e.codes = extraCodes b) :
    e.HasAuxiliary := by
  intro code hcode
  rcases h with h | h
  · rw [h] at hcode
    cases hcode
  · rw [h] at hcode
    exact hasLetter_extraCodes hcode

theorem codes_auxiliaryEntries {codes : List Code} {e : Entry} (h : e ∈ auxiliaryEntries codes) :
    e.codes = codes := by
  rw [auxiliaryEntries] at h
  split at h
  · cases h
  · rw [List.mem_singleton.1 h]
    rfl

theorem codes_straightEntries {coordinates : List Coordinate} {feed : PathFeed} {codes : List Code}
    {e : Entry} (h : e ∈ straightEntries coordinates feed codes) : e.codes = codes := by
  rw [straightEntries] at h
  split at h
  · exact codes_auxiliaryEntries h
  · rw [List.mem_singleton.1 h]
    rfl

theorem codes_phaseEntry (feed : Option Float) (p : Phase Float) :
    (phaseEntry feed p).codes = [] := by
  rw [phaseEntry]
  split <;> rfl

theorem Becomes.hasAuxiliary {b : Block} {r : Resolution} {es : List Entry}
    (h : Becomes job b r es) : ∀ e ∈ es, e.HasAuxiliary := by
  intro e he
  cases h with
  | modes _ => exact hasAuxiliary_of_codes (.inr (codes_auxiliaryEntries he))
  | expanded _ _ _ =>
    rcases List.mem_append.1 he with he | he
    · obtain ⟨p, -, rfl⟩ := List.mem_map.1 he
      exact hasAuxiliary_of_codes (b := b) (.inl (codes_phaseEntry _ p))
    · exact hasAuxiliary_of_codes (.inr (codes_auxiliaryEntries he))
  | defined _ _ _ =>
    simp only [List.mem_cons, List.not_mem_nil, or_false] at he
    rcases he with rfl | rfl
    · exact hasAuxiliary_of_codes (b := b) (.inl rfl)
    · intro code hcode
      rcases List.mem_cons.1 hcode with rfl | hcode
      · exact ⟨by decide, by decide⟩
      · exact hasLetter_extraCodes hcode
  | rapid _ _ => exact hasAuxiliary_of_codes (.inr (codes_straightEntries he))
  | linear _ _ => exact hasAuxiliary_of_codes (.inr (codes_straightEntries he))
  | @arc m a _ _ =>
    have hcodes : e.codes = [] ∨ e.codes = extraCodes b := by
      rw [arcEntries] at he
      split at he
      · rw [List.mem_singleton.1 he]
        exact .inr rfl
      · simp only [List.mem_cons, List.not_mem_nil, or_false] at he
        rcases he with rfl | rfl
        · exact .inl rfl
        · exact .inr rfl
    exact hasAuxiliary_of_codes hcodes
  | dwell _ _ =>
    rw [List.mem_singleton.1 he]
    exact hasAuxiliary_of_codes (b := b) (.inl rfl)
  | shape _ _ =>
    rw [List.mem_singleton.1 he]
    exact hasAuxiliary_of_codes (b := b) (.inl rfl)

theorem hasAuxiliary_stopEntries {es : List Entry} (h : (stopEntries job t s).result = .ok es) :
    ∀ e ∈ es, e.HasAuxiliary := by
  have hnone {e : Entry} (hcodes : e.codes = []) : e.HasAuxiliary := by
    intro code hcode
    rw [hcodes] at hcode
    cases hcode
  obtain ⟨remarks, ⟨-, rfl⟩ | ⟨b, r, tools, effects, -, htools, heffects, rfl⟩⟩ :=
    stopEntries_eq_ok h
  · intro e he
    obtain ⟨text, -, rfl⟩ := List.mem_map.1 he
    exact hnone rfl
  · intro e he
    rcases List.mem_append.1 he with he | he
    · rcases List.mem_append.1 he with he | he
      · obtain ⟨tool, speed, rfl⟩ := toolEntries_isToolCall htools e he
        exact hnone rfl
      · exact heffects.hasAuxiliary e he
    · obtain ⟨text, -, rfl⟩ := List.mem_map.1 he
      exact hnone rfl

/-- What the lines of a place say is what its entries say. -/
theorem Place.flatMap_lines {α : Type} {f : String → List α} {g : Entry → List α} {place : Place}
    (h : (stopEntries job t place.stop).result = .ok place.entries)
    (hf : ∀ e : Entry, e.HasAuxiliary → e.lines.flatMap f = g e) :
    place.lines.flatMap f = place.entries.flatMap g := by
  rw [Place.lines, List.flatMap_assoc]
  exact List.flatMap_congr fun e he => hf e (hasAuxiliary_stopEntries h e he)

end PartProgram.Conversational

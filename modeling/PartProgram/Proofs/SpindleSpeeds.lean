import PartProgram.Proofs.Printout

/-!
# PartProgram.Proofs.SpindleSpeeds

Spindle speeds in converted programs. Speeds are said by tool calls: by that of the block's own
tool, by one for a speed alone once a tool was called, and by the one in the head of a program that
calls no tool. A speed before the first tool call of a program, or on a block that works, is said by
none of them.

* `speedNumbers_places`: the speeds that a row of places says.
* `conversion_speeds`: the speed that is said last before every motion and cycle.
-/

namespace PartProgram.Conversational

open Text Number

/-! ## Speeds of stops -/

/-- The speed that is said for a stop, given what is known about tool and spindle before it. -/
def toldSpeed (t : Tooling) (s : Stop) : Option Float :=
  s.found.bind fun (b, r) =>
    if b.has ['T'] || t.isCalled && !r.isWork then b.value 'S' else none

def toldSpeeds (t : Tooling) : List Stop → List Float
  | [] => []
  | s :: rest => (toldSpeed t s).toList ++ toldSpeeds (t.after s) rest

/-- The speed in the head of a program, which is its first one if it calls no tool. -/
def headSpeed (stops : List Stop) : Option Float :=
  let t := stops.foldl Tooling.after {}
  if t.isCalled then none else t.firstSpeed

/-- The last speed that is said up to some stop of a program. -/
def lastTold (program stops : List Stop) : Option Float :=
  ((headSpeed program).toList ++ toldSpeeds {} stops).getLast?

/-- The last speed word of a row of stops. -/
def lastSpeedWord (stops : List Stop) : Option Float :=
  (stops.filterMap fun s => s.block?.bind fun b => b.value 'S').getLast?

/-- The speed that lines say last. -/
def lastSpeed? (ls : Lines) : Option String := (ls.flatMap speedNumbers).getLast?

theorem toldSpeeds_append (t : Tooling) (stops more : List Stop) :
    toldSpeeds t (stops ++ more) =
      toldSpeeds t stops ++ toldSpeeds (stops.foldl Tooling.after t) more := by
  induction stops generalizing t with
  | nil => rfl
  | cons s rest ih =>
    rw [List.cons_append, toldSpeeds, ih, toldSpeeds, List.append_assoc, List.foldl_cons]

theorem value_eq_none_iff {b : Block} {letter : Char} :
    b.value letter = none ↔ b.has [letter] = false := by
  simp [Block.value, Block.has]

section

variable {job : Job} {ls output : Lines} {s : Stop} {t : Tooling} {b : Block} {r : Resolution}

theorem toolEntries_speeds {tools : List Entry} (h : toolEntries t b r = .ok tools)
    (hs : s.found = some (b, r)) : tools.flatMap Entry.speeds = (toldSpeed t s).toList := by
  have htold : toldSpeed t s =
      if b.has ['T'] || t.isCalled && !r.isWork then b.value 'S' else none := by
    rw [toldSpeed, hs]
    rfl
  rw [htold]
  rw [toolEntries] at h
  split at h
  · rename_i tool htool
    have hhas : b.has ['T'] = true := by
      rw [← Bool.not_eq_false, ← value_eq_none_iff, htool]
      simp
    simp only [bind_eq_ok, pure_eq_ok] at h
    obtain ⟨n, -, rfl⟩ := h
    rw [hhas, Bool.true_or, if_pos rfl]
    exact List.append_nil _
  · rename_i hnone
    rw [value_eq_none_iff.1 hnone, Bool.false_or]
    split at h
    · rename_i speed hspeed
      cases h
      split
      · rw [hspeed]
        rfl
      · rfl
    · rename_i hsilent
      cases h
      rw [hsilent, ite_self]
      rfl

/-! ## Places -/

/-- Lines other than tool calls. -/
theorem not_isToolCall_lines {e : Entry} (haux : e.HasAuxiliary)
    (h : ∀ tool speed, e ≠ .toolCall tool speed) {line : String} (hline : line ∈ e.lines) :
    isToolCall line = false := by
  cases e with
  | move m =>
    rw [List.mem_singleton.1 hline]
    exact isToolCall_of_isPathBlock (Move.isPathBlock_render haux)
  | auxiliary codes =>
    rw [List.mem_singleton.1 hline]
    exact isToolCall_of_isPathBlock (isPathBlock_auxiliary haux)
  | toolCall tool speed => exact absurd rfl (h tool speed)
  | _ => exact (Entry.isQuiet_lines rfl hline).2

theorem stopEntries_split {s : Stop} {es : List Entry}
    (h : (stopEntries job t s).result = .ok es) :
    ∃ tools rest : List Entry, es = tools ++ rest ∧
      (∀ e ∈ tools, ∃ tool speed, e = .toolCall tool speed) ∧
      (∀ e ∈ rest, ∀ tool speed, e ≠ .toolCall tool speed) ∧
      tools.flatMap Entry.speeds = (toldSpeed t s).toList := by
  have hremark {remarks : List String} {e : Entry} (he : e ∈ remarks.map Entry.remark)
      (tool : Option Int) (speed : Option Float) : e ≠ .toolCall tool speed := by
    obtain ⟨text, -, rfl⟩ := List.mem_map.1 he
    simp
  obtain ⟨remarks, ⟨hfound, hentries⟩ | ⟨b, r, tools, effects, hfound, htools, hbecomes,
    hentries⟩⟩ := stopEntries_eq_ok h
  · refine ⟨[], _, hentries, by simp, fun e he => hremark he, ?_⟩
    rw [toldSpeed, hfound]
    rfl
  · refine ⟨tools, effects ++ remarks.map .remark, by rw [hentries, List.append_assoc],
      toolEntries_isToolCall htools, fun e he => ?_, toolEntries_speeds htools hfound⟩
    rcases List.mem_append.1 he with he | he
    · exact (hbecomes.of_mem he).1
    · exact hremark he

/-- The tool calls of a place come first, and say its speed. -/
theorem place_calls {place : Place}
    (h : (stopEntries job t place.stop).result = .ok place.entries) :
    (∀ line ∈ place.lines.dropWhile isToolCall, isToolCall line = false) ∧
      (place.lines.takeWhile isToolCall).flatMap speedNumbers =
        (toldSpeed t place.stop).toList.map coordinate := by
  obtain ⟨tools, rest, hentries, htools, hrest, hspeeds⟩ := stopEntries_split h
  have haux := hasAuxiliary_stopEntries h
  rw [hentries] at haux
  have hcalls : ∀ line ∈ tools.flatMap Entry.lines, isToolCall line = true := by
    intro line hline
    obtain ⟨e, he, hline⟩ := List.mem_flatMap.1 hline
    obtain ⟨tool, speed, rfl⟩ := htools e he
    rw [Entry.toolCall_lines, List.mem_singleton] at hline
    rw [hline, Entry.isToolCall_toolCall]
  have hothers : ∀ line ∈ rest.flatMap Entry.lines, isToolCall line = false := by
    intro line hline
    obtain ⟨e, he, hline⟩ := List.mem_flatMap.1 hline
    exact not_isToolCall_lines (haux e (List.mem_append_right _ he)) (hrest e he) hline
  have htake : (rest.flatMap Entry.lines).takeWhile isToolCall = [] := by
    rw [List.takeWhile_eq_nil_iff]
    intro hne
    simpa using hothers _ (List.getElem_mem hne)
  have hdrop : (rest.flatMap Entry.lines).dropWhile isToolCall = rest.flatMap Entry.lines := by
    have := List.takeWhile_append_dropWhile (p := isToolCall) (l := rest.flatMap Entry.lines)
    rwa [htake, List.nil_append] at this
  rw [Place.lines, hentries, List.flatMap_append, List.dropWhile_append_of_pos hcalls,
    List.takeWhile_append_of_pos hcalls, htake, hdrop, List.append_nil]
  refine ⟨hothers, ?_⟩
  rw [← hspeeds, List.map_flatMap, List.flatMap_assoc]
  exact List.flatMap_congr fun e he => Entry.speedNumbers_lines (haux e (List.mem_append_left _ he))

theorem speedNumbers_place {place : Place}
    (h : (stopEntries job t place.stop).result = .ok place.entries) :
    place.lines.flatMap speedNumbers = (toldSpeed t place.stop).toList.map coordinate := by
  obtain ⟨hothers, hcalls⟩ := place_calls h
  have hsilent : (place.lines.dropWhile isToolCall).flatMap speedNumbers = [] :=
    List.flatMap_eq_nil_iff.2 fun line hline => speedNumbers_of_not_call (hothers line hline)
  rw [← hcalls, ← List.append_nil ((place.lines.takeWhile isToolCall).flatMap speedNumbers),
    ← hsilent, ← List.flatMap_append, List.takeWhile_append_dropWhile]

/-- The speeds that a row of places says. -/
theorem speedNumbers_places {stops : List Stop} {past future : List Place}
    (h : placesFrom job t stops = .ok (past ++ future)) :
    (past.flatMap Place.lines).flatMap speedNumbers =
      (toldSpeeds t (past.map Place.stop)).map coordinate := by
  induction past generalizing t stops with
  | nil => rfl
  | cons place past ih =>
    cases stops with
    | nil => cases h
    | cons s rest =>
      simp only [List.cons_append, placesFrom, bind_eq_ok, pure_eq_ok] at h
      obtain ⟨entries, hentries, more, hmore, heq⟩ := h
      cases heq
      rw [List.flatMap_cons, List.flatMap_append, speedNumbers_place hentries, ih hmore,
        List.map_cons, toldSpeeds, List.map_append]

theorem speedNumbers_head {p : Printout} (hp : printout job ls = .ok p) :
    p.headLines.flatMap speedNumbers = (headSpeed p.stops).toList.map coordinate := by
  obtain ⟨-, -, bounds, hhead, -⟩ := printout_spec hp
  have haux : ∀ e ∈ p.head, e.HasAuxiliary := by
    intro e he code hcode
    rcases printout_head hp he with ⟨_, rfl⟩ | ⟨_, rfl | rfl⟩ | ⟨_, _, rfl⟩ <;> cases hcode
  have hspeeds : p.head.flatMap Entry.speeds = (headSpeed p.stops).toList := by
    rw [hhead, List.flatMap_append, headCall, headSpeed]
    split
    · rfl
    · exact List.append_nil _
  rw [← hspeeds, List.map_flatMap, Printout.headLines, List.flatMap_assoc]
  exact List.flatMap_congr fun e he => Entry.speedNumbers_lines (haux e he)

/-! ## Work -/

/-- What is true before every motion and cycle that a speed word came before, or stands with: of the
lines up to it and with the tool calls of its own block, of the stops up to its own and with it, and
of the last of the speed words. -/
def Printout.ForallWork (p : Printout) (P : Lines → List Stop → Float → Prop) : Prop :=
  ∀ past place future speed, p.places = past ++ place :: future →
    place.stop.resolution?.any Resolution.isWork = true →
    lastSpeedWord (past.map Place.stop ++ [place.stop]) = some speed →
    P (p.headLines ++ past.flatMap Place.lines ++ place.lines.takeWhile isToolCall)
      (past.map Place.stop ++ [place.stop]) speed

/-- Before every motion and cycle the speed that was said last is that of the last speed word. -/
def Printout.KeepsSpeeds (p : Printout) : Prop :=
  p.ForallWork fun said _ speed => lastSpeed? said = some (coordinate speed)

theorem Printout.ForallWork.congr {p : Printout} {P Q : Lines → List Stop → Float → Prop}
    (h : p.ForallWork fun said stops speed => P said stops speed ↔ Q said stops speed) :
    p.ForallWork P ↔ p.ForallWork Q := by
  constructor
  · intro hP past place future speed hplaces hwork hspeed
    exact (h _ _ _ _ hplaces hwork hspeed).1 (hP _ _ _ _ hplaces hwork hspeed)
  · intro hQ past place future speed hplaces hwork hspeed
    exact (h _ _ _ _ hplaces hwork hspeed).2 (hQ _ _ _ _ hplaces hwork hspeed)

theorem lastSpeed_work {p : Printout} (hp : printout job ls = .ok p) :
    p.ForallWork fun said stops _ => lastSpeed? said = (lastTold p.stops stops).map coordinate := by
  intro past place future speed hplaces _ _
  obtain ⟨-, hmade, -⟩ := printout_spec hp
  rw [hplaces] at hmade
  have hplace := placesFrom_split hmade
  rw [lastSpeed?, List.flatMap_append, List.flatMap_append, speedNumbers_head hp,
    speedNumbers_places hmade, (place_calls hplace).2, ← List.map_append, ← List.map_append,
    List.getLast?_map, lastTold, toldSpeeds_append, toldSpeeds, toldSpeeds, List.append_nil,
    List.append_assoc]

/-- The speed that is said last before a motion or cycle is the last one that was told: with a tool,
by a block that goes nowhere once a tool was called, or in the head of a program without tools. It
is that of the last speed word where the two are printed alike. The tool calls of a block stand
before all else that it becomes. -/
theorem conversion_speeds (h : (Rule.conversationalFormat job ls).result = .ok output)
    (hblocks : isConversational ls = false) :
    ∃ p, printout job ls = .ok p ∧ dropNumbers output = p.lines ∧
      (∀ place ∈ p.places, ∀ line ∈ place.lines.dropWhile isToolCall, isToolCall line = false) ∧
      (p.ForallWork fun said stops _ =>
        lastSpeed? said = (lastTold p.stops stops).map coordinate) ∧
      (p.KeepsSpeeds ↔ p.ForallWork fun _ stops speed =>
        (lastTold p.stops stops).map coordinate = some (coordinate speed)) := by
  obtain ⟨p, hp, houtput⟩ := conversationalFormat_printout h hblocks
  have hlaw := lastSpeed_work hp
  refine ⟨p, hp, houtput, fun place hplace => ?_, hlaw, Printout.ForallWork.congr ?_⟩
  · obtain ⟨-, hmade, -⟩ := printout_spec hp
    obtain ⟨t, hplace⟩ := stopEntries_of_mem hmade hplace
    exact (place_calls hplace).1
  · intro past place future speed hplaces hwork hspeed
    rw [hlaw _ _ _ _ hplaces hwork hspeed]

/-- A speed with its tool. -/
theorem conversion_speeds_tool :
    ∃ output p, (Rule.conversationalFormat ⟨.heidenhain, {}⟩
        ["T1 S500", "G1 X1 F100", "S800", "X2", "M30"]).result = .ok output ∧
      printout ⟨.heidenhain, {}⟩ ["T1 S500", "G1 X1 F100", "S800", "X2", "M30"] = .ok p ∧
      dropNumbers output = p.lines ∧
      (p.ForallWork fun said stops _ =>
        lastSpeed? said = (lastTold p.stops stops).map coordinate) ∧
      (p.KeepsSpeeds ↔ p.ForallWork fun _ stops speed =>
        (lastTold p.stops stops).map coordinate = some (coordinate speed)) := by
  obtain ⟨output, houtput⟩ := exists_eq_ok (x := (Rule.conversationalFormat ⟨.heidenhain, {}⟩
    ["T1 S500", "G1 X1 F100", "S800", "X2", "M30"]).result) (by decide +kernel)
  obtain ⟨p, hp, hlines, -, hlaw, hkeeps⟩ := conversion_speeds houtput (by decide +kernel)
  exact ⟨output, p, houtput, hp, hlines, hlaw, hkeeps⟩

/-- A speed before the tool is called is not said. -/
theorem conversion_speed_lost :
    ¬ ∀ job ls output, (Rule.conversationalFormat job ls).result = .ok output →
      isConversational ls = false →
      ∃ p, printout job ls = .ok p ∧ dropNumbers output = p.lines ∧ p.KeepsSpeeds := by
  intro hclaim
  obtain ⟨output, houtput⟩ := exists_eq_ok (x := (Rule.conversationalFormat ⟨.heidenhain, {}⟩
    ["S500", "T1", "G1 X1 F100", "M30"]).result) (by decide +kernel)
  obtain ⟨p, hp, -, hkeeps⟩ := hclaim _ _ _ houtput (by decide +kernel)
  have hcheck : (printout ⟨.heidenhain, {}⟩
      ["S500", "T1", "G1 X1 F100", "M30"]).toOption.any (fun p =>
      p.places[2]?.any fun place =>
        place.stop.resolution?.any Resolution.isWork &&
          (lastSpeedWord ((p.places.take 2).map Place.stop ++ [place.stop])).isSome &&
          (lastSpeed? (p.headLines ++ (p.places.take 2).flatMap Place.lines ++
            place.lines.takeWhile isToolCall)).isNone) = true := by decide +kernel
  rw [hp, Except.toOption, Option.any_some] at hcheck
  obtain ⟨place, hplace, hcheck⟩ := (Option.any_eq_true _ _).1 hcheck
  simp only [Bool.and_eq_true] at hcheck
  obtain ⟨⟨hwork, hword⟩, hsilent⟩ := hcheck
  obtain ⟨speed, hspeed⟩ := Option.isSome_iff_exists.1 hword
  have hsaid := hkeeps _ place _ speed (eq_take_append_drop hplace) hwork hspeed
  rw [hsaid] at hsilent
  cases hsilent

end

end PartProgram.Conversational

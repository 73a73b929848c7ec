import PartProgram.Proofs.Extents
import PartProgram.Proofs.Nearest
import PartProgram.Proofs.Replay

/-!
# PartProgram.Proofs.WorkpieceBlank

The workpiece blank as it is printed. Its corners are those of the box that the tool moves in, each
number rounded to the thousandth, so no point lies farther outside than half of one. Where the box
is flat on an axis, a unit is added to the lower number before it is rounded. What decides on this
is the box and not what is printed: sides that are less than a thousandth apart may be printed as
one.

* `Printout.blankNumber_lines`: the numbers of the blank, read back.
* `thicken_spec`: the greater corner is a double and not below the box.
* `conversion_blank_extent`: when the blank extends along an axis, and what lies in it.
-/

namespace PartProgram.Conversational

open Text Number

variable {job : Job} {ls output : Lines} {line mark : String} {a : Axis} {lo hi : Float}

/-! ## Reading the blank -/

/-- Whether a line gives the marked corner of the blank. -/
def isBlankForm (mark line : String) : Bool := (textWords line).take 3 == ["BLK", "FORM", mark]

/-- The number that a line says for an axis; the spindle axis has none. -/
def axisNumber? (a : Axis) (line : String) : Option ℚ :=
  ((textWords line).filterMap saidCoordinate?).findSome? fun c =>
    if c.axis = a then c.number else none

/-- The number of the marked corner on an axis. -/
def blankNumber? (mark : String) (a : Axis) (ls : Lines) : Option ℚ :=
  (ls.find? (isBlankForm mark)).bind (axisNumber? a)

/-! ## Lines of the head -/

def cornerWords (p : Position) : List String :=
  Axis.all.map fun axis => (Coordinate.ofPoint p axis).render

theorem textWords_append_corner {front : List String} (hne : front ≠ [])
    (hfront : ∀ w ∈ front, ' ' ∉ w.toList) (p : Position) :
    textWords (" ".intercalate front ++ " " ++ corner p) = front ++ cornerWords p := by
  have hcorner : ∀ w ∈ cornerWords p, ' ' ∉ w.toList := by
    intro w hw
    obtain ⟨axis, -, rfl⟩ := List.mem_map.1 hw
    obtain ⟨-, -, -, hblank⟩ := (Coordinate.ofPoint p axis).hasLetter
    exact hblank
  have hline : " ".intercalate front ++ " " ++ corner p =
      " ".intercalate (front ++ cornerWords p) := by
    refine String.toList_inj.1 ?_
    obtain ⟨w, ws, rfl⟩ := List.exists_cons_of_ne_nil hne
    have hwords : corner p = " ".intercalate (cornerWords p) := rfl
    rw [String.toList_append, String.toList_append, hwords, cornerWords, Axis.all, List.map_cons,
      toList_intercalate_cons, toList_intercalate_cons, List.cons_append, toList_intercalate_cons,
      spaced_append, spaced_cons]
    simp
  rw [hline]
  refine textWords_intercalate (by simp [hne]) fun w hw => ?_
  exact (List.mem_append.1 hw).elim (hfront w) (hcorner w)

theorem textWords_blankFrom (p : Position) :
    textWords ("BLK FORM 0.1 Z " ++ corner p) = ["BLK", "FORM", "0.1", "Z"] ++ cornerWords p := by
  have hfront : "BLK FORM 0.1 Z " = " ".intercalate ["BLK", "FORM", "0.1", "Z"] ++ " " := by
    decide +kernel
  rw [hfront]
  exact textWords_append_corner (by decide) (by decide) p

theorem textWords_blankTo (p : Position) :
    textWords ("BLK FORM 0.2 " ++ corner p) = ["BLK", "FORM", "0.2"] ++ cornerWords p := by
  have hfront : "BLK FORM 0.2 " = " ".intercalate ["BLK", "FORM", "0.2"] ++ " " := by
    decide +kernel
  rw [hfront]
  exact textWords_append_corner (by decide) (by decide) p

/-- The number of a corner on an axis is read behind words that have none. -/
theorem axisNumber_of_textWords {front : List String} {p : Position}
    (hline : textWords line = front ++ cornerWords p)
    (hfront : (front.filterMap saidCoordinate?).all (·.number.isNone) = true) :
    axisNumber? a line = reading? (signedCoordinate (p.get a)).toList := by
  have hcorner : (cornerWords p).filterMap saidCoordinate? =
      Axis.all.map fun axis => (Coordinate.ofPoint p axis).said := by
    rw [cornerWords, List.filterMap_map, ← List.filterMap_eq_map]
    exact List.filterMap_congr fun axis _ => (Coordinate.ofPoint p axis).saidCoordinate_render
  have hnone : (front.filterMap saidCoordinate?).findSome?
      (fun c => if c.axis = a then c.number else none) = none := by
    rw [List.findSome?_eq_none_iff]
    intro c hc
    have hnumber : c.number = none := by simpa using List.all_eq_true.1 hfront c hc
    rw [hnumber, ite_self]
  rw [axisNumber?, hline, List.filterMap_append, hcorner, List.findSome?_append, hnone,
    Option.none_or]
  cases a <;> cases hread : reading? (signedCoordinate (p.get _)).toList <;>
    simp_all [Axis.all, Coordinate.said, Coordinate.ofPoint]

theorem isBlankForm_of_head {w : String} (h : (textWords line).head? = some w) (hw : w ≠ "BLK") :
    isBlankForm mark line = false := by
  obtain ⟨ws, hwords⟩ := List.head?_eq_some_iff.1 h
  rw [isBlankForm, hwords]
  simp [hw]

/-- What is read of the blank behind an opening. -/
theorem blankNumber_head {name : String} {low high : Position} {rest : Lines} :
    let ls := ("BEGIN PGM " ++ name ++ " MM") :: ("BLK FORM 0.1 Z " ++ corner low) ::
      ("BLK FORM 0.2 " ++ corner high) :: rest
    blankNumber? "0.1" a ls = reading? (signedCoordinate (low.get a)).toList ∧
      blankNumber? "0.2" a ls = reading? (signedCoordinate (high.get a)).toList := by
  have hopening (mark : String) : isBlankForm mark ("BEGIN PGM " ++ name ++ " MM") = false := by
    have hfirst : StartsWith "BEGIN" ("BEGIN PGM " ++ name ++ " MM") :=
      ⟨by decide, ("PGM " ++ name ++ " MM").toList, by simp⟩
    exact isBlankForm_of_head hfirst.head (by decide)
  have hlow (mark : String) :
      isBlankForm mark ("BLK FORM 0.1 Z " ++ corner low) = ("0.1" == mark) := by
    rw [isBlankForm, textWords_blankFrom]
    simp
  have hhigh : isBlankForm "0.2" ("BLK FORM 0.2 " ++ corner high) = true := by
    rw [isBlankForm, textWords_blankTo]
    rfl
  constructor
  · rw [blankNumber?, List.find?_cons_of_neg (by simp [hopening]),
      List.find?_cons_of_pos (by simp [hlow]), Option.bind_some]
    exact axisNumber_of_textWords (textWords_blankFrom low) (by decide +kernel)
  · rw [blankNumber?, List.find?_cons_of_neg (by simp [hopening]),
      List.find?_cons_of_neg (by simp [hlow]), List.find?_cons_of_pos hhigh, Option.bind_some]
    exact axisNumber_of_textWords (textWords_blankTo high) (by decide +kernel)

/-- The box that the tool moves in: a point where nothing moves. -/
def workBox (bounds : Option Bounds) : Bounds := bounds.getD ⟨.origin, .origin⟩

/-- What is printed of the blank are the corners of the box, the greater one thickened. -/
theorem Printout.blankNumber_lines {p : Printout} (h : printout job ls = .ok p)
    {bounds : Option Bounds} (hbounds : boundsOf ls = .ok bounds) :
    blankNumber? "0.1" a p.lines =
        reading? (signedCoordinate ((workBox bounds).minimum.get a)).toList ∧
      blankNumber? "0.2" a p.lines = reading? (signedCoordinate
        (thicken ((workBox bounds).minimum.get a) ((workBox bounds).maximum.get a))).toList := by
  simp only [printout, bind_eq_ok, pure_eq_ok] at h
  obtain ⟨stops, -, places, -, bounds', hbounds', rfl⟩ := h
  rw [hbounds] at hbounds'
  cases hbounds'
  have hlines : Printout.lines
      ⟨.opening (String.ofList job.options.name) :: blankEntries bounds ++ headCall stops, places,
        .closing (String.ofList job.options.name)⟩ =
      ("BEGIN PGM " ++ String.ofList job.options.name ++ " MM") ::
        ("BLK FORM 0.1 Z " ++ corner (workBox bounds).minimum) ::
        ("BLK FORM 0.2 " ++ corner (.tabulate fun axis =>
          thicken ((workBox bounds).minimum.get axis) ((workBox bounds).maximum.get axis))) ::
        ((headCall stops).flatMap Entry.lines ++ places.flatMap Place.lines ++
          Entry.lines (.closing (String.ofList job.options.name))) := by
    simp [Printout.lines, Printout.headLines, blankEntries, Entry.lines, workBox]
  rw [hlines]
  obtain ⟨hlow, hhigh⟩ := blankNumber_head
  refine ⟨hlow, hhigh.trans ?_⟩
  rw [Point.get_tabulate]

/-! ## Thickness -/

/-- Whether the blank extends between two numbers as they are printed. Where the box is flat, this
is whether a unit is not lost in the size of the number; elsewhere, whether the two numbers are
rounded to two thousandths. -/
def Extends (lo hi : Float) : Prop :=
  if hi - lo < 1e-6 then lo < lo + 1.0
  else ∀ r, RoundedTo coordinatePlaces (exactValue lo) r →
    ¬ RoundedTo coordinatePlaces (exactValue hi) r

/-- A box that is found flat is less than a unit thick. -/
theorem exactValue_le_of_flat (hlo : IsFinite lo) (hhi : IsFinite hi) (h : hi - lo < 1e-6) :
    exactValue hi ≤ exactValue lo + 1 := by
  by_contra hthick
  have hpos : 0.0 < hi - lo := Number.sub_pos hhi hlo (by linarith)
  have hlimit : IsFinite 1e-6 := by decide
  have hfinite := isFinite_of_pos_of_lt hpos hlimit h
  have hhalf : exactValue 1e-6 ≤ 1 / 2 := by
    have hvalue : exactValue 0.5 = 1 / 2 := by
      rw [exactValue_of_ratio (2 ^ 52) (2 ^ 53) (by decide) (by decide)]
      norm_num
    rw [← hvalue]
    exact exactValue_le hlimit (by decide) (by decide)
  have hless := (lt_iff_exactValue hfinite hlimit).1 h
  have hsign : 0 < exactValue (hi - lo) := by
    rw [← exactValue_zero]
    exact (lt_iff_exactValue (by decide) hfinite).1 hpos
  have hnear := abs_le.1 (exactValue_sub hfinite)
  rw [abs_of_pos hsign] at hnear
  linarith

/-- A unit more is a double, and not below any that is at most a unit greater. -/
theorem add_one_spec (hlo : IsFinite lo) (hhi : IsFinite hi)
    (h : exactValue hi ≤ exactValue lo + 1) :
    IsFinite (lo + 1.0) ∧ exactValue hi ≤ exactValue (lo + 1.0) := by
  have hone : IsFinite 1.0 := by decide
  have hfinite : IsFinite (lo + 1.0) := by
    refine isFinite_add hlo hone ?_
    rw [exactValue_one]
    norm_num
  refine ⟨hfinite, ?_⟩
  have hnearest := add_nearest hlo hone hfinite hhi
  rw [exactValue_one, abs_of_nonpos (by linarith : exactValue hi - (exactValue lo + 1) ≤ 0)]
    at hnearest
  linarith [(abs_le.1 hnearest).1]

/-- The greater corner of the blank is a double, and not below the box. -/
theorem thicken_spec (hlo : IsFinite lo) (hhi : IsFinite hi) :
    IsFinite (thicken lo hi) ∧ exactValue hi ≤ exactValue (thicken lo hi) := by
  rw [thicken]
  split_ifs with hflat
  · exact add_one_spec hlo hhi (exactValue_le_of_flat hlo hhi hflat)
  · exact ⟨hhi, le_rfl⟩

/-- Unless it is lost, a unit more is more than a thousandth. -/
theorem add_one_gap (hlo : IsFinite lo) (h : lo < lo + 1.0) :
    exactValue lo + 1 / 1000 < exactValue (lo + 1.0) := by
  have hone : IsFinite 1.0 := by decide
  have hfinite := (add_one_spec hlo hlo (by linarith)).1
  have hless := (lt_iff_exactValue hlo hfinite).1 h
  by_contra hnarrow
  have hgap : |exactValue (lo + 1.0) - exactValue lo| ≤ 1 / 1000 := by
    rw [abs_of_pos (by linarith)]
    linarith [Rat.not_lt.1 hnarrow]
  -- then the numbers are so large that none but whole ones are doubles
  have hlarge : 2 ^ 52 + 1 ≤ |exactValue (lo + 1.0)| := by
    have hnear := exactValue_add hlo hone hfinite
    rw [exactValue_one, le_div_iff₀ (by positivity)] at hnear
    have hfar : 999 / 1000 ≤ |exactValue (lo + 1.0) - (exactValue lo + 1)| := by
      rw [abs_sub_comm]
      refine le_trans ?_ (le_abs_self _)
      linarith [(abs_le.1 hgap).2]
    linarith
  have hlarge' : 2 ^ 52 ≤ |exactValue lo| := by
    have htriangle := abs_sub_abs_le_abs_sub (exactValue (lo + 1.0)) (exactValue lo)
    linarith
  have hgrid : OnGrid 52 (exactValue (lo + 1.0)) :=
    hfinite.isDouble.onGrid (le_trans (by norm_num) hlarge)
  have hgrid' : OnGrid 52 (exactValue lo) := hlo.isDouble.onGrid (by exact_mod_cast hlarge')
  have hsame := hgrid.le_of_lt_step hgrid' (by
    norm_num
    linarith [(abs_le.1 hgap).2])
  linarith

/-- The corners of the blank are printed as two numbers exactly where it extends. -/
theorem extends_iff (hlo : IsFinite lo) (hhi : IsFinite hi) (hle : exactValue lo ≤ exactValue hi)
    {q r : ℚ} (hq : RoundedTo coordinatePlaces (exactValue lo) q)
    (hr : RoundedTo coordinatePlaces (exactValue (thicken lo hi)) r) : q < r ↔ Extends lo hi := by
  rw [Extends]
  rw [thicken] at hr
  split_ifs at hr ⊢ with hflat
  · obtain ⟨hfinite, habove⟩ := add_one_spec hlo hhi (exactValue_le_of_flat hlo hhi hflat)
    constructor
    · intro hless
      rw [lt_iff_exactValue hlo hfinite]
      refine lt_of_le_of_ne (hle.trans habove) fun hsame => ?_
      rw [← hsame] at hr
      exact hless.ne (hq.unique hr)
    · intro hless
      refine hq.lt_of_gap hr ?_
      norm_num [coordinatePlaces]
      linarith [add_one_gap hlo hless]
  · constructor
    · intro hless r' hq' hr'
      rw [hq.unique hq', hr.unique hr'] at hless
      exact lt_irrefl _ hless
    · intro hapart
      refine lt_of_le_of_ne (hq.mono hr hle) ?_
      rintro rfl
      exact hapart q hq hr

/-! ## The blank -/

/-- The box of a toolpath is that of its points. -/
theorem bounds_ofText {text : String} {settings : Settings} {t : Toolpath}
    (h : Toolpath.ofText text settings = .ok t) :
    t.bounds = Bounds.ofPoints? (t.points.map Waypoint.position) := by
  rw [Toolpath.ofText, map_eq_ok] at h
  obtain ⟨ps, -, rfl⟩ := h
  rfl

theorem boundsOf_ofText {bounds : Option Bounds} {t : Toolpath} (h : boundsOf ls = .ok bounds)
    (ht : Toolpath.ofText (Text.joinLines ls) .standard = .ok t) :
    Bounds.ofPoints? (t.points.map Waypoint.position) = bounds := by
  rw [boundsOf, ht] at h
  rw [← bounds_ofText ht]
  exact Except.ok.inj h

/-- On an axis where it is finite the box of a program holds all points of its toolpath. -/
theorem workBox_spec {bounds : Option Bounds} (h : boundsOf ls = .ok bounds)
    (hmin : IsFinite ((workBox bounds).minimum.get a))
    (hmax : IsFinite ((workBox bounds).maximum.get a)) :
    exactValue ((workBox bounds).minimum.get a) ≤ exactValue ((workBox bounds).maximum.get a) ∧
      ∀ t, Toolpath.ofText (Text.joinLines ls) .standard = .ok t → ∀ w ∈ t.points,
        IsFinite (w.position.get a) ∧
          exactValue ((workBox bounds).minimum.get a) ≤ exactValue (w.position.get a) ∧
          exactValue (w.position.get a) ≤ exactValue ((workBox bounds).maximum.get a) := by
  cases bounds with
  | none =>
    refine ⟨le_rfl, fun t ht w hw => ?_⟩
    have hnone := boundsOf_ofText h ht
    cases hpoints : t.points with
    | nil =>
      rw [hpoints] at hw
      cases hw
    | cons v vs =>
      rw [hpoints] at hnone
      cases hnone
  | some box =>
    have hpoints {t : Toolpath} (ht : Toolpath.ofText (Text.joinLines ls) .standard = .ok t) :=
      Bounds.ofPoints_spec (boundsOf_ofText h ht) hmin hmax
    refine ⟨?_, fun t ht w hw => (hpoints ht).2 _ (List.mem_map_of_mem hw)⟩
    cases hpath : Toolpath.ofText (Text.joinLines ls) .standard with
    | ok t => exact (hpoints hpath).1
    | error fault =>
      rw [boundsOf, hpath] at h
      cases fault <;> cases h

/-- The numbers of the blank on an axis are different exactly where the box of the toolpath extends,
and no point of the toolpath is outside by more than half of their last digit. -/
theorem conversion_blank_extent {bounds : Option Bounds}
    (h : (Rule.conversationalFormat job ls).result = .ok output)
    (hblocks : isConversational ls = false) (hbounds : boundsOf ls = .ok bounds) (a : Axis)
    (hmin : IsFinite ((workBox bounds).minimum.get a))
    (hmax : IsFinite ((workBox bounds).maximum.get a)) :
    ∃ lo hi, blankNumber? "0.1" a (dropNumbers output) = some lo ∧
      blankNumber? "0.2" a (dropNumbers output) = some hi ∧
      (lo < hi ↔
        Extends ((workBox bounds).minimum.get a) ((workBox bounds).maximum.get a)) ∧
      ∀ t, Toolpath.ofText (Text.joinLines ls) .standard = .ok t → ∀ w ∈ t.points,
        IsFinite (w.position.get a) ∧ lo - 1 / 2000 ≤ exactValue (w.position.get a) ∧
          exactValue (w.position.get a) ≤ hi + 1 / 2000 := by
  obtain ⟨p, hp, hlines⟩ := conversationalFormat_printout h hblocks
  obtain ⟨hlow, hhigh⟩ := Printout.blankNumber_lines (a := a) hp hbounds
  obtain ⟨hle, hinside⟩ := workBox_spec hbounds hmin hmax
  obtain ⟨hthick, habove⟩ := thicken_spec hmin hmax
  obtain ⟨lo, hlo⟩ := Option.isSome_iff_exists.1 (reading_isSome_iff.2 hmin)
  obtain ⟨hi, hhi⟩ := Option.isSome_iff_exists.1 (reading_isSome_iff.2 hthick)
  have hextends := extends_iff hmin hmax hle (reading_roundedTo hlo).2 (reading_roundedTo hhi).2
  refine ⟨lo, hi, ?_, ?_, hextends, ?_⟩
  · rw [hlines, hlow, hlo]
  · rw [hlines, hhigh, hhi]
  · intro t ht w hw
    obtain ⟨hfinite, hfrom, hto⟩ := hinside t ht w hw
    have hnear := abs_le.1 (reading_near hlo).2
    have hnear' := abs_le.1 (reading_near hhi).2
    exact ⟨hfinite, by linarith, by linarith⟩

/-- Two positions a fifth of a thousandth apart, on either side of a half. -/
theorem conversion_blank_extent_narrow : ∃ output bounds lo hi,
    (Rule.conversationalFormat plainJob
        ["T1", "G0 X0.0004 Y-2.5", "G1 X0.0006 Z-1 F100", "M30"]).result = .ok output ∧
      boundsOf ["T1", "G0 X0.0004 Y-2.5", "G1 X0.0006 Z-1 F100", "M30"] = .ok bounds ∧
      IsFinite ((workBox bounds).minimum.get .x) ∧ IsFinite ((workBox bounds).maximum.get .x) ∧
      blankNumber? "0.1" .x (dropNumbers output) = some lo ∧
      blankNumber? "0.2" .x (dropNumbers output) = some hi ∧ lo < hi ∧
      Extends ((workBox bounds).minimum.get .x) ((workBox bounds).maximum.get .x) := by
  obtain ⟨output, houtput⟩ := exists_eq_ok (x := (Rule.conversationalFormat plainJob
    ["T1", "G0 X0.0004 Y-2.5", "G1 X0.0006 Z-1 F100", "M30"]).result) (by decide +kernel)
  obtain ⟨bounds, hbounds⟩ := exists_eq_ok
    (x := boundsOf ["T1", "G0 X0.0004 Y-2.5", "G1 X0.0006 Z-1 F100", "M30"]) (by decide +kernel)
  have hfinite : (boundsOf
      ["T1", "G0 X0.0004 Y-2.5", "G1 X0.0006 Z-1 F100", "M30"]).toOption.all (fun bounds =>
        decide (IsFinite ((workBox bounds).minimum.get .x) ∧
          IsFinite ((workBox bounds).maximum.get .x))) = true := by decide +kernel
  have hread : (Rule.conversationalFormat plainJob
      ["T1", "G0 X0.0004 Y-2.5", "G1 X0.0006 Z-1 F100", "M30"]).result.toOption.all (fun output =>
        blankNumber? "0.1" .x (dropNumbers output) == some 0 &&
          blankNumber? "0.2" .x (dropNumbers output) == some (1 / 1000)) = true := by
    decide +kernel
  rw [hbounds, Except.toOption, Option.all_some, decide_eq_true_eq] at hfinite
  rw [houtput, Except.toOption, Option.all_some, Bool.and_eq_true, beq_iff_eq, beq_iff_eq] at hread
  obtain ⟨lo, hi, hlo, hhi, hextends, -⟩ :=
    conversion_blank_extent houtput (by decide +kernel) hbounds .x hfinite.1 hfinite.2
  have hless : lo < hi := by
    rw [hread.1, Option.some.injEq] at hlo
    rw [hread.2, Option.some.injEq] at hhi
    rw [← hlo, ← hhi]
    norm_num
  exact ⟨output, bounds, lo, hi, houtput, hbounds, hfinite.1, hfinite.2, hlo, hhi, hless,
    hextends.1 hless⟩

/-- A tenth of a thousandth is not flat, and printed as none. -/
theorem conversion_blank_no_volume :
    ¬ ∀ job ls output bounds, (Rule.conversationalFormat job ls).result = .ok output →
      isConversational ls = false → boundsOf ls = .ok bounds →
      (∀ a, IsFinite ((workBox bounds).minimum.get a) ∧
        IsFinite ((workBox bounds).maximum.get a)) →
      ∀ a, ∃ lo hi, blankNumber? "0.1" a (dropNumbers output) = some lo ∧
        blankNumber? "0.2" a (dropNumbers output) = some hi ∧ lo < hi := by
  intro hclaim
  obtain ⟨output, houtput⟩ := exists_eq_ok (x := (Rule.conversationalFormat plainJob
    ["T1", "G0 X0 Y0 Z0", "G1 X0.0001 F100", "M30"]).result) (by decide +kernel)
  obtain ⟨bounds, hbounds⟩ := exists_eq_ok
    (x := boundsOf ["T1", "G0 X0 Y0 Z0", "G1 X0.0001 F100", "M30"]) (by decide +kernel)
  have hfinite : (boundsOf ["T1", "G0 X0 Y0 Z0", "G1 X0.0001 F100", "M30"]).toOption.all
      (fun bounds => Axis.all.all fun a => decide (IsFinite ((workBox bounds).minimum.get a) ∧
        IsFinite ((workBox bounds).maximum.get a))) = true := by decide +kernel
  have hread : (Rule.conversationalFormat plainJob
      ["T1", "G0 X0 Y0 Z0", "G1 X0.0001 F100", "M30"]).result.toOption.all (fun output =>
        blankNumber? "0.1" .x (dropNumbers output) == some 0 &&
          blankNumber? "0.2" .x (dropNumbers output) == some 0) = true := by decide +kernel
  rw [hbounds, Except.toOption, Option.all_some, List.all_eq_true] at hfinite
  rw [houtput, Except.toOption, Option.all_some, Bool.and_eq_true, beq_iff_eq, beq_iff_eq] at hread
  obtain ⟨lo, hi, hlo, hhi, hless⟩ := hclaim _ _ _ _ houtput (by decide +kernel) hbounds
    (fun a => of_decide_eq_true (hfinite a (by cases a <;> decide))) .x
  rw [hread.1, Option.some.injEq] at hlo
  rw [hread.2, Option.some.injEq] at hhi
  rw [← hlo, ← hhi] at hless
  exact lt_irrefl _ hless

end PartProgram.Conversational

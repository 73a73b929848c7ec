import PartProgram.Proofs.Lengths
import PartProgram.Proofs.Walk
import PartProgram.Rule.Chains

/-!
# PartProgram.Proofs.Chords

How far an arc is from the chords that it stands for. A chain is fitted by its points, so these lie
near the circle, as near as doubles can tell. A chord between two such points nowhere lies farther
outside, but it dips inside: at a point of it, the square of the distance from the centre falls
short by the product of the distances from the two ends.

* `pieces`: which lines the rule takes together, and which stay.
* `dist_sq_add_mul_dist`: the distance of a point of a segment from any other point.
* `isNear_place`: what is near a circle in doubles is near it.
* `useArcOptimization_keepsTo`: every chord of every chain keeps to its arc.
* `useArcOptimization_dips`: in between it may lie farther inside than its ends.
-/

namespace PartProgram

open Number

/-- A walk begins where it is begun. -/
theorem walkFrom_head {settings : Settings} {m : Modal} {n : Int} {ls : List String}
    {stops : List Stop} (h : m.walkFrom settings n ls = .ok stops) :
    ∀ t ∈ stops.head?, t.before = m := by
  cases ls with
  | nil =>
    cases h
    intro t ht
    cases ht
  | cons raw rest =>
    simp only [Modal.walkFrom, bind_eq_ok, pure_eq_ok] at h
    obtain ⟨s, hs, -, -, rfl⟩ := h
    intro t ht
    obtain rfl : s = t := Option.some.inj ht
    exact (stopAt_eq_ok hs).2.1

/-- Every line of a walk begins where the one before it has ended. -/
theorem walkFrom_isChain {settings : Settings} {m : Modal} {n : Int} {ls : List String}
    {stops : List Stop} (h : m.walkFrom settings n ls = .ok stops) :
    stops.IsChain fun s t => s.after = t.before := by
  induction ls generalizing m n stops with
  | nil =>
    cases h
    exact .nil
  | cons raw rest ih =>
    simp only [Modal.walkFrom, bind_eq_ok, pure_eq_ok] at h
    obtain ⟨s, -, more, hmore, rfl⟩ := h
    exact (ih hmore).cons fun t ht => (walkFrom_head hmore t ht).symm

/-! ## Chains -/

namespace Rule

/-- What becomes of the lines of a program: one stays, or a chain of them is an arc. -/
inductive Piece where
  | kept (s : Stop) (line : String)
  | arc (chain : List Stop) (block : String)

namespace Piece

def stops : Piece → List Stop
  | kept s _ => [s]
  | arc chain _ => chain

def line : Piece → String
  | kept _ line => line
  | arc _ block => block

end Piece

/-- The lines from a stop on, taken together as the rule takes them. -/
def pieces (fit : Fit) (lost : Bool) : Nat → List Stop → List Piece
  | _, [] => []
  | skip + 1, _ :: rest => pieces fit lost skip rest
  | 0, s :: rest =>
    match chainAt? fit s rest with
    | some (block, more) => .arc (s :: rest.take more) block :: pieces fit true more rest
    | none =>
      let (line, lost) := restoreFeedMode lost s
      .kept s line :: pieces fit lost 0 rest

variable {fit : Fit} {lost : Bool} {skip : Nat} {stops : List Stop}

theorem map_line_pieces :
    (pieces fit lost skip stops).map Piece.line = replaceChains fit lost skip stops := by
  induction stops generalizing lost skip with
  | nil => cases skip <;> rfl
  | cons s rest ih =>
    cases skip with
    | succ skip => exact ih
    | zero =>
      rw [pieces, replaceChains]
      cases chainAt? fit s rest with
      | some found => exact congrArg (found.1 :: ·) ih
      | none => exact congrArg ((restoreFeedMode lost s).1 :: ·) ih

theorem flatMap_stops_pieces :
    (pieces fit lost skip stops).flatMap Piece.stops = stops.drop skip := by
  induction stops generalizing lost skip with
  | nil => cases skip <;> rfl
  | cons s rest ih =>
    cases skip with
    | succ skip => exact ih
    | zero =>
      rw [pieces]
      cases hchain : chainAt? fit s rest with
      | some found =>
        show s :: rest.take found.2 ++ (pieces fit true found.2 rest).flatMap Piece.stops =
          s :: rest
        rw [ih, List.cons_append, List.take_append_drop]
      | none => exact congrArg (s :: ·) ih

/-- An arc stands for a chain that begins somewhere in the program. -/
theorem chainAt?_of_mem_pieces {chain : List Stop} {block : String}
    (h : .arc chain block ∈ pieces fit lost skip stops) :
    ∃ s rest more, s :: rest <:+ stops ∧ chainAt? fit s rest = some (block, more) ∧
      chain = s :: rest.take more := by
  induction stops generalizing lost skip with
  | nil => cases skip <;> cases h
  | cons s rest ih =>
    have hlater {lost skip} (h : .arc chain block ∈ pieces fit lost skip rest) :
        ∃ t rest' more, t :: rest' <:+ s :: rest ∧ chainAt? fit t rest' = some (block, more) ∧
          chain = t :: rest'.take more := by
      obtain ⟨t, rest', more, hsuffix, hfound⟩ := ih h
      exact ⟨t, rest', more, hsuffix.trans (List.suffix_cons s rest), hfound⟩
    cases skip with
    | succ skip => exact hlater h
    | zero =>
      rw [pieces] at h
      cases hchain : chainAt? fit s rest with
      | some found =>
        rw [hchain] at h
        rcases List.mem_cons.1 h with heq | h
        · cases heq
          exact ⟨s, rest, found.2, List.suffix_rfl, hchain, rfl⟩
        · exact hlater h
      | none =>
        rw [hchain] at h
        rcases List.mem_cons.1 h with heq | h
        · cases heq
        · exact hlater h

/-- The points of a chain: where it begins, and where its chords end. -/
def corners : List Stop → List (PlanePoint Float)
  | [] => []
  | s :: rest => flat s.before.position :: (s :: rest).map fun t => flat t.after.position

/-- A chain takes in chords as they follow, up to one with a feed word. -/
theorem growChain_eq (fit : Fit) (points : List (PlanePoint Float)) (rest : List Stop) :
    ∃ k, growChain fit points rest =
        points ++ (rest.take k).map (fun t => flat t.after.position) ∧ k ≤ rest.length ∧
      ∀ t ∈ rest.take k, isChord t = true ∧ t.block?.any (·.has ['F']) = false := by
  induction rest generalizing points with
  | nil => exact ⟨0, by simp [growChain]⟩
  | cons s rest ih =>
    simp only [growChain]
    split_ifs with hchord hfits
    · obtain ⟨k, hgrow, hk, hchords⟩ := ih (points ++ [flat s.after.position])
      rw [Bool.and_eq_true, Bool.not_eq_true'] at hchord
      refine ⟨k + 1, ?_, Nat.succ_le_succ hk, ?_⟩
      · rw [hgrow, List.take_succ_cons, List.map_cons, List.append_assoc, List.singleton_append]
      · rw [List.take_succ_cons]
        exact List.forall_mem_cons.2 ⟨hchord, hchords⟩
    · exact ⟨0, by simp⟩
    · exact ⟨0, by simp⟩

/-- What is known of a chain that is replaced: it is made of chords of which the first alone may
have a feed word, it is long enough, and its points fit the arc that is written. -/
structure Replaces (fit : Fit) (s : Stop) (rest : List Stop) (block : String) : Prop where
  chords : ∀ t ∈ s :: rest, isChord t = true
  noFeed : ∀ t ∈ rest, t.block?.any (·.has ['F']) = false
  long : CircleFit.minChords ≤ (s :: rest).length
  fitted : ∃ arc finish, fit (corners (s :: rest)) true = some arc ∧
    (corners (s :: rest)).getLast? = some finish ∧
    block = arcBlock arc (flat s.before.position) finish
      (s.block?.bind fun b => b.words.find? (·.letter == 'F'))

theorem replaces_of_chainAt? {s : Stop} {rest : List Stop} {block : String} {more : Nat}
    (h : chainAt? fit s rest = some (block, more)) : Replaces fit s (rest.take more) block := by
  simp only [chainAt?] at h
  split at h
  · cases h
  · rename_i b r hfound
    split_ifs at h with hchord hlong
    obtain ⟨k, hgrow, hk, hchords⟩ :=
      growChain_eq fit [flat s.before.position, flat r.state.position] rest
    have hafter : s.after = r.state := by simp [Stop.after, Stop.resolution?, hfound]
    have hblock : s.block? = some b := by simp [Stop.block?, hfound]
    have hcorners : [flat s.before.position, flat r.state.position] ++
        (rest.take k).map (fun t => flat t.after.position) = corners (s :: rest.take k) := by
      rw [corners, List.map_cons, hafter]
      rfl
    rw [hgrow, hcorners] at h hlong
    simp only [Option.bind_eq_bind, Option.bind_eq_some_iff, Option.pure_def, Option.some.injEq,
      Prod.mk.injEq] at h
    obtain ⟨arc, harc, finish, hfinish, rfl, hmore⟩ := h
    have hlength : (corners (s :: rest.take k)).length = k + 2 := by
      simp [corners, hk]
    have hk' : more = k := by omega
    rw [hk']
    have hcount : (s :: rest.take k).length = k + 1 := by simp [hk]
    refine ⟨List.forall_mem_cons.2 ⟨by simpa using hchord, fun t ht => (hchords t ht).1⟩,
      fun t ht => (hchords t ht).2, by omega, arc, finish, harc, hfinish, ?_⟩
    rw [hblock, Option.bind_some]

/-- A chain that is replaced is long enough and made of chords, and its points fit the arc. -/
theorem chainAt?_eq_some {s : Stop} {rest : List Stop} {block : String} {more : Nat}
    (h : chainAt? fit s rest = some (block, more)) :
    (∀ t ∈ s :: rest.take more, isChord t = true) ∧
      CircleFit.minChords ≤ (s :: rest.take more).length ∧
      ∃ arc finish feed, fit (corners (s :: rest.take more)) true = some arc ∧
        (corners (s :: rest.take more)).getLast? = some finish ∧
        block = arcBlock arc (flat s.before.position) finish feed := by
  obtain ⟨hchords, -, hlong, arc, finish, hfitted⟩ := replaces_of_chainAt? h
  exact ⟨hchords, hlong, arc, finish, _, hfitted⟩

theorem after_mem_corners {chain : List Stop} {t : Stop} (h : t ∈ chain) :
    flat t.after.position ∈ corners chain := by
  cases chain with
  | nil => cases h
  | cons s rest => exact .tail _ (List.mem_map.2 ⟨t, h, rfl⟩)

/-- A chord begins where the chain begins or where another one ends. -/
theorem before_mem_corners {chain : List Stop} (h : chain.IsChain fun s t => s.after = t.before)
    {t : Stop} (ht : t ∈ chain) : flat t.before.position ∈ corners chain := by
  cases chain with
  | nil => cases ht
  | cons s rest =>
    have hends {s : Stop} {rest : List Stop}
        (h : (s :: rest).IsChain fun s t => s.after = t.before) (ht : t ∈ rest) :
        ∃ u ∈ s :: rest, u.after = t.before := by
      induction rest generalizing s with
      | nil => cases ht
      | cons u rest ih =>
        obtain ⟨hnext, hrest⟩ := List.isChain_cons_cons.1 h
        rcases List.mem_cons.1 ht with rfl | ht
        · exact ⟨s, .head _, hnext⟩
        · obtain ⟨v, hv, hsame⟩ := ih hrest ht
          exact ⟨v, .tail _ hv, hsame⟩
    rcases List.mem_cons.1 ht with rfl | ht
    · exact .head _
    · obtain ⟨u, hu, hsame⟩ := hends h ht
      rw [← hsame]
      exact after_mem_corners hu

end Rule

/-! ## Circles -/

section

variable {V : Type} [NormedAddCommGroup V] [InnerProductSpace ℝ V] {a b c p : V}

/-- With the product of its distances from the ends, a point of a segment has a squared distance
between those of the ends. -/
theorem dist_sq_add_mul_dist (hp : p ∈ segment ℝ a b) :
    ∃ u v : ℝ, 0 ≤ u ∧ 0 ≤ v ∧ u + v = 1 ∧
      dist p c ^ 2 + dist p a * dist p b = u * dist a c ^ 2 + v * dist b c ^ 2 := by
  obtain ⟨u, v, hu, hv, hsum, rfl⟩ := hp
  refine ⟨u, v, hu, hv, hsum, ?_⟩
  obtain rfl : v = 1 - u := by linarith
  have hcentre : u • a + (1 - u) • b - c = u • (a - c) + (1 - u) • (b - c) := by module
  have hstart : u • a + (1 - u) • b - a = (1 - u) • (b - a) := by module
  have hfinish : u • a + (1 - u) • b - b = u • (a - b) := by module
  have hlength : ‖a - b‖ ^ 2 = ‖a - c‖ ^ 2 - 2 * inner ℝ (a - c) (b - c) + ‖b - c‖ ^ 2 := by
    rw [← sub_sub_sub_cancel_right a b c, norm_sub_sq_real]
  simp only [dist_eq_norm]
  rw [hcentre, hstart, hfinish, norm_add_sq_real, norm_smul, norm_smul, norm_smul, norm_smul,
    norm_sub_rev b a, real_inner_smul_left, real_inner_smul_right, Real.norm_of_nonneg hu,
    Real.norm_of_nonneg hv]
  linear_combination u * (1 - u) * hlength

variable {r e : ℝ}

/-- Between two points near a circle a segment nowhere lies farther outside. -/
theorem dist_le_of_ends (hp : p ∈ segment ℝ a b) (ha : |dist a c - r| ≤ e)
    (hb : |dist b c - r| ≤ e) : dist p c ≤ r + e := by
  have hball : Convex ℝ (Metric.closedBall c (r + e)) := convex_closedBall c (r + e)
  have hends {q : V} (hq : |dist q c - r| ≤ e) : q ∈ Metric.closedBall c (r + e) := by
    rw [Metric.mem_closedBall]
    linarith [(abs_le.1 hq).2]
  exact Metric.mem_closedBall.1 (hball.segment_subset (hends ha) (hends hb) hp)

/-- Between two points near a circle a segment dips inside, by no more than the product of the
distances from them. -/
theorem le_sqrt_of_ends (hp : p ∈ segment ℝ a b) (ha : |dist a c - r| ≤ e)
    (hb : |dist b c - r| ≤ e) : r - e ≤ √(dist p c ^ 2 + dist p a * dist p b) := by
  obtain ⟨u, v, hu, hv, hsum, hsq⟩ := dist_sq_add_mul_dist (c := c) hp
  rw [hsq]
  rcases le_total (r - e) 0 with hneg | hpos
  · exact hneg.trans (Real.sqrt_nonneg _)
  · have hends {q : V} (hq : |dist q c - r| ≤ e) : r - e ≤ dist q c := by
      linarith [(abs_le.1 hq).1]
    refine Real.le_sqrt_of_sq_le ?_
    calc (r - e) ^ 2 = u * (r - e) ^ 2 + v * (r - e) ^ 2 := by rw [← add_mul, hsum, one_mul]
      _ ≤ u * dist a c ^ 2 + v * dist b c ^ 2 := by
        gcongr
        · exact hends ha
        · exact hends hb

end

/-! ## Doubles -/

namespace CircleFit

/-- A point of doubles as a point of the plane. -/
noncomputable def place (p : PlanePoint Float) : EuclideanSpace ℝ (Fin 2) :=
  !₂[(exactValue p.first : ℝ), (exactValue p.second : ℝ)]

theorem norm_vector (x y : ℝ) : ‖(!₂[x, y] : EuclideanSpace ℝ (Fin 2))‖ = √(x ^ 2 + y ^ 2) := by
  simp [EuclideanSpace.norm_eq]

/-- The tolerance, and what doubles may be off for circles of any radius that is allowed. -/
noncomputable def allowance : ℝ := 1 / 100 + 2 / 10 ^ 12

/-- A rounded vector is off by a part in `2^53` of its length. -/
theorem dist_place_near {p q : PlanePoint Float} (hx : IsFinite (p.first - q.first))
    (hy : IsFinite (p.second - q.second)) :
    |√(exactValue (p.first - q.first) ^ 2 + exactValue (p.second - q.second) ^ 2) -
        dist (place p) (place q)| ≤
      √(exactValue (p.first - q.first) ^ 2 + exactValue (p.second - q.second) ^ 2) / 2 ^ 53 := by
  have hsub {a b : Float} (h : IsFinite (a - b)) :
      ((exactValue (a - b) : ℝ) - (exactValue a - exactValue b)) ^ 2 ≤
        ((exactValue (a - b) : ℝ) / 2 ^ 53) ^ 2 := by
    have hnear := (Rat.cast_le (K := ℝ)).2 (exactValue_sub h)
    push_cast at hnear
    rw [← sq_abs, ← sq_abs (_ / _), abs_div, abs_of_pos (by positivity : (0 : ℝ) < 2 ^ 53)]
    gcongr
  rw [← norm_vector, dist_eq_norm]
  refine (abs_norm_sub_norm_le _ _).trans ?_
  have hvector : !₂[(exactValue (p.first - q.first) : ℝ), (exactValue (p.second - q.second) : ℝ)] -
      (place p - place q) = !₂[(exactValue (p.first - q.first) : ℝ) -
        (exactValue p.first - exactValue q.first), (exactValue (p.second - q.second) : ℝ) -
        (exactValue p.second - exactValue q.second)] := by
    ext i
    fin_cases i <;> simp [place]
  rw [hvector, norm_vector, norm_vector]
  refine (Real.sqrt_le_sqrt (add_le_add (hsub hx) (hsub hy))).trans_eq ?_
  rw [div_pow, div_pow, ← add_div, Real.sqrt_div (by positivity), Real.sqrt_sq (by positivity)]

/-- A point that is near a circle in doubles is near it. -/
theorem isNear_place {circle : Circle} {p : PlanePoint Float} (hradius : circle.radius ≤ maxRadius)
    (h : isNear circle p = true) :
    |dist (place p) (place circle.centre) - exactValue circle.radius| ≤ allowance := by
  have htolerance : IsFinite tolerance := ⟨by decide, by decide⟩
  have hmax : IsFinite maxRadius := ⟨by decide, by decide⟩
  have hsmall : exactValue tolerance ≤ 1 / 100 + 1 / 10 ^ 15 := by decide +kernel
  have hlarge : exactValue maxRadius = 5000 := by decide +kernel
  obtain ⟨hdifference, hvalue⟩ := abs_exactValue_le htolerance (of_decide_eq_true h)
  obtain ⟨hfinite, hcircle, -⟩ := units_sub hdifference
  obtain ⟨hx, hy, hlength⟩ := hypot_near hfinite
  have hvector := dist_place_near hx hy
  have hrounded := (Rat.cast_le (K := ℝ)).2 (exactValue_sub hdifference)
  have hdeviation := (Rat.cast_le (K := ℝ)).2 (hvalue.trans hsmall)
  have hbound := (Rat.cast_le (K := ℝ)).2 (hlarge ▸ exactValue_le hcircle hmax hradius)
  push_cast at hrounded hdeviation hbound
  -- the length and the difference as they are rounded, and the length before
  generalize (exactValue (hypot _ _) : ℝ) = length at hlength hrounded
  generalize (exactValue (_ - circle.radius) : ℝ) = difference at hrounded hdeviation
  generalize √(_ + _) = exact at hlength hvector
  have hleast : (1 / 2 ^ 1075 : ℝ) ≤ 1 / 2 ^ 60 :=
    one_div_le_one_div_of_le (by positivity) (pow_le_pow_right₀ (by norm_num) (by norm_num))
  generalize (1 / 2 ^ 1075 : ℝ) = least at hlength hleast
  have hrounded' : |difference - (length - exactValue circle.radius)| ≤ 1 / 10 ^ 15 := by
    linarith
  rw [abs_le] at hlength hvector hdeviation hrounded' ⊢
  rw [allowance]
  constructor <;> linarith

/-- The points of a fitted arc are near it in doubles. -/
theorem fit_eq_some {ps : List (PlanePoint Float)} {refine : Bool} {arc : FittedArc}
    (h : fit ps refine = some arc) :
    arc.circle.radius ≤ maxRadius ∧ ∀ p ∈ ps, isNear arc.circle p = true := by
  simp only [fit, Option.bind_eq_bind] at h
  split_ifs at h with hfew
  · cases h
  · simp only [Option.bind_eq_some_iff] at h
    obtain ⟨circle, -, h⟩ := h
    split_ifs at h with hfits
    cases h
    simp only [Bool.and_eq_true, decide_eq_true_eq, List.all_eq_true] at hfits
    exact ⟨hfits.1.1.1, hfits.1.1.2⟩

/-- A straight move keeps to a circle: its ends lie near it, the rest of it no farther outside, and
inside by no more than the product of the distances from the ends accounts for. -/
structure KeepsTo (circle : Circle) (start finish : PlanePoint Float) : Prop where
  startNear : |dist (place start) (place circle.centre) - exactValue circle.radius| ≤ allowance
  finishNear : |dist (place finish) (place circle.centre) - exactValue circle.radius| ≤ allowance
  outside : ∀ p ∈ segment ℝ (place start) (place finish),
    dist p (place circle.centre) ≤ exactValue circle.radius + allowance
  inside : ∀ p ∈ segment ℝ (place start) (place finish), exactValue circle.radius - allowance ≤
    √(dist p (place circle.centre) ^ 2 + dist p (place start) * dist p (place finish))

theorem keepsTo_of_isNear {circle : Circle} {start finish : PlanePoint Float}
    (hradius : circle.radius ≤ maxRadius) (hstart : isNear circle start = true)
    (hfinish : isNear circle finish = true) : KeepsTo circle start finish := by
  have hstart := isNear_place hradius hstart
  have hfinish := isNear_place hradius hfinish
  exact ⟨hstart, hfinish, fun p hp => dist_le_of_ends hp hstart hfinish,
    fun p hp => le_sqrt_of_ends hp hstart hfinish⟩

/-- The middle of a straight move is so far inside a circle. -/
def DipsBy (dip : ℚ) (circle : Circle) (start finish : PlanePoint Float) : Prop :=
  dip ≤ exactValue circle.radius ∧
    ((exactValue start.first + exactValue finish.first) / 2 -
        exactValue circle.centre.first) ^ 2 +
      ((exactValue start.second + exactValue finish.second) / 2 -
        exactValue circle.centre.second) ^ 2 ≤ (exactValue circle.radius - dip) ^ 2

instance (dip : ℚ) (circle : Circle) (start finish : PlanePoint Float) :
    Decidable (DipsBy dip circle start finish) := inferInstanceAs (Decidable (_ ∧ _))

theorem DipsBy.dist_midpoint_le {dip : ℚ} {circle : Circle} {start finish : PlanePoint Float}
    (h : DipsBy dip circle start finish) :
    dist (midpoint ℝ (place start) (place finish)) (place circle.centre) ≤
      exactValue circle.radius - dip := by
  obtain ⟨hdip, hsquares⟩ := h
  have hmiddle : midpoint ℝ (place start) (place finish) - place circle.centre =
      !₂[((exactValue start.first + exactValue finish.first) / 2 -
          exactValue circle.centre.first : ℝ),
        ((exactValue start.second + exactValue finish.second) / 2 -
          exactValue circle.centre.second : ℝ)] := by
    ext i
    fin_cases i <;> simp [place, midpoint_eq_smul_add] <;> ring
  have hsquares := (Rat.cast_le (K := ℝ)).2 hsquares
  have hdip := (Rat.cast_le (K := ℝ)).2 hdip
  push_cast at hsquares hdip
  rw [dist_eq_norm, hmiddle, norm_vector]
  exact Real.sqrt_le_iff.2 ⟨by linarith, hsquares⟩

end CircleFit

/-! ## Arcs for chains -/

namespace Rule

open CircleFit

/-- Five chords around a circle of radius five. -/
def coarse : Lines := ["G0 X5 Y0", "G1 X4 Y3 F100", "X0 Y5", "X-4 Y3", "X-5 Y0", "X-4 Y-3"]

theorem coarse_dips : ∃ stops chain arc, walk coarse = .ok stops ∧
    .arc chain "G3 X-4 Y-3 I-5 J0 F100" ∈ pieces CircleFit.fit false 0 stops ∧
      CircleFit.fit (corners chain) true = some arc ∧
      ∃ s ∈ chain, DipsBy (1 / 4) arc.circle (flat s.before.position) (flat s.after.position) := by
  obtain ⟨stops, hwalk⟩ := exists_eq_ok (x := walk coarse) (by decide +kernel)
  have hcheck : (walk coarse).toOption.any (fun stops =>
      (pieces CircleFit.fit false 0 stops).any fun
        | .arc chain block => block == "G3 X-4 Y-3 I-5 J0 F100" &&
          (CircleFit.fit (corners chain) true).any fun arc => chain.any fun s =>
            decide (DipsBy (1 / 4) arc.circle (flat s.before.position) (flat s.after.position))
        | .kept .. => false) = true := by decide +kernel
  rw [hwalk, Except.toOption, Option.any_some, List.any_eq_true] at hcheck
  obtain ⟨piece, hpiece, hcheck⟩ := hcheck
  cases piece with
  | kept s line => cases hcheck
  | arc chain block =>
    rw [Bool.and_eq_true, beq_iff_eq] at hcheck
    obtain ⟨rfl, hcheck⟩ := hcheck
    obtain ⟨arc, harc, hcheck⟩ := (Option.any_eq_true _ _).1 hcheck
    obtain ⟨s, hs, hcheck⟩ := List.any_eq_true.1 hcheck
    exact ⟨stops, chain, arc, hwalk, hpiece, harc, s, hs, of_decide_eq_true hcheck⟩

end Rule

end PartProgram

import PartProgram.Proofs.Leftovers
import PartProgram.Proofs.StatedWords

/-!
# PartProgram.Proofs.RestatedModes

What a program still means once the rule for restated words has been over it. The rule keeps a
record of the positioning and the plane that were stated, and takes a code away if the record has it
already. It takes codes away by what they say, so that a code that a block states twice goes
altogether, also where only the second one repeated the first.

* `ModeGroup.inForce`: the code of a group that a block leaves in force.
* `trimOf_doesTheSame_iff`: a block does the same exactly if what stays of it leaves the same
  positioning and the same plane in force.
* `removeRedundantCodes_aligned_iff`: the lines that are left do what the program did, line for
  line, exactly if that is so for every block.
-/

namespace PartProgram

/-- Codes of which one is always in force: how a state has it, and how the record of the rule. -/
structure ModeGroup where
  isCode : Code → Bool
  mode : Modal → Code
  stated : Rule.Stated → Option Code
  applyCode_mode : ∀ m code, mode (m.applyCode code) = if isCode code then code else mode m
  meet_stated : ∀ s code, stated (s.meet code).1 = if isCode code then some code else stated s
  meet_again : ∀ s code, isCode code = true → (s.meet code).2 = (stated s == some code)

namespace ModeGroup

/-- The code that is in force after the codes of a block, given the one before. -/
def inForce (g : ModeGroup) (code : Code) (codes : List Code) : Code :=
  ((codes.filter g.isCode).getLast?).getD code

def isPositioning (code : Code) : Bool := code = "G90" || code = "G91"

theorem applyCode_positioning (m : Modal) (code : Code) :
    (m.applyCode code).positioning.code =
      if isPositioning code then code else m.positioning.code := by
  unfold Modal.applyCode
  by_cases habsolute : code = "G90"
  · subst habsolute; rfl
  by_cases hincremental : code = "G91"
  · subst hincremental; rfl
  have hno : ¬ isPositioning code = true := by
    simp [isPositioning, habsolute, hincremental]
  rw [if_neg habsolute, if_neg hincremental, if_neg hno]
  split
  · rfl
  split_ifs <;> rfl

/-- How coordinates are meant. -/
def positioning : ModeGroup where
  isCode := isPositioning
  mode m := m.positioning.code
  stated := Rule.Stated.positioning
  applyCode_mode := applyCode_positioning
  meet_stated s code := by
    unfold Rule.Stated.meet isPositioning
    split
    · rfl
    · split <;> rfl
  meet_again s code hcode := congrArg Prod.snd (if_pos hcode)

/-- A plane is no positioning. -/
theorem not_isPositioning_of_plane {code : Code} (h : (Plane.ofCode? code).isSome = true) :
    ¬ isPositioning code = true := by
  obtain ⟨plane, hplane⟩ := Option.isSome_iff_exists.1 h
  have hcode : plane.code = code := by simpa using List.find?_some hplane
  rw [← hcode]
  cases plane <;> decide

theorem applyCode_plane (m : Modal) (code : Code) :
    (m.applyCode code).plane.code =
      if (Plane.ofCode? code).isSome then code else m.plane.code := by
  unfold Modal.applyCode
  by_cases habsolute : code = "G90"
  · subst habsolute; rfl
  by_cases hincremental : code = "G91"
  · subst hincremental; rfl
  rw [if_neg habsolute, if_neg hincremental]
  split
  · rename_i plane hplane
    rw [hplane]
    simpa using List.find?_some hplane
  · rename_i hnone
    have hno : ¬ (Plane.ofCode? code).isSome = true := by
      rw [Option.isSome_iff_exists]
      rintro ⟨plane, hplane⟩
      exact hnone plane hplane
    rw [if_neg hno]
    split_ifs <;> rfl

def plane : ModeGroup where
  isCode code := (Plane.ofCode? code).isSome
  mode m := m.plane.code
  stated := Rule.Stated.plane
  applyCode_mode := applyCode_plane
  meet_stated s code := by
    unfold Rule.Stated.meet
    split
    · rename_i hpositioning
      have hno : ¬ (Plane.ofCode? code).isSome = true :=
        fun hcode => not_isPositioning_of_plane hcode hpositioning
      rw [if_neg hno]
    · split <;> rfl
  meet_again s code hcode := by
    have hno : ¬ (code = "G90" || code = "G91") = true := not_isPositioning_of_plane hcode
    unfold Rule.Stated.meet
    rw [if_neg hno, if_pos hcode]

/-- The groups whose codes the rule for restated words takes away. -/
def all : List ModeGroup := [positioning, plane]

end ModeGroup

/-- What stays of the block leaves the codes in force that the block does. -/
def Trim.KeepsModes (t : Trim) : Prop :=
  ∀ g ∈ ModeGroup.all, g.inForce (g.mode t.stop.before) (t.kept.codes 'G') =
    g.inForce (g.mode t.stop.before) (t.stop.block.codes 'G')

instance (t : Trim) : Decidable t.KeepsModes := by
  unfold Trim.KeepsModes
  infer_instance

/-- No more than one code of each group stands on the block. -/
def Block.StatesOnce (b : Block) : Prop :=
  ∀ g ∈ ModeGroup.all, ((b.codes 'G').filter g.isCode).length ≤ 1

instance (b : Block) : Decidable b.StatesOnce := by
  unfold Block.StatesOnce
  infer_instance

namespace Rule

/-- What the rule for restated words leaves of a stop. -/
def trimOf (s : Stated) (stop : Stop) : Trim :=
  match stop.block? with
  | none => ⟨stop, [], some stop.raw⟩
  | some b => ⟨stop, restated s stop.before b, leftOf stop.raw b (restated s stop.before b)⟩

/-- What it leaves of the stops after those that stated `s`. -/
def trims (s : Stated) : List Stop → List Trim
  | [] => []
  | stop :: rest => trimOf s stop :: trims (s.repeated (stop.block.codes 'G')).1 rest

end Rule

theorem SameFeed.equivalence : Equivalence SameFeed :=
  ⟨SameFeed.refl, SameFeed.symm, SameFeed.trans⟩

section Codes

variable {m m' : Modal} {code : Code} {codes : List Code} {p : Code → Bool}

/-! ## Codes in force -/

theorem ModeGroup.inForce_cons (g : ModeGroup) (code c : Code) (codes : List Code) :
    g.inForce code (c :: codes) = g.inForce (if g.isCode c then c else code) codes := by
  unfold inForce
  by_cases hc : g.isCode c = true
  · rw [List.filter_cons_of_pos hc, List.getLast?_cons, if_pos hc]
    rfl
  · rw [List.filter_cons_of_neg hc, if_neg hc]

/-- The last code of its group that a block states is in force behind its codes. -/
theorem ModeGroup.applyCodes_mode (g : ModeGroup) (m : Modal) (codes : List Code) :
    g.mode (codes.foldl Modal.applyCode m) = g.inForce (g.mode m) codes := by
  induction codes generalizing m with
  | nil => rfl
  | cons code rest ih => rw [List.foldl_cons, ih, g.applyCode_mode, g.inForce_cons]

theorem Positioning.code_injective {p q : Positioning} (h : p.code = q.code) : p = q := by
  cases p <;> cases q <;> first | rfl | exact absurd h (by decide)

theorem Plane.code_injective {p q : Plane} (h : p.code = q.code) : p = q := by
  cases p <;> cases q <;> first | rfl | exact absurd h (by decide)

/-- Motion mode and cycle alone decide what a code makes of them. -/
theorem applyCode_modes (hmotion : m'.motion = m.motion) (hcycle : m'.cycle = m.cycle)
    (code : Code) :
    (m'.applyCode code).motion = (m.applyCode code).motion ∧
      (m'.applyCode code).cycle = (m.applyCode code).cycle := by
  unfold Modal.applyCode
  split
  · exact ⟨hmotion, hcycle⟩
  split
  · exact ⟨hmotion, hcycle⟩
  split
  · exact ⟨hmotion, hcycle⟩
  split
  · exact ⟨rfl, rfl⟩
  split
  · exact ⟨rfl, rfl⟩
  split
  · exact ⟨rfl, hcycle⟩
  · exact ⟨hmotion, hcycle⟩

theorem applyCode_cycle_of_stated (h : code ∈ statedCodes) :
    (m.applyCode code).cycle = m.cycle := by
  simp only [statedCodes, List.mem_cons, List.not_mem_nil, or_false] at h
  rcases h with rfl | rfl | rfl | rfl | rfl <;> rfl

/-- Codes that state a positioning or a plane say nothing about motion mode and cycle. -/
theorem applyCodes_modes (hstated : ∀ code ∈ codes, p code = false → code ∈ statedCodes)
    (hmotion : m'.motion = m.motion) (hcycle : m'.cycle = m.cycle) :
    ((codes.filter p).foldl Modal.applyCode m').motion = (codes.foldl Modal.applyCode m).motion ∧
      ((codes.filter p).foldl Modal.applyCode m').cycle =
        (codes.foldl Modal.applyCode m).cycle := by
  induction codes generalizing m m' with
  | nil => exact ⟨hmotion, hcycle⟩
  | cons code rest ih =>
    have hrest : ∀ code ∈ rest, p code = false → code ∈ statedCodes :=
      fun c hc => hstated c (.tail _ hc)
    cases hp : p code with
    | true =>
      obtain ⟨hmotion', hcycle'⟩ := applyCode_modes hmotion hcycle code
      rw [List.filter_cons_of_pos hp]
      exact ih hrest hmotion' hcycle'
    | false =>
      have hcode := hstated code (.head _) hp
      rw [List.filter_cons_of_neg (by simp [hp])]
      refine ih hrest (hmotion.trans ?_) (hcycle.trans ?_)
      · exact (Rule.applyCode_of_stated hcode).1.symm
      · exact (applyCode_cycle_of_stated hcode).symm

end Codes

namespace Rule

variable {s : Stated} {stop : Stop} {stops : List Stop} {b : Block} {m : Modal} {ls : Lines}

/-! ## What the rule takes away -/

theorem trims_stop (s : Stated) (stops : List Stop) : (trims s stops).map Trim.stop = stops := by
  induction stops generalizing s with
  | nil => rfl
  | cons stop rest ih =>
    have hstop : (trimOf s stop).stop = stop := by
      unfold trimOf
      split <;> rfl
    rw [trims, List.map_cons, ih, hstop]

/-- The lines that are left are those that the rule writes. -/
theorem trims_left (s : Stated) (stops : List Stop) :
    (trims s stops).filterMap Trim.left = trimStated s stops := by
  induction stops generalizing s with
  | nil => rfl
  | cons stop rest ih =>
    rw [trims]
    cases hb : stop.block? with
    | none =>
      have htrim : (trimOf s stop).left = some stop.raw := by simp [trimOf, hb]
      rw [trimStated_cons_none s hb, List.filterMap_cons_some htrim, ih, Stop.block_of_none hb]
      rfl
    | some b =>
      rw [trimStated_cons_some s hb, Stop.block_of_some hb, ← ih]
      cases hleft : leftOf stop.raw b (restated s stop.before b) with
      | none =>
        rw [List.filterMap_cons_none (by simp [trimOf, hb, hleft])]
        rfl
      | some line =>
        have htrim : (trimOf s stop).left = some line := by simp [trimOf, hb, hleft]
        rw [List.filterMap_cons_some htrim]
        rfl

theorem leftOf_valid {n : Int} {drop : List String} (hread : Block.read? stop.raw n = some b)
    (hb : stop.block? = some b) : (Trim.mk stop drop (leftOf stop.raw b drop)).Valid := by
  unfold Trim.Valid Trim.kept leftOf
  rw [Stop.block_of_some hb]
  by_cases hdrop : drop = []
  · subst hdrop
    rw [Block.without_nil]
    exact holdsWords_of_read? hread
  · have hempty : drop.isEmpty = false := by simpa using hdrop
    cases hbare : (b.without drop).isBare with
    | true =>
      simp only [hempty, Bool.false_eq_true, if_false, if_true]
      simp only [Block.isBare, Bool.and_eq_true, List.isEmpty_iff] at hbare
      exact hbare.1.1
    | false =>
      simp only [hempty, Bool.false_eq_true, if_false]
      exact ((Block.wellFormed_of_read? hread).without drop).holdsWords

theorem trimOf_valid {settings : Settings} {n : Int}
    (h : stop.before.stopAt settings n stop.raw = .ok stop) : (trimOf s stop).Valid := by
  obtain ⟨-, -, hblock⟩ := stopAt_eq_ok h
  unfold trimOf
  split
  · rename_i hb
    rw [hb] at hblock
    unfold Trim.Valid Trim.kept
    rw [Stop.block_of_none hb]
    exact holdsWords_of_read?_none hblock.symm
  · rename_i b hb
    rw [hb] at hblock
    exact leftOf_valid hblock.symm hb

theorem mem_restated_cases {mark : String} (h : mark ∈ restated s m b) :
    mark ∈ statedCodes ∨ mark = "F" := by
  rw [restated, List.mem_append] at h
  rcases h with h | h
  · exact .inl (mem_statedCodes_of_repeated h)
  · right
    split at h
    · exact List.mem_singleton.1 h
    · cases h

theorem alike_restated (s : Stated) (m : Modal) (b : Block) :
    b.Alike (b.without (restated s m b)) := by
  refine b.alike_without fun mark hmark => ?_
  have hhead : ∀ code ∈ statedCodes, code.toList.head? = some 'G' := by decide
  rcases mem_restated_cases hmark with hmark | rfl
  · exact .inl (hhead mark hmark)
  · exact .inr rfl

theorem codes_restated (s : Stated) (m : Modal) (b : Block) :
    (b.without (restated s m b)).codes 'G' =
      (b.codes 'G').filter fun code => !(restated s m b).contains code := by
  refine Block.codes_without fun hG => ?_
  rcases mem_restated_cases hG with hG | hG
  · exact absurd hG (by decide)
  · exact absurd hG (by decide)

theorem mem_statedCodes_of_dropped {code : Code} (hcode : code ∈ b.codes 'G')
    (hdrop : (!(restated s m b).contains code) = false) : code ∈ statedCodes := by
  rw [Bool.not_eq_false', List.contains_iff_mem] at hdrop
  rcases mem_restated_cases hdrop with hdrop | rfl
  · exact hdrop
  · obtain ⟨w, -, hletter, hcode⟩ := mem_codes hcode
    rw [Word.code, hletter] at hcode
    have hhead := congrArg (fun c => c.toList.head?) hcode
    simp at hhead

/-- The code that moves a block is no positioning and no plane. -/
theorem dominant?_restated (s : Stated) (m : Modal) (b : Block) :
    (b.without (restated s m b)).dominant? = b.dominant? := by
  unfold Block.dominant?
  rw [codes_restated]
  refine List.find?_congr fun code hcode => ?_
  have hapart : ∀ code ∈ Code.byDominance, code ∉ statedCodes := by decide
  rw [Bool.eq_iff_iff, List.contains_iff_mem, List.contains_iff_mem, List.mem_filter]
  refine ⟨fun h => h.1, fun h => ⟨h, ?_⟩⟩
  by_contra hdrop
  exact hapart code hcode (mem_statedCodes_of_dropped h (Bool.eq_false_iff.2 hdrop))

/-- A feed that is left out is the one in effect. -/
theorem feed_restated (s : Stated) (m : Modal) (b : Block) :
    SameFeed (b.value 'F' <|> m.feed) ((b.without (restated s m b)).value 'F' <|> m.feed) := by
  cases hrepeats : repeatsFeed m b with
  | false =>
    have hvalue : (b.without (restated s m b)).value 'F' = b.value 'F' := by
      refine Block.value_without fun w _ hletter => ?_
      have hdrop : restated s m b = (s.repeated (b.codes 'G')).2 := by simp [restated, hrepeats]
      rw [hdrop]
      refine ⟨singleton_not_mem_repeated s _ _, fun hmem => ?_⟩
      have := Word.letter_of_stated (mem_statedCodes_of_repeated hmem)
      rw [hletter] at this
      exact absurd this (by decide)
    rw [hvalue]
    exact .refl _
  | true =>
    have hnone : (b.without (restated s m b)).value 'F' = none := by
      rw [Block.value, Option.map_eq_none_iff, List.find?_eq_none]
      intro w hw hletter
      have hmark : "F" ∈ restated s m b := by simp [restated, hrepeats]
      have hgone := (List.mem_filter.1 hw).2
      have hsingle : String.singleton w.letter = "F" := by
        rw [beq_iff_eq.1 hletter]
        rfl
      simp [hsingle, hmark] at hgone
    rw [hnone]
    unfold repeatsFeed at hrepeats
    split at hrepeats
    · rename_i feed active hfeed hactive
      rw [hfeed, hactive]
      exact .of_beq hrepeats
    · cases hrepeats

/-! ## What a block keeps -/

/-- The last codes of their groups on a block are in force behind it. -/
theorem mode_apply (m : Modal) (b : Block) : ∀ g ∈ ModeGroup.all,
    g.mode (m.apply b) = g.inForce (g.mode m) (b.codes 'G') := by
  have hdominant : ∀ m : Modal, (m.applyDominant b).positioning = m.positioning ∧
      (m.applyDominant b).plane = m.plane := by
    intro m
    unfold Modal.applyDominant
    split
    · split_ifs <;> exact ⟨rfl, rfl⟩
    · exact ⟨rfl, rfl⟩
  obtain ⟨hpositioning, hplane⟩ := hdominant ((b.codes 'G').foldl Modal.applyCode m)
  simp only [ModeGroup.all, List.forall_mem_cons, List.not_mem_nil, false_implies, implies_true,
    and_true, ← ModeGroup.applyCodes_mode]
  exact ⟨congrArg Positioning.code hpositioning, congrArg Plane.code hplane⟩

/-- So are they when the block is resolved. -/
theorem mode_resolve {settings : Settings} {r : Resolution} (h : m.resolve settings b = .ok r) :
    ∀ g ∈ ModeGroup.all, g.mode r.state = g.inForce (g.mode m) (b.codes 'G') := by
  intro g hg
  rw [← mode_apply m b g hg]
  obtain ⟨p, motion, cycle, hstate⟩ := resolve_changes h
  rw [hstate]
  simp only [ModeGroup.all, List.mem_cons, List.not_mem_nil, or_false] at hg
  rcases hg with rfl | rfl <;> rfl

theorem applyDominant_modes {m m' : Modal} {b b' : Block} (hdominant : b'.dominant? = b.dominant?)
    (hmotion : m'.motion = m.motion) (hcycle : m'.cycle = m.cycle) :
    (m'.applyDominant b').motion = (m.applyDominant b).motion ∧
      (m'.applyDominant b').cycle = (m.applyDominant b).cycle := by
  unfold Modal.applyDominant
  rw [hdominant]
  split
  · split
    · exact ⟨rfl, rfl⟩
    · exact ⟨hmotion, hcycle⟩
  · exact ⟨hmotion, hcycle⟩

/-- Without words that were stated, a block hears the same if it hears the same of positioning and
plane. -/
theorem apply_restated (s : Stated) {m : Modal} {b : Block}
    (hpositioning : (m.apply (b.without (restated s m b))).positioning = (m.apply b).positioning)
    (hplane : (m.apply (b.without (restated s m b))).plane = (m.apply b).plane) :
    (m.apply b).Agrees SameFeed (m.apply (b.without (restated s m b))) := by
  have hdropped : ∀ code ∈ b.codes 'G', (!(restated s m b).contains code) = false →
      code ∈ statedCodes := fun code hcode hdrop => mem_statedCodes_of_dropped hcode hdrop
  obtain ⟨hmotion, hcycle⟩ := applyCodes_modes (m := m) hdropped rfl rfl
  rw [← codes_restated] at hmotion hcycle
  obtain ⟨hmotion, hcycle⟩ := applyDominant_modes (dominant?_restated s m b) hmotion hcycle
  refine ⟨hpositioning, hplane, ?_, ?_, hmotion, hcycle⟩
  · rw [Modal.apply_position, Modal.apply_position]
  · rw [Modal.apply_feed, Modal.apply_feed]
    exact feed_restated s m b

/-- A stop does the same exactly if what stays of it leaves the same positioning and the same plane
in force. -/
theorem trimOf_doesTheSame_iff {settings : Settings} {n : Int}
    (h : stop.before.stopAt settings n stop.raw = .ok stop) :
    (trimOf s stop).DoesTheSame SameFeed Effect.IsNone settings ↔ (trimOf s stop).KeepsModes := by
  cases hfound : stop.found with
  | none =>
    have hb : stop.block? = none := by rw [Stop.block?, hfound]; rfl
    have hkept : (trimOf s stop).kept = (trimOf s stop).stop.block := by
      simp [trimOf, hb, Trim.kept, Block.without_nil]
    have hstop :
        (trimOf s stop).stop.before.stopAt settings n stop.raw = .ok (trimOf s stop).stop := by
      simpa [trimOf, hb] using h
    refine iff_of_true (doesTheSame_of_kept_eq SameFeed.equivalence hstop hkept) fun g _ => ?_
    rw [hkept]
  | some found =>
    obtain ⟨b, r⟩ := found
    have hb := Stop.block?_of_found hfound
    have hr := stopAt_resolve h hfound
    have hstop : (trimOf s stop).stop = stop := by simp [trimOf, hb]
    have hkept : (trimOf s stop).kept = b.without (restated s stop.before b) := by
      simp [trimOf, hb, Trim.kept, Stop.block_of_some hb]
    have hafter := Stop.after_of_found hfound
    have heffect := Stop.effect_of_found hfound
    unfold Trim.DoesTheSame Trim.KeepsModes
    simp only [hstop, hkept, hafter, heffect, Stop.block_of_some hb]
    constructor
    · rintro ⟨r', hr', hstate, -⟩ g hg
      rw [← mode_resolve hr g hg, ← mode_resolve hr' g hg]
      simp only [ModeGroup.all, List.mem_cons, List.not_mem_nil, or_false] at hg
      rcases hg with rfl | rfl
      · exact congrArg Positioning.code hstate.positioning
      · exact congrArg Plane.code hstate.plane
    · intro hmodes
      have hheard : ∀ g ∈ ModeGroup.all, g.mode (stop.before.apply (b.without
          (restated s stop.before b))) = g.mode (stop.before.apply b) := by
        intro g hg
        rw [mode_apply _ _ g hg, mode_apply _ _ g hg, hmodes g hg]
      have happly := apply_restated s (Positioning.code_injective (hheard _ (.head _)))
        (Plane.code_injective (hheard _ (.tail _ (.head _))))
      obtain ⟨r', hr', hagrees⟩ := resolve_agrees_of_apply (.refl none)
        (alike_restated s stop.before b) (dominant?_restated s stop.before b) happly hr
      exact ⟨r', hr', hagrees.state, .inl hagrees.effect⟩

/-! ## The record of the rule -/

/-- The record says what is in force. -/
def Stated.Knows (s : Stated) (m : Modal) : Prop :=
  ∀ g ∈ ModeGroup.all, ∀ code, g.stated s = some code → code = g.mode m

theorem Stated.Knows.meet (h : s.Knows m) (code : Code) :
    (s.meet code).1.Knows (m.applyCode code) := by
  intro g hg c hc
  rw [g.meet_stated] at hc
  rw [g.applyCode_mode]
  split at hc
  · rename_i hcode
    rw [if_pos hcode]
    exact (Option.some.inj hc).symm
  · rename_i hcode
    rw [if_neg hcode]
    exact h g hg c hc

theorem Stated.Knows.codes (h : s.Knows m) (codes : List Code) :
    (s.repeated codes).1.Knows (codes.foldl Modal.applyCode m) := by
  induction codes generalizing s m with
  | nil => exact h
  | cons code rest ih => exact ih (h.meet code)

theorem Stated.Knows.resolve {settings : Settings} {r : Resolution} (h : s.Knows m)
    (hr : m.resolve settings b = .ok r) : (s.repeated (b.codes 'G')).1.Knows r.state := by
  intro g hg code hcode
  rw [mode_resolve hr g hg, ← g.applyCodes_mode]
  exact h.codes _ g hg code hcode

/-- The only code of its group on a block is taken away only if it was stated. -/
theorem stated_of_repeated {g : ModeGroup} {codes : List Code} {code : Code}
    (honce : codes.filter g.isCode = [code]) (h : code ∈ (s.repeated codes).2) :
    g.stated s = some code := by
  have hcode : g.isCode code = true := by
    have hmem : code ∈ codes.filter g.isCode := by simp [honce]
    exact (List.mem_filter.1 hmem).2
  induction codes generalizing s with
  | nil => cases h
  | cons c rest ih =>
    have hcases : ((s.meet c).2 = true ∧ code = c) ∨ code ∈ ((s.meet c).1.repeated rest).2 := by
      simp only [Stated.repeated] at h
      split at h
      · rename_i hagain
        cases h with
        | head => exact .inl ⟨hagain, rfl⟩
        | tail _ h => exact .inr h
      · exact .inr h
    by_cases hc : g.isCode c = true
    · rw [List.filter_cons_of_pos hc] at honce
      obtain ⟨rfl, hnone⟩ := List.cons.inj honce
      rcases hcases with ⟨hagain, -⟩ | hlater
      · rw [g.meet_again s c hc] at hagain
        exact beq_iff_eq.1 hagain
      · have hmem := Stated.repeated_subset _ _ hlater
        have hno := List.filter_eq_nil_iff.1 hnone _ hmem
        exact absurd hc hno
    · rw [List.filter_cons_of_neg hc] at honce
      rcases hcases with ⟨-, rfl⟩ | hlater
      · exact absurd hcode hc
      · have hstated := ih honce hlater
        rwa [g.meet_stated, if_neg hc] at hstated

/-- A block that states each group once keeps its modes. -/
theorem trimOf_keepsModes (hknows : s.Knows stop.before) (honce : stop.block.StatesOnce) :
    (trimOf s stop).KeepsModes := by
  cases hb : stop.block? with
  | none =>
    have hkept : (trimOf s stop).kept = (trimOf s stop).stop.block := by
      simp [trimOf, hb, Trim.kept, Block.without_nil]
    intro g _
    rw [hkept]
  | some b =>
    have hstop : (trimOf s stop).stop = stop := by simp [trimOf, hb]
    have hkept : (trimOf s stop).kept = b.without (restated s stop.before b) := by
      simp [trimOf, hb, Trim.kept, Stop.block_of_some hb]
    rw [Stop.block_of_some hb] at honce
    intro g hg
    rw [hstop, hkept, Stop.block_of_some hb, codes_restated]
    unfold ModeGroup.inForce
    rw [List.filter_filter, List.filter_congr (fun _ _ => Bool.and_comm _ _), ← List.filter_filter]
    match hcodes : (b.codes 'G').filter g.isCode, honce g hg with
    | [], _ => rfl
    | [code], _ =>
      by_cases hdrop : (restated s stop.before b).contains code = true
      · have hmem : code ∈ b.codes 'G' := by
          have hmem : code ∈ (b.codes 'G').filter g.isCode := by simp [hcodes]
          exact List.mem_of_mem_filter hmem
        have hrepeated : code ∈ (s.repeated (b.codes 'G')).2 := by
          rw [List.contains_iff_mem, restated, List.mem_append] at hdrop
          refine hdrop.resolve_right fun hfeed => ?_
          split at hfeed
          · obtain ⟨w, -, hletter, hcode⟩ := mem_codes hmem
            rw [List.mem_singleton.1 hfeed, Word.code, hletter] at hcode
            have hhead := congrArg (fun c => c.toList.head?) hcode
            simp at hhead
          · cases hfeed
        have hforce := hknows g hg code (stated_of_repeated hcodes hrepeated)
        rw [List.filter_cons_of_neg (by simpa using hdrop)]
        exact hforce.symm
      · rw [List.filter_cons_of_pos (by simpa using hdrop)]
        rfl

/-! ## Whole programs -/

/-- Every trimmed stop of a walk was met with a record that says what was in force. -/
theorem mem_trims {settings : Settings} {n : Int} {t : Trim} (hknows : s.Knows m)
    (hwalk : m.walkFrom settings n ls = .ok stops) (ht : t ∈ trims s stops) :
    ∃ s' stop k, stop ∈ stops ∧ t = trimOf s' stop ∧ s'.Knows stop.before ∧
      stop.before.stopAt settings k stop.raw = .ok stop := by
  induction ls generalizing m n s stops with
  | nil =>
    cases hwalk
    cases ht
  | cons raw rest ih =>
    simp only [Modal.walkFrom, bind_eq_ok, pure_eq_ok] at hwalk
    obtain ⟨stop, hstop, more, hmore, rfl⟩ := hwalk
    obtain ⟨hraw, hbefore, -⟩ := stopAt_eq_ok hstop
    cases ht with
    | head =>
      refine ⟨s, stop, n, .head _, rfl, ?_, ?_⟩
      · rw [hbefore]; exact hknows
      · rw [hbefore, hraw]; exact hstop
    | tail _ ht =>
      have hafter : (s.repeated (stop.block.codes 'G')).1.Knows stop.after := by
        rw [Modal.stopAt] at hstop
        split at hstop
        · cases hstop; exact hknows
        · simp only [bind_eq_ok, pure_eq_ok] at hstop
          obtain ⟨r, hr, rfl⟩ := hstop
          exact hknows.resolve hr
      obtain ⟨s', stop', k, hmem, h⟩ := ih hafter hmore ht
      exact ⟨s', stop', k, .tail _ hmem, h⟩

theorem knows_initial : Stated.Knows {} .initial := by
  intro g hg code hcode
  simp only [ModeGroup.all, List.mem_cons, List.not_mem_nil, or_false] at hg
  rcases hg with rfl | rfl <;> cases hcode

/-- The lines that are left do what the program did, line for line, exactly if what stays of every
block leaves its modes in force. -/
theorem trims_aligned_iff (hwalk : walk ls = .ok stops) :
    Aligned SameFeed Effect.IsNone .standard .initial 1 (trims {} stops) ↔
      ∀ t ∈ trims {} stops, t.KeepsModes := by
  have hstops : walk ls = .ok ((trims {} stops).map Trim.stop) := by rw [trims_stop]; exact hwalk
  have hvalid : ∀ t ∈ trims {} stops, t.Valid := by
    intro t ht
    obtain ⟨s', stop, k, -, rfl, -, hstop⟩ := mem_trims knows_initial hwalk ht
    exact trimOf_valid hstop
  have hlost : Effect.IsNone .none := rfl
  rw [aligned_iff SameFeed.equivalence hlost hvalid hstops (.refl SameFeed.equivalence _)]
  refine forall₂_congr fun t ht => ?_
  obtain ⟨s', stop, k, -, rfl, -, hstop⟩ := mem_trims knows_initial hwalk ht
  exact trimOf_doesTheSame_iff hstop

/-- The rule for restated words writes the lines that are left, and the walk through them keeps to
the walk through the program, with the same states and the same moves and cycles and nothing lost,
exactly if what stays of every block leaves the positioning and the plane in force that the block
does. That is so where no block states more than one positioning or more than one plane. -/
theorem removeRedundantCodes_aligned_iff (hwalk : walk ls = .ok stops) :
    (removeRedundantCodes ls).result = .ok ((trims {} stops).filterMap Trim.left) ∧
      (trims {} stops).map Trim.stop = stops ∧
      (Aligned SameFeed Effect.IsNone .standard .initial 1 (trims {} stops) ↔
        ∀ t ∈ trims {} stops, t.KeepsModes) ∧
      ((∀ stop ∈ stops, stop.block.StatesOnce) →
        Aligned SameFeed Effect.IsNone .standard .initial 1 (trims {} stops)) := by
  refine ⟨?_, trims_stop {} stops, trims_aligned_iff hwalk, fun honce => ?_⟩
  · rw [trims_left, removeRedundantCodes, Revised.ofWalk, hwalk]
    rfl
  · rw [trims_aligned_iff hwalk]
    intro t ht
    obtain ⟨s', stop, k, hmem, rfl, hknows, -⟩ := mem_trims knows_initial hwalk ht
    exact trimOf_keepsModes hknows (honce stop hmem)

/-- A plane and a feed that are stated again, a block of which nothing is left, and a positioning that
is stated anew: each line goes or says less, and the program does what it did. -/
theorem removeRedundantCodes_aligned_restated :
    let ls := ["G90 G17 G1 X1 F100", "N5 G17 F100.0 (again)", "G90 G17", "G91 G2 X2 I1 F100", "G91 X1"]
    ∃ stops, walk ls = .ok stops ∧
      (removeRedundantCodes ls).result =
        .ok ["G90 G17 G1 X1 F100", "N5 ; again", "G91 G2 X2 I1", "X1"] ∧
      Aligned SameFeed Effect.IsNone .standard .initial 1 (trims {} stops) := by
  intro ls
  obtain ⟨stops, hwalk, hstops⟩ := exists_of_toOption (x := walk ls)
    (f := fun stops => (decide (∀ stop ∈ stops, stop.block.StatesOnce),
      (trims {} stops).filterMap Trim.left))
    (b := (true, ["G90 G17 G1 X1 F100", "N5 ; again", "G91 G2 X2 I1", "X1"])) (by decide +kernel)
  obtain ⟨honce, hleft⟩ := Prod.mk.inj hstops
  obtain ⟨hresult, -, -, haligned⟩ := removeRedundantCodes_aligned_iff hwalk
  rw [hleft] at hresult
  exact ⟨stops, hwalk, hresult, haligned (of_decide_eq_true honce)⟩

/-- Where no stop may go, as many are left. -/
theorem length_of_keeps {same : Option Float → Option Float → Prop} {lost : Effect → Prop}
    {found : List (Option Stop)} (h : List.Forall₂ (Stop.Keeps same lost) stops found)
    (hno : ∀ stop ∈ stops, ¬ stop.Keeps same lost none) :
    found.reduceOption.length = stops.length := by
  induction h with
  | nil => rfl
  | @cons stop f stops found hkeep _ ih =>
    cases f with
    | none => exact absurd hkeep (hno stop (.head _))
    | some s =>
      rw [List.reduceOption_cons_of_some, List.length_cons, List.length_cons,
        ih fun stop hstop => hno stop (.tail _ hstop)]

/-- A positioning that a block states twice goes with the second time: coordinates that were meant as
steps are taken for places. However the lines that are left are set against the program, they do
something else. -/
theorem removeRedundantCodes_mode_lost :
    ∃ stops out, walk ["G91 G91", "G1 X1 F100", "X1"] = .ok stops ∧
      (removeRedundantCodes ["G91 G91", "G1 X1 F100", "X1"]).result = .ok out ∧
      ¬ ∃ found : List (Option Stop), walk out = .ok found.reduceOption ∧
        List.Forall₂ (Stop.Keeps SameFeed Effect.IsNone) stops found := by
  obtain ⟨stops, hwalk, hstops⟩ := exists_of_toOption (x := walk ["G91 G91", "G1 X1 F100", "X1"])
    (f := fun stops => (stops.length, decide (∀ stop ∈ stops,
      stop.after.positioning ≠ stop.before.positioning ∨
        stop.after.position.x ≠ stop.before.position.x)))
    (b := (3, true)) (by decide +kernel)
  obtain ⟨hlength, hchanges⟩ := Prod.mk.inj hstops
  obtain ⟨out, hout, hlines⟩ := exists_of_toOption
    (x := (removeRedundantCodes ["G91 G91", "G1 X1 F100", "X1"]).result) (f := List.length)
    (b := 2) (by decide +kernel)
  refine ⟨stops, out, hwalk, hout, ?_⟩
  rintro ⟨found, hfound, hkeeps⟩
  have hno : ∀ stop ∈ stops, ¬ stop.Keeps SameFeed Effect.IsNone none := by
    rintro stop hstop ⟨-, state⟩
    rcases of_decide_eq_true hchanges stop hstop with hpositioning | hposition
    · exact hpositioning state.positioning.symm
    · exact hposition (congrArg Point.x state.position.symm)
  have hraws := congrArg List.length (walkFrom_raw hfound)
  rw [List.length_map, length_of_keeps hkeeps hno, hlength, hlines] at hraws
  exact absurd hraws (by decide)

end Rule

end PartProgram

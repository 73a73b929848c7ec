import PartProgram.Proofs.Arrival
import PartProgram.Proofs.Rereading
import PartProgram.Proofs.Walk

/-!
# PartProgram.Proofs.Feeds

The feeds of a program. A feed word holds until the next one, and is meant per turn or per minute by
the mode of its block; feed words with one number in a row are told from their first one. The feed
of a machine on its way through a program is the number of the last feed word.

* `FeedTrack`: the feed words up to a line.
* `walk_walked`: the feeds on the walk through a program.
-/

namespace PartProgram

open Text

/-! ## What lines say -/

/-- A word as a control reads it: its letter and its number. -/
abbrev Saying := Char × Float

/-- The words of a line; there are none on a line without a block. -/
def sayings (line : String) : List Saying :=
  ((Block.read? line 1).map fun b => b.words.map Word.said).getD []

/-- The `G` codes among the words. -/
def codesSaid (ws : List Saying) : List Code :=
  (ws.filter (·.1 == 'G')).map fun w => .singleton w.1 ++ codeNumber w.2

/-- The number of the first feed word. -/
def feedSaid (ws : List Saying) : Option Float := (ws.find? (·.1 == 'F')).map Prod.snd

/-- Whether feeds are per turn from here on, if the words say so. -/
def modeSaid (ws : List Saying) : Option Bool :=
  if (codesSaid ws).contains "G95" then some true
  else if (codesSaid ws).contains "G94" then some false
  else none

/-- The words that are neither codes nor feeds. -/
def otherSayings (line : String) : List Saying :=
  (sayings line).filter fun w => w.1 != 'G' && w.1 != 'F'

/-- A feed word of a program, with the feed mode of its block. -/
structure FeedWord where
  value : Float
  perTurn : Bool

/-- What a program has said of feeds up to some line. -/
structure FeedTrack where
  perTurn : Bool := false
  /-- the feed word in effect -/
  last : Option FeedWord := none
  /-- the first of the feed words in a row with one number, of which that is the last -/
  first : Option FeedWord := none

namespace FeedTrack

/-- The number of the feed word in effect. -/
def feed (t : FeedTrack) : Option Float := t.last.map FeedWord.value

/-- The words of one more line. -/
def hear (t : FeedTrack) (ws : List Saying) : FeedTrack :=
  let perTurn := (modeSaid ws).getD t.perTurn
  match feedSaid ws with
  | none => { t with perTurn := perTurn }
  | some x =>
    { perTurn := perTurn
      last := some ⟨x, perTurn⟩
      first := if t.feed.any (x == ·) then t.first else some ⟨x, perTurn⟩ }

/-- One more line. -/
def read (t : FeedTrack) (line : String) : FeedTrack := t.hear (sayings line)

variable {t : FeedTrack} {ws : List Saying}

theorem hear_nil (t : FeedTrack) : t.hear [] = t := rfl

theorem hear_congr (t : FeedTrack) {ws vs : List Saying} (hmode : modeSaid ws = modeSaid vs)
    (hfeed : feedSaid ws = feedSaid vs) : t.hear ws = t.hear vs := by
  rw [hear, hear, hmode, hfeed]

theorem hear_of_silent (hmode : modeSaid ws = none) (hfeed : feedSaid ws = none) :
    t.hear ws = t := by
  rw [hear, hmode, hfeed]
  rfl

theorem hear_perTurn (t : FeedTrack) (ws : List Saying) :
    (t.hear ws).perTurn = (modeSaid ws).getD t.perTurn := by
  rw [hear]
  split <;> rfl

theorem hear_last_of_none (h : feedSaid ws = none) : (t.hear ws).last = t.last := by
  rw [hear, h]

theorem hear_first_of_none (h : feedSaid ws = none) : (t.hear ws).first = t.first := by
  rw [hear, h]

theorem hear_last_of_some {x : Float} (h : feedSaid ws = some x) :
    (t.hear ws).last = some ⟨x, (t.hear ws).perTurn⟩ := by
  rw [hear_perTurn, hear, h]

theorem hear_first_of_some {x : Float} (h : feedSaid ws = some x) :
    (t.hear ws).first = if t.feed.any (x == ·) then t.first else (t.hear ws).last := by
  rw [hear_last_of_some h, hear_perTurn, hear, h]

theorem hear_feed (t : FeedTrack) (ws : List Saying) :
    (t.hear ws).feed = (feedSaid ws <|> t.feed) := by
  cases h : feedSaid ws with
  | none =>
    rw [feed, hear_last_of_none h]
    rfl
  | some x =>
    rw [feed, hear_last_of_some h]
    rfl

end FeedTrack

/-! ## Words taken out -/

section

variable {ws : List Saying} {p : Saying → Bool}

theorem feedSaid_filter (h : ∀ w ∈ ws, w.1 = 'F' → p w = true) :
    feedSaid (ws.filter p) = feedSaid ws := by
  induction ws with
  | nil => rfl
  | cons w ws ih =>
    have ih := ih fun v hv => h v (.tail _ hv)
    simp only [feedSaid] at ih ⊢
    by_cases hw : w.1 = 'F'
    · simp [h w (.head _) hw, hw]
    · cases hp : p w with
      | true => simpa [hp, hw] using ih
      | false => simpa [hp, hw] using ih

theorem feedSaid_eq_none (h : ∀ w ∈ ws, w.1 ≠ 'F') : feedSaid ws = none := by
  rw [feedSaid, List.find?_eq_none.2 fun w hw => by simpa using h w hw]
  rfl

theorem mem_codesSaid {code : Code} :
    code ∈ codesSaid ws ↔ ∃ w ∈ ws, w.1 = 'G' ∧ .singleton w.1 ++ codeNumber w.2 = code := by
  simp [codesSaid, and_assoc]

/-- The feed mode is what it was, given that the codes for it are said as before. -/
theorem modeSaid_congr {vs : List Saying} (hturn : "G95" ∈ codesSaid ws ↔ "G95" ∈ codesSaid vs)
    (hminute : "G94" ∈ codesSaid ws ↔ "G94" ∈ codesSaid vs) : modeSaid ws = modeSaid vs := by
  simp only [modeSaid, List.contains_iff_mem, hturn, hminute]

end

/-! ## Blocks -/

namespace Block

theorem codesSaid_eq (b : Block) : codesSaid (b.words.map Word.said) = b.codes 'G' := by
  rw [codesSaid, codes, List.filter_map, List.map_map]
  rfl

theorem feedSaid_eq (b : Block) : feedSaid (b.words.map Word.said) = b.value 'F' := by
  rw [feedSaid, value, List.find?_map, Option.map_map]
  rfl

/-- The words of a line do not depend on its number. -/
theorem sayings_of_read? {raw : String} {n : Int} {b : Block} (h : read? raw n = some b) :
    sayings raw = b.words.map Word.said := by
  simp only [read?, Option.map_eq_some_iff] at h
  obtain ⟨code, hcode, rfl⟩ := h
  simp only [sayings, read?, hcode, Option.map_some, Option.getD_some]

theorem sayings_of_read?_none {raw : String} {n : Int} (h : read? raw n = none) :
    sayings raw = [] := by
  simp only [read?, Option.map_eq_none_iff] at h
  simp only [sayings, read?, h, Option.map_none, Option.getD_none]

theorem sayings_render {b : Block} (h : b.WellFormed) :
    sayings b.render = b.words.map Word.said := by
  by_cases hparts : b.parts = []
  · have hwords : b.words = [] := by
      simp only [parts, List.append_eq_nil_iff, List.map_eq_nil_iff] at hparts
      exact hparts.1.2
    rw [sayings_of_read?_none (read?_render_of_parts_nil h hparts 1), hwords]
    rfl
  · have hread := read?_render h hparts 1
    rw [sayings_of_read? hread]

theorem feed_not_mem_render {b : Block} (h : b.WellFormed) : '\n' ∉ b.render.toList := by
  have hcode : '\n' ∉ b.renderCode.toList := by
    rw [toList_renderCode]
    intro hmem
    rcases mem_joined hmem with hc | ⟨p, hp, hc⟩
    · exact absurd hc (by decide)
    · exact absurd (IsCodeChar.not_blank ((h.parts p hp).2 _ hc)) (by decide)
  rw [render]
  cases hcomment : b.comment with
  | none => exact hcode
  | some s =>
    have hs := (h.comment s hcomment).2
    by_cases hempty : b.renderCode.isEmpty
    · simp [hempty, hs]
    · simp [hempty, hs, hcode]

end Block

/-- The feed after a line that is read in another way, if it says the same. -/
theorem read_congr (t : FeedTrack) {l m : String} (h : sayings l = sayings m) :
    t.read l = t.read m := by
  rw [FeedTrack.read, FeedTrack.read, h]

/-! ## The feed of a machine -/

section

variable {settings : Settings} {before : Modal} {b : Block} {r : Resolution}

theorem Modal.applyCode_feed (m : Modal) (code : Code) : (m.applyCode code).feed = m.feed := by
  unfold Modal.applyCode
  split_ifs <;> first | rfl | (split <;> rfl)

theorem Modal.applyCodes_feed (m : Modal) (codes : List Code) :
    (codes.foldl Modal.applyCode m).feed = m.feed := by
  induction codes generalizing m with
  | nil => rfl
  | cons code rest ih => rw [List.foldl_cons, ih, Modal.applyCode_feed]

theorem Modal.apply_feed (m : Modal) (b : Block) :
    (m.apply b).feed = (b.value 'F' <|> m.feed) := by
  have hdominant : ∀ m : Modal, (m.applyDominant b).feed = m.feed := by
    intro m
    unfold Modal.applyDominant
    split
    · split_ifs <;> rfl
    · rfl
  simp only [Modal.apply, hdominant, Modal.applyCodes_feed]

/-- A block sets the feed if it has a feed word, and nothing else does. -/
theorem resolve_feed (h : before.resolve settings b = .ok r) :
    r.state.feed = (b.value 'F' <|> before.feed) := by
  obtain ⟨p, motion, cycle, hstate⟩ := resolve_changes h
  rw [hstate]
  exact Modal.apply_feed before b

end

/-- The stops of a walk, with the feed before and after each of them. -/
inductive Walked : FeedTrack → List Stop → Prop where
  | nil (t : FeedTrack) : Walked t []
  | cons {t : FeedTrack} {s : Stop} {rest : List Stop} (before : s.before.feed = t.feed)
      (after : s.after.feed = (t.read s.raw).feed)
      (block : ∃ n, s.block? = Block.read? s.raw n) : Walked (t.read s.raw) rest →
      Walked t (s :: rest)

theorem walkFrom_walked {settings : Settings} {m : Modal} {n : Int} {ls : Lines}
    {stops : List Stop} {t : FeedTrack} (hm : m.feed = t.feed)
    (h : m.walkFrom settings n ls = .ok stops) : Walked t stops := by
  induction ls generalizing m n stops t with
  | nil =>
    cases h
    exact .nil t
  | cons raw rest ih =>
    simp only [Modal.walkFrom, bind_eq_ok, pure_eq_ok] at h
    obtain ⟨s, hs, more, hmore, rfl⟩ := h
    obtain ⟨hraw, hbefore, hblock⟩ := stopAt_eq_ok hs
    have hafter : s.after.feed = (t.read s.raw).feed := by
      rw [FeedTrack.read, FeedTrack.hear_feed, hraw]
      rw [Modal.stopAt] at hs
      split at hs
      · rename_i hread
        cases hs
        rw [Block.sayings_of_read?_none hread]
        exact hm
      · rename_i b hread
        simp only [bind_eq_ok, pure_eq_ok] at hs
        obtain ⟨r, hr, rfl⟩ := hs
        rw [Block.sayings_of_read? hread, Block.feedSaid_eq, ← hm]
        exact resolve_feed hr
    refine .cons (by rw [hbefore, hm]) hafter ⟨n, by rw [hblock, hraw]⟩ (ih hafter hmore)

/-- The feed of a machine is the number of the last feed word. -/
theorem walk_walked {ls : Lines} {stops : List Stop} (h : walk ls = .ok stops) :
    Walked {} stops := walkFrom_walked rfl h

end PartProgram

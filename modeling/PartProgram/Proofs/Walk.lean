import PartProgram.Motion
import PartProgram.Proofs.Result

/-!
# PartProgram.Proofs.Walk

Walks through a program. A walk stops once at every line, in order, and finds there the block that
is read from the line.

* `walkFrom_raw`: the lines of a walk.
* `walkFrom_block`: the blocks of a walk.
-/

namespace PartProgram

variable {settings : Settings} {m : Modal} {n : Int} {ls : List String} {stops : List Stop}

/-- What a block says does not depend on where its line stands. -/
theorem Block.read?_map {α : Type} {f : Block → α} (hf : ∀ b k, f { b with line := k } = f b)
    (raw : String) (n k : Int) : (Block.read? raw n).map f = (Block.read? raw k).map f := by
  simp only [Block.read?, Option.map_map]
  refine Option.map_congr fun code _ => ?_
  exact (hf _ k).symm

theorem stopAt_eq_ok {raw : String} {s : Stop} (h : m.stopAt settings n raw = .ok s) :
    s.raw = raw ∧ s.before = m ∧ s.block? = Block.read? raw n := by
  rw [Modal.stopAt] at h
  split at h
  · rename_i hread
    cases h
    exact ⟨rfl, rfl, hread.symm⟩
  · rename_i b hread
    simp only [bind_eq_ok, pure_eq_ok] at h
    obtain ⟨r, -, rfl⟩ := h
    exact ⟨rfl, rfl, hread.symm⟩

/-- A walk stops at every line. -/
theorem walkFrom_raw (h : m.walkFrom settings n ls = .ok stops) : stops.map Stop.raw = ls := by
  induction ls generalizing m n stops with
  | nil =>
    cases h
    rfl
  | cons raw rest ih =>
    simp only [Modal.walkFrom, bind_eq_ok, pure_eq_ok] at h
    obtain ⟨s, hs, more, hmore, rfl⟩ := h
    rw [List.map_cons, (stopAt_eq_ok hs).1, ih hmore]

/-- The block at a stop is read from the line. -/
theorem walkFrom_block (h : m.walkFrom settings n ls = .ok stops) :
    ∀ s ∈ stops, ∀ b, s.block? = some b → ∃ k, Block.read? s.raw k = some b := by
  induction ls generalizing m n stops with
  | nil =>
    cases h
    simp
  | cons raw rest ih =>
    simp only [Modal.walkFrom, bind_eq_ok, pure_eq_ok] at h
    obtain ⟨s, hs, more, hmore, rfl⟩ := h
    intro t ht b hb
    cases ht with
    | head =>
      obtain ⟨hraw, -, hblock⟩ := stopAt_eq_ok hs
      exact ⟨n, by rw [hraw, ← hblock, hb]⟩
    | tail _ ht => exact ih hmore t ht b hb

/-- What a stop has found is what its block comes to in the state before it. -/
theorem stopAt_resolve {raw : String} {s : Stop} {b : Block} {r : Resolution}
    (h : m.stopAt settings n raw = .ok s) (hfound : s.found = some (b, r)) :
    s.before.resolve settings b = .ok r := by
  rw [Modal.stopAt] at h
  split at h
  · cases h
    cases hfound
  · simp only [bind_eq_ok, pure_eq_ok] at h
    obtain ⟨r', hr, rfl⟩ := h
    cases hfound
    exact hr

/-- A walk is made of its stops. -/
theorem walkFrom_stopAt (h : m.walkFrom settings n ls = .ok stops) :
    ∀ s ∈ stops, ∃ k, s.before.stopAt settings k s.raw = .ok s := by
  induction ls generalizing m n stops with
  | nil =>
    cases h
    simp
  | cons raw rest ih =>
    simp only [Modal.walkFrom, bind_eq_ok, pure_eq_ok] at h
    obtain ⟨s, hs, more, hmore, rfl⟩ := h
    intro t ht
    cases ht with
    | head =>
      obtain ⟨hraw, hbefore, -⟩ := stopAt_eq_ok hs
      exact ⟨n, by rw [hraw, hbefore, hs]⟩
    | tail _ ht => exact ih hmore t ht

end PartProgram

import Mathlib.Data.List.Induction
import Mathlib.Data.List.Nodup
import PartProgram.Proofs.Sessions
import PartProgram.Rule.Registry

/-!
# PartProgram.Proofs.Registrations

What a registry answers after any calls that register rules. The first call under a name decides
which rule holds it, and the rules for a control come by stage, then by order, then by the time of
that first call.

* `sortBy_pairwise`: sorting is stable: elements of one rank keep the order they came in.
* `register_eq`: what registering a rule can do.
* `keeps_after`: a registry after calls holds for each name the first rule called for it.
* `rulesFor_after_calls`: with that, what it lists for a control and what one more call answers.
-/

namespace PartProgram

/-! ## Stable sorting -/

section Sorting

variable {α : Type} {before : α → α → Bool}

/-- Whether an element stands before another once they are sorted: by rank, and among those of one
rank as they came. -/
def Sorted (before : α → α → Bool) (came : α → α → Prop) (a b : α) : Prop :=
  before a b = true ∨ before b a = false ∧ came a b

/-- A rank: nothing goes before itself, and what does not go before an element goes after all that
the element goes after. -/
structure IsRank (before : α → α → Bool) : Prop where
  asymm : ∀ {a b}, before a b = true → before b a = false
  weaken : ∀ {a b c}, before a b = true → before c b = false → before a c = true

theorem insertSorted_perm (a : α) (as : List α) : (insertSorted before a as).Perm (a :: as) := by
  induction as with
  | nil => exact .refl _
  | cons b rest ih =>
    rw [insertSorted]
    split
    · exact .refl _
    · exact (ih.cons b).trans (.swap a b rest)

theorem insertSorted_pairwise {came : α → α → Prop} (hrank : IsRank before) {a : α} {as : List α}
    (hlast : ∀ b ∈ as, came b a) (h : as.Pairwise (Sorted before came)) :
    (insertSorted before a as).Pairwise (Sorted before came) := by
  induction as with
  | nil => simp [insertSorted]
  | cons b rest ih =>
    obtain ⟨hb, hrest⟩ := List.pairwise_cons.1 h
    rw [insertSorted]
    split
    next hab =>
      -- everything from here on is of the rank of `b` or after it
      refine List.pairwise_cons.2 ⟨fun c hc => .inl ?_, h⟩
      rcases List.mem_cons.1 hc with rfl | hc
      · exact hab
      · obtain hbc | ⟨hcb, -⟩ := hb c hc
        · exact hrank.weaken hab (hrank.asymm hbc)
        · exact hrank.weaken hab hcb
    next hab =>
      refine List.pairwise_cons.2 ⟨fun c hc => ?_, ih (fun c hc => hlast c (.tail b hc)) hrest⟩
      rcases List.mem_cons.1 ((insertSorted_perm a rest).mem_iff.1 hc) with rfl | hc
      · exact .inr ⟨by simpa using hab, hlast b (.head _)⟩
      · exact hb c hc

theorem sortBy_append (as : List α) (a : α) :
    sortBy before (as ++ [a]) = insertSorted before a (sortBy before as) := by
  simp [sortBy, List.foldl_append]

theorem sortBy_perm (as : List α) : (sortBy before as).Perm as := by
  induction as using List.reverseRecOn with
  | nil => exact .refl _
  | append_singleton as a ih =>
    rw [sortBy_append]
    exact (insertSorted_perm a _).trans ((ih.cons a).trans (List.perm_append_singleton a as).symm)

theorem sortBy_pairwise {came : α → α → Prop} (hrank : IsRank before) {as : List α}
    (h : as.Pairwise came) : (sortBy before as).Pairwise (Sorted before came) := by
  induction as using List.reverseRecOn with
  | nil => exact .nil
  | append_singleton as a ih =>
    obtain ⟨has, -, hlast⟩ := List.pairwise_append.1 h
    rw [sortBy_append]
    refine insertSorted_pairwise hrank (fun b hb => ?_) (ih has)
    exact hlast b ((sortBy_perm as).mem_iff.1 hb) a (List.mem_singleton_self a)

end Sorting

namespace Registry

variable {α : Type} {g : Registry α} {r : Registration α} {name : String}

theorem isRank_before : IsRank (Registration.before (α := α)) where
  asymm {a b} h := by
    simp only [Registration.before, Bool.or_eq_true, decide_eq_true_eq, Bool.and_eq_true,
      beq_iff_eq, Bool.or_eq_false_iff, decide_eq_false_iff_not, Bool.and_eq_false_imp] at h ⊢
    omega
  weaken {a b c} h h' := by
    simp only [Registration.before, Bool.or_eq_true, decide_eq_true_eq, Bool.and_eq_true,
      beq_iff_eq, Bool.or_eq_false_iff, decide_eq_false_iff_not, Bool.and_eq_false_imp] at h h' ⊢
    omega

/-! ## What a registry holds -/

/-- A rule is in a registry exactly if it holds its name there. -/
theorem mem_registrations_iff : r ∈ g.registrations ↔ g.get? r.name = some r := by
  constructor
  · intro hr
    obtain ⟨holder, hget⟩ : ∃ holder, g.get? r.name = some holder := by
      cases h : g.get? r.name with
      | none => exact absurd (List.mem_map.2 ⟨r, hr, rfl⟩) (get?_eq_none h)
      | some holder => exact ⟨holder, rfl⟩
    have hname : holder.name = r.name := by simpa using List.find?_some hget
    rw [hget, List.inj_on_of_nodup_map g.distinct (List.mem_of_find?_eq_some hget) hr hname]
  · exact List.mem_of_find?_eq_some

theorem add_of_some {holder : Registration α} (h : g.get? r.name = some holder) : g.add r = g := by
  rw [add, dif_neg (by simp [h])]

theorem registrations_add (h : g.get? r.name = none) :
    (g.add r).registrations = g.registrations ++ [r] := by
  rw [add, dif_pos h]

/-- One more rule is found where nothing was found before. -/
theorem get?_add :
    (g.add r).get? name = (g.get? name).or ([r].find? (·.name == name)) := by
  cases h : g.get? r.name with
  | none => simp [get?, registrations_add h, List.find?_append]
  | some holder =>
    rw [add_of_some h]
    by_cases hname : r.name = name
    · simp [← hname, h]
    · simp [hname]

/-! ## The first call under each name -/

/-- When a name was first called for. -/
def firstCall (calls : List (Registration α)) (name : String) : Nat :=
  calls.findIdx (·.name == name)

/-- A registry keeps the first rule called for each name, in the order of those calls. -/
structure Keeps (calls : List (Registration α)) (g : Registry α) : Prop where
  kept : ∀ name, g.get? name = calls.find? (·.name == name)
  inTime : g.registrations.Pairwise fun a b => firstCall calls a.name < firstCall calls b.name

variable {calls : List (Registration α)}

theorem firstCall_append_of_some {holder : Registration α}
    (h : calls.find? (·.name == name) = some holder) :
    firstCall (calls ++ [r]) name = firstCall calls name := by
  have hlt : calls.findIdx (·.name == name) < calls.length :=
    List.findIdx_lt_length_of_exists
      ⟨holder, List.mem_of_find?_eq_some h, by simpa using List.find?_some h⟩
  rw [firstCall, List.findIdx_append, if_pos hlt, firstCall]

theorem firstCall_append_of_none (h : calls.find? (·.name == r.name) = none) :
    firstCall (calls ++ [r]) r.name = calls.length := by
  have hlen : calls.findIdx (·.name == r.name) = calls.length :=
    List.findIdx_eq_length.2 fun a ha => by simpa using List.find?_eq_none.1 h a ha
  simp [firstCall, List.findIdx_append, hlen]

theorem Keeps.add (h : Keeps calls g) (r : Registration α) : Keeps (calls ++ [r]) (g.add r) where
  kept name := by rw [get?_add, h.kept, List.find?_append]
  inTime := by
    have holds : ∀ a ∈ g.registrations, calls.find? (·.name == a.name) = some a := fun a ha =>
      (h.kept a.name).symm.trans (mem_registrations_iff.1 ha)
    have hlater : g.registrations.Pairwise fun a b =>
        firstCall (calls ++ [r]) a.name < firstCall (calls ++ [r]) b.name :=
      h.inTime.imp_of_mem fun ha hb hab => by
        rwa [firstCall_append_of_some (holds _ ha), firstCall_append_of_some (holds _ hb)]
    cases hget : g.get? r.name with
    | some holder => rwa [add_of_some hget]
    | none =>
      rw [registrations_add hget]
      refine List.pairwise_append.2 ⟨hlater, List.pairwise_singleton _ _, fun a ha b hb => ?_⟩
      obtain rfl := List.mem_singleton.1 hb
      rw [firstCall_append_of_some (holds a ha),
        firstCall_append_of_none ((h.kept b.name).symm.trans hget)]
      exact List.findIdx_lt_length_of_exists
        ⟨a, List.mem_of_find?_eq_some (holds a ha), by simp⟩

/-! ## The rules for a control -/

/-- Whether a rule comes before another: by stage, then by order, then by when its name was first
called for. -/
def Precedes (calls : List (Registration α)) (a b : Registration α) : Prop :=
  a.stage.number < b.stage.number ∨
    a.stage.number = b.stage.number ∧
      (a.order < b.order ∨
        a.order = b.order ∧ firstCall calls a.name < firstCall calls b.name)

/-- The rules listed for a control after calls: of each name that was called for, the first rule,
if it is for the control; each once, and in their order. -/
structure Lists (calls : List (Registration α)) (c : Controller)
    (rules : List (Registration α)) : Prop where
  mem_iff : ∀ r, r ∈ rules ↔ calls.find? (·.name == r.name) = some r ∧ r.appliesTo c = true
  once : (rules.map Registration.name).Nodup
  inOrder : rules.Pairwise (Precedes calls)

theorem precedes_of_sorted {a b : Registration α}
    (h : Sorted Registration.before
      (fun a b => firstCall calls a.name < firstCall calls b.name) a b) : Precedes calls a b := by
  simp only [Sorted, Registration.before, Bool.or_eq_true, decide_eq_true_eq, Bool.and_eq_true,
    beq_iff_eq, Bool.or_eq_false_iff, decide_eq_false_iff_not, Bool.and_eq_false_imp] at h
  unfold Precedes
  omega

theorem Keeps.lists (h : Keeps calls g) (c : Controller) : Lists calls c (g.rulesFor c) where
  mem_iff r := by
    rw [rulesFor, List.mem_filter, ordered, (sortBy_perm _).mem_iff, mem_registrations_iff, h.kept]
  once := by
    have hnames : (g.ordered.map Registration.name).Nodup :=
      ((sortBy_perm g.registrations).map Registration.name).nodup_iff.2 g.distinct
    exact hnames.sublist (List.filter_sublist.map _)
  inOrder :=
    ((sortBy_pairwise isRank_before h.inTime).imp precedes_of_sorted).sublist List.filter_sublist

/-! ## Calls -/

section Calls

variable [DecidableEq α] {label : α → String}

/-- A name that is held stays with its holder, and a name that is free goes to the rule. -/
theorem register_eq :
    register label r g =
      match g.get? r.name with
      | some holder =>
        if holder.rule = r.rule then .ok () g
        else .error (.taken r.name (label holder.rule)) g
      | none => .ok () (g.add r) := by
  have hrun : register label r g =
      (match g.get? r.name with
        | some holder =>
          if holder.rule ≠ r.rule then throw (.taken r.name (label holder.rule)) else pure ()
        | none => set (g.add r) : EStateM RegistryFault (Registry α) Unit) g := rfl
  rw [hrun]
  cases g.get? r.name with
  | none => rfl
  | some holder =>
    by_cases hsame : holder.rule = r.rule
    · simp [hsame, pure, EStateM.pure]
    · simp only [hsame, ne_eq, not_false_eq_true, if_true, if_false]
      rfl

theorem answer_register :
    Session.answer (register label r) g =
      match g.get? r.name with
      | some holder =>
        if holder.rule = r.rule then .ok () else .error (.taken r.name (label holder.rule))
      | none => .ok () := by
  rw [Session.answer, register_eq]
  cases g.get? r.name with
  | none => rfl
  | some holder =>
    by_cases hsame : holder.rule = r.rule <;> simp [hsame]

theorem state_register : Session.state (register label r) g = g.add r := by
  rw [Session.state, register_eq]
  cases h : g.get? r.name with
  | none => rfl
  | some holder =>
    rw [add_of_some h]
    by_cases hsame : holder.rule = r.rule <;> simp [hsame]

theorem keeps_after (label : α → String) (calls : List (Registration α)) :
    Keeps calls (Session.after (register label) calls empty) := by
  induction calls using List.reverseRecOn with
  | nil => exact ⟨fun _ => rfl, .nil⟩
  | append_singleton calls r ih =>
    rw [Session.after_append, Session.after_cons, state_register]
    exact ih.add r

/-- A registry that was empty before any calls holds for each name the first rule called for it, and
lists those for a control in their order. One more call fails exactly if another rule holds the
name. If the name is held, whether the call fails or not, everything goes on as if it had not been
made. -/
theorem rulesFor_after_calls (label : α → String) (calls : List (Registration α)) :
    let g := Session.after (register label) calls empty
    (∀ name, g.get? name = calls.find? (·.name == name)) ∧
    (∀ c, Lists calls c (g.rulesFor c)) ∧
    (∀ r, Session.answer (register label r) g =
      match calls.find? (·.name == r.name) with
      | some holder =>
        if holder.rule = r.rule then .ok () else .error (.taken r.name (label holder.rule))
      | none => .ok ()) ∧
    ∀ r later, (calls.find? (·.name == r.name)).isSome →
      Session.answers (register label) later (Session.state (register label r) g) =
        Session.answers (register label) later g ∧
      Session.after (register label) (calls ++ r :: later) empty =
        Session.after (register label) (calls ++ later) empty := by
  intro g
  have hkeeps : Keeps calls g := keeps_after label calls
  refine ⟨hkeeps.kept, hkeeps.lists, fun r => ?_, fun r later hheld => ?_⟩
  · rw [answer_register, hkeeps.kept]
  · obtain ⟨holder, hfind⟩ := Option.isSome_iff_exists.1 hheld
    have hsame : Session.state (register label r) g = g := by
      rw [state_register, add_of_some ((hkeeps.kept r.name).trans hfind)]
    rw [Session.after_append, Session.after_cons, Session.after_append, hsame]
    exact ⟨rfl, rfl⟩

/-- One name called for by two rules, one rule called for twice, and one for no control at all. -/
theorem rulesFor_after_calls_conflict :
    let calls : List (Registration Nat) :=
      [⟨"clamp", .feedAndArc, 2, none, 1⟩, ⟨"trim", .normalize, 7, some [.fanuc], 2⟩,
        ⟨"fit", .feedAndArc, 2, some [], 3⟩, ⟨"merge", .feedAndArc, 2, none, 4⟩,
        ⟨"trim", .controller, 0, none, 2⟩, ⟨"probe", .feedAndArc, -1, some [.fanuc], 5⟩]
    let r : Registration Nat := ⟨"clamp", .normalize, 0, none, 6⟩
    let g := Session.after (register toString) calls empty
    (calls.find? (·.name == r.name)).isSome ∧
      (g.rulesFor .fanuc).map Registration.name = ["trim", "probe", "clamp", "merge"] ∧
      (g.rulesFor .haas).map Registration.name = ["clamp", "merge"] ∧
      Session.answer (register toString r) g = .error (.taken "clamp" "1") ∧
      Session.after (register toString) (calls ++ [r]) empty = g := by
  intro calls r g
  have hheld : (calls.find? (·.name == r.name)).isSome := by decide
  obtain ⟨-, -, hanswer, hforget⟩ := rulesFor_after_calls toString calls
  refine ⟨hheld, by decide +kernel, by decide +kernel, ?_, ?_⟩
  · exact (hanswer r).trans (by decide +kernel)
  · simpa using (hforget r [] hheld).2

end Calls

end Registry

end PartProgram

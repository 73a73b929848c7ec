import PartProgram.Controller
import PartProgram.Options.Flag

/-!
# PartProgram.Rule.Registry

Rules by name. A registry grows at its end and never holds two rules of one name: the first one to
come under a name keeps it. Rules run by stage, then by order, then as they came.
-/

namespace PartProgram

/-- Stages of an optimization, in the order they run. -/
inductive Stage where
  | normalize
  | redundancy
  | consolidation
  | feedAndArc
  | controller
deriving DecidableEq, Repr

namespace Stage

def all : List Stage := [normalize, redundancy, consolidation, feedAndArc, controller]

def name : Stage → String
  | normalize => "NORMALIZE"
  | redundancy => "REDUNDANCY"
  | consolidation => "CONSOLIDATION"
  | feedAndArc => "FEED_ARC"
  | controller => "CONTROLLER"

def number : Stage → Nat
  | normalize => 1
  | redundancy => 2
  | consolidation => 3
  | feedAndArc => 4
  | controller => 5

end Stage

/-- Why a rule is not taken up. -/
inductive RegistryFault where
  | noStage (number : Int)
  /-- another rule holds the name -/
  | taken (name holder : String)
deriving DecidableEq, Repr

def RegistryFault.message : RegistryFault → String
  | noStage n => toString n ++ " is not a valid Stage"
  | taken name holder => "Rule '" ++ name ++ "' is already registered by " ++ holder

def Stage.ofNumber (n : Int) : Except RegistryFault Stage :=
  match all.find? fun s => (s.number : Int) == n with
  | some s => .ok s
  | none => .error (.noStage n)

/-- A rule with its place. -/
structure Registration (α : Type) where
  name : String
  stage : Stage
  order : Int
  /-- the controls the rule is for; every control if none are listed -/
  controllers : Option (List Controller)
  rule : α
deriving Repr

namespace Registration

variable {α : Type}

def appliesTo (r : Registration α) (c : Controller) : Bool :=
  r.controllers.all (·.contains c)

/-- Whether one rule runs before another for its place alone. -/
def before (a b : Registration α) : Bool :=
  decide (a.stage.number < b.stage.number) ||
    (a.stage.number == b.stage.number && decide (a.order < b.order))

end Registration

structure Registry (α : Type) where
  registrations : List (Registration α) := []
  distinct : (registrations.map Registration.name).Nodup := by decide

namespace Registry

variable {α : Type}

/-- The registry before any rule is taken up. -/
def empty : Registry α := ⟨[], .nil⟩

def get? (g : Registry α) (name : String) : Option (Registration α) :=
  g.registrations.find? (·.name == name)

theorem get?_eq_none {g : Registry α} {name : String} (h : g.get? name = none) :
    name ∉ g.registrations.map Registration.name := by
  intro hmem
  obtain ⟨r, hr, rfl⟩ := List.mem_map.1 hmem
  have := List.find?_eq_none.1 h r hr
  simp at this

/-- The registry with one more rule, unless its name is held already. -/
def add (g : Registry α) (r : Registration α) : Registry α :=
  if h : g.get? r.name = none then
    ⟨g.registrations ++ [r], by
      simpa [List.nodup_append] using And.intro g.distinct fun a ha heq =>
        get?_eq_none h (List.mem_map.2 ⟨a, ha, heq⟩)⟩
  else g

/-- Takes up a rule. A rule that holds its name already changes nothing. -/
def register [DecidableEq α] (label : α → String) (r : Registration α) :
    EStateM RegistryFault (Registry α) Unit := do
  let g ← get
  match g.get? r.name with
  | some holder =>
    if holder.rule ≠ r.rule then throw (.taken r.name (label holder.rule))
  | none => set (g.add r)

/-- All rules as they run. -/
def ordered (g : Registry α) : List (Registration α) := sortBy Registration.before g.registrations

/-- The rules for one control as they run. -/
def rulesFor (g : Registry α) (c : Controller) : List (Registration α) :=
  g.ordered.filter (·.appliesTo c)

end Registry

end PartProgram

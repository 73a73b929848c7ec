/-!
# PartProgram.Session

Calls on an object, one after the other. A call answers or fails; what it has stored until then stays
stored either way, and the calls after it find the object as it left it.
-/

namespace PartProgram

namespace Session

variable {κ σ ε α : Type}

/-- What a call answers on an object. -/
def answer (call : EStateM ε σ α) (s : σ) : Except ε α :=
  match call s with
  | .ok a _ => .ok a
  | .error e _ => .error e

/-- The object as a call leaves it. -/
def state (call : EStateM ε σ α) (s : σ) : σ :=
  match call s with
  | .ok _ s => s
  | .error _ s => s

/-- The object as a list of calls leaves it. -/
def after (perform : κ → EStateM ε σ α) (calls : List κ) (s : σ) : σ :=
  calls.foldl (fun s c => state (perform c) s) s

/-- What a list of calls answers. -/
def answers (perform : κ → EStateM ε σ α) : List κ → σ → List (Except ε α)
  | [], _ => []
  | c :: rest, s => answer (perform c) s :: answers perform rest (state (perform c) s)

end Session

end PartProgram

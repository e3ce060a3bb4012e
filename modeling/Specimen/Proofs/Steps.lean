/-
Computations that change a state and may fail, taken apart.  A sequence
succeeds exactly when both of its parts do, one behind the other; where the
first part fails, the sequence fails in the state that it has reached.
-/
import Specimen.Session

namespace Specimen

/-- What a computation gives from a state, and the state that it leaves. -/
def outcome {ε S α : Type} (act : ExceptT ε (StateM S) α) (s : S) :
    Except ε α × S :=
  act s

variable {ε S α β : Type}

@[simp] theorem outcome_pure (a : α) (s : S) :
    outcome (pure a : ExceptT ε (StateM S) α) s = (.ok a, s) := rfl

@[simp] theorem outcome_throw (e : ε) (s : S) :
    outcome (throw e : ExceptT ε (StateM S) α) s = (.error e, s) := rfl

@[simp] theorem outcome_get_bind (next : S → ExceptT ε (StateM S) β) (s : S) :
    outcome (get >>= next) s = outcome (next s) s := rfl

@[simp] theorem outcome_modify (f : S → S) (s : S) :
    outcome (modify f : ExceptT ε (StateM S) Unit) s = (.ok (), f s) := rfl

@[simp] theorem outcome_modify_bind (f : S → S)
    (next : Unit → ExceptT ε (StateM S) β)
    (s : S) : outcome (modify f >>= next) s = outcome (next ()) (f s) := rfl

@[simp] theorem outcome_lift (x : Except ε α) (s : S) :
    outcome (liftM x : ExceptT ε (StateM S) α) s = (x, s) := rfl

theorem outcome_bind_of_ok {first : ExceptT ε (StateM S) α}
    {next : α → ExceptT ε (StateM S) β} {s t : S} {a : α}
    (hfirst : outcome first s = (.ok a, t)) :
    outcome (first >>= next) s = outcome (next a) t := by
  rw [outcome] at hfirst
  simp [outcome, bind, ExceptT.bind, ExceptT.mk, ExceptT.bindCont, StateT.bind,
    hfirst]

theorem outcome_bind_of_error {first : ExceptT ε (StateM S) α}
    {next : α → ExceptT ε (StateM S) β} {s t : S} {e : ε}
    (hfirst : outcome first s = (.error e, t)) :
    outcome (first >>= next) s = (.error e, t) := by
  rw [outcome] at hfirst
  simp only [outcome, bind, ExceptT.bind, ExceptT.mk, StateT.bind, hfirst]
  rfl

theorem outcome_bind_pure (act : ExceptT ε (StateM S) α) (f : α → β) (s : S) :
    outcome (act >>= fun a => pure (f a)) s =
      ((outcome act s).1.map f, (outcome act s).2) := by
  rcases hact : outcome act s with ⟨result, t⟩
  cases result with
  | ok a => rw [outcome_bind_of_ok hact]; rfl
  | error e => rw [outcome_bind_of_error hact]; rfl

/-- A sequence that succeeds has gone through a success of its first part. -/
theorem outcome_bind_eq_ok_iff {first : ExceptT ε (StateM S) α}
    {next : α → ExceptT ε (StateM S) β} {s u : S} {b : β} :
    outcome (first >>= next) s = (.ok b, u) ↔
      ∃ a t, outcome first s = (.ok a, t) ∧
        outcome (next a) t = (.ok b, u) := by
  rcases hfirst : outcome first s with ⟨result, t⟩
  cases result with
  | ok a => simp [outcome_bind_of_ok hfirst, and_assoc]
  | error e => simp [outcome_bind_of_error hfirst]

end Specimen

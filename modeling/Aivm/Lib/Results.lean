import Mathlib.Data.List.Basic

/-!
# Computations that may fail

What a sequence of steps tells of each of them where it succeeds.
-/

namespace Results

variable {ε ε' α β : Type}

/-- The bind of `Except` succeeds when both parts do. -/
theorem bind_ok {x : Except ε α} {f : α → Except ε β} {b : β} : (x >>= f) = .ok b ↔ ∃ a, x = .ok a ∧ f a = .ok b := by
  cases x with
  | error e => simp [bind, Except.bind]
  | ok a => simp [bind, Except.bind]

/-- A translation of errors keeps successes. -/
theorem mapError_ok {x : Except ε α} {f : ε → ε'} {a : α} : x.mapError f = .ok a ↔ x = .ok a := by
  cases x with
  | error e => simp [Except.mapError]
  | ok a => simp [Except.mapError]

end Results

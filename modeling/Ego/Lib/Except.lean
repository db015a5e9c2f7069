import Mathlib.Tactic.Common

/-!
# Successful computations

Inversion rules for taking a `do` block apart.
-/

namespace Ego.Lib

universe u v

variable {ε ε' : Type u} {α β : Type v}

theorem bind_eq_ok {x : Except ε α} {f : α → Except ε β} {b : β} :
    (x >>= f) = .ok b ↔ ∃ a, x = .ok a ∧ f a = .ok b := by
  cases x with
  | error e => simp [bind, Except.bind]
  | ok a => simp [bind, Except.bind]

theorem check_eq_ok {x : Except ε PUnit} {f : PUnit → Except ε β} {b : β} :
    (x >>= f) = .ok b ↔ x = .ok ⟨⟩ ∧ f ⟨⟩ = .ok b := by
  rw [bind_eq_ok]
  exact ⟨fun ⟨_, hx, hf⟩ => ⟨hx, hf⟩, fun ⟨hx, hf⟩ => ⟨⟨⟩, hx, hf⟩⟩

theorem mapError_eq_ok {x : Except ε α} {f : ε → ε'} {a : α} : x.mapError f = .ok a ↔ x = .ok a := by
  cases x <;> simp [Except.mapError]

theorem map_eq_ok {x : Except ε α} {f : α → β} {b : β} : x.map f = .ok b ↔ ∃ a, x = .ok a ∧ f a = b := by
  cases x <;> simp [Except.map]

end Ego.Lib

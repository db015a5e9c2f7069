import Ego.Lib.Runs

/-!
# A step that leaves no trace

Two runs are compared: one with a step, or an input and the steps that deal with it, and
one without.
-/

namespace Ego.Lib

inductive Act (ι ρ : Type) where
  | own (l : ι)
  | others (record : ρ)
  deriving DecidableEq, Repr

def amid {ν ρ ι : Type} (act : ν → ρ → ι → ν × ρ) (s : ν × ρ) : Act ι ρ → ν × ρ
  | .own l => act s.1 s.2 l
  | .others record => (s.1, record)

variable {σ ι : Type*} (step : σ → ι → σ)

end Ego.Lib

import Mathlib.Tactic.Common

/-! # Calls that do not interfere -/

namespace Ego.Lib.Unwinding

variable {σ ι ρ : Type} (step : σ → ι → ρ × σ)

def answers : σ → List ι → List (ι × ρ)
  | _, [] => []
  | s, call :: calls => (call, (step s call).1) :: answers (step s call).2 calls

def observed (restrict : ι → Option ι) (s : σ) (calls : List ι) : List ρ :=
  ((answers step s calls).filter fun x => (restrict x.1).isSome).map (·.2)

def alone (restrict : ι → Option ι) (s : σ) (calls : List ι) : List ρ :=
  (answers step s (calls.filterMap restrict)).map (·.2)

structure Unwinds (restrict : ι → Option ι) (Agree : σ → σ → Prop) : Prop where
  dropped : ∀ s s' call, restrict call = none → Agree s s' → Agree (step s call).2 s'
  kept : ∀ s s' call call', restrict call = some call' → Agree s s' →
    (step s call).1 = (step s' call').1 ∧ Agree (step s call).2 (step s' call').2

variable {step} {restrict : ι → Option ι} {Agree : σ → σ → Prop}

theorem Unwinds.observed_eq (h : Unwinds step restrict Agree) {s s' : σ} (hs : Agree s s') (calls : List ι) :
    observed step restrict s calls = alone step restrict s' calls := by
  induction calls generalizing s s' with
  | nil => rfl
  | cons call calls ih =>
    unfold observed alone at ih ⊢
    rw [answers]
    cases hr : restrict call with
    | none =>
      rw [List.filter_cons_of_neg (by simp [hr]), List.filterMap_cons_none hr]
      exact ih (h.dropped s s' call hr hs)
    | some call' =>
      obtain ⟨hanswer, hnext⟩ := h.kept s s' call call' hr hs
      rw [List.filter_cons_of_pos (by simp [hr]), List.filterMap_cons_some hr, answers, List.map_cons, List.map_cons,
        ih hnext, hanswer]

end Ego.Lib.Unwinding

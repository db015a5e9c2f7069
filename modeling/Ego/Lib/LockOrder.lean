import Mathlib.Logic.Relation
import Mathlib.Order.Defs.PartialOrder
import Mathlib.Tactic.Common

/-! # Locks taken in order -/

namespace Ego.Lib

variable {ρ φ κ : Type*} [Preorder κ] {wants holds : ρ → φ → Prop} {key : φ → κ}

def WaitsFor (wants holds : ρ → φ → Prop) (a b : ρ) : Prop := ∃ lock, wants a lock ∧ holds b lock

theorem waits_grow (h : ∀ r held wanted, holds r held → wants r wanted → key held < key wanted) {a b : ρ}
    (hwait : Relation.TransGen (WaitsFor wants holds) a b) :
    ∃ wanted held, wants a wanted ∧ holds b held ∧ key wanted ≤ key held := by
  induction hwait with
  | single hone =>
    obtain ⟨lock, hwants, hholds⟩ := hone
    exact ⟨lock, lock, hwants, hholds, le_refl _⟩
  | tail _ hlast ih =>
    obtain ⟨wanted, held, hwants, hholds, hle⟩ := ih
    obtain ⟨lock, hnext, hends⟩ := hlast
    exact ⟨wanted, lock, hwants, hends, le_trans hle (le_of_lt (h _ _ _ hholds hnext))⟩

variable (key) in
theorem no_circular_wait (h : ∀ r held wanted, holds r held → wants r wanted → key held < key wanted) (r : ρ) :
    ¬ Relation.TransGen (WaitsFor wants holds) r r := by
  intro hcycle
  obtain ⟨wanted, held, hwants, hholds, hle⟩ := waits_grow h hcycle
  exact lt_irrefl _ (lt_of_le_of_lt hle (h r held wanted hholds hwants))

end Ego.Lib

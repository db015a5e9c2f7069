import Mathlib.Tactic.Common

/-! # Multiples in a range -/

namespace Ego.Lib

def Passes (interval lo hi : ℕ) : Prop := ∃ k, lo < k * interval ∧ k * interval ≤ hi

section
variable {interval lo mid hi : ℕ}

theorem not_passes_self : ¬ Passes interval lo lo := by
  rintro ⟨k, hlt, hle⟩
  omega

theorem passes_of_dvd (hlt : lo < hi) (hd : interval ∣ hi) : Passes interval lo hi := by
  obtain ⟨k, rfl⟩ := hd
  rw [Nat.mul_comm] at hlt ⊢
  exact ⟨k, hlt, Nat.le_refl _⟩

theorem not_passes_trans (h : ¬ Passes interval lo mid) (h' : ¬ Passes interval mid hi) :
    ¬ Passes interval lo hi := by
  rintro ⟨k, hlt, hle⟩
  rcases Nat.lt_or_ge mid (k * interval) with hmid | hmid
  · exact h' ⟨k, hmid, hle⟩
  · exact h ⟨k, hlt, hmid⟩

theorem passes_iff_div (hi0 : 0 < interval) : Passes interval lo hi ↔ lo / interval < hi / interval := by
  constructor
  · rintro ⟨k, hlt, hle⟩
    have hlo : lo / interval < k := (Nat.div_lt_iff_lt_mul hi0).mpr hlt
    have hhi : k ≤ hi / interval := (Nat.le_div_iff_mul_le hi0).mpr hle
    omega
  · intro h
    exact ⟨hi / interval, (Nat.div_lt_iff_lt_mul hi0).mp h, Nat.div_mul_le_self hi interval⟩

theorem lt_of_not_passes (hi0 : 0 < interval) (h : ¬ Passes interval lo hi) : hi < lo + interval := by
  by_contra hge
  refine h ⟨lo / interval + 1, ?_, ?_⟩
  · exact (Nat.div_lt_iff_lt_mul hi0).mp (Nat.lt_succ_self _)
  · have hle := Nat.div_mul_le_self lo interval
    have hmul : (lo / interval + 1) * interval = lo / interval * interval + interval := by
      rw [Nat.add_mul, Nat.one_mul]
    omega

theorem not_passes_add_iff (hi0 : 0 < interval) (n : ℕ) :
    ¬ Passes interval lo (lo + n) ↔ lo % interval + n < interval := by
  rw [passes_iff_div hi0]
  have hsplit := Nat.div_add_mod lo interval
  constructor
  · intro h
    have hsame : (lo + n) / interval = lo / interval :=
      Nat.le_antisymm (Nat.not_lt.mp h) (Nat.div_le_div_right (Nat.le_add_right lo n))
    have hsum := Nat.div_add_mod (lo + n) interval
    have hlt := Nat.mod_lt (lo + n) hi0
    rw [hsame] at hsum
    omega
  · intro h
    have hsame : (lo + n) / interval < lo / interval + 1 := by
      rw [Nat.div_lt_iff_lt_mul hi0, Nat.add_mul, Nat.one_mul, Nat.mul_comm]
      omega
    omega

end

end Ego.Lib

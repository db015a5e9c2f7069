import Mathlib.Data.List.Basic

/-! # Contiguously numbered lists -/

namespace Ego.Lib

variable {α : Type*} (num : α → ℕ)

def Numbered : ℕ → List α → Prop
  | _, [] => True
  | b, x :: xs => num x = b + 1 ∧ Numbered (b + 1) xs

instance Numbered.decidable : (b : ℕ) → (xs : List α) → Decidable (Numbered num b xs)
  | _, [] => inferInstanceAs (Decidable True)
  | b, x :: xs =>
    have := Numbered.decidable (b + 1) xs
    inferInstanceAs (Decidable (num x = b + 1 ∧ Numbered num (b + 1) xs))

variable {num}

@[simp] theorem numbered_nil (b : ℕ) : Numbered num b [] := trivial

variable {b : ℕ} {xs : List α}

@[simp] theorem numbered_cons {x : α} : Numbered num b (x :: xs) ↔ num x = b + 1 ∧ Numbered num (b + 1) xs :=
    Iff.rfl

theorem numbered_append {ys : List α} :
    Numbered num b (xs ++ ys) ↔ Numbered num b xs ∧ Numbered num (b + xs.length) ys := by
  induction xs generalizing b with
  | nil => simp
  | cons x xs ih =>
    have h : b + 1 + xs.length = b + (x :: xs).length := by
      simp only [List.length_cons]
      omega
    rw [List.cons_append, numbered_cons, numbered_cons, ih, h, and_assoc]

theorem Numbered.bounds (h : Numbered num b xs) : ∀ x ∈ xs, b < num x ∧ num x ≤ b + xs.length := by
  induction xs generalizing b with
  | nil => simp
  | cons y ys ih =>
    intro x hx
    rcases List.mem_cons.mp hx with rfl | hx
    · simp only [h.1, List.length_cons]
      omega
    · have := ih h.2 x hx
      simp only [List.length_cons]
      omega

theorem Numbered.pairwise (h : Numbered num b xs) : xs.Pairwise fun x y => num x < num y := by
  induction xs generalizing b with
  | nil => simp
  | cons x xs ih =>
    refine List.pairwise_cons.mpr ⟨?_, ih h.2⟩
    intro y hy
    have := (h.2.bounds y hy).1
    have := h.1
    omega

theorem Numbered.covers (h : Numbered num b xs) {k : ℕ} (hlt : b < k) (hle : k ≤ b + xs.length) :
    k ∈ xs.map num := by
  induction xs generalizing b with
  | nil =>
    rw [List.length_nil] at hle
    omega
  | cons x xs ih =>
    rw [List.map_cons, List.mem_cons]
    by_cases hk : k = b + 1
    · exact .inl (hk.trans h.1.symm)
    · rw [List.length_cons] at hle
      exact .inr (ih h.2 (by omega) (by omega))

end Ego.Lib

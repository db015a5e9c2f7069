import Mathlib.Data.List.Perm.Basic

/-! # Order-preserving interleavings -/

namespace Ego.Lib

variable {α : Type*}

def interleave : List Bool → List α → List α → List α
  | [], xs, ys => xs ++ ys
  | _ :: _, [], ys => ys
  | _ :: _, x :: xs, [] => x :: xs
  | true :: cs, x :: xs, ys => x :: interleave cs xs ys
  | false :: cs, xs, y :: ys => y :: interleave cs xs ys

@[simp] theorem interleave_nil (xs ys : List α) : interleave [] xs ys = xs ++ ys := rfl

@[simp] theorem interleave_nil_left (cs : List Bool) (ys : List α) : interleave cs [] ys = ys := by
  cases cs <;> rfl

theorem interleave_perm (cs : List Bool) (xs ys : List α) : (interleave cs xs ys).Perm (xs ++ ys) := by
  induction cs generalizing xs ys with
  | nil => exact .refl _
  | cons c cs ih =>
    cases xs with
    | nil => simp
    | cons x xs =>
      cases ys with
      | nil => simp [interleave]
      | cons y ys =>
        cases c with
        | true => exact (ih xs (y :: ys)).cons x
        | false =>
          have h : (y :: interleave cs (x :: xs) ys).Perm (y :: (x :: xs ++ ys)) :=
            (ih (x :: xs) ys).cons y
          exact h.trans List.perm_middle.symm

theorem mem_interleave {cs : List Bool} {xs ys : List α} {a : α} : a ∈ interleave cs xs ys ↔ a ∈ xs ∨
    a ∈ ys := by
  rw [(interleave_perm cs xs ys).mem_iff, List.mem_append]

end Ego.Lib

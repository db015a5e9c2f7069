import Mathlib.Data.List.Nodup

/-! # Each element where it first occurs -/

namespace Ego.Lib

variable {α : Type} [DecidableEq α]

def addNew (seen : List α) (x : α) : List α := if x ∈ seen then seen else seen ++ [x]

def distinct (xs : List α) : List α := xs.foldl addNew []

theorem mem_addNew {seen : List α} {x y : α} : y ∈ addNew seen x ↔ y ∈ seen ∨ y = x := by
  unfold addNew
  split
  · rename_i hmem
    exact ⟨.inl, fun h => h.elim id fun heq => heq ▸ hmem⟩
  · simp

theorem nodup_addNew {seen : List α} (h : seen.Nodup) (x : α) : (addNew seen x).Nodup := by
  unfold addNew
  split
  · exact h
  · rename_i hnew
    exact List.nodup_append.mpr ⟨h, List.nodup_singleton x, fun a ha b hb hab =>
      hnew (List.mem_singleton.mp hb ▸ hab ▸ ha)⟩

theorem foldl_addNew (xs seen : List α) (h : seen.Nodup) :
    (xs.foldl addNew seen).Nodup ∧ ∀ y, y ∈ xs.foldl addNew seen ↔ y ∈ seen ∨ y ∈ xs := by
  induction xs generalizing seen with
  | nil => exact ⟨h, by simp⟩
  | cons x xs ih =>
    obtain ⟨hnodup, hmem⟩ := ih (addNew seen x) (nodup_addNew h x)
    refine ⟨hnodup, fun y => ?_⟩
    rw [List.foldl_cons, hmem, mem_addNew, List.mem_cons, or_assoc]

theorem distinct_nodup (xs : List α) : (distinct xs).Nodup := (foldl_addNew xs [] List.nodup_nil).1

theorem mem_distinct {xs : List α} {y : α} : y ∈ distinct xs ↔ y ∈ xs := by
  have h := (foldl_addNew xs [] List.nodup_nil).2 y
  simpa [distinct] using h

end Ego.Lib

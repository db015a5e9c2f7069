import Mathlib.Data.List.Nodup
import Mathlib.Logic.Relation

/-!
# Linked nodes

`Exclusive`: no node has two owners, which a node that changes hands keeps.
-/

namespace Ego.Lib

variable {α ο : Type*}

def Chained (next : α → Option α) : α → List α → Prop
  | a, [] => next a = none
  | a, b :: l => next a = some b ∧ Chained next b l

section
variable {next : α → Option α} {a t n : α} {l : List α}

theorem Chained.next_head (h : Chained next a l) : next a = l.head? := by
  cases l with
  | nil => exact h
  | cons b l => exact h.1

theorem Chained.mem_of_next (h : Chained next a l) (ht : t ∈ a :: l) (hn : next t = some n) : n ∈ l := by
  induction l generalizing a with
  | nil =>
    obtain rfl := List.mem_singleton.mp ht
    rw [Chained, hn] at h
    cases h
  | cons b l ih =>
    obtain rfl | ht := List.mem_cons.mp ht
    · obtain rfl := Option.some.inj (hn.symm.trans h.1)
      exact List.mem_cons_self
    · exact List.mem_cons_of_mem b (ih h.2 ht)

theorem Chained.reaches (h : Chained next a l) (ht : t ∈ a :: l) :
    Relation.ReflTransGen (fun x y => next x = some y) a t := by
  induction l generalizing a with
  | nil =>
    obtain rfl := List.mem_singleton.mp ht
    exact .refl
  | cons b l ih =>
    obtain rfl | ht := List.mem_cons.mp ht
    · exact .refl
    · exact .head h.1 (ih h.2 ht)

variable [DecidableEq α]

theorem Chained.update (h : Chained next a l) (hn : n ∉ a :: l) (x : Option α) :
    Chained (Function.update next n x) a l := by
  induction l generalizing a with
  | nil =>
    have hne : a ≠ n := fun heq => hn (by simp [heq])
    rw [Chained, Function.update_of_ne hne]
    exact h
  | cons b l ih =>
    have hne : a ≠ n := fun heq => hn (by simp [heq])
    rw [Chained, Function.update_of_ne hne]
    exact ⟨h.1, ih h.2 fun hmem => hn (List.mem_cons_of_mem a hmem)⟩

theorem Chained.link (h : Chained next a l) (hnodup : (a :: l).Nodup) (ht : t ∈ a :: l) (hlast : next t = none)
    (hn : n ∉ a :: l) (hspare : next n = none) : Chained (Function.update next t (some n)) a (l ++ [n]) := by
  induction l generalizing a with
  | nil =>
    obtain rfl := List.mem_singleton.mp ht
    have hne : n ≠ t := fun heq => hn (by simp [heq])
    refine ⟨Function.update_self t _ next, ?_⟩
    rw [Chained, Function.update_of_ne hne]
    exact hspare
  | cons b l ih =>
    obtain ⟨hout, hrest⟩ := List.nodup_cons.mp hnodup
    obtain rfl | ht := List.mem_cons.mp ht
    · rw [h.1] at hlast
      cases hlast
    · have hne : a ≠ t := fun heq => hout (heq ▸ ht)
      refine ⟨?_, ih h.2 hrest ht fun hmem => hn (List.mem_cons_of_mem a hmem)⟩
      rw [Function.update_of_ne hne]
      exact h.1

end

def Exclusive (owns : ο → α → Prop) : Prop := ∀ o o' n, owns o n → owns o' n → o = o'

theorem Exclusive.transfer {owns owns' : ο → α → Prop} (h : Exclusive owns) {x : α} {owner : ο}
    (hmove : ∀ o n, owns' o n → n ≠ x ∧ owns o n ∨ n = x ∧ o = owner) : Exclusive owns' := by
  intro o o' n ho ho'
  obtain ⟨hne, ho⟩ | ⟨rfl, rfl⟩ := hmove o n ho
  · obtain ⟨-, ho'⟩ | ⟨rfl, -⟩ := hmove o' n ho'
    · exact h o o' n ho ho'
    · exact absurd rfl hne
  · obtain ⟨hne, -⟩ | ⟨-, rfl⟩ := hmove o' n ho'
    · exact absurd rfl hne
    · rfl

end Ego.Lib

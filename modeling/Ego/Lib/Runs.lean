import Mathlib.Tactic.Common

/-!
# Runs of a step function

`run_invariant` is the induction all safety results go through.
-/

namespace Ego.Lib

variable {σ ι : Type*} (step : σ → ι → σ)

def run (s : σ) (labels : List ι) : σ := labels.foldl step s

@[simp] theorem run_nil (s : σ) : run step s [] = s := rfl

@[simp] theorem run_cons (s : σ) (l : ι) (ls : List ι) : run step s (l :: ls) = run step (step s l) ls := rfl

theorem run_append (s : σ) (xs ys : List ι) : run step s (xs ++ ys) = run step (run step s xs) ys :=
  List.foldl_append

def Along (ok : σ → ι → Prop) : σ → List ι → Prop
  | _, [] => True
  | s, l :: ls => ok s l ∧ Along ok (step s l) ls

instance Along.decidable (ok : σ → ι → Prop) [∀ s l, Decidable (ok s l)] :
    (s : σ) → (ls : List ι) → Decidable (Along step ok s ls)
  | _, [] => inferInstanceAs (Decidable True)
  | s, l :: ls =>
    have := Along.decidable ok (step s l) ls
    inferInstanceAs (Decidable (ok s l ∧ Along step ok (step s l) ls))

variable {s : σ} {ls : List ι}

theorem along_of_forall {p : ι → Prop} (h : ∀ l ∈ ls, p l) : Along step (fun _ l => p l) s ls := by
  induction ls generalizing s with
  | nil => trivial
  | cons l ls ih =>
    obtain ⟨hl, hls⟩ := List.forall_mem_cons.mp h
    exact ⟨hl, ih hls⟩

variable {ok : σ → ι → Prop}

theorem Along.and {ok' : σ → ι → Prop} (h : Along step ok s ls)
    (h' : Along step ok' s ls) : Along step (fun s l => ok s l ∧ ok' s l) s ls := by
  induction ls generalizing s with
  | nil => trivial
  | cons l ls ih => exact ⟨⟨h.1, h'.1⟩, ih h.2 h'.2⟩

theorem along_of_prefixes (h : ∀ before l, before ++ [l] <+: ls → ok (run step s before) l) :
    Along step ok s ls := by
  induction ls generalizing s with
  | nil => trivial
  | cons l ls ih =>
    refine ⟨h [] l (by simp), ih fun before l' hpre => ?_⟩
    exact h (l :: before) l' (by simpa using hpre)

theorem along_append {xs ys : List ι} :
    Along step ok s (xs ++ ys) ↔ Along step ok s xs ∧ Along step ok (run step s xs) ys := by
  induction xs generalizing s with
  | nil => simp [Along]
  | cons x xs ih => simp only [List.cons_append, Along, run_cons, ih, and_assoc]

theorem Along.at_prefix {before : List ι} {l : ι} (h : Along step ok s ls)
    (hpre : before ++ [l] <+: ls) : ok (run step s before) l := by
  obtain ⟨later, rfl⟩ := hpre
  rw [List.append_assoc] at h
  exact ((along_append step).mp h).2.1

theorem run_invariant (inv : σ → Prop)
    (hstep : ∀ s l, inv s → ok s l → inv (step s l)) (hs : inv s) (ha : Along step ok s ls) :
    inv (run step s ls) := by
  induction ls generalizing s with
  | nil => exact hs
  | cons l ls ih => exact ih (hstep s l hs ha.1) ha.2

theorem run_always (inv : σ → Prop) (hstep : ∀ s l, inv s → inv (step s l)) (hs : inv s)
    (ls : List ι) : inv (run step s ls) := by
  induction ls generalizing s with
  | nil => exact hs
  | cons l ls ih => exact ih (hstep s l hs)

theorem run_congr {step' : σ → ι → σ} (inv : σ → Prop)
    (hstep : ∀ s l, inv s → ok s l → step' s l = step s l ∧ inv (step s l)) (hs : inv s)
    (ha : Along step ok s ls) : run step' s ls = run step s ls := by
  induction ls generalizing s with
  | nil => rfl
  | cons l ls ih =>
    obtain ⟨hsame, hnext⟩ := hstep s l hs ha.1
    rw [run_cons, run_cons, hsame]
    exact ih hnext ha.2

theorem along_iff {ok' : σ → ι → Prop} (inv : σ → Prop) (hiff : ∀ s, ∀ l ∈ ls, inv s →
    (ok' s l ↔ ok s l))
    (hstep : ∀ s, ∀ l ∈ ls, inv s → ok s l → inv (step s l)) (hs : inv s) :
    Along step ok' s ls ↔ Along step ok s ls := by
  induction ls generalizing s with
  | nil => exact Iff.rfl
  | cons l ls ih =>
    have hl : l ∈ l :: ls := List.mem_cons_self
    have hrest (hok : ok s l) : Along step ok' (step s l) ls ↔ Along step ok (step s l) ls :=
      ih (fun s l' h => hiff s l' (List.mem_cons_of_mem l h))
        (fun s l' h => hstep s l' (List.mem_cons_of_mem l h)) (hstep s l hl hs hok)
    constructor
    · rintro ⟨h, ha⟩
      have hok := (hiff s l hl hs).mp h
      exact ⟨hok, (hrest hok).mp ha⟩
    · rintro ⟨hok, ha⟩
      exact ⟨(hiff s l hl hs).mpr hok, (hrest hok).mpr ha⟩

/-- A step keeps the invariant exactly if it meets the condition; then all states
of a run keep it exactly if all its steps do. -/
theorem run_invariant_iff {ok : σ → ι → Prop} (inv : σ → Prop) {ls : List ι}
    (hstep : ∀ s, ∀ l ∈ ls, inv s → (inv (step s l) ↔ ok s l)) {s : σ} (hs : inv s) :
    (∀ before, before <+: ls → inv (run step s before)) ↔ Along step ok s ls := by
  constructor
  · intro h
    refine along_of_prefixes _ fun before l hpre => ?_
    have hlast := h _ hpre
    rw [run_append] at hlast
    have hl : l ∈ ls := hpre.subset (by simp)
    exact (hstep _ l hl (h before ((List.prefix_append before [l]).trans hpre))).mp hlast
  · rintro ha before ⟨later, rfl⟩
    have hall := (along_of_forall step (s := s)
      fun l hl => List.mem_append_left later hl).and _ ((along_append _).mp ha).1
    exact run_invariant step inv (fun s l h hl => (hstep s l hl.1 h).mpr hl.2) hs hall

theorem run_relates (inv : σ → Prop) (rel : σ → σ → Prop)
    (hrefl : ∀ s, rel s s) (htrans : ∀ a b c, rel a b → rel b c → rel a c)
    (hstep : ∀ s l, inv s → ok s l → inv (step s l))
    (hrel : ∀ s l, inv s → ok s l → rel s (step s l)) (hs : inv s) (ha : Along step ok s ls) :
    rel s (run step s ls) := by
  induction ls generalizing s with
  | nil => exact hrefl s
  | cons l ls ih =>
    exact htrans _ _ _ (hrel s l hs ha.1) (ih (hstep s l hs ha.1) ha.2)

end Ego.Lib

import Ego.Lib.Runs

/-!
# What a system reaches whichever way it goes on

A rank that every enabled step lowers proves `Eventually`.
-/

namespace Ego.Lib

variable {σ ι : Type*}

inductive Eventually (step : σ → ι → σ) (enabled : σ → ι → Prop) (p : σ → Prop) : σ → Prop
  | now {s : σ} (h : p s) : Eventually step enabled p s
  | later {s : σ} (some_step : ∃ l, enabled s l)
      (every_step : ∀ l, enabled s l → Eventually step enabled p (step s l)) :
      Eventually step enabled p s

theorem eventually_of_rank {α : Type*} {lt : α → α → Prop} (hwf : WellFounded lt) (rank : σ → α)
    {step : σ → ι → σ} {enabled : σ → ι → Prop} {p : σ → Prop} (inv : σ → Prop)
    (hstep : ∀ s l, inv s → enabled s l → inv (step s l))
    (hlower : ∀ s l, inv s → enabled s l → lt (rank (step s l)) (rank s))
    (hgo : ∀ s, inv s → ¬ p s → ∃ l, enabled s l) {s : σ} (hs : inv s) : Eventually step enabled p s := by
  induction hr : rank s using hwf.induction generalizing s with
  | _ r ih =>
    subst hr
    by_cases hp : p s
    · exact .now hp
    · exact .later (hgo s hs hp) fun l hl => ih _ (hlower s l hs hl) (hstep s l hs hl) rfl

def Lower (x y : ℕ × ℕ × ℕ) : Prop :=
  x.1 < y.1 ∨ x.1 = y.1 ∧ (x.2.1 < y.2.1 ∨ x.2.1 = y.2.1 ∧ x.2.2 < y.2.2)

theorem lower_wellFounded : WellFounded Lower := by
  refine Subrelation.wf ?_ (Prod.lex Nat.lt_wfRel (Prod.lex Nat.lt_wfRel Nat.lt_wfRel)).wf
  rintro ⟨a, b, c⟩ ⟨a', b', c'⟩ h
  rcases h with h | ⟨h, h'⟩
  · exact Prod.Lex.left _ _ h
  · dsimp only at h
    subst h
    refine Prod.Lex.right _ ?_
    rcases h' with h' | ⟨h', h''⟩
    · exact Prod.Lex.left _ _ h'
    · dsimp only at h'
      subst h'
      exact Prod.Lex.right _ h''

end Ego.Lib

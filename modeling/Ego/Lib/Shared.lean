import Ego.Lib.Runs

/-! # Two components over a common state -/

namespace Ego.Lib

inductive Side where
  | first
  | second
  deriving DecidableEq, Repr

structure Shared (ν ρ : Type) where
  first : ν
  second : ν
  common : ρ
  deriving DecidableEq

namespace Shared

variable {ν ρ ι : Type}

def part (p : Shared ν ρ) : Side → ν
  | .first => p.first
  | .second => p.second

def step (act : ν → ρ → ι → ν × ρ) (p : Shared ν ρ) (l : Side × ι) : Shared ν ρ :=
  let r := act (p.part l.1) p.common l.2
  match l.1 with
  | .first => ⟨r.1, p.second, r.2⟩
  | .second => ⟨p.first, r.1, r.2⟩

@[simp] theorem step_common (act : ν → ρ → ι → ν × ρ) (p : Shared ν ρ) (l : Side × ι) :
    (step act p l).common = (act (p.part l.1) p.common l.2).2 := by
  unfold step
  cases l.1 <;> rfl

def Both (rel : ν → ρ → Prop) (p : Shared ν ρ) : Prop := rel p.first p.common ∧ rel p.second p.common

variable {rel : ν → ρ → Prop} {act : ν → ρ → ι → ν × ρ} {p : Shared ν ρ}

theorem Both.part (h : Both rel p) (side : Side) : rel (p.part side) p.common := by
  cases side with
  | first => exact h.1
  | second => exact h.2

theorem Both.step {l : Side × ι} (h : Both rel p)
    (hown : rel (act (p.part l.1) p.common l.2).1 (act (p.part l.1) p.common l.2).2)
    (hother : ∀ m, rel m p.common → rel m (act (p.part l.1) p.common l.2).2) : Both rel (step act p l) := by
  obtain ⟨side, l⟩ := l
  cases side with
  | first => exact ⟨hown, hother _ h.2⟩
  | second => exact ⟨hother _ h.1, hown⟩

end Shared

end Ego.Lib

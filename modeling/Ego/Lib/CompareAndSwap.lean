import Ego.Lib.Runs
import Mathlib.Data.List.Infix
import Mathlib.Data.List.Nodup

/-!
# Load, build and compare-and-swap on one cell

The comparison is by reference and not by value. A run is a list of calls, one for each
atomic operation, so every interleaving is a run.
-/

namespace Ego.Lib.CompareAndSwap

structure Published (α : Type) where
  ref : ℕ
  value : α
  deriving DecidableEq

/-- What a call does with the value it loaded. `store` overwrites the cell in the
same operation, without a look at it. -/
inductive Attempt (α ρ : Type) where
  | answer (r : ρ)
  | publish (new : α)
  | store (new : α)
  deriving DecidableEq

/-- A call. `ref` is the reference it publishes under, and `beaten` the answer
of one that lost the race, or `none` if it begins again. -/
structure Program (α ρ : Type) where
  ref : ℕ
  attempt : Option α → Attempt α ρ
  committed : ρ
  beaten : Option (Option α → ρ)

inductive Pc (α ρ : Type) where
  | start
  | holding (old : Option (Published α)) (new : α)
  | beaten
  | answered (r : ρ)
  | committed
  deriving DecidableEq

structure State (α ρ : Type) where
  cell : Option (Published α)
  pc : ℕ → Pc α ρ
  order : List ℕ

variable {α ρ : Type}

namespace Pc

def inFlight : Pc α ρ → Bool
  | .holding _ _ | .beaten => true
  | _ => false

def finished : Pc α ρ → Bool
  | .answered _ | .committed => true
  | _ => false

end Pc

namespace State

def value (s : State α ρ) : Option α := s.cell.map (·.value)

def ref (s : State α ρ) : Option ℕ := s.cell.map (·.ref)

def start : State α ρ := ⟨none, fun _ => .start, []⟩

def goto (s : State α ρ) (i : ℕ) (pc : Pc α ρ) : State α ρ :=
  { s with pc := Function.update s.pc i pc }

def commit (s : State α ρ) (i ref : ℕ) (new : α) : State α ρ :=
  ⟨some ⟨ref, new⟩, Function.update s.pc i .committed, s.order ++ [i]⟩

end State

variable (calls : ℕ → Program α ρ)

def step (s : State α ρ) (i : ℕ) : State α ρ :=
  match s.pc i with
  | .start =>
    match (calls i).attempt s.value with
    | .answer r => s.goto i (.answered r)
    | .publish new => s.goto i (.holding s.cell new)
    | .store new => s.commit i (calls i).ref new
  | .holding none new =>
    match s.cell, (calls i).beaten with
    | none, _ => s.commit i (calls i).ref new
    | some _, none => s.goto i .start
    | some found, some report => s.goto i (.answered (report (some found.value)))
  | .holding (some old) new =>
    if s.ref = some old.ref then s.commit i (calls i).ref new
    else
      match (calls i).beaten with
      | none => s.goto i .start
      | some _ => s.goto i .beaten
  | .beaten =>
    match (calls i).beaten with
    | none => s
    | some report => s.goto i (.answered (report s.value))
  | .answered _ | .committed => s

def publishes (s : State α ρ) (i : ℕ) : Option α :=
  match s.pc i with
  | .start =>
    match (calls i).attempt s.value with
    | .store new => some new
    | _ => none
  | .holding old new => if s.ref = old.map (·.ref) then some new else none
  | _ => none

def answer (s : State α ρ) (i : ℕ) : Option ρ :=
  match s.pc i with
  | .answered r => some r
  | .committed => some (calls i).committed
  | _ => none

inductive Move (s : State α ρ) (i : ℕ) : State α ρ → Prop
  | rest : Move s i s
  | decline (r : ρ) (hpc : s.pc i = .start) (h : (calls i).attempt s.value = .answer r) :
      Move s i (s.goto i (.answered r))
  | load (new : α) (hpc : s.pc i = .start) (h : (calls i).attempt s.value = .publish new) :
      Move s i (s.goto i (.holding s.cell new))
  | again (old : Option (Published α)) (new : α) (hpc : s.pc i = .holding old new) :
      Move s i (s.goto i .start)
  | lose (old : Published α) (new : α) (report : Option α → ρ) (hpc : s.pc i = .holding (some old) new)
      (h : s.ref ≠ some old.ref) (hb : (calls i).beaten = some report) :
      Move s i (s.goto i .beaten)
  | found (new : α) (report : Option α → ρ) (hpc : s.pc i = .holding none new) (h : s.ref ≠ none)
      (hb : (calls i).beaten = some report) : Move s i (s.goto i (.answered (report s.value)))
  | report (report : Option α → ρ) (hpc : s.pc i = .beaten) (hb : (calls i).beaten = some report) :
      Move s i (s.goto i (.answered (report s.value)))
  | store (new : α) (hpc : s.pc i = .start) (h : (calls i).attempt s.value = .store new) :
      Move s i (s.commit i (calls i).ref new)
  | swap (old : Option (Published α)) (new : α) (hpc : s.pc i = .holding old new)
      (h : s.ref = old.map (·.ref)) : Move s i (s.commit i (calls i).ref new)

theorem State.ref_eq_none {s : State α ρ} : s.ref = none ↔ s.cell = none := Option.map_eq_none_iff

theorem step_move (s : State α ρ) (i : ℕ) : Move calls s i (step calls s i) := by
  unfold step
  split
  · rename_i hpc
    split
    · exact .decline _ hpc ‹_›
    · exact .load _ hpc ‹_›
    · exact .store _ hpc ‹_›
  · rename_i new hpc
    split
    · rename_i hc
      exact .swap none new hpc (State.ref_eq_none.mpr hc)
    · exact .again none new hpc
    · rename_i found report hc hb
      have hv : s.value = some found.value := by rw [State.value, hc]; rfl
      have hne : s.ref ≠ none := by rw [Ne, State.ref_eq_none, hc]; exact Option.some_ne_none _
      rw [← hv]
      exact .found new report hpc hne hb
  · rename_i old new hpc
    split
    · rename_i h
      exact .swap (some old) new hpc h
    · rename_i h
      split
      · exact .again (some old) new hpc
      · exact .lose old new _ hpc h ‹_›
  · rename_i hpc
    split
    · exact .rest
    · exact .report _ hpc ‹_›
  · exact .rest
  · exact .rest

def Program.effect (p : Program α ρ) (v : Option α) : Option α :=
  match p.attempt v with
  | .answer _ => v
  | .publish new | .store new => some new

def Program.Publishes (p : Program α ρ) (v : Option α) : Prop :=
  ∃ new, p.attempt v = .publish new ∨ p.attempt v = .store new

variable {new : α}

theorem Program.effect_publish {p : Program α ρ} {v : Option α} (h : p.attempt v = .publish new) :
    p.effect v = some new := by rw [Program.effect, h]

theorem Program.effect_store {p : Program α ρ} {v : Option α} (h : p.attempt v = .store new) :
    p.effect v = some new := by rw [Program.effect, h]

def replay (order : List ℕ) : Option α := order.foldl (fun v i => (calls i).effect v) none

/-- The cell is what the calls that published make of it one after the other, and
each of them published what it had to in view of those before it. -/
structure Linear (s : State α ρ) : Prop where
  nodup : s.order.Nodup
  committed : ∀ i, i ∈ s.order ↔ s.pc i = .committed
  value : s.value = replay calls s.order
  placed : ∀ before i, before ++ [i] <+: s.order → (calls i).Publishes (replay calls before)
  cell : ∀ c, s.cell = some c → ∃ k ∈ s.order, (calls k).ref = c.ref
  built : ∀ i old new, s.pc i = .holding old new → (calls i).attempt (old.map (·.value)) = .publish new
  held : ∀ i old new, s.pc i = .holding (some old) new → ∃ k ∈ s.order, (calls k).ref = old.ref
  same : ∀ i old new, s.pc i = .holding old new → s.ref = old.map (·.ref) → s.cell = old

theorem linear_start : Linear calls (State.start : State α ρ) where
  nodup := List.nodup_nil
  committed := by simp [State.start]
  value := rfl
  placed := by simp [State.start]
  cell := by simp [State.start]
  built := by simp [State.start]
  held := by simp [State.start]
  same := by simp [State.start]

variable {calls} {s : State α ρ} {i : ℕ}

@[simp] theorem goto_pc_self (pc : Pc α ρ) : (s.goto i pc).pc i = pc := Function.update_self ..

variable {j : ℕ}

theorem goto_pc_of_ne (pc : Pc α ρ) (h : j ≠ i) : (s.goto i pc).pc j = s.pc j :=
  Function.update_of_ne h ..

@[simp] theorem commit_pc_self (ref : ℕ) (new : α) : (s.commit i ref new).pc i = .committed :=
  Function.update_self ..

variable {ref : ℕ}

theorem commit_pc_of_ne (new : α) (h : j ≠ i) : (s.commit i ref new).pc j = s.pc j :=
  Function.update_of_ne h ..

variable {pc : Pc α ρ}

theorem Linear.goto (h : Linear calls s) (hpc : s.pc i ≠ .committed) (hpc' : pc ≠ .committed)
    (hload : ∀ old new, pc = .holding old new → old = s.cell ∧ (calls i).attempt s.value = .publish new) :
    Linear calls (s.goto i pc) where
  nodup := h.nodup
  committed := by
    intro j
    by_cases hj : j = i
    · subst hj
      rw [goto_pc_self]
      exact ⟨fun hmem => absurd ((h.committed j).mp hmem) hpc, fun he => absurd he hpc'⟩
    · rw [goto_pc_of_ne pc hj]
      exact h.committed j
  value := h.value
  placed := h.placed
  cell := h.cell
  built := by
    intro j old new hj
    by_cases hji : j = i
    · subst hji
      rw [goto_pc_self] at hj
      obtain ⟨rfl, ha⟩ := hload old new hj
      exact ha
    · rw [goto_pc_of_ne pc hji] at hj
      exact h.built j old new hj
  held := by
    intro j old new hj
    by_cases hji : j = i
    · subst hji
      rw [goto_pc_self] at hj
      exact h.cell old (hload _ new hj).1.symm
    · rw [goto_pc_of_ne pc hji] at hj
      exact h.held j old new hj
  same := by
    intro j old new hj href
    by_cases hji : j = i
    · subst hji
      rw [goto_pc_self] at hj
      exact (hload old new hj).1.symm
    · rw [goto_pc_of_ne pc hji] at hj
      exact h.same j old new hj href

theorem replay_append (before : List ℕ) (i : ℕ) :
    replay calls (before ++ [i]) = (calls i).effect (replay calls before) := by
  rw [replay, List.foldl_append]
  rfl

theorem Linear.commit (h : Linear calls s) (hinj : Function.Injective fun i => (calls i).ref)
    (hpc : s.pc i ≠ .committed) (hpub : (calls i).Publishes s.value)
    (heff : (calls i).effect s.value = some new) : Linear calls (s.commit i (calls i).ref new) := by
  have hfresh : i ∉ s.order := fun hmem => hpc ((h.committed i).mp hmem)
  have hother {j : ℕ} {pc : Pc α ρ} (hj : (s.commit i (calls i).ref new).pc j = pc)
      (hne : pc ≠ .committed) : s.pc j = pc := by
    by_cases hji : j = i
    · subst hji
      rw [commit_pc_self] at hj
      exact absurd hj.symm hne
    · rwa [commit_pc_of_ne new hji] at hj
  constructor
  case nodup => exact List.nodup_append.mpr ⟨h.nodup, List.nodup_singleton i, by
    intro a ha b hb hab
    rw [List.mem_singleton.mp hb] at hab
    exact hfresh (hab ▸ ha)⟩
  case committed =>
    intro j
    by_cases hji : j = i
    · subst hji
      simp [State.commit]
    · rw [commit_pc_of_ne new hji, ← h.committed j]
      simp [State.commit, hji]
  case value =>
    show some new = replay calls (s.order ++ [i])
    rw [replay_append, ← h.value, heff]
  case placed =>
    intro before j hpre
    rcases List.prefix_concat_iff.mp hpre with heq | hpre
    · obtain ⟨rfl, hj⟩ := List.append_inj' heq rfl
      obtain rfl : j = i := by simpa using hj
      rw [← h.value]
      exact hpub
    · exact h.placed before j hpre
  case cell =>
    intro c hc
    obtain rfl : ⟨(calls i).ref, new⟩ = c := Option.some.inj hc
    exact ⟨i, List.mem_append_right _ List.mem_cons_self, rfl⟩
  case built =>
    intro j old new' hj
    exact h.built j old new' (hother hj (by simp))
  case held =>
    intro j old new' hj
    obtain ⟨k, hk, href⟩ := h.held j old new' (hother hj (by simp))
    exact ⟨k, List.mem_append_left _ hk, href⟩
  case same =>
    intro j old new' hj href
    have hold := hother hj (by simp)
    cases old with
    | none => exact absurd href (by simp [State.ref, State.commit])
    | some old =>
      -- the record was published by a call of the order, and `i` is not one
      obtain ⟨k, hk, hkref⟩ := h.held j old new' hold
      have heq : (calls i).ref = (calls k).ref := by
        rw [hkref]
        exact Option.some.inj href
      exact absurd (hinj heq ▸ hk) hfresh

theorem Linear.attempt_of_swap (h : Linear calls s) {old : Option (Published α)}
    (hpc : s.pc i = .holding old new) (href : s.ref = old.map (·.ref)) : (calls i).attempt s.value = .publish new := by
  rw [State.value, h.same i old new hpc href]
  exact h.built i old new hpc

theorem Linear.step (h : Linear calls s) (hinj : Function.Injective fun i => (calls i).ref) (i : ℕ) :
    Linear calls (step calls s i) := by
  have hmove := step_move calls s i
  generalize CompareAndSwap.step calls s i = s' at hmove ⊢
  cases hmove with
  | rest => exact h
  | decline _ hpc | again _ _ hpc | lose _ _ _ hpc | found _ _ hpc | report _ hpc =>
    exact h.goto (by simp [hpc]) (by simp) (by simp)
  | load new hpc ha =>
    refine h.goto (by simp [hpc]) (by simp) ?_
    intro old new' heq
    obtain ⟨rfl, rfl⟩ := Pc.holding.inj heq
    exact ⟨rfl, ha⟩
  | store new hpc ha => exact h.commit hinj (by simp [hpc]) ⟨new, .inr ha⟩ (Program.effect_store ha)
  | swap old new hpc href =>
    have ha := h.attempt_of_swap hpc href
    exact h.commit hinj (by simp [hpc]) ⟨new, .inl ha⟩ (Program.effect_publish ha)

theorem linear_run (hinj : Function.Injective fun i => (calls i).ref) (schedule : List ℕ) :
    Linear calls (run (step calls) State.start schedule) :=
  run_always (step calls) (Linear calls) (fun _ i h => h.step hinj i) (linear_start calls) schedule

theorem Linear.step_value (h : Linear calls s) (i : ℕ) : (CompareAndSwap.step calls s i).value = s.value ∨
      (CompareAndSwap.step calls s i).value = (calls i).effect s.value ∧ (calls i).Publishes s.value ∧
        (CompareAndSwap.step calls s i).pc i = .committed := by
  have hmove := step_move calls s i
  generalize CompareAndSwap.step calls s i = s' at hmove ⊢
  cases hmove with
  | rest | decline | load | again | lose | found | report => exact .inl rfl
  | store new hpc ha => exact .inr ⟨(Program.effect_store ha).symm, ⟨new, .inr ha⟩, commit_pc_self ..⟩
  | swap old new hpc href =>
    have ha := h.attempt_of_swap hpc href
    exact .inr ⟨(Program.effect_publish ha).symm, ⟨new, .inl ha⟩, commit_pc_self ..⟩

theorem goto_pc_eq {pc' : Pc α ρ} (h : (s.goto j pc).pc i = pc') : s.pc i = pc' ∨ i = j ∧ pc = pc' := by
  by_cases hij : i = j
  · subst hij
    rw [goto_pc_self] at h
    exact .inr ⟨rfl, h⟩
  · rw [goto_pc_of_ne pc hij] at h
    exact .inl h

theorem commit_pc_eq (h : (s.commit j ref new).pc i = pc) : s.pc i = pc ∨ i = j ∧ .committed = pc :=
  goto_pc_eq h

variable (calls s i)

/-- The operation with which call `i` gives the answer `r`: it declines the value
it loads, or reports the one it finds after it was beaten. -/
def Answers (r : ρ) : Prop :=
  s.pc i = .start ∧ (calls i).attempt s.value = .answer r ∨
    ∃ report, (calls i).beaten = some report ∧ r = report s.value ∧
      (s.pc i = .beaten ∨ ∃ new, s.pc i = .holding none new ∧ s.ref ≠ none)

variable {calls s i}

variable {l : ℕ}

theorem answers_of_step {r : ρ} (h : (step calls s l).pc i = .answered r) :
    s.pc i = .answered r ∨ l = i ∧ Answers calls s i r := by
  have hmove := step_move calls s l
  generalize step calls s l = s' at hmove h
  cases hmove with
  | rest => exact .inl h
  | decline r' hpc ha =>
    rcases goto_pc_eq h with h | ⟨rfl, heq⟩
    · exact .inl h
    · rw [Pc.answered.inj heq] at ha
      exact .inr ⟨rfl, .inl ⟨hpc, ha⟩⟩
  | load | again | lose => exact .inl ((goto_pc_eq h).resolve_right (by simp))
  | found new report hpc href hb =>
    rcases goto_pc_eq h with h | ⟨rfl, heq⟩
    · exact .inl h
    · exact .inr ⟨rfl, .inr ⟨report, hb, (Pc.answered.inj heq).symm, .inr ⟨new, hpc, href⟩⟩⟩
  | report report hpc hb =>
    rcases goto_pc_eq h with h | ⟨rfl, heq⟩
    · exact .inl h
    · exact .inr ⟨rfl, .inr ⟨report, hb, (Pc.answered.inj heq).symm, .inl hpc⟩⟩
  | store new hpc ha => exact .inl ((commit_pc_eq h).resolve_right (by simp))
  | swap old new hpc href => exact .inl ((commit_pc_eq h).resolve_right (by simp))

theorem answers_of_run {schedule : List ℕ} {r : ρ} (h : (run (step calls) State.start schedule).pc i = .answered r) :
    ∃ before, before ++ [i] <+: schedule ∧ Answers calls (run (step calls) State.start before) i r := by
  induction schedule using List.reverseRecOn with
  | nil => exact absurd h (by simp [State.start])
  | append_singleton schedule l ih =>
    rw [run_append] at h
    rcases answers_of_step h with h | ⟨rfl, h⟩
    · obtain ⟨before, hpre, hans⟩ := ih h
      exact ⟨before, hpre.trans (List.prefix_append schedule [l]), hans⟩
    · exact ⟨schedule, List.prefix_refl _, h⟩

theorem load_of_inFlight (hbefore : (s.pc i).inFlight = false) (h : ((step calls s l).pc i).inFlight = true) :
    ∃ new, l = i ∧ (calls i).attempt s.value = .publish new ∧ (step calls s l).value = s.value := by
  have hmove := step_move calls s l
  generalize step calls s l = s' at hmove h ⊢
  have hgoto {pc : Pc α ρ} (h : ((s.goto l pc).pc i).inFlight = true) : l = i ∧ pc.inFlight = true := by
    rcases goto_pc_eq rfl with hpc | ⟨hl, hpc⟩
    · rw [← hpc, hbefore] at h
      simp at h
    · rw [← hpc] at h
      exact ⟨hl.symm, h⟩
  cases hmove with
  | rest => simp [hbefore] at h
  | decline | again | found | report => exact absurd (hgoto h).2 (by simp [Pc.inFlight])
  | load new hpc ha =>
    obtain ⟨rfl, -⟩ := hgoto h
    exact ⟨new, rfl, ha, rfl⟩
  | lose old new report hpc =>
    obtain ⟨rfl, -⟩ := hgoto h
    simp [hpc, Pc.inFlight] at hbefore
  | store new hpc ha => exact absurd (@hgoto .committed h).2 (by simp [Pc.inFlight])
  | swap old new hpc href => exact absurd (@hgoto .committed h).2 (by simp [Pc.inFlight])

/-- A condition on the cell under which call `i` publishes. While `i` is in
flight, the cell holds the record it loaded or the condition fails. -/
def Overtaken (holds : Option α → Prop) (i : ℕ) (s : State α ρ) : Prop :=
  (∀ old new, s.pc i = .holding old new → s.ref = old.map (·.ref) ∨ ¬ holds s.value) ∧
    (s.pc i = .beaten → ¬ holds s.value)

theorem publishes_store (hpc : s.pc i = .start) (h : (calls i).attempt s.value = .store new) :
    publishes calls s i = some new := by
  simp [publishes, hpc, h]

theorem publishes_swap {old : Option (Published α)} (hpc : s.pc i = .holding old new)
    (h : s.ref = old.map (·.ref)) : publishes calls s i = some new := by
  simp [publishes, hpc, h]

variable {holds : Option α → Prop}

theorem Overtaken.goto (h : Overtaken holds i s)
    (hhold : ∀ old new, i = l → pc = .holding old new → s.ref = old.map (·.ref))
    (hbeaten : i = l → pc = .beaten → ¬ holds s.value) : Overtaken holds i (s.goto l pc) := by
  refine ⟨fun old new hpc => ?_, fun hpc => ?_⟩
  · rcases goto_pc_eq hpc with hpc | ⟨hl, heq⟩
    · exact h.1 old new hpc
    · exact .inl (hhold old new hl heq)
  · rcases goto_pc_eq hpc with hpc | ⟨hl, heq⟩
    · exact h.2 hpc
    · exact hbeaten hl heq

theorem Overtaken.commit (hother : i ≠ l → (s.pc i).inFlight = true → ¬ holds (some new)) :
    Overtaken holds i (s.commit l ref new) := by
  refine ⟨fun old new' hpc => ?_, fun hpc => ?_⟩
  · by_cases hil : i = l
    · subst hil
      exact absurd hpc (by simp)
    · rw [commit_pc_of_ne new hil] at hpc
      exact .inr (hother hil (by rw [hpc]; rfl))
  · by_cases hil : i = l
    · subst hil
      exact absurd hpc (by simp)
    · rw [commit_pc_of_ne new hil] at hpc
      exact hother hil (by rw [hpc]; rfl)

theorem Overtaken.step (h : Overtaken holds i s)
    (hother : i ≠ l → (s.pc i).inFlight = true → ∀ new, publishes calls s l = some new →
      ¬ holds (some new)) :
    Overtaken holds i (step calls s l) := by
  have hmove := step_move calls s l
  generalize CompareAndSwap.step calls s l = s' at hmove ⊢
  cases hmove with
  | rest => exact h
  | decline | again | found | report => exact h.goto (by simp) (by simp)
  | load new hpc ha =>
    refine h.goto (fun old new' _ heq => ?_) (by simp)
    rw [← (Pc.holding.inj heq).1]
    rfl
  | lose old new report hpc href =>
    refine h.goto (by simp) fun hl _ => ?_
    subst hl
    exact (h.1 _ _ hpc).resolve_left href
  | store new hpc ha => exact .commit fun hne hfl => hother hne hfl new (publishes_store hpc ha)
  | swap old new hpc href => exact .commit fun hne hfl => hother hne hfl new (publishes_swap hpc href)

theorem built_step (h : ∀ i old new, s.pc i = .holding old new →
    (calls i).attempt (old.map (·.value)) = .publish new) :
    ∀ i old new, (step calls s l).pc i = .holding old new → (calls i).attempt (old.map (·.value)) =
      .publish new := by
  have hmove := step_move calls s l
  generalize step calls s l = s' at hmove ⊢
  intro i old new hpc
  cases hmove with
  | rest => exact h i old new hpc
  | decline | again | lose | found | report =>
    exact h i old new ((goto_pc_eq hpc).resolve_right (by simp))
  | load new' _ ha =>
    rcases goto_pc_eq hpc with hpc | ⟨rfl, heq⟩
    · exact h i old new hpc
    · obtain ⟨rfl, rfl⟩ := Pc.holding.inj heq
      exact ha
  | store new' => exact h i old new ((commit_pc_eq hpc).resolve_right (by simp))
  | swap old' new' => exact h i old new ((commit_pc_eq hpc).resolve_right (by simp))

theorem built_run (schedule : List ℕ) : ∀ i old new, (run (step calls) State.start schedule).pc i =
    .holding old new →
      (calls i).attempt (old.map (·.value)) = .publish new :=
  run_always (step calls)
    (fun s => ∀ i old new, s.pc i = .holding old new → (calls i).attempt (old.map (·.value)) = .publish new)
    (fun _ _ h => built_step h) (by simp [State.start]) schedule

theorem publishes_built {schedule : List ℕ}
    (h : publishes calls (run (step calls) State.start schedule) l = some new) :
    ∃ v, (calls l).attempt v = .publish new ∨ (calls l).attempt v = .store new := by
  unfold publishes at h
  split at h
  · split at h
    · rename_i ha
      rw [Option.some.inj h] at ha
      exact ⟨_, .inr ha⟩
    · simp at h
  · rename_i old new' hpc
    split at h
    · rw [Option.some.inj h] at hpc
      exact ⟨_, .inl (built_run schedule l old new hpc)⟩
    · simp at h
  · simp at h

theorem answers_of_overtaken {holds : Option α → Prop} {schedule : List ℕ} {r : ρ}
    (hother : Along (step calls) (fun s l => i ≠ l → (s.pc i).inFlight = true →
      ∀ new, publishes calls s l = some new → ¬ holds (some new)) State.start schedule)
    (h : (run (step calls) State.start schedule).pc i = .answered r) : ∃ before, before ++ [i] <+: schedule ∧
      ((run (step calls) State.start before).pc i).finished = false ∧
      ((calls i).attempt (run (step calls) State.start before).value = .answer r ∨
        ∃ report, (calls i).beaten = some report ∧ r = report (run (step calls) State.start before).value ∧
          ¬ holds (run (step calls) State.start before).value) := by
  obtain ⟨before, hpre, hans⟩ := answers_of_run h
  refine ⟨before, hpre, ?_⟩
  obtain ⟨later, rfl⟩ := (List.prefix_append before [i]).trans hpre
  have hover : Overtaken holds i (run (step calls) State.start before) :=
    run_invariant (step calls) (Overtaken holds i) (fun s l hs hok => hs.step hok)
      ⟨by simp [State.start], by simp [State.start]⟩ ((along_append _).mp hother).1
  rcases hans with ⟨hpc, ha⟩ | ⟨report, hb, hr, hpc | ⟨new, hpc, href⟩⟩
  · exact ⟨by rw [hpc]; rfl, .inl ha⟩
  · exact ⟨by rw [hpc]; rfl, .inr ⟨report, hb, hr, hover.2 hpc⟩⟩
  · exact ⟨by rw [hpc]; rfl, .inr ⟨report, hb, hr, (hover.1 _ _ hpc).resolve_left href⟩⟩

end Ego.Lib.CompareAndSwap

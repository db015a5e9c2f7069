import Ego.Testkit.Concurrent
import Ego.Testkit.DurableStore

/-! # What a conflict of the in-memory stores says -/

namespace Ego.Testkit.Concurrent
open Persistence Lib Lib.CompareAndSwap

/-- Call `i` is running when the schedule has come to `before` and goes on with
`next`: it has begun or begins now, and has not returned. -/
def During {α ρ : Type} (state : State α ρ) (before : List ℕ) (next i : ℕ) : Prop :=
  (i ∈ before ∨ next = i) ∧ (state.pc i).finished = false

def Replaces {α ρ : Type} (s : State α ρ) (l : ℕ) : Prop :=
  ∃ old new, s.pc l = .holding old new ∧ s.ref = old.map (·.ref)

section
variable (scope : Scope) (persistenceID : String) (calls : ℕ → Call)

/-- Call `l` does not replace a record by one of the same revision while another
call that expects this revision has loaded it and has not returned. -/
def RaisesRevision (s : State EventLog (Except Err Unit)) (l : ℕ) : Prop :=
  ∀ i events N, i ≠ l → calls i = .write events (.exactRevision N) → (s.pc i).inFlight = true →
    storageRevision s.value = N → Replaces s l →
      ∃ written p, calls l = .write written p ∧ ∃ e ∈ written, N < e.sequenceNumber

def Justified (schedule : List ℕ) (i : ℕ) (p : WritePrecondition) (e : ConflictError) : Prop :=
  (∃ before next, before ++ [next] <+: schedule ∧ During (after scope persistenceID calls before) before next i ∧
    ¬ p.Holds ((after scope persistenceID calls before).value.map (·.revision))) ∧
  ¬ p.Holds e.actualRevision

end

section
variable {scope : Scope} {persistenceID : String} {calls : ℕ → Call}

variable {old : Option EventLog} {events : List Event} {p : WritePrecondition}

theorem conditionalLog_conflict {err : Err} (hu : p.isUnconditional = false)
    (h : conditionalLog scope persistenceID old events p = .error err) :
    err = .conflict ⟨scope, persistenceID, p, old.map (·.revision)⟩ ∧ ¬ p.Holds (old.map (·.revision)) := by
  unfold conditionalLog at h
  cases p with
  | unspecified =>
    cases old with
    | none => exact ⟨(Except.error.inj h).symm, id⟩
    | some log => exact ⟨by simpa [WritePrecondition.isGenesis] using h.symm, id⟩
  | unconditional => simp [WritePrecondition.isUnconditional] at hu
  | genesis =>
    cases old with
    | none => simp [WritePrecondition.isGenesis] at h
    | some log => exact ⟨by simpa [WritePrecondition.isGenesis] using h.symm, by simp [WritePrecondition.Holds]⟩
  | exactRevision n =>
    cases old with
    | none => exact ⟨by simpa [WritePrecondition.isGenesis] using h.symm, by simp [WritePrecondition.Holds]⟩
    | some log =>
      simp only [WritePrecondition.isGenesis, Bool.false_eq_true, if_false] at h
      split at h
      · simp at h
      · rename_i hne
        refine ⟨(Except.error.inj h).symm, fun hp => hne ?_⟩
        rw [← Option.some.inj hp]

theorem writeAttempt_conflict
    {e : ConflictError} (h : writeAttempt scope persistenceID events p old = .answer (.error (.conflict e))) :
    e.actualRevision = old.map (·.revision) ∧ ¬ p.Holds (old.map (·.revision)) := by
  unfold writeAttempt at h
  split at h
  · simp [errInvalidScope] at h
  split at h
  · simp [errInvalidPrecondition] at h
  split at h
  · split at h <;> simp at h
  rename_i hu
  split at h
  · simp [errPreconditionScope] at h
  split at h
  · rename_i err hc
    obtain ⟨rfl, hp⟩ := conditionalLog_conflict (by simpa using hu) hc
    simp only [Attempt.answer.injEq, Except.error.injEq, Err.conflict.injEq] at h
    rw [← h]
    exact ⟨rfl, hp⟩
  · simp at h

theorem writeAttempt_publish {new : EventLog} (h : writeAttempt scope persistenceID events p old = .publish new) :
    p.Holds (old.map (·.revision)) := by
  have hon : (Call.write events p).onRecord scope persistenceID old = .ok (some new) :=
    onRecord_of_publish (i := 0) h
  exact (writeRecord_ok hon).1

variable {schedule : List ℕ} {i : ℕ}

theorem le_revision_of_inFlight {N : ℕ} (hcall : calls i = .write events (.exactRevision N))
    (h : ((after scope persistenceID calls schedule).pc i).inFlight = true) :
    N ≤ storageRevision (after scope persistenceID calls schedule).value := by
  induction schedule using List.reverseRecOn with
  | nil => simp [after, State.start, Pc.inFlight] at h
  | append_singleton schedule l ih =>
    by_cases hbefore : ((after scope persistenceID calls schedule).pc i).inFlight = true
    · exact Nat.le_trans (ih hbefore) (revision_step schedule l)
    · rw [after_concat] at h ⊢
      obtain ⟨new, rfl, ha, hvalue⟩ := load_of_inFlight (by simpa using hbefore) h
      rw [hvalue]
      rw [programs, hcall] at ha
      obtain ⟨log, hlog, hrev⟩ := Option.map_eq_some_iff.mp (writeAttempt_publish ha)
      rw [hlog]
      exact Nat.le_of_eq hrev.symm

theorem replaces_of_publishes {l : ℕ} {new : EventLog}
    (h : publishes (programs scope persistenceID calls) (after scope persistenceID calls schedule) l = some new) :
    Replaces (after scope persistenceID calls schedule) l ∧
      (calls l).onRecord scope persistenceID (after scope persistenceID calls schedule).value = .ok (some new) := by
  unfold publishes at h
  split at h
  · split at h
    · exact absurd ‹_› attempt_ne_store
    · simp at h
  · rename_i old new' hpc
    split at h
    · rename_i href
      rw [Option.some.inj h] at hpc
      exact ⟨⟨old, new, hpc, href⟩, onRecord_of_publish ((after_linear schedule).attempt_of_swap hpc href)⟩
    · simp at h
  · simp at h

theorem not_holds_of_publishes {l : ℕ} {new : EventLog}
    (hraise : RaisesRevision calls (after scope persistenceID calls schedule) l)
    (hcall : calls i = .write events p) (hne : i ≠ l) (hu : p.isUnconditional = false)
    (hfl : ((after scope persistenceID calls schedule).pc i).inFlight = true)
    (h : publishes (programs scope persistenceID calls) (after scope persistenceID calls schedule) l = some new) :
    ¬ p.Holds (some new.revision) := by
  obtain ⟨hrep, hon⟩ := replaces_of_publishes h
  cases p with
  | unspecified => exact id
  | unconditional => simp [WritePrecondition.isUnconditional] at hu
  | genesis => exact Option.some_ne_none _
  | exactRevision N =>
    intro hp
    have heq : new.revision = N := Option.some.inj hp
    have hle := le_revision_of_inFlight hcall hfl
    have hmono : storageRevision (after scope persistenceID calls schedule).value ≤ new.revision :=
      onRecord_revision hon
    obtain ⟨written, p', hl, e, he, hlt⟩ := hraise i events N hne hcall hfl (by omega) hrep
    rw [hl] at hon
    obtain ⟨-, hnew⟩ := writeRecord_ok hon
    rw [if_neg (List.ne_nil_of_mem he)] at hnew
    have hge : e.sequenceNumber ≤ new.revision := by
      rw [Option.some.inj hnew]
      exact (le_foldl_raiseRevision written _).2 e he
    omega

theorem answered_of_error {err : Err}
    (h : answer (programs scope persistenceID calls) (after scope persistenceID calls schedule) i =
      some (.error err)) : (after scope persistenceID calls schedule).pc i = .answered (.error err) := by
  unfold answer at h
  split at h
  · rename_i r hpc
    rw [hpc, Option.some.inj h]
  · cases hc : calls i <;> simp [programs, hc, program] at h
  · simp at h

theorem conflict_justified
    (hraise : Along (step (programs scope persistenceID calls)) (RaisesRevision calls) State.start schedule)
    {e : ConflictError}
    (hcall : calls i = .write events p)
    (h : answer (programs scope persistenceID calls) (after scope persistenceID calls schedule) i =
      some (.error (.conflict e))) : Justified scope persistenceID calls schedule i p e := by
  have hpc := answered_of_error h
  by_cases hu : p.isUnconditional = true
  · obtain ⟨before, -, ⟨-, ha⟩ | ⟨report, hb, -⟩⟩ := answers_of_run hpc
    · rw [programs, hcall] at ha
      cases p <;> simp [WritePrecondition.isUnconditional] at hu
      exact absurd trivial (writeAttempt_conflict ha).2
    · simp [programs, hcall, program, hu] at hb
  have hother : Along (step (programs scope persistenceID calls)) (fun s l => i ≠ l →
      (s.pc i).inFlight = true → ∀ new, publishes (programs scope persistenceID calls) s l = some new →
        ¬ p.Holds ((some new).map (·.revision))) State.start schedule := by
    refine along_of_prefixes _ fun before l hpre hne hfl new hpub => ?_
    exact not_holds_of_publishes (hraise.at_prefix _ hpre) hcall hne (by simpa using hu) hfl hpub
  obtain ⟨before, hpre, hrun, hans⟩ := @answers_of_overtaken _ _ _ i
    (fun v => p.Holds (v.map (·.revision))) _ _ hother hpc
  have hvalue : e.actualRevision = (after scope persistenceID calls before).value.map (·.revision) ∧
      ¬ p.Holds ((after scope persistenceID calls before).value.map (·.revision)) := by
    rcases hans with ha | ⟨report, hb, hr, hnot⟩
    · rw [programs, hcall] at ha
      exact writeAttempt_conflict ha
    · simp only [programs, hcall, program, hu, Bool.false_eq_true, if_false, Option.some.injEq] at hb
      rw [← hb] at hr
      refine ⟨?_, hnot⟩
      rw [Err.conflict.inj (Except.error.inj hr)]
      rfl
  exact ⟨⟨before, i, hpre, ⟨.inr rfl, hrun⟩, hvalue.2⟩, hvalue.1 ▸ hvalue.2⟩

end

/-- A call of `WriteState`. The record that is stored is the caller's own, so a
call names it by its address. -/
structure StateWrite where
  ref : ℕ
  precondition : WritePrecondition
  deriving DecidableEq

def stateAttempt (scope : Scope) (state : DurableState) (precondition : WritePrecondition)
    (current : Option DurableState) : Attempt DurableState (Except Err Unit) :=
  let conflict : Attempt DurableState (Except Err Unit) :=
    .answer (.error (.conflict ⟨scope, state.persistenceId, precondition, storedVersion current⟩))
  if !scope.valid then .answer (.error errInvalidScope)
  else if !precondition.valid then .answer (.error errInvalidPrecondition)
  else if precondition.isUnconditional then .store state
  else if precondition.isGenesis then
    match current with
    | some _ => conflict
    | none => .publish state
  else
    match current with
    | none => conflict
    | some current =>
      if precondition = .exactRevision current.versionNumber.toNat then .publish state else conflict

section
variable (scope : Scope) (heap : ℕ → DurableState) (writes : ℕ → StateWrite)

def statePrograms (i : ℕ) : Program DurableState (Except Err Unit) where
  ref := (writes i).ref
  attempt := stateAttempt scope (heap (writes i).ref) (writes i).precondition
  committed := .ok ()
  beaten :=
    if (writes i).precondition.isUnconditional then none
    else some fun actual => .error (.conflict
      ⟨scope, (heap (writes i).ref).persistenceId, (writes i).precondition, storedVersion actual⟩)

def stateAfter (schedule : List ℕ) : State DurableState (Except Err Unit) :=
  run (step (statePrograms scope heap writes)) State.start schedule

/-- Call `l` does not put a record into the store whose version another call, which
has loaded a record and has not returned, expects. -/
def ChangesVersion (s : State DurableState (Except Err Unit)) (l : ℕ) : Prop :=
  ∀ i N, i ≠ l → (writes i).precondition = .exactRevision N → (s.pc i).inFlight = true →
    (Replaces s l ∨ s.pc l = .start ∧ (writes l).precondition = .unconditional) →
      (heap (writes l).ref).versionNumber.toNat ≠ N

def StateJustified (schedule : List ℕ) (i : ℕ) (e : ConflictError) : Prop :=
  (∃ before next, before ++ [next] <+: schedule ∧ During (stateAfter scope heap writes before) before next i ∧
    ¬ (writes i).precondition.Holds (storedVersion (stateAfter scope heap writes before).value)) ∧
  ¬ (writes i).precondition.Holds e.actualRevision

end

section
variable {scope : Scope} {heap : ℕ → DurableState} {writes : ℕ → StateWrite}

variable {state : DurableState} {current : Option DurableState}

theorem stateAttempt_conflict {p : WritePrecondition}
    {e : ConflictError} (h : stateAttempt scope state p current = .answer (.error (.conflict e))) :
    e.actualRevision = storedVersion current ∧ ¬ p.Holds (storedVersion current) := by
  unfold stateAttempt at h
  split at h
  · simp [errInvalidScope] at h
  split at h
  · simp [errInvalidPrecondition] at h
  split at h
  · simp at h
  rename_i hu
  cases p with
  | unspecified => simp [WritePrecondition.valid] at *
  | unconditional => simp [WritePrecondition.isUnconditional] at hu
  | genesis =>
    cases current with
    | none => simp [WritePrecondition.isGenesis] at h
    | some state =>
      simp only [WritePrecondition.isGenesis, if_true, Attempt.answer.injEq, Except.error.injEq,
        Err.conflict.injEq] at h
      rw [← h]
      exact ⟨rfl, Option.some_ne_none _⟩
  | exactRevision N =>
    cases current with
    | none =>
      simp only [WritePrecondition.isGenesis, Bool.false_eq_true, if_false, Attempt.answer.injEq,
        Except.error.injEq, Err.conflict.injEq] at h
      rw [← h]
      exact ⟨rfl, (Option.some_ne_none N).symm⟩
    | some state =>
      simp only [WritePrecondition.isGenesis, Bool.false_eq_true, if_false] at h
      split at h
      · simp at h
      · rename_i hne
        simp only [Attempt.answer.injEq, Except.error.injEq, Err.conflict.injEq] at h
        rw [← h]
        refine ⟨rfl, fun hp => hne ?_⟩
        rw [← Option.some.inj hp]

variable {new : DurableState}

theorem eq_of_stateAttempt {p : WritePrecondition}
    (h : stateAttempt scope state p current = .publish new ∨ stateAttempt scope state p current = .store new) :
    new = state := by
  unfold stateAttempt at h
  split at h
  · simp at h
  split at h
  · simp at h
  split at h
  · simpa [eq_comm] using h
  split at h
  · split at h
    · simp at h
    · simpa [eq_comm] using h
  split at h
  · simp at h
  split at h
  · simpa [eq_comm] using h
  · simp at h

theorem unconditional_of_store {p : WritePrecondition}
    (h : stateAttempt scope state p current = .store new) : p = .unconditional := by
  unfold stateAttempt at h
  split at h
  · simp at h
  split at h
  · simp at h
  split at h
  · rename_i hu
    cases p <;> simp [WritePrecondition.isUnconditional] at hu ⊢
  split at h
  · split at h <;> simp at h
  split at h
  · simp at h
  split at h <;> simp at h

theorem puts_of_publishes {s : State DurableState (Except Err Unit)} {l : ℕ}
    (h : publishes (statePrograms scope heap writes) s l = some new) :
    Replaces s l ∨ s.pc l = .start ∧ (writes l).precondition = .unconditional := by
  unfold publishes at h
  split at h
  · rename_i hpc
    split at h
    · rename_i ha
      exact .inr ⟨hpc, unconditional_of_store ha⟩
    · simp at h
  · rename_i old new' hpc
    split at h
    · rename_i href
      exact .inl ⟨old, new', hpc, href⟩
    · simp at h
  · simp at h

theorem state_answered_of_error {s : State DurableState (Except Err Unit)} {i : ℕ} {err : Err}
    (h : answer (statePrograms scope heap writes) s i = some (.error err)) : s.pc i = .answered (.error err) := by
  unfold answer at h
  split at h
  · rename_i r hpc
    rw [hpc, Option.some.inj h]
  · simp [statePrograms] at h
  · simp at h

theorem state_conflict_justified {schedule : List ℕ}
    (hchange : Along (step (statePrograms scope heap writes)) (ChangesVersion heap writes) State.start schedule)
    {i : ℕ} {e : ConflictError}
    (h : answer (statePrograms scope heap writes) (stateAfter scope heap writes schedule) i =
      some (.error (.conflict e))) : StateJustified scope heap writes schedule i e := by
  have hpc := state_answered_of_error h
  have hother : Along (step (statePrograms scope heap writes)) (fun s l => i ≠ l →
      (s.pc i).inFlight = true → ∀ new, publishes (statePrograms scope heap writes) s l = some new →
        ¬ ((writes i).precondition.isUnconditional = false ∧
          (writes i).precondition.Holds (storedVersion (some new)))) State.start schedule := by
    refine along_of_prefixes _ fun before l hpre hne hfl new hpub => ?_
    obtain ⟨v, hv⟩ := publishes_built hpub
    have hnew := eq_of_stateAttempt hv
    have hversion := hchange.at_prefix _ hpre i
    rintro ⟨hu, hholds⟩
    cases hp : (writes i).precondition with
    | unspecified => simp [hp, WritePrecondition.Holds] at hholds
    | unconditional => simp [hp, WritePrecondition.isUnconditional] at hu
    | genesis => simp [hp, WritePrecondition.Holds, storedVersion] at hholds
    | exactRevision N =>
      rw [hp] at hholds
      refine hversion N hne hp hfl (puts_of_publishes hpub) ?_
      rw [← hnew]
      exact Option.some.inj hholds
  obtain ⟨before, hpre, hrun, hans⟩ := @answers_of_overtaken _ _ _ i
    (fun v => (writes i).precondition.isUnconditional = false ∧ (writes i).precondition.Holds (storedVersion v))
    _ _ hother hpc
  have hvalue : e.actualRevision = storedVersion (stateAfter scope heap writes before).value ∧
      ¬ (writes i).precondition.Holds (storedVersion (stateAfter scope heap writes before).value) := by
    rcases hans with ha | ⟨report, hb, hr, hnot⟩
    · exact stateAttempt_conflict ha
    · simp only [statePrograms] at hb
      split at hb
      · simp at hb
      · rename_i hu
        rw [← Option.some.inj hb] at hr
        refine ⟨?_, fun hp => hnot ⟨by simpa using hu, hp⟩⟩
        rw [Err.conflict.inj (Except.error.inj hr)]
        rfl
  exact ⟨⟨before, i, hpre, ⟨.inr rfl, hrun⟩, hvalue.2⟩, hvalue.1 ▸ hvalue.2⟩

end

/-- A conflict is justified if no call replaces a record by one of a revision that
another conditional write in flight still expects. -/
theorem conflicts_justified (scope : Scope) :
    (∀ (persistenceID : String) (calls : ℕ → Call) (schedule : List ℕ),
      Along (step (programs scope persistenceID calls)) (RaisesRevision calls) State.start schedule →
      ∀ i events p e, calls i = .write events p →
        answer (programs scope persistenceID calls) (after scope persistenceID calls schedule) i =
          some (.error (.conflict e)) → Justified scope persistenceID calls schedule i p e) ∧
    ∀ (heap : ℕ → DurableState) (writes : ℕ → StateWrite) (schedule : List ℕ),
      Along (step (statePrograms scope heap writes)) (ChangesVersion heap writes) State.start schedule →
      ∀ i e, answer (statePrograms scope heap writes) (stateAfter scope heap writes schedule) i =
          some (.error (.conflict e)) → StateJustified scope heap writes schedule i e := by
  constructor
  · intro persistenceID calls schedule hraise i events p e hcall h
    exact conflict_justified hraise hcall h
  · intro heap writes schedule hchange i e h
    exact state_conflict_justified hchange h

theorem racing_raises {s : State EventLog (Except Err Unit)} (h : s.pc 2 = .start) (l : ℕ) :
    RaisesRevision racing s l := by
  intro i events N _ hcall hfl
  obtain rfl : i = 2 := by
    match i with
    | 0 | 1 => simp [racing] at hcall
    | 2 => rfl
    | _ + 3 => simp [racing] at hcall
  simp [h, Pc.inFlight] at hfl

/-- The loser of the two first writes is told the revision of the winner. -/
theorem racing_conflict_justified :
    answer (programs .unscoped "account" racing) (after .unscoped "account" racing [0, 1, 1, 0]) 0 =
        some (.error (.conflict ⟨.unscoped, "account", .genesis, some 2⟩)) ∧
      Justified .unscoped "account" racing [0, 1, 1, 0] 0 .genesis ⟨.unscoped, "account", .genesis, some 2⟩ := by
  refine ⟨rfl, ?_⟩
  refine (conflicts_justified .unscoped).1 "account" racing [0, 1, 1, 0] ?_ 0 _ _ _ rfl rfl
  exact ⟨racing_raises rfl 0, racing_raises rfl 1, racing_raises rfl 1, racing_raises rfl 0, trivial⟩

def retained : ℕ → Call
  | 0 => .write [entry 1] .genesis
  | 1 => .write [entry 2] (.exactRevision 1)
  | _ => .delete 1

/-- Retention comes between the load and the swap: the write that expects revision
1 is rejected with a conflict that reports revision 1, and the revision was 1 all
the time. -/
theorem retention_rejects_write :
    answer (programs .unscoped "account" retained) (after .unscoped "account" retained [0, 0, 1, 2, 2, 1, 1]) 1 =
        some (.error (.conflict ⟨.unscoped, "account", .exactRevision 1, some 1⟩)) ∧
      ¬ ∃ before next, before ++ [next] <+: [0, 0, 1, 2, 2, 1, 1] ∧
        During (after .unscoped "account" retained before) before next 1 ∧
          ¬ (WritePrecondition.exactRevision 1).Holds
          ((after .unscoped "account" retained before).value.map (·.revision)) := by
  refine ⟨rfl, ?_⟩
  rintro ⟨before, next, hpre, ⟨hbegun, -⟩, hnot⟩
  have hlen : before.length ≤ 6 := by
    have h := hpre.length_le
    rw [List.length_append, List.length_singleton] at h
    exact Nat.le_of_succ_le_succ h
  obtain ⟨rest, hrest⟩ := hpre
  have htake : before = List.take before.length [0, 0, 1, 2, 2, 1, 1] := by rw [← hrest]; simp
  have hnext : some next = [0, 0, 1, 2, 2, 1, 1][before.length]? := by rw [← hrest]; simp
  generalize before.length = n at hlen htake hnext
  subst htake
  -- before its load call 1 has not begun; from there on the revision is 1
  have hn : n < 2 ∨ n = 2 ∨ n = 3 ∨ n = 4 ∨ n = 5 ∨ n = 6 := by omega
  rcases hn with hn | rfl | rfl | rfl | rfl | rfl
  · have hbefore : n = 0 ∨ n = 1 := by omega
    rcases hbefore with rfl | rfl
    · simp_all
    · simp_all
  all_goals exact hnot rfl

end Ego.Testkit.Concurrent

import Ego.Lib.CompareAndSwap
import Ego.Testkit.EventStore

/-!
# Concurrent calls on one record of the in-memory events store

`WriteEvents` and `DeleteEvents` at the granularity of single `sync.Map` operations.
-/

namespace Ego.Testkit.Concurrent
open Persistence Lib Lib.CompareAndSwap

/-- A call on the record of one persistence id. Of a write these are the events
of that id; an unconditional write treats each id on its own. -/
inductive Call where
  | write (events : List Event) (precondition : WritePrecondition)
  | delete (toSequenceNumber : ℕ)
  deriving DecidableEq

def writeAttempt (scope : Scope) (persistenceID : String) (events : List Event)
    (precondition : WritePrecondition) (old : Option EventLog) : Attempt EventLog (Except Err Unit) :=
  if !scope.valid then .answer (.error errInvalidScope)
  else if !precondition.valid then .answer (.error errInvalidPrecondition)
  else if precondition.isUnconditional then
    if events = [] then .answer (.ok ()) else .publish (newEventLog old events)
  else if events = [] then .answer (.error errPreconditionScope)
  else
    match conditionalLog scope persistenceID old events precondition with
    | .error err => .answer (.error err)
    | .ok log => .publish log

def truncate (log : EventLog) (toSequenceNumber : ℕ) : EventLog where
  revision := log.revision
  events := log.events.filter fun e => e.sequenceNumber > toSequenceNumber
  unique := log.unique.sublist (List.filter_sublist.map _)
  le_revision := fun e he => log.le_revision e (List.mem_filter.mp he).1

def deleteAttempt (scope : Scope) (toSequenceNumber : ℕ) (old : Option EventLog) :
    Attempt EventLog (Except Err Unit) :=
  if !scope.valid then .answer (.error errInvalidScope)
  else
    match old with
    | none => .answer (.ok ())
    | some log =>
      if (truncate log toSequenceNumber).events.length = log.events.length then .answer (.ok ())
      else .publish (truncate log toSequenceNumber)

/- Every attempt allocates its record. Only one attempt of a call is ever
published, so the published record is named after the call. -/
def program (scope : Scope) (persistenceID : String) (i : ℕ) : Call → Program EventLog (Except Err Unit)
  | .write events precondition =>
    { ref := i
      attempt := writeAttempt scope persistenceID events precondition
      committed := .ok ()
      beaten :=
        if precondition.isUnconditional then none
        else some fun actual => .error (.conflict
          ⟨scope, persistenceID, precondition, actual.map (·.revision)⟩) }
  | .delete toSequenceNumber =>
    { ref := i
      attempt := deleteAttempt scope toSequenceNumber
      committed := .ok ()
      beaten := none }

def Call.onRecord (scope : Scope) (persistenceID : String) : Call → Option EventLog → Except Err (Option EventLog)
  | .write events precondition, old => writeRecord scope persistenceID old events precondition
  | .delete toSequenceNumber, old => deleteEvents scope old toSequenceNumber

def Call.apply (scope : Scope) (persistenceID : String) (call : Call) (old : Option EventLog) : Option EventLog :=
  match call.onRecord scope persistenceID old with
  | .error _ => old
  | .ok new => new

def Call.expects : Call → Option ℕ
  | .write _ .genesis => some 0
  | .write _ (.exactRevision n) => some n
  | _ => none

def Call.Consecutive : Call → Prop
  | .write events .genesis => Numbered (·.sequenceNumber) 0 events
  | .write events (.exactRevision n) => Numbered (·.sequenceNumber) n events
  | _ => True

instance : (call : Call) → Decidable call.Consecutive
  | .write events .genesis => inferInstanceAs (Decidable (Numbered _ 0 events))
  | .write events (.exactRevision n) => inferInstanceAs (Decidable (Numbered _ n events))
  | .write _ .unspecified | .write _ .unconditional | .delete _ => inferInstanceAs (Decidable True)

section
variable (scope : Scope) (persistenceID : String) (calls : ℕ → Call)

abbrev programs (i : ℕ) : Program EventLog (Except Err Unit) := program scope persistenceID i (calls i)

def after (schedule : List ℕ) : State EventLog (Except Err Unit) :=
  run (step (programs scope persistenceID calls)) State.start schedule

def Succeeded (schedule : List ℕ) (i : ℕ) : Prop :=
  answer (programs scope persistenceID calls) (after scope persistenceID calls schedule) i = some (.ok ())

end

theorem deleteEvents_some {scope : Scope} (hs : scope.valid = true) (log : EventLog) (upTo : ℕ) :
    deleteEvents scope (some log) upTo = if (truncate log upTo).events.length = log.events.length then .ok (some log)
      else .ok (some (truncate log upTo)) := by
  simp only [deleteEvents, hs, Bool.not_true, Bool.false_eq_true, if_false]
  rfl

section
variable {scope : Scope} {persistenceID : String} {call : Call} {i : ℕ} {old : Option EventLog} {new : EventLog}

theorem onRecord_of_publish (h : (program scope persistenceID i call).attempt old = .publish new) :
    call.onRecord scope persistenceID old = .ok (some new) := by
  cases call with
  | write events p =>
    simp only [program, writeAttempt] at h
    simp only [Call.onRecord, writeRecord]
    split at h
    · simp at h
    rw [if_neg ‹_›]
    split at h
    · simp at h
    rw [if_neg ‹_›]
    split at h
    · rw [if_pos ‹_›]
      split at h
      · simp at h
      · rw [if_neg ‹_›, Attempt.publish.inj h]
    · rw [if_neg ‹_›]
      split at h
      · simp at h
      · rw [if_neg ‹_›]
        split at h
        · simp at h
        · rename_i hc
          rw [hc, ← Attempt.publish.inj h]
          rfl
  | delete upTo =>
    simp only [program, deleteAttempt] at h
    split at h
    · simp at h
    rename_i hs
    cases old with
    | none => simp at h
    | some log =>
      dsimp only at h
      split at h
      · simp at h
      · rename_i hlen
        rw [Call.onRecord, deleteEvents_some (by simpa using hs), if_neg hlen, Attempt.publish.inj h]

theorem attempt_ne_store : (program scope persistenceID i call).attempt old ≠ .store new := by
  intro h
  cases call with
  | write events p =>
    simp only [program, writeAttempt] at h
    split at h
    · simp at h
    split at h
    · simp at h
    split at h
    · split at h <;> simp at h
    split at h
    · simp at h
    split at h <;> simp at h
  | delete upTo =>
    simp only [program, deleteAttempt] at h
    split at h
    · simp at h
    split at h
    · simp at h
    split at h <;> simp at h

theorem onRecord_of_publishes (h : (program scope persistenceID i call).Publishes old) :
    ∃ new, call.onRecord scope persistenceID old = .ok (some new) ∧
      (program scope persistenceID i call).effect old = some new := by
  obtain ⟨new, h | h⟩ := h
  · exact ⟨new, onRecord_of_publish h, Program.effect_publish h⟩
  · exact absurd h attempt_ne_store

variable {events : List Event} {p : WritePrecondition}

theorem eq_nil_of_answer (h : writeAttempt scope persistenceID events p old = .answer (.ok ())) :
    events = [] ∧ p.isUnconditional = true := by
  unfold writeAttempt at h
  split at h
  · simp at h
  split at h
  · simp at h
  split at h
  · rename_i hu
    split at h
    · exact ⟨‹_›, hu⟩
    · simp at h
  split at h
  · simp at h
  · split at h <;> simp at h

variable {record : Option EventLog}

theorem onRecord_revision (h : call.onRecord scope persistenceID old = .ok record) :
    storageRevision old ≤ storageRevision record := by
  cases call with
  | write events p =>
    obtain ⟨-, rfl⟩ := writeRecord_ok h
    split
    · exact Nat.le_refl _
    · exact (le_foldl_raiseRevision events _).1
  | delete upTo => exact Nat.le_of_eq (deleteEvents_ok h).1.symm

theorem fresh_of_revision (h : Numbered (·.sequenceNumber) (storageRevision old) events) : Fresh old events := by
  rw [Fresh, List.map_append]
  refine List.nodup_append.mpr ⟨journal_unique old, ?_, ?_⟩
  · exact List.nodup_iff_pairwise_ne.mpr (List.pairwise_map.mpr (h.pairwise.imp Nat.ne_of_lt))
  · intro a ha b hb hab
    obtain ⟨x, hx, rfl⟩ := List.mem_map.mp ha
    obtain ⟨y, hy, rfl⟩ := List.mem_map.mp hb
    have hle := le_storageRevision hx
    have hlt := (h.bounds y hy).1
    omega

theorem ne_nil_of_writeRecord
    (hu : p.isUnconditional = false) (h : writeRecord scope persistenceID old events p = .ok record) :
    events ≠ [] := by
  rintro rfl
  simp only [writeRecord, hu, if_true] at h
  split at h
  · simp at h
  split at h <;> simp at h

theorem onRecord_expects {N : ℕ} (hc : (Call.write events p).Consecutive)
    (hN : (Call.write events p).expects = some N)
    (h : (Call.write events p).onRecord scope persistenceID old = .ok record) :
    storageRevision old = N ∧ journal record = journal old ++ events ∧ N < storageRevision record := by
  obtain ⟨hp, hrecord⟩ := writeRecord_ok h
  have hrev : p.isUnconditional = false ∧ storageRevision old = N ∧ Numbered (·.sequenceNumber) N events := by
    cases p with
    | unspecified | unconditional => simp [Call.expects] at hN
    | genesis =>
      obtain rfl : 0 = N := Option.some.inj hN
      rw [Option.map_eq_none_iff.mp hp]
      exact ⟨rfl, rfl, hc⟩
    | exactRevision n =>
      obtain rfl : n = N := Option.some.inj hN
      obtain ⟨log, rfl, rfl⟩ := Option.map_eq_some_iff.mp hp
      exact ⟨rfl, rfl, hc⟩
  obtain ⟨hu, rfl, hnum⟩ := hrev
  have hne := ne_nil_of_writeRecord hu h
  rw [if_neg hne] at hrecord
  subst hrecord
  refine ⟨rfl, newEventLog_of_fresh (fresh_of_revision hnum), ?_⟩
  have hlen := List.length_pos_iff.mpr hne
  have hraise := foldl_raiseRevision hnum
  show storageRevision old < events.foldl raiseRevision (storageRevision old)
  omega

theorem Call.exists_of_expects {N : ℕ} (h : call.expects = some N) : ∃ events p, call = .write events p := by
  cases call with
  | write events p => exact ⟨events, p, rfl⟩
  | delete upTo => simp [Call.expects] at h

end

section
variable {scope : Scope} {persistenceID : String} {calls : ℕ → Call}

theorem programs_ref : Function.Injective fun i => (programs scope persistenceID calls i).ref := by
  have hid : (fun i => (programs scope persistenceID calls i).ref) = id := by
    funext i
    unfold programs
    cases calls i <;> rfl
  rw [hid]
  exact Function.injective_id

theorem after_linear (schedule : List ℕ) :
    Linear (programs scope persistenceID calls) (after scope persistenceID calls schedule) :=
  linear_run programs_ref schedule

theorem after_concat (before : List ℕ) (i : ℕ) : after scope persistenceID calls (before ++ [i]) =
      step (programs scope persistenceID calls) (after scope persistenceID calls before) i :=
  run_append ..

variable {schedule : List ℕ} {i : ℕ}

theorem succeeded_of_committed (h : (after scope persistenceID calls schedule).pc i = .committed) :
    Succeeded scope persistenceID calls schedule i := by
  rw [Succeeded, answer, h]
  dsimp only [programs]
  cases calls i <;> rfl

theorem step_whole (before : List ℕ) (i : ℕ) :
    (after scope persistenceID calls (before ++ [i])).value = (after scope persistenceID calls before).value ∨
      (calls i).onRecord scope persistenceID (after scope persistenceID calls before).value =
          .ok (after scope persistenceID calls (before ++ [i])).value ∧
        Succeeded scope persistenceID calls (before ++ [i]) i := by
  rcases (after_linear before).step_value i with h | ⟨heff, hpub, hpc⟩
  · rw [after_concat]
    exact .inl h
  · obtain ⟨new, hon, hnew⟩ := onRecord_of_publishes hpub
    rw [after_concat, heff, hnew]
    refine .inr ⟨hon, succeeded_of_committed ?_⟩
    rw [after_concat]
    exact hpc

theorem revision_step (before : List ℕ) (i : ℕ) : storageRevision (after scope persistenceID calls before).value ≤
      storageRevision (after scope persistenceID calls (before ++ [i])).value := by
  rcases step_whole before i with h | ⟨h, -⟩
  · rw [h]
  · exact onRecord_revision h

variable {before : List ℕ}

theorem revision_mono (h : before <+: schedule) : storageRevision (after scope persistenceID calls before).value ≤
      storageRevision (after scope persistenceID calls schedule).value := by
  obtain ⟨later, rfl⟩ := h
  induction later using List.reverseRecOn with
  | nil => rw [List.append_nil]
  | append_singleton later i ih =>
    rw [← List.append_assoc]
    exact Nat.le_trans ih (revision_step _ i)

theorem replay_eq {order : List ℕ} (h : ∀ before i, before ++ [i] <+: order →
      (programs scope persistenceID calls i).Publishes (replay (programs scope persistenceID calls) before)) :
    replay (programs scope persistenceID calls) order =
      order.foldl (fun log i => (calls i).apply scope persistenceID log) none := by
  induction order using List.reverseRecOn with
  | nil => rfl
  | append_singleton order i ih =>
    have hrest := ih fun before j hpre => h before j (hpre.trans (List.prefix_append order [i]))
    obtain ⟨new, hon, hnew⟩ := onRecord_of_publishes (h order i (List.prefix_refl _))
    rw [replay_append, hnew, List.foldl_append, ← hrest]
    simp only [List.foldl_cons, List.foldl_nil, Call.apply, hon]

theorem mem_order_iff {events : List Event} {p : WritePrecondition}
    (hcall : calls i = .write events p) (hne : events = [] → p.isUnconditional = false) :
    i ∈ (after scope persistenceID calls schedule).order ↔ Succeeded scope persistenceID calls schedule i := by
  rw [(after_linear schedule).committed i]
  refine ⟨succeeded_of_committed, fun h => ?_⟩
  rw [Succeeded, answer] at h
  split at h
  · rename_i r hpc
    rw [Option.some.inj h] at hpc
    obtain ⟨before, -, ⟨-, ha⟩ | ⟨report, hb, hr, -⟩⟩ := answers_of_run hpc
    · rw [programs, hcall] at ha
      obtain ⟨hnil, hu⟩ := eq_nil_of_answer ha
      simp [hne hnil] at hu
    · rw [programs, hcall, program] at hb
      split at hb
      · simp at hb
      · rw [← Option.some.inj hb] at hr
        simp at hr
  · assumption
  · simp at h

section order
variable {order : List ℕ} (hcons : ∀ i, (calls i).Consecutive)
  (hplaced : ∀ before i, before ++ [i] <+: order →
    (programs scope persistenceID calls i).Publishes (replay (programs scope persistenceID calls) before))

include hcons hplaced

theorem lt_revision_of_mem {N : ℕ} (hi : i ∈ order) (hN : (calls i).expects = some N) :
    N < storageRevision (replay (programs scope persistenceID calls) order) := by
  induction order using List.reverseRecOn with
  | nil => simp at hi
  | append_singleton order l ih =>
    obtain ⟨new, hon, hnew⟩ := onRecord_of_publishes (hplaced order l (List.prefix_refl _))
    rw [replay_append, hnew]
    rcases List.mem_append.mp hi with hi | hi
    · have hlt := ih (fun before j hpre => hplaced before j (hpre.trans (List.prefix_append order [l]))) hi
      exact Nat.lt_of_lt_of_le hlt (onRecord_revision hon)
    · obtain rfl := List.mem_singleton.mp hi
      obtain ⟨events, p, hcall⟩ := Call.exists_of_expects hN
      have hc := hcons i
      rw [hcall] at hN hon hc
      exact (onRecord_expects hc hN hon).2.2

theorem eq_of_expects {j N : ℕ} (hi : i ∈ order) (hj : j ∈ order) (hiN : (calls i).expects = some N)
    (hjN : (calls j).expects = some N) : i = j := by
  induction order using List.reverseRecOn with
  | nil => simp at hi
  | append_singleton order l ih =>
    have hrest := fun before k hpre =>
      hplaced before k (List.IsPrefix.trans hpre (List.prefix_append order [l]))
    have hlast : ∀ k ∈ order, (calls k).expects = some N → (calls l).expects ≠ some N := by
      intro k hk hkN hlN
      have hlt := lt_revision_of_mem hcons hrest hk hkN
      obtain ⟨new, hon, -⟩ := onRecord_of_publishes (hplaced order l (List.prefix_refl _))
      obtain ⟨events, p, hcall⟩ := Call.exists_of_expects hlN
      have hc := hcons l
      rw [hcall] at hlN hon hc
      have heq := (onRecord_expects hc hlN hon).1
      omega
    rcases List.mem_append.mp hi with hi | hi <;> rcases List.mem_append.mp hj with hj | hj
    · exact ih hrest hi hj
    · rw [List.mem_singleton.mp hj] at hjN
      exact absurd hjN (hlast i hi hiN)
    · rw [List.mem_singleton.mp hi] at hiN
      exact absurd hiN (hlast j hj hjN)
    · rw [List.mem_singleton.mp hi, List.mem_singleton.mp hj]

end order

theorem mem_order_of_expects {N : ℕ} (hN : (calls i).expects = some N)
    (hi : Succeeded scope persistenceID calls schedule i) : i ∈ (after scope persistenceID calls schedule).order := by
  obtain ⟨events, p, hcall⟩ := Call.exists_of_expects hN
  refine (mem_order_iff hcall fun _ => ?_).mpr hi
  rw [hcall] at hN
  cases p with
  | unconditional => simp [Call.expects] at hN
  | _ => rfl

theorem append_whole (hcons : ∀ i, (calls i).Consecutive) {N : ℕ} {events : List Event}
    {p : WritePrecondition} (hcall : calls i = .write events p) (hN : (calls i).expects = some N)
    (h : (calls i).onRecord scope persistenceID (after scope persistenceID calls before).value =
      .ok (after scope persistenceID calls (before ++ [i])).value) :
    journal (after scope persistenceID calls (before ++ [i])).value =
      journal (after scope persistenceID calls before).value ++ events := by
  have hc := hcons i
  rw [hcall] at h hN hc
  exact (onRecord_expects hc hN h).2.1

theorem delete_step {upTo : ℕ} (hcall : calls i = .delete upTo) :
    journal (after scope persistenceID calls (before ++ [i])).value =
        journal (after scope persistenceID calls before).value ∨
      journal (after scope persistenceID calls (before ++ [i])).value =
        (journal (after scope persistenceID calls before).value).filter fun e => upTo < e.sequenceNumber := by
  rcases step_whole before i with h | ⟨h, -⟩
  · exact .inl (by rw [h])
  · rw [hcall] at h
    exact .inr (deleteEvents_ok h).2

end

/-- Any number of calls on one record, in any interleaving of their `sync.Map`
operations. A conditional write with a given expectation succeeds at most once.
Every operation leaves the record or is the whole of its call, and the batch of a
conditional write is appended in it. The revision never goes down. `DeleteEvents`
removes nothing above its bound from the record it replaces. And the record is
what the calls that published make of it one after the other, with every write
that succeeded among them, once. -/
theorem concurrent_calls_linearize (scope : Scope) (persistenceID : String) (calls : ℕ → Call)
    (hcons : ∀ i, (calls i).Consecutive) (schedule : List ℕ) :
    let state := after scope persistenceID calls
    (∀ N i j, (calls i).expects = some N → (calls j).expects = some N →
      Succeeded scope persistenceID calls schedule i → Succeeded scope persistenceID calls schedule j → i = j) ∧
    (∀ before i, before ++ [i] <+: schedule → (state (before ++ [i])).value = (state before).value ∨
        (calls i).onRecord scope persistenceID (state before).value = .ok (state (before ++ [i])).value ∧
          Succeeded scope persistenceID calls (before ++ [i]) i ∧
          ∀ N events p, calls i = .write events p → (calls i).expects = some N →
            journal (state (before ++ [i])).value = journal (state before).value ++ events) ∧
    (∀ before, before <+: schedule → storageRevision (state before).value ≤
      storageRevision (state schedule).value) ∧
    (∀ before i upTo, before ++ [i] <+: schedule → calls i = .delete upTo →
      journal (state (before ++ [i])).value = journal (state before).value ∨ journal (state (before ++ [i])).value =
          (journal (state before).value).filter fun e => upTo < e.sequenceNumber) ∧
    (state schedule).order.Nodup ∧
    (state schedule).value = (state schedule).order.foldl
    (fun log i => (calls i).apply scope persistenceID log) none ∧
    ∀ i events p, calls i = .write events p → (events = [] → p.isUnconditional = false) →
      (Succeeded scope persistenceID calls schedule i ↔ i ∈ (state schedule).order) := by
  have hlin : Linear (programs scope persistenceID calls) (after scope persistenceID calls schedule) :=
    after_linear schedule
  refine ⟨?_, ?_, fun before hpre => revision_mono hpre, ?_, hlin.nodup, ?_, ?_⟩
  · intro N i j hiN hjN hi hj
    exact eq_of_expects hcons hlin.placed (mem_order_of_expects hiN hi) (mem_order_of_expects hjN hj) hiN hjN
  · intro before i hpre
    rcases step_whole before i with h | ⟨h, hs⟩
    · exact .inl h
    · exact .inr ⟨h, hs, fun N events p hcall hN => append_whole hcons hcall hN h⟩
  · intro before i upTo hpre hcall
    exact delete_step hcall
  · rw [hlin.value]
    exact replay_eq hlin.placed
  · intro i events p hcall hne
    exact (mem_order_iff hcall hne).symm

def entry (number : ℕ) : Event :=
  ⟨"account", number, false, ⟨"testpb.AccountCredited", []⟩, 0, 0, "", false, []⟩

def racing : ℕ → Call
  | 0 | 1 => .write [entry 1, entry 2] .genesis
  | 2 => .write [entry 3] (.exactRevision 2)
  | _ => .delete 1

theorem racing_consecutive (i : ℕ) : (racing i).Consecutive := by
  match i with
  | 0 | 1 | 2 => decide
  | _ + 3 => trivial

theorem racing_first_writes : Succeeded .unscoped "account" racing [0, 1, 1, 0, 3, 2, 2, 3, 3, 3] 1 ∧
      ¬ Succeeded .unscoped "account" racing [0, 1, 1, 0, 3, 2, 2, 3, 3, 3] 0 ∧
      (journal (after .unscoped "account" racing [0, 1, 1, 0, 3, 2, 2, 3, 3, 3]).value).map (·.sequenceNumber) =
        [2, 3] ∧
      ((after .unscoped "account" racing [0, 1, 1, 0, 3, 2, 2, 3, 3, 3]).value.map (·.revision)) = some 3 := by
  have h := concurrent_calls_linearize .unscoped "account" racing racing_consecutive
    [0, 1, 1, 0, 3, 2, 2, 3, 3, 3]
  have h1 : Succeeded .unscoped "account" racing [0, 1, 1, 0, 3, 2, 2, 3, 3, 3] 1 := by
    rfl
  refine ⟨h1, fun h0 => ?_, rfl, rfl⟩
  exact absurd (h.1 0 0 1 rfl rfl h0 h1) (by decide)

end Ego.Testkit.Concurrent

import Ego.Lib.StableSort
import Ego.Persistence.EventLog
import Mathlib.Data.List.Dedup

/-!
# The in-memory events store (`testkit/eventstore.go`)

A call is one atomic step here.
-/

namespace Ego.Testkit
open Persistence

/- `newEventLog` keeps one event per sequence number: a collision replaces the
stored event in place, anything else is appended. -/
def mergeEvent (merged : List Event) (event : Event) : List Event :=
  if event.sequenceNumber ∈ merged.map (·.sequenceNumber) then
    merged.map fun x => if x.sequenceNumber = event.sequenceNumber then event else x
  else merged ++ [event]

def raiseRevision (revision : ℕ) (event : Event) : ℕ :=
  if event.sequenceNumber > revision then event.sequenceNumber else revision

variable {merged : List Event} {event : Event}

theorem mergeEvent_of_fresh (h : event.sequenceNumber ∉ merged.map (·.sequenceNumber)) :
    mergeEvent merged event = merged ++ [event] := if_neg h

theorem mergeEvent_sequenceNumbers (merged : List Event) (event : Event) :
    (mergeEvent merged event).map (·.sequenceNumber) =
      if event.sequenceNumber ∈ merged.map (·.sequenceNumber) then merged.map (·.sequenceNumber)
      else merged.map (·.sequenceNumber) ++ [event.sequenceNumber] := by
  unfold mergeEvent
  split
  · rw [List.map_map]
    refine List.map_congr_left ?_
    intro x _
    by_cases hx : x.sequenceNumber = event.sequenceNumber <;> simp [hx]
  · simp

theorem mergeEvent_unique (event : Event) (h : (merged.map (·.sequenceNumber)).Nodup) :
    ((mergeEvent merged event).map (·.sequenceNumber)).Nodup := by
  rw [mergeEvent_sequenceNumbers]
  split
  · exact h
  · rename_i hn
    exact List.nodup_append.mpr ⟨h, List.nodup_singleton _, fun a ha b hb hab => hn (by
      rw [List.mem_singleton] at hb
      rwa [← hb, ← hab])⟩

variable {x : Event}

theorem mem_mergeEvent (h : x ∈ mergeEvent merged event) : x ∈ merged ∨ x = event := by
  unfold mergeEvent at h
  split at h
  · obtain ⟨y, hy, rfl⟩ := List.mem_map.mp h
    by_cases hs : y.sequenceNumber = event.sequenceNumber
    · exact .inr (if_pos hs)
    · rw [if_neg hs]
      exact .inl hy
  · simpa using h

theorem le_raiseRevision (revision : ℕ) (event : Event) : revision ≤ raiseRevision revision event ∧
      event.sequenceNumber ≤ raiseRevision revision event := by
  unfold raiseRevision
  split <;> omega

/- Both folds of `newEventLog` run over the same events, so one induction shows
that the merged events stay unique and below the raised revision. -/
theorem merge_wellFormed (newEvents merged : List Event) (revision : ℕ)
    (hu : (merged.map (·.sequenceNumber)).Nodup) (hr : ∀ e ∈ merged, e.sequenceNumber ≤ revision) :
    ((newEvents.foldl mergeEvent merged).map (·.sequenceNumber)).Nodup ∧
      ∀ e ∈ newEvents.foldl mergeEvent merged, e.sequenceNumber ≤ newEvents.foldl raiseRevision revision := by
  induction newEvents generalizing merged revision with
  | nil => exact ⟨hu, hr⟩
  | cons event newEvents ih =>
    refine ih _ _ (mergeEvent_unique event hu) ?_
    intro e he
    have hraise := le_raiseRevision revision event
    rcases mem_mergeEvent he with he | rfl
    · exact Nat.le_trans (hr e he) hraise.1
    · exact hraise.2

def newEventLog (old : Option EventLog) (newEvents : List Event) : EventLog where
  revision := newEvents.foldl raiseRevision (storageRevision old)
  events := newEvents.foldl mergeEvent (journal old)
  unique := (merge_wellFormed newEvents (journal old) _ (journal_unique old)
    fun _ he => le_storageRevision he).1
  le_revision := (merge_wellFormed newEvents (journal old) _ (journal_unique old)
    fun _ he => le_storageRevision he).2

theorem foldl_mergeEvent_of_fresh (newEvents merged : List Event)
    (h : ((merged ++ newEvents).map (·.sequenceNumber)).Nodup) :
    newEvents.foldl mergeEvent merged = merged ++ newEvents := by
  induction newEvents generalizing merged with
  | nil => simp
  | cons event newEvents ih =>
    have hsplit : merged ++ event :: newEvents = (merged ++ [event]) ++ newEvents := by simp
    rw [hsplit] at h
    have hfresh : event.sequenceNumber ∉ merged.map (·.sequenceNumber) := by
      rw [List.map_append, List.map_append, List.nodup_append, List.nodup_append] at h
      intro hmem
      exact h.1.2.2 _ hmem _ (by simp) rfl
    rw [List.foldl_cons, mergeEvent_of_fresh hfresh, ih _ h, hsplit]

variable {old : Option EventLog} {newEvents : List Event}

theorem newEventLog_of_fresh
    (h : Fresh old newEvents) : (newEventLog old newEvents).events = journal old ++ newEvents :=
  foldl_mergeEvent_of_fresh newEvents (journal old) h

theorem mem_foldl_mergeEvent (h : x ∈ newEvents.foldl mergeEvent merged) : x ∈ merged ∨ x ∈ newEvents := by
  induction newEvents generalizing merged with
  | nil => exact .inl h
  | cons event newEvents ih =>
    rcases ih h with hm | hn
    · rcases mem_mergeEvent hm with hm | rfl
      · exact .inl hm
      · exact .inr List.mem_cons_self
    · exact .inr (List.mem_cons_of_mem event hn)

theorem mem_mergeEvent_iff :
    x ∈ mergeEvent merged event ↔ x = event ∨ x ∈ merged ∧ x.sequenceNumber ≠ event.sequenceNumber := by
  unfold mergeEvent
  split
  · rename_i hmem
    rw [List.mem_map]
    constructor
    · rintro ⟨y, hy, rfl⟩
      by_cases hs : y.sequenceNumber = event.sequenceNumber
      · exact .inl (if_pos hs)
      · rw [if_neg hs]
        exact .inr ⟨hy, hs⟩
    · rintro (rfl | ⟨hx, hs⟩)
      · obtain ⟨y, hy, hs⟩ := List.mem_map.mp hmem
        exact ⟨y, hy, if_pos hs⟩
      · exact ⟨x, hx, if_neg hs⟩
  · rename_i hmem
    rw [List.mem_append, List.mem_singleton]
    constructor
    · rintro (hx | rfl)
      · exact .inr ⟨hx, fun hs => hmem (List.mem_map.mpr ⟨x, hx, hs⟩)⟩
      · exact .inl rfl
    · rintro (rfl | ⟨hx, -⟩)
      · exact .inr rfl
      · exact .inl hx

theorem mem_foldl_mergeEvent_of_other (h : x.sequenceNumber ∉ newEvents.map (·.sequenceNumber)) :
    x ∈ newEvents.foldl mergeEvent merged ↔ x ∈ merged := by
  induction newEvents generalizing merged with
  | nil => exact Iff.rfl
  | cons event newEvents ih =>
    rw [List.map_cons, List.mem_cons, not_or] at h
    rw [List.foldl_cons, ih h.2, mem_mergeEvent_iff]
    constructor
    · rintro (rfl | ⟨hx, -⟩)
      · exact absurd rfl h.1
      · exact hx
    · exact fun hx => .inr ⟨hx, h.1⟩

theorem mem_foldl_mergeEvent_iff (hn : (newEvents.map (·.sequenceNumber)).Nodup) :
    x ∈ newEvents.foldl mergeEvent merged ↔
      x ∈ newEvents ∨ x ∈ merged ∧ x.sequenceNumber ∉ newEvents.map (·.sequenceNumber) := by
  induction newEvents generalizing merged with
  | nil => simp
  | cons event newEvents ih =>
    rw [List.map_cons, List.nodup_cons] at hn
    rw [List.foldl_cons, ih hn.2, mem_mergeEvent_iff, List.mem_cons, List.map_cons, List.mem_cons]
    constructor
    · rintro (hx | ⟨rfl | ⟨hx, hs⟩, hother⟩)
      · exact .inl (.inr hx)
      · exact .inl (.inl rfl)
      · exact .inr ⟨hx, not_or.mpr ⟨hs, hother⟩⟩
    · rintro ((rfl | hx) | ⟨hx, hother⟩)
      · exact .inr ⟨.inl rfl, hn.1⟩
      · exact .inl hx
      · rw [not_or] at hother
        exact .inr ⟨.inr ⟨hx, hother.1⟩, hother.2⟩

theorem le_foldl_raiseRevision (newEvents : List Event) (revision : ℕ) :
    revision ≤ newEvents.foldl raiseRevision revision ∧
      ∀ e ∈ newEvents, e.sequenceNumber ≤ newEvents.foldl raiseRevision revision := by
  induction newEvents generalizing revision with
  | nil => exact ⟨Nat.le_refl _, by simp⟩
  | cons event newEvents ih =>
    obtain ⟨hle, hall⟩ := ih (raiseRevision revision event)
    have hraise := le_raiseRevision revision event
    exact ⟨Nat.le_trans hraise.1 hle, List.forall_mem_cons.mpr ⟨Nat.le_trans hraise.2 hle, hall⟩⟩

theorem foldl_raiseRevision {revision : ℕ} (h : Lib.Numbered (·.sequenceNumber) revision newEvents) :
    newEvents.foldl raiseRevision revision = revision + newEvents.length := by
  induction newEvents generalizing revision with
  | nil => rfl
  | cons event newEvents ih =>
    have hnum : event.sequenceNumber = revision + 1 := h.1
    have hraise : raiseRevision revision event = revision + 1 := by
      rw [raiseRevision, hnum, if_pos (Nat.lt_succ_self _)]
    rw [List.foldl_cons, hraise, ih h.2, List.length_cons]
    omega

def conditionalLog (scope : Scope) (persistenceID : String) (old : Option EventLog)
    (events : List Event) (precondition : WritePrecondition) : Except Err EventLog :=
  let conflict actual := Except.error (.conflict ⟨scope, persistenceID, precondition, actual⟩)
  if precondition.isGenesis then
    match old with
    | some log => conflict (some log.revision)
    | none => .ok (newEventLog none events)
  else
    match old with
    | none => conflict none
    | some log =>
      if precondition = .exactRevision log.revision then .ok (newEventLog old events)
      else conflict (some log.revision)

def writeRecord (scope : Scope) (persistenceID : String) (old : Option EventLog)
    (events : List Event) (precondition : WritePrecondition) : Except Err (Option EventLog) :=
  if !scope.valid then .error errInvalidScope
  else if !precondition.valid then .error errInvalidPrecondition
  else if precondition.isUnconditional then
    .ok (if events = [] then old else some (newEventLog old events))
  else if events = [] then .error errPreconditionScope
  else (conditionalLog scope persistenceID old events precondition).map some

variable {scope : Scope} {id : String} {events : List Event} {p : WritePrecondition}

theorem conditionalLog_ok {new : EventLog} (h : conditionalLog scope id old events p = .ok new) :
    p.Holds (old.map (·.revision)) ∧ new = newEventLog old events := by
  unfold conditionalLog at h
  cases p <;> cases old <;> simp [WritePrecondition.isGenesis, WritePrecondition.Holds] at h ⊢
  · exact h.symm
  · split at h
    · rename_i heq
      simp only [Except.ok.injEq] at h
      exact ⟨heq.symm, h.symm⟩
    · simp at h

theorem writeRecord_ok {new : Option EventLog} (h : writeRecord scope id old events p = .ok new) :
    p.Holds (old.map (·.revision)) ∧ new = if events = [] then old else some (newEventLog old events) := by
  unfold writeRecord at h
  split at h
  · simp at h
  split at h
  · simp at h
  split at h
  · rename_i hu
    cases p <;> simp [WritePrecondition.isUnconditional] at hu
    exact ⟨trivial, (Except.ok.inj h).symm⟩
  split at h
  · simp at h
  · rename_i hne
    cases hc : conditionalLog scope id old events p with
    | error e => rw [hc] at h; simp [Except.map] at h
    | ok log =>
      rw [hc] at h
      obtain ⟨hp, rfl⟩ := conditionalLog_ok hc
      rw [if_neg hne]
      exact ⟨hp, (Except.ok.inj h).symm⟩

theorem writeRecord_conditional {scope : Scope} {id : String} {old : Option EventLog}
    {events : List Event} {p : WritePrecondition} (hu : p.isUnconditional = false) (he : events ≠ [])
    (new : Option EventLog) : writeRecord scope id old events p = .ok new ↔
      scope.valid = true ∧ p.Holds (old.map (·.revision)) ∧ new = some (newEventLog old events) := by
  constructor
  · intro h
    obtain ⟨hp, hnew⟩ := writeRecord_ok h
    rw [if_neg he] at hnew
    refine ⟨?_, hp, hnew⟩
    cases hs : scope.valid with
    | true => rfl
    | false => simp [writeRecord, hs] at h
  · rintro ⟨hs, hp, rfl⟩
    cases p with
    | unspecified => exact hp.elim
    | unconditional => simp [WritePrecondition.isUnconditional] at hu
    | genesis =>
      obtain rfl := Option.map_eq_none_iff.mp hp
      simp [writeRecord, conditionalLog, hs, he, WritePrecondition.valid,
        WritePrecondition.isUnconditional, WritePrecondition.isGenesis, Except.map]
    | exactRevision r =>
      obtain ⟨log, rfl, rfl⟩ := Option.map_eq_some_iff.mp hp
      simp [writeRecord, conditionalLog, hs, he, WritePrecondition.valid,
        WritePrecondition.isUnconditional, WritePrecondition.isGenesis, Except.map]

/-- The revision stays, also where no event is left. -/
def deleteEvents (scope : Scope) (log : Option EventLog) (toSequenceNumber : ℕ) : Except Err (Option EventLog) :=
  if !scope.valid then .error errInvalidScope
  else
    match log with
    | none => .ok none
    | some log =>
      let retained := log.events.filter fun e => e.sequenceNumber > toSequenceNumber
      if retained.length = log.events.length then .ok (some log)
      else .ok (some {
        revision := log.revision
        events := retained
        unique := log.unique.sublist (List.filter_sublist.map _)
        le_revision := fun e he => log.le_revision e (List.mem_filter.mp he).1 })

theorem deleteEvents_ok {scope : Scope} {log new : Option EventLog} {upTo : ℕ}
    (h : deleteEvents scope log upTo = .ok new) : storageRevision new = storageRevision log ∧
      journal new = (journal log).filter fun e => upTo < e.sequenceNumber := by
  unfold deleteEvents at h
  split at h
  · simp at h
  cases log with
  | none =>
    rw [← Except.ok.inj h]
    exact ⟨rfl, rfl⟩
  | some log =>
    dsimp only at h
    split at h
    · rename_i hlen
      rw [← Except.ok.inj h]
      exact ⟨rfl, (List.filter_sublist.eq_of_length hlen).symm⟩
    · rw [← Except.ok.inj h]
      exact ⟨rfl, rfl⟩

theorem mem_journal_writeRecord {new : Option EventLog}
    (h : writeRecord scope id old events p = .ok new) (hx : x ∈ journal new) : x ∈ journal old ∨
      x ∈ events := by
  obtain ⟨-, rfl⟩ := writeRecord_ok h
  split at hx
  · exact .inl hx
  · exact mem_foldl_mergeEvent hx

def laterEvent (latest event : Event) : Event :=
  if event.sequenceNumber > latest.sequenceNumber then event else latest

def getLatestEvent (scope : Scope) (log : Option EventLog) : Except Err (Option Event) :=
  if !scope.valid then .error errInvalidScope
  else
    match journal log with
    | [] => .ok none
    | event :: events => .ok (some (events.foldl laterEvent event))

def replayEvents (scope : Scope) (log : Option EventLog) (fromSequenceNumber toSequenceNumber limit : ℕ) :
    Except Err (List Event) :=
  if !scope.valid then .error errInvalidScope
  else
    let events := (journal log).filter fun e =>
      fromSequenceNumber ≤ e.sequenceNumber ∧ e.sequenceNumber ≤ toSequenceNumber
    let sorted := Lib.StableSort.sort
      (fun x y : Event => decide (x.sequenceNumber < y.sequenceNumber)) events
    .ok (sorted.take limit)

theorem foldl_laterEvent (events : List Event) (latest : Event) :
    events.foldl laterEvent latest ∈ latest :: events ∧
      ∀ x ∈ latest :: events, x.sequenceNumber ≤ (events.foldl laterEvent latest).sequenceNumber := by
  induction events generalizing latest with
  | nil => simp
  | cons event events ih =>
    obtain ⟨hmem, hmax⟩ := ih (laterEvent latest event)
    have hlater : laterEvent latest event = event ∨ laterEvent latest event = latest := by
      unfold laterEvent
      split
      · exact .inl rfl
      · exact .inr rfl
    have hle : latest.sequenceNumber ≤ (laterEvent latest event).sequenceNumber ∧
        event.sequenceNumber ≤ (laterEvent latest event).sequenceNumber := by
      unfold laterEvent
      split <;> omega
    have htop := hmax _ List.mem_cons_self
    rw [List.foldl_cons]
    refine ⟨?_, ?_⟩
    · rcases List.mem_cons.mp hmem with h | h
      · rw [h]
        rcases hlater with h | h <;> simp [h]
      · simp [h]
    · intro x hx
      rcases List.mem_cons.mp hx with rfl | hx
      · omega
      · rcases List.mem_cons.mp hx with rfl | hx
        · omega
        · exact hmax x (List.mem_cons_of_mem _ hx)

theorem getLatestEvent_ok {log : Option EventLog} {latest : Option Event}
    (h : getLatestEvent scope log = .ok latest) : IsLatest (journal log) latest := by
  unfold getLatestEvent at h
  split at h
  · simp at h
  · split at h
    · rename_i hj
      rw [hj, ← Except.ok.inj h]
      rfl
    · rename_i event events hj
      rw [hj, ← Except.ok.inj h]
      exact foldl_laterEvent events event

theorem sequenceNumber_decides :
    Lib.StableSort.Decides (fun x y : Event => decide (x.sequenceNumber < y.sequenceNumber))
      fun x y => x.sequenceNumber ≤ y.sequenceNumber where
  of_less := fun _ _ h => Nat.le_of_lt (of_decide_eq_true h)
  of_not_less := fun _ _ h => Nat.le_of_not_lt (of_decide_eq_false h)
  trans := fun _ _ _ => Nat.le_trans

theorem sort_of_increasing (h : events.Pairwise fun x y => x.sequenceNumber < y.sequenceNumber) :
    Lib.StableSort.sort (fun x y : Event => decide (x.sequenceNumber < y.sequenceNumber)) events = events := by
  have hperm := Lib.StableSort.sort_perm
    (fun x y : Event => decide (x.sequenceNumber < y.sequenceNumber)) events
  refine hperm.eq_of_pairwise ?_ (Lib.StableSort.sort_sorted sequenceNumber_decides events)
    (h.imp Nat.le_of_lt)
  -- two events of the list with one number are the same event
  intro x y hx hy hxy hyx
  by_contra hne
  have hinj := List.inj_on_of_nodup_map
    (List.nodup_iff_pairwise_ne.mpr (List.pairwise_map.mpr (h.imp Nat.ne_of_lt)))
  exact hne (hinj (hperm.mem_iff.mp hx) hy (Nat.le_antisymm hxy hyx))

theorem replayEvents_ok {log : Option EventLog} {a b limit : ℕ} (h : replayEvents scope log a b limit = .ok events)
    (hj : (journal log).Pairwise fun x y => x.sequenceNumber < y.sequenceNumber) :
    events = ((journal log).filter fun e => a ≤ e.sequenceNumber ∧ e.sequenceNumber ≤ b).take limit := by
  unfold replayEvents at h
  split at h
  · simp at h
  · dsimp only at h
    rw [sort_of_increasing (hj.filter _)] at h
    exact (Except.ok.inj h).symm

def eventsStore : EventsStore where
  writeEvents := writeRecord
  getLatestEvent := getLatestEvent
  replayEvents := replayEvents
  precondition_holds := fun _ _ _ _ _ _ h => (writeRecord_ok h).1
  appends := by
    intro scope id old events p new h hf
    rw [(writeRecord_ok h).2]
    by_cases he : events = []
    · simp [he]
    · rw [if_neg he]
      exact newEventLog_of_fresh hf
  latest_of_ok := fun _ _ _ h => getLatestEvent_ok h
  replay_of_ok := fun _ _ _ _ _ _ h hj => replayEvents_ok h hj

end Ego.Testkit

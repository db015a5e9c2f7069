import Ego.Persistence.Listing
import Ego.Postgres.EventStore

/-!
# Records of the PostgreSQL events store (`persistence/postgres/event_store.go:112-523`)

One call is one transaction here.
-/

namespace Ego.Postgres
open Persistence

/-- A row under the same primary key fails the transaction. -/
def insertEvent (rows : List Event) (event : Event) : Except Err (List Event) :=
  if event.sequenceNumber ∈ rows.map (·.sequenceNumber) then
    .error (.message "insert event: duplicate key value violates unique constraint")
  else .ok (rows ++ [event])

def insertEventIgnoreDuplicate (rows : List Event) (event : Event) : List Event :=
  if event.sequenceNumber ∈ rows.map (·.sequenceNumber) then rows else rows ++ [event]

def highest (revision : ℕ) (events : List Event) : ℕ :=
  events.foldl (fun revision e => max revision e.sequenceNumber) revision

theorem le_highest (revision : ℕ) (events : List Event) :
    revision ≤ highest revision events ∧ ∀ e ∈ events, e.sequenceNumber ≤ highest revision events := by
  unfold highest
  induction events generalizing revision with
  | nil => simp
  | cons event events ih =>
    obtain ⟨hle, hall⟩ := ih (max revision event.sequenceNumber)
    rw [List.foldl_cons]
    refine ⟨by omega, fun e he => ?_⟩
    rcases List.mem_cons.mp he with rfl | he
    · omega
    · exact hall e he

variable {rows events : List Event} {event : Event}

theorem nodup_snoc (hn : (rows.map (·.sequenceNumber)).Nodup)
    (hnew : event.sequenceNumber ∉ rows.map (·.sequenceNumber)) :
    ((rows ++ [event]).map (·.sequenceNumber)).Nodup := by
  rw [List.map_append, List.map_singleton]
  exact hn.append (List.nodup_singleton _) (List.disjoint_singleton.mpr hnew)

theorem not_mem_of_nodup (h : ((rows ++ event :: events).map (·.sequenceNumber)).Nodup) :
    event.sequenceNumber ∉ rows.map (·.sequenceNumber) := by
  rw [List.map_append, List.nodup_append] at h
  exact fun hmem => h.2.2 _ hmem _ (List.mem_map_of_mem List.mem_cons_self) rfl

theorem insertEvents_ok {rows' : List Event} (h : events.foldlM insertEvent rows = .ok rows') :
    rows' = rows ++ events ∧ ((rows.map (·.sequenceNumber)).Nodup → (rows'.map (·.sequenceNumber)).Nodup) := by
  induction events generalizing rows with
  | nil =>
    obtain rfl := Except.ok.inj h
    exact ⟨(List.append_nil _).symm, id⟩
  | cons event events ih =>
    rw [List.foldlM_cons] at h
    unfold insertEvent at h
    split at h
    · simp [Bind.bind, Except.bind] at h
    · rename_i hnew
      obtain ⟨hrows, hnodup⟩ := ih h
      exact ⟨by rw [hrows, List.append_assoc]; rfl, fun hn => hnodup (nodup_snoc hn hnew)⟩

theorem insertEvents_of_fresh
    (h : ((rows ++ events).map (·.sequenceNumber)).Nodup) : events.foldlM insertEvent rows = .ok (rows ++ events) := by
  induction events generalizing rows with
  | nil => simp [Pure.pure, Except.pure]
  | cons event events ih =>
    rw [List.foldlM_cons, insertEvent, if_neg (not_mem_of_nodup h), List.append_cons rows event events]
    exact ih (List.append_cons rows event events ▸ h)

theorem insertIgnoring_wellFormed (events rows : List Event) (hn : (rows.map (·.sequenceNumber)).Nodup) :
    ((events.foldl insertEventIgnoreDuplicate rows).map (·.sequenceNumber)).Nodup ∧
      ∀ e ∈ events.foldl insertEventIgnoreDuplicate rows, e ∈ rows ∨ e ∈ events := by
  induction events generalizing rows with
  | nil => exact ⟨hn, fun e he => .inl he⟩
  | cons event events ih =>
    rw [List.foldl_cons]
    unfold insertEventIgnoreDuplicate
    split
    · obtain ⟨hnodup, hmem⟩ := ih rows hn
      exact ⟨hnodup, fun e he => (hmem e he).imp_right (List.mem_cons_of_mem _)⟩
    · rename_i hnew
      obtain ⟨hnodup, hmem⟩ := ih (rows ++ [event]) (nodup_snoc hn hnew)
      refine ⟨hnodup, fun e he => ?_⟩
      rcases hmem e he with h | h
      · rcases List.mem_append.mp h with h | h
        · exact .inl h
        · exact .inr (List.mem_singleton.mp h ▸ List.mem_cons_self)
      · exact .inr (List.mem_cons_of_mem _ h)

theorem insertIgnoring_of_fresh (h : ((rows ++ events).map (·.sequenceNumber)).Nodup) :
    events.foldl insertEventIgnoreDuplicate rows = rows ++ events := by
  induction events generalizing rows with
  | nil => simp
  | cons event events ih =>
    rw [List.foldl_cons, insertEventIgnoreDuplicate, if_neg (not_mem_of_nodup h), List.append_cons rows event events]
    exact ih (List.append_cons rows event events ▸ h)

theorem subset_insertIgnoring (events rows : List Event) : rows ⊆ events.foldl insertEventIgnoreDuplicate rows := by
  induction events generalizing rows with
  | nil => exact List.Subset.refl rows
  | cons event events ih =>
    refine List.Subset.trans ?_ (ih (insertEventIgnoreDuplicate rows event))
    unfold insertEventIgnoreDuplicate
    split
    · exact List.Subset.refl rows
    · exact List.subset_append_left rows [event]

def writeUnconditional (old : Option EventLog) (events : List Event) : EventLog where
  revision := highest (storageRevision old) events
  events := events.foldl insertEventIgnoreDuplicate (journal old)
  unique := (insertIgnoring_wellFormed events (journal old) (journal_unique old)).1
  le_revision := by
    intro e he
    have hbounds := le_highest (storageRevision old) events
    rcases (insertIgnoring_wellFormed events (journal old) (journal_unique old)).2 e he with h | h
    · exact Nat.le_trans (le_storageRevision h) hbounds.1
    · exact hbounds.2 e h

def insertEvents (old : Option EventLog) (events : List Event) : Except Err EventLog :=
  match h : events.foldlM insertEvent (journal old) with
  | .error err => .error err
  | .ok rows => .ok {
      revision := highest (storageRevision old) events
      events := rows
      unique := (insertEvents_ok h).2 (journal_unique old)
      le_revision := by
        intro e he
        have hbounds := le_highest (storageRevision old) events
        rw [(insertEvents_ok h).1] at he
        rcases List.mem_append.mp he with he | he
        · exact Nat.le_trans (le_storageRevision he) hbounds.1
        · exact hbounds.2 e he }

/-- `writeConditional` after `lockRevision`, which finds no row for a record that
was never committed. -/
def writeConditional (scope : Scope) (persistenceID : String) (old : Option EventLog) (events : List Event)
    (precondition : WritePrecondition) : Except Err EventLog :=
  let conflict actual : Except Err EventLog := .error (.conflict ⟨scope, persistenceID, precondition, actual⟩)
  if precondition.isGenesis then
    match old with
    | some log => conflict (some log.revision)
    | none => insertEvents old events
  else
    match old with
    | none => conflict none
    | some log =>
      if precondition = .exactRevision log.revision then insertEvents old events
      else conflict (some log.revision)

def writeRecord (scope : Scope) (persistenceID : String) (old : Option EventLog) (events : List Event)
    (precondition : WritePrecondition) : Except Err (Option EventLog) :=
  if !scope.valid then .error errInvalidScope
  else if !precondition.valid then .error errInvalidPrecondition
  else if precondition.isUnconditional then
    .ok (if events = [] then old else some (writeUnconditional old events))
  else if events = [] then .error errPreconditionScope
  else (writeConditional scope persistenceID old events precondition).map some

def deleteEvents (scope : Scope) (log : Option EventLog) (toSequenceNumber : ℕ) : Except Err (Option EventLog) :=
  if !scope.valid then .error errInvalidScope
  else .ok (log.map fun log => {
    revision := log.revision
    events := log.events.filter fun e => !decide (e.sequenceNumber ≤ toSequenceNumber)
    unique := log.unique.sublist (List.filter_sublist.map _)
    le_revision := fun e he => log.le_revision e (List.mem_filter.mp he).1 })

def selectEvents (log : Option EventLog) (fromSequenceNumber toSequenceNumber limit : ℕ) : List Event :=
  let rows := (journal log).filter fun e =>
    fromSequenceNumber ≤ e.sequenceNumber ∧ e.sequenceNumber ≤ toSequenceNumber
  (rows.insertionSort fun x y => x.sequenceNumber ≤ y.sequenceNumber).take limit

/-- The query takes its bounds as `BIGINT`, and `uint64` has larger ones. -/
def replayEvents (scope : Scope) (log : Option EventLog) (fromSequenceNumber toSequenceNumber limit : ℕ) :
    Except Err (List Event) := do
  if !scope.valid then .error errInvalidScope
  else
    bindBigint fromSequenceNumber
    bindBigint toSequenceNumber
    bindBigint limit
    .ok (selectEvents log fromSequenceNumber toSequenceNumber limit)

def getLatestEvent (scope : Scope) (log : Option EventLog) : Except Err (Option Event) :=
  if !scope.valid then .error errInvalidScope
  else .ok ((journal log).insertionSort fun x y => y.sequenceNumber ≤ x.sequenceNumber).head?

/-- `SELECT DISTINCT persistence_id FROM events_store ORDER BY persistence_id`, from
the ids that have a row there. -/
def persistenceIDs (ids : List String) (pageSize : ℕ) (pageToken : String) : List String × String :=
  if pageSize = 0 then ([], "")
  else
    let page := (if pageToken = "" then ids else ids.filter (pageToken < ·)).take pageSize
    (page, if page.length = pageSize then page.getLast?.getD "" else "")

variable {old : Option EventLog}

theorem insertEvents_spec {new : EventLog} (h : insertEvents old events = .ok new) :
    new.events = journal old ++ events ∧ new.revision = highest (storageRevision old) events := by
  unfold insertEvents at h
  split at h
  · simp at h
  · rename_i rows hrows
    rw [← Except.ok.inj h]
    exact ⟨(insertEvents_ok hrows).1, rfl⟩

theorem insertEvents_total {old : Option EventLog} {events : List Event} (h : Fresh old events) :
    ∃ new, insertEvents old events = .ok new := by
  unfold insertEvents
  split
  · rename_i err herr
    rw [insertEvents_of_fresh h] at herr
    cases herr
  · exact ⟨_, rfl⟩

variable {scope : Scope}

theorem writeConditional_ok {id : String}
    {p : WritePrecondition} {new : EventLog} (h : writeConditional scope id old events p = .ok new) :
    p.Holds (old.map (·.revision)) ∧ insertEvents old events = .ok new := by
  unfold writeConditional at h
  cases p <;> cases old <;> simp [WritePrecondition.isGenesis, WritePrecondition.Holds] at h ⊢
  · exact h
  · split at h
    · rename_i heq
      exact ⟨heq.symm, h⟩
    · simp at h

theorem writeRecord_ok {id : String}
    {p : WritePrecondition} {new : Option EventLog} (h : writeRecord scope id old events p = .ok new) :
    p.Holds (old.map (·.revision)) ∧ storageRevision new = highest (storageRevision old) events ∧
      (Fresh old events → journal new = journal old ++ events) ∧ journal old ⊆ journal new := by
  unfold writeRecord at h
  split at h
  · simp at h
  split at h
  · simp at h
  split at h
  · rename_i hu
    cases p <;> simp [WritePrecondition.isUnconditional] at hu
    obtain rfl := (Except.ok.inj h).symm
    by_cases he : events = []
    · rw [if_pos he, he]
      exact ⟨trivial, rfl, fun _ => (List.append_nil _).symm, List.Subset.refl _⟩
    · rw [if_neg he]
      exact ⟨trivial, rfl, fun hf => insertIgnoring_of_fresh hf, subset_insertIgnoring _ _⟩
  split at h
  · simp at h
  · cases hc : writeConditional scope id old events p with
    | error err => rw [hc] at h; simp [Except.map] at h
    | ok log =>
      rw [hc] at h
      obtain ⟨hp, hinsert⟩ := writeConditional_ok hc
      obtain ⟨hevents, hrevision⟩ := insertEvents_spec hinsert
      obtain rfl := Except.ok.inj h
      refine ⟨hp, hrevision, fun _ => hevents, ?_⟩
      rw [journal_some, hevents]
      exact List.subset_append_left _ _

theorem getLatestEvent_ok {log : Option EventLog} {latest : Option Event}
    (h : getLatestEvent scope log = .ok latest) : IsLatest (journal log) latest := by
  unfold getLatestEvent at h
  split at h
  · simp at h
  · rw [← Except.ok.inj h]
    have hperm := List.perm_insertionSort (fun x y : Event => y.sequenceNumber ≤ x.sequenceNumber) (journal log)
    have hsorted : ((journal log).insertionSort fun x y => y.sequenceNumber ≤ x.sequenceNumber).Pairwise
        fun x y => y.sequenceNumber ≤ x.sequenceNumber := by
      exact List.pairwise_insertionSort _ _
    generalize (journal log).insertionSort (fun x y => y.sequenceNumber ≤ x.sequenceNumber) = sorted
      at hperm hsorted
    cases sorted with
    | nil => exact hperm.symm.eq_nil
    | cons e rest =>
      refine ⟨hperm.mem_iff.mp List.mem_cons_self, fun x hx => ?_⟩
      rcases List.mem_cons.mp (hperm.mem_iff.mpr hx) with rfl | hx
      · exact Nat.le_refl _
      · exact (List.pairwise_cons.mp hsorted).1 x hx

theorem persistenceIDs_listing (ids : List String) (n : ℕ) (hn : 0 < n) (hne : "" ∉ ids) :
    IsListing ids n (persistenceIDs ids n) := by
  have hpage (token : String) : persistenceIDs ids n token = ((afterToken ids token).take n,
      if n ≤ (afterToken ids token).length then ((afterToken ids token).take n).getLast?.getD "" else "") := by
    unfold persistenceIDs
    rw [if_neg (Nat.ne_of_gt hn), ← afterToken]
    dsimp only
    rw [List.length_take]
    by_cases hle : n ≤ (afterToken ids token).length
    · rw [if_pos hle, if_pos (Nat.min_eq_left hle)]
    · rw [if_neg hle, if_neg (by omega)]
  refine ⟨fun token _ => ?_, fun token _ hnext => ?_, fun token _ hnext => ?_, fun token _ hnext hrest => ?_⟩
  · rw [hpage]
  · rw [hpage] at hnext
    by_contra hmore
    obtain ⟨id, hmem, hid⟩ := exists_last_of_page hn (show n ≤ (afterToken ids token).length by omega)
    rw [if_pos (by omega), hid] at hnext
    exact hne (hnext ▸ hmem)
  · rw [hpage] at hnext ⊢
    split at hnext
    · rename_i hmore
      obtain ⟨id, -, hid⟩ := exists_last_of_page hn hmore
      rw [if_pos hmore, hid]
      rfl
    · exact absurd rfl hnext
  · rw [hpage (persistenceIDs ids n token).2, hrest, List.take_nil]

/-- The store for bounds that `BIGINT` holds. -/
def retainingStore : RetainingStore where
  writeEvents := writeRecord
  getLatestEvent := getLatestEvent
  replayEvents := fun scope log a b limit =>
    if !scope.valid then .error errInvalidScope else .ok (selectEvents log a b limit)
  deleteEvents := deleteEvents
  precondition_holds := fun _ _ _ _ _ _ h => (writeRecord_ok h).1
  appends := fun _ _ _ _ _ _ h hf => (writeRecord_ok h).2.2.1 hf
  latest_of_ok := fun _ _ _ h => getLatestEvent_ok h
  replay_of_ok := by
    intro scope log a b limit events h hj
    split at h
    · simp at h
    · rw [← Except.ok.inj h, selectEvents]
      rw [((hj.filter _).imp Nat.le_of_lt).insertionSort_eq]
  raises := fun _ _ _ _ _ _ h => (writeRecord_ok h).2.1
  deletes := by
    intro scope old upTo new h
    unfold deleteEvents at h
    split at h
    · simp at h
    · rw [← Except.ok.inj h]
      cases old with
      | none => exact ⟨rfl, rfl⟩
      | some log =>
        refine ⟨rfl, List.filter_congr fun e _ => ?_⟩
        rw [← decide_not, decide_eq_decide]
        exact Nat.not_le
  latest_total := fun _ _ h => ⟨_, by simp only [getLatestEvent, h]; rfl⟩
  replay_total := fun _ _ _ _ _ h => ⟨_, by simp only [h]; rfl⟩

/-- `math.MaxUint64`, up to which adopter and migrator replay, is out of range. -/
theorem replayEvents_eq (scope : Scope) (log : Option EventLog) (a b limit : ℕ) : replayEvents scope log a b limit =
    if a < 2 ^ 63 ∧ b < 2 ^ 63 ∧ limit < 2 ^ 63 ∨ scope.valid = false then
      retainingStore.replayEvents scope log a b limit
    else .error (.message "value out of range for type bigint") := by
  simp only [replayEvents, retainingStore, bindBigint]
  generalize 2 ^ 63 = m
  cases scope.valid with
  | false => simp
  | true =>
    by_cases ha : a < m <;> by_cases hb : b < m <;> by_cases hl : limit < m <;>
      simp [ha, hb, hl, Bind.bind, Except.bind]

end Ego.Postgres

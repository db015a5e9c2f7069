import Ego.EventSource.Retention
import Ego.Testkit.Noninterference

/-!
# Erasure of an entity (`engine/entities.go:286-350`)

`EraseEntity` with full erasure on the in-memory stores.
-/

namespace Ego.Engine
open Persistence Testkit
open Tenancy (TenantContext newTenantID)

structure Stores where
  events : EventStore.Db
  snapshots : Option SnapshotStore.Db

/-- What `EraseEntity` reads of the engine; `resolved` is the answer of the tenant resolver. -/
structure Runtime where
  started : Bool
  resolved : Option (Except Err TenantContext)

def scopeName : TenantContext → String
  | .unset => "unknown"
  | .tenant _ => "tenant"
  | .administrative _ _ _ => "administrative"

def erasureScope (engine : Runtime) : Except Err Scope :=
  match engine.resolved with
  | none => .ok .unscoped
  | some (.error err) => .error (err.wrap "failed to resolve tenant for erasure")
  | some (.ok (.tenant id)) =>
    ((newTenantID id).map Scope.tenant).mapError (Err.wrap "failed to build erasure scope")
  | some (.ok tc) => .error (.message ("failed to erase entity: erasure requires a tenant-scoped identity, got " ++
      scopeName tc ++ ": tenancy: tenant identity denied"))

def deleteSnapshots (snapshots : Option SnapshotStore.Db) (scope : Scope) (id : String) (upTo : ℕ) :
    Except Err Unit × Option SnapshotStore.Db :=
  match snapshots with
  | none => (.ok (), none)
  | some db => ((SnapshotStore.deleteSnapshots db scope id upTo).1,
      some (SnapshotStore.deleteSnapshots db scope id upTo).2)

def eraseUpTo (stores : Stores) (scope : Scope) (id : String) (upTo : ℕ) : Except Err Unit × Stores :=
  match EventStore.deleteEvents stores.events scope id upTo with
  | (.error err, events) => (.error (err.wrap "failed to delete events for erasure"), { stores with events := events })
  | (.ok (), events) =>
    ((deleteSnapshots stores.snapshots scope id upTo).1.mapError (Err.wrap "failed to delete snapshots for erasure"),
      ⟨events, (deleteSnapshots stores.snapshots scope id upTo).2⟩)

def eraseRecords (stores : Stores) (scope : Scope) (id : String) : Except Err Unit × Stores :=
  match EventStore.getLatestEvent stores.events scope id with
  | .error err => (.error (err.wrap "failed to get latest event for erasure"), stores)
  | .ok none => (.ok (), stores)
  | .ok (some latest) => eraseUpTo stores scope id latest.sequenceNumber

def eraseEntity (engine : Runtime) (stores : Stores) (id : String) (full : Bool) : Except Err Unit × Stores :=
  if !engine.started then (.error (.message "urd engine has not started"), stores)
  else
    match erasureScope engine with
    | .error err => (.error err, stores)
    | .ok scope => if full then eraseRecords stores scope id else (.ok (), stores)

structure Stores.Unreadable (stores : Stores) (scope : Scope) (id : String) : Prop where
  latest : EventStore.getLatestEvent stores.events scope id = .ok none
  replay : ∀ first last limit events,
    EventStore.replayEvents stores.events scope id first last limit = .ok events → events = []
  snapshot : ∀ db ∈ stores.snapshots, SnapshotStore.getLatestSnapshot db scope id = .ok none

structure Stores.SameElsewhere (stores stores' : Stores) (scope : Scope) (id : String) : Prop where
  events : ∀ scope' id', ¬ (scope' = scope ∧ id' = id) →
    stores'.events.lookup (scope', id') = stores.events.lookup (scope', id')
  configured : stores'.snapshots.isSome = stores.snapshots.isSome
  snapshots : ∀ db ∈ stores.snapshots, ∀ db' ∈ stores'.snapshots, ∀ scope' id' n,
    ¬ (scope' = scope ∧ id' = id) →
    db'.map.lookup (scope', id', n) = db.map.lookup (scope', id', n)

def Stores.Anchored (stores : Stores) (scope : Scope) (id : String) : Prop :=
  ∀ db ∈ stores.snapshots, ∀ s ∈ SnapshotStore.snapshots db scope id,
    ∃ e ∈ journal (stores.events.lookup (scope, id)), s.sequenceNumber ≤ e.sequenceNumber

theorem erasureScope_valid {engine : Runtime} {scope : Scope} (h : erasureScope engine = .ok scope) :
    scope.valid = true := by
  unfold erasureScope at h
  split at h
  · rw [← Except.ok.inj h]
    rfl
  · cases h
  · obtain ⟨id, -, rfl⟩ := Lib.map_eq_ok.mp (Lib.mapError_eq_ok.mp h)
    rfl
  · cases h

section
variable {scope : Scope} {id : String}

theorem deleteEvents_valid (hs : scope.valid = true) (db : EventStore.Db) (id : String) (upTo : ℕ) :
    (EventStore.deleteEvents db scope id upTo).1 = .ok () ∧
      journal ((EventStore.deleteEvents db scope id upTo).2.lookup (scope, id)) =
        (journal (db.lookup (scope, id))).filter fun e => upTo < e.sequenceNumber := by
  have hdelete : ∃ log, Testkit.deleteEvents scope (db.lookup (scope, id)) upTo = .ok log := by
    unfold Testkit.deleteEvents
    rw [hs]
    cases db.lookup (scope, id) with
    | none => exact ⟨_, rfl⟩
    | some log =>
      dsimp only
      split
      · rename_i h
        cases h
      · split
        · exact ⟨_, rfl⟩
        · exact ⟨_, rfl⟩
  obtain ⟨log, hlog⟩ := hdelete
  have hjournal := (deleteEvents_ok hlog).2
  unfold EventStore.deleteEvents
  rw [hlog]
  cases log with
  | none =>
    refine ⟨rfl, ?_⟩
    -- nothing is stored where the deletion finds no record
    have hnone : db.lookup (scope, id) = none := by
      cases hlookup : db.lookup (scope, id) with
      | none => rfl
      | some old =>
        rw [hlookup, Testkit.deleteEvents, hs] at hlog
        dsimp only at hlog
        split at hlog
        · rename_i h
          cases h
        · split at hlog
          · cases Except.ok.inj hlog
          · cases Except.ok.inj hlog
    rw [hnone]
    rfl
  | some log =>
    refine ⟨rfl, ?_⟩
    rw [AList.lookup_insert]
    exact hjournal

theorem getLatestEvent_of_journal (hs : scope.valid = true) {db : EventStore.Db}
    (h : journal (db.lookup (scope, id)) = []) : EventStore.getLatestEvent db scope id = .ok none := by
  unfold EventStore.getLatestEvent Testkit.getLatestEvent
  rw [hs, h]
  rfl

theorem replayEvents_of_journal {db : EventStore.Db} (h : journal (db.lookup (scope, id)) = []) {first last limit : ℕ}
    {events : List Event} (hreplay : EventStore.replayEvents db scope id first last limit = .ok events) :
    events = [] := by
  unfold EventStore.replayEvents Testkit.replayEvents at hreplay
  split at hreplay
  · cases hreplay
  · split at hreplay
    · cases hreplay
    · rw [h] at hreplay
      have hnil := Except.ok.inj hreplay
      rw [← hnil]
      exact List.take_nil

section
variable (hs : scope.valid = true)
include hs

theorem getLatestSnapshot_none (db : SnapshotStore.Db) :
    SnapshotStore.getLatestSnapshot db scope id = .ok none ↔ SnapshotStore.snapshots db scope id = [] := by
  constructor
  · intro h
    exact getLatestSnapshot_ok h
  · intro h
    unfold Testkit.SnapshotStore.getLatestSnapshot Testkit.getLatestSnapshot
    rw [hs, h]
    rfl

theorem snapshots_deleteSnapshots (db : SnapshotStore.Db) (upTo : ℕ) :
    SnapshotStore.snapshots (SnapshotStore.deleteSnapshots db scope id upTo).2 scope id = [] ↔
      ∀ s ∈ SnapshotStore.snapshots db scope id, s.sequenceNumber ≤ upTo := by
  have hdb : (SnapshotStore.deleteSnapshots db scope id upTo).2 =
      SnapshotStore.remove db (SnapshotStore.doomed db scope id upTo) := by
    unfold Testkit.SnapshotStore.deleteSnapshots
    rw [hs]
    rfl
  have hmem (s : Snapshot) : s ∈ SnapshotStore.snapshots (SnapshotStore.deleteSnapshots db scope id upTo).2
      scope id ↔
      s ∈ SnapshotStore.snapshots db scope id ∧ ¬ s.sequenceNumber ≤ upTo := by
    rw [hdb, SnapshotStore.mem_snapshots, SnapshotStore.lookup_remove, SnapshotStore.mem_snapshots]
    by_cases hle : s.sequenceNumber ≤ upTo
    · simp [hle]
    · simp [hle]
  rw [List.eq_nil_iff_forall_not_mem]
  constructor
  · intro h s hmem'
    by_contra hlt
    exact h s ((hmem s).mpr ⟨hmem', hlt⟩)
  · intro h s hs'
    obtain ⟨hold, hlt⟩ := (hmem s).mp hs'
    exact hlt (h s hold)

theorem eraseUpTo_eq (stores : Stores) (id : String) (upTo : ℕ) :
    eraseUpTo stores scope id upTo = (.ok (), ⟨(EventStore.deleteEvents stores.events scope id upTo).2,
      stores.snapshots.map fun db => (SnapshotStore.deleteSnapshots db scope id upTo).2⟩) := by
  obtain ⟨hok, -⟩ := deleteEvents_valid hs stores.events id upTo
  unfold eraseUpTo
  rcases hdelete : EventStore.deleteEvents stores.events scope id upTo with ⟨result, events⟩
  rw [hdelete] at hok
  subst hok
  cases hsnapshots : stores.snapshots with
  | none => rfl
  | some db =>
    have hdb : (SnapshotStore.deleteSnapshots db scope id upTo).1 = .ok () := by
      unfold Testkit.SnapshotStore.deleteSnapshots
      rw [hs]
      rfl
    simp only [deleteSnapshots, hdb, Except.mapError, Option.map_some]

theorem eraseUpTo_elsewhere (stores : Stores) (upTo : ℕ) :
    stores.SameElsewhere (eraseUpTo stores scope id upTo).2 scope id := by
  rw [eraseUpTo_eq hs]
  refine ⟨fun scope' id' hne => ?_, ?_, fun db hdb db' hdb' scope' id' n hne => ?_⟩
  · exact EventStore.lookup_deleteEvents_of_ne fun h => hne ⟨h.1.symm, h.2.symm⟩
  · exact Option.isSome_map
  · change db' ∈ stores.snapshots.map _ at hdb'
    rw [hdb] at hdb'
    rw [← Option.some.inj hdb']
    unfold Testkit.SnapshotStore.deleteSnapshots
    rw [hs]
    refine (SnapshotStore.lookup_remove db scope id upTo scope' id' n).trans (if_neg fun h => ?_)
    exact hne ⟨h.1, h.2.1⟩

theorem eraseRecords_elsewhere (stores : Stores) :
    stores.SameElsewhere (eraseRecords stores scope id).2 scope id := by
  have hsame : stores.SameElsewhere stores scope id := by
    refine ⟨fun _ _ _ => rfl, rfl, fun db hdb db' hdb' _ _ _ _ => ?_⟩
    rw [Option.some.inj (hdb.symm.trans hdb')]
  unfold eraseRecords
  split
  · exact hsame
  · exact hsame
  · exact eraseUpTo_elsewhere hs stores _

theorem unreadable_iff {stores : Stores}
    (h : journal (stores.events.lookup (scope, id)) = []) :
    stores.Unreadable scope id ↔ ∀ db ∈ stores.snapshots, SnapshotStore.snapshots db scope id = [] := by
  constructor
  · intro hunreadable db hdb
    exact (getLatestSnapshot_none hs db).mp (hunreadable.snapshot db hdb)
  · intro hsnapshots
    exact ⟨getLatestEvent_of_journal hs h, fun _ _ _ _ hreplay => replayEvents_of_journal h hreplay,
      fun db hdb => (getLatestSnapshot_none hs db).mpr (hsnapshots db hdb)⟩

theorem eraseRecords_unreadable_iff (stores : Stores) :
    (eraseRecords stores scope id).2.Unreadable scope id ↔ stores.Anchored scope id := by
  obtain ⟨latest, hlatest⟩ := retainingStore.latest_total scope (stores.events.lookup (scope, id)) hs
  have hget : EventStore.getLatestEvent stores.events scope id = .ok latest := hlatest
  have hmax := getLatestEvent_ok hlatest
  unfold eraseRecords
  rw [hget]
  cases latest with
  | none =>
    have hnil : journal (stores.events.lookup (scope, id)) = [] := hmax
    rw [unreadable_iff hs hnil, Stores.Anchored, hnil]
    simp only [List.not_mem_nil, false_and, exists_false, ← List.eq_nil_iff_forall_not_mem]
  | some e =>
    obtain ⟨hmem, hle⟩ := hmax
    have hempty : journal ((eraseUpTo stores scope id e.sequenceNumber).2.events.lookup (scope, id)) = [] := by
      rw [eraseUpTo_eq hs]
      rw [(deleteEvents_valid hs stores.events id e.sequenceNumber).2, List.filter_eq_nil_iff]
      intro x hx
      have hxe := hle x hx
      simpa using hxe
    have hanchor (s : Snapshot) : (∃ x ∈ journal (stores.events.lookup (scope, id)),
        s.sequenceNumber ≤ x.sequenceNumber) ↔ s.sequenceNumber ≤ e.sequenceNumber := by
      constructor
      · rintro ⟨x, hx, hsx⟩
        exact Nat.le_trans hsx (hle x hx)
      · exact fun hse => ⟨e, hmem, hse⟩
    rw [unreadable_iff hs hempty, eraseUpTo_eq hs, Stores.Anchored]
    simp only [hanchor, Option.forall_mem_map, snapshots_deleteSnapshots hs]

end

end

/-- When a full erasure reports success, the entity is gone and nothing else is touched
exactly if each of its snapshots had an event as late. -/
theorem eraseEntity_erases_iff {engine : Runtime} {stores : Stores} {id : String} {scope : Scope}
    (hscope : erasureScope engine = .ok scope) (h : (eraseEntity engine stores id true).1 = .ok ()) :
    (eraseEntity engine stores id true).2.Unreadable scope id ∧
        stores.SameElsewhere (eraseEntity engine stores id true).2 scope id ↔ stores.Anchored scope id := by
  have hs := erasureScope_valid hscope
  have herase : eraseEntity engine stores id true = eraseRecords stores scope id := by
    unfold eraseEntity at h ⊢
    split at h
    · cases h
    · rename_i hstarted
      rw [if_neg hstarted, hscope]
      rfl
  rw [herase, eraseRecords_unreadable_iff hs]
  exact ⟨fun h => h.1, fun h => ⟨h, eraseRecords_elsewhere hs stores⟩⟩

def applyRetention (req : EventSource.ApplyRetentionRequest) (stores : Stores) : Stores where
  events :=
    if req.policy.deleteEventsOnSnapshot ∧ EventSource.deleteUpTo req > 0 then
      (EventStore.deleteEvents stores.events req.scope req.persistenceID (EventSource.deleteUpTo req)).2
    else stores.events
  snapshots :=
    if req.policy.deleteSnapshotsOnSnapshot ∧ req.eventsCounter > req.snapshotInterval then
      (deleteSnapshots stores.snapshots req.scope req.persistenceID (req.eventsCounter - req.snapshotInterval)).2
    else stores.snapshots

def created : Event := ⟨"account", 1, false, ⟨"AccountCreated", [7]⟩, 0, 0, "", false, []⟩

def openingBalance : Snapshot := ⟨"account", 1, some ⟨"Account", [7]⟩, 0, "", false, []⟩

def snapshotted : Stores where
  events := (EventStore.writeEvents ∅ .unscoped [created] .genesis).2
  snapshots := some (SnapshotStore.writeSnapshot SnapshotStore.empty .unscoped openingBalance).2

theorem eraseEntity_erases_snapshotted :
    (eraseEntity ⟨true, none⟩ snapshotted "account" true).2.Unreadable .unscoped "account" := by
  refine ((eraseEntity_erases_iff rfl rfl).mpr ?_).1
  intro db hdb s hs
  obtain rfl := Option.some.inj hdb
  have hsnapshot : s = openingBalance := List.mem_singleton.mp hs
  rw [hsnapshot]
  exact ⟨created, List.mem_singleton.mpr rfl, Nat.le_refl 1⟩

def deleteOnSnapshot : EventSource.ApplyRetentionRequest := ⟨"account", 1, 1, ⟨true, false, 0⟩, .unscoped⟩

theorem eraseEntity_leaves_snapshot :
    (eraseEntity ⟨true, none⟩ (applyRetention deleteOnSnapshot snapshotted) "account" true).1 = .ok () ∧
      ¬ (eraseEntity ⟨true, none⟩ (applyRetention deleteOnSnapshot snapshotted) "account" true).2.Unreadable
        .unscoped "account" := by
  refine ⟨rfl, fun h => ?_⟩
  cases h.snapshot _ rfl

end Ego.Engine

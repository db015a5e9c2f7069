import Ego.Persistence.EventLog

/-! # Retention and snapshots (`persistence/events_store.go`, `persistence/snapshot_store.go`) -/

namespace Ego.Persistence

structure RetainingStore extends EventsStore where
  deleteEvents : Scope → Option EventLog → ℕ → Except Err (Option EventLog)
  raises : ∀ scope id old events p new, writeEvents scope id old events p = .ok new → storageRevision new =
      events.foldl (fun revision e => max revision e.sequenceNumber) (storageRevision old)
  deletes : ∀ scope old upTo new, deleteEvents scope old upTo = .ok new →
    storageRevision new = storageRevision old ∧
      journal new = (journal old).filter fun e => upTo < e.sequenceNumber
  latest_total : ∀ scope log, scope.valid = true → ∃ latest, getLatestEvent scope log = .ok latest
  replay_total : ∀ scope log fromSeq toSeq limit, scope.valid = true →
    ∃ events, replayEvents scope log fromSeq toSeq limit = .ok events

def IsLatestSnapshot (snapshots : List Snapshot) : Option Snapshot → Prop
  | none => snapshots = []
  | some s => s ∈ snapshots ∧ ∀ x ∈ snapshots, x.sequenceNumber ≤ s.sequenceNumber

structure SnapshotStore where
  writeSnapshot : Scope → List Snapshot → Snapshot → Except Err (List Snapshot)
  getLatestSnapshot : Scope → List Snapshot → Except Err (Option Snapshot)
  deleteSnapshots : Scope → List Snapshot → ℕ → Except Err (List Snapshot)
  writes : ∀ scope old s new, writeSnapshot scope old s = .ok new →
    ∀ x, x ∈ new ↔ x = s ∨ x ∈ old ∧ x.sequenceNumber ≠ s.sequenceNumber
  latest_total : ∀ scope snapshots, scope.valid = true → ∃ latest, getLatestSnapshot scope snapshots = .ok latest
  latest_of_ok : ∀ scope snapshots latest, getLatestSnapshot scope snapshots = .ok latest →
    IsLatestSnapshot snapshots latest
  deletes : ∀ scope old upTo new, deleteSnapshots scope old upTo = .ok new →
    ∀ x, x ∈ new ↔ x ∈ old ∧ upTo < x.sequenceNumber

end Ego.Persistence

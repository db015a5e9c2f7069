import Ego.Enginetest.Account
import Ego.Enginetest.Adoption
import Ego.Migration.TenantAdopter
import Ego.Testkit.Listing

/-! # Adopters and contents for concrete runs -/

namespace Ego.Enginetest
open Persistence Migration

def noRecords : Records := ⟨fun _ => none, fun _ => [], fun _ => none⟩

def noContents : Contents := ⟨fun _ => noRecords, fun _ => ∅, by simp [noRecords]⟩

def accountContents (r : Records) : Contents := noContents.set "account" r

theorem listed_account {store : JournalStore} {r : Records} {log : EventLog}
    (hlog : r.log .unscoped = some log) (hevents : log.events ≠ []) :
    (((accountContents r).ids .unscoped).filter fun id =>
      (((accountContents r).records id).log .unscoped).any store.lists).sort (· ≤ ·) = ["account"] := by
  have hset : ((accountContents r).ids .unscoped).filter (fun id =>
      (((accountContents r).records id).log .unscoped).any store.lists) = {"account"} := by
    ext id
    rw [Finset.mem_filter, Finset.mem_singleton, (accountContents r).mem_ids]
    by_cases hid : id = "account"
    · subst hid
      simp [accountContents, hlog, store.lists_events log hevents]
    · simp [accountContents, noContents, noRecords, hid]
  rw [hset, Finset.sort_singleton]

def creditLog (revision : ℕ) (h : 1 ≤ revision) : EventLog :=
  ⟨revision, [credited "account" 1 0], by simp, by simpa [credited] using h⟩

def acmeAdopter (store : JournalStore) (write deleteSource : Bool) : TenantAdopter where
  eventsStore := some store
  snapshotStore := some Testkit.fullSnapshotStore
  stateStore := none
  sourceScope := .unscoped
  explicitIDs := []
  pageSize := 500
  write := write
  deleteSource := deleteSource
  failFast := false
  hasFence := true
  sha := testDigest
  eventWire := testMarshal eventCode
  snapshotWire := testMarshal snapshotCode
  stateWire := testMarshal stateCode
  assign := fun _ => .ok (some "acme")
  configured := .inl rfl
  pageSize_pos := by decide
  source_valid := rfl
  fenced := fun _ => rfl

end Ego.Enginetest

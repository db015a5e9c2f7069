import Ego.Testkit.EventStore
import Ego.Persistence.Retention

/-! # The in-memory snapshot store (`testkit/snapshotstore.go`) -/

namespace Ego.Testkit
open Persistence

def writeSnapshot (scope : Scope) (snapshots : List Snapshot) (snapshot : Snapshot) : Except Err (List Snapshot) :=
  if !scope.valid then .error errInvalidScope
  else .ok (snapshot :: snapshots.filter fun x => x.sequenceNumber != snapshot.sequenceNumber)

def getLatestSnapshot (scope : Scope) (snapshots : List Snapshot) : Except Err (Option Snapshot) :=
  if !scope.valid then .error errInvalidScope
  else .ok (Lib.StableSort.sort
    (fun x y : Snapshot => decide (x.sequenceNumber > y.sequenceNumber)) snapshots).head?

def deleteSnapshots (scope : Scope) (snapshots : List Snapshot) (toSequenceNumber : ℕ) : Except Err (List Snapshot) :=
  if !scope.valid then .error errInvalidScope
  else .ok (snapshots.filter fun x => !decide (x.sequenceNumber ≤ toSequenceNumber))

theorem latestFirst_decides :
    Lib.StableSort.Decides (fun x y : Snapshot => decide (x.sequenceNumber > y.sequenceNumber))
      fun x y => y.sequenceNumber ≤ x.sequenceNumber where
  of_less := fun _ _ h => Nat.le_of_lt (of_decide_eq_true h)
  of_not_less := fun _ _ h => Nat.le_of_not_lt (of_decide_eq_false h)
  trans := fun _ _ _ hab hbc => Nat.le_trans hbc hab

theorem getLatestSnapshot_ok {scope : Scope} {snapshots : List Snapshot} {latest : Option Snapshot}
    (h : getLatestSnapshot scope snapshots = .ok latest) : IsLatestSnapshot snapshots latest := by
  unfold getLatestSnapshot at h
  split at h
  · simp at h
  · have hperm := Lib.StableSort.sort_perm
      (fun x y : Snapshot => decide (x.sequenceNumber > y.sequenceNumber)) snapshots
    have hsorted := Lib.StableSort.sort_sorted latestFirst_decides snapshots
    rw [← Except.ok.inj h]
    generalize Lib.StableSort.sort
      (fun x y : Snapshot => decide (x.sequenceNumber > y.sequenceNumber)) snapshots = sorted at hperm hsorted
    cases sorted with
    | nil => exact hperm.symm.eq_nil
    | cons s rest =>
      refine ⟨hperm.mem_iff.mp List.mem_cons_self, fun x hx => ?_⟩
      rcases List.mem_cons.mp (hperm.mem_iff.mpr hx) with rfl | hx
      · exact Nat.le_refl _
      · exact (List.pairwise_cons.mp hsorted).1 x hx

def snapshotStore : SnapshotStore where
  writeSnapshot := writeSnapshot
  getLatestSnapshot := getLatestSnapshot
  deleteSnapshots := deleteSnapshots
  writes := by
    intro scope old s new h x
    unfold writeSnapshot at h
    split at h
    · simp at h
    · rw [← Except.ok.inj h]
      simp
  latest_total := fun scope snapshots h => ⟨_, by simp only [getLatestSnapshot, h]; rfl⟩
  latest_of_ok := fun _ _ _ h => getLatestSnapshot_ok h
  deletes := by
    intro scope old upTo new h x
    unfold deleteSnapshots at h
    split at h
    · simp at h
    · rw [← Except.ok.inj h]
      simp

theorem foldl_raiseRevision_eq_max (events : List Event) (revision : ℕ) : events.foldl raiseRevision revision =
      events.foldl (fun revision e => max revision e.sequenceNumber) revision := by
  have hraise : raiseRevision = fun revision (e : Event) => max revision e.sequenceNumber := by
    funext revision e
    unfold raiseRevision
    split <;> omega
  rw [hraise]

def retainingStore : RetainingStore where
  toEventsStore := eventsStore
  deleteEvents := deleteEvents
  raises := by
    intro scope id old events p new h
    rw [(writeRecord_ok h).2, ← foldl_raiseRevision_eq_max]
    by_cases he : events = []
    · simp [he]
    · rw [if_neg he]
      rfl
  deletes := fun _ _ _ _ h => deleteEvents_ok h
  latest_total := by
    intro scope log h
    change ∃ latest, getLatestEvent scope log = .ok latest
    unfold getLatestEvent
    rw [h]
    cases journal log with
    | nil => exact ⟨_, rfl⟩
    | cons event events => exact ⟨_, rfl⟩
  replay_total := by
    intro scope log a b limit h
    change ∃ events, replayEvents scope log a b limit = .ok events
    unfold replayEvents
    rw [h]
    exact ⟨_, rfl⟩

end Ego.Testkit

import Ego.Lib.Distinct
import Ego.Testkit.DurableStore
import Ego.Testkit.Listing
import Ego.Testkit.Shards
import Mathlib.Data.Finset.Sort
import Mathlib.Data.List.AList

/-!
# The in-memory stores as a whole (`testkit/eventstore.go`, `snapshotstore.go`, `durablestore.go`)

A `sync.Map` ranges over its entries in no particular order; here it is that of the list.
-/

namespace Ego.Testkit
open Persistence

namespace EventStore

abbrev Db := AList fun _ : Scope × String => EventLog

inductive Call where
  | writeEvents (scope : Scope) (events : List Event) (precondition : WritePrecondition)
  | deleteEvents (scope : Scope) (persistenceID : String) (toSequenceNumber : ℕ)
  | replayEvents (scope : Scope) (persistenceID : String) (fromSequenceNumber toSequenceNumber limit : ℕ)
  | getLatestEvent (scope : Scope) (persistenceID : String)
  | persistenceIDs (scope : Scope) (pageSize : ℕ) (pageToken : String)

inductive Answer where
  | done (result : Except Err Unit)
  | events (result : Except Err (List Event))
  | latest (result : Except Err (Option Event))
  | page (result : Except Err (List String × String))

def outOfRange : Err := .message "runtime error: slice bounds out of range"

def order (events : List Event) : List String := Lib.distinct (events.map (·.persistenceId))

def group (events : List Event) (id : String) : List Event := events.filter fun e => e.persistenceId = id

def writeUnconditional (db : Db) (scope : Scope) (events : List Event) : Db :=
  (order events).foldl (fun db id => db.insert (scope, id) (newEventLog (db.lookup (scope, id)) (group events id))) db

def publish (db : Db) (key : Scope × String) : Except Err EventLog → Except Err Unit × Db
  | .error err => (.error err, db)
  | .ok log => (.ok (), db.insert key log)

def writeEvents (db : Db) (scope : Scope) (events : List Event) (precondition : WritePrecondition) :
    Except Err Unit × Db :=
  if !scope.valid then (.error errInvalidScope, db)
  else if !precondition.valid then (.error errInvalidPrecondition, db)
  else if precondition.isUnconditional then (.ok (), writeUnconditional db scope events)
  else
    match events with
    | [] => (.error errPreconditionScope, db)
    | first :: rest =>
      if rest.any fun e => e.persistenceId ≠ first.persistenceId then (.error errPreconditionScope, db)
      else
        publish db (scope, first.persistenceId) (conditionalLog scope first.persistenceId
          (db.lookup (scope, first.persistenceId)) (first :: rest) precondition)

def deleteEvents (db : Db) (scope : Scope) (id : String) (toSequenceNumber : ℕ) : Except Err Unit × Db :=
  match Testkit.deleteEvents scope (db.lookup (scope, id)) toSequenceNumber with
  | .error err => (.error err, db)
  | .ok none => (.ok (), db)
  | .ok (some log) => (.ok (), db.insert (scope, id) log)

def replayEvents (db : Db) (scope : Scope) (id : String) (fromSequenceNumber toSequenceNumber limit : ℕ) :
    Except Err (List Event) :=
  if scope.valid && (db.lookup (scope, id)).isSome && decide (toInt limit < 0) then .error outOfRange
  else Testkit.replayEvents scope (db.lookup (scope, id)) fromSequenceNumber toSequenceNumber limit

def getLatestEvent (db : Db) (scope : Scope) (id : String) : Except Err (Option Event) :=
  Testkit.getLatestEvent scope (db.lookup (scope, id))

def keys (db : Db) (scope : Scope) : List String :=
  ((db.keys.filter fun key => key.1 = scope).map (·.2)).toFinset.sort (· ≤ ·)

def pageOfKeys (keys : List String) (pageSize : ℕ) (pageToken : String) : Except Err (List String × String) :=
  let start := startIndex keys pageToken
  let sum := Int.bmod (start + toInt pageSize) (2 ^ 64)
  let endIndex : ℤ := if keys.length < sum then keys.length else sum
  if endIndex < start then .error outOfRange
  else
    let page := (keys.take endIndex.toNat).drop start
    .ok (page, if endIndex < keys.length ∧ page ≠ [] then page.getLast?.getD "" else "")

def persistenceIDs (db : Db) (scope : Scope) (pageSize : ℕ) (pageToken : String) :
    Except Err (List String × String) :=
  if !scope.valid then .error errInvalidScope else pageOfKeys (keys db scope) pageSize pageToken

def step (db : Db) : Call → Answer × Db
  | .writeEvents scope events precondition =>
    (.done (writeEvents db scope events precondition).1, (writeEvents db scope events precondition).2)
  | .deleteEvents scope id upTo => (.done (deleteEvents db scope id upTo).1, (deleteEvents db scope id upTo).2)
  | .replayEvents scope id a b limit => (.events (replayEvents db scope id a b limit), db)
  | .getLatestEvent scope id => (.latest (getLatestEvent db scope id), db)
  | .persistenceIDs scope n token => (.page (persistenceIDs db scope n token), db)

end EventStore

namespace SnapshotStore

structure Db where
  map : AList fun _ : Scope × String × ℕ => Snapshot
  keyed : ∀ scope id n s, map.lookup (scope, id, n) = some s → s.sequenceNumber = n

inductive Call where
  | writeSnapshot (scope : Scope) (snapshot : Snapshot)
  | getLatestSnapshot (scope : Scope) (persistenceID : String)
  | deleteSnapshots (scope : Scope) (persistenceID : String) (toSequenceNumber : ℕ)

inductive Answer where
  | done (result : Except Err Unit)
  | latest (result : Except Err (Option Snapshot))

def empty : Db := ⟨∅, by simp⟩

def store (db : Db) (scope : Scope) (snapshot : Snapshot) : Db where
  map := db.map.insert (scope, snapshot.persistenceId, snapshot.sequenceNumber) snapshot
  keyed := by
    intro scope' id n s h
    by_cases hkey : (scope', id, n) = (scope, snapshot.persistenceId, snapshot.sequenceNumber)
    · rw [hkey, AList.lookup_insert] at h
      rw [← Option.some.inj h]
      exact (Prod.mk.inj (Prod.mk.inj hkey).2).2.symm
    · rw [AList.lookup_insert_ne hkey] at h
      exact db.keyed _ _ _ _ h

def snapshots (db : Db) (scope : Scope) (id : String) : List Snapshot :=
  (db.map.entries.filter fun entry => entry.1.1 = scope ∧ entry.1.2.1 = id).map (·.2)

def getLatestSnapshot (db : Db) (scope : Scope) (id : String) : Except Err (Option Snapshot) :=
  Testkit.getLatestSnapshot scope (snapshots db scope id)

def doomed (db : Db) (scope : Scope) (id : String) (toSequenceNumber : ℕ) : List (Scope × String × ℕ) :=
  db.map.keys.filter fun key => key.1 = scope ∧ key.2.1 = id ∧ key.2.2 ≤ toSequenceNumber

theorem lookup_erase_all (keys : List (Scope × String × ℕ)) (map : AList fun _ : Scope × String × ℕ => Snapshot)
    (key : Scope × String × ℕ) :
    (keys.foldl (fun map key => map.erase key) map).lookup key = if key ∈ keys then none else map.lookup key := by
  induction keys generalizing map with
  | nil => simp
  | cons first keys ih =>
    rw [List.foldl_cons, ih]
    by_cases hkey : key = first
    · subst hkey
      simp
    · rw [AList.lookup_erase_ne hkey]
      simp [hkey]

def remove (db : Db) (keys : List (Scope × String × ℕ)) : Db where
  map := keys.foldl (fun map key => map.erase key) db.map
  keyed := by
    intro scope id n s h
    rw [lookup_erase_all] at h
    split at h
    · cases h
    · exact db.keyed _ _ _ _ h

def writeSnapshot (db : Db) (scope : Scope) (snapshot : Snapshot) : Except Err Unit × Db :=
  if !scope.valid then (.error errInvalidScope, db) else (.ok (), store db scope snapshot)

def deleteSnapshots (db : Db) (scope : Scope) (id : String) (toSequenceNumber : ℕ) : Except Err Unit × Db :=
  if !scope.valid then (.error errInvalidScope, db) else (.ok (), remove db (doomed db scope id toSequenceNumber))

def step (db : Db) : Call → Answer × Db
  | .writeSnapshot scope snapshot =>
    (.done (writeSnapshot db scope snapshot).1, (writeSnapshot db scope snapshot).2)
  | .getLatestSnapshot scope id => (.latest (getLatestSnapshot db scope id), db)
  | .deleteSnapshots scope id upTo =>
    (.done (deleteSnapshots db scope id upTo).1, (deleteSnapshots db scope id upTo).2)

end SnapshotStore

namespace DurableStore

abbrev Db := AList fun _ : Scope × String => DurableState

inductive Call where
  | writeState (scope : Scope) (state : DurableState) (precondition : WritePrecondition)
  | getLatestState (scope : Scope) (persistenceID : String)

inductive Answer where
  | done (result : Except Err Unit)
  | latest (result : Except Err (Option DurableState))

def step (db : Db) : Call → Answer × Db
  | .writeState scope state precondition =>
    match writeState scope (db.lookup (scope, state.persistenceId)) state precondition with
    | .error err => (.done (.error err), db)
    | .ok none => (.done (.ok ()), db)
    | .ok (some record) => (.done (.ok ()), db.insert (scope, state.persistenceId) record)
  | .getLatestState scope id => (.latest (getLatestState scope (db.lookup (scope, id))), db)

end DurableStore

end Ego.Testkit

import Ego.EventSource.SoleWriter
import Ego.Testkit.SnapshotStore

/-!
# Snapshots, retention and crashes

The children of an entity actor act on the stores on their own
(`snapshots_writer_actor.go:137-169`, `events_janitor_actor.go:116-146`).
-/

namespace Ego.EventSource
open Persistence Protocol Lib

section
variable {S C E : Type} (cfg : Config S C E) (store : RetainingStore) (snapshotStore : SnapshotStore)

def handlePersistSnapshot (req : PersistSnapshotRequest) (snapshots : List Snapshot) : Except Err (List Snapshot) := do
  let snapshot ← encryptSnapshotState cfg req.snapshot
  snapshotStore.writeSnapshot req.scope snapshots snapshot

def deleteUpTo (req : ApplyRetentionRequest) : ℕ :=
  if req.policy.eventsRetentionCount > 0 then
    req.eventsCounter - min req.eventsCounter req.policy.eventsRetentionCount
  else req.eventsCounter

def retainEvents (req : ApplyRetentionRequest) (log : Option EventLog) : Option EventLog :=
  if req.policy.deleteEventsOnSnapshot ∧ deleteUpTo req > 0 then
    match store.deleteEvents req.scope log (deleteUpTo req) with
    | .ok log => log
    | .error _ => log
  else log

def retainSnapshots (req : ApplyRetentionRequest) (snapshots : List Snapshot) : List Snapshot :=
  if req.policy.deleteSnapshotsOnSnapshot ∧ req.eventsCounter > req.snapshotInterval then
    match snapshotStore.deleteSnapshots req.scope snapshots (req.eventsCounter - req.snapshotInterval) with
    | .ok snapshots => snapshots
    | .error _ => snapshots
  else snapshots

/-- An entity with its stores. `granted` are the requests the janitor was sent. -/
structure Retained (S C : Type) where
  node : Node S C
  log : Option EventLog
  snapshots : List Snapshot
  granted : List ApplyRetentionRequest

def Retained.persisted (s : Retained S C) : List Event := envelopesOf s.node.committed

inductive ChildLabel where
  -- the snapshot writer takes up the request that the actor sent as its `i`-th
  | snapshot (i : ℕ) (outcome : Outcome)
  -- the janitor takes up its `i`-th request, and its deletions reach the stores or not
  | retain (i : ℕ) (events snapshots : Bool)
  deriving DecidableEq, Repr

def childStep (s : Retained S C) : ChildLabel → Retained S C
  | .snapshot i outcome =>
    match s.node.snapshots[i]? with
    | none => s
    | some req =>
      match outcome, handlePersistSnapshot cfg snapshotStore req s.snapshots with
      | .store, .ok snapshots =>
        { s with snapshots := snapshots, granted := s.granted ++ req.retention.toList }
      | .lost, .ok snapshots => { s with snapshots := snapshots }
      | _, _ => s
  | .retain i events snapshots =>
    match s.granted[i]? with
    | none => s
    | some req =>
      { s with
        log := if events then retainEvents store req s.log else s.log
        snapshots := if snapshots then retainSnapshots snapshotStore req s.snapshots else s.snapshots }

/-- A call of a crashed child that takes effect: nobody follows it up. -/
def lateStep (s : Retained S C) (l : ChildLabel) : Retained S C :=
  { childStep cfg store snapshotStore s l with granted := s.granted }

def recoverFrom (s : Retained S C) (first second : List ChildLabel) : Except Err (Actor S) × Retained S C :=
  let s₁ := run (lateStep cfg store snapshotStore) s first
  let s₂ := run (lateStep cfg store snapshotStore) s₁ second
  let recovered := do
    let snapshot ←
      if cfg.snapshotsWriter then
        (snapshotStore.getLatestSnapshot cfg.scope s.snapshots).mapError
          (Err.wrap "failed to load snapshot")
      else .ok none
    recoverReading cfg store.toEventsStore snapshot s₁.log s₂.log
  (recovered, s₂)

/-- A crash empties the queue of the events writer: a write that is under way has committed
by then, or never does. The calls of the snapshot writer and of the janitor go on. -/
def Node.respawn (n : Node S C) (actor : Actor S) : Node S C :=
  { n with
    actor := actor
    mailbox := []
    stash := []
    timers := []
    writer := []
    asks := []
    stopping := false
    staging := []
    awaited := [] }

inductive RetentionLabel (C : Type) where
  | actor (l : Label C)
  | child (l : ChildLabel)
  | crash (first second : List ChildLabel)
  deriving DecidableEq, Repr

def retentionStep (s : Retained S C) : RetentionLabel C → Retained S C
  | .actor (.restart _) => s
  | .actor l =>
    let r := nodeStep cfg store.toEventsStore s.node s.log l
    { s with node := r.1, log := r.2 }
  | .child l => childStep cfg store snapshotStore s l
  | .crash first second =>
    match recoverFrom cfg store snapshotStore s first second with
    | (.ok actor, s) => { s with node := s.node.respawn actor }
    | (.error _, s) => s

def Retained.start : Retained S C :=
  ⟨.start (.new cfg.behavior.initialState 0 (spawnTenant cfg)), none, [], []⟩

structure Spawned : Prop where
  legacy : cfg.tenantAware = false → cfg.scope = .unscoped
  bound : cfg.tenantAware = true → ∃ id, Tenancy.newTenantID id = .ok id ∧ cfg.scope = .tenant id

def Unadapted (e : Event) : Prop :=
  ∀ payload, decryptPayload cfg e.event e.isEncrypted e.encryptionKeyId = .ok payload →
    ∃ adapted, chain cfg.eventAdapters payload e.sequenceNumber = .ok adapted ∧
      cfg.codec.unmarshalEvent adapted = cfg.codec.unmarshalEvent payload

/-- The adapters leave what is about to be persisted alone, and an actor that has
missed a commit and was told to stop takes up no more work. -/
def Orderly (s : Retained S C) : RetentionLabel C → Prop
  | .actor (.write _) => ∀ w ∈ s.node.writer, ∀ e ∈ w.req.envelopes, Unadapted cfg e
  | .actor (.deliver _ _) =>
    s.node.stopping = true → ∀ id ctx cmd rest, s.node.mailbox = .command id ctx cmd :: rest →
      yieldsEvents cfg s.node.actor ctx cmd = true →
        s.node.writer = [] ∧ s.persisted.length = s.node.actor.eventsCounter
  | _ => True

end

end Ego.EventSource

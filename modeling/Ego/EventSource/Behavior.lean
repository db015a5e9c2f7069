import Ego.Persistence.EventLog
import Ego.Protocol.Command

/-!
# What an event-sourced actor is built from

`port/behavior/behavior.go` and `event_sourced_actor.go:414-442`.
-/

namespace Ego.EventSource
open Persistence Protocol

structure Behavior (S C E : Type) where
  initialState : S
  handleCommand : Ctx → C → S → Except Err (List E)
  handleEnvelope : Option (Ctx → C → CommandMetadata → S → Except Err (List E))
  handleEvent : E → S → Except Err S

structure RetentionPolicy where
  deleteEventsOnSnapshot : Bool
  deleteSnapshotsOnSnapshot : Bool
  eventsRetentionCount : ℕ
  deriving DecidableEq, Repr

structure Config (S C E : Type) where
  behavior : Behavior S C E
  codec : Codec S E
  encryptor : Option Encryptor
  eventAdapters : List EventAdapter
  persistenceID : String
  scope : Scope
  tenantAware : Bool
  shardNumber : ℕ
  batchThreshold : ℤ
  snapshotInterval : ℕ
  -- `entity.snapshotsWriter != nil`: a snapshot store is configured
  snapshotsWriter : Bool
  retentionPolicy : Option RetentionPolicy

def Config.batchEnabled {S C E : Type} (cfg : Config S C E) : Bool := cfg.batchThreshold > 0

structure PersistEventsRequest where
  envelopes : List Event
  precondition : WritePrecondition
  scope : Scope
  deriving DecidableEq, Repr

structure ApplyRetentionRequest where
  persistenceID : String
  eventsCounter : ℕ
  snapshotInterval : ℕ
  policy : RetentionPolicy
  scope : Scope
  deriving DecidableEq, Repr

structure PersistSnapshotRequest where
  snapshot : Snapshot
  retention : Option ApplyRetentionRequest
  scope : Scope
  deriving DecidableEq, Repr

inductive Message (C : Type) where
  | command (id : ℕ) (ctx : Ctx) (cmd : C)
  | getState (id : ℕ) (ctx : Ctx)
  | batchFlushTick
  | persistEventsResponse (err : Option Err)
  deriving DecidableEq, Repr

/-- What one call of `Receive` asks of the runtime, in the order of the calls.
`handle` and `stage` are trace marks: the behavior ran for the current message,
and its envelopes were accepted for persistence with the given reply. -/
inductive Effect where
  | handle
  | stage (envelopes : List Event) (reply : CommandReply)
  | response (reply : CommandReply)
  | stash
  | unstashAll
  | pipeTo (req : PersistEventsRequest)
  | tellSnapshot (req : PersistSnapshotRequest)
  | startTimer (id : ℕ)
  | stopTimer (id : ℕ)
  | shutdown
  deriving DecidableEq, Repr

/-- What one turn reads from outside: the clock, the state of the command's
context at its two deadline gates, and the handle of a timer it may arm. -/
structure Turn where
  now : ℤ
  beforeHandler : Option ContextErr
  beforePersistence : Option ContextErr
  timer : ℕ
  deriving DecidableEq, Repr

end Ego.EventSource

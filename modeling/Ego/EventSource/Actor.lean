import Ego.EventSource.Behavior

/-!
# The event-sourced actor (`internal/engine/eventsource/event_sourced_actor.go`)

`receive` is `Actor.Receive`: the actor after one message, and what it asked of the runtime
meanwhile. Tracing, metrics and the tenant-binding query are left out.
-/

namespace Ego.EventSource
open Persistence Protocol
open Tenancy (TenantContext)

inductive PersistPhase where
  | processing
  | flushing
  | replying
  | persisting
  | directReplying
  deriving DecidableEq, Repr

/-- The fields of `Actor` that change while it runs. A batch entry is its pre-computed reply. -/
structure Actor (S : Type) where
  currentState : S
  cachedStateAny : Option Any
  eventsCounter : ℕ
  lastCommandTime : ℤ
  phase : PersistPhase
  batchBuffer : List Event
  batchEntries : List CommandReply
  batchState : Option S
  batchCounter : ℕ
  batchTime : ℤ
  batchNumEvents : ℕ
  remainingReplies : ℕ
  shutdownOnDrain : Bool
  flushTimer : Option ℕ
  batchBase : ℕ
  batchHasPrecondition : Bool
  directPendingState : Option S
  directPendingCounter : ℕ
  directPendingTime : ℤ
  directErr : Option Err
  directShutdown : Bool
  actorTenant : TenantContext
  deriving DecidableEq, Repr

def Actor.new {S : Type} (state : S) (eventsCounter : ℕ) (actorTenant : TenantContext) : Actor S where
  currentState := state
  cachedStateAny := none
  eventsCounter := eventsCounter
  lastCommandTime := zeroTime
  phase := .processing
  batchBuffer := []
  batchEntries := []
  batchState := none
  batchCounter := 0
  batchTime := zeroTime
  batchNumEvents := 0
  remainingReplies := 0
  shutdownOnDrain := false
  flushTimer := none
  batchBase := 0
  batchHasPrecondition := false
  directPendingState := none
  directPendingCounter := 0
  directPendingTime := zeroTime
  directErr := none
  directShutdown := false
  actorTenant := actorTenant

section
variable {S C E : Type} (cfg : Config S C E)

def currentStateAny (a : Actor S) : Any :=
  a.cachedStateAny.getD (cfg.codec.newState a.currentState)

def currentReply (a : Actor S) : CommandReply :=
  .stateReply ⟨cfg.persistenceID, currentStateAny cfg a, a.eventsCounter, a.lastCommandTime⟩

def sendErrorReply (err : Err) : Effect := .response (.errorReply err)

def sendStateReply (a : Actor S) : Actor S × Effect :=
  ({ a with cachedStateAny := some (currentStateAny cfg a) }, .response (currentReply cfg a))

def tenantGate (a : Actor S) (ctx : Ctx) : Except Err TenantContext :=
  Tenancy.gate cfg.tenantAware a.actorTenant ctx.tenant

def verifyTenantForPersist (ctx : Ctx) : Except Err Unit :=
  if cfg.tenantAware then (Tenancy.require ctx.tenant).map fun _ => () else .ok ()

def establishActorTenant (a : Actor S) (tc : TenantContext) : Actor S :=
  if cfg.tenantAware ∧ a.actorTenant = .unset then { a with actorTenant := tc } else a

/-- `HandleEnvelope` where the behavior has one and the command carries metadata. -/
def dispatchToBehavior (ctx : Ctx) (cmd : C) (priorState : S) : Except Err (List E) :=
  match cfg.behavior.handleEnvelope, ctx.metadata with
  | some handleEnvelope, some md => handleEnvelope ctx cmd md priorState
  | _, _ => cfg.behavior.handleCommand ctx cmd priorState

def marshalEvent (event : E) (tc : TenantContext) (seqNr : ℕ) (ts : ℤ) : Except Err Event :=
  let envelope (eventAny : Any) (keyID : String) (isEncrypted : Bool) : Event :=
    { persistenceId := cfg.persistenceID
      sequenceNumber := seqNr
      isDeleted := false
      event := eventAny
      timestamp := ts
      shard := cfg.shardNumber
      encryptionKeyId := keyID
      isEncrypted := isEncrypted
      tenantMetadata := if cfg.tenantAware then Tenancy.marshalMetadata tc else [] }
  let eventAny := cfg.codec.newEvent event
  match cfg.encryptor with
  | none => .ok (envelope eventAny "" false)
  | some enc =>
    match enc.encrypt cfg.persistenceID (cfg.codec.marshalAny eventAny) with
    | .error err => .error (err.wrap "failed to encrypt event")
    | .ok (ciphertext, keyID) => .ok (envelope ⟨eventAny.typeUrl, ciphertext⟩ keyID true)

def buildEnvelopes (tc : TenantContext) (now : ℤ) : List E → S → ℕ → Except Err (List Event × S × ℕ)
  | [], state, counter => .ok ([], state, counter)
  | event :: events, state, counter => do
    let resultingState ← cfg.behavior.handleEvent event state
    let envelope ← marshalEvent cfg event tc (counter + 1) now
    let (envelopes, pendingState, pendingCounter) ←
      buildEnvelopes tc now events resultingState (counter + 1)
    return (envelope :: envelopes, pendingState, pendingCounter)

/-- The reply a command gets once its own events are stored. -/
def pendingReply (state : S) (counter : ℕ) (now : ℤ) : CommandReply :=
  .stateReply ⟨cfg.persistenceID, cfg.codec.newState state, counter, now⟩

def shouldStayAliveAfterConflict (a : Actor S) : Err → Bool
  | .conflict e => e.actualRevision = some a.eventsCounter
  | .message _ => false

def applyConfirmedState (a : Actor S) (state : S) (counter : ℕ) (ts : ℤ) : Actor S :=
  { a with
    eventsCounter := counter
    currentState := state
    cachedStateAny := some (cfg.codec.newState state)
    lastCommandTime := ts }

def newSnapshotEnvelope (a : Actor S) (state : Any) : Snapshot where
  persistenceId := cfg.persistenceID
  sequenceNumber := a.eventsCounter
  state := some state
  timestamp := a.lastCommandTime
  encryptionKeyId := ""
  isEncrypted := false
  tenantMetadata := if cfg.tenantAware then Tenancy.marshalMetadata a.actorTenant else []

def snapshotAndRetain (a : Actor S) : PersistSnapshotRequest where
  snapshot := newSnapshotEnvelope cfg a (currentStateAny cfg a)
  retention := cfg.retentionPolicy.map fun policy =>
    ⟨cfg.persistenceID, a.eventsCounter, cfg.snapshotInterval, policy, cfg.scope⟩
  scope := cfg.scope

def triggerSnapshotAndRetention (a : Actor S) : List PersistSnapshotRequest :=
  if !cfg.snapshotsWriter || cfg.snapshotInterval == 0 ||
      a.eventsCounter % cfg.snapshotInterval != 0 then []
  else [snapshotAndRetain cfg a]

def crossedSnapshotBoundary (a : Actor S) (previousCounter : ℕ) : Bool :=
  if !cfg.snapshotsWriter || cfg.snapshotInterval == 0 then false
  else a.eventsCounter / cfg.snapshotInterval > previousCounter / cfg.snapshotInterval

def processCommandAndReply (a : Actor S) (ctx : Ctx) (cmd : C) (turn : Turn) : Actor S × List Effect :=
  match tenantGate cfg a ctx with
  | .error err => (a, [sendErrorReply err])
  | .ok tc =>
  match checkDeadline turn.beforeHandler "before handler execution" with
  | .error err => (a, [sendErrorReply err])
  | .ok () =>
  match dispatchToBehavior cfg ctx cmd a.currentState with
  | .error err => (a, [.handle, sendErrorReply err])
  | .ok [] =>
    let (a, reply) := sendStateReply cfg a
    (a, [.handle, reply])
  | .ok (event :: events) =>
  match buildEnvelopes cfg tc turn.now (event :: events) a.currentState a.eventsCounter with
  | .error err => (a, [.handle, sendErrorReply err])
  | .ok (envelopes, pendingState, pendingCounter) =>
  match checkDeadline turn.beforePersistence "before persistence" with
  | .error err => (a, [.handle, sendErrorReply err])
  | .ok () =>
  match verifyTenantForPersist cfg ctx with
  | .error err => (a, [.handle, sendErrorReply err])
  | .ok () =>
    -- `persistAsync`: the command waits in the stash for the write's outcome
    let a := establishActorTenant cfg a tc
    ({ a with
        directPendingState := some pendingState
        directPendingCounter := pendingCounter
        directPendingTime := turn.now
        phase := .persisting },
      [.handle, .stage envelopes (pendingReply cfg pendingState pendingCounter turn.now), .stash,
        .pipeTo ⟨envelopes, preconditionFromRevision ctx.expectedRevision, cfg.scope⟩])

def handleDirectPersistResponse (a : Actor S) (err : Option Err) : Actor S × List Effect :=
  if a.phase ≠ .persisting then (a, [])
  else
    match err with
    | some err =>
      ({ a with
          directErr := some err
          directShutdown := !shouldStayAliveAfterConflict a err
          phase := .directReplying }, [.unstashAll])
    | none =>
      let a := applyConfirmedState cfg a (a.directPendingState.getD a.currentState)
        a.directPendingCounter a.directPendingTime
      ({ a with directErr := none, phase := .directReplying },
        (triggerSnapshotAndRetention cfg a).map .tellSnapshot ++ [.unstashAll])

def replyDirect (a : Actor S) : Actor S × List Effect :=
  match a.directErr with
  | some err =>
    ({ a with phase := .processing, directErr := none, directShutdown := false },
      [sendErrorReply err, .unstashAll] ++ if a.directShutdown then [.shutdown] else [])
  | none =>
    let (a, reply) := sendStateReply cfg { a with phase := .processing }
    (a, [reply, .unstashAll])

def latestState (a : Actor S) : S :=
  -- an open batch always has a state, the source's nil is never read
  if a.batchEntries = [] then a.currentState else a.batchState.getD a.currentState

def latestCounter (a : Actor S) : ℕ :=
  if a.batchEntries = [] then a.eventsCounter else a.batchCounter

def stopFlushTimer (a : Actor S) : Actor S × List Effect :=
  match a.flushTimer with
  | some id => ({ a with flushTimer := none }, [.stopTimer id])
  | none => (a, [])

def startFlushTimer (a : Actor S) (turn : Turn) : Actor S × List Effect :=
  match a.flushTimer with
  | some _ => (a, [])
  | none => ({ a with flushTimer := some turn.timer }, [.startTimer turn.timer])

def batchPrecondition (hasPrecondition : Bool) (base : ℕ) : WritePrecondition :=
  if !hasPrecondition then .unconditional
  else if base = 0 then .genesis
  else .exactRevision base

def resolveBatchPrecondition (a : Actor S) : WritePrecondition :=
  batchPrecondition a.batchHasPrecondition a.batchBase

def flushBatch (a : Actor S) : Actor S × List Effect :=
  let (a, stopped) := stopFlushTimer a
  ({ a with phase := .flushing }, stopped ++ [.pipeTo ⟨a.batchBuffer, resolveBatchPrecondition a, cfg.scope⟩])

/-- The command joins the open batch, or founds one and fixes its base revision. -/
def appendToBatch (a : Actor S) (ctx : Ctx) (envelopes : List Event) (pendingState : S)
    (pendingCounter : ℕ) (turn : Turn) : Actor S :=
  let a :=
    if a.batchEntries = [] then
      { a with
        batchHasPrecondition := ctx.expectedRevision.isSome
        batchBase := ctx.expectedRevision.getD (latestCounter a) }
    else a
  { a with
    batchBuffer := a.batchBuffer ++ envelopes
    batchState := some pendingState
    batchCounter := pendingCounter
    batchTime := turn.now
    batchNumEvents := a.batchNumEvents + envelopes.length
    batchEntries := a.batchEntries ++ [pendingReply cfg pendingState pendingCounter turn.now] }

/-- The admission gate: with a batch open, a declared revision other than the
batch's running counter does not join it. -/
def inadmissible (a : Actor S) (ctx : Ctx) : Bool :=
  a.batchEntries ≠ [] ∧ ctx.expectedRevision.isSome ∧ ctx.expectedRevision ≠ some (latestCounter a)

/-- Without events the reply shows the open batch, which is not stored yet. -/
def processAndBatch (a : Actor S) (ctx : Ctx) (cmd : C) (turn : Turn) : Actor S × List Effect :=
  let state := latestState a
  let counter := latestCounter a
  match tenantGate cfg a ctx with
  | .error err => (a, [sendErrorReply err])
  | .ok tc =>
  match checkDeadline turn.beforeHandler "before handler execution" with
  | .error err => (a, [sendErrorReply err])
  | .ok () =>
  if inadmissible a ctx then
    let (a, flushed) := flushBatch cfg a
    (a, flushed ++ [.stash])
  else
  let a :=
    if a.batchEntries ≠ [] ∧ ctx.expectedRevision.isSome then
      { a with batchHasPrecondition := true }
    else a
  match dispatchToBehavior cfg ctx cmd state with
  | .error err => (a, [.handle, sendErrorReply err])
  | .ok [] =>
    if a.batchEntries = [] then
      let (a, reply) := sendStateReply cfg a
      (a, [.handle, reply])
    else
      (a, [.handle, .response (.stateReply
        ⟨cfg.persistenceID, cfg.codec.newState state, counter, a.lastCommandTime⟩)])
  | .ok (event :: events) =>
  match buildEnvelopes cfg tc turn.now (event :: events) state counter with
  | .error err => (a, [.handle, sendErrorReply err])
  | .ok (envelopes, pendingState, pendingCounter) =>
  match checkDeadline turn.beforePersistence "before persistence" with
  | .error err => (a, [.handle, sendErrorReply err])
  | .ok () =>
    let a := appendToBatch cfg (establishActorTenant cfg a tc) ctx envelopes pendingState
      pendingCounter turn
    let marks : List Effect :=
      [.handle, .stage envelopes (pendingReply cfg pendingState pendingCounter turn.now), .stash]
    if (a.batchNumEvents : ℤ) ≥ cfg.batchThreshold then
      let (a, flushed) := flushBatch cfg a
      (a, marks ++ flushed)
    else
      let (a, started) := startFlushTimer a turn
      (a, marks ++ started)

def handleBatchFlushTick (a : Actor S) : Actor S × List Effect :=
  let a := { a with flushTimer := none }
  if a.phase ≠ .processing ∨ a.batchEntries = [] then (a, []) else flushBatch cfg a

def handleBatchPersistResponse (a : Actor S) (err : Option Err) : Actor S × List Effect :=
  if a.phase ≠ .flushing then (a, [])
  else
    match err with
    | some err =>
      ({ a with
          batchEntries := a.batchEntries.map fun _ => .errorReply err
          remainingReplies := a.batchEntries.length
          shutdownOnDrain := !shouldStayAliveAfterConflict a err
          phase := .replying }, [.unstashAll])
    | none =>
      let previousCounter := a.eventsCounter
      let a := applyConfirmedState cfg a (a.batchState.getD a.currentState) a.batchCounter a.batchTime
      ({ a with remainingReplies := a.batchEntries.length, phase := .replying },
        (if crossedSnapshotBoundary cfg a previousCounter then [snapshotAndRetain cfg a] else []).map
          .tellSnapshot ++ [.unstashAll])

def resetBatch (a : Actor S) : Actor S :=
  { a with
    batchBuffer := []
    batchEntries := []
    batchState := none
    batchCounter := 0
    batchTime := zeroTime
    batchNumEvents := 0
    remainingReplies := 0
    shutdownOnDrain := false
    batchBase := 0
    batchHasPrecondition := false }

def replyFromBatch (a : Actor S) (ctx : Ctx) (cmd : C) (turn : Turn) : Actor S × List Effect :=
  if a.remainingReplies = 0 then
    processAndBatch cfg { a with phase := .processing } ctx cmd turn
  else
    match a.batchEntries[a.batchEntries.length - a.remainingReplies]? with
    | none => (a, [])
    | some reply =>
      if a.remainingReplies = 1 then
        ({ resetBatch a with phase := .processing }, .response reply :: if a.shutdownOnDrain then [.shutdown] else [])
      else ({ a with remainingReplies := a.remainingReplies - 1 }, [.response reply])

def handleCommandBatched (a : Actor S) (ctx : Ctx) (cmd : C) (turn : Turn) : Actor S × List Effect :=
  match a.phase with
  | .processing => processAndBatch cfg a ctx cmd turn
  | .flushing => (a, [.stash])
  | .replying => replyFromBatch cfg a ctx cmd turn
  | _ => (a, [])

def getStateAndReply (a : Actor S) (ctx : Ctx) : Actor S × List Effect :=
  match tenantGate cfg a ctx with
  | .error err => (a, [sendErrorReply err])
  | .ok _ =>
    let (a, reply) := sendStateReply cfg a
    (a, [reply])

def handleGetStateCommand (a : Actor S) (ctx : Ctx) : Actor S × List Effect :=
  if !cfg.batchEnabled ∧ (a.phase = .persisting ∨ a.phase = .directReplying) then (a, [.stash])
  else getStateAndReply cfg a ctx

def receive (a : Actor S) (msg : Message C) (turn : Turn) : Actor S × List Effect :=
  match msg with
  | .getState _ ctx => handleGetStateCommand cfg a ctx
  | .batchFlushTick => handleBatchFlushTick cfg a
  | .persistEventsResponse err =>
    if cfg.batchEnabled then handleBatchPersistResponse cfg a err
    else handleDirectPersistResponse cfg a err
  | .command _ ctx cmd =>
    if cfg.batchEnabled then handleCommandBatched cfg a ctx cmd turn
    else
      match a.phase with
      | .persisting => (a, [.stash])
      | .directReplying => replyDirect cfg a
      | _ => processCommandAndReply cfg a ctx cmd turn

end

end Ego.EventSource

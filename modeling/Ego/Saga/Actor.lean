import Ego.Lib.Except
import Ego.Persistence.EventLog
import Ego.Protocol.Command

/-! # The saga actor (`internal/engine/saga/saga_actor.go`) -/

namespace Ego.Saga
open Persistence Protocol
open Tenancy (TenantContext)

inductive SagaStatus where
  | running
  | completed
  | compensating
  | failed
  deriving DecidableEq, Repr

structure SagaCommand (C : Type) where
  entityID : String
  command : C
  timeout : ℤ
  metadata : CommandMetadata
  deriving DecidableEq, Repr

structure SagaAction (C M : Type) where
  commands : List (SagaCommand C)
  events : List M
  complete : Bool
  compensate : Bool
  deriving DecidableEq, Repr

structure Behavior (S C M : Type) where
  initialState : S
  handleEvent : Option TenantContext → M → S → Except Err (Option (SagaAction C M))
  handleResult : Option TenantContext → String → M → S → Except Err (Option (SagaAction C M))
  handleError : Option TenantContext → String → Err → S → Except Err (Option (SagaAction C M))
  applyEvent : Option TenantContext → M → S → Except Err S
  compensate : Option TenantContext → S → Except Err (List (SagaCommand C))

structure MessageCodec (S M : Type) where
  newAny : M → Any
  unmarshalNew : Any → Except Err M
  newState : S → Any
  empty : M
  isEmpty : M → Bool
  isEmpty_empty : isEmpty empty = true
  roundtrip : ∀ m, unmarshalNew (newAny m) = .ok m

structure Config (S C M : Type) where
  behavior : Behavior S C M
  codec : MessageCodec S M
  sagaID : String
  scope : Scope
  tenantAware : Bool

structure Actor (S : Type) where
  currentState : S
  eventsCounter : ℕ
  status : SagaStatus
  boundTenant : TenantContext
  deriving DecidableEq, Repr

structure Dispatch (C : Type) where
  ctx : Ctx
  entityID : String
  command : C
  timeout : ℤ
  deriving DecidableEq, Repr

/-- What is left to do of a turn, innermost first. -/
inductive Task (C : Type) where
  | send (ctx : Option TenantContext) (cmd : SagaCommand C)
  | finish (ctx : Option TenantContext) (complete compensate : Bool)
  | compensate (ctx : Option TenantContext) (cmds : List (SagaCommand C))
  deriving DecidableEq, Repr

inductive WireReply where
  | stateReply (reply : StateReply)
  | errorReply (message : String)
  | unset
  deriving DecidableEq, Repr

inductive Answer where
  | failed (err : Err)
  | unexpected
  | reply (reply : WireReply)
  deriving DecidableEq, Repr

inductive SagaLifecycleStatus where
  | running
  | completed
  | compensating
  | failed
  deriving DecidableEq, Repr

def statusToProto : SagaStatus → SagaLifecycleStatus
  | .completed => .completed
  | .compensating => .compensating
  | .failed => .failed
  | .running => .running

inductive SagaReply where
  | stateReply (persistenceId : String) (state : Any) (sequenceNumber : ℕ) (status : SagaLifecycleStatus)
  | errorReply (err : Err)
  deriving DecidableEq, Repr

section
variable {S C M : Type} (cfg : Config S C M)

def spawned : Actor S where
  currentState := cfg.behavior.initialState
  eventsCounter := 0
  status := .running
  boundTenant := Tenancy.ofScope cfg.tenantAware cfg.scope

def attach (tc : TenantContext) : Except Err (Option TenantContext) :=
  if tc.valid then .ok (some tc)
  else .error (.message "tenancy: cannot attach an invalid (zero-value) tenant context")

def eventContext (event : Event) : Except Err (Option TenantContext) :=
  if !cfg.tenantAware then .ok none
  else do
    let tc ← (Tenancy.unmarshalMetadata event.tenantMetadata).mapError
      (Err.wrap "failed to unmarshal saga event tenant metadata")
    attach tc

def bindOrVerify (a : Actor S) (ctx : Option TenantContext) : Except Err (Actor S) :=
  if !cfg.tenantAware then .ok a
  else do
    let tc ← Tenancy.require ctx
    if a.boundTenant = .unset then .ok { a with boundTenant := tc }
    else (Tenancy.verifyUnchanged a.boundTenant tc).map fun _ => a

def compensationContext (a : Actor S) : Except Err (Option TenantContext) :=
  if !cfg.tenantAware then .ok none else attach a.boundTenant

def checkStateReadTenant (a : Actor S) (ctx : Ctx) : Except Err Unit :=
  (Tenancy.gate cfg.tenantAware a.boundTenant ctx.tenant).map fun _ => ()

def atSequence (text : String) (envelope : Event) : String :=
  text ++ " at sequence " ++ toString envelope.sequenceNumber

def replayEvent (a : Actor S) (envelope : Event) : Except Err (Actor S) := do
  let ctx ← (eventContext cfg envelope).mapError
    (Err.wrap (atSequence "failed to reconstruct tenant context for saga event" envelope))
  let a ← (bindOrVerify cfg a ctx).mapError
    (Err.wrap (atSequence "tenant mismatch replaying saga event" envelope))
  let event ← (cfg.codec.unmarshalNew envelope.event).mapError
    (Err.wrap (atSequence "failed to unmarshal saga event" envelope))
  -- a tenant-binding marker has no meaning to the behavior
  if cfg.codec.isEmpty event then return a
  else do
    let state ← (cfg.behavior.applyEvent ctx event a.currentState).mapError
      (Err.wrap (atSequence "failed to apply saga event" envelope))
    return { a with currentState := state }

def recover (store : EventsStore) (log : Option EventLog) : Except Err (Actor S) := do
  let latest ← (store.getLatestEvent cfg.scope log).mapError
    (Err.wrap "failed to get latest saga event")
  match latest with
  | none => return spawned cfg
  | some latest =>
    let latestSeqNr := latest.sequenceNumber
    let events ← (store.replayEvents cfg.scope log 1 latestSeqNr latestSeqNr).mapError
      (Err.wrap "failed to replay saga events")
    let a ← events.foldlM (replayEvent cfg) (spawned cfg)
    return { a with eventsCounter := latestSeqNr }

def newEnvelope (event : Any) (tenantMetadata : Tenancy.Metadata) (seqNr : ℕ) (ts : ℤ) : Event where
  persistenceId := cfg.sagaID
  sequenceNumber := seqNr
  isDeleted := false
  event := event
  timestamp := ts
  shard := 0
  encryptionKeyId := ""
  isEncrypted := false
  tenantMetadata := tenantMetadata

/-- The loop of `persistAndApplyEvents`; `clock` gives the time of each envelope. -/
def buildEnvelopes (ctx : Option TenantContext) (tc : TenantContext) (clock : ℕ → ℤ) :
    List M → S → ℕ → Except Err (List Event × S × ℕ)
  | [], state, counter => .ok ([], state, counter)
  | event :: events, state, counter => do
    let newState ← (cfg.behavior.applyEvent ctx event state).mapError
      (Err.wrap "failed to apply saga event")
    let (envelopes, nextState, nextCounter) ← buildEnvelopes ctx tc clock events newState (counter + 1)
    return (newEnvelope cfg (cfg.codec.newAny event)
      (if cfg.tenantAware then Tenancy.marshalMetadata tc else []) (counter + 1) (clock (counter + 1)) ::
        envelopes, nextState, nextCounter)

inductive Outcome where
  | store
  | fail (err : Err)
  | lost (err : Err)
  deriving DecidableEq, Repr

def writeEvents (store : EventsStore) (outcome : Outcome) (log : Option EventLog) (envelopes : List Event) :
    Except Err Unit × Option EventLog :=
  match outcome, store.writeEvents cfg.scope cfg.sagaID log envelopes .unconditional with
  | .fail err, _ => (.error err, log)
  | .store, .ok log => (.ok (), log)
  | .store, .error err => (.error err, log)
  | .lost err, .ok log => (.error err, log)
  | .lost err, .error _ => (.error err, log)

structure Surroundings where
  clock : ℕ → ℤ
  outcome : Outcome

variable (store : EventsStore)

def persistAndApplyEvents (a : Actor S) (ctx : Option TenantContext) (events : List M) (env : Surroundings)
    (log : Option EventLog) : Except Err (Actor S) × Option EventLog :=
  match (if cfg.tenantAware then Tenancy.require ctx else .ok .unset) with
  | .error err => (.error (err.wrap "failed to persist saga events"), log)
  | .ok tc =>
    match buildEnvelopes cfg ctx tc env.clock events a.currentState a.eventsCounter with
    | .error err => (.error err, log)
    | .ok (envelopes, nextState, nextCounter) =>
      match writeEvents cfg store env.outcome log envelopes with
      | (.error err, log) => (.error err, log)
      | (.ok (), log) => (.ok { a with eventsCounter := nextCounter, currentState := nextState }, log)

def persistTenantBinding (a : Actor S) (tc : TenantContext) (env : Surroundings) (log : Option EventLog) :
    Except Err (Actor S) × Option EventLog :=
  let nextCounter := a.eventsCounter + 1
  let envelope := newEnvelope cfg (cfg.codec.newAny cfg.codec.empty) (Tenancy.marshalMetadata tc)
    nextCounter (env.clock nextCounter)
  match writeEvents cfg store env.outcome log [envelope] with
  | (.error err, log) => (.error err, log)
  | (.ok (), log) => (.ok { a with eventsCounter := nextCounter }, log)

def actionIsNoop : Option (SagaAction C M) → Bool
  | none => true
  | some a => a.commands.isEmpty && a.events.isEmpty && !a.complete && !a.compensate

def dispatchActionEffects (ctx : Option TenantContext) (action : SagaAction C M) : List (Task C) :=
  action.commands.map (.send ctx) ++ [.finish ctx action.complete action.compensate]

structure Turned (S C : Type) where
  actor : Actor S
  tasks : List (Task C)
  log : Option EventLog

def processAction (a : Actor S) (ctx : Option TenantContext) (action : Option (SagaAction C M))
    (env : Surroundings) (log : Option EventLog) : Turned S C :=
  match action with
  | none => ⟨a, [], log⟩
  | some action =>
    if action.events = [] then ⟨a, dispatchActionEffects ctx action, log⟩
    else
      match persistAndApplyEvents cfg store a ctx action.events env log with
      | (.error _, log) => ⟨a, [], log⟩
      | (.ok a, log) => ⟨a, dispatchActionEffects ctx action, log⟩

def processUnbound (a : Actor S) (ctx : Option TenantContext) (action : Option (SagaAction C M))
    (env : Surroundings) (log : Option EventLog) : Turned S C :=
  if actionIsNoop action then ⟨a, [], log⟩
  else if !cfg.tenantAware then processAction cfg store a ctx action env log
  else
    match Tenancy.require ctx, action with
    | .error _, _ | _, none => ⟨a, [], log⟩
    | .ok tc, some action =>
      match (if action.events ≠ [] then persistAndApplyEvents cfg store a ctx action.events env log
        else persistTenantBinding cfg store a tc env log) with
      | (.error _, log) => ⟨a, [], log⟩
      | (.ok a, log) => ⟨{ a with boundTenant := tc }, dispatchActionEffects ctx action, log⟩

/-- An event that is refused or does not decode is only logged. -/
def handleStreamEvent (a : Actor S) (event : Event) (env : Surroundings) (log : Option EventLog) : Turned S C :=
  if a.status ≠ .running then ⟨a, [], log⟩
  else
    match eventContext cfg event with
    | .error _ => ⟨a, [], log⟩
    | .ok ctx =>
      let alreadyBound := cfg.tenantAware && a.boundTenant != .unset
      match (if alreadyBound then bindOrVerify cfg a ctx else .ok a) with
      | .error _ => ⟨a, [], log⟩
      | .ok a =>
        match cfg.codec.unmarshalNew event.event with
        | .error _ => ⟨a, [], log⟩
        | .ok eventMsg =>
          match cfg.behavior.handleEvent ctx eventMsg a.currentState with
          | .error _ => ⟨a, [], log⟩
          | .ok action =>
            if alreadyBound then processAction cfg store a ctx action env log
            else processUnbound cfg store a ctx action env log

def defaultCommandTimeout : ℤ := 5000000000

def effectiveCommandTimeout (configured : ℤ) : ℤ :=
  if configured = 0 then defaultCommandTimeout else configured

def attachCommandMetadata (ctx : Option TenantContext) (explicit : CommandMetadata) (op : Option String) : Ctx :=
  if explicit.operationID ≠ "" then ⟨ctx, some explicit⟩
  else
    match op with
    | none => ⟨ctx, none⟩
    | some op => if op = cfg.sagaID then ⟨ctx, none⟩ else ⟨ctx, some ⟨op, none⟩⟩

def dispatch (ctx : Option TenantContext) (cmd : SagaCommand C) (op : Option String) : Dispatch C where
  ctx := attachCommandMetadata cfg ctx cmd.metadata op
  entityID := cmd.entityID
  command := cmd.command
  timeout := effectiveCommandTimeout cmd.timeout

def parseCommandReply : WireReply → Except Err M
  | .stateReply reply => cfg.codec.unmarshalNew reply.state
  | .errorReply message => .error (.message message)
  | .unset => .error (.message "no state received")

/-- An error of the behavior, as an answer of another type, is only logged. -/
def handleAnswer (a : Actor S) (ctx : Option TenantContext) (entityID : String) (answer : Answer) :
    Option (SagaAction C M) :=
  let handleError (err : Err) : Option (SagaAction C M) :=
    match cfg.behavior.handleError ctx entityID err a.currentState with
    | .error _ => none
    | .ok action => action
  match answer with
  | .failed err => handleError err
  | .unexpected => none
  | .reply reply =>
    match parseCommandReply cfg reply with
    | .error err => handleError err
    | .ok resultState =>
      match cfg.behavior.handleResult ctx entityID resultState a.currentState with
      | .error _ => none
      | .ok action => action

def compensate (a : Actor S) (ctx : Option TenantContext) : Actor S × List (Task C) :=
  match cfg.behavior.compensate ctx a.currentState with
  | .error _ => ({ a with status := .failed }, [])
  | .ok commands => (a, [.compensate ctx commands])

def handleTimeout (a : Actor S) : Actor S × List (Task C) :=
  if a.status ≠ .running then (a, [])
  else
    let a := { a with status := .compensating }
    match compensationContext cfg a with
    | .error _ => ({ a with status := .failed }, [])
    | .ok ctx => compensate cfg a ctx

def replyWithState (a : Actor S) : SagaReply :=
  .stateReply cfg.sagaID (cfg.codec.newState a.currentState) a.eventsCounter (statusToProto a.status)

def getStateAndReply (a : Actor S) (ctx : Ctx) : SagaReply :=
  match checkStateReadTenant cfg a ctx with
  | .error err => .errorReply err
  | .ok () => replyWithState cfg a

end

end Ego.Saga

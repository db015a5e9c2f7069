import Ego.Persistence.DurableState
import Ego.Protocol.Command

/-! # The durable-state actor (`internal/engine/durablestate/durable_state_actor.go`) -/

namespace Ego.DurableState
open Persistence Protocol
open Tenancy (TenantContext)

structure Behavior (S C : Type) where
  initialState : S
  handleCommand : Ctx → C → UInt64 → S → Except Err (S × UInt64)
  handleEnvelope : Option (Ctx → C → CommandMetadata → UInt64 → S → Except Err (S × UInt64))

structure StateCodec (S : Type) where
  newState : S → Any
  unmarshalTo : Any → Except Err S
  fullName : S → String
  roundtrip : ∀ s, unmarshalTo (newState s) = .ok s

structure Config (S C : Type) where
  behavior : Behavior S C
  codec : StateCodec S
  persistenceID : String
  scope : Scope
  tenantAware : Bool
  shardNumber : ℕ

structure Actor (S : Type) where
  currentState : S
  cachedStateAny : Option Any
  currentVersion : UInt64
  lastCommandTime : ℤ
  actorTenant : TenantContext
  deriving DecidableEq, Repr

structure Turn where
  now : ℤ
  beforeHandler : Option ContextErr
  beforePersistence : Option ContextErr
  deriving DecidableEq, Repr

structure Commit (S : Type) where
  newState : S
  newVersion : UInt64
  commandTime : ℤ
  candidateTenant : TenantContext
  precondition : WritePrecondition
  deriving DecidableEq, Repr

section
variable {S C : Type} (cfg : Config S C)

def spawned : Actor S where
  currentState := cfg.behavior.initialState
  cachedStateAny := none
  currentVersion := 0
  lastCommandTime := zeroTime
  actorTenant := Tenancy.ofScope cfg.tenantAware cfg.scope

/-- A record that stands for none: in tenant-aware mode, one at version zero. -/
def legacyGenesis (durableState : DurableState) : Bool :=
  cfg.tenantAware && durableState.versionNumber == 0

def recoverTenant (a : Actor S) (durableState : DurableState) : Except Err (Actor S) :=
  if !cfg.tenantAware then .ok a
  else
    match Tenancy.unmarshalMetadata durableState.tenantMetadata with
    | .error err => .error (err.wrap "failed to unmarshal durable state tenant metadata")
    | .ok tc =>
      if a.actorTenant = .unset then .ok { a with actorTenant := tc }
      else
        match Tenancy.verifyUnchanged a.actorTenant tc with
        | .error err => .error
          (err.wrap "recovered tenant metadata does not match the spawn-bound tenant")
        | .ok () => .ok a

def recoverState (durableState : DurableState) : Except Err S :=
  match durableState.resultingState with
  | none => .ok cfg.behavior.initialState
  | some resultingState =>
    (cfg.codec.unmarshalTo resultingState).mapError (Err.wrap "failed to unmarshal the latest state")

/-- `recoverFromStore`, given what the store returned. -/
def recoverFromStore (a : Actor S) (read : Except Err (Option DurableState)) : Actor S × Except Err Unit :=
  match read with
  | .error err => (a, .error (err.wrap "failed to get the latest state"))
  | .ok none => ({ a with currentState := cfg.behavior.initialState }, .ok ())
  | .ok (some durableState) =>
    if legacyGenesis cfg durableState then
      ({ a with currentState := cfg.behavior.initialState }, .ok ())
    else
      match recoverTenant cfg a durableState with
      | .error err => (a, .error err)
      | .ok a =>
        match recoverState cfg durableState with
        | .error err => (a, .error err)
        | .ok state =>
          ({ a with currentState := state, currentVersion := durableState.versionNumber }, .ok ())

def tenantGate (a : Actor S) (ctx : Ctx) : Except Err TenantContext :=
  Tenancy.gate cfg.tenantAware a.actorTenant ctx.tenant

def verifyTenantForPersist (ctx : Ctx) : Except Err Unit :=
  if cfg.tenantAware then (Tenancy.require ctx.tenant).map fun _ => () else .ok ()

def dispatchToBehavior (ctx : Ctx) (cmd : C) (priorVersion : UInt64) (priorState : S) : Except Err (S × UInt64) :=
  match cfg.behavior.handleEnvelope, ctx.metadata with
  | some handleEnvelope, some md => handleEnvelope ctx cmd md priorVersion priorState
  | _, _ => cfg.behavior.handleCommand ctx cmd priorVersion priorState

/-- `checkPreconditions`. The difference is taken in `uint64` before its absolute
value as a float is compared with one, so it is one or the check fails. -/
def checkPreconditions (a : Actor S) (newState : S) (newVersion : UInt64) : Except Err Unit :=
  let currentStateType := cfg.codec.fullName a.currentState
  let latestStateType := cfg.codec.fullName newState
  if currentStateType ≠ latestStateType then
    .error (.message ("mismatch state types: " ++ currentStateType ++ " != " ++ latestStateType))
  else if newVersion - a.currentVersion = 1 then .ok ()
  else .error (.message (cfg.persistenceID ++ " received version=(" ++ toString newVersion.toNat ++
    ") while current version is (" ++ toString a.currentVersion.toNat ++ ")"))

/-- `processCommand` up to `commitState`. -/
def processCommand (a : Actor S) (ctx : Ctx) (cmd : C) (turn : Turn) : Except Err (Commit S) := do
  let candidateTenant ← tenantGate cfg a ctx
  checkDeadline turn.beforeHandler "before handler execution"
  let (newState, newVersion) ← dispatchToBehavior cfg ctx cmd a.currentVersion a.currentState
  checkPreconditions cfg a newState newVersion
  checkDeadline turn.beforePersistence "before persistence"
  verifyTenantForPersist cfg ctx
  return ⟨newState, newVersion, turn.now, candidateTenant, preconditionFromRevision ctx.expectedRevision⟩

def Commit.durableState (c : Commit S) : DurableState where
  persistenceId := cfg.persistenceID
  versionNumber := c.newVersion
  resultingState := some (cfg.codec.newState c.newState)
  timestamp := c.commandTime
  shard := cfg.shardNumber
  tenantMetadata := if cfg.tenantAware then Tenancy.marshalMetadata c.candidateTenant else []

def commitState (a : Actor S) (c : Commit S) : Actor S :=
  { a with
    currentState := c.newState
    cachedStateAny := some (cfg.codec.newState c.newState)
    lastCommandTime := c.commandTime
    currentVersion := c.newVersion
    actorTenant := if cfg.tenantAware then c.candidateTenant else a.actorTenant }

def provablyInSyncAfterConflict (a : Actor S) : Err → Bool
  | .conflict e => e.actualRevision = some a.currentVersion.toNat
  | .message _ => false

def currentStateAny (a : Actor S) : Any :=
  a.cachedStateAny.getD (cfg.codec.newState a.currentState)

def sendStateReply (a : Actor S) : Actor S × CommandReply :=
  ({ a with cachedStateAny := some (currentStateAny cfg a) },
    .stateReply ⟨cfg.persistenceID, currentStateAny cfg a, a.currentVersion.toNat, a.lastCommandTime⟩)

def getStateAndReply (a : Actor S) (ctx : Ctx) : Actor S × CommandReply :=
  match tenantGate cfg a ctx with
  | .error err => (a, .errorReply err)
  | .ok _ => sendStateReply cfg a

/-- `PostStop` flushes, except for a tenant-aware actor that never committed. -/
def flushesOnStop (a : Actor S) : Bool := !cfg.tenantAware || a.currentVersion > 0

/-- The record `persistStateAndPublish` writes, unconditionally. -/
def flushedState (a : Actor S) : DurableState where
  persistenceId := cfg.persistenceID
  versionNumber := a.currentVersion
  resultingState := some (currentStateAny cfg a)
  timestamp := a.lastCommandTime
  shard := cfg.shardNumber
  tenantMetadata := if cfg.tenantAware then Tenancy.marshalMetadata a.actorTenant else []

end

end Ego.DurableState

import Ego.Lib.Calls
import Ego.Migration.Equivalence
import Ego.Persistence.Listing
import Mathlib.Data.Finset.Sort

/-! # The tenant adopter (`migration/tenant_adoption.go`) -/

namespace Ego.Migration
open Persistence Tenancy
open Lib (Prog)

structure Records where
  log : Scope → Option EventLog
  snapshots : Scope → List Snapshot
  state : Scope → Option DurableState

namespace Records

def setLog (r : Records) (scope : Scope) (log : Option EventLog) : Records :=
  { r with log := Function.update r.log scope log }

def setSnapshots (r : Records) (scope : Scope) (snapshots : List Snapshot) : Records :=
  { r with snapshots := Function.update r.snapshots scope snapshots }

def setState (r : Records) (scope : Scope) (state : Option DurableState) : Records :=
  { r with state := Function.update r.state scope state }

end Records

/-- All records, and the ids under which the events store has one. -/
structure Contents where
  records : String → Records
  ids : Scope → Finset String
  mem_ids : ∀ scope id, id ∈ ids scope ↔ ((records id).log scope).isSome = true

namespace Contents

theorem ext_records {c d : Contents} (h : ∀ id, c.records id = d.records id) : c = d := by
  obtain ⟨records, ids, hids⟩ := c
  obtain ⟨records', ids', hids'⟩ := d
  obtain rfl : records = records' := funext h
  obtain rfl : ids = ids' := funext fun scope => Finset.ext fun id => (hids scope id).trans (hids' scope id).symm
  rfl

def set (c : Contents) (id : String) (r : Records) : Contents where
  records := Function.update c.records id r
  ids := fun scope => if (r.log scope).isSome then insert id (c.ids scope) else (c.ids scope).erase id
  mem_ids := by
    intro scope other
    by_cases heq : other = id
    · subst heq
      cases h : (r.log scope).isSome <;> simp [h]
    · cases h : (r.log scope).isSome <;> simp [heq, c.mem_ids]

@[simp] theorem set_self (c : Contents) (id : String) (r : Records) : (c.set id r).records id = r :=
  Function.update_self _ _ _

@[simp] theorem set_of_ne (c : Contents) {id other : String} (r : Records) (h : other ≠ id) :
    (c.set id r).records other = c.records other :=
  Function.update_of_ne h _ _

theorem set_eq_self (c : Contents) (id : String) : c.set id (c.records id) = c :=
  ext_records fun other => by
    by_cases h : other = id
    · rw [h, set_self]
    · rw [set_of_ne c _ h]

end Contents

inductive RecordStatus where
  | unset
  | none
  | copied
  | alreadyPresent
  | sourceDeleted
  | failed
  deriving DecidableEq, Repr

structure RecordOutcome where
  status : RecordStatus := .unset
  err : Option Err := none
  wroteTarget : Bool := false

structure AggregateOutcome where
  persistenceID : String
  tenant : TenantID
  events : RecordOutcome := {}
  snapshot : RecordOutcome := {}
  durableState : RecordOutcome := {}

def AggregateOutcome.set (o : AggregateOutcome) (outcome : RecordOutcome) : RecordKind → AggregateOutcome
  | .events => { o with events := outcome }
  | .snapshot => { o with snapshot := outcome }
  | .durableState => { o with durableState := outcome }

structure AdoptionFailure where
  persistenceID : String
  kind : Option RecordKind := none
  err : Err

def AdoptionFailure.error (f : AdoptionFailure) : Err :=
  f.err.wrap ("persistence_id=" ++ f.persistenceID ++ (f.kind.map fun kind => " kind=" ++ kind.text).getD "")

structure AdoptionReport where
  dryRun : Bool
  scanned : ℕ := 0
  assigned : ℕ := 0
  skippedByAssignment : ℕ := 0
  copied : ℕ := 0
  alreadyPresent : ℕ := 0
  verified : ℕ := 0
  sourceDeleted : ℕ := 0
  failed : ℕ := 0
  aggregates : List AggregateOutcome := []
  failures : List AdoptionFailure := []

def maxReplaySequence : ℕ := 2 ^ 64 - 1
def maxReplayLimit : ℕ := 2 ^ 63 - 1

def errAssignmentRequired : Err := .message "migration: a TenantAssignment is required"
def errNoStoresConfigured : Err :=
  .message "migration: at least one of WithEventsStore, WithSnapshotStore, or WithStateStore is required"
def errInvalidScanPageSize : Err := .message "migration: WithScanPageSize must be greater than zero"
def errAdoptionFenceRequired : Err := .message "migration: WithWriteEnabled requires WithAdoptionFence"
def errTargetIsSource : Err := .message "migration: the assigned target scope is the source scope"
def errSourceChangedDuringAdoption :=
  "migration: the source changed while it was being adopted; the source must not receive writes " ++
    "during a WithSourceDeletion run"
def errNoSourceRecords : Err :=
  .message "migration: no source record found in any configured store for this persistence id"

/-- No tenant leaves the aggregate where it is. -/
abbrev TenantAssignment := String → Except Err (Option TenantID)

structure AdopterOptions where
  eventsStore : Option JournalStore
  snapshotStore : Option FullSnapshotStore
  stateStore : Option StateStore
  sourceScope : Scope
  explicitIDs : List String
  pageSize : ℕ
  write : Bool
  deleteSource : Bool
  failFast : Bool
  hasFence : Bool
  sha : Digest
  eventWire : Marshal Event
  snapshotWire : Marshal Snapshot
  stateWire : Marshal DurableState

structure TenantAdopter extends AdopterOptions where
  assign : TenantAssignment
  configured : eventsStore.isSome ∨ snapshotStore.isSome ∨ stateStore.isSome
  pageSize_pos : 0 < pageSize
  source_valid : sourceScope.valid = true
  fenced : write = true → hasFence = true

def newTenantAdopter (assign : Option TenantAssignment) (o : AdopterOptions) : Except Err TenantAdopter :=
  match assign with
  | none => .error errAssignmentRequired
  | some assign =>
    if hstores : ¬ (o.eventsStore.isSome ∨ o.snapshotStore.isSome ∨ o.stateStore.isSome) then
      .error errNoStoresConfigured
    else if hsize : o.pageSize = 0 then .error errInvalidScanPageSize
    else if hscope : o.sourceScope.valid = false then .error (errInvalidScope.wrap "migration: WithSourceScope")
    else if hfence : o.write = true ∧ o.hasFence = false then .error errAdoptionFenceRequired
    else .ok {
      o with
      assign := assign
      configured := not_not.mp hstores
      pageSize_pos := Nat.pos_of_ne_zero hsize
      source_valid := Bool.eq_true_of_not_eq_false hscope
      fenced := fun hw => Bool.eq_true_of_not_eq_false fun hf => hfence ⟨hw, hf⟩ }

structure AdoptionIntent where
  target : Scope
  tenant : TenantContext
  metadata : Metadata

def intentFor (tenantID : TenantID) : AdoptionIntent :=
  ⟨.tenant tenantID, .tenant tenantID, marshalMetadata (.tenant tenantID)⟩

def failedWith (err : Err) : RecordOutcome := { status := .failed, err := some err }

def copiedOutcome : RecordOutcome := { status := .copied, wroteTarget := true }

def classifyExisting : Except Err Unit → RecordOutcome
  | .error err => failedWith err
  | .ok () => { status := .alreadyPresent }

def sourceChanged (id : String) (kind : RecordKind) (detail : String) : Err :=
  .message (errSourceChangedDuringAdoption ++ ": persistence_id " ++ quote id ++ " kind " ++ kind.text ++ ": " ++
    detail)

namespace TenantAdopter
variable (a : TenantAdopter)

section Events
variable (store : JournalStore)

def replayAll (scope : Scope) : Prog Records Err (Except Err (List Event)) :=
  .read fun r => store.replayEvents scope (r.log scope) 1 maxReplaySequence maxReplayLimit

def writeEvents (scope : Scope) (id : String) (events : List Event) (precondition : WritePrecondition) :
    Prog Records Err (Except Err Unit) :=
  .write fun r => (store.writeEvents scope id (r.log scope) events precondition).map (r.setLog scope)

def deleteEvents (scope : Scope) (toSequenceNumber : ℕ) : Prog Records Err (Except Err Unit) :=
  .write fun r => (store.deleteEvents scope (r.log scope) toSequenceNumber).map (r.setLog scope)

def getLatestEvent (scope : Scope) : Prog Records Err (Except Err (Option Event)) :=
  .read fun r => store.getLatestEvent scope (r.log scope)

/-- What is left after the deletion decides: only nothing at all proves it. -/
def afterDeletion (id : String) (maxSeq : ℕ) (wroteTarget : Bool) : Option Event → RecordOutcome
  | none => { status := .sourceDeleted, wroteTarget := wroteTarget }
  | some latest =>
    if maxSeq < latest.sequenceNumber then
      failedWith (sourceChanged id .events ("source gained sequence " ++ toString latest.sequenceNumber ++
        " during the deletion; the verified events through " ++ toString maxSeq ++
        " were deleted, but the newer ones remain only in the source"))
    else
      failedWith (sourceChanged id .events ("source still holds sequence " ++ toString latest.sequenceNumber ++
        " after deleting through " ++ toString maxSeq ++ "; it was not removed or was recreated"))

def deleteVerifiedSourceEvents (id : String) (sourceEvents : List Event) (maxSeq : ℕ) (wroteTarget : Bool) :
    Prog Records Err RecordOutcome := do
  match ← replayAll store a.sourceScope with
  | .error err => pure (failedWith (err.wrap "re-read source events"))
  | .ok current =>
    match sameEventsBySequence current sourceEvents with
    | .error detail => pure (failedWith (sourceChanged id .events (detail ++ "; nothing was deleted")))
    | .ok () =>
      match ← deleteEvents store a.sourceScope maxSeq with
      | .error err => pure (failedWith (err.wrap "delete source events"))
      | .ok () =>
        match ← getLatestEvent store a.sourceScope with
        | .error err => pure (failedWith (err.wrap "re-read source events"))
        | .ok latest => pure (afterDeletion id maxSeq wroteTarget latest)

def afterVerifiedEvents (id : String) (sourceEvents : List Event) (maxSeq : ℕ) (verdict : Except Err Unit) :
    Prog Records Err RecordOutcome :=
  let outcome := classifyExisting verdict
  if outcome.status = .alreadyPresent ∧ sourceEvents ≠ [] ∧ a.write = true ∧ a.deleteSource = true then
    a.deleteVerifiedSourceEvents store id sourceEvents maxSeq false
  else pure outcome

def copyEvents (id : String) (intent : AdoptionIntent) (sourceEvents expected : List Event) (maxSeq : ℕ) :
    Prog Records Err RecordOutcome := do
  match ← writeEvents store intent.target id expected .genesis with
  | .error (.conflict _) =>
    -- another writer was faster, and what it wrote is classified
    match ← replayAll store intent.target with
    | .error err => pure (failedWith (err.wrap "check target events"))
    | .ok raced =>
      a.afterVerifiedEvents store id sourceEvents maxSeq
        (verifyEventsEquivalent a.sha a.eventWire id expected raced intent.tenant a.sourceScope)
  | .error err => pure (failedWith (err.wrap "write target events"))
  | .ok () =>
    match ← replayAll store intent.target with
    | .error err => pure (failedWith (err.wrap "verify target events"))
    | .ok written =>
      match verifyEventsMatchBySequence id expected written with
      | .error err => pure (failedWith err)
      | .ok () =>
        if a.deleteSource then a.deleteVerifiedSourceEvents store id sourceEvents maxSeq true
        else pure copiedOutcome

/-- A target that holds events is only verified, never written. -/
def adoptEvents (id : String) (intent : AdoptionIntent) : Prog Records Err RecordOutcome := do
  match ← replayAll store a.sourceScope with
  | .error err => pure (failedWith (err.wrap "read source events"))
  | .ok sourceEvents =>
    let expected := stampEvents a.sha a.eventWire a.sourceScope intent.metadata sourceEvents
    let maxSeq := maxSequence expected
    match ← replayAll store intent.target with
    | .error err => pure (failedWith (err.wrap "check target events"))
    | .ok existing =>
      if existing ≠ [] then
        a.afterVerifiedEvents store id sourceEvents maxSeq
          (verifyEventsEquivalent a.sha a.eventWire id expected existing intent.tenant a.sourceScope)
      else if sourceEvents = [] then pure { status := .none }
      else if !a.write then pure copiedOutcome
      else a.copyEvents store id intent sourceEvents expected maxSeq

end Events

section Snapshots
variable (store : FullSnapshotStore)

def getLatestSnapshot (scope : Scope) : Prog Records Err (Except Err (Option Snapshot)) :=
  .read fun r => store.getLatestSnapshot scope (r.snapshots scope)

def writeSnapshot (scope : Scope) (snapshot : Snapshot) : Prog Records Err (Except Err Unit) :=
  .write fun r => (store.writeSnapshot scope (r.snapshots scope) snapshot).map (r.setSnapshots scope)

def deleteSnapshots (scope : Scope) (toSequenceNumber : ℕ) : Prog Records Err (Except Err Unit) :=
  .write fun r => (store.deleteSnapshots scope (r.snapshots scope) toSequenceNumber).map (r.setSnapshots scope)

def afterSnapshotDeletion (id : String) (verified : Snapshot) (wroteTarget : Bool) : Option Snapshot → RecordOutcome
  | none => { status := .sourceDeleted, wroteTarget := wroteTarget }
  | some latest =>
    if verified.sequenceNumber < latest.sequenceNumber then
      failedWith (sourceChanged id .snapshot ("source gained a snapshot at " ++ toString latest.sequenceNumber ++
        " during the deletion; the verified snapshot at " ++ toString verified.sequenceNumber ++
        " was deleted, but the newer one remains only in the source"))
    else
      failedWith (sourceChanged id .snapshot ("source still holds a snapshot at " ++ toString latest.sequenceNumber ++
        " after deleting through " ++ toString verified.sequenceNumber ++ "; it was not removed or was recreated"))

def protoEqualTo {ρ : Type} [Adoptable ρ] [DecidableEq ρ] (x : ρ) : Option ρ → Bool
  | none => false
  | some y => protoEqual x y

def deleteVerifiedSourceSnapshot (id : String) (verified : Snapshot) (wroteTarget : Bool) :
    Prog Records Err RecordOutcome := do
  match ← getLatestSnapshot store a.sourceScope with
  | .error err => pure (failedWith (err.wrap "re-read source snapshot"))
  | .ok current =>
    if !protoEqualTo verified current then
      pure (failedWith (sourceChanged id .snapshot
        ("the source snapshot changed after it was verified (verified sequence " ++
          toString verified.sequenceNumber ++ "); nothing was deleted")))
    else
      match ← deleteSnapshots store a.sourceScope verified.sequenceNumber with
      | .error err => pure (failedWith (err.wrap "delete source snapshot"))
      | .ok () =>
        match ← getLatestSnapshot store a.sourceScope with
        | .error err => pure (failedWith (err.wrap "re-read source snapshot"))
        | .ok latest => pure (afterSnapshotDeletion id verified wroteTarget latest)

def copySnapshot (id : String) (intent : AdoptionIntent) (snapshot clone : Snapshot) :
    Prog Records Err RecordOutcome := do
  match ← writeSnapshot store intent.target clone with
  | .error err => pure (failedWith (err.wrap "write target snapshot"))
  | .ok () =>
    match ← getLatestSnapshot store intent.target with
    | .error err => pure (failedWith (err.wrap "verify target snapshot"))
    | .ok written =>
      if !protoEqualTo clone written then
        pure (failedWith (.message ("verify target snapshot for persistence_id " ++ quote id ++
          ": read-back does not match what was written (expected sequence " ++
          toString snapshot.sequenceNumber ++ ")")))
      else if a.deleteSource then a.deleteVerifiedSourceSnapshot store id snapshot true
      else pure copiedOutcome

def adoptSnapshot (id : String) (intent : AdoptionIntent) : Prog Records Err RecordOutcome := do
  match ← getLatestSnapshot store a.sourceScope with
  | .error err => pure (failedWith (err.wrap "read source snapshot"))
  | .ok snapshot =>
    let clone := snapshot.map fun s => stampAdoptionReceipt a.sha a.snapshotWire s a.sourceScope intent.metadata none
    match ← getLatestSnapshot store intent.target with
    | .error err => pure (failedWith (err.wrap "check target snapshot"))
    | .ok (some existing) =>
      let outcome := classifyExisting (verifyRecordEquivalent a.sha a.snapshotWire (·.sequenceNumber) id .snapshot
        clone existing intent.tenant a.sourceScope)
      match snapshot with
      | some s =>
        if outcome.status = .alreadyPresent ∧ a.write = true ∧ a.deleteSource = true then
          a.deleteVerifiedSourceSnapshot store id s false
        else pure outcome
      | none => pure outcome
    | .ok none =>
      match snapshot, clone with
      | some s, some clone => if !a.write then pure copiedOutcome else a.copySnapshot store id intent s clone
      | _, _ => pure { status := .none }

end Snapshots

section States
variable (store : StateStore)

def getLatestState (scope : Scope) : Prog Records Err (Except Err (Option DurableState)) :=
  .read fun r => store.getLatestState scope (r.state scope)

def writeState (scope : Scope) (state : DurableState) (precondition : WritePrecondition) :
    Prog Records Err (Except Err Unit) :=
  .write fun r => (store.writeState scope (r.state scope) state precondition).map (r.setState scope)

def classifyTarget (id : String) (intent : AdoptionIntent) (clone : Option DurableState) :
    Prog Records Err RecordOutcome := do
  match ← getLatestState store intent.target with
  | .error err => pure (failedWith (err.wrap "check target state"))
  | .ok none => pure { status := .none }
  | .ok (some existing) =>
    pure (classifyExisting (verifyRecordEquivalent a.sha a.stateWire (·.versionNumber.toNat) id .durableState clone
      existing intent.tenant a.sourceScope))

def copyState (id : String) (intent : AdoptionIntent) (state clone : DurableState) :
    Prog Records Err RecordOutcome := do
  match ← writeState store intent.target clone .genesis with
  | .error (.conflict e) => do
    let outcome ← a.classifyTarget store id intent (some clone)
    pure (if outcome.status ≠ .none then outcome else failedWith (Err.wrap "write target state" (.conflict e)))
  | .error err => pure (failedWith (err.wrap "write target state"))
  | .ok () =>
    match ← getLatestState store intent.target with
    | .error err => pure (failedWith (err.wrap "verify target state"))
    | .ok written =>
      if !protoEqualTo clone written then
        pure (failedWith (.message ("verify target state for persistence_id " ++ quote id ++
          ": read-back does not match what was written (expected version " ++
          toString state.versionNumber.toNat ++ ")")))
      else pure copiedOutcome

def adoptState (id : String) (intent : AdoptionIntent) : Prog Records Err RecordOutcome := do
  match ← getLatestState store a.sourceScope with
  | .error err => pure (failedWith (err.wrap "read source state"))
  | .ok state =>
    let clone := state.map fun s => stampAdoptionReceipt a.sha a.stateWire s a.sourceScope intent.metadata none
    let outcome ← a.classifyTarget store id intent clone
    if outcome.status ≠ .none then pure outcome
    else
      match state, clone with
      | some s, some clone => if !a.write then pure copiedOutcome else a.copyState store id intent s clone
      | _, _ => pure { status := .none }

end States

def fenceOrderKey (scope : Scope) : String :=
  match scope with
  | .unscoped => "0"
  | .tenant id => "1" ++ id
  | .unspecified => "1"

def fenceOrder (target : Scope) : List Scope :=
  if fenceOrderKey target < fenceOrderKey a.sourceScope then [target, a.sourceScope] else [a.sourceScope, target]

def acquire (_scope : Scope) : Prog Records Err (Except Err Unit) := .read fun _ => .ok ()

def acquireFences : List Scope → Prog Records Err (Except Err Unit)
  | [] => pure (.ok ())
  | scope :: scopes => do
    match ← acquire scope with
    | .error err => pure (.error err)
    | .ok () => acquireFences scopes

/-- The variables of `processAggregate` while it goes through the kinds. -/
structure Progress where
  outcome : AggregateOutcome
  found : Bool := false
  copied : Bool := false
  aggFailure : Option AdoptionFailure := none
  report : AdoptionReport

def Progress.record (s : Progress) (id : String) (kind : RecordKind) (outcome : RecordOutcome) : Progress :=
  let failure : Option AdoptionFailure :=
    if outcome.status = .failed then
      some { persistenceID := id, kind := some kind, err := outcome.err.getD (.message "") }
    else none
  { outcome := s.outcome.set outcome kind
    found := s.found || decide (outcome.status ≠ .none)
    copied := s.copied || outcome.wroteTarget
    aggFailure := failure
    report := { s.report with failures := s.report.failures ++ failure.toList } }

def applyKind {σ : Type} (id : String) (kind : RecordKind) (store : Option σ)
    (adopt : σ → Prog Records Err RecordOutcome)
    (s : Progress) : Prog Records Err Progress :=
  match store, s.aggFailure with
  | some store, none => do
    let outcome ← adopt store
    pure (s.record id kind outcome)
  | _, _ => pure s

structure Handled where
  stop : Bool
  failure : Option AdoptionFailure
  report : AdoptionReport

def reject (id : String) (err : Err) (report : AdoptionReport) : Handled :=
  let f : AdoptionFailure := { persistenceID := id, err := err }
  ⟨a.failFast, some f, { report with failed := report.failed + 1, failures := report.failures ++ [f] }⟩

def anyDeleted (o : AggregateOutcome) : Bool :=
  o.events.status = .sourceDeleted || o.snapshot.status = .sourceDeleted || o.durableState.status = .sourceDeleted

def conclude (id : String) (s : Progress) : Handled :=
  let deleted := (anyDeleted s.outcome).toNat
  let report := { s.report with aggregates := s.report.aggregates ++ [s.outcome] }
  match s.aggFailure with
  | some f =>
    -- what the kinds before the failing one did counts all the same
    ⟨a.failFast, some f, { report with
      failed := report.failed + 1
      copied := report.copied + s.copied.toNat
      sourceDeleted := report.sourceDeleted + deleted }⟩
  | none =>
    if !s.found then a.reject id errNoSourceRecords report
    else if s.copied then
      if !a.write then ⟨false, none, { report with copied := report.copied + 1 }⟩
      else ⟨false, none, { report with
        copied := report.copied + 1
        verified := report.verified + 1
        sourceDeleted := report.sourceDeleted + deleted }⟩
    else ⟨false, none, { report with
      alreadyPresent := report.alreadyPresent + 1
      sourceDeleted := report.sourceDeleted + deleted }⟩

def adoptKinds (id : String) (intent : AdoptionIntent) (s : Progress) : Prog Records Err Progress := do
  let s ← applyKind id .events a.eventsStore (fun store => a.adoptEvents store id intent) s
  let s ← applyKind id .snapshot a.snapshotStore (fun store => a.adoptSnapshot store id intent) s
  applyKind id .durableState a.stateStore (fun store => a.adoptState store id intent) s

def adoptAggregate (id : String) (tenantID : TenantID) (report : AdoptionReport) : Prog Records Err Handled := do
  let s ← a.adoptKinds id (intentFor tenantID)
    { outcome := { persistenceID := id, tenant := tenantID }, report := report }
  pure (a.conclude id s)

def newTenantScope (tenantID : TenantID) : Except Err Scope :=
  match newTenantID tenantID with
  | .ok id => .ok (.tenant id)
  | .error (.message text) => .error (.message ("persistence: scope is not valid\n" ++ text))
  | .error err => .error err

def processAggregate (id : String) (report : AdoptionReport) : Prog Records Err Handled :=
  match a.assign id with
  | .error err => pure (a.reject id (err.wrap "tenant assignment") report)
  | .ok none => pure ⟨false, none, { report with skippedByAssignment := report.skippedByAssignment + 1 }⟩
  | .ok (some tenantID) =>
    let report := { report with assigned := report.assigned + 1 }
    match newTenantScope tenantID with
    | .error err =>
      pure (a.reject id (err.wrap ("assigned tenant " ++ quote tenantID ++ " is not a valid target scope")) report)
    | .ok target =>
      if target = a.sourceScope then pure (a.reject id errTargetIsSource report)
      else if a.write then do
        match ← acquireFences (a.fenceOrder target) with
        | .error err => pure (a.reject id (err.wrap "acquire adoption fence") report)
        | .ok () => a.adoptAggregate id tenantID report
      else a.adoptAggregate id tenantID report

def ping (text : String) {σ : Type} (store : Option σ) : Prog Contents Err (Except Err Unit) :=
  match store with
  | none => pure (.ok ())
  | some _ => do
    match ← Prog.read fun _ => .ok () with
    | .error err => pure (.error (err.wrap ("migration: " ++ text ++ " store not reachable")))
    | .ok () => pure (.ok ())

def pingStores : Prog Contents Err (Except Err Unit) := do
  match ← ping "events" a.eventsStore with
  | .error err => pure (.error err)
  | .ok () =>
    match ← ping "snapshot" a.snapshotStore with
    | .error err => pure (.error err)
    | .ok () => ping "state" a.stateStore

def listedIDs (store : JournalStore) (c : Contents) : List String :=
  ((c.ids a.sourceScope).filter fun id => ((c.records id).log a.sourceScope).any store.lists).sort (· ≤ ·)

def collectPages (store : JournalStore) : ℕ → String → Prog Contents Err (Except Err (List String))
  | 0, _ => pure (.error (.message "migration: failed to list persistence IDs"))
  | pages + 1, pageToken => do
    match ← Prog.read fun c => .ok (store.persistenceIDs (a.listedIDs store c) a.pageSize pageToken) with
    | .error err => pure (.error (err.wrap "migration: failed to list persistence IDs"))
    | .ok (page, nextToken) =>
      if nextToken = "" ∨ page = [] then pure (.ok page)
      else do
        match ← collectPages store pages nextToken with
        | .error err => pure (.error err)
        | .ok rest => pure (.ok (page ++ rest))

def distinct (ids : List String) : List String :=
  ids.foldl (fun seen id => if id ∈ seen then seen else seen ++ [id]) []

def collectPersistenceIDs : Prog Contents Err (Except Err (List String)) :=
  match a.eventsStore with
  | none => pure (.ok (distinct a.explicitIDs))
  | some store => .given fun c => do
    match ← a.collectPages store ((a.listedIDs store c).length + 1) "" with
    | .error err => pure (.error err)
    | .ok listed => pure (.ok (distinct (listed ++ a.explicitIDs)))

def handle (id : String) (report : AdoptionReport) : Prog Contents Err Handled :=
  .zoom (·.records id) (fun c r => c.set id r) (a.processAggregate id { report with scanned := report.scanned + 1 })

def adoptAll : List String → AdoptionReport → Prog Contents Err (Option AdoptionReport × Option Err)
  | [], report => pure (some report, none)
  | id :: ids, report => do
    let handled ← a.handle id report
    match handled.failure with
    | some f => if handled.stop then pure (some handled.report, some f.error) else adoptAll ids handled.report
    | none => adoptAll ids handled.report

def run : Prog Contents Err (Option AdoptionReport × Option Err) := do
  match ← a.pingStores with
  | .error err => pure (none, some err)
  | .ok () =>
    match ← a.collectPersistenceIDs with
    | .error err => pure (none, some err)
    | .ok ids => a.adoptAll ids { dryRun := !a.write }

end TenantAdopter

end Ego.Migration

import Ego.Lib.Except
import Ego.EventSource.Actor

/-!
# Recovery (`event_sourced_actor.go:444-738`, `snapshots_writer_actor.go:130-190`)

`recover` is what `PreStart` does with the stores.
-/

namespace Ego.EventSource
open Persistence Lib
open Tenancy (TenantContext)

section
variable {S C E : Type} (cfg : Config S C E)

/-- `resolveScope`: the tenant an actor is bound to when it is spawned. -/
def spawnTenant : TenantContext := Tenancy.ofScope cfg.tenantAware cfg.scope

def seedActorTenant (a : Actor S) (tc : TenantContext) : Except Err (Actor S) :=
  if !cfg.tenantAware then .ok a
  else if a.actorTenant = .unset then .ok { a with actorTenant := tc }
  else (Tenancy.verifyUnchanged a.actorTenant tc).map fun _ => a

/-- The tenant check of a recovered record, which the source has inline twice. -/
def seedFromMetadata (a : Actor S) (md : Tenancy.Metadata) (text : String) : Except Err (Actor S) :=
  if !cfg.tenantAware then .ok a
  else do
    let tc ← (Tenancy.unmarshalMetadata md).mapError (Err.wrap text)
    seedActorTenant cfg a tc

def decryptPayload (payload : Any) (encrypted : Bool) (keyID : String) : Except Err Any :=
  match encrypted, cfg.encryptor with
  | true, some enc =>
    match enc.decrypt cfg.persistenceID payload.value keyID with
    | .error err => .error err
    | .ok plaintext =>
      (cfg.codec.unmarshalAny plaintext).mapError (Err.wrap "failed to unmarshal decrypted payload")
  | _, _ => .ok payload

/-- The guard of `handlePersistSnapshot` included: without an encryptor or a state there
is nothing to encrypt. -/
def encryptSnapshotState (snapshot : Snapshot) : Except Err Snapshot :=
  match cfg.encryptor, snapshot.state with
  | some enc, some state =>
    match enc.encrypt snapshot.persistenceId (cfg.codec.marshalAny state) with
    | .error err => .error (err.wrap "failed to encrypt state")
    | .ok (ciphertext, keyID) =>
      .ok { snapshot with
        state := some ⟨state.typeUrl, ciphertext⟩
        isEncrypted := true
        encryptionKeyId := keyID }
  | _, _ => .ok snapshot

/-- A snapshot without a state is passed over before its tenant is looked at. -/
def recoverFromSnapshot (a : Actor S) (snapshot : Option Snapshot) : Except Err (Actor S × ℕ) :=
  match snapshot with
  | none => .ok (a, 1)
  | some snapshot =>
    match snapshot.state with
    | none => .ok (a, 1)
    | some stored => do
      let a ← seedFromMetadata cfg a snapshot.tenantMetadata
        "failed to unmarshal snapshot tenant metadata"
      let payload ← (decryptPayload cfg stored snapshot.isEncrypted
        snapshot.encryptionKeyId).mapError (Err.wrap "failed to decrypt snapshot")
      let state ← (cfg.codec.unmarshalState payload).mapError
        (Err.wrap "failed to unmarshal snapshot state")
      return ({ a with currentState := state, eventsCounter := snapshot.sequenceNumber },
        snapshot.sequenceNumber + 1)

def atSequence (text : String) (envelope : Event) : String :=
  text ++ " at sequence " ++ toString envelope.sequenceNumber

def applyPersistedEvent (actorTenant : TenantContext) (state : S) (envelope : Event) : Except Err S := do
  if cfg.tenantAware then
    let eventTenant ← (Tenancy.unmarshalMetadata envelope.tenantMetadata).mapError
      (Err.wrap (atSequence "failed to unmarshal event tenant metadata" envelope))
    (Tenancy.verifyUnchanged actorTenant eventTenant).mapError
      (Err.wrap (atSequence "tenant mismatch replaying event" envelope))
  let payload ← (decryptPayload cfg envelope.event envelope.isEncrypted
    envelope.encryptionKeyId).mapError (Err.wrap (atSequence "failed to decrypt event" envelope))
  let adapted ← (chain cfg.eventAdapters payload envelope.sequenceNumber).mapError
    (Err.wrap (atSequence "failed to adapt event" envelope))
  let event ← (cfg.codec.unmarshalEvent adapted).mapError
    (Err.wrap (atSequence "failed to unmarshal event" envelope))
  (cfg.behavior.handleEvent event state).mapError
    (Err.wrap (atSequence "failed to handle event" envelope))

/-- The latest event is read from one record and the events from another: a janitor may
delete in between. -/
def recoverReading (store : EventsStore) (snapshot : Option Snapshot) (log log' : Option EventLog) :
    Except Err (Actor S) := do
  let spawned := Actor.new cfg.behavior.initialState 0 (spawnTenant cfg)
  let (a, replayFrom) ← recoverFromSnapshot cfg spawned snapshot
  let latest ← (store.getLatestEvent cfg.scope log).mapError (Err.wrap "failed to get latest event")
  match latest with
  | none => return a
  | some latest =>
    let a ← seedFromMetadata cfg a latest.tenantMetadata
      "failed to unmarshal event tenant metadata"
    if replayFrom ≤ latest.sequenceNumber then do
      let events ← (store.replayEvents cfg.scope log' replayFrom latest.sequenceNumber
        (latest.sequenceNumber - replayFrom + 1)).mapError (Err.wrap "failed to replay events")
      let state ← events.foldlM (applyPersistedEvent cfg a.actorTenant) a.currentState
      return { a with currentState := state, eventsCounter := latest.sequenceNumber }
    else return a

def recover (store : EventsStore) (snapshot : Option Snapshot) (log : Option EventLog) : Except Err (Actor S) :=
  recoverReading cfg store snapshot log log

variable {cfg}

variable {state : S} {tenant : TenantContext} {a : Actor S}

theorem seedActorTenant_new {counter : ℕ} {tc : TenantContext}
    (h : seedActorTenant cfg (.new state counter tenant) tc = .ok a) : ∃ tenant', a = .new state counter tenant' := by
  unfold seedActorTenant at h
  split at h
  · exact ⟨tenant, (Except.ok.inj h).symm⟩
  split at h
  · exact ⟨tc, (Except.ok.inj h).symm⟩
  · obtain ⟨-, -, h⟩ := map_eq_ok.mp h
    exact ⟨tenant, h.symm⟩

theorem seedFromMetadata_new {counter : ℕ} {md : Tenancy.Metadata} {text : String}
    (h : seedFromMetadata cfg (.new state counter tenant) md text = .ok a) :
    ∃ tenant', a = .new state counter tenant' := by
  unfold seedFromMetadata at h
  split at h
  · exact ⟨tenant, (Except.ok.inj h).symm⟩
  · obtain ⟨tc, -, h⟩ := bind_eq_ok.mp h
    exact seedActorTenant_new h

variable {snapshot : Option Snapshot}

/-- The snapshot that a recovery makes use of. -/
def usable (snapshot : Option Snapshot) : Option Snapshot := snapshot.filter (·.state.isSome)

theorem usable_le {n : ℕ} (h : ∀ s, snapshot = some s → s.sequenceNumber ≤ n) :
    ((usable snapshot).map (·.sequenceNumber)).getD 0 ≤ n := by
  cases hs : usable snapshot with
  | none => exact Nat.zero_le n
  | some s => exact h s (Option.filter_eq_some_iff.mp hs).1

theorem recoverFromSnapshot_ok {b : Actor S} {replayFrom : ℕ}
    (h : recoverFromSnapshot cfg a snapshot = .ok (b, replayFrom)) :
    usable snapshot = none ∧ b = a ∧ replayFrom = 1 ∨
      ∃ s a' state, usable snapshot = some s ∧
        seedFromMetadata cfg a s.tenantMetadata "failed to unmarshal snapshot tenant metadata" = .ok a' ∧
        b = { a' with currentState := state, eventsCounter := s.sequenceNumber } ∧
        replayFrom = s.sequenceNumber + 1 := by
  cases snapshot with
  | none =>
    cases Except.ok.inj h
    exact .inl ⟨rfl, rfl, rfl⟩
  | some s =>
    cases hstate : s.state with
    | none =>
      simp only [recoverFromSnapshot, hstate] at h
      cases Except.ok.inj h
      exact .inl ⟨by simp [usable, Option.filter, hstate], rfl, rfl⟩
    | some stored =>
      simp only [recoverFromSnapshot, hstate, bind_eq_ok] at h
      obtain ⟨a', ha, _, -, state, -, h⟩ := h
      cases Except.ok.inj h
      exact .inr ⟨s, a', state, by simp [usable, Option.filter, hstate], ha, rfl, rfl⟩

theorem recoverFromSnapshot_new {replayFrom : ℕ}
    (h : recoverFromSnapshot cfg (.new state 0 tenant) snapshot = .ok (a, replayFrom)) :
    ∃ state' tenant', a = .new state' (((usable snapshot).map (·.sequenceNumber)).getD 0) tenant' ∧
      replayFrom = ((usable snapshot).map (·.sequenceNumber)).getD 0 + 1 := by
  obtain ⟨hs, rfl, rfl⟩ | ⟨s, a', state', hs, ha, rfl, rfl⟩ := recoverFromSnapshot_ok h
  · rw [hs]
    exact ⟨state, tenant, rfl, rfl⟩
  · obtain ⟨tenant', rfl⟩ := seedFromMetadata_new ha
    rw [hs]
    exact ⟨state', tenant', rfl, rfl⟩

theorem recover_new {store : EventsStore} {log : Option EventLog} (h : recover cfg store snapshot log = .ok a) :
    ∃ state tenant latest, store.getLatestEvent cfg.scope log = .ok latest ∧
      a = .new state (max (((usable snapshot).map (·.sequenceNumber)).getD 0)
        ((latest.map (·.sequenceNumber)).getD 0)) tenant := by
  simp only [recover, recoverReading, bind_eq_ok] at h
  obtain ⟨⟨a₀, replayFrom⟩, hsnap, latest, hlatest, h⟩ := h
  obtain ⟨state, tenant, rfl, rfl⟩ := recoverFromSnapshot_new hsnap
  generalize ((usable snapshot).map (·.sequenceNumber)).getD 0 = taken at h
  cases latest with
  | none =>
    rw [← Except.ok.inj h]
    exact ⟨state, tenant, none, mapError_eq_ok.mp hlatest, by simp⟩
  | some latest =>
    simp only [bind_eq_ok] at h
    obtain ⟨a₁, htenant, h⟩ := h
    obtain ⟨tenant', rfl⟩ := seedFromMetadata_new htenant
    have hmax : ∀ k, k = max taken latest.sequenceNumber →
        k = max taken (((some latest).map (·.sequenceNumber)).getD 0) := fun k hk => hk
    split at h
    · simp only [bind_eq_ok] at h
      obtain ⟨events, -, state', -, h⟩ := h
      rw [← Except.ok.inj h]
      exact ⟨state', tenant', some latest, mapError_eq_ok.mp hlatest,
        congrArg (Actor.new state' · tenant') (hmax _ (by omega))⟩
    · rw [← Except.ok.inj h]
      exact ⟨state, tenant', some latest, mapError_eq_ok.mp hlatest,
        congrArg (Actor.new state · tenant') (hmax _ (by omega))⟩

theorem recover_numbered {store : EventsStore} {log : Option EventLog} (h : recover cfg store snapshot log = .ok a)
    (hn : Numbered (·.sequenceNumber) 0 (journal log))
    (hs : ((usable snapshot).map (·.sequenceNumber)).getD 0 ≤ (journal log).length) :
    ∃ state tenant, a = .new state (journal log).length tenant := by
  obtain ⟨state, tenant, latest, hlatest, rfl⟩ := recover_new h
  rw [(store.latest_of_ok _ _ _ hlatest).number hn, Nat.max_eq_right hs]
  exact ⟨state, tenant, rfl⟩

end

end Ego.EventSource

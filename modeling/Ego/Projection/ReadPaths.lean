import Ego.EventSource.Envelopes
import Ego.Projection.Runner
import Ego.Enginetest.Saga

/-! # One written event on three read paths -/

namespace Ego.EventSource
open Persistence Lib
open Tenancy (TenantContext)

section
variable {S C E : Type} (cfg : Config S C E)

def replayedEvent (envelope : Event) : Except Err E := do
  let payload ← decryptPayload cfg envelope.event envelope.isEncrypted envelope.encryptionKeyId
  let adapted ← chain cfg.eventAdapters payload envelope.sequenceNumber
  cfg.codec.unmarshalEvent adapted

variable {cfg}

variable {envelope : Event}

theorem applyPersistedEvent_ok_iff {tenant : TenantContext} {state state' : S} :
    applyPersistedEvent cfg tenant state envelope = .ok state' ↔
      (cfg.tenantAware = true → Tenancy.unmarshalMetadata envelope.tenantMetadata = .ok tenant) ∧
        ∃ event, replayedEvent cfg envelope = .ok event ∧ cfg.behavior.handleEvent event state = .ok state' := by
  have hrest (x : Except Err S) (hx : x = (do
      let payload ← (decryptPayload cfg envelope.event envelope.isEncrypted
        envelope.encryptionKeyId).mapError (Err.wrap (atSequence "failed to decrypt event" envelope))
      let adapted ← (chain cfg.eventAdapters payload envelope.sequenceNumber).mapError
        (Err.wrap (atSequence "failed to adapt event" envelope))
      let event ← (cfg.codec.unmarshalEvent adapted).mapError
        (Err.wrap (atSequence "failed to unmarshal event" envelope))
      (cfg.behavior.handleEvent event state).mapError
        (Err.wrap (atSequence "failed to handle event" envelope)))) :
      x = .ok state' ↔
        ∃ event, replayedEvent cfg envelope = .ok event ∧ cfg.behavior.handleEvent event state = .ok state' := by
    rw [hx]
    simp only [replayedEvent, bind_eq_ok, mapError_eq_ok]
    constructor
    · rintro ⟨payload, hp, adapted, ha, event, he, h⟩
      exact ⟨event, ⟨payload, hp, adapted, ha, he⟩, h⟩
    · rintro ⟨event, ⟨payload, hp, adapted, ha, he⟩, h⟩
      exact ⟨payload, hp, adapted, ha, event, he, h⟩
  unfold applyPersistedEvent
  cases haware : cfg.tenantAware with
  | false =>
    simp only [Bool.false_eq_true, if_false, false_imp_iff, true_and]
    exact hrest _ rfl
  | true =>
    cases hmd : Tenancy.unmarshalMetadata envelope.tenantMetadata with
    | error err => simp [Except.mapError, Bind.bind, Except.bind]
    | ok tc =>
      by_cases heq : tenant = tc
      · subst heq
        have hsame : Tenancy.verifyUnchanged tenant tenant = .ok () := by simp [Tenancy.verifyUnchanged]
        simp only [if_true, true_imp_iff, true_and]
        refine hrest _ ?_
        simp only [Except.mapError, Bind.bind, Except.bind, hsame]
      · have hne : tc ≠ tenant := Ne.symm heq
        simp [Except.mapError, Bind.bind, Except.bind, Tenancy.verifyUnchanged, heq, hne]

variable {event : E} {tc : TenantContext} {seqNr : ℕ} {ts : ℤ}

section
variable (h : marshalEvent cfg event tc seqNr ts = .ok envelope)
include h

theorem decryptPayload_marshalEvent :
    decryptPayload cfg envelope.event envelope.isEncrypted envelope.encryptionKeyId =
      .ok (cfg.codec.newEvent event) := by
  unfold marshalEvent at h
  cases henc : cfg.encryptor with
  | none =>
    simp only [henc, Except.ok.injEq] at h
    subst h
    simp only [decryptPayload]
  | some enc =>
    simp only [henc] at h
    split at h
    · simp at h
    · rename_i ciphertext keyID hct
      simp only [Except.ok.injEq] at h
      subst h
      simp only [decryptPayload, henc, enc.roundtrip _ _ _ _ hct, cfg.codec.any_roundtrip, Except.mapError]

theorem replayedEvent_marshalEvent :
    replayedEvent cfg envelope =
      chain cfg.eventAdapters (cfg.codec.newEvent event) seqNr >>= cfg.codec.unmarshalEvent := by
  rw [replayedEvent, decryptPayload_marshalEvent h, (marshalEvent_spec h).1]
  rfl

theorem event_of_plain (hplain : cfg.encryptor = none) :
    envelope.event = cfg.codec.newEvent event := by
  simp only [marshalEvent, hplain, Except.ok.injEq] at h
  rw [← h]

end

end

end Ego.EventSource

namespace Ego.Saga
open Persistence

section
variable {S C M : Type} (cfg : Config S C M)

def streamedEvent (event : Event) : Except Err M := cfg.codec.unmarshalNew event.event

variable {cfg} {store : EventsStore} {a : Actor S} {event : Event} {env : Surroundings} {log : Option EventLog}

theorem handleStreamEvent_of_error {err : Err} (h : streamedEvent cfg event = .error err) :
    (handleStreamEvent cfg store a event env log).tasks = [] ∧
      (handleStreamEvent cfg store a event env log).log = log := by
  unfold streamedEvent at h
  unfold handleStreamEvent
  split
  · exact ⟨rfl, rfl⟩
  split
  · exact ⟨rfl, rfl⟩
  dsimp only
  split
  · exact ⟨rfl, rfl⟩
  simp only [h]
  exact ⟨trivial, trivial⟩

theorem handleStreamEvent_of_ok {m : M} {action : Option (SagaAction C M)} (hrun : a.status = .running)
    (haware : cfg.tenantAware = false) (h : streamedEvent cfg event = .ok m)
    (hhandle : cfg.behavior.handleEvent none m a.currentState = .ok action) :
    handleStreamEvent cfg store a event env log = processUnbound cfg store a none action env log := by
  unfold streamedEvent at h
  simp [handleStreamEvent, hrun, eventContext, haware, h, hhandle]

end

end Ego.Saga

namespace Ego.Projection
open Persistence Lib
open EventSource (replayedEvent applyPersistedEvent marshalEvent event_of_plain)
open Saga (streamedEvent handleStreamEvent processUnbound)
open Tenancy (TenantContext)

/-- All three hand over the same event, or all report an error. The projection
hands over the encoded event. -/
def Agree {E : Type} (decode : Any → Except Err E) (replayed : Except Err E) (projected : Except Err Any)
    (streamed : Except Err E) : Prop :=
  (∃ event any, replayed = .ok event ∧ (projected = .ok any ∧ decode any = .ok event) ∧
    streamed = .ok event) ∨
    ((∃ err, replayed = .error err) ∧ (∃ err, projected = .error err) ∧ ∃ err, streamed = .error err)

/-- The payload as it is stored reads as what the adapters make of the encoded
event, or neither can be had. -/
def ReadsAsStored {E : Type} (decode : Any → Except Err E) (adapted : Except Err Any) (stored : Any) : Prop :=
  (∃ any event, adapted = .ok any ∧ decode any = .ok event ∧ decode stored = .ok event) ∨
    ((∃ err, adapted = .error err) ∧ ∃ err, decode stored = .error err)

section
variable {S C S' C' E : Type}

theorem decodeEnvelope_marshalEvent {actor : EventSource.Config S C E} {runner : Config}
    (hencryptor : runner.encryptor = actor.encryptor) (hadapters : runner.eventAdapters = actor.eventAdapters)
    (hany : runner.unmarshalAny = actor.codec.unmarshalAny) {event : E} {tc : TenantContext} {seqNr : ℕ} {ts : ℤ}
    {envelope : Event} (h : marshalEvent actor event tc seqNr ts = .ok envelope) :
    decodeEnvelope runner envelope = (chain actor.eventAdapters (actor.codec.newEvent event) seqNr).mapError
      (Err.wrap (atRevision "failed to adapt event" envelope)) := by
  unfold decodeEnvelope
  rw [hencryptor, hadapters, hany]
  unfold marshalEvent at h
  cases henc : actor.encryptor with
  | none =>
    simp only [henc, Except.ok.injEq] at h
    subst h
    rfl
  | some enc =>
    simp only [henc] at h
    split at h
    · simp at h
    · rename_i ciphertext keyID hct
      simp only [Except.ok.injEq] at h
      subst h
      simp only [enc.roundtrip _ _ _ _ hct, actor.codec.any_roundtrip, Except.mapError, Bind.bind, Except.bind]

/-- The three read paths of one engine agree on a written event exactly if the
stored payload, neither decrypted nor adapted, reads as the adapted event. Without
an encryptor: if the adapters leave the event as it was written. Actor and saga
decode by the one `UnmarshalNew`. The first two parts say what the actor and the saga
do with what they read: hand it to `HandleEvent`, or do nothing. -/
theorem read_paths_agree_iff (actor : EventSource.Config S C E) (runner : Config) (saga : Saga.Config S' C' E)
    (hencryptor : runner.encryptor = actor.encryptor) (hadapters : runner.eventAdapters = actor.eventAdapters)
    (hany : runner.unmarshalAny = actor.codec.unmarshalAny)
    (hmessage : saga.codec.unmarshalNew = actor.codec.unmarshalEvent)
    (event : E) (tc : TenantContext) (seqNr : ℕ) (ts : ℤ) (envelope : Event)
    (h : marshalEvent actor event tc seqNr ts = .ok envelope) :
    let agree := Agree actor.codec.unmarshalEvent (replayedEvent actor envelope) (decodeEnvelope runner envelope)
      (streamedEvent saga envelope)
    let adapted := chain actor.eventAdapters (actor.codec.newEvent event) seqNr
    (∀ tenant state state', applyPersistedEvent actor tenant state envelope = .ok state' ↔
      (actor.tenantAware = true → Tenancy.unmarshalMetadata envelope.tenantMetadata = .ok tenant) ∧
        ∃ e, replayedEvent actor envelope = .ok e ∧ actor.behavior.handleEvent e state = .ok state') ∧
    (∀ store a env log, (∀ err, streamedEvent saga envelope = .error err →
        (handleStreamEvent saga store a envelope env log).tasks = [] ∧
          (handleStreamEvent saga store a envelope env log).log = log) ∧
      ∀ m action, a.status = .running → saga.tenantAware = false → streamedEvent saga envelope = .ok m →
        saga.behavior.handleEvent none m a.currentState = .ok action →
        handleStreamEvent saga store a envelope env log = processUnbound saga store a none action env log) ∧
    (agree ↔ ReadsAsStored actor.codec.unmarshalEvent adapted envelope.event) ∧
    (actor.encryptor = none → (agree ↔ ∃ any, adapted = .ok any ∧
      actor.codec.unmarshalEvent any = .ok event)) := by
  intro agree adapted
  have hagree : agree ↔ ReadsAsStored actor.codec.unmarshalEvent adapted envelope.event := by
    change Agree _ _ _ _ ↔ _
    rw [EventSource.replayedEvent_marshalEvent h, decodeEnvelope_marshalEvent hencryptor hadapters hany h,
      streamedEvent, hmessage]
    change Agree _ (adapted >>= _) (adapted.mapError _) _ ↔ _
    cases adapted with
    | error | ok => simp [Agree, ReadsAsStored, Bind.bind, Except.bind, Except.mapError]
  refine ⟨fun _ _ _ => EventSource.applyPersistedEvent_ok_iff, fun _ _ _ _ =>
    ⟨fun _ => Saga.handleStreamEvent_of_error, fun _ _ => Saga.handleStreamEvent_of_ok⟩, hagree,
    fun hplain => hagree.trans ?_⟩
  have hstored : actor.codec.unmarshalEvent envelope.event = .ok event := by
    rw [event_of_plain h hplain]
    exact actor.codec.event_roundtrip event
  constructor
  · rintro (⟨any, read, hadapted, hread, hsame⟩ | ⟨-, err, herr⟩)
    · rw [hstored, Except.ok.injEq] at hsame
      exact ⟨any, hadapted, hsame ▸ hread⟩
    · rw [hstored] at herr
      cases herr
  · rintro ⟨any, hadapted, hread⟩
    exact Or.inl ⟨any, event, hadapted, hread, hstored⟩

end

section
open Enginetest

def accountRunner (adapters : List EventAdapter) (encryptor : Option Encryptor) : Config where
  handleWithPolicy := fun _ _ _ => .ok ()
  encryptor := encryptor
  unmarshalAny := unmarshal anyCode
  eventAdapters := adapters
  maxBufferSize := 500
  startingOffset := 0
  resetOffsetTo := 0

def accountSaga : Saga.Config ℕ Command AccountEvent where
  behavior := ⟨0, fun _ _ _ => .ok none, fun _ _ _ _ => .ok none, fun _ _ _ _ => .ok none,
    fun _ _ applied => .ok (applied + 1), fun _ _ => .ok []⟩
  codec :=
    { newAny := newEvent
      unmarshalNew := unmarshalEvent
      newState := fun balance => ⟨"testpb.Account", encodeNat balance⟩
      empty := .empty
      isEmpty := fun m => m == .empty
      isEmpty_empty := rfl
      roundtrip := unmarshalEvent_newEvent }
  sagaID := "saga"
  scope := .unscoped
  tenantAware := false

theorem read_paths_agree_credited :
    marshalEvent (accountConfig 0) (.accountCredited 1) .unset 1 0 = .ok (credited "account" 1 0) ∧
    Agree unmarshalEvent (replayedEvent (accountConfig 0) (credited "account" 1 0))
      (decodeEnvelope (accountRunner [] none) (credited "account" 1 0))
      (streamedEvent accountSaga (credited "account" 1 0)) := by
  have hwritten : marshalEvent (accountConfig 0) (.accountCredited 1) .unset 1 0 =
      .ok (credited "account" 1 0) := by decide
  have h := read_paths_agree_iff (accountConfig 0) (accountRunner [] none) accountSaga rfl rfl rfl rfl _ _ _ _ _
    hwritten
  exact ⟨hwritten, (h.2.2.2 rfl).2 ⟨newEvent (.accountCredited 1), by decide, by decide⟩⟩

def numbered : EventAdapter := fun _ revision => .ok (newEvent (.accountCredited (10 * revision)))

def prefixing : Encryptor where
  encrypt := fun _ plaintext => .ok (0 :: plaintext, "key")
  decrypt := fun _ ciphertext _ => .ok ciphertext.tail
  roundtrip := by
    intro id plaintext ciphertext key h
    simp only [Except.ok.injEq, Prod.mk.injEq] at h
    rw [← h.1, List.tail_cons]

/-- The saga is handed the event as it was before the adapters, and cannot read an
encrypted one. -/
theorem streamed_event_differs :
    let adapting := { accountConfig 0 with eventAdapters := [numbered] }
    let encrypting := { accountConfig 0 with encryptor := some prefixing }
    (∃ envelope, marshalEvent adapting (.accountCredited 1) .unset 1 0 = .ok envelope ∧
      replayedEvent adapting envelope = .ok (.accountCredited 10) ∧
      decodeEnvelope (accountRunner [numbered] none) envelope = .ok (newEvent (.accountCredited 10)) ∧
      streamedEvent accountSaga envelope = .ok (.accountCredited 1)) ∧
    ∃ envelope, marshalEvent encrypting (.accountCredited 1) .unset 1 0 = .ok envelope ∧
      replayedEvent encrypting envelope = .ok (.accountCredited 1) ∧
      decodeEnvelope (accountRunner [] (some prefixing)) envelope = .ok (newEvent (.accountCredited 1)) ∧
      streamedEvent accountSaga envelope = .error invalidWire := by
  intro adapting encrypting
  have hwritten : marshalEvent encrypting (.accountCredited 1) .unset 1 0 = .ok _ := rfl
  refine ⟨⟨_, rfl, by decide, by decide, by decide⟩, ⟨_, hwritten, ?_, ?_, by decide⟩⟩
  · exact (EventSource.replayedEvent_marshalEvent hwritten).trans (by decide)
  · exact (decodeEnvelope_marshalEvent rfl rfl rfl hwritten).trans (by decide)

end

end Ego.Projection

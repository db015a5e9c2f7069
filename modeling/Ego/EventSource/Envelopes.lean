import Ego.EventSource.Reaction
import Ego.EventSource.Recovery

/-! # Envelopes and the state they stand for -/

namespace Ego.EventSource
open Persistence Protocol Lib
open Tenancy (TenantContext)

section
variable {S C E : Type} (cfg : Config S C E)

def decodeEvent (envelope : Event) : Except Err E := do
  let payload ← decryptPayload cfg envelope.event envelope.isEncrypted envelope.encryptionKeyId
  cfg.codec.unmarshalEvent payload

def applyEvent (state : S) (envelope : Event) : Except Err S := do
  let event ← decodeEvent cfg envelope
  cfg.behavior.handleEvent event state

def replay (state : S) (envelopes : List Event) : Except Err S :=
  envelopes.foldlM (applyEvent cfg) state

def stateOf (envelopes : List Event) : Except Err S :=
  replay cfg cfg.behavior.initialState envelopes

variable {cfg}

@[simp] theorem replay_nil (state : S) : replay cfg state [] = .ok state := rfl

variable {state : S}

theorem replay_append {mid : S} {xs : List Event} (h : replay cfg state xs = .ok mid)
    (ys : List Event) : replay cfg state (xs ++ ys) = replay cfg mid ys := by
  unfold replay at *
  rw [List.foldlM_append, h]
  rfl

theorem stateOf_append {xs : List Event} {mid : S} (h : stateOf cfg xs = .ok mid) (ys : List Event) :
    stateOf cfg (xs ++ ys) = replay cfg mid ys := replay_append h ys

variable {tc : TenantContext}

theorem marshalEvent_spec {event : E} {seqNr : ℕ} {ts : ℤ} {envelope : Event}
    (h : marshalEvent cfg event tc seqNr ts = .ok envelope) :
    envelope.sequenceNumber = seqNr ∧ envelope.timestamp = ts ∧ envelope.shard = cfg.shardNumber ∧
      envelope.persistenceId = cfg.persistenceID ∧ decodeEvent cfg envelope = .ok event := by
  unfold marshalEvent at h
  cases henc : cfg.encryptor with
  | none =>
    simp only [henc, Except.ok.injEq] at h
    subst h
    refine ⟨rfl, rfl, rfl, rfl, ?_⟩
    exact cfg.codec.event_roundtrip event
  | some enc =>
    simp only [henc] at h
    split at h
    · simp at h
    · rename_i ciphertext keyID hct
      simp only [Except.ok.injEq] at h
      subst h
      refine ⟨rfl, rfl, rfl, rfl, ?_⟩
      simp only [decodeEvent, decryptPayload, henc, enc.roundtrip _ _ _ _ hct, cfg.codec.any_roundtrip]
      exact cfg.codec.event_roundtrip event

structure Envelopes (cfg : Config S C E) (now : ℤ) (fromState : S) (fromCounter : ℕ)
    (envelopes : List Event) (state : S) (counter : ℕ) : Prop where
  numbered : Numbered (·.sequenceNumber) fromCounter envelopes
  counter_eq : counter = fromCounter + envelopes.length
  replays : replay cfg fromState envelopes = .ok state
  timestamps : ∀ e ∈ envelopes, e.timestamp = now
  shards : ∀ e ∈ envelopes, e.shard = cfg.shardNumber
  ids : ∀ e ∈ envelopes, e.persistenceId = cfg.persistenceID

variable {now : ℤ} {counter : ℕ}

theorem buildEnvelopes_cons {event : E} {events : List E} {r : List Event × S × ℕ}
    (h : buildEnvelopes cfg tc now (event :: events) state counter = .ok r) : ∃ next envelope rest,
      cfg.behavior.handleEvent event state = .ok next ∧ marshalEvent cfg event tc (counter + 1) now = .ok envelope ∧
      buildEnvelopes cfg tc now events next (counter + 1) = .ok (rest, r.2.1, r.2.2) ∧ r.1 = envelope :: rest := by
  simp only [buildEnvelopes, bind_eq_ok] at h
  obtain ⟨next, hs, envelope, he, rest, hr, h⟩ := h
  cases h
  exact ⟨next, envelope, rest.1, hs, he, hr, rfl⟩

theorem buildEnvelopes_spec {events : List E}
    {r : List Event × S × ℕ} (h : buildEnvelopes cfg tc now events state counter = .ok r) :
    Envelopes cfg now state counter r.1 r.2.1 r.2.2 ∧ r.1.length = events.length := by
  induction events generalizing state counter r with
  | nil =>
    simp only [buildEnvelopes, Except.ok.injEq] at h
    subst h
    exact ⟨⟨trivial, rfl, rfl, by simp, by simp, by simp⟩, rfl⟩
  | cons event events ih =>
    obtain ⟨next, envelope, rest, hs, he, hr, hcons⟩ := buildEnvelopes_cons h
    obtain ⟨ihe, ihl⟩ := ih hr
    obtain ⟨hseq, hts, hshard, hid, hdec⟩ := marshalEvent_spec he
    have happly : applyEvent cfg state envelope = .ok next := by
      simp only [applyEvent, hdec]
      exact hs
    rw [hcons]
    refine ⟨⟨⟨hseq, ihe.numbered⟩, ?_, ?_, ?_, ?_, ?_⟩, by simp [ihl]⟩
    · have hc := ihe.counter_eq
      dsimp only at hc
      rw [List.length_cons]
      omega
    · simp only [replay, List.foldlM_cons, happly]
      exact ihe.replays
    · exact List.forall_mem_cons.mpr ⟨hts, ihe.timestamps⟩
    · exact List.forall_mem_cons.mpr ⟨hshard, ihe.shards⟩
    · exact List.forall_mem_cons.mpr ⟨hid, ihe.ids⟩

theorem Produces.envelopes {ctx : Ctx} {cmd : C} {fromState : S} {fromCounter : ℕ} {envelopes : List Event}
    (h : Produces cfg ctx cmd now tc fromState fromCounter envelopes state counter) :
    Envelopes cfg now fromState fromCounter envelopes state counter ∧ envelopes ≠ [] := by
  obtain ⟨event, events, -, hb⟩ := h.built
  obtain ⟨hspec, hlen⟩ := buildEnvelopes_spec hb
  refine ⟨hspec, ?_⟩
  intro hnil
  simp [hnil] at hlen

end

end Ego.EventSource

import Ego.Persistence.Event

/-! # The projection runner (`internal/projectionrunner/runner.go`) -/

namespace Ego.Projection
open Persistence

def unixMilli (instant : ℤ) : ℤ := instant / 10 ^ 6

def zeroInstant : ℤ := -62135596800 * 10 ^ 9

/-- The options of a runner. `handleWithPolicy` is the handler under its recovery
policy; `unmarshalAny` is `proto.Unmarshal` into an `Any`. -/
structure Config where
  handleWithPolicy : String → Any → ℕ → Except Err Unit
  encryptor : Option Encryptor
  unmarshalAny : Bytes → Except Err Any
  eventAdapters : List EventAdapter
  maxBufferSize : Int64
  startingOffset : ℤ
  resetOffsetTo : ℤ

structure Progress where
  -- the shard's entry of `committedOffsets`
  committed : Option ℤ
  -- the value of the offset store for the projection and the shard
  stored : Option ℤ
  handed : List Event
  deriving DecidableEq

/-- A store round trip failed, which is retried, or an event cannot be processed. -/
inductive Failure where
  | store (err : Err)
  | event (err : Err)
  deriving DecidableEq

variable (cfg : Config)

def bufferSize : ℕ := cfg.maxBufferSize.toUInt64.toNat

def pending (p : Progress) (latest : Option ℤ) : Bool :=
  match latest with
  | none => false
  | some latest =>
    if cfg.startingOffset ≠ zeroInstant then decide (latest > unixMilli cfg.startingOffset)
    else
      match p.committed with
      | none => true
      | some committed => decide (latest > committed)

/-- `currentOffset`. It caches the stored offset, but a configured starting offset
takes precedence over it in every pass. -/
def currentOffset (p : Progress) : ℤ × Progress :=
  let committed := p.committed.getD (p.stored.getD 0)
  let p := { p with committed := some committed }
  if cfg.startingOffset ≠ zeroInstant then (unixMilli cfg.startingOffset, p) else (committed, p)

def atRevision (text : String) (envelope : Event) : String :=
  text ++ " for persistence id=" ++ envelope.persistenceId ++ ", revision=" ++ toString envelope.sequenceNumber

def decodeEnvelope (envelope : Event) : Except Err Any := do
  let event ← match envelope.isEncrypted, cfg.encryptor with
    | true, some enc => do
      let plaintext ← (enc.decrypt envelope.persistenceId envelope.event.value
        envelope.encryptionKeyId).mapError (Err.wrap (atRevision "failed to decrypt event" envelope))
      (cfg.unmarshalAny plaintext).mapError
        (Err.wrap (atRevision "failed to unmarshal decrypted event" envelope))
    | _, _ => .ok envelope.event
  (chain cfg.eventAdapters event envelope.sequenceNumber).mapError
    (Err.wrap (atRevision "failed to adapt event" envelope))

def processEnvelope (envelope : Event) (p : Progress) : Progress × Option Failure :=
  match decodeEnvelope cfg envelope with
  | .error err => (p, some (.event err))
  | .ok event =>
    let p := { p with handed := p.handed ++ [envelope] }
    match cfg.handleWithPolicy envelope.persistenceId event envelope.sequenceNumber with
    | .error err => (p, some (.event err))
    | .ok () => (p, none)

def commitOffset (nextOffset : ℤ) (p : Progress) : Progress :=
  { p with stored := some nextOffset, committed := some nextOffset }

/-- A failure in the middle of the batch commits nothing. -/
def processEvents (nextOffset : ℤ) : List Event → Progress → Progress × Option Failure
  | [], p => (commitOffset nextOffset p, none)
  | envelope :: rest, p =>
    match processEnvelope cfg envelope p with
    | (p, none) => processEvents nextOffset rest p
    | (p, some failure) => (p, some failure)

def doProcess (read : ℤ → ℕ → Except Err (List Event × ℤ)) (p : Progress) : Progress × Option Failure :=
  let (offset, p) := currentOffset cfg p
  match read offset (bufferSize cfg) with
  | .error err => (p, some (.store err))
  | .ok ([], _) => (p, none)
  | .ok (events, nextOffset) => processEvents cfg nextOffset events p

variable {cfg}

theorem currentOffset_of_zero (h : cfg.startingOffset = zeroInstant) (p : Progress) :
    currentOffset cfg p = (p.committed.getD (p.stored.getD 0),
      { p with committed := some (p.committed.getD (p.stored.getD 0)) }) := by
  simp [currentOffset, h]

theorem processEnvelope_frame (envelope : Event) (p : Progress) :
    (processEnvelope cfg envelope p).1.committed = p.committed ∧
    (processEnvelope cfg envelope p).1.stored = p.stored ∧
      p.handed ⊆ (processEnvelope cfg envelope p).1.handed := by
  unfold processEnvelope
  split
  · exact ⟨rfl, rfl, fun _ h => h⟩
  · dsimp only
    split <;> exact ⟨rfl, rfl, List.subset_append_left _ _⟩

theorem processEnvelope_none {envelope : Event} {p p' : Progress}
    (h : processEnvelope cfg envelope p = (p', none)) : p' = { p with handed := p.handed ++ [envelope] } := by
  unfold processEnvelope at h
  split at h
  · simp at h
  · dsimp only at h
    split at h
    · simp at h
    · exact (Prod.mk.inj h).1.symm

end Ego.Projection

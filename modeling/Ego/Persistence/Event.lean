import Ego.Tenancy.Context

/-!
# Persisted records and their encoding (`protos/ego/ego.proto`, `encryption/`, `eventadapter/`)
-/

namespace Ego.Persistence

abbrev Bytes := List UInt8

structure Any where
  typeUrl : String
  value : Bytes
  deriving DecidableEq, Repr

structure Event where
  persistenceId : String
  sequenceNumber : ℕ
  isDeleted : Bool
  event : Any
  timestamp : ℤ
  shard : ℕ
  encryptionKeyId : String
  isEncrypted : Bool
  tenantMetadata : Tenancy.Metadata
  deriving DecidableEq, Repr

structure Snapshot where
  persistenceId : String
  sequenceNumber : ℕ
  state : Option Any
  timestamp : ℤ
  encryptionKeyId : String
  isEncrypted : Bool
  tenantMetadata : Tenancy.Metadata
  deriving DecidableEq, Repr

structure Codec (S E : Type) where
  newEvent : E → Any
  unmarshalEvent : Any → Except Err E
  newState : S → Any
  unmarshalState : Any → Except Err S
  marshalAny : Any → Bytes
  unmarshalAny : Bytes → Except Err Any
  event_roundtrip : ∀ e, unmarshalEvent (newEvent e) = .ok e
  state_roundtrip : ∀ s, unmarshalState (newState s) = .ok s
  any_roundtrip : ∀ a, unmarshalAny (marshalAny a) = .ok a

/-- `Decrypt` undoes `Encrypt` for the same persistence id. -/
structure Encryptor where
  encrypt : String → Bytes → Except Err (Bytes × String)
  decrypt : String → Bytes → String → Except Err Bytes
  roundtrip : ∀ id plaintext ciphertext key,
    encrypt id plaintext = .ok (ciphertext, key) → decrypt id ciphertext key = .ok plaintext

abbrev EventAdapter := Any → ℕ → Except Err Any

def chain (adapters : List EventAdapter) (event : Any) (revision : ℕ) : Except Err Any :=
  adapters.foldlM (fun current adapt => adapt current revision) event

end Ego.Persistence

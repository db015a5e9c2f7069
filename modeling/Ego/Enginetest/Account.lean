import Ego.EventSource.Behavior
import Ego.Lib.Codes

/-!
# The bank account of the engine's own tests (`internal/engine/enginetest/account.go`)

Amounts are whole numbers, and the account id is left out of state and events.
-/

namespace Ego.Enginetest
open Persistence Protocol
open Lib (Code)

inductive Command where
  | createAccount (accountBalance : ℕ)
  | creditAccount (accountId : String) (balance : ℕ)
  | testNoEvent
  | empty
  deriving DecidableEq, Repr

inductive AccountEvent where
  | accountCreated (accountBalance : ℕ)
  | accountCredited (accountBalance : ℕ)
  | empty
  deriving DecidableEq, Repr

def handleCommand (id : String) : Command → Except Err (List AccountEvent)
  | .createAccount balance => .ok [.accountCreated balance]
  | .creditAccount accountId balance =>
    if accountId = id then .ok [.accountCredited balance]
    else .error (.message "command sent to the wrong entity")
  | .testNoEvent => .ok []
  | .empty => .ok [.empty]

def handleEvent : AccountEvent → ℕ → Except Err ℕ
  | .accountCreated balance, _ => .ok balance
  | .accountCredited balance, prior => .ok (prior + balance)
  | .empty, _ => .error (.message "unhandled event")

def accountBehavior (id : String) : EventSource.Behavior ℕ Command AccountEvent where
  initialState := 0
  handleCommand := fun _ cmd _ => handleCommand id cmd
  handleEnvelope := none
  handleEvent := handleEvent

def encodeNat (n : ℕ) : Bytes := Code.nat.encode n

def invalidWire : Err := .message "proto: cannot parse invalid wire-format data"

/-- As `proto.Unmarshal`, it rejects bytes that are not the encoding of a value. -/
def unmarshal {α : Type} (code : Code α) (bytes : Bytes) : Except Err α :=
  match code.read bytes with
  | some a => .ok a
  | none => .error invalidWire

theorem unmarshal_encode {α : Type} (code : Code α) (a : α) :
    unmarshal code (code.encode a) = .ok a := by
  rw [unmarshal, code.read_encode]

def anyCode : Code Any :=
  (Code.text.prod Code.byte.list).via (fun a => (a.typeUrl, a.value)) (fun x => ⟨x.1, x.2⟩) fun _ => rfl

def newEvent : AccountEvent → Any
  | .accountCreated balance => ⟨"testpb.AccountCreated", encodeNat balance⟩
  | .accountCredited balance => ⟨"testpb.AccountCredited", encodeNat balance⟩
  | .empty => ⟨"google.protobuf.Empty", []⟩

def unmarshalEvent (a : Any) : Except Err AccountEvent :=
  if a.typeUrl = "testpb.AccountCreated" then (unmarshal Code.nat a.value).map .accountCreated
  else if a.typeUrl = "testpb.AccountCredited" then (unmarshal Code.nat a.value).map .accountCredited
  else if a.typeUrl = "google.protobuf.Empty" then
    if a.value = [] then .ok .empty else .error invalidWire
  else .error (.message "unknown type")

theorem unmarshalEvent_newEvent (e : AccountEvent) : unmarshalEvent (newEvent e) = .ok e := by
  cases e <;> simp [unmarshalEvent, newEvent, encodeNat, unmarshal_encode, Except.map]

def unmarshalState (a : Any) : Except Err ℕ :=
  if a.typeUrl = "testpb.Account" then unmarshal Code.nat a.value else .error (.message "unknown type")

def accountCodec : Codec ℕ AccountEvent where
  newEvent := newEvent
  unmarshalEvent := unmarshalEvent
  newState := fun balance => ⟨"testpb.Account", encodeNat balance⟩
  unmarshalState := unmarshalState
  marshalAny := anyCode.encode
  unmarshalAny := unmarshal anyCode
  event_roundtrip := unmarshalEvent_newEvent
  state_roundtrip := fun balance => unmarshal_encode Code.nat balance
  any_roundtrip := unmarshal_encode anyCode

def accountConfig (batchThreshold : ℤ) : EventSource.Config ℕ Command AccountEvent where
  behavior := accountBehavior "account"
  codec := accountCodec
  encryptor := none
  eventAdapters := []
  persistenceID := "account"
  scope := .unscoped
  tenantAware := false
  shardNumber := 0
  batchThreshold := batchThreshold
  snapshotInterval := 0
  snapshotsWriter := false
  retentionPolicy := none

def background : Ctx := ⟨none, none⟩

def expecting (revision : ℕ) : Ctx := ⟨none, some ⟨"op", some revision⟩⟩

def turnAt (now : ℤ) : EventSource.Turn := ⟨now, none, none, 0⟩

def credited (id : String) (sequenceNumber : ℕ) (timestamp : ℤ) : Event :=
  ⟨id, sequenceNumber, false, newEvent (.accountCredited 1), timestamp, 0, "", false, []⟩

end Ego.Enginetest

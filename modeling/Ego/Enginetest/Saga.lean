import Ego.Enginetest.Account
import Ego.Saga.Node

/-! # The saga of the engine's own tests (`internal/engine/enginetest/saga.go`) -/

namespace Ego.Enginetest
open Persistence Saga

abbrev Message := AccountEvent ⊕ ℕ

def newMessage : Message → Any
  | .inl event => newEvent event
  | .inr balance => ⟨"testpb.Account", encodeNat balance⟩

def unmarshalMessage (a : Any) : Except Err Message :=
  if a.typeUrl = "testpb.Account" then (unmarshal Lib.Code.nat a.value).map .inr
  else (unmarshalEvent a).map .inl

theorem unmarshalMessage_newMessage (m : Message) : unmarshalMessage (newMessage m) = .ok m := by
  cases m with
  | inl event =>
    have hurl : (newEvent event).typeUrl ≠ "testpb.Account" := by cases event <;> simp [newEvent]
    simp [unmarshalMessage, newMessage, hurl, unmarshalEvent_newEvent, Except.map]
  | inr balance => simp [unmarshalMessage, newMessage, encodeNat, unmarshal_encode, Except.map]

def sagaCodec : MessageCodec ℕ Message where
  newAny := newMessage
  unmarshalNew := unmarshalMessage
  newState := fun balance => newMessage (.inr balance)
  empty := .inl .empty
  isEmpty := fun m => m == .inl .empty
  isEmpty_empty := rfl
  roundtrip := unmarshalMessage_newMessage

def callbackSaga (onEvent onResult onError : SagaAction Command Message)
    (compensation : List (SagaCommand Command)) : Behavior ℕ Command Message where
  initialState := 0
  handleEvent := fun _ _ _ => .ok (some onEvent)
  handleResult := fun _ _ _ _ => .ok (some onResult)
  handleError := fun _ _ _ _ => .ok (some onError)
  applyEvent := fun _ _ applied => .ok (applied + 1)
  compensate := fun _ _ => .ok compensation

def sagaConfig (behavior : Behavior ℕ Command Message) : Saga.Config ℕ Command Message where
  behavior := behavior
  codec := sagaCodec
  sagaID := "saga"
  scope := .unscoped
  tenantAware := false

def credit (id : String) : SagaCommand Command := ⟨id, .creditAccount id 1, 0, ⟨"", none⟩⟩

def noAction : SagaAction Command Message := ⟨[], [], false, false⟩

def reachable : Surroundings := ⟨fun _ => 0, .store⟩

def acceptedBy (id : String) : Answer :=
  .reply (.stateReply ⟨id, newMessage (.inr 1), 1, 0⟩)

end Ego.Enginetest

import Ego.DurableState.Actor
import Ego.Enginetest.Account

/-!
# The durable-state account of the engine's own tests
(`internal/engine/enginetest/account_durable.go`)
-/

namespace Ego.Enginetest
open Persistence

def handleDurableCommand (id : String) (priorVersion : UInt64) (prior : ℕ) : Command → Except Err (ℕ × UInt64)
  | .createAccount balance => .ok (balance, priorVersion + 1)
  | .creditAccount accountId balance =>
    if accountId = id then .ok (prior + balance, priorVersion + 1)
    else .error (.message "command sent to the wrong entity")
  | _ => .error (.message "unhandled command")

def durableBehavior (id : String) : DurableState.Behavior ℕ Command where
  initialState := 0
  handleCommand := fun _ cmd priorVersion prior => handleDurableCommand id priorVersion prior cmd
  handleEnvelope := none

def durableConfig : DurableState.Config ℕ Command where
  behavior := durableBehavior "account"
  codec :=
    { newState := accountCodec.newState
      unmarshalTo := accountCodec.unmarshalState
      fullName := fun _ => "testpb.Account"
      roundtrip := accountCodec.state_roundtrip }
  persistenceID := "account"
  scope := .unscoped
  tenantAware := false
  shardNumber := 0

def durableTurn (now : ℤ) : DurableState.Turn := ⟨now, none, none⟩

end Ego.Enginetest

import Ego.Persistence.Event

/-! # Commands and replies (`internal/engine/protocol`, `protos/ego/ego.proto`) -/

namespace Ego.Protocol
open Persistence
open Tenancy (TenantContext)

structure CommandMetadata where
  operationID : String
  expectedRevision : Option ℕ
  deriving DecidableEq, Repr

structure Ctx where
  tenant : Option TenantContext
  metadata : Option CommandMetadata
  deriving DecidableEq, Repr

def Ctx.expectedRevision (ctx : Ctx) : Option ℕ := ctx.metadata.bind (·.expectedRevision)

inductive ContextErr where
  | canceled
  | deadlineExceeded
  deriving DecidableEq, Repr

def checkDeadline (ctxErr : Option ContextErr) (stage : String) : Except Err Unit :=
  match ctxErr with
  | none => .ok ()
  | some .canceled => .error (.message ("urd: command context canceled: " ++ stage))
  | some .deadlineExceeded => .error (.message ("urd: command deadline exceeded: " ++ stage))

def zeroTime : ℤ := -6795364578871345152

structure StateReply where
  persistenceId : String
  state : Any
  sequenceNumber : ℕ
  timestamp : ℤ
  deriving DecidableEq, Repr

inductive CommandReply where
  | stateReply (reply : StateReply)
  | errorReply (err : Err)
  deriving DecidableEq, Repr

end Ego.Protocol

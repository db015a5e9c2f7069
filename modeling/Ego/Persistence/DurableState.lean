import Ego.Persistence.Event

/-! # The state record of one entity (`persistence/state_store.go`) -/

namespace Ego.Persistence

structure DurableState where
  persistenceId : String
  versionNumber : UInt64
  resultingState : Option Any
  timestamp : ℤ
  shard : ℕ
  tenantMetadata : Tenancy.Metadata
  deriving DecidableEq, Repr

def storedVersion (record : Option DurableState) : Option ℕ :=
  record.map (·.versionNumber.toNat)

/-- `persistence.StateStore` on one record. The compare and the write are one
step; a store that is out of reach is not part of the contract. -/
structure StateStore where
  writeState : Scope → Option DurableState → DurableState → WritePrecondition → Except Err (Option DurableState)
  getLatestState : Scope → Option DurableState → Except Err (Option DurableState)
  write_ok : ∀ scope old state p new, writeState scope old state p = .ok new ↔
    scope.valid = true ∧ p.Holds (storedVersion old) ∧ new = some state
  latest_ok : ∀ scope record latest, getLatestState scope record = .ok latest ↔ scope.valid = true ∧
    latest = record

end Ego.Persistence

import Ego.Persistence.DurableState

/-!
# The in-memory state store (`testkit/durablestore.go`)
-/

namespace Ego.Testkit.DurableStore
open Persistence

def writeState (scope : Scope) (old : Option DurableState) (state : DurableState)
    (precondition : WritePrecondition) : Except Err (Option DurableState) :=
  let conflict := Except.error (.conflict
    ⟨scope, state.persistenceId, precondition, storedVersion old⟩)
  if !scope.valid then .error errInvalidScope
  else if !precondition.valid then .error errInvalidPrecondition
  else if precondition.isUnconditional then .ok (some state)
  else if precondition.isGenesis then
    match old with
    | some _ => conflict
    | none => .ok (some state)
  else
    match old with
    | none => conflict
    | some current =>
      if precondition = .exactRevision current.versionNumber.toNat then .ok (some state)
      else conflict

def getLatestState (scope : Scope) (record : Option DurableState) : Except Err (Option DurableState) :=
  if !scope.valid then .error errInvalidScope else .ok record

theorem writeState_ok {scope : Scope} {old : Option DurableState} {state : DurableState}
    {p : WritePrecondition} {new : Option DurableState} : writeState scope old state p = .ok new ↔
      scope.valid = true ∧ p.Holds (storedVersion old) ∧ new = some state := by
  cases hs : scope.valid with
  | false => simp [writeState, hs]
  | true =>
    cases p with
    | unspecified =>
      simp [writeState, hs, WritePrecondition.valid, WritePrecondition.Holds]
    | unconditional =>
      simp [writeState, hs, WritePrecondition.valid, WritePrecondition.isUnconditional,
        WritePrecondition.Holds, eq_comm]
    | genesis =>
      cases old <;> simp [writeState, hs, WritePrecondition.valid, WritePrecondition.isUnconditional,
        WritePrecondition.isGenesis, WritePrecondition.Holds, storedVersion, eq_comm]
    | exactRevision r =>
      cases old with
      | none =>
        simp [writeState, hs, WritePrecondition.valid, WritePrecondition.isUnconditional,
          WritePrecondition.isGenesis, WritePrecondition.Holds, storedVersion]
      | some current =>
        by_cases hr : r = current.versionNumber.toNat
        · simp [writeState, hs, WritePrecondition.valid, WritePrecondition.isUnconditional,
            WritePrecondition.isGenesis, WritePrecondition.Holds, storedVersion, hr, eq_comm]
        · simp [writeState, hs, WritePrecondition.valid, WritePrecondition.isUnconditional,
            WritePrecondition.isGenesis, WritePrecondition.Holds, storedVersion, hr, Ne.symm hr]

def stateStore : StateStore where
  writeState := writeState
  getLatestState := getLatestState
  write_ok := fun _ _ _ _ _ => writeState_ok
  latest_ok := by
    intro scope record latest
    unfold getLatestState
    cases hs : scope.valid <;> simp [eq_comm]

end Ego.Testkit.DurableStore

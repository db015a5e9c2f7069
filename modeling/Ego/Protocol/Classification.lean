import Ego.Persistence.ConflictText

/-! # Classification of error replies (`internal/engine/protocol/reply_classification.go`) -/

namespace Ego.Protocol
open Persistence Tenancy

inductive Outcome where
  | success
  | successNoState
  | rejected
  | failed
  | timedOut
  | canceled
  deriving DecidableEq, Repr

inductive Cause where
  | conflict (e : Conflict)
  | contextCanceled
  | contextDeadlineExceeded

structure Failure where
  message : Bytes
  code : Option String
  cause : Option Cause

structure Result (M : Type) where
  metadata : M
  outcome : Outcome
  failure : Option Failure

def codeConcurrencyConflict := "concurrency_conflict"

def newFailure (message : Bytes) (code : Option String) (cause : Option Cause) : Except Err Failure :=
  if message = [] then .error (.message "command: failure message must not be empty") else .ok
    ⟨message, code, cause⟩

section
variable {M : Type} (md : M)

def newRejected (f : Failure) : Result M := ⟨md, .rejected, some f⟩

def newFailed (f : Failure) : Result M := ⟨md, .failed, some f⟩

def newTimedOut (f : Failure) : Result M :=
  ⟨md, .timedOut, some { f with cause := f.cause.or (some .contextDeadlineExceeded) }⟩

def newCanceled (f : Failure) : Result M :=
  ⟨md, .canceled, some { f with cause := f.cause.or (some .contextCanceled) }⟩

def buildCanceledResult (message : Bytes) : Except Err (Result M) :=
  (newFailure message none none).map (newCanceled md)

def buildTimedOutResult (message : Bytes) : Except Err (Result M) :=
  (newFailure message none none).map (newTimedOut md)

def buildConcurrencyConflictResult (q : Strconv) (message : Bytes) : Except Err (Result M) :=
  (newFailure message (some codeConcurrencyConflict) ((parseConflictError q message).map .conflict)).map
  (newRejected md)

def classifierRegistry (q : Strconv) : List (Bytes × (Bytes → Except Err (Result M))) :=
  [(goString "urd: command context canceled", buildCanceledResult md),
    (goString "urd: command deadline exceeded", buildTimedOutResult md),
    (goString "ego: concurrency conflict", buildConcurrencyConflictResult md q)]

def classifyErrorReply (q : Strconv) (message : Bytes) : Except Err (Result M) :=
  match (classifierRegistry md q).find? fun entry => entry.1.isPrefixOf message with
  | some entry => entry.2 message
  | none => (newFailure message none none).map (newFailed md)

def conflictResult (q : Strconv) (e : Conflict) : Result M :=
  newRejected md ⟨e.error q, some codeConcurrencyConflict, some (.conflict e)⟩

theorem classifyErrorReply_error (q : Strconv) (e : Conflict) :
    classifyErrorReply md q (e.error q) = buildConcurrencyConflictResult md q (e.error q) := by
  have hfirst (rest : Bytes) : ((classifierRegistry md q).find? fun entry =>
      entry.1.isPrefixOf (conflictGrammarPrefix ++ rest)) =
        some (goString "ego: concurrency conflict", buildConcurrencyConflictResult md q) := rfl
  unfold classifyErrorReply Conflict.error
  rw [hfirst]

end

/-- The text of a conflict, which is all that an error reply carries, gives the conflict
back, and no other text is read as one. -/
theorem conflict_error_round_trip (q : Strconv) :
    (∀ e : Conflict, Built e.scope → e.expected.val.valid = true → parseConflictError q (e.error q) = some e ∧
        ∀ {M : Type} (md : M), classifyErrorReply md q (e.error q) = .ok (conflictResult md q e)) ∧
    ∀ message e, parseConflictError q message = some e → e.error q = message := by
  refine ⟨fun e hscope hexpected => ⟨parseConflictError_error hscope hexpected, fun md => ?_⟩,
    fun message e => parseConflictError_eq_some⟩
  have htext : e.error q ≠ [] := fun h => by cases h
  rw [classifyErrorReply_error, buildConcurrencyConflictResult, parseConflictError_error hscope hexpected, newFailure,
    if_neg htext]
  rfl

def separators : Conflict :=
  ⟨.tenant "acme", goString "a\", expected=7, actual=8", ⟨.exactRevision 4, (by decide : 4 < 2 ^ 64)⟩, none⟩

theorem conflict_error_round_trip_separators :
    parseConflictError Strconv.escaping (separators.error Strconv.escaping) = some separators :=
  ((conflict_error_round_trip Strconv.escaping).1 separators (.tenant (by decide)) rfl).1

end Ego.Protocol

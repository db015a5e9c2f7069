import Mathlib.Algebra.GroupWithZero.Nat
import Mathlib.Algebra.Ring.Int.Defs
import Mathlib.Tactic.Common

/-!
# Scopes, write preconditions and errors (`persistence/scope.go`, `precondition.go`, `conflict.go`)
-/

namespace Ego.Persistence

abbrev TenantID := String

inductive Scope where
  | unspecified
  | unscoped
  | tenant (id : TenantID)
  deriving DecidableEq, Repr

def Scope.valid : Scope → Bool
  | .unspecified => false
  | _ => true

def Scope.isUnscoped : Scope → Bool
  | .unscoped => true
  | _ => false

/- `persistence/precondition.go:69-72`: the mode and, for an exact-revision
precondition, its revision. -/
inductive WritePrecondition where
  | unspecified
  | unconditional
  | genesis
  | exactRevision (revision : ℕ)
  deriving DecidableEq, Repr

def WritePrecondition.isUnconditional : WritePrecondition → Bool
  | .unconditional => true
  | _ => false

def WritePrecondition.isGenesis : WritePrecondition → Bool
  | .genesis => true
  | _ => false

def WritePrecondition.valid : WritePrecondition → Bool
  | .unspecified => false
  | _ => true

/- `actualRevision` is present only when the store read it at the failed
compare (`WithActualRevision`). -/
structure ConflictError where
  scope : Scope
  persistenceID : String
  expected : WritePrecondition
  actualRevision : Option ℕ
  deriving DecidableEq, Repr

/-- An error value. `errors.As` distinguishes a conflict from every other
error; of the others only the text is ever read. -/
inductive Err where
  | conflict (e : ConflictError)
  | message (text : String)
  deriving DecidableEq, Repr

def Err.wrap (text : String) : Err → Err
  | .conflict e => .conflict e
  | .message m => .message (text ++ ": " ++ m)

def errInvalidScope : Err := .message "persistence: scope is not valid"
def errInvalidPrecondition : Err := .message "persistence: write precondition is not valid"
def errPreconditionScope : Err :=
  .message "persistence: conditional write spans multiple persistence ids"

/-- `PreconditionFromRevision` (`internal/engine/protocol/expected_revision.go:51-59`);
`none` is `hasRevision == false`. -/
def preconditionFromRevision : Option ℕ → WritePrecondition
  | none => .unconditional
  | some 0 => .genesis
  | some (n + 1) => .exactRevision (n + 1)

/-- What a precondition asks of a record: `none` is a record that was never
written, `some r` one whose stored revision is `r`. -/
def WritePrecondition.Holds : WritePrecondition → Option ℕ → Prop
  | .unspecified, _ => False
  | .unconditional, _ => True
  | .genesis, r => r = none
  | .exactRevision n, r => r = some n

instance : (p : WritePrecondition) → (r : Option ℕ) → Decidable (p.Holds r)
  | .unspecified, _ => inferInstanceAs (Decidable False)
  | .unconditional, _ => inferInstanceAs (Decidable True)
  | .genesis, r => inferInstanceAs (Decidable (r = none))
  | .exactRevision n, r => inferInstanceAs (Decidable (r = some n))

theorem preconditionFromRevision_isUnconditional (r : Option ℕ) :
    (preconditionFromRevision r).isUnconditional = r.isNone := by
  cases r with
  | none => rfl
  | some n => cases n <;> rfl

end Ego.Persistence

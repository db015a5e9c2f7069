import Ego.Tenancy.Context

/-!
# The tenant column (`persistence/postgres/event_store.go:49-57`)
-/

namespace Ego.Postgres
open Persistence Tenancy

def scopeKey (scope : Scope) : Except Err String :=
  if !scope.valid then .error errInvalidScope
  else
    match scope with
    | .tenant id => .ok id
    | _ => .ok ""

theorem scopeKey_injective {scope scope' : Scope} (h : Built scope) (h' : Built scope')
    (heq : scopeKey scope = scopeKey scope') : scope = scope' := by
  have hnonempty {id : TenantID} (hid : newTenantID id = .ok id) : id ≠ "" := by
    rintro rfl
    simp [newTenantID] at hid
  cases h with
  | unscoped =>
    cases h' with
    | unscoped => rfl
    | tenant hid' => exact absurd (Except.ok.inj heq).symm (hnonempty hid')
  | tenant hid =>
    cases h' with
    | unscoped => exact absurd (Except.ok.inj heq) (hnonempty hid)
    | tenant hid' => exact congrArg Scope.tenant (Except.ok.inj heq)

end Ego.Postgres

import Ego.Persistence.Precondition

/-!
# Tenant identity (`tenancy/tenant_id.go`, `tenant_context.go`, `context.go`, `metadata.go`)
-/

namespace Ego.Tenancy
open Persistence

inductive TenantContext where
  | unset
  | tenant (id : TenantID)
  | administrative (actor reason : String) (correlationID : Option String)
  deriving DecidableEq, Repr

def TenantContext.valid : TenantContext → Bool
  | .unset => false
  | _ => true

def require : Option TenantContext → Except Err TenantContext
  | none => .error (.message "tenancy: no tenant identity attached to context")
  | some tc =>
    if tc.valid then .ok tc
    else .error (.message "tenancy: tenant identity attached to context is invalid")

def verifyUnchanged (bound incoming : TenantContext) : Except Err Unit :=
  if bound = incoming then .ok ()
  else .error (.message "tenancy: tenant identity changed across a boundary")

/-- The gate in front of every handler and every read: a tenant-aware actor that
is bound to a tenant serves no other one. -/
def gate (tenantAware : Bool) (bound : TenantContext) (attached : Option TenantContext) : Except Err TenantContext :=
  if tenantAware then
    match require attached with
    | .error err => .error err
    | .ok tc => if bound = .unset then .ok tc else (verifyUnchanged bound tc).map fun _ => tc
  else .ok .unset

def ofScope : Bool → Scope → TenantContext
  | true, .tenant id => .tenant id
  | _, _ => .unset

def isSpace (c : Char) : Bool :=
  let n := c.toNat
  (9 ≤ n && n ≤ 13) || n == 0x20 || n == 0x85 || n == 0xA0 || n == 0x1680 ||
    (0x2000 ≤ n && n ≤ 0x200A) || n == 0x2028 || n == 0x2029 || n == 0x202F ||
    n == 0x205F || n == 0x3000

def isControl (c : Char) : Bool :=
  let n := c.toNat
  n < 0x20 || (0x7F ≤ n && n ≤ 0x9F)

/- `strings.TrimSpace(s) != s` holds exactly when the first or the last
character of `s` is a space. -/
def hasSurroundingSpace (s : String) : Bool :=
  (s.toList.head?.any isSpace) || (s.toList.getLast?.any isSpace)

def maxTenantIDBytes : ℕ := 128

/-- A Lean string is valid UTF-8, so that check has no failing case. -/
def newTenantID (s : String) : Except Err TenantID :=
  if s = "" then .error (.message "tenancy: tenant id must not be empty")
  else if s.utf8ByteSize > maxTenantIDBytes then
    .error (.message "tenancy: tenant id exceeds 128 bytes")
  else if hasSurroundingSpace s then
    .error (.message "tenancy: tenant id must not have leading or trailing whitespace")
  else if s.toList.any isControl then
    .error (.message "tenancy: tenant id must not contain control characters")
  else .ok s

inductive Built : Scope → Prop
  | unscoped : Built .unscoped
  | tenant {id : TenantID} : newTenantID id = .ok id → Built (.tenant id)

def isBlank (s : String) : Bool := s.toList.all isSpace

def newAdministrative (actor reason : String) (correlationID : Option String) : Except Err TenantContext :=
  if isBlank actor then .error (.message "tenancy: administrative actor must not be empty")
  else if isBlank reason then .error (.message "tenancy: administrative reason must not be empty")
  else .ok (.administrative actor reason correlationID)

abbrev Metadata := List (String × String)

def metaKeyScope := "ego.tenant.scope"
def metaKeyID := "ego.tenant.id"
def metaKeyAdminActor := "ego.tenant.admin_actor"
def metaKeyAdminReason := "ego.tenant.admin_reason"
def metaKeyAdminCorrelation := "ego.tenant.admin_correlation_id"

def marshalMetadata : TenantContext → Metadata
  | .unset => []
  | .tenant id => [(metaKeyScope, "tenant"), (metaKeyID, id)]
  | .administrative actor reason correlationID =>
    [(metaKeyScope, "administrative"), (metaKeyAdminActor, actor), (metaKeyAdminReason, reason)] ++
      (correlationID.map fun c => (metaKeyAdminCorrelation, c)).toList

def Metadata.get (md : Metadata) (key : String) : String := (md.lookup key).getD ""

def unmarshalMetadata (md : Metadata) : Except Err TenantContext :=
  if Metadata.get md metaKeyScope = "tenant" then
    (newTenantID (Metadata.get md metaKeyID)).map .tenant
  else if Metadata.get md metaKeyScope = "administrative" then
    let correlationID := Metadata.get md metaKeyAdminCorrelation
    newAdministrative (Metadata.get md metaKeyAdminActor) (Metadata.get md metaKeyAdminReason)
      (if correlationID = "" then none else some correlationID)
  else .error (.message "tenancy: metadata missing or unrecognized tenant scope")

theorem newTenantID_ok {s id : String} (h : newTenantID s = .ok id) : id = s := by
  unfold newTenantID at h
  split at h
  · simp at h
  split at h
  · simp at h
  split at h
  · simp at h
  split at h
  · simp at h
  · exact (Except.ok.inj h).symm

theorem newAdministrative_ok {actor reason : String} {correlationID : Option String} {tc : TenantContext}
    (h : newAdministrative actor reason correlationID = .ok tc) : tc = .administrative actor reason correlationID := by
  unfold newAdministrative at h
  split at h
  · simp at h
  split at h
  · simp at h
  · exact (Except.ok.inj h).symm

theorem unmarshalMetadata_marshalMetadata {md : Metadata} {tc : TenantContext} (h : unmarshalMetadata md = .ok tc) :
    tc.valid = true ∧ unmarshalMetadata (marshalMetadata tc) = .ok tc := by
  unfold unmarshalMetadata at h
  split at h
  · cases hid : newTenantID (Metadata.get md metaKeyID) with
    | error err => simp [hid, Except.map] at h
    | ok id =>
      obtain rfl := newTenantID_ok hid
      rw [hid] at h
      obtain rfl := Except.ok.inj h
      refine ⟨rfl, ?_⟩
      have hscope (id : String) : Metadata.get (marshalMetadata (.tenant id)) metaKeyScope = "tenant" := rfl
      have hget (id : String) : Metadata.get (marshalMetadata (.tenant id)) metaKeyID = id := rfl
      rw [unmarshalMetadata, hscope, hget, if_pos rfl, hid]
      rfl
  · split at h
    · dsimp only at h
      have htc := newAdministrative_ok h
      generalize hcorr : (if Metadata.get md metaKeyAdminCorrelation = "" then none
        else some (Metadata.get md metaKeyAdminCorrelation)) = correlationID at h htc
      have hne : correlationID ≠ some "" := by
        rintro rfl
        split at hcorr
        · simp at hcorr
        · rename_i hempty
          exact hempty (Option.some.inj hcorr)
      subst htc
      refine ⟨rfl, ?_⟩
      cases correlationID with
      | none => exact h
      | some c =>
        have hc : c ≠ "" := fun hc => hne (congrArg some hc)
        have hget (actor reason : String) :
            Metadata.get (marshalMetadata (.administrative actor reason (some c))) metaKeyAdminCorrelation = c := rfl
        have hscope (actor reason : String) :
            Metadata.get (marshalMetadata (.administrative actor reason (some c))) metaKeyScope =
              "administrative" := rfl
        rw [unmarshalMetadata, hscope, if_neg (by decide), if_pos rfl, hget]
        dsimp only
        rw [if_neg hc]
        exact h
    · simp at h

theorem unmarshalMetadata_tenant {id : TenantID} (h : newTenantID id = .ok id) :
    unmarshalMetadata (marshalMetadata (.tenant id)) = .ok (.tenant id) := by
  have hscope : Metadata.get (marshalMetadata (.tenant id)) metaKeyScope = "tenant" := rfl
  have hid : Metadata.get (marshalMetadata (.tenant id)) metaKeyID = id := rfl
  rw [unmarshalMetadata, hscope, hid, if_pos rfl, h]
  rfl

end Ego.Tenancy

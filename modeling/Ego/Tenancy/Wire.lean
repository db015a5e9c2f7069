import Ego.Lib.Except
import Ego.Lib.Maps
import Ego.Persistence.ConflictText

/-!
# Tenant identity in a string map (`tenancy/tenant_id.go`, `tenant_context.go`, `metadata.go`)
-/

namespace Ego.Tenancy.Wire
open Persistence (Bytes goString)
open Lib.Maps

abbrev StringMap := Map Bytes Bytes

def decode (s : Bytes) : Option String := String.fromUTF8? ⟨s.toArray⟩

theorem decode_goString (s : String) : decode (goString s) = some s := by
  exact dif_pos s.isValidUTF8

inductive Defect where
  | empty
  | notUTF8
  | tooLong
  | surroundingSpace
  | control
  deriving DecidableEq, Repr

def defect (maxBytes : ℕ) (s : Bytes) : Option Defect :=
  if s = [] then some .empty
  else
    match decode s with
    | none => some .notUTF8
    | some text =>
      if maxBytes < s.length then some .tooLong
      else if hasSurroundingSpace text then some .surroundingSpace
      else if text.toList.any isControl then some .control
      else none

inductive Error where
  | invalid (message : String)
  | denied (message : String)
  deriving DecidableEq, Repr

def tenantIDMessage : Defect → String
  | .empty => "tenancy: tenant id must not be empty"
  | .notUTF8 => "tenancy: tenant id must be valid UTF-8"
  | .tooLong => "tenancy: tenant id exceeds 128 bytes"
  | .surroundingSpace => "tenancy: tenant id must not have leading or trailing whitespace"
  | .control => "tenancy: tenant id must not contain control characters"

def newTenantID (s : Bytes) : Except Error Bytes :=
  match defect maxTenantIDBytes s with
  | none => .ok s
  | some d => .error (.invalid (tenantIDMessage d))

structure Administrative where
  actor : Bytes
  reason : Bytes
  correlationID : Option Bytes
  deriving DecidableEq

def blank (s : Bytes) : Bool := (decode s).any isBlank

def newAdministrative (actor reason : Bytes) : Except Error Administrative :=
  if blank actor then .error (.invalid "tenancy: administrative actor must not be empty")
  else if blank reason then .error (.invalid "tenancy: administrative reason must not be empty")
  else .ok ⟨actor, reason, none⟩

def Administrative.withCorrelationID (a : Administrative) (id : Bytes) : Administrative :=
  { a with correlationID := if id = [] then none else some id }

inductive TenantContext where
  | unset
  | tenant (id : Bytes)
  | administrative (a : Administrative)
  deriving DecidableEq

inductive Built : TenantContext → Prop
  | tenant {s id : Bytes} : newTenantID s = .ok id → Built (.tenant id)
  | administrative {actor reason : Bytes} {a : Administrative} :
      newAdministrative actor reason = .ok a → Built (.administrative a)
  | correlated {a : Administrative} (id : Bytes) :
      Built (.administrative a) → Built (.administrative (a.withCorrelationID id))

def verifyUnchanged (bound incoming : TenantContext) : Except Error Unit :=
  if bound = incoming then .ok () else .error (.denied "tenancy: tenant identity changed across a boundary")

def metaKeyScope := goString "ego.tenant.scope"
def metaKeyID := goString "ego.tenant.id"
def metaKeyAdminActor := goString "ego.tenant.admin_actor"
def metaKeyAdminReason := goString "ego.tenant.admin_reason"
def metaKeyAdminCorrelation := goString "ego.tenant.admin_correlation_id"
def metaScopeValueTenant := goString "tenant"
def metaScopeValueAdmin := goString "administrative"

def fields : TenantContext → List (Bytes × Option Bytes)
  | .unset => []
  | .tenant id => [(metaKeyScope, some metaScopeValueTenant), (metaKeyID, some id)]
  | .administrative a =>
    [(metaKeyScope, some metaScopeValueAdmin), (metaKeyAdminActor, some a.actor), (metaKeyAdminReason, some a.reason),
      (metaKeyAdminCorrelation, a.correlationID)]

def marshalMetadata (tc : TenantContext) : StringMap := putAll (fields tc) ∅

def get (md : StringMap) (key : Bytes) : Bytes := (md.lookup key).getD []

def unmarshalMetadata (md : StringMap) : Except Error TenantContext :=
  if get md metaKeyScope = metaScopeValueTenant then (newTenantID (get md metaKeyID)).map .tenant
  else if get md metaKeyScope = metaScopeValueAdmin then
    (newAdministrative (get md metaKeyAdminActor) (get md metaKeyAdminReason)).map fun a =>
      .administrative (a.withCorrelationID (get md metaKeyAdminCorrelation))
  else .error (.invalid "tenancy: metadata missing or unrecognized tenant scope")

theorem newTenantID_ok {s id : Bytes} (h : newTenantID s = .ok id) : id = s := by
  unfold newTenantID at h
  split at h
  · exact (Except.ok.inj h).symm
  · cases h

theorem newTenantID_goString {s : String} :
    newTenantID (goString s) = .ok (goString s) ↔ Tenancy.newTenantID s = .ok s := by
  have hnil : goString s = [] ↔ s = "" := by
    constructor
    · intro h
      have hdecode := decode_goString s
      rw [h] at hdecode
      exact (Option.some.inj hdecode).symm
    · rintro rfl
      rfl
  have hlength : (goString s).length = s.utf8ByteSize := rfl
  unfold newTenantID Tenancy.newTenantID defect
  simp only [hnil, decode_goString, hlength]
  by_cases hempty : s = ""
  · simp [hempty]
  by_cases hlong : maxTenantIDBytes < s.utf8ByteSize
  · simp [hempty, hlong]
  by_cases hspace : hasSurroundingSpace s = true
  · simp [hempty, hlong, hspace]
  by_cases hcontrol : s.toList.any isControl = true
  · simp only [hempty, hlong, hspace, hcontrol, if_true, if_false, reduceCtorEq]
  · simp only [hempty, hlong, hspace, hcontrol, if_false, Bool.false_eq_true]

theorem newAdministrative_ok {actor reason : Bytes} {a : Administrative} (h : newAdministrative actor reason = .ok a) :
    a = ⟨actor, reason, none⟩ := by
  unfold newAdministrative at h
  split at h
  · cases h
  · split at h
    · cases h
    · exact (Except.ok.inj h).symm

theorem Built.remade {a : Administrative} (h : Built (.administrative a)) :
    newAdministrative a.actor a.reason = .ok ⟨a.actor, a.reason, none⟩ ∧ a.correlationID ≠ some [] := by
  generalize htc : TenantContext.administrative a = tc at h
  induction h generalizing a with
  | tenant _ => cases htc
  | administrative hnew =>
    obtain rfl := TenantContext.administrative.inj htc
    obtain rfl := newAdministrative_ok hnew
    exact ⟨hnew, fun h => by cases h⟩
  | correlated id _ ih =>
    obtain rfl := TenantContext.administrative.inj htc
    refine ⟨(ih rfl).1, fun hid => ?_⟩
    change (if id = [] then none else some id) = some [] at hid
    split at hid
    · cases hid
    · rename_i hne
      exact hne (Option.some.inj hid)

theorem fields_nodup (tc : TenantContext) : ((fields tc).map Prod.fst).Nodup := by
  cases tc with
  | unset => exact List.nodup_nil
  | tenant id =>
    change [metaKeyScope, metaKeyID].Nodup
    decide
  | administrative a =>
    change [metaKeyScope, metaKeyAdminActor, metaKeyAdminReason, metaKeyAdminCorrelation].Nodup
    decide

theorem lookup_marshalMetadata {tc : TenantContext} {key : Bytes} {value : Option Bytes}
    (h : (key, value) ∈ fields tc) :
    (marshalMetadata tc).lookup key = value := lookup_putAll (fields_nodup tc) h rfl

theorem unmarshalMetadata_marshalMetadata {tc : TenantContext} (h : Built tc) {md : StringMap}
    (hmd : ∀ key, md.lookup key = (marshalMetadata tc).lookup key) : unmarshalMetadata md = .ok tc := by
  have hget {key : Bytes} {value : Option Bytes} (hmem : (key, value) ∈ fields tc) : get md key = value.getD [] := by
    rw [get, hmd, lookup_marshalMetadata hmem]
  unfold unmarshalMetadata
  cases tc with
  | unset => cases h
  | tenant id =>
    have hid : newTenantID id = .ok id := by
      cases h with
      | tenant hid =>
        obtain rfl := newTenantID_ok hid
        exact hid
    have hscope : get md metaKeyScope = metaScopeValueTenant := hget (List.mem_cons_self ..)
    have hvalue : get md metaKeyID = id := hget (List.mem_cons_of_mem _ (List.mem_cons_self ..))
    rw [hscope, if_pos rfl, hvalue, hid]
    rfl
  | administrative a =>
    obtain ⟨hnew, hcorrelation⟩ := h.remade
    have hscope : get md metaKeyScope = metaScopeValueAdmin := hget (List.mem_cons_self ..)
    have hactor : get md metaKeyAdminActor = a.actor := hget (List.mem_cons_of_mem _ (List.mem_cons_self ..))
    have hreason : get md metaKeyAdminReason = a.reason :=
      hget (List.mem_cons_of_mem _ (List.mem_cons_of_mem _ (List.mem_cons_self ..)))
    have hid : get md metaKeyAdminCorrelation = a.correlationID.getD [] :=
      hget (List.mem_cons_of_mem _ (List.mem_cons_of_mem _ (List.mem_cons_of_mem _ (List.mem_cons_self ..))))
    rw [hscope, if_neg (by decide), if_pos rfl, hactor, hreason, hid, hnew]
    obtain ⟨actor, reason, correlationID⟩ := a
    cases correlationID with
    | none => rfl
    | some id =>
      have hne : id ≠ [] := fun h => hcorrelation (congrArg some h)
      simp only [Except.map, Administrative.withCorrelationID, Option.getD_some, if_neg hne]

theorem built_of_unmarshalMetadata {md : StringMap} {tc : TenantContext} (h : unmarshalMetadata md = .ok tc) :
    Built tc := by
  unfold unmarshalMetadata at h
  split at h
  · obtain ⟨id, hid, rfl⟩ := Lib.map_eq_ok.mp h
    exact .tenant hid
  · split at h
    · obtain ⟨a, ha, rfl⟩ := Lib.map_eq_ok.mp h
      exact .correlated _ (.administrative ha)
    · cases h

end Ego.Tenancy.Wire

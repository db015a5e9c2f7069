import Ego.Command.Metadata
import Ego.Enginetest.Clock

/-!
# Metadata in a carrier (`command/carrier.go`)

Canonical fields, the tenant's fields and custom pairs share one flat map.
-/

namespace Ego.Command
open Persistence (Bytes goString)
open Tenancy.Wire (StringMap TenantContext)
open Lib.Text (formatUint parseUint64 parseUint64_formatUint)
open Lib.Maps

abbrev Carrier := StringMap

def carrierKeyOperationID := goString "ego.cmd.operation_id"
def carrierKeyCorrelationID := goString "ego.cmd.correlation_id"
def carrierKeyCausationID := goString "ego.cmd.causation_id"
def carrierKeyTimestamp := goString "ego.cmd.timestamp"
def carrierKeyDeadline := goString "ego.cmd.deadline"
def carrierKeyPrincipalID := goString "ego.cmd.principal_id"
def carrierKeyPrincipalKind := goString "ego.cmd.principal_kind"
def carrierKeyExpectedRevision := goString "ego.cmd.expected_revision"

def carrierCmdPrefix := goString "ego.cmd."
def carrierTenantPrefix := goString "ego.tenant."

def tenantSubset (c : Carrier) : StringMap := filter (fun key => carrierTenantPrefix <+: key) c

def isCustom (key : Bytes) : Bool := ¬ (carrierCmdPrefix <+: key ∨ carrierTenantPrefix <+: key)

section
variable (tp : TimePackage)

def canonicalFields (m : Metadata tp.Time) : List (Bytes × Option Bytes) :=
  [(carrierKeyOperationID, some m.operationID), (carrierKeyCorrelationID, some m.correlationID),
    (carrierKeyTimestamp, some (tp.format m.timestamp)), (carrierKeyCausationID, m.causationID),
    (carrierKeyDeadline, m.deadline.map tp.format),
    (carrierKeyExpectedRevision, m.expectedRevision.map fun revision => formatUint revision.val),
    (carrierKeyPrincipalID, m.principal.map fun p => p.id), (carrierKeyPrincipalKind, m.principal.bind fun p => p.kind)]

def marshalTenant (tenant : Option TenantContext) : StringMap := tenant.elim ∅ Tenancy.Wire.marshalMetadata

def marshalMetadata (m : Metadata tp.Time) : Carrier :=
  m.custom ∪ (marshalTenant m.tenant ∪ putAll (canonicalFields tp m) ∅)

def required (c : Carrier) (key : Bytes) (message : String) : Except Error Bytes :=
  match c.lookup key with
  | some value => .ok value
  | none => .error (.command .invalidMetadata message)

def parseTime (raw : Bytes) (message : String) : Except Error tp.Time :=
  match tp.parse raw with
  | some t => .ok t
  | none => .error (.command .invalidMetadata message)

def timestampOf (c : Carrier) : Except Error tp.Time := do
  let raw ← required c carrierKeyTimestamp "command: carrier missing timestamp"
  parseTime tp raw "command: carrier timestamp is not a valid RFC3339 timestamp"

def deadlineOf (c : Carrier) : Except Error (Option tp.Time) :=
  match c.lookup carrierKeyDeadline with
  | none => .ok none
  | some raw => (parseTime tp raw "command: carrier deadline is not a valid RFC3339 timestamp").map some

def revisionOf (c : Carrier) : Except Error (Option (Fin (2 ^ 64))) :=
  match c.lookup carrierKeyExpectedRevision with
  | none => .ok none
  | some raw =>
    match parseUint64 raw with
    | some revision => .ok (some revision)
    | none => .error (.command .invalidMetadata "command: carrier expected revision is not a valid unsigned integer")

def principalOf (c : Carrier) : Except Error (Option Principal) :=
  match c.lookup carrierKeyPrincipalID with
  | none => .ok none
  | some id => (newPrincipal id (c.lookup carrierKeyPrincipalKind)).map some

def tenantOf (c : Carrier) : Except Error (Option TenantContext) :=
  if (tenantSubset c).entries = [] then .ok none
  else ((Tenancy.Wire.unmarshalMetadata (tenantSubset c)).mapError .tenancy).map some

def carriedOptions (c : Carrier) (correlationID : Bytes) (timestamp : tp.Time) (deadline : Option tp.Time)
    (revision : Option (Fin (2 ^ 64))) (principal : Option Principal) (tenant : Option TenantContext) :
    List (MetadataOption tp.Time) :=
  .withCorrelationID correlationID :: .withTimestamp timestamp :: (deadline.toList.map .withDeadline ++
    (revision.toList.map .withExpectedRevision ++ (principal.toList.map .withPrincipal ++
      (tenant.toList.map .withTenant ++ (filter isCustom c).entries.map fun e => .withCustom e.1 e.2))))

def unmarshalMetadata (now : tp.Time) (c : Carrier) : Except Error (Metadata tp.Time) := do
  let opID ← required c carrierKeyOperationID "command: carrier missing operation id"
  let op ← newOperationID opID
  let correlationID ← required c carrierKeyCorrelationID "command: carrier missing correlation id"
  let timestamp ← timestampOf tp c
  let deadline ← deadlineOf tp c
  let revision ← revisionOf c
  let principal ← principalOf c
  let tenant ← tenantOf c
  let m ← newMetadata now op (carriedOptions tp c correlationID timestamp deadline revision principal tenant)
  .ok { m with causationID := (c.lookup carrierKeyCausationID).or m.causationID }

structure Metadata.Covered (m : Metadata tp.Time) : Prop where
  timestamp : tp.Covered m.timestamp
  deadline : ∀ t ∈ m.deadline, tp.Covered t

structure Metadata.Same (m m' : Metadata tp.Time) : Prop where
  operationID : m.operationID = m'.operationID
  correlationID : m.correlationID = m'.correlationID
  causationID : m.causationID = m'.causationID
  tenant : m.tenant = m'.tenant
  principal : m.principal = m'.principal
  custom : ∀ key, m.custom.lookup key = m'.custom.lookup key
  timestamp : tp.instant m.timestamp = tp.instant m'.timestamp
  deadline : m.deadline.map tp.instant = m'.deadline.map tp.instant
  expectedRevision : m.expectedRevision = m'.expectedRevision

end

def canonicalKeys : List Bytes :=
  [carrierKeyOperationID, carrierKeyCorrelationID, carrierKeyTimestamp, carrierKeyCausationID, carrierKeyDeadline,
    carrierKeyExpectedRevision, carrierKeyPrincipalID, carrierKeyPrincipalKind]

theorem canonicalKeys_nodup : canonicalKeys.Nodup := by decide

theorem cmd_of_canonical : ∀ key ∈ canonicalKeys, carrierCmdPrefix <+: key := by decide

theorem tenant_of_fields (tc : TenantContext) :
    ∀ key ∈ (Tenancy.Wire.fields tc).map Prod.fst, carrierTenantPrefix <+: key := by
  cases tc with
  | unset => simp [Tenancy.Wire.fields]
  | tenant id =>
    change ∀ key ∈ [Tenancy.Wire.metaKeyScope, Tenancy.Wire.metaKeyID], carrierTenantPrefix <+: key
    decide
  | administrative a =>
    change ∀ key ∈ [Tenancy.Wire.metaKeyScope, Tenancy.Wire.metaKeyAdminActor, Tenancy.Wire.metaKeyAdminReason,
      Tenancy.Wire.metaKeyAdminCorrelation], carrierTenantPrefix <+: key
    decide

variable {key : Bytes}

theorem not_tenant_of_cmd (h : carrierCmdPrefix <+: key) : ¬ carrierTenantPrefix <+: key := by
  intro ht
  have hle : carrierCmdPrefix <+: carrierTenantPrefix := List.prefix_of_prefix_length_le h ht (by decide)
  exact absurd hle (by decide)

theorem lookup_marshalTenant_of_not_tenant (h : ¬ carrierTenantPrefix <+: key)
    (tenant : Option TenantContext) : (marshalTenant tenant).lookup key = none := by
  cases tenant with
  | none => rfl
  | some tc => exact lookup_putAll_of_notMem (fun hmem => h (tenant_of_fields tc key hmem)) ∅

theorem validateCustomKey_ok (h : validateCustomKey key = .ok ()) : ¬ reservedCustomPrefix <+: key := by
  unfold validateCustomKey at h
  split at h
  · cases h
  · assumption

section
variable {tp : TimePackage} {m : Metadata tp.Time}

theorem Metadata.Sound.lookup_custom_of_reserved (hm : m.Sound) (h : reservedCustomPrefix <+: key) :
    m.custom.lookup key = none := by
  cases hlookup : m.custom.lookup key with
  | none => rfl
  | some value => exact absurd h (validateCustomKey_ok (hm.custom key value hlookup).1)

theorem canonicalFields_nodup : ((canonicalFields tp m).map Prod.fst).Nodup := canonicalKeys_nodup

theorem lookup_canonicalFields_of_not_cmd (h : ¬ carrierCmdPrefix <+: key) :
    (putAll (canonicalFields tp m) ∅).lookup key = none :=
  lookup_putAll_of_notMem (fun hmem => h (cmd_of_canonical key hmem)) ∅

theorem lookup_canonical (hm : m.Sound) {value : Option Bytes} (h : (key, value) ∈ canonicalFields tp m) :
    (marshalMetadata tp m).lookup key = value := by
  have hcmd : carrierCmdPrefix <+: key := cmd_of_canonical key (List.mem_map_of_mem (f := Prod.fst) h)
  have hreserved : reservedCustomPrefix <+: key := List.IsPrefix.trans (by decide) hcmd
  have hvalue : (putAll (canonicalFields tp m) ∅).lookup key = value := lookup_putAll canonicalFields_nodup h rfl
  rw [marshalMetadata, lookup_union, lookup_union, hm.lookup_custom_of_reserved hreserved,
    lookup_marshalTenant_of_not_tenant (not_tenant_of_cmd hcmd), hvalue]
  rfl

theorem lookup_tenant (hm : m.Sound) (h : carrierTenantPrefix <+: key) :
    (marshalMetadata tp m).lookup key = (marshalTenant m.tenant).lookup key := by
  have hreserved : reservedCustomPrefix <+: key := List.IsPrefix.trans (by decide) h
  rw [marshalMetadata, lookup_union, lookup_union, hm.lookup_custom_of_reserved hreserved,
    lookup_canonicalFields_of_not_cmd fun hcmd => not_tenant_of_cmd hcmd h]
  exact Option.or_none

theorem lookup_custom (hcmd : ¬ carrierCmdPrefix <+: key) (htenant : ¬ carrierTenantPrefix <+: key) :
    (marshalMetadata tp m).lookup key = m.custom.lookup key := by
  rw [marshalMetadata, lookup_union, lookup_union, lookup_marshalTenant_of_not_tenant htenant,
    lookup_canonicalFields_of_not_cmd hcmd]
  exact Option.or_none

end

section
variable {tp : TimePackage}

variable {m : Metadata tp.Time}

theorem lookup_filter_isCustom (c : Carrier) (hm : m.Sound)
    (hc : ∀ key, c.lookup key = (marshalMetadata tp m).lookup key) (key : Bytes) :
    (filter isCustom c).lookup key = m.custom.lookup key := by
  rw [lookup_filter, hc]
  split
  · rename_i h
    obtain ⟨hcmd, htenant⟩ : ¬ carrierCmdPrefix <+: key ∧ ¬ carrierTenantPrefix <+: key := by
      simpa [isCustom] using h
    exact lookup_custom hcmd htenant
  · rename_i h
    have hreserved : reservedCustomPrefix <+: key := by
      by_cases hcmd : carrierCmdPrefix <+: key
      · exact List.IsPrefix.trans (by decide) hcmd
      · have htenant : carrierTenantPrefix <+: key := by simpa [isCustom, hcmd] using h
        exact List.IsPrefix.trans (by decide) htenant
    exact (hm.lookup_custom_of_reserved hreserved).symm

theorem applyAll_withCustom {entries : List (Sigma fun _ : Bytes => Bytes)}
    (h : ∀ e ∈ entries, validateCustomKey e.1 = .ok () ∧ validateCustomValue e.2 = .ok ())
    (m : Metadata tp.Time) :
    applyAll m (entries.map fun e => .withCustom e.1 e.2) = .ok { m with custom := insertAll entries m.custom } := by
  induction entries generalizing m with
  | nil => rfl
  | cons e entries ih =>
    obtain ⟨⟨hkey, hvalue⟩, hrest⟩ := List.forall_mem_cons.mp h
    have happly : (MetadataOption.withCustom e.1 e.2).apply m = .ok { m with custom := m.custom.insert e.1 e.2 } := by
      rw [MetadataOption.apply, hkey, hvalue]
      rfl
    rw [List.map_cons, applyAll, happly]
    exact ih hrest _

theorem applyAll_withDeadline (m : Metadata tp.Time) (deadline : Option tp.Time)
    (opts : List (MetadataOption tp.Time)) :
    applyAll m (deadline.toList.map .withDeadline ++ opts) =
      applyAll { m with deadline := deadline.or m.deadline } opts := by
  cases deadline with
  | none => rfl
  | some t => rfl

theorem applyAll_withExpectedRevision (m : Metadata tp.Time) (revision : Option (Fin (2 ^ 64)))
    (opts : List (MetadataOption tp.Time)) : applyAll m (revision.toList.map .withExpectedRevision ++ opts) =
      applyAll { m with expectedRevision := revision.or m.expectedRevision } opts := by
  cases revision with
  | none => rfl
  | some n => rfl

theorem applyAll_withPrincipal (m : Metadata tp.Time) (principal : Option Principal)
    (opts : List (MetadataOption tp.Time)) : applyAll m (principal.toList.map .withPrincipal ++ opts) =
      applyAll { m with principal := principal.or m.principal } opts := by
  cases principal with
  | none => rfl
  | some p => rfl

theorem applyAll_withTenant (m : Metadata tp.Time) (tenant : Option TenantContext)
    (opts : List (MetadataOption tp.Time)) : applyAll m (tenant.toList.map .withTenant ++ opts) =
      applyAll { m with tenant := tenant.or m.tenant } opts := by
  cases tenant with
  | none => rfl
  | some tc => rfl

variable {c : Carrier}

theorem newMetadata_carriedOptions (h : ∀ key, ∀ value ∈ (filter isCustom c).lookup key,
      validateCustomKey key = .ok () ∧ validateCustomValue value = .ok ()) (now : tp.Time) (op correlationID : Bytes)
    (timestamp : tp.Time) (deadline : Option tp.Time) (revision : Option (Fin (2 ^ 64))) (principal : Option Principal)
    (tenant : Option TenantContext) :
    newMetadata now op (carriedOptions tp c correlationID timestamp deadline revision principal tenant) =
      .ok ⟨op, correlationID, none, tenant, principal, insertAll (filter isCustom c).entries ∅, timestamp, deadline,
        revision⟩ := by
  change applyAll ⟨op, correlationID, none, none, none, ∅, timestamp, none, none⟩ _ = _
  rw [applyAll_withDeadline, applyAll_withExpectedRevision, applyAll_withPrincipal, applyAll_withTenant,
    applyAll_withCustom fun e he => h e.1 e.2 (AList.mem_lookup_iff.mpr he)]
  simp only [Option.or_none]

section
variable {c : Carrier} {m : Metadata tp.Time} (hm : m.Sound) (hcovered : m.Covered tp)
  (hc : ∀ key, c.lookup key = (marshalMetadata tp m).lookup key)
include hm hc

theorem carrier_lookup (key : Bytes) (value : Option Bytes) (h : (key, value) ∈ canonicalFields tp m) :
    c.lookup key = value := (hc key).trans (lookup_canonical hm h)

theorem required_eq (key value : Bytes) (h : (key, some value) ∈ canonicalFields tp m) (message : String) :
    required c key message = .ok value := by
  rw [required, carrier_lookup hm hc key (some value) h]

theorem revisionOf_eq : revisionOf c = .ok m.expectedRevision := by
  unfold revisionOf
  rw [carrier_lookup hm hc carrierKeyExpectedRevision
    (m.expectedRevision.map fun revision => formatUint revision.val) (by simp [canonicalFields])]
  cases m.expectedRevision with
  | none => rfl
  | some revision =>
    rw [Option.map_some]
    dsimp only
    rw [parseUint64_formatUint]

theorem principalOf_eq : principalOf c = .ok m.principal := by
  unfold principalOf
  rw [carrier_lookup hm hc carrierKeyPrincipalID (m.principal.map fun p => p.id)
      (by simp [canonicalFields]),
    carrier_lookup hm hc carrierKeyPrincipalKind (m.principal.bind fun p => p.kind)
      (by simp [canonicalFields])]
  have hprincipal := hm.principal
  cases hp : m.principal with
  | none => rfl
  | some p =>
    change (newPrincipal p.id p.kind).map some = _
    rw [hprincipal p hp]
    rfl

theorem lookup_tenantSubset (key : Bytes) : (tenantSubset c).lookup key = (marshalTenant m.tenant).lookup key := by
  rw [tenantSubset, lookup_filter]
  split
  · rename_i h
    rw [hc, lookup_tenant hm (of_decide_eq_true h)]
  · rename_i h
    exact (lookup_marshalTenant_of_not_tenant (fun ht => h (decide_eq_true ht)) _).symm

theorem tenantOf_eq : tenantOf c = .ok m.tenant := by
  have hlookup := lookup_tenantSubset hm hc
  unfold tenantOf
  cases htenant : m.tenant with
  | none =>
    rw [htenant] at hlookup
    rw [eq_empty_of_lookup hlookup]
    rfl
  | some tc =>
    rw [htenant] at hlookup
    have hbuilt := hm.tenant tc htenant
    have hread := Tenancy.Wire.unmarshalMetadata_marshalMetadata hbuilt hlookup
    have hentries : (tenantSubset c).entries ≠ [] := by
      intro hnil
      have hempty : tenantSubset c = ∅ := AList.ext hnil
      rw [hempty] at hread
      cases hread
    rw [if_neg hentries, hread]
    rfl

include hcovered

theorem timestampOf_eq : ∃ t, timestampOf tp c = .ok t ∧ tp.instant t = tp.instant m.timestamp := by
  obtain ⟨t, ht, hinstant⟩ := tp.parse_format _ hcovered.timestamp
  refine ⟨t, ?_, hinstant⟩
  unfold timestampOf
  rw [required_eq hm hc carrierKeyTimestamp (tp.format m.timestamp) (by simp [canonicalFields])]
  change parseTime tp (tp.format m.timestamp) _ = _
  rw [parseTime, ht]

theorem deadlineOf_eq : ∃ deadline, deadlineOf tp c = .ok deadline ∧
    deadline.map tp.instant = m.deadline.map tp.instant := by
  unfold deadlineOf
  rw [carrier_lookup hm hc carrierKeyDeadline (m.deadline.map tp.format) (by simp [canonicalFields])]
  cases hdeadline : m.deadline with
  | none => exact ⟨none, rfl, rfl⟩
  | some t =>
    obtain ⟨t', ht', hinstant⟩ := tp.parse_format t (hcovered.deadline t hdeadline)
    refine ⟨some t', ?_, congrArg some hinstant⟩
    rw [Option.map_some]
    dsimp only
    rw [parseTime, ht']
    rfl

theorem unmarshalMetadata_marshalMetadata (now : tp.Time) :
    ∃ m', unmarshalMetadata tp now c = .ok m' ∧ m'.Same tp m := by
  obtain ⟨timestamp, htimestamp, hinstant⟩ := timestampOf_eq hm hcovered hc
  obtain ⟨deadline, hdeadline, hdeadlines⟩ := deadlineOf_eq hm hcovered hc
  have hcustom := lookup_filter_isCustom c hm hc
  have hvalid : ∀ key, ∀ value ∈ (filter isCustom c).lookup key,
      validateCustomKey key = .ok () ∧ validateCustomValue value = .ok () := by
    intro key value hvalue
    rw [hcustom] at hvalue
    exact hm.custom key value hvalue
  have hnew := newMetadata_carriedOptions hvalid now m.operationID m.correlationID timestamp deadline
  have hcausation : c.lookup carrierKeyCausationID = m.causationID :=
    carrier_lookup hm hc _ _ (by simp [canonicalFields])
  refine ⟨⟨m.operationID, m.correlationID, m.causationID, m.tenant, m.principal,
    insertAll (filter isCustom c).entries ∅, timestamp, deadline, m.expectedRevision⟩, ?_, ?_⟩
  · unfold unmarshalMetadata
    rw [required_eq hm hc carrierKeyOperationID m.operationID (by simp [canonicalFields]),
      required_eq hm hc carrierKeyCorrelationID m.correlationID (by simp [canonicalFields]), htimestamp, hdeadline,
      revisionOf_eq hm hc, principalOf_eq hm hc, tenantOf_eq hm hc]
    simp only [bind, Except.bind, hm.operationID, hnew, hcausation, Option.or_none]
  · refine ⟨rfl, rfl, rfl, rfl, rfl, fun key => ?_, hinstant, hdeadlines, rfl⟩
    rw [lookup_insertAll (filter isCustom c).nodupKeys, AList.lookup_empty, Option.or_none]
    exact hcustom key

end

theorem covered_of_parseTime {raw : Bytes} {message : String} {t : tp.Time} (h : parseTime tp raw message = .ok t) :
    tp.Covered t := by
  unfold parseTime at h
  split at h
  · rename_i hparse
    rw [← Except.ok.inj h]
    exact tp.covered_of_parse _ _ hparse
  · cases h

theorem covered_of_deadlineOf {deadline : Option tp.Time} (h : deadlineOf tp c = .ok deadline) :
    ∀ t ∈ deadline, tp.Covered t := by
  unfold deadlineOf at h
  split at h
  · rw [← Except.ok.inj h]
    simp
  · obtain ⟨t, ht, rfl⟩ := Lib.map_eq_ok.mp h
    intro t' ht'
    rw [← Option.some.inj ht']
    exact covered_of_parseTime ht

theorem newPrincipal_of_principalOf {principal : Option Principal} (h : principalOf c = .ok principal) :
    ∀ p ∈ principal, newPrincipal p.id p.kind = .ok p := by
  unfold principalOf at h
  split at h
  · rw [← Except.ok.inj h]
    simp
  · obtain ⟨p, hp, rfl⟩ := Lib.map_eq_ok.mp h
    intro p' hp'
    rw [← Option.some.inj hp']
    have hnew := hp
    unfold newPrincipal at hp
    split at hp
    · cases hp
    · rw [← Except.ok.inj hp] at hnew ⊢
      exact hnew

theorem built_of_tenantOf {tenant : Option TenantContext} (h : tenantOf c = .ok tenant) :
    ∀ tc ∈ tenant, Tenancy.Wire.Built tc := by
  unfold tenantOf at h
  split at h
  · rw [← Except.ok.inj h]
    simp
  · obtain ⟨tc, htc, rfl⟩ := Lib.map_eq_ok.mp h
    intro tc' htc'
    rw [← Option.some.inj htc']
    exact Tenancy.Wire.built_of_unmarshalMetadata (Lib.mapError_eq_ok.mp htc)

theorem newOperationID_ok {s op : Bytes} (h : newOperationID s = .ok op) : op = s := by
  unfold newOperationID at h
  split at h
  · exact (Except.ok.inj h).symm
  · cases h

theorem MetadataOption.apply_covered {m' : Metadata tp.Time} (hm : m.Covered tp) {opt : MetadataOption tp.Time}
    (htimestamp : ∀ t, opt = .withTimestamp t → tp.Covered t)
    (hdeadline : ∀ t, opt = .withDeadline t → tp.Covered t)
    (h : opt.apply m = .ok m') : m'.Covered tp := by
  cases opt with
  | withCorrelationID | withTenant | withPrincipal =>
    obtain rfl := Except.ok.inj h
    exact ⟨hm.timestamp, hm.deadline⟩
  | withCustom key value =>
    obtain ⟨-, h⟩ := Lib.check_eq_ok.mp h
    obtain ⟨-, h⟩ := Lib.check_eq_ok.mp h
    obtain rfl := Except.ok.inj h
    exact ⟨hm.timestamp, hm.deadline⟩
  | withTimestamp t =>
    obtain rfl := Except.ok.inj h
    exact ⟨htimestamp t rfl, hm.deadline⟩
  | withDeadline t =>
    obtain rfl := Except.ok.inj h
    refine ⟨hm.timestamp, fun t' ht' => ?_⟩
    rw [← Option.some.inj ht']
    exact hdeadline t rfl
  | withExpectedRevision revision =>
    obtain rfl := Except.ok.inj h
    exact ⟨hm.timestamp, hm.deadline⟩

theorem sound_of_unmarshalMetadata {now : tp.Time}
    (h : unmarshalMetadata tp now c = .ok m) : m.Sound ∧ m.Covered tp := by
  obtain ⟨opID, -, h⟩ := Lib.bind_eq_ok.mp h
  obtain ⟨op, hop, h⟩ := Lib.bind_eq_ok.mp h
  obtain ⟨correlationID, -, h⟩ := Lib.bind_eq_ok.mp h
  obtain ⟨timestamp, htimestamp, h⟩ := Lib.bind_eq_ok.mp h
  obtain ⟨deadline, hdeadline, h⟩ := Lib.bind_eq_ok.mp h
  obtain ⟨revision, -, h⟩ := Lib.bind_eq_ok.mp h
  obtain ⟨principal, hprincipal, h⟩ := Lib.bind_eq_ok.mp h
  obtain ⟨tenant, htenant, h⟩ := Lib.bind_eq_ok.mp h
  obtain ⟨m₀, hnew, h⟩ := Lib.bind_eq_ok.mp h
  obtain rfl := Except.ok.inj h
  obtain rfl := newOperationID_ok hop
  have htime : tp.Covered timestamp := by
    obtain ⟨raw, -, hparse⟩ := Lib.bind_eq_ok.mp htimestamp
    exact covered_of_parseTime hparse
  have hvalid : ∀ opt ∈ carriedOptions tp c correlationID timestamp deadline revision principal tenant,
      opt.Valid := by
    have hp := newPrincipal_of_principalOf hprincipal
    have ht := built_of_tenantOf htenant
    simp only [carriedOptions, List.mem_cons, List.mem_append, List.mem_map, Option.mem_toList]
    rintro opt (rfl | rfl | ⟨t, -, rfl⟩ | ⟨n, -, rfl⟩ | ⟨p, hmem, rfl⟩ | ⟨tc, hmem, rfl⟩ |
      ⟨e, -, rfl⟩)
    · trivial
    · trivial
    · trivial
    · trivial
    · exact hp p hmem
    · exact ht tc hmem
    · trivial
  have hsound := applyAll_sound hvalid (root_sound hop now) hnew
  have hcovered : m₀.Covered tp := by
    refine applyAll_preserves (P := fun m => m.Covered tp) (fun opt hopt _ _ hm h => ?_)
      (⟨htime, by simp⟩ : Metadata.Covered tp ⟨op, correlationID, none, none, none, ∅, timestamp, none,
        none⟩) hnew
    refine opt.apply_covered hm (fun t ht => ?_) (fun t ht => ?_) h
    · subst ht
      simp at hopt
    · subst ht
      have hmem : t ∈ deadline := by simpa using hopt
      exact covered_of_deadlineOf hdeadline t hmem
  exact ⟨⟨hsound.operationID, hsound.tenant, hsound.principal, hsound.custom⟩, hcovered.timestamp,
    hcovered.deadline⟩

/-- Metadata survives the carrier, whatever order the map is iterated in, and so does what
was read from a carrier. -/
theorem metadata_round_trip (tp : TimePackage) :
    (∀ m, Built tp m → m.Covered tp →
      ∀ c : Carrier, (∀ key, c.lookup key = (marshalMetadata tp m).lookup key) →
      ∀ now, ∃ m', unmarshalMetadata tp now c = .ok m' ∧ m'.Same tp m) ∧
        ∀ now c m, unmarshalMetadata tp now c = .ok m →
      ∀ c' : Carrier, (∀ key, c'.lookup key = (marshalMetadata tp m).lookup key) →
        ∀ now', ∃ m', unmarshalMetadata tp now' c' = .ok m' ∧ m'.Same tp m := by
  refine ⟨fun m hm hcovered c hc now => ?_, fun now c m h c' hc' now' => ?_⟩
  · exact unmarshalMetadata_marshalMetadata hm.sound hcovered hc now
  · obtain ⟨hsound, hcovered⟩ := sound_of_unmarshalMetadata h
    exact unmarshalMetadata_marshalMetadata hsound hcovered hc' now'

end

open Enginetest

def transfer : Metadata rfc3339.Time :=
  ⟨goString "transfer-1", goString "flow-1", none, some (.tenant (goString "acme")), none,
    AList.singleton (goString "channel") (goString "mobile"), noon 5, some (noon 9), some 0⟩

def transferOptions : List (MetadataOption rfc3339.Time) :=
  [.withCorrelationID (goString "flow-1"), .withTenant (.tenant (goString "acme")),
    .withCustom (goString "channel") (goString "mobile"), .withTimestamp (noon 5), .withDeadline (noon 9),
    .withExpectedRevision 0]

theorem built_transfer : Built rfc3339 transfer := by
  have hop : newOperationID (goString "transfer-1") = .ok (goString "transfer-1") := by
    decide
  have htenant : Tenancy.Wire.newTenantID (goString "acme") = .ok (goString "acme") :=
    Tenancy.Wire.newTenantID_goString.mpr (by decide)
  have hkey : validateCustomKey (goString "channel") = .ok () := by
    decide
  have hvalue : validateCustomValue (goString "mobile") = .ok () := by
    decide
  have hvalid : ∀ opt ∈ transferOptions, opt.Valid := by
    simp [transferOptions, MetadataOption.Valid, Tenancy.Wire.Built.tenant htenant]
  have hnew : newMetadata (noon 0) (goString "transfer-1") transferOptions = .ok transfer := by
    rfl
  exact .root hop hvalid hnew

theorem metadata_round_trip_transfer : ∃ m', unmarshalMetadata rfc3339 (noon 0) (marshalMetadata rfc3339 transfer) =
    .ok m' ∧ m'.Same rfc3339 transfer := by
  have hcovered : transfer.Covered rfc3339 := by
    refine ⟨?_, fun t ht => ?_⟩
    · change Stamp.Valid (noon 5)
      decide
    · obtain rfl := Option.some.inj ht
      change Stamp.Valid (noon 9)
      decide
  exact (metadata_round_trip rfc3339).1 transfer built_transfer hcovered _ (fun _ => rfl) (noon 0)

end Ego.Command

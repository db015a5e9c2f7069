import Ego.Tenancy.Wire

/-!
# Command metadata (`command/metadata.go`, `identity.go`, `principal.go`)

A pair of a value and a presence flag is an `Option` here.
-/

namespace Ego.Command
open Persistence (Bytes goString)
open Tenancy (isControl)
open Tenancy.Wire (StringMap Defect TenantContext decode defect verifyUnchanged)

/-- What the code uses of the `time` package, with `time.RFC3339Nano` as the layout.
`Covered` is the times the layout is meant for: years 0 to 9999 and zone offsets of
whole minutes, below 25 hours. `time.Parse` also takes 24:60 for an offset, which is then
written as 25:00 and refused: `parse` is `time.Parse` on the texts without it. -/
structure TimePackage where
  Time : Type
  instant : Time → ℤ
  Covered : Time → Prop
  format : Time → Bytes
  parse : Bytes → Option Time
  parse_format : ∀ t, Covered t → ∃ t', parse (format t) = some t' ∧ instant t' = instant t
  covered_of_parse : ∀ s t, parse s = some t → Covered t

inductive Sentinel where
  | invalidMetadata
  | reservedKey
  | invalidPrincipal
  | sameOperationID
  | deadlineExtension
  deriving DecidableEq, Repr

inductive Error where
  | command (sentinel : Sentinel) (message : String)
  | tenancy (err : Tenancy.Wire.Error)
  deriving DecidableEq, Repr

def maxOperationIDBytes : ℕ := 128

def operationIDMessage : Defect → String
  | .empty => "command: operation id must not be empty"
  | .notUTF8 => "command: operation id must be valid UTF-8"
  | .tooLong => "command: operation id exceeds 128 bytes"
  | .surroundingSpace => "command: operation id must not have leading or trailing whitespace"
  | .control => "command: operation id must not contain control characters"

def newOperationID (s : Bytes) : Except Error Bytes :=
  match defect maxOperationIDBytes s with
  | none => .ok s
  | some d => .error (.command .invalidMetadata (operationIDMessage d))

structure Principal where
  id : Bytes
  kind : Option Bytes
  deriving DecidableEq

def newPrincipal (id : Bytes) (kind : Option Bytes) : Except Error Principal :=
  if id = [] then .error (.command .invalidPrincipal "command: principal id must not be empty") else .ok ⟨id, kind⟩

def reservedCustomPrefix := goString "ego."

def reservedCustomKeys : List Bytes :=
  ["operation_id", "correlation_id", "causation_id", "timestamp", "deadline", "principal_id", "principal_kind",
    "tenant", "expected_revision"].map goString

def customKeyMessage : Defect → String
  | .empty => "command: custom metadata key must not be empty"
  | .notUTF8 => "command: custom metadata key must be valid UTF-8"
  | .tooLong => "command: custom metadata key exceeds the maximum length"
  | .surroundingSpace => "command: custom metadata key must not have leading or trailing whitespace"
  | .control => "command: custom metadata key must not contain control characters"

def validateCustomKey (key : Bytes) : Except Error Unit :=
  if reservedCustomPrefix <+: key then
    .error (.command .reservedKey "command: custom metadata key must not use the reserved \"ego.\" prefix")
  else if key ∈ reservedCustomKeys then
    .error (.command .reservedKey "command: custom metadata key must not shadow a canonical field")
  else
    match defect maxOperationIDBytes key with
    | none => .ok ()
    | some d => .error (.command .reservedKey (customKeyMessage d))

def maxCustomValueBytes : ℕ := 1024

def validateCustomValue (value : Bytes) : Except Error Unit :=
  match decode value with
  | none => .error (.command .invalidMetadata "command: custom metadata value must be valid UTF-8")
  | some text =>
    if maxCustomValueBytes < value.length then
      .error (.command .invalidMetadata "command: custom metadata value exceeds the maximum length")
    else if text.toList.any isControl then
      .error (.command .invalidMetadata "command: custom metadata value must not contain control characters")
    else .ok ()

structure Metadata (T : Type) where
  operationID : Bytes
  correlationID : Bytes
  causationID : Option Bytes
  tenant : Option TenantContext
  principal : Option Principal
  custom : StringMap
  timestamp : T
  deadline : Option T
  expectedRevision : Option (Fin (2 ^ 64))

inductive MetadataOption (T : Type) where
  | withCorrelationID (id : Bytes)
  | withTenant (tc : TenantContext)
  | withPrincipal (p : Principal)
  | withCustom (key value : Bytes)
  | withTimestamp (t : T)
  | withDeadline (t : T)
  | withExpectedRevision (revision : Fin (2 ^ 64))

section
variable {T : Type}

def MetadataOption.apply (m : Metadata T) : MetadataOption T → Except Error (Metadata T)
  | .withCorrelationID id => .ok { m with correlationID := id }
  | .withTenant tc => .ok { m with tenant := some tc }
  | .withPrincipal p => .ok { m with principal := some p }
  | .withCustom key value => do
    validateCustomKey key
    validateCustomValue value
    .ok { m with custom := m.custom.insert key value }
  | .withTimestamp t => .ok { m with timestamp := t }
  | .withDeadline t => .ok { m with deadline := some t }
  | .withExpectedRevision revision => .ok { m with expectedRevision := some revision }

def applyAll (m : Metadata T) : List (MetadataOption T) → Except Error (Metadata T)
  | [] => .ok m
  | opt :: opts => do
    let m ← opt.apply m
    applyAll m opts

def root (now : T) (op : Bytes) : Metadata T := ⟨op, op, none, none, none, ∅, now, none, none⟩

def newMetadata (now : T) (op : Bytes) (opts : List (MetadataOption T)) : Except Error (Metadata T) :=
  applyAll (root now op) opts

/-- The fields a child starts from: neither custom pairs nor the expected revision. -/
def child (now : T) (m : Metadata T) (op : Bytes) : Metadata T :=
  ⟨op, m.correlationID, some m.operationID, m.tenant, m.principal, ∅, now, m.deadline, none⟩

def zeroMetadata (zeroTime : T) : Metadata T := ⟨[], [], none, none, none, ∅, zeroTime, none, none⟩

end

section
variable (tp : TimePackage)

def checkTenant (parent m : Metadata tp.Time) : Except Error Unit :=
  match parent.tenant, m.tenant with
  | some bound, some incoming => (verifyUnchanged bound incoming).mapError .tenancy
  | _, _ => .ok ()

def checkDeadline (parent m : Metadata tp.Time) : Except Error Unit :=
  match parent.deadline, m.deadline with
  | some bound, some deadline =>
    if tp.instant bound < tp.instant deadline then
      .error (.command .deadlineExtension "command: derived deadline must not extend the parent's")
    else .ok ()
  | _, _ => .ok ()

def Metadata.derive (m : Metadata tp.Time) (now : tp.Time) (op : Bytes) (opts : List (MetadataOption tp.Time)) :
    Except Error (Metadata tp.Time) :=
  if op = m.operationID then
    .error (.command .sameOperationID "command: derived operation id must differ from parent")
  else do
    let c ← applyAll (child now m op) opts
    checkTenant tp m c
    checkDeadline tp m c
    .ok c

end

section
variable {T : Type}

def MetadataOption.Valid : MetadataOption T → Prop
  | .withTenant tc => Tenancy.Wire.Built tc
  | .withPrincipal p => newPrincipal p.id p.kind = .ok p
  | _ => True

inductive Built (tp : TimePackage) : Metadata tp.Time → Prop
  | root {now : tp.Time} {op : Bytes} {opts : List (MetadataOption tp.Time)} {m : Metadata tp.Time} :
      newOperationID op = .ok op → (∀ opt ∈ opts, opt.Valid) → newMetadata now op opts = .ok m → Built tp m
  | derived {now : tp.Time} {op : Bytes} {opts : List (MetadataOption tp.Time)} {parent m : Metadata tp.Time} :
      Built tp parent → newOperationID op = .ok op → (∀ opt ∈ opts, opt.Valid) →
        parent.derive tp now op opts = .ok m → Built tp m
  | derivedZero {now zeroTime : tp.Time} {op : Bytes} {opts : List (MetadataOption tp.Time)} {m : Metadata tp.Time} :
      newOperationID op = .ok op → (∀ opt ∈ opts, opt.Valid) →
        (zeroMetadata zeroTime).derive tp now op opts = .ok m → Built tp m

structure Metadata.Sound (m : Metadata T) : Prop where
  operationID : newOperationID m.operationID = .ok m.operationID
  tenant : ∀ tc ∈ m.tenant, Tenancy.Wire.Built tc
  principal : ∀ p ∈ m.principal, newPrincipal p.id p.kind = .ok p
  custom : ∀ key, ∀ value ∈ m.custom.lookup key, validateCustomKey key = .ok () ∧
    validateCustomValue value = .ok ()

theorem MetadataOption.apply_sound {m m' : Metadata T} (hm : m.Sound) {opt : MetadataOption T} (hopt : opt.Valid)
    (h : opt.apply m = .ok m') : m'.Sound := by
  cases opt with
  | withCorrelationID | withTimestamp | withDeadline =>
    obtain rfl := Except.ok.inj h
    exact ⟨hm.operationID, hm.tenant, hm.principal, hm.custom⟩
  | withTenant tc =>
    obtain rfl := Except.ok.inj h
    refine ⟨hm.operationID, fun tc' htc' => ?_, hm.principal, hm.custom⟩
    rwa [← Option.some.inj htc']
  | withPrincipal p =>
    obtain rfl := Except.ok.inj h
    refine ⟨hm.operationID, hm.tenant, fun p' hp' => ?_, hm.custom⟩
    rwa [← Option.some.inj hp']
  | withCustom key value =>
    obtain ⟨hkey, h⟩ := Lib.check_eq_ok.mp h
    obtain ⟨hvalue, h⟩ := Lib.check_eq_ok.mp h
    obtain rfl := Except.ok.inj h
    refine ⟨hm.operationID, hm.tenant, hm.principal, fun key' value' hlookup => ?_⟩
    by_cases hk : key' = key
    · subst hk
      rw [AList.lookup_insert] at hlookup
      rw [← Option.some.inj hlookup]
      exact ⟨hkey, hvalue⟩
    · rw [AList.lookup_insert_ne hk] at hlookup
      exact hm.custom key' value' hlookup
  | withExpectedRevision revision =>
    obtain rfl := Except.ok.inj h
    exact ⟨hm.operationID, hm.tenant, hm.principal, hm.custom⟩

theorem applyAll_preserves {P : Metadata T → Prop} {opts : List (MetadataOption T)}
    (hstep : ∀ opt ∈ opts, ∀ m m', P m → opt.apply m = .ok m' → P m') {m m' : Metadata T} (hm : P m)
    (h : applyAll m opts = .ok m') : P m' := by
  induction opts generalizing m with
  | nil =>
    obtain rfl := Except.ok.inj h
    exact hm
  | cons opt opts ih =>
    obtain ⟨m₁, hm₁, h⟩ := Lib.bind_eq_ok.mp h
    obtain ⟨hopt, hopts⟩ := List.forall_mem_cons.mp hstep
    exact ih hopts (hopt m m₁ hm hm₁) h

theorem applyAll_sound {opts : List (MetadataOption T)} (hopts : ∀ opt ∈ opts, opt.Valid) {m m' : Metadata T}
    (hm : m.Sound) (h : applyAll m opts = .ok m') : m'.Sound :=
  applyAll_preserves (fun opt hopt _ _ hm h => opt.apply_sound hm (hopts opt hopt) h) hm h

theorem root_sound {op : Bytes} (hop : newOperationID op = .ok op) (now : T) : (root now op).Sound :=
  ⟨hop, by simp [root], by simp [root], by simp [root]⟩

end

theorem Metadata.derive_sound {tp : TimePackage} {parent m : Metadata tp.Time} {now : tp.Time} {op : Bytes}
    {opts : List (MetadataOption tp.Time)} (htenant : ∀ tc ∈ parent.tenant, Tenancy.Wire.Built tc)
    (hprincipal : ∀ p ∈ parent.principal, newPrincipal p.id p.kind = .ok p) (hop : newOperationID op = .ok op)
    (hopts : ∀ opt ∈ opts, opt.Valid) (h : parent.derive tp now op opts = .ok m) : m.Sound := by
  unfold Metadata.derive at h
  split at h
  · cases h
  · obtain ⟨c, hc, h⟩ := Lib.bind_eq_ok.mp h
    obtain ⟨-, h⟩ := Lib.check_eq_ok.mp h
    obtain ⟨-, h⟩ := Lib.check_eq_ok.mp h
    obtain rfl := Except.ok.inj h
    exact applyAll_sound hopts (m := child now parent op) ⟨hop, htenant, hprincipal, by simp [child]⟩ hc

theorem Built.sound {tp : TimePackage} {m : Metadata tp.Time} (h : Built tp m) : m.Sound := by
  induction h with
  | root hop hopts hnew => exact applyAll_sound hopts (root_sound hop _) hnew
  | derived _ hop hopts hderive ih => exact Metadata.derive_sound ih.tenant ih.principal hop hopts hderive
  | derivedZero hop hopts hderive =>
    exact Metadata.derive_sound (by simp [zeroMetadata]) (by simp [zeroMetadata]) hop hopts hderive

end Ego.Command

import Ego.Persistence.DurableState
import Ego.Persistence.EventLog
import Mathlib.Data.List.Sort

/-! # Adoption receipts (`migration/tenant_adoption.go:1317-1458`) -/

namespace Ego.Migration
open Persistence Tenancy

def utf8 (s : String) : Bytes := s.toUTF8.data.toList

theorem utf8_append (s t : String) : utf8 (s ++ t) = utf8 s ++ utf8 t := by
  simp [utf8]

theorem utf8_injective {s t : String} (h : utf8 s = utf8 t) : s = t :=
  String.toByteArray_inj.mp (ByteArray.ext (Array.toList_inj.mp h))

/-- SHA-256 in hexadecimal digits, and `strconv.Quote` for the tenant that it covers. That no
two inputs share a digest is not part of it: results that rest on it assume `sha.sum` injective. -/
structure Digest where
  sum : Bytes → String
  hexadecimal : ∀ x, ':' ∉ (sum x).toList
  quote : String → String
  quote_injective : ∀ s t, quote s = quote t → s = t
  quote_nonzero : ∀ s, 0 ∉ utf8 (quote s)

class Adoptable (ρ : Type) where
  tenantMetadataOf : ρ → Metadata
  setTenantMetadata : ρ → Metadata → ρ
  get_set : ∀ r md, tenantMetadataOf (setTenantMetadata r md) = md
  set_set : ∀ r md md', setTenantMetadata (setTenantMetadata r md) md' = setTenantMetadata r md'

export Adoptable (tenantMetadataOf setTenantMetadata)

instance : Adoptable Event where
  tenantMetadataOf := (·.tenantMetadata)
  setTenantMetadata := fun e md => { e with tenantMetadata := md }
  get_set := fun _ _ => rfl
  set_set := fun _ _ _ => rfl

instance : Adoptable Snapshot where
  tenantMetadataOf := (·.tenantMetadata)
  setTenantMetadata := fun s md => { s with tenantMetadata := md }
  get_set := fun _ _ => rfl
  set_set := fun _ _ _ => rfl

instance : Adoptable DurableState where
  tenantMetadataOf := (·.tenantMetadata)
  setTenantMetadata := fun s md => { s with tenantMetadata := md }
  get_set := fun _ _ => rfl
  set_set := fun _ _ _ => rfl

section
variable {ρ : Type} [Adoptable ρ]

/-- Tenant metadata is a map: the order of its entries does not count. -/
def SameMessage (x y : ρ) : Prop :=
  setTenantMetadata x [] = setTenantMetadata y [] ∧
    ∀ key, (tenantMetadataOf x).lookup key = (tenantMetadataOf y).lookup key

theorem SameMessage.refl (x : ρ) : SameMessage x x := ⟨rfl, fun _ => rfl⟩

theorem SameMessage.symm {x y : ρ} (h : SameMessage x y) : SameMessage y x :=
  ⟨h.1.symm, fun key => (h.2 key).symm⟩

def protoEqual [DecidableEq ρ] (x y : ρ) : Bool :=
  setTenantMetadata x [] = setTenantMetadata y [] ∧
    ∀ key ∈ (tenantMetadataOf x ++ tenantMetadataOf y).map Prod.fst,
      (tenantMetadataOf x).lookup key = (tenantMetadataOf y).lookup key

theorem protoEqual_iff [DecidableEq ρ] {x y : ρ} : protoEqual x y = true ↔ SameMessage x y := by
  unfold protoEqual SameMessage
  rw [decide_eq_true_iff]
  refine and_congr_right fun _ => ⟨fun h key => ?_, fun h key _ => h key⟩
  by_cases hkey : key ∈ (tenantMetadataOf x ++ tenantMetadataOf y).map Prod.fst
  · exact h key hkey
  · -- a key of neither map reads as missing in both
    have hnone {md : Metadata} (hsub : ∀ entry ∈ md, entry ∈ tenantMetadataOf x ++ tenantMetadataOf y) :
        md.lookup key = none := by
      refine List.lookup_eq_none_iff.mpr fun entry hentry => ?_
      have hne : key ≠ entry.1 := fun heq => hkey (heq ▸ List.mem_map_of_mem (hsub entry hentry))
      simpa using hne
    rw [hnone fun e he => List.mem_append_left _ he, hnone fun e he => List.mem_append_right _ he]

end

structure Marshal (ρ : Type) [Adoptable ρ] where
  encode : ρ → Bytes
  faithful : ∀ x y, encode x = encode y ↔ SameMessage x y

def adoptionReceiptKey := "ego.adoption.receipt"
def adoptionReceiptVersion := "v1:"

def quote (s : String) : String :=
  "\"" ++ String.ofList (s.toList.flatMap fun c => if c = '"' ∨ c = '\\' then ['\\', c] else [c]) ++ "\""

def scopeToken (sha : Digest) : Scope → String
  | .unscoped => "unscoped"
  | .tenant id => "tenant:" ++ sha.quote id
  | .unspecified => "tenant:" ++ sha.quote ""

def receiptOf (md : Metadata) : Option String := md.lookup adoptionReceiptKey

def withoutReceipt (md : Metadata) : Metadata := md.filter fun entry => entry.1 != adoptionReceiptKey

def cutPrefix (start s : List Char) : Option (List Char) :=
  if start.isPrefixOf s then some (s.drop start.length) else none

def cutBefore (sep : Char) (s : List Char) : Option (List Char) :=
  if sep ∈ s then some (s.takeWhile (· != sep)) else none

def parseUint (recorded : List Char) : Option ℕ :=
  if recorded ≠ [] ∧ recorded.all Char.isDigit then
    let value := Nat.ofDigitChars 10 recorded 0
    if value < 2 ^ 64 ∧ (Nat.repr value).toList = recorded then some value else none
  else none

def recordedPredecessor (receipt : String) : Option (Option ℕ) :=
  match cutPrefix adoptionReceiptVersion.toList receipt.toList with
  | none => none
  | some body =>
    match cutBefore ':' body with
    | none => some none
    | some recorded => (parseUint recorded).map some

section
variable (sha : Digest) {ρ : Type} [Adoptable ρ] (wire : Marshal ρ)

def adoptionReceipt (record : ρ) (sourceScope : Scope) (predecessor : Option ℕ) : String :=
  let recorded := predecessor.map Nat.repr
  adoptionReceiptVersion ++ (recorded.map (· ++ ":")).getD "" ++ sha.sum (utf8 (scopeToken sha sourceScope) ++ [0] ++
      (recorded.map fun r => utf8 r ++ [0]).getD [] ++ wire.encode record)

def stampAdoptionReceipt (record : ρ) (sourceScope : Scope) (metadata : Metadata) (predecessor : Option ℕ) : ρ :=
  let receipt := adoptionReceipt sha wire (setTenantMetadata record metadata) sourceScope predecessor
  setTenantMetadata record (withoutReceipt metadata ++ [(adoptionReceiptKey, receipt)])

def verifyAdoptionReceipt (record : ρ) (sourceScope : Scope) : Option (Option ℕ) :=
  let metadata := tenantMetadataOf record
  match receiptOf metadata with
  | none => none
  | some receipt =>
    match recordedPredecessor receipt with
    | none => none
    | some predecessor =>
      let stripped := setTenantMetadata record (withoutReceipt metadata)
      if adoptionReceipt sha wire stripped sourceScope predecessor = receipt then some predecessor else none

end

theorem lookup_withoutReceipt {md : Metadata} {key : String} (h : key ≠ adoptionReceiptKey) :
    (withoutReceipt md).lookup key = md.lookup key := by
  unfold withoutReceipt
  induction md with
  | nil => rfl
  | cons entry md ih =>
    obtain ⟨k, v⟩ := entry
    by_cases hk : k = adoptionReceiptKey
    · have hkey : (key == k) = false := by
        rw [hk]
        exact beq_false_of_ne h
      rw [List.filter_cons_of_neg (by simp [hk]), ih, List.lookup_cons, hkey]
    · rw [List.filter_cons_of_pos (by simpa using hk), List.lookup_cons, List.lookup_cons, ih]

theorem receiptOf_withoutReceipt (md : Metadata) : receiptOf (withoutReceipt md) = none := by
  refine List.lookup_eq_none_iff.mpr fun entry h => ?_
  have hne := (List.mem_filter.mp h).2
  simpa using (Ne.symm (by simpa using hne : entry.1 ≠ adoptionReceiptKey))

variable {predecessor : Option ℕ}

theorem recordedPredecessor_adoptionReceipt (sha : Digest) {ρ : Type} [Adoptable ρ] (wire : Marshal ρ)
    (record : ρ) (scope : Scope) (h : ∀ n ∈ predecessor, n < 2 ^ 64) :
    recordedPredecessor (adoptionReceipt sha wire record scope predecessor) = some predecessor := by
  have hcut (body : String) : cutPrefix adoptionReceiptVersion.toList (adoptionReceiptVersion ++ body).toList =
      some body.toList := by
    rw [cutPrefix, String.toList_append, if_pos (List.isPrefixOf_iff_prefix.mpr (List.prefix_append _ _)),
      List.drop_left]
  unfold recordedPredecessor adoptionReceipt
  cases predecessor with
  | none =>
    rw [String.append_assoc, hcut, String.toList_append]
    dsimp only
    rw [cutBefore, if_neg]
    simpa using sha.hexadecimal _
  | some n =>
    dsimp only [Option.map_some, Option.getD_some]
    rw [String.append_assoc, hcut]
    have hdigits : (Nat.repr n).toList = Nat.toDigits 10 n := String.toList_ofList
    have hcolon : ':' ∉ Nat.toDigits 10 n := fun hmem => by
      have := Nat.isDigit_of_mem_toDigits (by decide) (by decide) hmem
      exact absurd this (by decide)
    have hparse : parseUint (Nat.toDigits 10 n) = some n := by
      unfold parseUint
      rw [if_pos ⟨Nat.toDigits_ne_nil, List.all_eq_true.mpr fun c hc =>
        Nat.isDigit_of_mem_toDigits (by decide) (by decide) hc⟩]
      simp only [Nat.ofDigitChars_ten_toDigits]
      rw [if_pos ⟨h n rfl, hdigits⟩]
    have hbefore (rest : List Char) : cutBefore ':' (Nat.toDigits 10 n ++ ':' :: rest) = some (Nat.toDigits 10 n) := by
      rw [cutBefore, if_pos (by simp), List.takeWhile_append_of_pos, List.takeWhile_cons_of_neg (by simp),
        List.append_nil]
      exact fun c hc => bne_iff_ne.mpr fun heq => hcolon (heq ▸ hc)
    have hbody (hex : String) : (Nat.repr n ++ ":" ++ hex).toList = Nat.toDigits 10 n ++ ':' :: hex.toList := by
      rw [String.toList_append, String.toList_append, hdigits, List.append_assoc]
      rfl
    rw [hbody]
    dsimp only
    rw [hbefore]
    dsimp only
    rw [hparse]
    rfl

section
variable {sha : Digest} {ρ : Type} [Adoptable ρ] {wire : Marshal ρ} {scope : Scope}

theorem verifyAdoptionReceipt_stamp (record : ρ) {md : Metadata}
    (hmd : receiptOf md = none) (hn : ∀ n ∈ predecessor, n < 2 ^ 64) :
    verifyAdoptionReceipt sha wire (stampAdoptionReceipt sha wire record scope md predecessor) scope =
      some predecessor := by
  have hkept : withoutReceipt md = md := List.filter_eq_self.mpr fun entry hentry => by
    have hlookup := List.lookup_eq_none_iff.mp hmd entry hentry
    simpa using Ne.symm (by simpa using hlookup : adoptionReceiptKey ≠ entry.1)
  have hreceipt (receipt : String) : receiptOf (md ++ [(adoptionReceiptKey, receipt)]) = some receipt := by
    unfold receiptOf at hmd ⊢
    rw [List.lookup_append, hmd]
    rfl
  have hstripped (receipt : String) : withoutReceipt (md ++ [(adoptionReceiptKey, receipt)]) = md := by
    rw [withoutReceipt, List.filter_append, ← withoutReceipt, hkept]
    simp
  unfold verifyAdoptionReceipt stampAdoptionReceipt
  simp only [hkept, Adoptable.get_set, hreceipt, recordedPredecessor_adoptionReceipt sha wire _ _ hn, hstripped,
    Adoptable.set_set, if_true]

theorem verifyAdoptionReceipt_eq_some {record : ρ}
    (h : verifyAdoptionReceipt sha wire record scope = some predecessor) :
    ∃ receipt, receiptOf (tenantMetadataOf record) = some receipt ∧
      recordedPredecessor receipt = some predecessor ∧
      adoptionReceipt sha wire (setTenantMetadata record (withoutReceipt (tenantMetadataOf record))) scope
        predecessor = receipt := by
  unfold verifyAdoptionReceipt at h
  dsimp only at h
  split at h
  · cases h
  · rename_i receipt hreceipt
    split at h
    · cases h
    · rename_i p hp
      split at h
      · rename_i heq
        obtain rfl := Option.some.inj h
        exact ⟨receipt, hreceipt, hp, heq⟩
      · cases h

theorem adoptionReceipt_congr {x y : ρ} (h : SameMessage x y) :
    adoptionReceipt sha wire x scope predecessor = adoptionReceipt sha wire y scope predecessor := by
  unfold adoptionReceipt
  rw [(wire.faithful x y).mpr h]

theorem sameMessage_of_adoptionReceipt (hsha : Function.Injective sha.sum) {x y : ρ}
    (h : adoptionReceipt sha wire x scope predecessor = adoptionReceipt sha wire y scope predecessor) :
    SameMessage x y := by
  have hsum := hsha ((String.append_right_inj _).mp h)
  exact (wire.faithful x y).mp (List.append_cancel_left hsum)

theorem sameMessage_stripped {x y : ρ} (h : SameMessage x y) :
    SameMessage (setTenantMetadata x (withoutReceipt (tenantMetadataOf x)))
      (setTenantMetadata y (withoutReceipt (tenantMetadataOf y))) := by
  unfold SameMessage
  simp only [Adoptable.set_set, Adoptable.get_set]
  refine ⟨h.1, fun key => ?_⟩
  by_cases hkey : key = adoptionReceiptKey
  · subst hkey
    exact (receiptOf_withoutReceipt _).trans (receiptOf_withoutReceipt _).symm
  · rw [lookup_withoutReceipt hkey, lookup_withoutReceipt hkey]
    exact h.2 key

theorem verifyAdoptionReceipt_congr {x y : ρ} (h : SameMessage x y) :
    verifyAdoptionReceipt sha wire x scope = verifyAdoptionReceipt sha wire y scope := by
  have hreceipt : receiptOf (tenantMetadataOf x) = receiptOf (tenantMetadataOf y) := h.2 _
  unfold verifyAdoptionReceipt
  dsimp only
  rw [hreceipt]
  cases receiptOf (tenantMetadataOf y) with
  | none => rfl
  | some receipt =>
    dsimp only
    cases recordedPredecessor receipt with
    | none => rfl
    | some predecessor =>
      dsimp only
      rw [adoptionReceipt_congr (sameMessage_stripped h)]

theorem same_of_receipt (hsha : Function.Injective sha.sum) {x y : ρ} {p q : Option ℕ}
    (hx : verifyAdoptionReceipt sha wire x scope = some p)
    (hy : verifyAdoptionReceipt sha wire y scope = some q)
    (hreceipt : receiptOf (tenantMetadataOf x) = receiptOf (tenantMetadataOf y)) : p = q ∧ SameMessage x y := by
  obtain ⟨r, hrx, hpx, hdx⟩ := verifyAdoptionReceipt_eq_some hx
  obtain ⟨r', hry, hpy, hdy⟩ := verifyAdoptionReceipt_eq_some hy
  obtain rfl : r = r' := Option.some.inj (hrx.symm.trans (hreceipt.trans hry))
  obtain rfl : p = q := Option.some.inj (hpx.symm.trans hpy)
  obtain ⟨hrecord, hmd⟩ := sameMessage_of_adoptionReceipt hsha (hdx.trans hdy.symm)
  simp only [Adoptable.set_set, Adoptable.get_set] at hrecord hmd
  refine ⟨rfl, hrecord, fun key => ?_⟩
  by_cases hkey : key = adoptionReceiptKey
  · rw [hkey]
    exact hreceipt
  · rw [← lookup_withoutReceipt hkey, hmd, lookup_withoutReceipt hkey]

end

end Ego.Migration

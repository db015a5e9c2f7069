import Ego.Enginetest.Adopter
import Ego.Lib.Text

/-! # What a receipt is a receipt of (`migration/tenant_adoption.go:1322-1409`) -/

namespace Ego.Migration
open Persistence Tenancy

theorem framed_inj {a : UInt8} {x y rest rest' : Bytes} (hx : a ∉ x) (hy : a ∉ y)
    (h : x ++ [a] ++ rest = y ++ [a] ++ rest') : x = y ∧ rest = rest' := by
  have hcut : Lib.Text.cut [a] (x ++ [a] ++ rest) = some (x, rest) := Lib.Text.cut_append hx rest
  rw [h, Lib.Text.cut_append hy rest'] at hcut
  exact (Prod.mk.inj (Option.some.inj hcut)).imp Eq.symm Eq.symm

def Made : Scope → Prop
  | .tenant id => id ≠ ""
  | _ => True

theorem scopeToken_nonzero (sha : Digest) (scope : Scope) : 0 ∉ utf8 (scopeToken sha scope) := by
  have htenant (id : String) : 0 ∉ utf8 ("tenant:" ++ sha.quote id) := by
    rw [utf8_append, List.mem_append, not_or]
    exact ⟨by decide, sha.quote_nonzero id⟩
  cases scope with
  | unscoped =>
    change 0 ∉ utf8 "unscoped"
    decide
  | tenant id => exact htenant id
  | unspecified => exact htenant ""

theorem scopeToken_injective (sha : Digest) {s t : Scope} (hs : Made s) (ht : Made t)
    (h : scopeToken sha s = scopeToken sha t) : s = t := by
  have hquote {x y : String} (h : "tenant:" ++ sha.quote x = "tenant:" ++ sha.quote y) : x = y :=
    sha.quote_injective x y ((String.append_right_inj _).mp h)
  have hunscoped (x : String) : "unscoped" ≠ "tenant:" ++ sha.quote x := by
    intro h
    have hlist := congrArg String.toList h
    rw [String.toList_append] at hlist
    exact absurd (List.cons.inj hlist).1 (by decide)
  cases s with
  | unscoped =>
    cases t with
    | unscoped => rfl
    | tenant id => exact absurd h (hunscoped id)
    | unspecified => exact absurd h (hunscoped "")
  | tenant id =>
    cases t with
    | unscoped => exact absurd h.symm (hunscoped id)
    | tenant id' => rw [hquote h]
    | unspecified => exact absurd (hquote h) hs
  | unspecified =>
    cases t with
    | unscoped => exact absurd h.symm (hunscoped "")
    | tenant id' => exact absurd (hquote h).symm ht
    | unspecified => rfl

section
variable {sha : Digest} {ρ : Type} [Adoptable ρ] {wire : Marshal ρ}

theorem adoptionReceipt_inj (hsha : Function.Injective sha.sum) {x y : ρ} {s t : Scope} {p q : Option ℕ}
    (hs : Made s) (ht : Made t)
    (hp : ∀ n ∈ p, n < 2 ^ 64) (hq : ∀ n ∈ q, n < 2 ^ 64)
    (h : adoptionReceipt sha wire x s p = adoptionReceipt sha wire y t q) : s = t ∧ p = q ∧ SameMessage x y := by
  -- the text tells the predecessor, and with it how the digested bytes are framed
  obtain rfl : p = q := by
    have hrecorded := congrArg recordedPredecessor h
    rw [recordedPredecessor_adoptionReceipt sha wire x s hp, recordedPredecessor_adoptionReceipt sha wire y t hq]
      at hrecorded
    exact Option.some.inj hrecorded
  have hsum := hsha ((String.append_right_inj _).mp h)
  rw [List.append_assoc _ _ (wire.encode x), List.append_assoc _ _ (wire.encode y)] at hsum
  obtain ⟨htoken, hrest⟩ := framed_inj (scopeToken_nonzero sha s) (scopeToken_nonzero sha t) hsum
  exact ⟨scopeToken_injective sha hs ht (utf8_injective htoken), rfl,
    (wire.faithful x y).mp (List.append_cancel_left hrest)⟩

theorem receiptOf_stamp (record : ρ) (scope : Scope) (md : Metadata) (p : Option ℕ) :
    receiptOf (tenantMetadataOf (stampAdoptionReceipt sha wire record scope md p)) =
      some (adoptionReceipt sha wire (setTenantMetadata record md) scope p) := by
  unfold stampAdoptionReceipt
  rw [Adoptable.get_set, receiptOf, List.lookup_append]
  have hnone : (withoutReceipt md).lookup adoptionReceiptKey = none := receiptOf_withoutReceipt md
  rw [hnone]
  rfl

theorem recordedPredecessor_lt {receipt : String} {p : Option ℕ} (h : recordedPredecessor receipt = some p) :
    ∀ n ∈ p, n < 2 ^ 64 := by
  rintro n hn
  obtain rfl : p = some n := hn
  unfold recordedPredecessor at h
  split at h
  · cases h
  · split at h
    · cases h
    · obtain ⟨value, hvalue, heq⟩ := Option.map_eq_some_iff.mp h
      obtain rfl := Option.some.inj heq
      unfold parseUint at hvalue
      split at hvalue
      · dsimp only at hvalue
        split at hvalue
        · rename_i hlt
          rw [← Option.some.inj hvalue]
          exact hlt.1
        · cases hvalue
      · cases hvalue

theorem verifyAdoptionReceipt_restamp (hsha : Function.Injective sha.sum) (record : ρ) (scope : Scope)
    {md : Metadata} {p : Option ℕ} {old : String} (hp : ∀ n ∈ p, n < 2 ^ 64) (hmd : receiptOf md = some old) :
    verifyAdoptionReceipt sha wire (stampAdoptionReceipt sha wire record scope md p) scope = none := by
  rw [Option.eq_none_iff_forall_ne_some]
  intro q hq
  obtain ⟨receipt, hreceipt, hrecorded, hdigest⟩ := verifyAdoptionReceipt_eq_some hq
  rw [receiptOf_stamp] at hreceipt
  obtain rfl := Option.some.inj hreceipt
  rw [recordedPredecessor_adoptionReceipt sha wire _ _ hp] at hrecorded
  obtain rfl := Option.some.inj hrecorded
  obtain ⟨-, hlookup⟩ := sameMessage_of_adoptionReceipt hsha hdigest
  have hkey := hlookup adoptionReceiptKey
  rw [Adoptable.get_set, Adoptable.get_set] at hkey
  have hnone := receiptOf_withoutReceipt (tenantMetadataOf (stampAdoptionReceipt sha wire record scope md p))
  rw [receiptOf] at hnone hmd
  rw [hnone, hmd] at hkey
  cases hkey

end

/-- A record that is stamped passes with the predecessor it was stamped with. A record
that passes carries the receipt that stamping its content would give, and that receipt
is one of no other scope, predecessor or content. -/
theorem receipts_exact (sha : Digest) (hsha : Function.Injective sha.sum) {ρ : Type} [Adoptable ρ]
    (wire : Marshal ρ) :
    (∀ (record : ρ) (scope : Scope) (md : Metadata) (p : Option ℕ), receiptOf md = none →
      (∀ n ∈ p, n < 2 ^ 64) →
      verifyAdoptionReceipt sha wire (stampAdoptionReceipt sha wire record scope md p) scope = some p) ∧
    ∀ (record : ρ) (scope : Scope) (p : Option ℕ), Made scope →
      verifyAdoptionReceipt sha wire record scope = some p →
      receiptOf (tenantMetadataOf record) = receiptOf (tenantMetadataOf
        (stampAdoptionReceipt sha wire record scope (withoutReceipt (tenantMetadataOf record)) p)) ∧
      ∀ (other : ρ) (scope' : Scope) (md : Metadata) (p' : Option ℕ), Made scope' →
        (∀ n ∈ p', n < 2 ^ 64) →
        receiptOf (tenantMetadataOf (stampAdoptionReceipt sha wire other scope' md p')) =
          receiptOf (tenantMetadataOf record) → scope' = scope ∧ p' = p ∧ SameMessage (setTenantMetadata other md)
          (setTenantMetadata record (withoutReceipt (tenantMetadataOf record))) := by
  refine ⟨fun record scope md p hmd hp => verifyAdoptionReceipt_stamp record hmd hp, ?_⟩
  intro record scope p hscope hverify
  obtain ⟨receipt, hreceipt, hrecorded, hdigest⟩ := verifyAdoptionReceipt_eq_some hverify
  refine ⟨?_, fun other scope' md p' hscope' hp' hsame => ?_⟩
  · rw [receiptOf_stamp, hreceipt, hdigest]
  · rw [receiptOf_stamp, hreceipt, ← hdigest] at hsame
    exact adoptionReceipt_inj hsha hscope' hscope hp' (recordedPredecessor_lt hrecorded) (Option.some.inj hsame)

section
open Enginetest

def stampedCredit : Event :=
  stampAdoptionReceipt testDigest (testMarshal eventCode) (credited "account" 4 0) .unscoped
    (marshalMetadata (.tenant "acme")) (some 3)

theorem receipts_exact_credit :
    verifyAdoptionReceipt testDigest (testMarshal eventCode) stampedCredit .unscoped = some (some 3) ∧
      ∀ p, verifyAdoptionReceipt testDigest (testMarshal eventCode) stampedCredit (.tenant "globex") ≠ some p := by
  obtain ⟨hpasses, hexact⟩ := receipts_exact testDigest testDigest_injective (testMarshal eventCode)
  refine ⟨hpasses _ _ _ _ rfl (by simp), fun p hp => ?_⟩
  obtain ⟨-, honly⟩ := hexact stampedCredit (.tenant "globex") p (by simp [Made]) hp
  obtain ⟨hscope, -, -⟩ := honly (credited "account" 4 0) .unscoped (marshalMetadata (.tenant "acme"))
    (some 3) trivial
    (by simp) rfl
  cases hscope

/-- A credit that already carries a receipt. -/
theorem restamped_credit_fails : verifyAdoptionReceipt testDigest (testMarshal eventCode)
      (stampAdoptionReceipt testDigest (testMarshal eventCode) (credited "account" 4 0) .unscoped
        [(adoptionReceiptKey, "v1:0:")] (some 3)) .unscoped = none :=
  verifyAdoptionReceipt_restamp testDigest_injective _ _ (by simp)
    (show receiptOf [(adoptionReceiptKey, "v1:0:")] = some "v1:0:" from rfl)

end

end Ego.Migration

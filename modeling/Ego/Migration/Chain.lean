import Ego.Migration.Equivalence
import Ego.Enginetest.Account
import Ego.Enginetest.Adoption

/-!
# What the chain of receipts proves

Once its source is gone, a target is accepted exactly if it starts with adopted events
from the first one on.
-/

namespace Ego.Migration
open Persistence Tenancy

structure Sequenced (events : List Event) : Prop where
  distinct : (events.map (·.sequenceNumber)).Nodup
  positive : ∀ e ∈ events, 1 ≤ e.sequenceNumber
  fits : ∀ e ∈ events, e.sequenceNumber < 2 ^ 64

theorem receiptKey_ne : ∀ key ∈ [metaKeyScope, metaKeyID, metaKeyAdminActor, metaKeyAdminReason,
    metaKeyAdminCorrelation], key ≠ adoptionReceiptKey := by decide

theorem receiptOf_marshalMetadata (tenant : TenantContext) : receiptOf (marshalMetadata tenant) = none := by
  refine List.lookup_eq_none_iff.mpr fun entry hentry => ?_
  have hmem : entry.1 ∈ [metaKeyScope, metaKeyID, metaKeyAdminActor, metaKeyAdminReason,
      metaKeyAdminCorrelation] := by
    cases tenant with
    | unset => cases hentry
    | tenant id =>
      simp only [marshalMetadata, List.mem_cons, List.not_mem_nil, or_false] at hentry
      rcases hentry with rfl | rfl <;> simp
    | administrative actor reason correlationID =>
      cases correlationID with
      | none =>
        simp only [marshalMetadata, Option.map_none, Option.toList_none, List.append_nil, List.mem_cons,
          List.not_mem_nil, or_false] at hentry
        rcases hentry with rfl | rfl | rfl <;> simp
      | some c =>
        simp only [marshalMetadata, Option.map_some, Option.toList_some, List.cons_append, List.nil_append,
          List.mem_cons, List.not_mem_nil, or_false] at hentry
        rcases hentry with rfl | rfl | rfl | rfl <;> simp
  exact bne_iff_ne.mpr (receiptKey_ne entry.1 hmem).symm

theorem unmarshalMetadata_receipt (md : Metadata) (receipt : String) :
    unmarshalMetadata (withoutReceipt md ++ [(adoptionReceiptKey, receipt)]) = unmarshalMetadata md := by
  have hget (key : String) (h : key ∈ [metaKeyScope, metaKeyID, metaKeyAdminActor, metaKeyAdminReason,
      metaKeyAdminCorrelation]) :
      Metadata.get (withoutReceipt md ++ [(adoptionReceiptKey, receipt)]) key = Metadata.get md key := by
    have hne := receiptKey_ne key h
    unfold Metadata.get
    rw [List.lookup_append, lookup_withoutReceipt hne, List.lookup_cons, beq_false_of_ne hne]
    simp
  unfold unmarshalMetadata
  rw [hget metaKeyScope (by simp), hget metaKeyID (by simp), hget metaKeyAdminActor (by simp),
    hget metaKeyAdminReason (by simp), hget metaKeyAdminCorrelation (by simp)]

theorem ownedByTenant_stamp {sha : Digest} {ρ : Type} [Adoptable ρ] {wire : Marshal ρ} {scope : Scope} (record : ρ)
    {id : TenantID} (h : newTenantID id = .ok id) (predecessor : Option ℕ) :
    ownedByTenant (tenantMetadataOf (stampAdoptionReceipt sha wire record scope (marshalMetadata (.tenant id))
      predecessor)) (.tenant id) = true := by
  simp only [stampAdoptionReceipt, Adoptable.get_set]
  rw [ownedByTenant, unmarshalMetadata_receipt, unmarshalMetadata_tenant h]
  simp [verifyUnchanged, Except.toBool]

section
variable {sha : Digest} {wire : Marshal Event} {scope : Scope}

@[simp] theorem stampAdoptionReceipt_sequenceNumber (e : Event) (md : Metadata) (predecessor : Option ℕ) :
    (stampAdoptionReceipt sha wire e scope md predecessor).sequenceNumber = e.sequenceNumber := rfl

theorem bySequence_map {f : Event → Event} (h : ∀ e, (f e).sequenceNumber = e.sequenceNumber)
    (events : List Event) :
    bySequence (events.map f) = (bySequence events).map f := by
  refine (List.map_insertionSort _ _ f events fun a _ b _ => ?_).symm
  rw [h, h]

variable {events : List Event} {previous : ℕ}

theorem chained_map {md : Metadata} (hmd : receiptOf md = none) {p : ℕ → ℕ}
    (hprevious : previous < 2 ^ 64) (hfits : ∀ e ∈ events, e.sequenceNumber < 2 ^ 64)
    (hdistinct : (events.map (·.sequenceNumber)).Nodup)
    (hp : ∀ e ∈ events, p e.sequenceNumber = (((events.map (·.sequenceNumber)).zip
      (previous :: events.map (·.sequenceNumber))).lookup e.sequenceNumber).getD 0) : Chained sha wire scope previous
      (events.map fun e => stampAdoptionReceipt sha wire e scope md (some (p e.sequenceNumber))) := by
  induction events generalizing previous with
  | nil => trivial
  | cons e events ih =>
    rw [List.map_cons, List.nodup_cons] at hdistinct
    obtain ⟨hfit, hfits⟩ := List.forall_mem_cons.mp hfits
    obtain ⟨hhead, htail⟩ := List.forall_mem_cons.mp hp
    have hpe : p e.sequenceNumber = previous := by simpa using hhead
    refine ⟨?_, ih hfit hfits hdistinct.2 fun x hx => ?_⟩
    · dsimp only
      rw [hpe]
      exact verifyAdoptionReceipt_stamp e hmd fun n hn => Option.some.inj hn ▸ hprevious
    · have hne : (x.sequenceNumber == e.sequenceNumber) = false :=
        beq_false_of_ne fun heq => hdistinct.1 (heq ▸ List.mem_map_of_mem hx)
      rw [htail x hx, List.map_cons, List.zip_cons_cons, List.lookup_cons, hne]
      rfl

theorem chained_stampEvents {md : Metadata} (hmd : receiptOf md = none) {events : List Event}
    (h : Sequenced events) : Chained sha wire scope 0 (bySequence (stampEvents sha wire scope md events)) := by
  have hperm := bySequence_perm events
  have hseqs : (events.map (·.sequenceNumber)).insertionSort (· ≤ ·) =
      (bySequence events).map (·.sequenceNumber) :=
    (List.map_insertionSort (fun x y : Event => x.sequenceNumber ≤ y.sequenceNumber) (· ≤ ·) (·.sequenceNumber)
      events fun _ _ _ _ => Iff.rfl).symm
  unfold stampEvents
  rw [bySequence_map fun e => stampAdoptionReceipt_sequenceNumber e _ _]
  refine chained_map hmd (Nat.two_pow_pos 64) (fun e he => h.fits e (hperm.mem_iff.mp he))
    ((hperm.map _).nodup_iff.mpr h.distinct) fun e _ => ?_
  rw [predecessorOf, adoptedPredecessors, hseqs]

theorem Chained.verified (h : Chained sha wire scope previous events) {a : Event}
    (ha : a ∈ events) : ∃ q, verifyAdoptionReceipt sha wire a scope = some (some q) := by
  induction events generalizing previous with
  | nil => cases ha
  | cons e events ih =>
    rcases List.mem_cons.mp ha with rfl | ha
    · exact ⟨previous, h.1⟩
    · exact ih h.2 ha

theorem Chained.predecessor_ge (h : Chained sha wire scope previous events)
    (hsorted : (previous :: events.map (·.sequenceNumber)).Pairwise (· < ·)) {a : Event} (ha : a ∈ events)
    {q : ℕ}
    (hq : verifyAdoptionReceipt sha wire a scope = some (some q)) : previous ≤ q := by
  induction events generalizing previous with
  | nil => cases ha
  | cons e events ih =>
    obtain ⟨hlt, htail⟩ := List.pairwise_cons.mp hsorted
    rcases List.mem_cons.mp ha with rfl | ha
    · exact Nat.le_of_eq (Option.some.inj (Option.some.inj (h.1.symm.trans hq)))
    · exact Nat.le_trans (Nat.le_of_lt (hlt _ List.mem_cons_self)) (ih h.2 htail ha)

theorem Chained.follows (hsha : Function.Injective sha.sum) {adopted kept : List Event}
    (hadopted : Chained sha wire scope previous adopted)
    (hsorted : (previous :: adopted.map (·.sequenceNumber)).Pairwise (· < ·))
    (hkept : Chained sha wire scope previous kept)
    (hissued : ∀ e ∈ kept, ∃ a q, verifyAdoptionReceipt sha wire a scope = some (some q) ∧
      receiptOf a.tenantMetadata = receiptOf e.tenantMetadata ∧ (a ∈ adopted ∨ q < previous)) :
    ∃ rest later, adopted = rest ++ later ∧ List.Forall₂ SameMessage kept rest := by
  induction kept generalizing previous adopted with
  | nil => exact ⟨[], adopted, rfl, .nil⟩
  | cons e kept ih =>
    obtain ⟨hhead, hrest⟩ := List.forall_mem_cons.mp hissued
    obtain ⟨a, q, hq, hreceipt, hin⟩ := hhead
    obtain ⟨heq, hsame⟩ := same_of_receipt hsha hkept.1 hq hreceipt.symm
    obtain rfl : previous = q := Option.some.inj heq
    replace hin := hin.resolve_right (Nat.lt_irrefl _)
    cases adopted with
    | nil => cases hin
    | cons b adopted =>
      obtain ⟨hlt, htail⟩ := List.pairwise_cons.mp hsorted
      have hb : previous < b.sequenceNumber := hlt _ List.mem_cons_self
      -- only the first of the remaining adopted events records `previous`
      have hab : a = b := by
        rcases List.mem_cons.mp hin with rfl | hin
        · rfl
        · exact absurd (hadopted.2.predecessor_ge htail hin hq) (Nat.not_le_of_lt hb)
      subst hab
      have hseq := hsame.sequenceNumber_eq
      have hkept' := hkept.2
      rw [hseq] at hkept'
      obtain ⟨rest, later, rfl, hforall⟩ := ih hadopted.2 htail hkept' fun x hx => by
        obtain ⟨a', q', hq', hreceipt', hin'⟩ := hrest x hx
        refine ⟨a', q', hq', hreceipt', ?_⟩
        rcases hin' with hin' | hlt'
        · rcases List.mem_cons.mp hin' with rfl | hin'
          · obtain rfl : previous = q' := Option.some.inj (Option.some.inj (hadopted.1.symm.trans hq'))
            exact .inr hb
          · exact .inl hin'
        · exact .inr (Nat.lt_trans hlt' hb)
      exact ⟨a :: rest, later, rfl, .cons hsame hforall⟩

theorem Chained.congr {xs ys : List Event} (h : List.Forall₂ SameMessage xs ys)
    (hy : Chained sha wire scope previous ys) : Chained sha wire scope previous xs := by
  induction h generalizing previous with
  | nil => trivial
  | cons hsame _ ih =>
    refine ⟨(verifyAdoptionReceipt_congr hsame).trans hy.1, ?_⟩
    rw [hsame.sequenceNumber_eq]
    exact ih hy.2

theorem Chained.of_append {xs ys : List Event} (h : Chained sha wire scope previous (xs ++ ys)) :
    Chained sha wire scope previous xs := by
  induction xs generalizing previous with
  | nil => trivial
  | cons x xs ih => exact ⟨h.1, ih h.2⟩

end

theorem exists_of_forall₂ {α β : Type} {R : α → β → Prop} {xs : List α} {ys : List β}
    (h : List.Forall₂ R xs ys) :
    (∀ x ∈ xs, ∃ y ∈ ys, R x y) ∧ ∀ y ∈ ys, ∃ x ∈ xs, R x y := by
  induction h with
  | nil => simp
  | cons hr _ ih =>
    refine ⟨List.forall_mem_cons.mpr ⟨⟨_, List.mem_cons_self, hr⟩, fun x hx => ?_⟩,
      List.forall_mem_cons.mpr ⟨⟨_, List.mem_cons_self, hr⟩, fun y hy => ?_⟩⟩
    · obtain ⟨y, hy, hxy⟩ := ih.1 x hx
      exact ⟨y, List.mem_cons_of_mem _ hy, hxy⟩
    · obtain ⟨x, hx, hxy⟩ := ih.2 y hy
      exact ⟨x, List.mem_cons_of_mem _ hx, hxy⟩

/-- Of the adopted events the target holds the first `k`, unaltered, and behind
them only events without a receipt. -/
def Remains (adopted : List Event) (k : ℕ) (target : List Event) (tenant : TenantContext) : Prop :=
  (target.map (·.sequenceNumber)).Nodup ∧ (∀ e ∈ target, ownedByTenant e.tenantMetadata tenant = true) ∧
    ∃ kept own, bySequence target = kept ++ own ∧ List.Forall₂ SameMessage kept ((bySequence adopted).take k) ∧
      ∀ e ∈ own, receiptOf e.tenantMetadata = none

section
variable (sha : Digest) (wire : Marshal Event) (sourceScope : Scope) (tenant : TenantContext)

theorem accepted_iff_remains (hsha : Function.Injective sha.sum) (id : String) {source : List Event}
    (hsource : Sequenced source) {target : List Event}
    (hissued : ∀ e ∈ target, ∀ r, receiptOf e.tenantMetadata = some r →
      ∃ a ∈ stampEvents sha wire sourceScope (marshalMetadata tenant) source, receiptOf a.tenantMetadata = some r) :
    verifyEventsEquivalent sha wire id [] target tenant sourceScope = .ok () ↔ ∃ k, 0 < k ∧
      k ≤ source.length ∧
        Remains (stampEvents sha wire sourceScope (marshalMetadata tenant) source) k target tenant := by
  have hchain := @chained_stampEvents sha wire sourceScope _ (receiptOf_marshalMetadata tenant) _ hsource
  have hperm := bySequence_perm (stampEvents sha wire sourceScope (marshalMetadata tenant) source)
  have hlength : (bySequence (stampEvents sha wire sourceScope (marshalMetadata tenant) source)).length =
      source.length := by
    rw [hperm.length_eq, stampEvents, List.length_map]
  have hsorted : (0 :: (bySequence (stampEvents sha wire sourceScope (marshalMetadata tenant) source)).map
      (·.sequenceNumber)).Pairwise (· < ·) := by
    have hnumbers : (stampEvents sha wire sourceScope (marshalMetadata tenant) source).map (·.sequenceNumber) =
        source.map (·.sequenceNumber) := by
      rw [stampEvents, List.map_map]
      rfl
    refine List.pairwise_cons.mpr ⟨fun n hn => ?_, List.pairwise_map.mpr (bySequence_increasing ?_)⟩
    · rw [(hperm.map _).mem_iff, hnumbers] at hn
      obtain ⟨e, he, rfl⟩ := List.mem_map.mp hn
      exact hsource.positive e he
    · rw [hnumbers]
      exact hsource.distinct
  have hissued' : ∀ e ∈ target, ∀ r, receiptOf e.tenantMetadata = some r →
      ∃ a ∈ bySequence (stampEvents sha wire sourceScope (marshalMetadata tenant) source),
        receiptOf a.tenantMetadata = some r := fun e he r hr => by
    obtain ⟨a, ha, har⟩ := hissued e he r hr
    exact ⟨a, hperm.mem_iff.mpr ha, har⟩
  rw [verifyEventsEquivalent_nil]
  unfold Remains
  generalize bySequence (stampEvents sha wire sourceScope (marshalMetadata tenant) source) = adopted
    at hchain hlength hsorted hissued'
  have hmem (e : Event) : e ∈ bySequence target ↔ e ∈ target := (bySequence_perm target).mem_iff
  constructor
  · rintro ⟨hn, howned, kept, own, happ, hne, hkept, hown⟩
    obtain ⟨rest, later, rfl, hsame⟩ := hchain.follows hsha hsorted hkept fun e he => by
      obtain ⟨r, hr⟩ := Option.ne_none_iff_exists'.mp (hkept.receipt e he)
      obtain ⟨a, ha, har⟩ := hissued' e ((hmem e).mp (by rw [happ]; exact List.mem_append_left _ he)) r hr
      obtain ⟨q, hq⟩ := hchain.verified ha
      exact ⟨a, q, hq, har.trans hr.symm, .inl ha⟩
    have hlen := hsame.length_eq
    have hpos := List.length_pos_iff.mpr hne
    rw [List.length_append] at hlength
    refine ⟨rest.length, by omega, by omega, hn, howned, kept, own, happ, ?_, hown⟩
    rwa [List.take_left]
  · rintro ⟨k, hk, hle, hn, howned, kept, own, happ, hsame, hown⟩
    have hlen := hsame.length_eq
    rw [List.length_take, hlength] at hlen
    refine ⟨hn, howned, kept, own, happ, fun hnil => ?_, ?_, hown⟩
    · rw [hnil, List.length_nil] at hlen
      omega
    · rw [← List.take_append_drop k adopted] at hchain
      exact hchain.of_append.congr hsame

/-- All adopted events are there if the target is accepted, unless it is the case
that some of the last ones, and nothing else, are gone. -/
theorem adoption_proven_iff (hsha : Function.Injective sha.sum) (id : String) {source : List Event}
    (hsource : Sequenced source) {target : List Event}
    (hissued : ∀ e ∈ target, ∀ r, receiptOf e.tenantMetadata = some r →
      ∃ a ∈ stampEvents sha wire sourceScope (marshalMetadata tenant) source, receiptOf a.tenantMetadata = some r) :
    let adopted := stampEvents sha wire sourceScope (marshalMetadata tenant) source
    (verifyEventsEquivalent sha wire id [] target tenant sourceScope = .ok () →
      ∀ a ∈ adopted, ∃ e ∈ target, SameMessage e a) ↔
      ¬ ∃ k, 0 < k ∧ k < adopted.length ∧ Remains adopted k target tenant := by
  intro adopted
  have hlength : adopted.length = source.length := List.length_map _
  have hperm := bySequence_perm adopted
  have hlen : (bySequence adopted).length = source.length := hperm.length_eq.trans hlength
  have hmem (e : Event) : e ∈ bySequence target ↔ e ∈ target := (bySequence_perm target).mem_iff
  rw [accepted_iff_remains sha wire sourceScope tenant hsha id hsource hissued]
  constructor
  · rintro hpresent ⟨k, hk, hlt, hremains⟩
    have hall := hpresent ⟨k, hk, by omega, hremains⟩
    obtain ⟨-, -, kept, own, happ, hsame, hown⟩ := hremains
    -- the last adopted event is behind the ones that are left
    obtain ⟨a, ha⟩ : ∃ a, a ∈ (bySequence adopted).drop k :=
      List.exists_mem_of_length_pos (by rw [List.length_drop]; omega)
    have hadopted := List.mem_of_mem_drop ha
    obtain ⟨e, he, hea⟩ := hall a (hperm.mem_iff.mp hadopted)
    rw [← hmem, happ] at he
    rcases List.mem_append.mp he with he | he
    · obtain ⟨b, hb, heb⟩ := (exists_of_forall₂ hsame).1 e he
      have hnumbers : adopted.map (·.sequenceNumber) = source.map (·.sequenceNumber) := List.map_map
      have hincreasing := bySequence_increasing (hnumbers ▸ hsource.distinct)
      rw [← List.take_append_drop k (bySequence adopted)] at hincreasing
      have hba := (List.pairwise_append.mp hincreasing).2.2 b hb a ha
      rw [← heb.sequenceNumber_eq, hea.sequenceNumber_eq] at hba
      exact Nat.lt_irrefl _ hba
    · have hreceipt := (chained_stampEvents (receiptOf_marshalMetadata tenant) hsource).receipt a hadopted
      exact hreceipt ((hea.2 adoptionReceiptKey).symm.trans (hown e he))
  · rintro hnone ⟨k, hk, hle, hremains⟩ a ha
    have hall : k = source.length := by
      by_contra hne
      exact hnone ⟨k, hk, by omega, hremains⟩
    obtain ⟨-, -, kept, own, happ, hsame, -⟩ := hremains
    rw [List.take_of_length_le (Nat.le_of_eq (hlen.trans hall.symm))] at hsame
    obtain ⟨e, he, hea⟩ := (exists_of_forall₂ hsame).2 a (hperm.mem_iff.mpr ha)
    exact ⟨e, (hmem e).mp (by rw [happ]; exact List.mem_append_left _ he), hea⟩

end

section
open Enginetest

def adoptedCredits (n : ℕ) : List Event :=
  (stampEvents testDigest (testMarshal eventCode) .unscoped (marshalMetadata (.tenant "acme"))
    [credited "account" 1 0, credited "account" 2 0]).take n

theorem sequenced_credits : Sequenced [credited "account" 1 0, credited "account" 2 0] :=
  ⟨by decide, by decide, by decide⟩

theorem mem_adoptedCredits {n : ℕ} {e : Event} (h : e ∈ adoptedCredits n) : e ∈ adoptedCredits 2 := by
  have hall : adoptedCredits 2 = stampEvents testDigest (testMarshal eventCode) .unscoped
      (marshalMetadata (.tenant "acme")) [credited "account" 1 0, credited "account" 2 0] := rfl
  exact List.mem_of_mem_take h

theorem remains_credits (n : ℕ) : Remains (adoptedCredits 2) n (adoptedCredits n) (.tenant "acme") := by
  have hincreasing (n : ℕ) : (adoptedCredits n).Pairwise fun x y => x.sequenceNumber < y.sequenceNumber := by
    refine List.Pairwise.sublist (List.take_sublist n _) ?_
    simp [stampEvents, credited]
  have hsorted (n : ℕ) : bySequence (adoptedCredits n) = adoptedCredits n :=
    ((hincreasing n).imp Nat.le_of_lt).insertionSort_eq
  refine ⟨List.nodup_iff_pairwise_ne.mpr (List.pairwise_map.mpr ((hincreasing n).imp Nat.ne_of_lt)), fun e he => ?_,
    adoptedCredits n, [], ?_, ?_, by simp⟩
  · unfold adoptedCredits stampEvents at he
    obtain ⟨x, -, rfl⟩ := List.mem_map.mp (List.mem_of_mem_take he)
    exact ownedByTenant_stamp x (by decide) _
  · rw [hsorted, List.append_nil]
  · rw [hsorted]
    exact List.forall₂_same.mpr fun x _ => SameMessage.refl x

theorem issued_credits (n : ℕ) : ∀ e ∈ adoptedCredits n, ∀ r, receiptOf e.tenantMetadata = some r →
    ∃ a ∈ adoptedCredits 2, receiptOf a.tenantMetadata = some r :=
  fun e he _ hr => ⟨e, mem_adoptedCredits he, hr⟩

/-- With both copies in place the target is accepted, and rightly so. -/
theorem adoption_proven_credits : Remains (adoptedCredits 2) 2 (adoptedCredits 2) (.tenant "acme") ∧
    (verifyEventsEquivalent testDigest (testMarshal eventCode) "account" [] (adoptedCredits 2) (.tenant "acme")
      .unscoped = .ok () → ∀ a ∈ adoptedCredits 2, ∃ e ∈ adoptedCredits 2, SameMessage e a) := by
  refine ⟨remains_credits 2, (adoption_proven_iff testDigest (testMarshal eventCode) .unscoped (.tenant "acme")
    testDigest_injective "account" sequenced_credits (issued_credits 2)).2 ?_⟩
  rintro ⟨k, hk, hlt, -, -, kept, own, happ, hsame, hown⟩
  have hreceipt := (@chained_stampEvents testDigest (testMarshal eventCode) .unscoped _
    (receiptOf_marshalMetadata (.tenant "acme")) _ sequenced_credits).receipt
  change ∀ e ∈ bySequence (adoptedCredits 2), _ at hreceipt
  have hlen := congrArg List.length happ
  have hkept : kept.length = ((bySequence (adoptedCredits 2)).take k).length := hsame.length_eq
  have htwo : (bySequence (adoptedCredits 2)).length = 2 := (bySequence_perm _).length_eq
  change k < 2 at hlt
  rw [List.length_take, htwo] at hkept
  rw [List.length_append, htwo] at hlen
  -- what follows a proper part of the adopted events would be adopted as well
  obtain ⟨e, he⟩ : ∃ e, e ∈ own := List.exists_mem_of_length_pos (by omega)
  exact hreceipt e (by rw [happ]; exact List.mem_append_right _ he) (hown e he)

/-- The second of two adopted events is removed, and the target is still accepted. -/
theorem last_credit_missing :
    verifyEventsEquivalent testDigest (testMarshal eventCode) "account" [] (adoptedCredits 1) (.tenant "acme")
      .unscoped = .ok () ∧ ∃ a ∈ adoptedCredits 2, ¬ ∃ e ∈ adoptedCredits 1, SameMessage e a := by
  constructor
  · exact (accepted_iff_remains testDigest (testMarshal eventCode) .unscoped (.tenant "acme")
      testDigest_injective "account" sequenced_credits (issued_credits 1)).2 ⟨1, by decide, by decide,
        remains_credits 1⟩
  · refine ⟨_, List.mem_cons_of_mem _ List.mem_cons_self, ?_⟩
    rintro ⟨e, he, hsame⟩
    have hseq := hsame.sequenceNumber_eq
    rw [List.mem_singleton.mp he] at hseq
    cases hseq

end

end Ego.Migration

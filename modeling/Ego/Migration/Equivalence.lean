import Ego.Lib.Except
import Ego.Migration.Receipt
import Mathlib.Data.List.Dedup

/-!
# When a target is an adoption (`migration/tenant_adoption.go:980-1025, 1198-1315, 1409-1426`)

While the source exists a target is compared with it; once it is gone the receipts have
to do.
-/

namespace Ego.Migration
open Persistence Tenancy

inductive RecordKind where
  | events
  | snapshot
  | durableState
  deriving DecidableEq, Repr

def RecordKind.text : RecordKind → String
  | .events => "events"
  | .snapshot => "snapshot"
  | .durableState => "durable_state"

def errTargetNotEquivalent :=
  "migration: target tenant scope holds a record for this persistence id that is not equivalent " ++
    "to this adoption"

def notEquivalent (id : String) (kind : RecordKind) (detail : String) : Err :=
  .message (errTargetNotEquivalent ++ ": persistence_id " ++ quote id ++ " kind " ++ kind.text ++ ": " ++ detail)

def ownedByTenant (metadata : Metadata) (tenant : TenantContext) : Bool :=
  match unmarshalMetadata metadata with
  | .error _ => false
  | .ok decoded => (verifyUnchanged tenant decoded).toBool

def bySequence (events : List Event) : List Event :=
  events.insertionSort fun x y => x.sequenceNumber ≤ y.sequenceNumber

/-- Each sequence number with the one before it, and the lowest with 0. -/
def adoptedPredecessors (events : List Event) : List (ℕ × ℕ) :=
  let seqs := (events.map (·.sequenceNumber)).insertionSort (· ≤ ·)
  seqs.zip (0 :: seqs)

def predecessorOf (events : List Event) (seq : ℕ) : ℕ := ((adoptedPredecessors events).lookup seq).getD 0

def checkExisting (id : String) (tenant : TenantContext) : List ℕ → List Event → Except Err Unit
  | _, [] => .ok ()
  | seen, e :: existing =>
    let seq := e.sequenceNumber
    if seq ∈ seen then .error (notEquivalent id .events ("sequence " ++ toString seq ++ " appears more than once"))
    else if !ownedByTenant e.tenantMetadata tenant then
      .error (notEquivalent id .events ("sequence " ++ toString seq ++ " is not owned by the assigned tenant"))
    else checkExisting id tenant (seq :: seen) existing

def checkContained (id : String) (existing : List Event) : List Event → Except Err Unit
  | [] => .ok ()
  | want :: expected =>
    let differs := notEquivalent id .events ("sequence " ++ toString want.sequenceNumber ++ " differs from the source")
    match existing.find? fun e => e.sequenceNumber = want.sequenceNumber with
    | none => .error differs
    | some got => if protoEqual want got then checkContained id existing expected else .error differs

def maxSequence (events : List Event) : ℕ := events.foldl (fun n e => max n e.sequenceNumber) 0

def checkOthers (id : String) (expected existing : List Event) : Except Err Unit :=
  match (bySequence existing).find? fun e =>
      e.sequenceNumber ∉ expected.map (·.sequenceNumber) ∧ e.sequenceNumber < maxSequence expected with
  | none => .ok ()
  | some e => .error (notEquivalent id .events
      ("sequence " ++ toString e.sequenceNumber ++ " is not part of the source stream"))

section
variable (sha : Digest) (wire : Marshal Event)

/-- The receipt-bearing prefix, as long as it is a chain, and the events that follow it. -/
def walkChain (id : String) (sourceScope : Scope) : ℕ → List Event → Except Err (List Event × List Event)
  | _, [] => .ok ([], [])
  | previous, e :: events =>
    let seq := toString e.sequenceNumber
    if receiptOf e.tenantMetadata = none then .ok ([], e :: events)
    else
      match verifyAdoptionReceipt sha wire e sourceScope with
      | some (some predecessor) =>
        if predecessor ≠ previous then
          .error (notEquivalent id .events ("adopted sequence " ++ seq ++ " follows adopted sequence " ++
            toString previous ++ ", but its receipt records " ++ toString predecessor ++
            ": the adopted chain is broken"))
        else (walkChain id sourceScope e.sequenceNumber events).map fun (adopted, rest) => (e :: adopted, rest)
      | _ => .error (notEquivalent id .events ("sequence " ++ seq ++ " does not match its adoption receipt"))

def checkReceipts (id : String) (sourceScope : Scope) (existing : List Event) : Except Err Unit := do
  let (adopted, rest) ← walkChain sha wire id sourceScope 0 (bySequence existing)
  if adopted = [] then
    .error (notEquivalent id .events
      "the source is gone and no target event carries an adoption receipt, so an adoption cannot be proven")
  else
    match rest.find? fun e => receiptOf e.tenantMetadata ≠ none with
    | none => .ok ()
    | some e => .error (notEquivalent id .events
        ("adopted sequence " ++ toString e.sequenceNumber ++ " follows events written after adoption"))

def verifyEventsEquivalent (id : String) (expected existing : List Event) (tenant : TenantContext)
    (sourceScope : Scope) : Except Err Unit := do
  checkExisting id tenant [] existing
  if expected ≠ [] then do
    checkContained id existing expected
    checkOthers id expected existing
  else checkReceipts sha wire id sourceScope existing

def verifyRecordEquivalent {ρ : Type} [Adoptable ρ] [DecidableEq ρ] (wire : Marshal ρ) (position : ρ → ℕ)
    (id : String)
    (kind : RecordKind) (expected : Option ρ) (existing : ρ) (tenant : TenantContext) (sourceScope : Scope) :
    Except Err Unit :=
  let existingPos := toString (position existing)
  if !ownedByTenant (tenantMetadataOf existing) tenant then
    .error (notEquivalent id kind "target record is not owned by the assigned tenant")
  else
    match expected with
    | none =>
      if verifyAdoptionReceipt sha wire existing sourceScope = some none then .ok ()
      else .error (notEquivalent id kind ("the source is gone and the target record at " ++ existingPos ++
        " carries no valid adoption receipt, so an adoption cannot be proven"))
    | some want =>
      if position existing ≠ position want ∨ !protoEqual want existing then
        .error (notEquivalent id kind ("target record at " ++ existingPos ++
          " is not the exact adoption of the source at " ++ toString (position want)))
      else .ok ()

def stampEvents (sourceScope : Scope) (metadata : Metadata) (events : List Event) : List Event :=
  events.map fun e =>
    stampAdoptionReceipt sha wire e sourceScope metadata (some (predecessorOf events e.sequenceNumber))

end

def atSequence (events : List Event) (seq : ℕ) : Option Event :=
  events.reverse.find? fun e => e.sequenceNumber = seq

def matchBySequence (mismatch : String → Except Err Unit) (expected written : List Event) : List ℕ →
    Except Err Unit
  | [] => .ok ()
  | seq :: seqs =>
    match atSequence expected seq, atSequence written seq with
    | some want, some got =>
      if protoEqual want got then matchBySequence mismatch expected written seqs
      else mismatch ("sequence " ++ toString seq ++ " does not match what was written")
    | _, _ => mismatch ("sequence " ++ toString seq ++ " is missing from the target read-back")

/-- The source ranges over a map here, in no certain order; the order decides which
of several errors is returned. -/
def verifyEventsMatchBySequence (id : String) (expected written : List Event) : Except Err Unit :=
  let mismatch detail : Except Err Unit :=
    .error (.message ("verify target events for persistence_id " ++ quote id ++ ": " ++ detail))
  let expectedSeqs := (expected.map (·.sequenceNumber)).dedup
  let writtenSeqs := (written.map (·.sequenceNumber)).dedup
  if writtenSeqs.length ≠ written.length then
    mismatch "read-back carries more than one row for a sequence number"
  else if writtenSeqs.length ≠ expectedSeqs.length then
    mismatch ("wrote " ++ toString expectedSeqs.length ++ " distinct sequence numbers, read back " ++
      toString writtenSeqs.length)
  else matchBySequence mismatch expected written expectedSeqs

def firstRepeated : List ℕ → List Event → Option ℕ
  | _, [] => none
  | seen, e :: events =>
    if e.sequenceNumber ∈ seen then some e.sequenceNumber else firstRepeated (e.sequenceNumber :: seen) events

def checkUnchanged (verified : List Event) : List ℕ → List Event → Except String Unit
  | _, [] => .ok ()
  | seen, e :: current =>
    let seq := toString e.sequenceNumber
    if e.sequenceNumber ∈ seen then .error ("source repeats sequence " ++ seq)
    else
      match verified.find? fun want => want.sequenceNumber = e.sequenceNumber with
      | none => .error ("source sequence " ++ seq ++ " was not verified")
      | some want =>
        if protoEqual e want then checkUnchanged verified (e.sequenceNumber :: seen) current
        else .error ("source sequence " ++ seq ++ " changed after it was verified")

def sameEventsBySequence (current verified : List Event) : Except String Unit :=
  if current.length ≠ verified.length then
    .error ("source holds " ++ toString current.length ++ " events, " ++ toString verified.length ++ " were verified")
  else
    match firstRepeated [] verified with
    | some seq => .error ("verified events repeat sequence " ++ toString seq)
    | none => checkUnchanged verified [] current

theorem SameMessage.sequenceNumber_eq {x y : Event} (h : SameMessage x y) : x.sequenceNumber = y.sequenceNumber := by
  have hrecord := congrArg Event.sequenceNumber h.1
  exact hrecord

variable {id : String} {tenant : TenantContext} {seen : List ℕ} {existing : List Event}

theorem checkExisting_ok : checkExisting id tenant seen existing = .ok () ↔
      (existing.map (·.sequenceNumber)).Nodup ∧ (∀ e ∈ existing, e.sequenceNumber ∉ seen) ∧
        ∀ e ∈ existing, ownedByTenant e.tenantMetadata tenant = true := by
  induction existing generalizing seen with
  | nil => simp [checkExisting]
  | cons e existing ih =>
    unfold checkExisting
    by_cases hseen : e.sequenceNumber ∈ seen
    · rw [if_pos hseen]
      simp [hseen]
    · rw [if_neg hseen]
      cases howned : ownedByTenant e.tenantMetadata tenant with
      | false => simp [howned]
      | true =>
        rw [Bool.not_true, if_neg Bool.false_ne_true, ih, List.map_cons, List.nodup_cons]
        simp only [List.mem_cons, not_or, forall_eq_or_imp, howned, hseen, not_false_eq_true, true_and, List.mem_map,
          not_exists, not_and]
        constructor
        · rintro ⟨hn, hothers, hall⟩
          exact ⟨⟨fun x hx hxe => (hothers x hx).1 hxe, hn⟩, fun x hx => (hothers x hx).2, hall⟩
        · rintro ⟨⟨hne, hn⟩, hothers, hall⟩
          exact ⟨hn, fun x hx => ⟨hne x hx, hothers x hx⟩, hall⟩

variable {expected : List Event}

theorem checkContained_ok
    (hn : (existing.map (·.sequenceNumber)).Nodup) : checkContained id existing expected = .ok () ↔
      ∀ want ∈ expected, ∃ got ∈ existing, SameMessage want got := by
  induction expected with
  | nil => simp [checkContained]
  | cons want expected ih =>
    unfold checkContained
    rw [List.forall_mem_cons, ← ih]
    cases hfind : existing.find? fun e => e.sequenceNumber = want.sequenceNumber with
    | none =>
      have hnone : ¬ ∃ got ∈ existing, SameMessage want got := by
        rintro ⟨got, hgot, hsame⟩
        have hseq : want.sequenceNumber = got.sequenceNumber := hsame.sequenceNumber_eq
        have := List.find?_eq_none.mp hfind got hgot
        exact this (decide_eq_true hseq.symm)
      simp [hnone]
    | some got =>
      have hmem := List.mem_of_find?_eq_some hfind
      have hseq : got.sequenceNumber = want.sequenceNumber := by
        simpa using List.find?_some hfind
      have hiff : (∃ got ∈ existing, SameMessage want got) ↔ protoEqual want got = true := by
        rw [protoEqual_iff]
        constructor
        · rintro ⟨other, hother, hsame⟩
          have hseq' : want.sequenceNumber = other.sequenceNumber := hsame.sequenceNumber_eq
          rwa [List.inj_on_of_nodup_map hn hmem hother (hseq.trans hseq')]
        · exact fun hsame => ⟨got, hmem, hsame⟩
      rw [hiff]
      by_cases heq : protoEqual want got = true
      · simp [heq]
      · simp [heq]

theorem bySequence_perm (events : List Event) : (bySequence events).Perm events := List.perm_insertionSort _ _

theorem bySequence_sorted (events : List Event) :
    (bySequence events).Pairwise fun x y => x.sequenceNumber ≤ y.sequenceNumber := by
  exact List.pairwise_insertionSort _ _

variable {events : List Event}

theorem bySequence_increasing (h : (events.map (·.sequenceNumber)).Nodup) :
    (bySequence events).Pairwise fun x y => x.sequenceNumber < y.sequenceNumber := by
  have hne : (bySequence events).Pairwise fun x y => x.sequenceNumber ≠ y.sequenceNumber :=
    List.pairwise_map.mp (((bySequence_perm events).map _).nodup_iff.mpr h)
  exact ((bySequence_sorted events).and hne).imp fun ⟨hle, hne⟩ => Nat.lt_of_le_of_ne hle hne

theorem checkOthers_ok : checkOthers id expected existing = .ok () ↔
    ∀ e ∈ existing, e.sequenceNumber ∉ expected.map (·.sequenceNumber) →
      maxSequence expected ≤ e.sequenceNumber := by
  have hmem (e : Event) : e ∈ bySequence existing ↔ e ∈ existing := (bySequence_perm existing).mem_iff
  unfold checkOthers
  cases hfind : (bySequence existing).find? fun e =>
      e.sequenceNumber ∉ expected.map (·.sequenceNumber) ∧ e.sequenceNumber < maxSequence expected with
  | none =>
    refine ⟨fun _ e he hnot => ?_, fun _ => rfl⟩
    have := List.find?_eq_none.mp hfind e ((hmem e).mpr he)
    by_contra hlt
    exact this (decide_eq_true ⟨hnot, Nat.lt_of_not_le hlt⟩)
  | some e =>
    have he := (hmem e).mp (List.mem_of_find?_eq_some hfind)
    have hbad : e.sequenceNumber ∉ expected.map (·.sequenceNumber) ∧ e.sequenceNumber < maxSequence expected :=
      of_decide_eq_true (by simpa only using List.find?_some hfind)
    refine ⟨fun h => (by cases h), fun h => ?_⟩
    exact absurd (h e he hbad.1) (Nat.not_le_of_lt hbad.2)

theorem verifyRecordEquivalent_some {sha : Digest} {ρ : Type} [Adoptable ρ] [DecidableEq ρ] {wire : Marshal ρ}
    {position : ρ → ℕ} {kind : RecordKind} {want existing : ρ} {scope : Scope} :
    verifyRecordEquivalent sha wire position id kind (some want) existing tenant scope = .ok () ↔
      ownedByTenant (tenantMetadataOf existing) tenant = true ∧ position existing = position want ∧
        SameMessage want existing := by
  unfold verifyRecordEquivalent
  rw [← protoEqual_iff]
  cases ownedByTenant (tenantMetadataOf existing) tenant with
  | false => simp
  | true =>
    by_cases hpos : position existing = position want
    · by_cases heq : protoEqual want existing = true
      · simp [hpos, heq]
      · simp [hpos, heq]
    · simp [hpos]

theorem atSequence_eq_some (hn : (events.map (·.sequenceNumber)).Nodup) {seq : ℕ} {e : Event} :
    atSequence events seq = some e ↔ e ∈ events ∧ e.sequenceNumber = seq := by
  unfold atSequence
  constructor
  · intro h
    exact ⟨List.mem_reverse.mp (List.mem_of_find?_eq_some h), by simpa using List.find?_some h⟩
  · rintro ⟨he, rfl⟩
    cases hfind : events.reverse.find? fun x => x.sequenceNumber = e.sequenceNumber with
    | none => exact absurd (decide_eq_true rfl) (List.find?_eq_none.mp hfind e (List.mem_reverse.mpr he))
    | some x =>
      have hx := List.mem_reverse.mp (List.mem_of_find?_eq_some hfind)
      have hseq : x.sequenceNumber = e.sequenceNumber := by simpa using List.find?_some hfind
      rw [List.inj_on_of_nodup_map hn hx he hseq]

theorem matchBySequence_ok {mismatch : String → Except Err Unit} (hm : ∀ detail, mismatch detail ≠ .ok ())
    {written : List Event} {seqs : List ℕ} : matchBySequence mismatch expected written seqs = .ok () ↔
      ∀ seq ∈ seqs, ∃ want got, atSequence expected seq = some want ∧ atSequence written seq = some got ∧
        SameMessage want got := by
  induction seqs with
  | nil => simp [matchBySequence]
  | cons seq seqs ih =>
    unfold matchBySequence
    rw [List.forall_mem_cons, ← ih]
    cases atSequence expected seq with
    | none => simp [hm]
    | some want =>
      cases atSequence written seq with
      | none => simp [hm]
      | some got =>
        by_cases heq : protoEqual want got = true
        · simp [heq, protoEqual_iff.mp heq]
        · have hsame : ¬ SameMessage want got := fun h => heq (protoEqual_iff.mpr h)
          simp [heq, hm, hsame]

theorem verifyEventsMatchBySequence_ok {written : List Event}
    (hn : (expected.map (·.sequenceNumber)).Nodup) : verifyEventsMatchBySequence id expected written = .ok () ↔
      (written.map (·.sequenceNumber)).Nodup ∧ written.length = expected.length ∧
        ∀ want ∈ expected, ∃ got ∈ written, SameMessage want got := by
  have hdedup : (written.map (·.sequenceNumber)).dedup.length = written.length ↔
      (written.map (·.sequenceNumber)).Nodup := by
    constructor
    · intro h
      have hsub := (written.map (·.sequenceNumber)).dedup_sublist
      rw [← hsub.eq_of_length (by rw [h, List.length_map])]
      exact List.nodup_dedup _
    · intro h
      rw [h.dedup, List.length_map]
  unfold verifyEventsMatchBySequence
  by_cases hw : (written.map (·.sequenceNumber)).Nodup
  · rw [if_neg (not_not.mpr (hdedup.mpr hw)), hdedup.mpr hw, hn.dedup, List.length_map]
    by_cases hlen : written.length = expected.length
    · rw [if_neg (not_not.mpr hlen), matchBySequence_ok (by simp)]
      simp only [hw, hlen, true_and, List.mem_map, forall_exists_index, and_imp, forall_apply_eq_imp_iff₂,
        atSequence_eq_some hn, atSequence_eq_some hw]
      refine forall₂_congr fun want hwant => ?_
      constructor
      · rintro ⟨x, got, ⟨hx, hseq⟩, ⟨hgot, -⟩, hsame⟩
        exact ⟨got, hgot, List.inj_on_of_nodup_map hn hx hwant hseq ▸ hsame⟩
      · rintro ⟨got, hgot, hsame⟩
        exact ⟨want, got, ⟨hwant, rfl⟩, ⟨hgot, hsame.sequenceNumber_eq.symm⟩, hsame⟩
    · simp [hlen]
  · rw [if_pos (mt hdedup.mp hw)]
    simp [hw]

theorem firstRepeated_eq_none : firstRepeated seen events = none ↔
    (events.map (·.sequenceNumber)).Nodup ∧ ∀ e ∈ events, e.sequenceNumber ∉ seen := by
  induction events generalizing seen with
  | nil => simp [firstRepeated]
  | cons e events ih =>
    unfold firstRepeated
    by_cases hseen : e.sequenceNumber ∈ seen
    · simp [hseen]
    · rw [if_neg hseen, ih, List.map_cons, List.nodup_cons, List.forall_mem_cons]
      simp only [List.mem_cons, not_or, List.mem_map, not_exists, not_and]
      constructor
      · rintro ⟨hn, hall⟩
        exact ⟨⟨fun x hx => (hall x hx).1, hn⟩, hseen, fun x hx => (hall x hx).2⟩
      · rintro ⟨⟨hne, hn⟩, -, hall⟩
        exact ⟨hn, fun x hx => ⟨hne x hx, hall x hx⟩⟩

theorem checkUnchanged_self {verified current : List Event} (hv : (verified.map (·.sequenceNumber)).Nodup)
    (hn : (current.map (·.sequenceNumber)).Nodup) (hseen : ∀ e ∈ current, e.sequenceNumber ∉ seen)
    (hsub : ∀ e ∈ current, e ∈ verified) : checkUnchanged verified seen current = .ok () := by
  induction current generalizing seen with
  | nil => rfl
  | cons e current ih =>
    obtain ⟨hfresh, hseen⟩ := List.forall_mem_cons.mp hseen
    obtain ⟨hmem, hsub⟩ := List.forall_mem_cons.mp hsub
    rw [List.map_cons, List.nodup_cons] at hn
    have hfind : (verified.find? fun want => want.sequenceNumber = e.sequenceNumber) = some e := by
      cases h : verified.find? fun want => want.sequenceNumber = e.sequenceNumber with
      | none => exact absurd (decide_eq_true rfl) (List.find?_eq_none.mp h e hmem)
      | some x =>
        have hseq : x.sequenceNumber = e.sequenceNumber := by simpa using List.find?_some h
        rw [List.inj_on_of_nodup_map hv (List.mem_of_find?_eq_some h) hmem hseq]
    unfold checkUnchanged
    rw [if_neg hfresh, hfind]
    dsimp only
    rw [if_pos (protoEqual_iff.mpr (SameMessage.refl e))]
    refine ih hn.2 (fun x hx => ?_) hsub
    rw [List.mem_cons, not_or]
    exact ⟨fun heq => hn.1 (heq ▸ List.mem_map_of_mem hx), hseen x hx⟩

theorem sameEventsBySequence_self (h : (events.map (·.sequenceNumber)).Nodup) :
    sameEventsBySequence events events = .ok () := by
  have hnone : firstRepeated [] events = none := firstRepeated_eq_none.mpr ⟨h, by simp⟩
  unfold sameEventsBySequence
  rw [if_neg (not_not.mpr rfl), hnone]
  exact checkUnchanged_self h h (by simp) fun _ he => he

section
variable (sha : Digest) (wire : Marshal Event) (scope : Scope)

def Chained : ℕ → List Event → Prop
  | _, [] => True
  | previous, e :: events =>
    verifyAdoptionReceipt sha wire e scope = some (some previous) ∧ Chained e.sequenceNumber events

variable {sha wire scope}

theorem receiptOf_of_verified {e : Event} {predecessor : Option ℕ}
    (h : verifyAdoptionReceipt sha wire e scope = some predecessor) : receiptOf e.tenantMetadata ≠ none := by
  obtain ⟨receipt, hreceipt, -⟩ := verifyAdoptionReceipt_eq_some h
  intro hnone
  exact Option.some_ne_none receipt (hreceipt.symm.trans hnone)

theorem Chained.receipt {previous : ℕ} (h : Chained sha wire scope previous events) :
    ∀ e ∈ events, receiptOf e.tenantMetadata ≠ none := by
  induction events generalizing previous with
  | nil => simp
  | cons e events ih => exact List.forall_mem_cons.mpr ⟨receiptOf_of_verified h.1, ih h.2⟩

theorem walkChain_ok {previous : ℕ} {adopted rest : List Event} :
    walkChain sha wire id scope previous events = .ok (adopted, rest) ↔
      events = adopted ++ rest ∧ Chained sha wire scope previous adopted ∧
        ∀ e ∈ rest.head?, receiptOf e.tenantMetadata = none := by
  induction events generalizing previous adopted with
  | nil =>
    simp only [walkChain, Except.ok.injEq, Prod.mk.injEq]
    constructor
    · rintro ⟨rfl, rfl⟩
      exact ⟨rfl, trivial, by simp⟩
    · rintro ⟨hnil, -, -⟩
      obtain ⟨rfl, rfl⟩ := List.append_eq_nil_iff.mp hnil.symm
      exact ⟨rfl, rfl⟩
  | cons e events ih =>
    unfold walkChain
    by_cases hreceipt : receiptOf e.tenantMetadata = none
    · rw [if_pos hreceipt]
      constructor
      · intro h
        obtain ⟨rfl, rfl⟩ := Prod.mk.inj (Except.ok.inj h)
        exact ⟨rfl, trivial, by simpa using hreceipt⟩
      · rintro ⟨happ, hchain, -⟩
        cases adopted with
        | nil => rw [show rest = e :: events from happ.symm]
        | cons a adopted =>
          obtain ⟨rfl, -⟩ := List.cons.inj happ
          exact absurd hreceipt (receiptOf_of_verified hchain.1)
    · rw [if_neg hreceipt]
      -- the chain goes on with `e`, so `e` is the first of what is returned
      have hcons : (∃ adopted', adopted = e :: adopted' ∧ verifyAdoptionReceipt sha wire e scope =
          some (some previous) ∧
          events = adopted' ++ rest ∧ Chained sha wire scope e.sequenceNumber adopted' ∧
          ∀ e ∈ rest.head?, receiptOf e.tenantMetadata = none) ↔
          e :: events = adopted ++ rest ∧ Chained sha wire scope previous adopted ∧
            ∀ e ∈ rest.head?, receiptOf e.tenantMetadata = none := by
        constructor
        · rintro ⟨adopted', rfl, hverify, rfl, hchain, hrest⟩
          exact ⟨rfl, ⟨hverify, hchain⟩, hrest⟩
        · rintro ⟨happ, hchain, hrest⟩
          cases adopted with
          | nil => exact absurd (hrest e (by rw [show rest = e :: events from happ.symm]; rfl)) hreceipt
          | cons a adopted' =>
            obtain ⟨rfl, rfl⟩ := List.cons.inj happ
            exact ⟨adopted', rfl, hchain.1, rfl, hchain.2, hrest⟩
      rw [← hcons]
      cases hverify : verifyAdoptionReceipt sha wire e scope with
      | none => simp
      | some recorded =>
        cases recorded with
        | none => simp
        | some predecessor =>
          dsimp only
          by_cases hprev : predecessor = previous
          · rw [if_neg (not_not.mpr hprev), Lib.map_eq_ok]
            constructor
            · rintro ⟨⟨adopted', rest'⟩, hwalk, hpair⟩
              obtain ⟨rfl, rfl⟩ := Prod.mk.inj hpair
              exact ⟨adopted', rfl, by rw [hprev], ih.mp hwalk⟩
            · rintro ⟨adopted', rfl, -, hrest⟩
              exact ⟨(adopted', rest), ih.mpr hrest, rfl⟩
          · rw [if_pos hprev]
            simp [hprev]

theorem checkReceipts_ok :
    checkReceipts sha wire id scope existing = .ok () ↔ ∃ adopted rest, bySequence existing = adopted ++ rest ∧
      adopted ≠ [] ∧ Chained sha wire scope 0 adopted ∧ ∀ e ∈ rest, receiptOf e.tenantMetadata = none := by
  unfold checkReceipts
  rw [Lib.bind_eq_ok]
  constructor
  · rintro ⟨⟨adopted, rest⟩, hwalk, h⟩
    obtain ⟨happ, hchain, -⟩ := walkChain_ok.mp hwalk
    dsimp only at h
    by_cases hnil : adopted = []
    · simp [hnil] at h
    · rw [if_neg hnil] at h
      split at h
      · rename_i hfind
        refine ⟨adopted, rest, happ, hnil, hchain, fun e he => ?_⟩
        simpa using List.find?_eq_none.mp hfind e he
      · simp at h
  · rintro ⟨adopted, rest, happ, hnil, hchain, hrest⟩
    refine ⟨(adopted, rest), walkChain_ok.mpr ⟨happ, hchain, fun e he => ?_⟩, ?_⟩
    · exact hrest e (List.mem_of_mem_head? he)
    · have hfind : rest.find? (fun e => receiptOf e.tenantMetadata ≠ none) = none :=
        List.find?_eq_none.mpr fun e he => by simpa using hrest e he
      simp only [hnil, if_false, hfind]

theorem verifyEventsEquivalent_nil : verifyEventsEquivalent sha wire id [] existing tenant scope = .ok () ↔
      (existing.map (·.sequenceNumber)).Nodup ∧
      (∀ e ∈ existing, ownedByTenant e.tenantMetadata tenant = true) ∧
        ∃ adopted rest, bySequence existing = adopted ++ rest ∧ adopted ≠ [] ∧
          Chained sha wire scope 0 adopted ∧
          ∀ e ∈ rest, receiptOf e.tenantMetadata = none := by
  unfold verifyEventsEquivalent
  rw [Lib.check_eq_ok, if_neg (not_not.mpr rfl), checkExisting_ok, checkReceipts_ok]
  simp only [List.not_mem_nil, not_false_eq_true, implies_true, true_and, and_assoc]

theorem verifyEventsEquivalent_cons
    (he : expected ≠ []) : verifyEventsEquivalent sha wire id expected existing tenant scope = .ok () ↔
      (existing.map (·.sequenceNumber)).Nodup ∧
      (∀ e ∈ existing, ownedByTenant e.tenantMetadata tenant = true) ∧
        (∀ want ∈ expected, ∃ got ∈ existing, SameMessage want got) ∧
        ∀ e ∈ existing, e.sequenceNumber ∉ expected.map (·.sequenceNumber) →
          maxSequence expected ≤ e.sequenceNumber := by
  unfold verifyEventsEquivalent
  rw [Lib.check_eq_ok, if_pos he, Lib.check_eq_ok, checkExisting_ok, checkOthers_ok]
  simp only [List.not_mem_nil, not_false_eq_true, implies_true, true_and, and_assoc]
  refine and_congr_right fun hn => and_congr_right fun _ => ?_
  rw [checkContained_ok hn]

end

end Ego.Migration

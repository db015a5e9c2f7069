import Ego.Migration.View

/-! # The adoption of the latest snapshot and of the state -/

namespace Ego.Migration
open Persistence
open Lib.Prog (wp wp_pure wp_mono wp_bind wp_read Returns returns_pure returns_read Meets meets_pure meets_read
  meets_write)

namespace TenantAdopter

section Snapshots
variable (a : TenantAdopter) (store : FullSnapshotStore) (id : String) (tenantID : TenantID) (r : Records)

def latestSnapshot (scope : Scope) : Option Snapshot := okOr none (store.getLatestSnapshot scope (r.snapshots scope))

def stampedSnapshot : Option Snapshot :=
  (latestSnapshot store r a.sourceScope).map fun s =>
    stampAdoptionReceipt a.sha a.snapshotWire s a.sourceScope (intentFor tenantID).metadata none

def snapshotVerdict : Option Snapshot → Except Err Unit
  | none => .ok ()
  | some existing => verifyRecordEquivalent a.sha a.snapshotWire (·.sequenceNumber) id .snapshot
      (a.stampedSnapshot store tenantID r) existing (.tenant tenantID) a.sourceScope

def snapshotView : View where
  source := (latestSnapshot store r a.sourceScope).isSome
  target := (latestSnapshot store r (.tenant tenantID)).isSome
  occupied := false
  verdict := a.snapshotVerdict store id tenantID r (latestSnapshot store r (.tenant tenantID))
  create := fun r' =>
    match a.stampedSnapshot store tenantID r with
    | none => r'
    | some clone => r'.setSnapshots (.tenant tenantID) (okOr (r.snapshots (.tenant tenantID))
        (store.writeSnapshot (.tenant tenantID) (r.snapshots (.tenant tenantID)) clone))
  removes := true
  remove := fun r' =>
    match latestSnapshot store r a.sourceScope with
    | none => r'
    | some s => r'.setSnapshots a.sourceScope (okOr (r.snapshots a.sourceScope)
        (store.deleteSnapshots a.sourceScope (r.snapshots a.sourceScope) s.sequenceNumber))

end Snapshots

section Snapshots
variable {a : TenantAdopter} {store : FullSnapshotStore} {id : String} {tenantID : TenantID} {r : Records}

theorem latestSnapshot_of_ok {scope : Scope} {latest : Option Snapshot}
    (h : store.getLatestSnapshot scope (r.snapshots scope) = .ok latest) : latestSnapshot store r scope = latest := by
  rw [latestSnapshot, h, okOr_ok]

theorem getLatestSnapshot_eq {scope : Scope} (hs : scope.valid = true) :
    store.getLatestSnapshot scope (r.snapshots scope) = .ok (latestSnapshot store r scope) := by
  obtain ⟨latest, hlatest⟩ := store.latest_total scope (r.snapshots scope) hs
  rw [latestSnapshot_of_ok hlatest, hlatest]

theorem latestSnapshot_isLatest {scope : Scope} (hs : scope.valid = true) :
    IsLatestSnapshot (r.snapshots scope) (latestSnapshot store r scope) :=
  store.latest_of_ok _ _ _ (getLatestSnapshot_eq hs)

theorem setSnapshots_source (hne : Scope.tenant tenantID ≠ a.sourceScope) (snapshots : List Snapshot) :
    (r.setSnapshots (.tenant tenantID) snapshots).snapshots a.sourceScope = r.snapshots a.sourceScope :=
  Function.update_of_ne hne.symm _ _

theorem protoEqualTo_self {ρ : Type} [Adoptable ρ] [DecidableEq ρ] (x : ρ) : protoEqualTo x (some x) = true :=
  protoEqual_iff.mpr (SameMessage.refl x)

theorem deleteVerifiedSourceSnapshot_meets {snapshot : Snapshot} {wroteTarget : Bool} {C : Records → Prop}
    (hsource : latestSnapshot store r a.sourceScope = some snapshot) (hstart : C r)
    (hdone : C (r.setSnapshots a.sourceScope (okOr (r.snapshots a.sourceScope)
      (store.deleteSnapshots a.sourceScope (r.snapshots a.sourceScope) snapshot.sequenceNumber)))) :
    Meets (a.deleteVerifiedSourceSnapshot store id snapshot wroteTarget) r
      { status := .sourceDeleted, wroteTarget := wroteTarget }
      (r.setSnapshots a.sourceScope (okOr (r.snapshots a.sourceScope)
        (store.deleteSnapshots a.sourceScope (r.snapshots a.sourceScope) snapshot.sequenceNumber))) C := by
  have hlatest := @latestSnapshot_isLatest store r _ a.source_valid
  rw [hsource] at hlatest
  refine meets_read (getLatestSnapshot_eq a.source_valid) hstart (fun err => wp_pure hstart) ?_
  dsimp only
  rw [hsource, protoEqualTo_self, if_neg (by simp)]
  obtain ⟨new, hnew⟩ := store.delete_total a.sourceScope (r.snapshots a.sourceScope) snapshot.sequenceNumber
    a.source_valid
  rw [hnew, okOr_ok] at hdone ⊢
  refine meets_write (by rw [hnew]; rfl) hstart (fun err => ⟨wp_pure hstart, wp_pure hdone⟩)
    (meets_read (getLatestSnapshot_eq a.source_valid) hdone (fun err => wp_pure hdone) ?_)
  have hnone : latestSnapshot store (r.setSnapshots a.sourceScope new) a.sourceScope = none := by
    have hleft := @latestSnapshot_isLatest store (r.setSnapshots a.sourceScope new) _ a.source_valid
    cases hl : latestSnapshot store (r.setSnapshots a.sourceScope new) a.sourceScope with
    | none => rfl
    | some s =>
      rw [hl] at hleft
      have hs : s ∈ new := by simpa [Records.setSnapshots] using hleft.1
      obtain ⟨hold, hlt⟩ := (store.deletes _ _ _ _ hnew s).mp hs
      exact absurd (hlatest.2 s hold) (Nat.not_le.mpr hlt)
  rw [hnone]
  exact meets_pure hdone

theorem latestSnapshot_written {snapshots new : List Snapshot} {clone : Snapshot} {scope : Scope}
    (hs : scope.valid = true)
    (hempty : snapshots = []) (hnew : store.writeSnapshot scope snapshots clone = .ok new)
    (hr : r.snapshots scope = new) : latestSnapshot store r scope = some clone := by
  have hmem := store.writes _ _ _ _ hnew
  have hlatest := @latestSnapshot_isLatest store r scope hs
  rw [hr] at hlatest
  cases hl : latestSnapshot store r scope with
  | none =>
    rw [hl] at hlatest
    have hin : clone ∈ new := (hmem clone).mpr (.inl rfl)
    rw [show new = [] from hlatest] at hin
    cases hin
  | some s =>
    rw [hl] at hlatest
    rcases (hmem s).mp hlatest.1 with rfl | ⟨hold, -⟩
    · rfl
    · rw [hempty] at hold
      cases hold

theorem copySnapshot_meets (hne : Scope.tenant tenantID ≠ a.sourceScope) {snapshot clone : Snapshot}
    (hsource : latestSnapshot store r a.sourceScope = some snapshot)
    (hclone : a.stampedSnapshot store tenantID r = some clone)
    (htarget : latestSnapshot store r (.tenant tenantID) = none) (hwrite : a.write = true) :
    let v := a.snapshotView store id tenantID r
    Meets (a.copySnapshot store id (intentFor tenantID) snapshot clone) r
      (if a.deleteSource then { status := .sourceDeleted, wroteTarget := true } else copiedOutcome)
      (if a.deleteSource then v.remove (v.create r) else v.create r) (v.Stage a.write a.deleteSource r) := by
  intro v
  have hempty : r.snapshots (.tenant tenantID) = [] := by
    have hlatest := @latestSnapshot_isLatest store r (.tenant tenantID) rfl
    rwa [htarget] at hlatest
  obtain ⟨new, hnew⟩ := store.write_total (.tenant tenantID) (r.snapshots (.tenant tenantID)) clone rfl
  have hcreate : v.create r = r.setSnapshots (.tenant tenantID) new := by
    simp only [v, snapshotView, hclone, hnew, okOr_ok]
  have hsome : v.source = true := by simp [v, snapshotView, hsource]
  have hnone : v.target = false := by simp [v, snapshotView, htarget]
  have hstart : v.Stage a.write a.deleteSource r r := .start
  have hcreated : v.Stage a.write a.deleteSource r (v.create r) := .created hsome hnone rfl hwrite
  have hperformed : (store.writeSnapshot (.tenant tenantID) (r.snapshots (.tenant tenantID)) clone).map
      (r.setSnapshots (.tenant tenantID)) = .ok (v.create r) := by
    rw [hnew, hcreate]
    rfl
  refine meets_write hperformed hstart (fun err => ⟨wp_pure hstart, wp_pure hcreated⟩)
    (meets_read (getLatestSnapshot_eq rfl) hcreated (fun err => wp_pure hcreated) ?_)
  have hwritten : latestSnapshot store (v.create r) (.tenant tenantID) = some clone := by
    refine latestSnapshot_written rfl hempty hnew ?_
    rw [hcreate]
    exact Function.update_self _ _ _
  dsimp only
  rw [intentFor_target, hwritten, protoEqualTo_self, if_neg (by simp)]
  have hkept : (v.create r).snapshots a.sourceScope = r.snapshots a.sourceScope := by
    rw [hcreate]
    exact setSnapshots_source hne _
  cases hd : a.deleteSource with
  | false => exact meets_pure (hd ▸ hcreated)
  | true =>
    have hremove : v.remove (v.create r) = (v.create r).setSnapshots a.sourceScope (okOr (r.snapshots a.sourceScope)
        (store.deleteSnapshots a.sourceScope (r.snapshots a.sourceScope) snapshot.sequenceNumber)) := by
      simp only [v, snapshotView, hsource]
    have hsource' : latestSnapshot store (v.create r) a.sourceScope = some snapshot := by
      rw [latestSnapshot, hkept, ← latestSnapshot, hsource]
    have hmeets := @deleteVerifiedSourceSnapshot_meets a store id (v.create r) snapshot true
      (v.Stage a.write a.deleteSource r) hsource' hcreated
    rw [hkept, ← hremove, hd] at hmeets
    exact hmeets (.createdRemoved hsome hnone rfl hwrite rfl rfl)

theorem adoptSnapshot_realizes (hne : Scope.tenant tenantID ≠ a.sourceScope) :
    (a.snapshotView store id tenantID r).Realizes a.write a.deleteSource
      (a.adoptSnapshot store id (intentFor tenantID)) r := by
  refine View.realizes_read (getLatestSnapshot_eq a.source_valid) (fun err => ⟨_, rfl⟩)
    (View.realizes_read (getLatestSnapshot_eq rfl) (fun err => ⟨_, rfl⟩) ?_)
  generalize hv : a.snapshotView store id tenantID r = v
  have hverdict : v.verdict = a.snapshotVerdict store id tenantID r (latestSnapshot store r (.tenant tenantID)) := by
    rw [← hv]
    rfl
  have hremoves : v.removes = true := by
    rw [← hv]
    rfl
  rw [intentFor_target, intentFor_tenant]
  cases hsource : latestSnapshot store r a.sourceScope with
  | none =>
    have hnone : v.source = false := by simp [← hv, snapshotView, hsource]
    cases htarget : latestSnapshot store r (.tenant tenantID) with
    | none => exact View.realizes_pure (View.nothing (by simp [← hv, snapshotView, htarget]) hnone)
    | some existing =>
      have hshown : v.target = true := by simp [← hv, snapshotView, htarget]
      simp only [htarget, snapshotVerdict, stampedSnapshot, hsource, Option.map_none] at hverdict
      dsimp only [Option.map_none]
      rw [← hverdict]
      exact View.realizes_pure (View.classified hshown fun _ => by simp [hnone])
  | some s =>
    have hsome : v.source = true := by simp [← hv, snapshotView, hsource]
    have hclone : a.stampedSnapshot store tenantID r = some
        (stampAdoptionReceipt a.sha a.snapshotWire s a.sourceScope (intentFor tenantID).metadata none) := by
      rw [stampedSnapshot, hsource]
      rfl
    cases htarget : latestSnapshot store r (.tenant tenantID) with
    | none =>
      have hshown : v.target = false := by simp [← hv, snapshotView, htarget]
      dsimp only [Option.map_some]
      cases hwrite : a.write with
      | false => exact View.realizes_pure (View.planned hshown hsome)
      | true =>
        obtain ⟨hout, heff⟩ := View.copied hshown hsome (by rw [← hv]; rfl)
        have hmeets := @copySnapshot_meets a store id tenantID r hne s _ hsource hclone htarget hwrite
        rw [hv, hwrite] at hmeets
        refine View.realizes_meets hout (heff r) ?_
        rw [hremoves, Bool.and_true]
        exact hmeets
    | some existing =>
      have hshown : v.target = true := by simp [← hv, snapshotView, htarget]
      simp only [htarget, snapshotVerdict, hclone] at hverdict
      simp only [Option.map_some, ← hverdict]
      have hcond : (v.source && a.write && a.deleteSource && v.removes) = true ↔
          a.write = true ∧ a.deleteSource = true := by
        simp [hsome, hremoves]
      by_cases hdelete : v.verdict = .ok () ∧ a.write = true ∧ a.deleteSource = true
      · obtain ⟨hok, hdelete⟩ := hdelete
        obtain ⟨hout, heff⟩ := View.removed hshown hok (hcond.mpr hdelete)
        have hremove : v.remove r = r.setSnapshots a.sourceScope (okOr (r.snapshots a.sourceScope)
            (store.deleteSnapshots a.sourceScope (r.snapshots a.sourceScope) s.sequenceNumber)) := by
          simp only [← hv, snapshotView, hsource]
        have hremoved := View.Stage.removed hsome hshown hok hdelete.1 hdelete.2 hremoves (r := r)
        rw [hok, if_pos ⟨rfl, hdelete⟩]
        refine View.realizes_meets hout (heff r) ?_
        rw [hremove] at hremoved ⊢
        exact deleteVerifiedSourceSnapshot_meets hsource .start hremoved
      · rw [if_neg fun h => hdelete ⟨?_, h.2⟩]
        · exact View.realizes_pure (View.classified hshown fun hok hboth => hdelete ⟨hok, hcond.mp hboth⟩)
        · cases hok : v.verdict with
          | ok u => rfl
          | error err =>
            rw [hok] at h
            cases h.1

end Snapshots

section States
variable (a : TenantAdopter) (id : String) (tenantID : TenantID) (r : Records)

def stampedState : Option DurableState :=
  (r.state a.sourceScope).map fun s =>
    stampAdoptionReceipt a.sha a.stateWire s a.sourceScope (intentFor tenantID).metadata none

def stateVerdict : Option DurableState → Except Err Unit
  | none => .ok ()
  | some existing => verifyRecordEquivalent a.sha a.stateWire (·.versionNumber.toNat) id .durableState
      (a.stampedState tenantID r) existing (.tenant tenantID) a.sourceScope

def stateView : View where
  source := (r.state a.sourceScope).isSome
  target := (r.state (.tenant tenantID)).isSome
  occupied := false
  verdict := a.stateVerdict id tenantID r (r.state (.tenant tenantID))
  create := fun r' => r'.setState (.tenant tenantID) (a.stampedState tenantID r)
  removes := false
  remove := fun r' => r'

end States

section States
variable {a : TenantAdopter} {store : StateStore} {id : String} {tenantID : TenantID} {r : Records}

theorem getLatestState_eq {scope : Scope} (hs : scope.valid = true) :
    store.getLatestState scope (r.state scope) = .ok (r.state scope) :=
  (store.latest_ok _ _ _).mpr ⟨hs, rfl⟩

def classified (a : TenantAdopter) (id : String) (tenantID : TenantID) (clone : Option DurableState) :
    Option DurableState → RecordOutcome
  | none => { status := .none }
  | some existing => classifyExisting (verifyRecordEquivalent a.sha a.stateWire (·.versionNumber.toNat) id
      .durableState
      clone existing (.tenant tenantID) a.sourceScope)

theorem classifyTarget_returns {clone : Option DurableState} :
    Returns (a.classifyTarget store id (intentFor tenantID) clone) r
      (a.classified id tenantID clone (r.state (.tenant tenantID))) r := by
  refine returns_read (getLatestState_eq rfl) ?_
  rw [intentFor_target]
  cases r.state (.tenant tenantID) with
  | none => exact returns_pure
  | some existing => exact returns_pure

theorem classifyTarget_wp {clone : Option DurableState} :
    wp (a.classifyTarget store id (intentFor tenantID) clone) (fun out r' => r' = r ∧
      (out = a.classified id tenantID clone (r.state (.tenant tenantID)) ∨ out.status = .failed))
        (fun r' => r' = r) r := by
  refine wp_read rfl (fun err => wp_pure ⟨rfl, .inr rfl⟩) fun existing hread => ?_
  obtain ⟨-, rfl⟩ := (store.latest_ok _ _ _).mp hread
  rw [intentFor_target]
  cases r.state (.tenant tenantID) with
  | none => exact wp_pure ⟨rfl, .inl rfl⟩
  | some existing => exact wp_pure ⟨rfl, .inl rfl⟩

theorem copyState_meets {state clone : DurableState} {C : Records → Prop}
    (hclone : a.stampedState tenantID r = some clone)
    (htarget : r.state (.tenant tenantID) = none) (hstart : C r) (hcreated : C ((a.stateView id tenantID r).create r)) :
    Meets (a.copyState store id (intentFor tenantID) state clone) r copiedOutcome ((a.stateView id tenantID r).create r)
      C := by
  have hclassify {x : Records} (hx : C x) (e : ConflictError) : wp (do
      let outcome ← a.classifyTarget store id (intentFor tenantID) (some clone)
      pure (if outcome.status ≠ .none then outcome
        else failedWith (Err.wrap "write target state" (.conflict e)))) (fun _ => C) C x := by
    refine wp_bind (wp_mono classifyTarget_wp ?_ ?_)
    · rintro outcome x' ⟨rfl, -⟩
      exact wp_pure hx
    · rintro x' rfl
      exact hx
  have hwrite : (store.writeState (.tenant tenantID) (r.state (.tenant tenantID)) clone .genesis).map
      (r.setState (.tenant tenantID)) = .ok ((a.stateView id tenantID r).create r) := by
    have hnew : store.writeState (.tenant tenantID) (r.state (.tenant tenantID)) clone .genesis = .ok (some clone) :=
      (store.write_ok _ _ _ _ _).mpr ⟨rfl, by rw [htarget]; rfl, rfl⟩
    rw [hnew, ← hclone]
    rfl
  refine meets_write hwrite hstart (fun err => ?_)
    (meets_read (getLatestState_eq rfl) hcreated (fun err => wp_pure hcreated) ?_)
  · cases err with
    | message text => exact ⟨wp_pure hstart, wp_pure hcreated⟩
    | conflict e => exact ⟨hclassify hstart e, hclassify hcreated e⟩
  · have hself : ((a.stateView id tenantID r).create r).state (intentFor tenantID).target = some clone := by
      rw [← hclone]
      exact Function.update_self _ _ _
    dsimp only
    rw [hself, protoEqualTo_self, if_neg (by simp)]
    exact meets_pure hcreated

theorem adoptState_realizes :
    (a.stateView id tenantID r).Realizes a.write a.deleteSource (a.adoptState store id (intentFor tenantID)) r := by
  refine View.realizes_read (getLatestState_eq a.source_valid) (fun err => ⟨_, rfl⟩)
    (View.realizes_bind classifyTarget_returns (wp_mono classifyTarget_wp ?_ fun _ h => h) ?_)
  · rintro out r' ⟨rfl, hout | hout⟩
    · exact ⟨rfl, .inl hout⟩
    · exact ⟨rfl, .inr ⟨out, if_pos (by simp [hout])⟩⟩
  generalize hv : a.stateView id tenantID r = v
  have hremoves : v.removes = false := by rw [← hv]; rfl
  change v.Realizes _ _ (if (a.classified id tenantID (a.stampedState tenantID r)
    (r.state (.tenant tenantID))).status ≠
    .none then pure (a.classified id tenantID (a.stampedState tenantID r) (r.state (.tenant tenantID))) else _) r
  cases htarget : r.state (.tenant tenantID) with
  | some existing =>
    have hshown : v.target = true := by simp [← hv, stateView, htarget]
    have hclass : a.classified id tenantID (a.stampedState tenantID r) (some existing) =
        classifyExisting v.verdict := by
      simp only [← hv, stateView, htarget]
      rfl
    rw [hclass, if_pos (by cases v.verdict <;> simp [classifyExisting, failedWith])]
    exact View.realizes_pure (View.classified hshown fun _ => by simp [hremoves])
  | none =>
    have hshown : v.target = false := by simp [← hv, stateView, htarget]
    rw [if_neg (by simp [classified])]
    cases hsource : r.state a.sourceScope with
    | none => exact View.realizes_pure (View.nothing hshown (by simp [← hv, stateView, hsource]))
    | some s =>
      have hsome : v.source = true := by simp [← hv, stateView, hsource]
      have hvacant : v.occupied = false := by rw [← hv]; rfl
      dsimp only [Option.map_some]
      cases hwrite : a.write with
      | false => exact View.realizes_pure (View.planned hshown hsome)
      | true =>
        obtain ⟨hout, heff⟩ := View.copied hshown hsome hvacant
        rw [hremoves, Bool.and_false] at hout heff
        refine View.realizes_meets hout (heff r) ?_
        rw [← hv] at hshown hsome hvacant ⊢
        exact copyState_meets (by rw [stampedState, hsource]; rfl) htarget .start (.created hsome hshown hvacant rfl)

end States

end TenantAdopter

end Ego.Migration

import Ego.Migration.Records
import Ego.Migration.View

/-!
# The adoption of events

A target whose record has lost all its events shows nothing and is in the way all the
same.
-/

namespace Ego.Migration
open Persistence Tenancy
open Lib.Prog (wp wp_pure wp_read Returns returns_pure returns_read Meets meets_pure meets_read meets_write
  meets_write_error)

namespace TenantAdopter

section Events
variable (a : TenantAdopter) (store : JournalStore) (id : String) (tenantID : TenantID) (r : Records)

def replayed (scope : Scope) : List Event :=
  okOr [] (store.replayEvents scope (r.log scope) 1 maxReplaySequence maxReplayLimit)

def stamped : List Event :=
  stampEvents a.sha a.eventWire a.sourceScope (intentFor tenantID).metadata (replayed store r a.sourceScope)

def eventsView : View where
  source := !(replayed store r a.sourceScope).isEmpty
  target := !(replayed store r (.tenant tenantID)).isEmpty
  occupied := (r.log (.tenant tenantID)).isSome
  verdict := verifyEventsEquivalent a.sha a.eventWire id (a.stamped store tenantID r)
    (replayed store r (.tenant tenantID)) (.tenant tenantID) a.sourceScope
  create := fun r' => r'.setLog (.tenant tenantID)
    (okOr none (store.writeEvents (.tenant tenantID) id (r.log (.tenant tenantID)) (a.stamped store tenantID r)
      .genesis))
  removes := true
  remove := fun r' => r'.setLog a.sourceScope (okOr (r.log a.sourceScope)
    (store.deleteEvents a.sourceScope (r.log a.sourceScope) (maxSequence (a.stamped store tenantID r))))

end Events

section Events
variable {a : TenantAdopter} {store : JournalStore} {id : String} {tenantID : TenantID} {r : Records}

theorem replayed_of_ok {scope : Scope} {events : List Event}
    (h : store.replayEvents scope (r.log scope) 1 maxReplaySequence maxReplayLimit = .ok events) :
    replayed store r scope = events := by
  rw [replayed, h, okOr_ok]

theorem verdict_nil {expected : List Event} (h : expected ≠ []) {tenant : TenantContext} :
    ∃ err, verifyEventsEquivalent a.sha a.eventWire id expected [] tenant a.sourceScope = .error err := by
  cases hverdict : verifyEventsEquivalent a.sha a.eventWire id expected [] tenant a.sourceScope with
  | error err => exact ⟨err, rfl⟩
  | ok u =>
    obtain ⟨want, hwant⟩ := List.exists_mem_of_ne_nil _ h
    obtain ⟨got, hgot, -⟩ := ((verifyEventsEquivalent_cons h).mp hverdict).2.2.1 want hwant
    cases hgot

theorem setLog_source (hne : Scope.tenant tenantID ≠ a.sourceScope) (log : Option EventLog) :
    (r.setLog (.tenant tenantID) log).log a.sourceScope = r.log a.sourceScope :=
  Function.update_of_ne hne.symm _ _

theorem le_maxSequence {events : List Event} {e : Event} (h : e ∈ events) :
    e.sequenceNumber ≤ maxSequence events := by
  have hfold (n : ℕ) (events : List Event) :
      n ≤ events.foldl (fun n e => max n e.sequenceNumber) n ∧
        ∀ e ∈ events, e.sequenceNumber ≤ events.foldl (fun n e => max n e.sequenceNumber) n := by
    induction events generalizing n with
    | nil => simp
    | cons x events ih =>
      obtain ⟨hle, hall⟩ := ih (max n x.sequenceNumber)
      rw [List.foldl_cons]
      refine ⟨by omega, List.forall_mem_cons.mpr ⟨by omega, hall⟩⟩
  exact (hfold 0 events).2 e h

theorem deleteEvents_ok {scope : Scope} (hs : scope.valid = true) (log : Option EventLog) (upTo : ℕ) :
    ∃ new, store.deleteEvents scope log upTo = .ok new := by
  cases log with
  | none => exact ⟨none, store.delete_none scope upTo hs⟩
  | some log =>
    obtain ⟨new, hnew⟩ := store.delete_some scope log upTo hs
    exact ⟨some new, hnew⟩

section
variable (h : r.WellFormed id)
include h

theorem replayed_perm {scope : Scope} (hs : scope.valid = true) :
    (replayed store r scope).Perm (journal (r.log scope)) := by
  obtain ⟨events, hreplay, hperm⟩ := h.replay store hs
  rwa [replayed_of_ok hreplay]

theorem replay_eq {scope : Scope} (hs : scope.valid = true) :
    store.replayEvents scope (r.log scope) 1 maxReplaySequence maxReplayLimit = .ok (replayed store r scope) := by
  obtain ⟨events, hreplay, -⟩ := h.replay store hs
  rw [replayed_of_ok hreplay, hreplay]

theorem stamped_distinct : ((a.stamped store tenantID r).map (·.sequenceNumber)).Nodup := by
  have hmap : (a.stamped store tenantID r).map (·.sequenceNumber) =
      (replayed store r a.sourceScope).map (·.sequenceNumber) := List.map_map
  rw [hmap]
  exact ((replayed_perm h a.source_valid).map _).nodup_iff.mpr (journal_unique _)

theorem le_maxSequence_stamped :
    ∀ e ∈ journal (r.log a.sourceScope), e.sequenceNumber ≤ maxSequence (a.stamped store tenantID r) := by
  intro e he
  have hmem : e ∈ replayed store r a.sourceScope := (replayed_perm h a.source_valid).mem_iff.mpr he
  have hcopy : stampAdoptionReceipt a.sha a.eventWire e a.sourceScope (intentFor tenantID).metadata
      (some (predecessorOf (replayed store r a.sourceScope) e.sequenceNumber)) ∈ a.stamped store tenantID r :=
    List.mem_map_of_mem hmem
  have hle := le_maxSequence hcopy
  exact hle

theorem wellFormed_created {log : EventLog} (hlog : log.events = a.stamped store tenantID r) :
    (r.setLog (.tenant tenantID) (some log)).WellFormed id := by
  have hperm := @replayed_perm store id r h _ a.source_valid
  have hsource {p : Event → Prop} (hp : ∀ e ∈ journal (r.log a.sourceScope), p e)
      (hstamp : ∀ e md predecessor, p e →
        p (stampAdoptionReceipt a.sha a.eventWire e a.sourceScope md predecessor)) :
      ∀ e ∈ journal (some log), p e := by
    intro e he
    rw [journal_some, hlog] at he
    obtain ⟨x, hx, rfl⟩ := List.mem_map.mp he
    exact hstamp x _ _ (hp x (hperm.mem_iff.mp hx))
  refine h.setLog (hsource (h.own_events _) fun _ _ _ hp => hp) (hsource (h.numbered _) fun _ _ _ hp => hp) ?_
  rw [journal_some, hlog, stamped, stampEvents, List.length_map, hperm.length_eq]
  exact h.counted _

end

theorem stamped_ne_nil (h : replayed store r a.sourceScope ≠ []) : a.stamped store tenantID r ≠ [] := by
  unfold stamped stampEvents
  rwa [Ne, List.map_eq_nil_iff]

theorem exists_created (h : r.WellFormed id) (hsource : replayed store r a.sourceScope ≠ [])
    (hfree : r.log (.tenant tenantID) = none) : ∃ log : EventLog,
      store.writeEvents (.tenant tenantID) id (r.log (.tenant tenantID)) (a.stamped store tenantID r) .genesis =
        .ok (some log) ∧
      log.events = a.stamped store tenantID r ∧ log.revision = maxSequence (a.stamped store tenantID r) ∧
        (a.eventsView store id tenantID r).create r = r.setLog (.tenant tenantID) (some log) := by
  have hnumbers := @stamped_distinct a store id tenantID r h
  obtain ⟨log, hlog⟩ := store.genesis_ok (.tenant tenantID) id _ rfl (stamped_ne_nil hsource) hnumbers
  rw [hfree]
  refine ⟨log, hlog, store.appends _ _ _ _ _ _ hlog hnumbers, store.raises _ _ _ _ _ _ hlog, ?_⟩
  change r.setLog _ (okOr none (store.writeEvents _ _ (r.log (.tenant tenantID)) _ _)) = _
  rw [hfree, hlog, okOr_ok]

theorem deleteVerifiedSourceEvents_meets (h : r.WellFormed id) {maxSeq : ℕ} {wroteTarget : Bool}
    {C : Records → Prop}
    (hmax : ∀ e ∈ journal (r.log a.sourceScope), e.sequenceNumber ≤ maxSeq) (hstart : C r)
    (hdone : C (r.setLog a.sourceScope
      (okOr (r.log a.sourceScope) (store.deleteEvents a.sourceScope (r.log a.sourceScope) maxSeq)))) :
    Meets (a.deleteVerifiedSourceEvents store id (replayed store r a.sourceScope) maxSeq wroteTarget) r
      { status := .sourceDeleted, wroteTarget := wroteTarget }
      (r.setLog a.sourceScope
        (okOr (r.log a.sourceScope) (store.deleteEvents a.sourceScope (r.log a.sourceScope) maxSeq))) C := by
  refine meets_read (replay_eq h a.source_valid) hstart (fun err => wp_pure hstart) ?_
  have hsame := sameEventsBySequence_self (((@replayed_perm store id r h _ a.source_valid).map _).nodup_iff.mpr
    (journal_unique _))
  obtain ⟨new, hnew⟩ := deleteEvents_ok a.source_valid (r.log a.sourceScope) maxSeq
  rw [hnew, okOr_ok] at hdone ⊢
  dsimp only
  rw [hsame]
  refine meets_write (by rw [hnew]; rfl) hstart (fun err => ⟨wp_pure hstart, wp_pure hdone⟩) ?_
  -- nothing is left to be the latest
  have hempty : journal new = [] := by
    rw [(store.deletes _ _ _ _ hnew).2]
    exact List.filter_eq_nil_iff.mpr fun e he hlt => absurd (of_decide_eq_true hlt) (Nat.not_lt.mpr (hmax e he))
  have hself : (r.setLog a.sourceScope new).log a.sourceScope = new := Function.update_self _ _ _
  obtain ⟨latest, hlatest⟩ := store.latest_total a.sourceScope new a.source_valid
  have hread : store.getLatestEvent a.sourceScope ((r.setLog a.sourceScope new).log a.sourceScope) = .ok latest := by
    rw [hself, hlatest]
  refine meets_read hread hdone (fun err => wp_pure hdone) ?_
  have hnone : latest = none := by
    cases latest with
    | none => rfl
    | some e =>
      have hmem := (store.latest_of_ok _ _ _ hlatest).1
      rw [hempty] at hmem
      cases hmem
  subst hnone
  exact meets_pure hdone

theorem afterVerifiedEvents_kept {sourceEvents : List Event} {maxSeq : ℕ} {verdict : Except Err Unit}
    (hkeep : ¬ (verdict = .ok () ∧ sourceEvents ≠ [] ∧ a.write = true ∧ a.deleteSource = true)) :
    a.afterVerifiedEvents store id sourceEvents maxSeq verdict = pure (classifyExisting verdict) := by
  refine if_neg fun h => hkeep ⟨?_, h.2⟩
  cases verdict with
  | error err => cases h.1
  | ok u => rfl

theorem copyEvents_meets (h : r.WellFormed id) (hne : Scope.tenant tenantID ≠ a.sourceScope)
    (hsource : replayed store r a.sourceScope ≠ []) (hfree : r.log (.tenant tenantID) = none)
    (hwrite : a.write = true) :
    let v := a.eventsView store id tenantID r
    Meets (a.copyEvents store id (intentFor tenantID) (replayed store r a.sourceScope) (a.stamped store tenantID r)
      (maxSequence (a.stamped store tenantID r))) r
      (if a.deleteSource then { status := .sourceDeleted, wroteTarget := true } else copiedOutcome)
      (if a.deleteSource then v.remove (v.create r) else v.create r) (v.Stage a.write a.deleteSource r) := by
  intro v
  have hnumbers := @stamped_distinct a store id tenantID r h
  obtain ⟨log, hlog, hjournal, -, hcreate⟩ := exists_created h hsource hfree
  have h' : (v.create r).WellFormed id := hcreate ▸ wellFormed_created h hjournal
  have hlog' : (v.create r).log a.sourceScope = r.log a.sourceScope := setLog_source hne _
  have hreplayed : replayed store (v.create r) a.sourceScope = replayed store r a.sourceScope := by
    unfold replayed
    rw [hlog']
  -- where the copy is made and the source may be deleted
  have hsome : v.source = true := by simp [v, eventsView, hsource]
  have hnone : v.target = false := by
    have hnil := @replayed_perm store id r h (.tenant tenantID) rfl
    rw [hfree, journal_none, List.perm_nil] at hnil
    simp [v, eventsView, hnil]
  have hvacant : v.occupied = false := by simp [v, eventsView, hfree]
  have hstart : v.Stage a.write a.deleteSource r r := .start
  have hcreated : v.Stage a.write a.deleteSource r (v.create r) := .created hsome hnone hvacant hwrite
  have hdelete (wroteTarget : Bool) (hd : a.deleteSource = true) :
      Meets (a.deleteVerifiedSourceEvents store id (replayed store r a.sourceScope)
        (maxSequence (a.stamped store tenantID r)) wroteTarget) (v.create r)
        { status := .sourceDeleted, wroteTarget := wroteTarget } (v.remove (v.create r))
        (v.Stage a.write a.deleteSource r) := by
    have hmeets := @deleteVerifiedSourceEvents_meets a store id (v.create r) h'
    rw [hlog', hreplayed] at hmeets
    exact hmeets (le_maxSequence_stamped h) hcreated (.createdRemoved hsome hnone hvacant hwrite hd rfl)
  have hraced {x : Records} {verdict : Except Err Unit} (hx : v.Stage a.write a.deleteSource r x)
      (hlost : verdict = .ok () → x = v.create r) :
      wp (a.afterVerifiedEvents store id (replayed store r a.sourceScope)
        (maxSequence (a.stamped store tenantID r)) verdict)
        (fun _ => v.Stage a.write a.deleteSource r) (v.Stage a.write a.deleteSource r) x := by
    by_cases hkeep : verdict = .ok () ∧ replayed store r a.sourceScope ≠ [] ∧ a.write = true ∧
      a.deleteSource = true
    · obtain ⟨rfl, hdelete'⟩ := hkeep
      rw [hlost rfl, afterVerifiedEvents, if_pos ⟨rfl, hdelete'⟩]
      exact (hdelete false hdelete'.2.2).stays
    · rw [afterVerifiedEvents_kept hkeep]
      exact wp_pure hx
  refine meets_write (d := v.create r) (by rw [hcreate]; exact congrArg _ hlog) hstart (fun err => ?_) ?_
  · cases err with
    | message text => exact ⟨wp_pure hstart, wp_pure hcreated⟩
    | conflict e =>
      refine ⟨wp_read hstart (fun err => wp_pure hstart) fun raced hread => hraced hstart fun hverdict => ?_,
        wp_read hcreated (fun err => wp_pure hcreated) fun raced _ => hraced hcreated fun _ => rfl⟩
      -- the write did not take place, so there is nothing to race with
      obtain rfl : [] = raced := by
        have hnil := @replayed_perm store id r h (.tenant tenantID) rfl
        rw [hfree, journal_none, List.perm_nil] at hnil
        exact hnil.symm.trans (replayed_of_ok hread)
      obtain ⟨err, herr⟩ := verdict_nil (stamped_ne_nil hsource)
      cases herr.symm.trans hverdict
  -- the read-back
  have hself : (v.create r).log (.tenant tenantID) = some log := by
    rw [hcreate]
    exact Function.update_self _ _ _
  have hread := @replayed_perm store id (v.create r) h' (.tenant tenantID) rfl
  rw [hself, journal_some, hjournal] at hread
  refine meets_read (replay_eq h' rfl) hcreated (fun err => wp_pure hcreated) ?_
  have hmatch : verifyEventsMatchBySequence id (a.stamped store tenantID r)
      (replayed store (v.create r) (.tenant tenantID)) = .ok () :=
    (verifyEventsMatchBySequence_ok hnumbers).mpr ⟨(hread.map _).nodup_iff.mpr hnumbers, hread.length_eq,
      fun want hwant => ⟨want, hread.mem_iff.mpr hwant, SameMessage.refl want⟩⟩
  dsimp only
  rw [intentFor_target, hmatch]
  cases hd : a.deleteSource with
  | false => exact meets_pure (hd ▸ hcreated)
  | true =>
    have hmeets := hdelete true hd
    rwa [hd] at hmeets

theorem adoptEvents_realizes (h : r.WellFormed id) (hne : Scope.tenant tenantID ≠ a.sourceScope) :
    (a.eventsView store id tenantID r).Realizes a.write a.deleteSource
      (a.adoptEvents store id (intentFor tenantID)) r := by
  refine View.realizes_read (replay_eq h a.source_valid) (fun err => ⟨_, rfl⟩)
    (View.realizes_read (replay_eq h rfl) (fun err => ⟨_, rfl⟩) ?_)
  generalize hv : a.eventsView store id tenantID r = v
  have hsource : v.source = !(replayed store r a.sourceScope).isEmpty := by rw [← hv]; rfl
  have htarget : v.target = !(replayed store r (.tenant tenantID)).isEmpty := by rw [← hv]; rfl
  have hverdict : v.verdict = verifyEventsEquivalent a.sha a.eventWire id (a.stamped store tenantID r)
      (replayed store r (.tenant tenantID)) (.tenant tenantID) a.sourceScope := by rw [← hv]; rfl
  dsimp only
  rw [intentFor_target, intentFor_tenant, show stampEvents a.sha a.eventWire a.sourceScope (intentFor tenantID).metadata
    (replayed store r a.sourceScope) = a.stamped store tenantID r from rfl, ← hverdict]
  by_cases hshown : replayed store r (.tenant tenantID) = []
  · rw [if_neg (not_not.mpr hshown)]
    rw [hshown] at htarget
    by_cases hempty : replayed store r a.sourceScope = []
    · rw [hempty] at hsource
      rw [if_pos hempty]
      exact View.realizes_pure (View.nothing htarget hsource)
    · rw [if_neg hempty]
      have hsome : v.source = true := by simpa [hsource] using hempty
      cases hwrite : a.write with
      | false => exact View.realizes_pure (View.planned htarget hsome)
      | true =>
        cases hlog : r.log (.tenant tenantID) with
        | none =>
          obtain ⟨hout, heff⟩ := View.copied htarget hsome (by simp [← hv, eventsView, hlog])
          have hmeets := copyEvents_meets h hne hempty hlog hwrite
          rw [hv, hwrite] at hmeets
          have hremoves : v.removes = true := by rw [← hv]; rfl
          refine View.realizes_meets hout (heff r) ?_
          rw [hremoves, Bool.and_true]
          exact hmeets
        | some log =>
          -- the record is in the way, but there is nothing in it to compare with
          have hstamped := @stamped_ne_nil a store tenantID r hempty
          obtain ⟨e, hconflict⟩ := store.genesis_conflict (.tenant tenantID) id log _ rfl hstamped
          obtain ⟨err, herr⟩ := verdict_nil hstamped
          rw [← hshown, ← hverdict] at herr
          obtain ⟨hout, heff⟩ := View.blocked htarget hsome (by simp [← hv, eventsView, hlog]) herr
          have hfails : (store.writeEvents (.tenant tenantID) id (r.log (.tenant tenantID))
              (a.stamped store tenantID r) .genesis).map (r.setLog (.tenant tenantID)) = .error (.conflict e) := by
            rw [hlog, hconflict]
            rfl
          have hrefused : a.afterVerifiedEvents store id (replayed store r a.sourceScope)
              (maxSequence (a.stamped store tenantID r)) v.verdict = pure (failedWith err) := by
            rw [afterVerifiedEvents_kept (by simp [herr]), herr]
            rfl
          refine View.realizes_meets hout (heff r) (meets_write_error hfails .start (fun err' => ?_) ?_)
          · cases err' with
            | message text => exact wp_pure .start
            | conflict e' =>
              refine wp_read .start (fun err => wp_pure .start) fun raced hread => ?_
              obtain rfl := replayed_of_ok hread
              dsimp only
              rw [intentFor_target, intentFor_tenant, ← hverdict, hrefused]
              exact wp_pure .start
          · refine returns_read (replay_eq h rfl) ?_
            dsimp only
            rw [intentFor_target, intentFor_tenant, ← hverdict, hrefused]
            exact returns_pure
  · rw [if_pos hshown]
    have hpresent : v.target = true := by simpa [htarget] using hshown
    have hcond : (v.source && a.write && a.deleteSource && v.removes) = true ↔
        replayed store r a.sourceScope ≠ [] ∧ a.write = true ∧ a.deleteSource = true := by
      simp [← hv, eventsView, and_assoc]
    by_cases hdelete : v.verdict = .ok () ∧ replayed store r a.sourceScope ≠ [] ∧ a.write = true ∧
      a.deleteSource = true
    · obtain ⟨hok, hdelete⟩ := hdelete
      obtain ⟨hout, heff⟩ := View.removed hpresent hok (hcond.mpr hdelete)
      rw [hok, afterVerifiedEvents, if_pos ⟨rfl, hdelete⟩]
      have hsome : v.source = true := by simpa [hsource] using hdelete.1
      have hremoves : v.removes = true := by rw [← hv]; rfl
      have hremoved := View.Stage.removed hsome hpresent hok hdelete.2.1 hdelete.2.2 hremoves (r := r)
      refine View.realizes_meets hout (heff r) ?_
      rw [← hv] at hremoved ⊢
      exact deleteVerifiedSourceEvents_meets h (le_maxSequence_stamped h) .start hremoved
    · rw [afterVerifiedEvents_kept hdelete]
      exact View.realizes_pure (View.classified hpresent fun hok hboth => hdelete ⟨hok, hcond.mp hboth⟩)

end Events

end TenantAdopter

end Ego.Migration

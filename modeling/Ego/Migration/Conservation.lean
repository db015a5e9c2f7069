import Ego.Enginetest.Adopter
import Ego.Migration.EventsView
import Ego.Migration.RecordViews

/-! # What an adoption keeps -/

namespace Ego.Migration
open Persistence Tenancy
open Lib (Prog)
open Lib.Prog (wp wp_pure wp_mono wp_bind wp_read)

def SameContent {ρ : Type} [Adoptable ρ] (x y : ρ) : Prop := setTenantMetadata x [] = setTenantMetadata y []

theorem SameContent.stamp {sha : Digest} {ρ : Type} [Adoptable ρ] {wire : Marshal ρ} (record : ρ) (scope : Scope)
    (md : Metadata) (predecessor : Option ℕ) :
    SameContent (stampAdoptionReceipt sha wire record scope md predecessor) record :=
  Adoptable.set_set _ _ _

structure Kept (source target : Scope) (r r' : Records) : Prop where
  events : ∀ e ∈ journal (r.log source), e ∈ journal (r'.log source) ∨
    ∃ copy ∈ journal (r'.log target), SameContent copy e
  snapshot : ∀ s, IsLatestSnapshot (r.snapshots source) (some s) →
    IsLatestSnapshot (r'.snapshots source) (some s) ∨ ∃ copy ∈ r'.snapshots target, SameContent copy s
  log : ∀ scope, scope ≠ source → r.log scope ≠ none → r'.log scope = r.log scope
  snapshots : ∀ scope, scope ≠ source → r.snapshots scope ≠ [] → r'.snapshots scope = r.snapshots scope
  state : ∀ scope, scope ≠ source → r.state scope ≠ none → r'.state scope = r.state scope

section
variable {source target : Scope} {r r' r'' : Records}

theorem Kept.refl (r : Records) : Kept source target r r :=
  ⟨fun _ he => .inl he, fun _ hs => .inl hs, fun _ _ _ => rfl, fun _ _ _ => rfl, fun _ _ _ => rfl⟩

theorem ne_none_of_mem_journal {log : Option EventLog} {e : Event} (h : e ∈ journal log) : log ≠ none := by
  rintro rfl
  cases h

section
variable (hne : target ≠ source)
include hne

theorem Kept.trans (h : Kept source target r r') (h' : Kept source target r' r'') :
    Kept source target r r'' := by
  refine ⟨fun e he => ?_, fun s hs => ?_, fun scope hscope hlog => ?_, fun scope hscope hsnapshots => ?_,
    fun scope hscope hstate => ?_⟩
  · rcases h.events e he with he | ⟨copy, hcopy, hsame⟩
    · exact h'.events e he
    · exact .inr ⟨copy, by rwa [h'.log target hne (ne_none_of_mem_journal hcopy)], hsame⟩
  · rcases h.snapshot s hs with hs | ⟨copy, hcopy, hsame⟩
    · exact h'.snapshot s hs
    · exact .inr ⟨copy, by rwa [h'.snapshots target hne (List.ne_nil_of_mem hcopy)], hsame⟩
  · have hmid := h.log scope hscope hlog
    exact (h'.log scope hscope (hmid ▸ hlog)).trans hmid
  · have hmid := h.snapshots scope hscope hsnapshots
    exact (h'.snapshots scope hscope (hmid ▸ hsnapshots)).trans hmid
  · have hmid := h.state scope hscope hstate
    exact (h'.state scope hscope (hmid ▸ hstate)).trans hmid

theorem Kept.createLog (hnone : r.log target = none) (log : Option EventLog) :
    Kept source target r (r.setLog target log) := by
  have hother {scope : Scope} (h : scope ≠ target) : (r.setLog target log).log scope = r.log scope :=
    Function.update_of_ne h _ _
  refine ⟨fun e he => .inl (by rwa [hother hne.symm]), fun s hs => .inl hs, fun scope _ hlog => ?_,
    fun _ _ _ => rfl, fun _ _ _ => rfl⟩
  exact hother fun heq => hlog (heq ▸ hnone)

theorem Kept.deleteLog (log : Option EventLog)
    (hcopies : ∀ e ∈ journal (r.log source), ∃ copy ∈ journal (r.log target), SameContent copy e) :
    Kept source target r (r.setLog source log) := by
  have hother {scope : Scope} (h : scope ≠ source) : (r.setLog source log).log scope = r.log scope :=
    Function.update_of_ne h _ _
  refine ⟨fun e he => .inr ?_, fun s hs => .inl hs, fun scope hscope _ => hother hscope, fun _ _ _ => rfl,
    fun _ _ _ => rfl⟩
  rw [hother hne]
  exact hcopies e he

theorem Kept.createSnapshots (hnil : r.snapshots target = []) (snapshots : List Snapshot) :
    Kept source target r (r.setSnapshots target snapshots) := by
  have hother {scope : Scope} (h : scope ≠ target) :
      (r.setSnapshots target snapshots).snapshots scope = r.snapshots scope :=
    Function.update_of_ne h _ _
  refine ⟨fun e he => .inl he, fun s hs => .inl (by rwa [hother hne.symm]), fun _ _ _ => rfl,
    fun scope _ hsnapshots => ?_, fun _ _ _ => rfl⟩
  exact hother fun heq => hsnapshots (heq ▸ hnil)

theorem Kept.deleteSnapshots (snapshots : List Snapshot)
    (hcopy : ∀ s, IsLatestSnapshot (r.snapshots source) (some s) →
      ∃ copy ∈ r.snapshots target, SameContent copy s) :
    Kept source target r (r.setSnapshots source snapshots) := by
  have hother {scope : Scope} (h : scope ≠ source) :
      (r.setSnapshots source snapshots).snapshots scope = r.snapshots scope :=
    Function.update_of_ne h _ _
  refine ⟨fun e he => .inl he, fun s hs => .inr ?_, fun _ _ _ => rfl, fun scope hscope _ => hother hscope,
    fun _ _ _ => rfl⟩
  rw [hother hne]
  exact hcopy s hs

end

theorem Kept.createState (hnone : r.state target = none) (state : Option DurableState) :
    Kept source target r (r.setState target state) := by
  refine ⟨fun e he => .inl he, fun s hs => .inl hs, fun _ _ _ => rfl, fun _ _ _ => rfl, fun scope _ hstate => ?_⟩
  have hscope : scope ≠ target := fun heq => hstate (heq ▸ hnone)
  exact Function.update_of_ne hscope _ _

end

namespace TenantAdopter
variable {a : TenantAdopter} {id : String} {tenantID : TenantID}

def Safe (a : TenantAdopter) (id : String) (tenantID : TenantID) (r r' : Records) : Prop :=
  Kept a.sourceScope (.tenant tenantID) r r' ∧ r'.WellFormed id

variable {r r' r'' : Records}

theorem Safe.refl (h : r.WellFormed id) : a.Safe id tenantID r r := ⟨Kept.refl r, h⟩

theorem Safe.trans (hne : Scope.tenant tenantID ≠ a.sourceScope) (h : a.Safe id tenantID r r')
    (h' : a.Safe id tenantID r' r'') : a.Safe id tenantID r r'' :=
  ⟨h.1.trans hne h'.1, h'.2⟩

section Events
variable {store : JournalStore}

theorem copies_of_same (store : JournalStore) (h : r.WellFormed id)
    (hsame : ∀ want ∈ a.stamped store tenantID r, ∃ got ∈ journal (r'.log (.tenant tenantID)),
      SameMessage want got) :
    ∀ e ∈ journal (r.log a.sourceScope), ∃ copy ∈ journal (r'.log (.tenant tenantID)), SameContent copy e := by
  intro e he
  have hmem : e ∈ replayed store r a.sourceScope := (replayed_perm h a.source_valid).mem_iff.mpr he
  obtain ⟨got, hgot, heq⟩ := hsame _ (List.mem_map_of_mem hmem)
  exact ⟨got, hgot, heq.1.symm.trans (SameContent.stamp e _ _ _)⟩

theorem safe_remove (hne : Scope.tenant tenantID ≠ a.sourceScope) (h : r'.WellFormed id)
    (hsource : r'.log a.sourceScope = r.log a.sourceScope)
    (hcopies : ∀ e ∈ journal (r.log a.sourceScope), ∃ copy ∈ journal (r'.log (.tenant tenantID)),
      SameContent copy e) :
    a.Safe id tenantID r' ((a.eventsView store id tenantID r).remove r') := by
  obtain ⟨new, hnew⟩ := deleteEvents_ok a.source_valid (r.log a.sourceScope)
    (maxSequence (a.stamped store tenantID r))
  have hremove : (a.eventsView store id tenantID r).remove r' = r'.setLog a.sourceScope new := by
    change r'.setLog _ (okOr _ (store.deleteEvents _ _ _)) = _
    rw [hnew, okOr_ok]
  have hjournal := (store.deletes _ _ _ _ hnew).2
  rw [← hsource] at hjournal hcopies
  have hsub : ∀ e ∈ journal new, e ∈ journal (r'.log a.sourceScope) := fun e he =>
    (List.mem_filter.mp (hjournal ▸ he)).1
  rw [hremove]
  refine ⟨Kept.deleteLog hne new hcopies, h.setLog (fun e he => h.own_events _ e (hsub e he))
    (fun e he => h.numbered _ e (hsub e he)) ?_⟩
  rw [hjournal]
  exact Nat.le_trans (List.length_filter_le _ _) (h.counted _)

theorem safe_events (hne : Scope.tenant tenantID ≠ a.sourceScope) (h : r.WellFormed id) {write deleteSource : Bool}
    (hstage : (a.eventsView store id tenantID r).Stage write deleteSource r r') : a.Safe id tenantID r r' := by
  have hcreated (hs : (a.eventsView store id tenantID r).source = true)
      (ho : (a.eventsView store id tenantID r).occupied = false) :
      a.Safe id tenantID r ((a.eventsView store id tenantID r).create r) ∧ ∀ e ∈ journal (r.log a.sourceScope),
          ∃ copy ∈ journal (((a.eventsView store id tenantID r).create r).log (.tenant tenantID)),
            SameContent copy e := by
    have hnone : r.log (.tenant tenantID) = none := by simpa [eventsView] using ho
    obtain ⟨log, -, hlog, -, hcreate⟩ := exists_created h (by simpa [eventsView] using hs) hnone
    rw [hcreate]
    refine ⟨⟨Kept.createLog hne hnone _, wellFormed_created h hlog⟩,
      copies_of_same store h fun want hwant => ?_⟩
    have hself : (r.setLog (.tenant tenantID) (some log)).log (.tenant tenantID) = some log :=
        Function.update_self _ _ _
    rw [hself, journal_some, hlog]
    exact ⟨want, hwant, SameMessage.refl want⟩
  cases hstage with
  | start => exact Safe.refl h
  | created hs ht ho hw => exact (hcreated hs ho).1
  | createdRemoved hs ht ho hw hd hr =>
    obtain ⟨hsafe, hcopies⟩ := hcreated hs ho
    exact hsafe.trans hne (safe_remove hne hsafe.2 (setLog_source hne _) hcopies)
  | removed hs ht hv hw hd hr =>
    refine safe_remove hne h rfl (copies_of_same store h fun want hwant => ?_)
    have hverdict := ((verifyEventsEquivalent_cons (List.ne_nil_of_mem hwant)).mp hv).2.2.1
    obtain ⟨got, hgot, hsame⟩ := hverdict want hwant
    exact ⟨got, (replayed_perm h rfl).mem_iff.mp hgot, hsame⟩

end Events

section Snapshots
variable {store : FullSnapshotStore}

theorem safe_removeSnapshot (hne : Scope.tenant tenantID ≠ a.sourceScope) (h : r'.WellFormed id)
    (hsource : r'.snapshots a.sourceScope = r.snapshots a.sourceScope)
    (hcopy : ∀ s ∈ latestSnapshot store r a.sourceScope, ∃ copy ∈ r'.snapshots (.tenant tenantID),
      SameContent copy s) :
    a.Safe id tenantID r' ((a.snapshotView store id tenantID r).remove r') := by
  cases hlatest : latestSnapshot store r a.sourceScope with
  | none =>
    simp only [snapshotView, hlatest]
    exact Safe.refl h
  | some s =>
    obtain ⟨new, hnew⟩ := store.delete_total a.sourceScope (r.snapshots a.sourceScope) s.sequenceNumber
      a.source_valid
    simp only [snapshotView, hlatest, hnew, okOr_ok]
    have hmem := store.deletes _ _ _ _ hnew
    have hfirst := @latestSnapshot_isLatest store r _ a.source_valid
    rw [hlatest] at hfirst
    rw [← hsource] at hmem hfirst
    refine ⟨Kept.deleteSnapshots hne new fun x hx => ?_, h.setSnapshots
      (fun x hx => h.own_snapshots _ x ((hmem x).mp hx).1)
      fun x hx y hy => h.distinct _ x ((hmem x).mp hx).1 y ((hmem y).mp hy).1⟩
    -- there is one latest snapshot only
    have hxs : x = s := h.distinct _ x hx.1 s hfirst.1 (Nat.le_antisymm (hfirst.2 x hx.1) (hx.2 s hfirst.1))
    exact hxs ▸ hcopy s hlatest

theorem safe_snapshot (hne : Scope.tenant tenantID ≠ a.sourceScope) (h : r.WellFormed id) {write deleteSource : Bool}
    (hstage : (a.snapshotView store id tenantID r).Stage write deleteSource r r') : a.Safe id tenantID r r' := by
  have hcreated (hs : (a.snapshotView store id tenantID r).source = true)
      (ht : (a.snapshotView store id tenantID r).target = false) :
      a.Safe id tenantID r ((a.snapshotView store id tenantID r).create r) ∧
        ((a.snapshotView store id tenantID r).create r).snapshots a.sourceScope = r.snapshots a.sourceScope ∧
        ∀ s ∈ latestSnapshot store r a.sourceScope, ∃ copy ∈
          ((a.snapshotView store id tenantID r).create r).snapshots (.tenant tenantID), SameContent copy s := by
    obtain ⟨s, hsource⟩ := Option.isSome_iff_exists.mp hs
    have hnil : r.snapshots (.tenant tenantID) = [] := by
      have hlatest := @latestSnapshot_isLatest store r (.tenant tenantID) rfl
      have hnone : latestSnapshot store r (.tenant tenantID) = none := by simpa [snapshotView] using ht
      rwa [hnone] at hlatest
    have hmem := (@latestSnapshot_isLatest store r _ a.source_valid)
    rw [hsource] at hmem
    have hclone : a.stampedSnapshot store tenantID r = some
        (stampAdoptionReceipt a.sha a.snapshotWire s a.sourceScope (intentFor tenantID).metadata none) := by
      rw [stampedSnapshot, hsource]
      rfl
    obtain ⟨new, hnew⟩ := store.write_total (.tenant tenantID) (r.snapshots (.tenant tenantID))
      (stampAdoptionReceipt a.sha a.snapshotWire s a.sourceScope (intentFor tenantID).metadata none) rfl
    have hcreate : (a.snapshotView store id tenantID r).create r = r.setSnapshots (.tenant tenantID) new := by
      simp only [snapshotView, hclone, hnew, okOr_ok]
    have hwrites := store.writes _ _ _ _ hnew
    have hone : ∀ x ∈ new, x = stampAdoptionReceipt a.sha a.snapshotWire s a.sourceScope
        (intentFor tenantID).metadata none := by
      intro x hx
      refine ((hwrites x).mp hx).resolve_right fun hold => ?_
      rw [hnil] at hold
      cases hold.1
    rw [hcreate]
    refine ⟨⟨Kept.createSnapshots hne hnil new, h.setSnapshots (fun x hx => ?_) fun x hx y hy _ =>
      (hone x hx).trans (hone y hy).symm⟩, setSnapshots_source hne _, fun x hx => ?_⟩
    · rw [hone x hx]
      exact h.own_snapshots _ s hmem.1
    · obtain rfl : s = x := Option.some.inj (hsource.symm.trans hx)
      have hself : (r.setSnapshots (.tenant tenantID) new).snapshots (.tenant tenantID) = new :=
        Function.update_self _ _ _
      rw [hself]
      exact ⟨_, (hwrites _).mpr (.inl rfl), SameContent.stamp s _ _ _⟩
  cases hstage with
  | start => exact Safe.refl h
  | created hs ht ho hw => exact (hcreated hs ht).1
  | createdRemoved hs ht ho hw hd hr =>
    obtain ⟨hsafe, hsource, hcopy⟩ := hcreated hs ht
    exact hsafe.trans hne (safe_removeSnapshot hne hsafe.2 hsource hcopy)
  | removed hs ht hv hw hd hr =>
    refine safe_removeSnapshot hne h rfl fun s hsource => ?_
    obtain ⟨existing, htarget⟩ := Option.isSome_iff_exists.mp ht
    have hmem := @latestSnapshot_isLatest store r (.tenant tenantID) rfl
    rw [htarget] at hmem
    simp only [snapshotView, snapshotVerdict, htarget, stampedSnapshot, Option.mem_def.mp hsource,
      Option.map_some] at hv
    have hsame := (verifyRecordEquivalent_some.mp hv).2.2
    exact ⟨existing, hmem.1, hsame.1.symm.trans (SameContent.stamp s _ _ _)⟩

end Snapshots

theorem safe_state (h : r.WellFormed id) {write deleteSource : Bool}
    (hstage : (a.stateView id tenantID r).Stage write deleteSource r r') : a.Safe id tenantID r r' := by
  cases hstage with
  | start => exact Safe.refl h
  | created hs ht ho hw =>
    obtain ⟨s, hsource⟩ := Option.isSome_iff_exists.mp hs
    have hnone : r.state (.tenant tenantID) = none := by simpa [stateView] using ht
    have hclone : (a.stateView id tenantID r).create r = r.setState (.tenant tenantID) (some
        (stampAdoptionReceipt a.sha a.stateWire s a.sourceScope (intentFor tenantID).metadata none)) := by
      simp only [stateView, stampedState, hsource, Option.map_some]
    have hown : (stampAdoptionReceipt a.sha a.stateWire s a.sourceScope (intentFor tenantID).metadata
        none).persistenceId = id := h.own_state _ s hsource
    rw [hclone]
    exact ⟨Kept.createState hnone _, h.setState hown⟩
  | createdRemoved hs ht ho hw hd hr => cases hr
  | removed hs ht hv hw hd hr => cases hr

theorem safe_applyKind {σ : Type} {kind : RecordKind} {store : Option σ}
    {adopt : σ → Prog Records Err RecordOutcome}
    {s : Progress} {C : Records → Prop} (h : C r) (hadopt : ∀ store, wp (adopt store) (fun _ => C) C r) :
    wp (applyKind id kind store adopt s) (fun _ => C) C r := by
  unfold applyKind
  split
  · exact wp_bind (wp_mono (hadopt _) (fun _ _ h' => wp_pure h') fun _ h' => h')
  · exact wp_pure h

variable {report : AdoptionReport}

theorem safe_adoptAggregate (hne : Scope.tenant tenantID ≠ a.sourceScope)
    (h : r.WellFormed id) : wp (a.adoptAggregate id tenantID report) (fun _ => a.Safe id tenantID r)
      (a.Safe id tenantID r) r := by
  have hevents (s : Progress) : wp (applyKind id .events a.eventsStore
      (fun store => a.adoptEvents store id (intentFor tenantID)) s) (fun _ => a.Safe id tenantID r)
      (a.Safe id tenantID r) r :=
    safe_applyKind (Safe.refl h) fun store =>
      wp_mono (adoptEvents_realizes h hne).stages (fun _ _ => safe_events hne h) fun _ => safe_events hne h
  have hsnapshot (s : Progress) {r' : Records} (hr' : a.Safe id tenantID r r') : wp (applyKind id .snapshot
      a.snapshotStore (fun store => a.adoptSnapshot store id (intentFor tenantID)) s) (fun _ => a.Safe id tenantID r)
      (a.Safe id tenantID r) r' :=
    safe_applyKind hr' fun store => wp_mono (adoptSnapshot_realizes hne).stages
      (fun _ _ hq => hr'.trans hne (safe_snapshot hne hr'.2 hq)) fun _ hq => hr'.trans hne (safe_snapshot hne hr'.2 hq)
  have hstate (s : Progress) {r' : Records} (hr' : a.Safe id tenantID r r') : wp (applyKind id .durableState
      a.stateStore (fun store => a.adoptState store id (intentFor tenantID)) s) (fun _ => a.Safe id tenantID r)
      (a.Safe id tenantID r) r' :=
    safe_applyKind hr' fun store => wp_mono adoptState_realizes.stages
      (fun _ _ hq => hr'.trans hne (safe_state hr'.2 hq)) fun _ hq => hr'.trans hne (safe_state hr'.2 hq)
  refine wp_bind (wp_mono ?_ (fun _ _ hq => wp_pure hq) fun _ hq => hq)
  refine wp_bind (wp_mono (hevents _) (fun s r' hr' => ?_) fun _ hq => hq)
  exact wp_bind (wp_mono (hsnapshot s hr') (fun s r'' hr'' => hstate s hr'') fun _ hq => hq)

def Conserved (a : TenantAdopter) (id : String) (r r' : Records) : Prop :=
  r' = r ∨ ∃ tenantID, a.assign id = .ok (some tenantID) ∧ .tenant tenantID ≠ a.sourceScope ∧
    Kept a.sourceScope (.tenant tenantID) r r'

theorem Conserved.trans {r' r'' : Records} (h : a.Conserved id r r') (h' : a.Conserved id r' r'') :
    a.Conserved id r r'' := by
  rcases h with rfl | ⟨tenantID, hassign, hne, hkept⟩
  · exact h'
  · rcases h' with rfl | ⟨tenantID', hassign', -, hkept'⟩
    · exact .inr ⟨tenantID, hassign, hne, hkept⟩
    · obtain rfl : tenantID = tenantID' := Option.some.inj (Except.ok.inj (hassign.symm.trans hassign'))
      exact .inr ⟨tenantID, hassign, hne, hkept.trans hne hkept'⟩

theorem acquireFences_reads {scopes : List Scope} :
    wp (acquireFences scopes) (fun _ r' => r' = r) (fun r' => r' = r) r := by
  induction scopes with
  | nil => exact wp_pure rfl
  | cons scope scopes ih => exact wp_read rfl (fun err => wp_pure rfl) fun u _ => ih

theorem newTenantScope_ok {scope : Scope} (h : newTenantScope tenantID = .ok scope) :
    scope = .tenant tenantID ∧ newTenantID tenantID = .ok tenantID := by
  unfold newTenantScope at h
  cases hid : newTenantID tenantID with
  | error err => cases err <;> simp [hid] at h
  | ok id =>
    obtain rfl := newTenantID_ok hid
    rw [hid] at h
    exact ⟨(Except.ok.inj h).symm, rfl⟩

theorem processAggregate_conserves (h : r.WellFormed id) :
    wp (a.processAggregate id report) (fun _ r' => a.Conserved id r r' ∧ r'.WellFormed id)
      (fun r' => a.Conserved id r r' ∧ r'.WellFormed id) r := by
  have hsame : a.Conserved id r r ∧ r.WellFormed id := ⟨.inl rfl, h⟩
  unfold processAggregate
  split
  · exact wp_pure hsame
  · exact wp_pure hsame
  · rename_i tenantID hassign
    split
    · exact wp_pure hsame
    · rename_i target htarget
      obtain rfl := (newTenantScope_ok htarget).1
      split
      · exact wp_pure hsame
      · rename_i hne
        have hadopt (report : AdoptionReport) : wp (a.adoptAggregate id tenantID report)
            (fun _ r' => a.Conserved id r r' ∧ r'.WellFormed id)
            (fun r' => a.Conserved id r r' ∧ r'.WellFormed id) r :=
          wp_mono (safe_adoptAggregate hne h) (fun _ r' hq => ⟨.inr ⟨tenantID, hassign, hne, hq.1⟩, hq.2⟩)
            fun r' hq => ⟨.inr ⟨tenantID, hassign, hne, hq.1⟩, hq.2⟩
        split
        · refine wp_bind (wp_mono acquireFences_reads (fun fences r' hr' => ?_) fun r' hr' => ?_)
          · subst hr'
            cases fences with
            | error err => exact wp_pure hsame
            | ok u => exact hadopt _
          · subst hr'
            exact hsame
        · exact hadopt _

def ConservedAll (a : TenantAdopter) (c c' : Contents) : Prop :=
  ∀ id, a.Conserved id (c.records id) (c'.records id) ∧ (c'.records id).WellFormed id

variable {c : Contents}

theorem handle_conserves (hc : ∀ id, (c.records id).WellFormed id) :
    wp (a.handle id report) (fun _ => a.ConservedAll c) (a.ConservedAll c) c := by
  have hset {r : Records} (h : a.Conserved id (c.records id) r ∧ r.WellFormed id) :
      a.ConservedAll c (c.set id r) := by
    intro other
    by_cases heq : other = id
    · subst heq
      rwa [Contents.set_self]
    · rw [Contents.set_of_ne c r heq]
      exact ⟨.inl rfl, hc other⟩
  exact Lib.Prog.wp_zoom (wp_mono (processAggregate_conserves (hc id)) (fun _ _ h => hset h) fun _ h => hset h)

theorem adoptAll_conserves (hc : ∀ id, (c.records id).WellFormed id) {ids : List String} :
    wp (a.adoptAll ids report) (fun _ => a.ConservedAll c) (a.ConservedAll c) c := by
  induction ids generalizing c report with
  | nil => exact wp_pure fun id => ⟨.inl rfl, hc id⟩
  | cons id ids ih =>
    refine wp_bind (wp_mono (handle_conserves hc) (fun handled c' hc' => ?_) fun _ h => h)
    have hrest {report : AdoptionReport} :
        wp (a.adoptAll ids report) (fun _ => a.ConservedAll c) (a.ConservedAll c) c' := by
      have htrans (c'' : Contents) (h : a.ConservedAll c' c'') : a.ConservedAll c c'' :=
        fun id => ⟨(hc' id).1.trans (h id).1, (h id).2⟩
      exact wp_mono (ih fun id => (hc' id).2) (fun _ => htrans) htrans
    split
    · split
      · exact wp_pure hc'
      · exact hrest
    · exact hrest

theorem ping_reads {σ : Type} {text : String} {store : Option σ} :
    wp (ping text store) (fun _ c' => c' = c) (fun c' => c' = c) c := by
  cases store with
  | none => exact wp_pure rfl
  | some store => exact wp_read rfl (fun err => wp_pure rfl) fun u _ => wp_pure rfl

theorem pingStores_reads : wp a.pingStores (fun _ c' => c' = c) (fun c' => c' = c) c := by
  refine wp_bind (wp_mono ping_reads (fun u c' hc' => ?_) fun _ h => h)
  subst hc'
  cases u with
  | error err => exact wp_pure rfl
  | ok u =>
    refine wp_bind (wp_mono ping_reads (fun u c' hc' => ?_) fun _ h => h)
    subst hc'
    cases u with
    | error err => exact wp_pure rfl
    | ok u => exact ping_reads

theorem collectPages_reads {store : JournalStore} {pages : ℕ} {token : String} :
    wp (a.collectPages store pages token) (fun _ c' => c' = c) (fun c' => c' = c) c := by
  induction pages generalizing token with
  | zero => exact wp_pure rfl
  | succ pages ih =>
    refine wp_read rfl (fun err => wp_pure rfl) fun page _ => ?_
    dsimp only
    split
    · exact wp_pure rfl
    · refine wp_bind (wp_mono ih (fun rest c' hc' => ?_) fun _ h => h)
      subst hc'
      cases rest with
      | error err => exact wp_pure rfl
      | ok rest => exact wp_pure rfl

theorem collectPersistenceIDs_reads : wp a.collectPersistenceIDs (fun _ c' => c' = c) (fun c' => c' = c) c := by
  unfold collectPersistenceIDs
  split
  · exact wp_pure rfl
  · refine Lib.Prog.wp_given (wp_bind (wp_mono collectPages_reads (fun listed c' hc' => ?_) fun _ h => h))
    subst hc'
    cases listed with
    | error err => exact wp_pure rfl
    | ok listed => exact wp_pure rfl

theorem run_reads_first {C : Contents → Prop} (hc : C c)
    (h : ∀ ids, wp (a.adoptAll ids { dryRun := !a.write }) (fun _ => C) C c) : wp a.run (fun _ => C) C c := by
  refine wp_bind (wp_mono pingStores_reads (fun u c' hc' => ?_) fun c' hc' => ?_)
  · subst hc'
    cases u with
    | error err => exact wp_pure hc
    | ok u =>
      refine wp_bind (wp_mono collectPersistenceIDs_reads (fun ids c' hc' => ?_) fun c' hc' => ?_)
      · subst hc'
        cases ids with
        | error err => exact wp_pure hc
        | ok ids => exact h ids
      · subst hc'
        exact hc
  · subst hc'
    exact hc

theorem run_conserves_all (hc : ∀ id, (c.records id).WellFormed id) (fates : List (Lib.Fate Err)) :
    a.ConservedAll c (a.run ⟨c, fates⟩).2.contents :=
  (run_reads_first (fun id => ⟨.inl rfl, hc id⟩) fun _ => adoptAll_conserves hc).contents fates

structure Untouched (scope : Scope) (r r' : Records) : Prop where
  log : r.log scope ≠ none → r'.log scope = r.log scope
  snapshots : r.snapshots scope ≠ [] → r'.snapshots scope = r.snapshots scope
  state : r.state scope ≠ none → r'.state scope = r.state scope

/-- Whatever a run is asked to do and whichever of its calls fail: no event and no
latest snapshot of the source is lost, and no record of a target is touched. -/
theorem run_conserves (a : TenantAdopter) (c : Contents) (hc : ∀ id, (c.records id).WellFormed id)
    (fates : List (Lib.Fate Err)) (id : String) :
    let r := c.records id
    let r' := (a.run ⟨c, fates⟩).2.contents.records id
    (∀ e ∈ journal (r.log a.sourceScope), e ∈ journal (r'.log a.sourceScope) ∨
      ∃ tenantID, a.assign id = .ok (some tenantID) ∧
        ∃ copy ∈ journal (r'.log (.tenant tenantID)), SameContent copy e) ∧
    (∀ s, IsLatestSnapshot (r.snapshots a.sourceScope) (some s) → s ∈ r'.snapshots a.sourceScope ∨
      ∃ tenantID, a.assign id = .ok (some tenantID) ∧
        ∃ copy ∈ r'.snapshots (.tenant tenantID), SameContent copy s) ∧
    ∀ scope, scope ≠ a.sourceScope ∨
      (∃ tenantID, a.assign id = .ok (some tenantID) ∧ scope = .tenant tenantID) →
      Untouched scope r r' := by
  intro r r'
  have hconserved := (a.run_conserves_all hc fates id).1
  change a.Conserved id r r' at hconserved
  rcases hconserved with heq | ⟨tenantID, hassign, hne, hkept⟩
  · rw [heq]
    exact ⟨fun e he => .inl he, fun s hs => .inl hs.1,
      fun scope _ => ⟨fun _ => rfl, fun _ => rfl, fun _ => rfl⟩⟩
  · refine ⟨fun e he => (hkept.events e he).imp_right fun h => ⟨tenantID, hassign, h⟩, fun s hs => ?_,
      fun scope hscope => ?_⟩
    · exact (hkept.snapshot s hs).imp (fun h => h.1) fun h => ⟨tenantID, hassign, h⟩
    · have hother : scope ≠ a.sourceScope := by
        rcases hscope with h | ⟨t, ht, rfl⟩
        · exact h
        · obtain rfl : tenantID = t := Option.some.inj (Except.ok.inj (hassign.symm.trans ht))
          exact hne
      exact ⟨hkept.log scope hother, hkept.snapshots scope hother, hkept.state scope hother⟩

theorem Conserved.event_kept {r r' : Records} (h : a.Conserved id r r') {scope : Scope} {e : Event}
    (he : e ∈ journal (r.log scope)) : ∃ scope', ∃ copy ∈ journal (r'.log scope'), SameContent copy e := by
  rcases h with rfl | ⟨tenantID, -, -, hkept⟩
  · exact ⟨scope, e, he, rfl⟩
  by_cases hsource : scope = a.sourceScope
  · subst hsource
    rcases hkept.events e he with h | ⟨copy, hcopy, hsame⟩
    · exact ⟨_, e, h, rfl⟩
    · exact ⟨_, copy, hcopy, hsame⟩
  · exact ⟨scope, e, by rwa [hkept.log scope hsource (ne_none_of_mem_journal he)], rfl⟩

theorem Conserved.untouched {r r' : Records} (h : a.Conserved id r r') {scope : Scope} (hne : a.sourceScope ≠ scope) :
    Untouched scope r r' := by
  rcases h with rfl | ⟨tenantID, -, -, hkept⟩
  · exact ⟨fun _ => rfl, fun _ => rfl, fun _ => rfl⟩
  · exact ⟨hkept.log scope hne.symm, hkept.snapshots scope hne.symm, hkept.state scope hne.symm⟩

theorem Untouched.trans {scope : Scope} {r r' r'' : Records} (h : Untouched scope r r') (h' : Untouched scope r' r'') :
    Untouched scope r r'' := by
  refine ⟨fun hr => ?_, fun hr => ?_, fun hr => ?_⟩
  · rw [h'.log (h.log hr ▸ hr), h.log hr]
  · rw [h'.snapshots (h.snapshots hr ▸ hr), h.snapshots hr]
  · rw [h'.state (h.state hr ▸ hr), h.state hr]

def runAll (c : Contents) (runs : List (TenantAdopter × List (Lib.Fate Err))) : Contents :=
  runs.foldl (fun c x => (x.1.run ⟨c, x.2⟩).2.contents) c

/-- Adopters of any sources and targets may run one after the other, be cut off and run
again: every event stays in some scope, and a scope that is never a source keeps what
it has. -/
theorem runAll_conserves (runs : List (TenantAdopter × List (Lib.Fate Err))) (c : Contents)
    (hc : ∀ id, (c.records id).WellFormed id) (id : String) :
    (∀ scope, ∀ e ∈ journal ((c.records id).log scope),
      ∃ scope', ∃ copy ∈ journal (((runAll c runs).records id).log scope'), SameContent copy e) ∧
    ∀ scope, (∀ x ∈ runs, x.1.sourceScope ≠ scope) →
      Untouched scope (c.records id) ((runAll c runs).records id) := by
  induction runs generalizing c with
  | nil => exact ⟨fun scope e he => ⟨scope, e, he, rfl⟩,
      fun _ _ => ⟨fun _ => rfl, fun _ => rfl, fun _ => rfl⟩⟩
  | cons x runs ih =>
    have hone := run_conserves_all hc x.2 (a := x.1)
    obtain ⟨hevents, huntouched⟩ := ih _ fun id => (hone id).2
    refine ⟨fun scope e he => ?_, fun scope hnever => ?_⟩
    · obtain ⟨scope₁, copy₁, hcopy₁, hsame₁⟩ := (hone id).1.event_kept he
      obtain ⟨scope₂, copy₂, hcopy₂, hsame₂⟩ := hevents scope₁ copy₁ hcopy₁
      exact ⟨scope₂, copy₂, hcopy₂, hsame₂.trans hsame₁⟩
    · obtain ⟨hx, hruns⟩ := List.forall_mem_cons.mp hnever
      exact ((hone id).1.untouched hx).trans (huntouched scope hruns)

end TenantAdopter

section
open Enginetest TenantAdopter

theorem wellFormed_noRecords (id : String) : noRecords.WellFormed id := by
  refine ⟨?_, ?_, ?_, ?_, ?_, ?_⟩ <;> simp [noRecords]

theorem wellFormed_credit : (noRecords.setLog .unscoped (some (creditLog 1 (by decide)))).WellFormed "account" :=
  (wellFormed_noRecords "account").setLog (by decide) (by decide) (by decide)

theorem wellFormed_account {r : Records} (h : r.WellFormed "account") (id : String) :
    ((accountContents r).records id).WellFormed id := by
  by_cases hid : id = "account"
  · subst hid
    rwa [accountContents, Contents.set_self]
  · rw [accountContents, Contents.set_of_ne _ _ hid]
    exact wellFormed_noRecords id

/-- The credit survives a run whose eleventh call, the deletion from the source, takes
effect but reports an error. -/
theorem run_conserves_credit : let r := noRecords.setLog .unscoped (some (creditLog 1 (by decide)))
    let fates := List.replicate 10 .answered ++ [.fails (.message "connection lost") true]
    let r' := ((acmeAdopter Testkit.journalStore true true).run ⟨accountContents r, fates⟩).2.contents.records
      "account"
    credited "account" 1 0 ∈ journal (r'.log .unscoped) ∨
      ∃ copy ∈ journal (r'.log (.tenant "acme")), SameContent copy (credited "account" 1 0) := by
  intro r fates r'
  have h := (run_conserves (acmeAdopter Testkit.journalStore true true) (accountContents r)
    (wellFormed_account wellFormed_credit) fates "account").1
  rw [show (accountContents r).records "account" = r from Contents.set_self _ _ _] at h
  refine (h (credited "account" 1 0) (by simp [r, Records.setLog, acmeAdopter, creditLog])).imp_right ?_
  rintro ⟨tenantID, hassign, hcopy⟩
  obtain rfl : "acme" = tenantID := Option.some.inj (Except.ok.inj hassign)
  exact hcopy

def numberedFromZero : EventLog := ⟨1, [credited "account" 0 0, credited "account" 1 0], by decide, by decide⟩

/-- The replay starts at 1 and the deletion does not: an event with number 0 is not copied
and is deleted from the source. -/
theorem event_zero_lost :
    let a := { acmeAdopter Testkit.journalStore true true with explicitIDs := ["account"] }
    let r := noRecords.setLog .unscoped (some numberedFromZero)
    let r' := (a.run ⟨accountContents r, []⟩).2.contents.records "account"
    credited "account" 0 0 ∈ journal (r.log .unscoped) ∧ journal (r'.log .unscoped) = [] ∧
      (journal (r'.log (.tenant "acme"))).map (·.sequenceNumber) = [1] := by
  decide +kernel

theorem runAll_conserves_credit : let a := acmeAdopter Testkit.journalStore true true
    let c := accountContents (noRecords.setLog .unscoped (some (creditLog 1 (by decide))))
    ∃ scope, ∃ copy ∈ journal (((runAll
      c [(a, List.replicate 10 .answered ++ [.fails (.message "connection lost") true]),
      (a, [])]).records "account").log scope), SameContent copy (credited "account" 1 0) := by
  intro a c
  refine (runAll_conserves _ c (wellFormed_account wellFormed_credit) "account").1 .unscoped _ ?_
  rw [show c.records "account" = _ from Contents.set_self _ _ _]
  simp [Records.setLog, creditLog]

end

end Ego.Migration

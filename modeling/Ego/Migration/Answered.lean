import Ego.Migration.Conservation

/-! # A run whose calls are all answered -/

namespace Ego.Migration
open Persistence
open Lib (Prog)
open Lib.Prog (Returns returns_pure returns_read returns_given returns_zoom)

namespace View
variable {β : Type} {v : View} {write deleteSource : Bool}

def Keeps (v : View) (f : Records → β) : Prop := (∀ r, f (v.create r) = f r) ∧ ∀ r, f (v.remove r) = f r

theorem Keeps.effect {f : Records → β} (h : v.Keeps f) (r : Records) : f (v.effect write deleteSource r) = f r := by
  unfold View.effect
  split
  · split
    · rfl
    · split
      · exact h.2 r
      · rfl
  · split
    · rfl
    · split
      · rw [h.2, h.1]
      · exact h.1 r

end View

namespace TenantAdopter

def settle (write deleteSource : Bool) (id : String) : List (RecordKind × View) → Progress × Records →
    Progress × Records
  | [], state => state
  | (kind, v) :: views, (s, r) =>
    match s.aggFailure with
    | none => settle write deleteSource id views
        (s.record id kind (v.outcome write deleteSource), v.effect write deleteSource r)
    | some _ => (s, r)

variable {write deleteSource : Bool} {id : String}

variable {s : Progress} {r : Records}

theorem settle_of_failed {views : List (RecordKind × View)}
    (h : s.aggFailure ≠ none) : settle write deleteSource id views (s, r) = (s, r) := by
  cases views with
  | nil => rfl
  | cons view views =>
    unfold settle
    cases hs : s.aggFailure with
    | none => exact absurd hs h
    | some f => rfl

theorem settle_append (xs ys : List (RecordKind × View)) (state : Progress × Records) :
    settle write deleteSource id (xs ++ ys) state =
      settle write deleteSource id ys (settle write deleteSource id xs state) := by
  induction xs generalizing state with
  | nil => rfl
  | cons view xs ih =>
    obtain ⟨s, r⟩ := state
    cases hs : s.aggFailure with
    | none =>
      rw [List.cons_append, settle, hs, settle, hs]
      exact ih _
    | some f =>
      have hfailed : s.aggFailure ≠ none := by simp [hs]
      rw [settle_of_failed hfailed, settle_of_failed hfailed, settle_of_failed hfailed]

theorem settle_frame {β : Type} {f : Records → β} {views : List (RecordKind × View)}
    (h : ∀ view ∈ views, view.2.Keeps f) (state : Progress × Records) :
    f (settle write deleteSource id views state).2 = f state.2 := by
  induction views generalizing state with
  | nil => rfl
  | cons view views ih =>
    obtain ⟨hview, hviews⟩ := List.forall_mem_cons.mp h
    obtain ⟨s, r⟩ := state
    unfold settle
    split
    · rw [ih hviews]
      exact hview.effect r
    · rfl

theorem applyKind_returns {σ : Type} {kind : RecordKind} {store : Option σ} {view : σ → View}
    {adopt : σ → Prog Records Err RecordOutcome} {s : Progress} {r : Records}
    (h : ∀ x ∈ store, (view x).Realizes write deleteSource (adopt x) r) :
    let state := settle write deleteSource id (store.map fun x => (kind, view x)).toList (s, r)
    Returns (applyKind id kind store adopt s) r state.1 state.2 := by
  intro state
  unfold applyKind
  cases hs : s.aggFailure with
  | some f =>
    have hstate : state = (s, r) := settle_of_failed (by simp [hs])
    rw [hstate]
    cases store with
    | none | some => exact returns_pure
  | none =>
    cases store with
    | none => exact returns_pure
    | some x =>
      have hstate : state = (s.record id kind ((view x).outcome write deleteSource),
          (view x).effect write deleteSource r) := by
        change settle write deleteSource id [(kind, view x)] (s, r) = _
        simp only [settle, hs]
      rw [hstate]
      exact (h x rfl).returns.bind returns_pure

variable (a : TenantAdopter)

def views (id : String) (tenantID : TenantID) (r : Records) : List (RecordKind × View) :=
  (a.eventsStore.map fun store => (.events, a.eventsView store id tenantID r)).toList ++
    ((a.snapshotStore.map fun store => (.snapshot, a.snapshotView store id tenantID r)).toList ++
      (a.stateStore.map fun _ => (.durableState, a.stateView id tenantID r)).toList)

variable {a} {tenantID : TenantID}

theorem snapshotView_congr {store : FullSnapshotStore} {r' : Records} (h : r'.snapshots = r.snapshots) :
    a.snapshotView store id tenantID r' = a.snapshotView store id tenantID r := by
  simp only [snapshotView, snapshotVerdict, stampedSnapshot, latestSnapshot, h]

theorem stateView_congr {r' : Records} (h : r'.state = r.state) :
    a.stateView id tenantID r' = a.stateView id tenantID r := by
  simp only [stateView, stateVerdict, stampedState, h]

section
variable {β : Type} {f : Records → β}

theorem eventsView_keeps {store : JournalStore} (hf : ∀ r scope log, f (r.setLog scope log) = f r) (r : Records) :
    (a.eventsView store id tenantID r).Keeps f :=
  ⟨fun _ => hf _ _ _, fun _ => hf _ _ _⟩

theorem snapshotView_keeps {store : FullSnapshotStore}
    (hf : ∀ r scope snapshots, f (r.setSnapshots scope snapshots) = f r)
    (r : Records) : (a.snapshotView store id tenantID r).Keeps f := by
  dsimp only [View.Keeps, snapshotView]
  refine ⟨fun r' => ?_, fun r' => ?_⟩
  · split
    · rfl
    · exact hf _ _ _
  · split
    · rfl
    · exact hf _ _ _

theorem settle_events (hf : ∀ r scope log, f (r.setLog scope log) = f r) : f (settle a.write a.deleteSource id
      (a.eventsStore.map fun store => (RecordKind.events, a.eventsView store id tenantID r)).toList (s, r)).2 =
        f r := by
  refine settle_frame (fun view hview => ?_) (s, r)
  obtain ⟨store, -, rfl⟩ := Option.map_eq_some_iff.mp (Option.mem_toList.mp hview)
  exact eventsView_keeps hf r

end

theorem adoptKinds_returns (h : r.WellFormed id) (hne : Scope.tenant tenantID ≠ a.sourceScope) :
    let state := settle a.write a.deleteSource id (a.views id tenantID r) (s, r)
    Returns (a.adoptKinds id (intentFor tenantID) s) r state.1 state.2 := by
  intro state
  have hevents := @applyKind_returns a.write a.deleteSource id _ .events a.eventsStore
    (fun store => a.eventsView store id tenantID r) (fun store => a.adoptEvents store id (intentFor tenantID)) s r
    fun store _ => adoptEvents_realizes h hne
  refine hevents.bind ?_
  generalize hfirst : settle a.write a.deleteSource id
    (a.eventsStore.map fun store => (RecordKind.events, a.eventsView store id tenantID r)).toList (s, r) = first
  have hsnapshots : first.2.snapshots = r.snapshots := by
    rw [← hfirst]
    exact settle_events fun _ _ _ => rfl
  have hstates : first.2.state = r.state := by
    rw [← hfirst]
    exact settle_events fun _ _ _ => rfl
  have hsnapshot := @applyKind_returns a.write a.deleteSource id _ .snapshot a.snapshotStore
    (fun store => a.snapshotView store id tenantID r) (fun store => a.adoptSnapshot store id (intentFor tenantID))
    first.1 first.2 fun store _ => snapshotView_congr hsnapshots ▸ adoptSnapshot_realizes hne
  refine hsnapshot.bind ?_
  generalize hsecond : settle a.write a.deleteSource id
    (a.snapshotStore.map fun store => (RecordKind.snapshot, a.snapshotView store id tenantID r)).toList
    (first.1, first.2) = second
  have hstates' : second.2.state = r.state := by
    rw [← hsecond, ← hstates]
    refine settle_frame (f := Records.state) (fun view hview => ?_) (first.1, first.2)
    obtain ⟨store, -, rfl⟩ := Option.map_eq_some_iff.mp (Option.mem_toList.mp hview)
    exact snapshotView_keeps (fun _ _ _ => rfl) r
  have hstate := @applyKind_returns a.write a.deleteSource id _ .durableState a.stateStore
    (fun _ => a.stateView id tenantID r) (fun store => a.adoptState store id (intentFor tenantID))
    second.1 second.2 fun store _ => stateView_congr hstates' ▸ adoptState_realizes
  have hall : state = settle a.write a.deleteSource id
      (a.stateStore.map fun _ => (RecordKind.durableState, a.stateView id tenantID r)).toList (second.1, second.2) := by
    rw [← hsecond, ← hfirst]
    change settle _ _ _ (a.views id tenantID r) (s, r) = _
    rw [views, settle_append, settle_append]
  rw [hall]
  exact hstate

variable (a)

def processed (id : String) (report : AdoptionReport) (r : Records) : Handled × Records :=
  match a.assign id with
  | .error err => (a.reject id (err.wrap "tenant assignment") report, r)
  | .ok none => (⟨false, none, { report with skippedByAssignment := report.skippedByAssignment + 1 }⟩, r)
  | .ok (some tenantID) =>
    let report := { report with assigned := report.assigned + 1 }
    match newTenantScope tenantID with
    | .error err =>
      (a.reject id (err.wrap ("assigned tenant " ++ quote tenantID ++ " is not a valid target scope")) report, r)
    | .ok target =>
      if target = a.sourceScope then (a.reject id errTargetIsSource report, r)
      else
        let state := settle a.write a.deleteSource id (a.views id tenantID r)
          ({ outcome := { persistenceID := id, tenant := tenantID }, report := report }, r)
        (a.conclude id state.1, state.2)

variable {a}

theorem acquireFences_returns {scopes : List Scope} : Returns (acquireFences scopes) r (.ok ()) r := by
  induction scopes with
  | nil => exact returns_pure
  | cons scope scopes ih => exact returns_read rfl ih

theorem processAggregate_returns {report : AdoptionReport} {r : Records} (h : r.WellFormed id) :
    Returns (a.processAggregate id report) r (a.processed id report r).1 (a.processed id report r).2 := by
  unfold processAggregate processed
  cases hassign : a.assign id with
  | error err => exact returns_pure
  | ok assigned =>
    cases assigned with
    | none => exact returns_pure
    | some tenantID =>
      dsimp only
      cases hscope : newTenantScope tenantID with
      | error err => exact returns_pure
      | ok target =>
        dsimp only
        obtain rfl := (newTenantScope_ok hscope).1
        by_cases hsame : Scope.tenant tenantID = a.sourceScope
        · rw [if_pos hsame, if_pos hsame]
          exact returns_pure
        · rw [if_neg hsame, if_neg hsame]
          have hadopt (report : AdoptionReport) : Returns (a.adoptAggregate id tenantID report) r
              (a.conclude id (settle a.write a.deleteSource id (a.views id tenantID r)
                ({ outcome := { persistenceID := id, tenant := tenantID }, report := report }, r)).1)
              (settle a.write a.deleteSource id (a.views id tenantID r)
                ({ outcome := { persistenceID := id, tenant := tenantID }, report := report }, r)).2 :=
            (adoptKinds_returns h hsame).bind returns_pure
          split
          · exact acquireFences_returns.bind (hadopt _)
          · exact hadopt _

variable (a)

def adopted : List String → AdoptionReport → Contents → (Option AdoptionReport × Option Err) × Contents
  | [], report, c => ((some report, none), c)
  | id :: ids, report, c =>
    let handled := a.processed id { report with scanned := report.scanned + 1 } (c.records id)
    let c' := c.set id handled.2
    match handled.1.failure with
    | some f => if handled.1.stop then ((some handled.1.report, some f.error), c') else adopted ids handled.1.report c'
    | none => adopted ids handled.1.report c'

def scannedIDs (c : Contents) : List String :=
  match a.eventsStore with
  | none => distinct a.explicitIDs
  | some store => distinct (a.listedIDs store c ++ a.explicitIDs)

variable {a}

variable {c : Contents}

theorem ping_returns {σ : Type} {text : String} {store : Option σ} : Returns (ping text store) c (.ok ()) c := by
  cases store with
  | none => exact returns_pure
  | some store => exact returns_read rfl returns_pure

theorem pingStores_returns : Returns a.pingStores c (.ok ()) c :=
  ping_returns.bind (ping_returns.bind ping_returns)

theorem collectPages_returns {store : JournalStore} {pages : ℕ} {token : String} {ids : List String}
    (h : enumerate (store.persistenceIDs (a.listedIDs store c) a.pageSize) pages token = some ids) :
    Returns (a.collectPages store pages token) c (.ok ids) c := by
  induction pages generalizing token ids with
  | zero => cases h
  | succ pages ih =>
    refine returns_read rfl ?_
    unfold enumerate at h
    rcases hpage : store.persistenceIDs (a.listedIDs store c) a.pageSize token with ⟨page, next⟩
    rw [hpage] at h
    dsimp only at h ⊢
    split at h
    · rename_i hlast
      obtain rfl := Option.some.inj h
      rw [if_pos hlast]
      exact returns_pure
    · rename_i hmore
      obtain ⟨rest, hrest, rfl⟩ := Option.map_eq_some_iff.mp h
      rw [if_neg hmore]
      exact (ih hrest).bind returns_pure

theorem collectPersistenceIDs_returns (hc : c.WellFormed) :
    Returns a.collectPersistenceIDs c (.ok (a.scannedIDs c)) c := by
  unfold collectPersistenceIDs scannedIDs
  cases a.eventsStore with
  | none => exact returns_pure
  | some store =>
    have hsorted : (a.listedIDs store c).Pairwise (· < ·) := (Finset.sortedLT_sort _).pairwise
    have hnamed : "" ∉ a.listedIDs store c := by
      intro hmem
      rw [listedIDs, Finset.mem_sort, Finset.mem_filter] at hmem
      exact hc.named _ hmem.1
    have hpages : enumerate (store.persistenceIDs (a.listedIDs store c) a.pageSize)
        ((a.listedIDs store c).length + 1) "" =
        some (a.listedIDs store c) :=
      (store.listing _ _ a.pageSize_pos hsorted hnamed).enumerate a.pageSize_pos hsorted hnamed _ "" (.inl rfl)
        (Nat.lt_succ_self _)
    exact returns_given ((collectPages_returns hpages).bind returns_pure)

theorem processed_wellFormed {report : AdoptionReport} {r : Records} (h : r.WellFormed id) :
    (a.processed id report r).2.WellFormed id :=
  ((processAggregate_conserves h).returns (processAggregate_returns h)).2

theorem wellFormed_set (hc : ∀ id, (c.records id).WellFormed id) (h : r.WellFormed id) :
    ∀ other, ((c.set id r).records other).WellFormed other := by
  intro other
  by_cases heq : other = id
  · subst heq
    rwa [Contents.set_self]
  · rw [Contents.set_of_ne c r heq]
    exact hc other

theorem adoptAll_returns {ids : List String} {report : AdoptionReport} (hc : ∀ id, (c.records id).WellFormed id) :
    Returns (a.adoptAll ids report) c (a.adopted ids report c).1 (a.adopted ids report c).2 := by
  induction ids generalizing report c with
  | nil => exact returns_pure
  | cons id ids ih =>
    unfold adopted
    dsimp only
    generalize hreport : ({ report with scanned := report.scanned + 1 } : AdoptionReport) = next
    have hprocessed := @processAggregate_returns id a next _ (hc id)
    have hwell := @processed_wellFormed id a next _ (hc id)
    generalize a.processed id next (c.records id) = handled at hprocessed hwell ⊢
    have hhandle : Returns (a.handle id report) c handled.1 (c.set id handled.2) := by
      unfold handle
      rw [hreport]
      exact returns_zoom hprocessed
    refine hhandle.bind ?_
    cases handled.1.failure with
    | none => exact ih (wellFormed_set hc hwell)
    | some f =>
      cases handled.1.stop with
      | true => exact returns_pure
      | false => exact ih (wellFormed_set hc hwell)

theorem run_returns {c : Contents} (hc : c.WellFormed) :
    let result := a.adopted (a.scannedIDs c) { dryRun := !a.write } c
    Returns a.run c result.1 result.2 :=
  pingStores_returns.bind ((collectPersistenceIDs_returns hc).bind (adoptAll_returns hc.records))

end TenantAdopter

end Ego.Migration

import Ego.Migration.Chain
import Ego.Migration.Plan
import Ego.Migration.Seeding

/-! # The recovery of an adopted entity -/

namespace Ego.Migration
open Persistence EventSource Tenancy Protocol
open Lib (Numbered bind_eq_ok mapError_eq_ok)
open Lib.Prog (Returns)

/-! ### The recovery from the copies -/

def Restamps {ρ : Type} [Adoptable ρ] (tenantID : TenantID) (f : ρ → ρ) : Prop :=
  ∀ x, ∃ md, f x = setTenantMetadata x md ∧ unmarshalMetadata md = .ok (.tenant tenantID)

theorem restamps_stamp {ρ : Type} [Adoptable ρ] {tenantID : TenantID} (h : newTenantID tenantID = .ok tenantID)
    (sha : Digest) (wire : Marshal ρ) (scope : Scope) (predecessor : ρ → Option ℕ) : Restamps tenantID fun x =>
      stampAdoptionReceipt sha wire x scope (intentFor tenantID).metadata (predecessor x) := by
  intro x
  refine ⟨_, rfl, ?_⟩
  rw [unmarshalMetadata_receipt]
  exact unmarshalMetadata_tenant h

section
variable {S C E : Type} (cfg : Config S C E)

def loadSnapshot (snapshots : SnapshotStore) (r : Records) : Except Err (Option Snapshot) :=
  if cfg.snapshotsWriter then
    (snapshots.getLatestSnapshot cfg.scope (r.snapshots cfg.scope)).mapError (Err.wrap "failed to load snapshot")
  else .ok none

def recoverFromStores (store : EventsStore) (snapshots : SnapshotStore) (r : Records) : Except Err (Actor S) := do
  let snapshot ← loadSnapshot cfg snapshots r
  recover cfg store snapshot (r.log cfg.scope)

def boundTo (tenantID : TenantID) : Config S C E := { cfg with tenantAware := true, scope := .tenant tenantID }

variable {cfg} {tenantID : TenantID}

theorem seedFromMetadata_boundTo {md : Tenancy.Metadata} (h : unmarshalMetadata md = .ok (.tenant tenantID)) (state : S)
    (counter : ℕ) (text : String) :
    seedFromMetadata (boundTo cfg tenantID) (.new state counter (.tenant tenantID)) md text =
      .ok (.new state counter (.tenant tenantID)) := by
  simp [seedFromMetadata, seedActorTenant, boundTo, h, Actor.new, verifyUnchanged, Except.mapError, Except.map, bind,
    Except.bind]

variable {f : Event → Event} {tenant : TenantContext}

theorem applyPersistedEvent_restamped (hf : Restamps tenantID f) {s s' : S}
    {e : Event} (h : applyPersistedEvent cfg tenant s e = .ok s') :
    applyPersistedEvent (boundTo cfg tenantID) (.tenant tenantID) s (f e) = .ok s' := by
  obtain ⟨md, hcopy, hmd⟩ := hf e
  have hparts : ∃ payload adapted event, decryptPayload cfg e.event e.isEncrypted e.encryptionKeyId = .ok payload ∧
      chain cfg.eventAdapters payload e.sequenceNumber = .ok adapted ∧
        cfg.codec.unmarshalEvent adapted = .ok event ∧
        cfg.behavior.handleEvent event s = .ok s' := by
    unfold applyPersistedEvent at h
    cases ha : cfg.tenantAware with
    | false =>
      simp only [ha, Bool.false_eq_true, if_false, bind_eq_ok, mapError_eq_ok] at h
      obtain ⟨payload, hpayload, adapted, hadapted, event, hevent, hhandle⟩ := h
      exact ⟨payload, adapted, event, hpayload, hadapted, hevent, hhandle⟩
    | true =>
      simp only [ha, if_true, bind_eq_ok, mapError_eq_ok] at h
      obtain ⟨-, -, -, -, payload, hpayload, adapted, hadapted, event, hevent, hhandle⟩ := h
      exact ⟨payload, adapted, event, hpayload, hadapted, hevent, hhandle⟩
  obtain ⟨payload, adapted, event, hpayload, hadapted, hevent, hhandle⟩ := hparts
  have hpayload' : decryptPayload (boundTo cfg tenantID) e.event e.isEncrypted e.encryptionKeyId = .ok payload :=
      hpayload
  rw [hcopy, applyPersistedEvent]
  simp only [setTenantMetadata, hmd, verifyUnchanged, hpayload']
  simp [boundTo, hadapted, hevent, hhandle, Except.mapError, bind, Except.bind]

theorem foldlM_restamped (hf : Restamps tenantID f) {events : List Event}
    {s s' : S} (h : events.foldlM (applyPersistedEvent cfg tenant) s = .ok s') :
    (events.map f).foldlM (applyPersistedEvent (boundTo cfg tenantID) (.tenant tenantID)) s = .ok s' := by
  induction events generalizing s with
  | nil => exact h
  | cons e events ih =>
    obtain ⟨mid, hmid, hrest⟩ := bind_eq_ok.mp h
    rw [List.map_cons, List.foldlM_cons, applyPersistedEvent_restamped hf hmid]
    exact ih hrest

theorem recoverFromSnapshot_restamped {g : Snapshot → Snapshot} (hg : Restamps tenantID g) {initial : S}
    {snapshot : Option Snapshot} {a : Actor S} {replayFrom : ℕ}
    (h : recoverFromSnapshot cfg (.new initial 0 tenant) snapshot = .ok (a, replayFrom)) :
    recoverFromSnapshot (boundTo cfg tenantID) (.new initial 0 (.tenant tenantID)) (snapshot.map g) =
      .ok (.new a.currentState a.eventsCounter (.tenant tenantID), replayFrom) := by
  cases snapshot with
  | none =>
    obtain ⟨rfl, rfl⟩ := Prod.mk.inj (Except.ok.inj h)
    rfl
  | some s =>
    obtain ⟨md, hcopy, hmd⟩ := hg s
    cases hstored : s.state with
    | none =>
      simp only [recoverFromSnapshot, hstored] at h
      obtain ⟨rfl, rfl⟩ := Prod.mk.inj (Except.ok.inj h)
      simp only [Option.map_some, hcopy, recoverFromSnapshot, setTenantMetadata, hstored]
      rfl
    | some stored =>
      simp only [recoverFromSnapshot, hstored, bind_eq_ok, mapError_eq_ok] at h
      obtain ⟨a, -, payload, hpayload, state, hstate, h⟩ := h
      obtain ⟨rfl, rfl⟩ := Prod.mk.inj (Except.ok.inj h)
      have hpayload' : decryptPayload (boundTo cfg tenantID) stored s.isEncrypted s.encryptionKeyId =
        .ok payload := hpayload
      have hstate' : (boundTo cfg tenantID).codec.unmarshalState payload = .ok state := hstate
      simp only [Option.map_some, hcopy, recoverFromSnapshot, setTenantMetadata, hstored,
        seedFromMetadata_boundTo hmd, hpayload', hstate', Except.mapError, bind, Except.bind]
      rfl

theorem Restamps.number (hf : Restamps tenantID f) (e : Event) : (f e).sequenceNumber = e.sequenceNumber := by
  obtain ⟨md, hcopy, -⟩ := hf e
  rw [hcopy]
  rfl

section
variable {f : Event → Event} (hf : Restamps tenantID f) {log log' : Option EventLog}
  (hlog : (journal log').Perm ((journal log).map f))
include hf hlog

theorem history_restamped (a b : ℕ) : history log' a b = (history log a b).map f := by
  symm
  refine eq_history ?_ ?_
  · refine ((List.perm_insertionSort _ _).map f).trans (List.Perm.trans ?_ (hlog.filter _).symm)
    rw [List.filter_map]
    simp only [Function.comp_def, hf.number]
    rfl
  · refine List.pairwise_map.mpr (history_sorted.imp fun {x y} hxy => ?_)
    rwa [hf.number, hf.number]

theorem isLatest_restamped {latest latest' : Option Event} (h : IsLatest (journal log) latest)
    (h' : IsLatest (journal log') latest') : latest' = latest.map f := by
  cases latest with
  | none =>
    rw [show journal log = [] from h, List.map_nil, List.perm_nil] at hlog
    rw [hlog] at h'
    cases latest' with
    | none => rfl
    | some e => cases h'.1
  | some e =>
    have hmem : f e ∈ journal log' := hlog.mem_iff.mpr (List.mem_map_of_mem h.1)
    cases latest' with
    | none =>
      rw [show journal log' = [] from h'] at hmem
      cases hmem
    | some e' =>
      obtain ⟨x, hx, rfl⟩ := List.mem_map.mp (hlog.mem_iff.mp h'.1)
      have hle := h'.2 _ hmem
      rw [hf.number, hf.number] at hle
      rw [List.inj_on_of_nodup_map (journal_unique log) hx h.1 (Nat.le_antisymm (h.2 x hx) hle)]
      rfl

theorem recover_restamped {store : OrderedStore} {g : Snapshot → Snapshot} (hg : Restamps tenantID g)
    {snapshot : Option Snapshot} {a : Actor S} (h : recover cfg store.toEventsStore snapshot log = .ok a) :
    recover (boundTo cfg tenantID) store.toEventsStore (snapshot.map g) log' =
      .ok (.new a.currentState a.eventsCounter (.tenant tenantID)) := by
  simp only [recover, recoverReading, bind_eq_ok, mapError_eq_ok] at h
  obtain ⟨⟨a₀, replayFrom⟩, hsnapshot, latest, hlatest, h⟩ := h
  have hsnapshot' := recoverFromSnapshot_restamped hg hsnapshot
  obtain ⟨latest', hlatest'⟩ := store.latest_total (.tenant tenantID) log' rfl
  obtain rfl := isLatest_restamped hf hlog (store.latest_of_ok _ _ _ hlatest) (store.latest_of_ok _ _ _ hlatest')
  have hspawn : spawnTenant (boundTo cfg tenantID) = .tenant tenantID := rfl
  unfold recover recoverReading
  rw [hspawn]
  simp only [show (boundTo cfg tenantID).behavior = cfg.behavior from rfl,
    show (boundTo cfg tenantID).scope = .tenant tenantID from rfl, hsnapshot', hlatest', Except.mapError, bind,
      Except.bind]
  cases latest with
  | none =>
    obtain rfl := Except.ok.inj h
    rfl
  | some latest =>
    obtain ⟨md, hcopy, hmd⟩ := hf latest
    have hmd' : unmarshalMetadata (f latest).tenantMetadata = .ok (.tenant tenantID) := by
      rw [hcopy]
      exact hmd
    simp only [bind_eq_ok] at h
    obtain ⟨a₁, hseed, h⟩ := h
    obtain ⟨state, tenant, rfl, -⟩ := recoverFromSnapshot_new hsnapshot
    obtain ⟨tenant₁, rfl⟩ := seedFromMetadata_new hseed
    simp only [Option.map_some, seedFromMetadata_boundTo hmd', hf.number]
    split at h
    · rename_i hmore
      simp only [bind_eq_ok, mapError_eq_ok] at h
      obtain ⟨events, hevents, state', hstate, h⟩ := h
      obtain rfl := Except.ok.inj h
      obtain ⟨events', hevents'⟩ := store.replay_total (.tenant tenantID) log' replayFrom latest.sequenceNumber
        (latest.sequenceNumber - replayFrom + 1) rfl
      have hcopied : events' = events.map f := by
        rw [replay_history store hevents (by omega), replay_history store hevents' (by omega),
          history_restamped hf hlog]
      have hfold := foldlM_restamped hf hstate
      rw [if_pos hmore, hevents', hcopied]
      dsimp only [Actor.new] at hfold ⊢
      rw [hfold]
      rfl
    · rename_i hless
      obtain rfl := Except.ok.inj h
      rw [if_neg hless]
      rfl

end

end

/-! ### What the adoption leaves in the target -/

namespace TenantAdopter
variable {a : TenantAdopter} {id : String} {tenantID : TenantID} {r : Records}

theorem settle_cons_ok {write deleteSource : Bool} {view : RecordKind × View} {views : List (RecordKind × View)}
    {s : Progress} (h : (settle write deleteSource id (view :: views) (s, r)).1.aggFailure = none) :
    settle write deleteSource id (view :: views) (s, r) = settle write deleteSource id views
      (s.record id view.1 (view.2.outcome write deleteSource), view.2.effect write deleteSource r) := by
  cases hs : s.aggFailure with
  | none => rw [settle, hs]
  | some f =>
    rw [settle_of_failed (by simp [hs]), hs] at h
    cases h

theorem processed_ok {report : AdoptionReport} (hassign : a.assign id = .ok (some tenantID))
    (h : (a.processed id report r).1.failure = none) :
    newTenantID tenantID = .ok tenantID ∧ Scope.tenant tenantID ≠ a.sourceScope ∧
      ∃ s, (settle a.write a.deleteSource id (a.views id tenantID r) (s, r)).1.aggFailure = none ∧
        (a.processed id report r).2 = (settle a.write a.deleteSource id (a.views id tenantID r) (s, r)).2 := by
  unfold processed at h ⊢
  rw [hassign] at h ⊢
  dsimp only at h ⊢
  cases hscope : newTenantScope tenantID with
  | error err =>
    rw [hscope] at h
    cases h
  | ok target =>
    obtain ⟨rfl, hid⟩ := newTenantScope_ok hscope
    rw [hscope] at h
    dsimp only at h ⊢
    by_cases hsame : Scope.tenant tenantID = a.sourceScope
    · rw [if_pos hsame] at h
      cases h
    · rw [if_neg hsame] at h ⊢
      refine ⟨hid, hsame, _, ?_, rfl⟩
      unfold conclude at h
      split at h
      · cases h
      · assumption

variable {store : JournalStore} {snapshots : FullSnapshotStore}

theorem settle_views {s : Progress} (hstore : a.eventsStore = some store)
    (hsnapshots : a.snapshotStore = some snapshots)
    (h : (settle a.write a.deleteSource id (a.views id tenantID r) (s, r)).1.aggFailure = none) :
    (settle a.write a.deleteSource id (a.views id tenantID r) (s, r)).2.log =
        ((a.eventsView store id tenantID r).effect a.write a.deleteSource r).log ∧
      ∃ r₁ : Records, r₁.snapshots = r.snapshots ∧
        (settle a.write a.deleteSource id (a.views id tenantID r) (s, r)).2.snapshots =
          ((a.snapshotView snapshots id tenantID r).effect a.write a.deleteSource r₁).snapshots := by
  have hviews : a.views id tenantID r = (.events, a.eventsView store id tenantID r) ::
      (.snapshot, a.snapshotView snapshots id tenantID r) ::
        (a.stateStore.map fun _ => (RecordKind.durableState, a.stateView id tenantID r)).toList := by
    rw [views, hstore, hsnapshots]
    rfl
  have hstate {β : Type} {f : Records → β} (hf : ∀ r scope state, f (r.setState scope state) = f r) :
      ∀ view ∈ (a.stateStore.map fun _ => (RecordKind.durableState, a.stateView id tenantID r)).toList,
        view.2.Keeps f := by
    intro view hview
    obtain ⟨store, -, rfl⟩ := Option.map_eq_some_iff.mp (Option.mem_toList.mp hview)
    exact ⟨fun _ => hf _ _ _, fun _ => rfl⟩
  rw [hviews] at h ⊢
  have hfirst := settle_cons_ok h
  rw [hfirst] at h ⊢
  have hsecond := settle_cons_ok h
  rw [hsecond, settle_frame (f := Records.log) (hstate fun _ _ _ => rfl),
    settle_frame (f := Records.snapshots) (hstate fun _ _ _ => rfl)]
  exact ⟨(snapshotView_keeps (fun _ _ _ => rfl) r).effect _, _,
    (eventsView_keeps (fun _ _ _ => rfl) r).effect _, rfl⟩

theorem target_log (hr : r.WellFormed id) (hne : Scope.tenant tenantID ≠ a.sourceScope)
    (hfree : r.log (.tenant tenantID) = none) :
    let new := ((a.eventsView store id tenantID r).effect true a.deleteSource r).log (.tenant tenantID)
    journal new = a.stamped store tenantID r ∧ new.map (·.revision) = if journal (r.log a.sourceScope) = [] then none
        else some (maxSequence (a.stamped store tenantID r)) := by
  intro new
  have hsource := @replayed_perm store id r hr _ a.source_valid
  have htarget : (a.eventsView store id tenantID r).target = false := by
    have hnil := @replayed_perm store id r hr (.tenant tenantID) rfl
    rw [hfree, journal_none, List.perm_nil] at hnil
    simp [eventsView, hnil]
  by_cases hempty : journal (r.log a.sourceScope) = []
  · rw [hempty, List.perm_nil] at hsource
    have hnone : (a.eventsView store id tenantID r).source = false := by simp [eventsView, hsource]
    have hnew : new = none := by
      simp only [new, (View.nothing htarget hnone).2, hfree]
    rw [if_pos hempty, hnew, stamped, hsource]
    exact ⟨rfl, rfl⟩
  · have hleft : replayed store r a.sourceScope ≠ [] := fun hnil => hempty (List.nil_perm.mp (hnil ▸ hsource))
    have hsome : (a.eventsView store id tenantID r).source = true := by simpa [eventsView] using hleft
    have hvacant : (a.eventsView store id tenantID r).occupied = false := by simp [eventsView, hfree]
    obtain ⟨log, -, hevents, hrevision, hcreate⟩ := exists_created hr hleft hfree
    have hnew : new = some log := by
      simp only [new, (View.copied htarget hsome hvacant).2, hcreate]
      split
      · exact (Function.update_of_ne hne _ _).trans (Function.update_self _ _ _)
      · exact Function.update_self _ _ _
    rw [if_neg hempty, hnew, ← hrevision]
    exact ⟨hevents, rfl⟩

theorem target_snapshot {r₁ : Records} (h₁ : r₁.snapshots = r.snapshots)
    (hne : Scope.tenant tenantID ≠ a.sourceScope)
    (hfree : r.snapshots (.tenant tenantID) = []) : snapshots.getLatestSnapshot (.tenant tenantID)
      (((a.snapshotView snapshots id tenantID r).effect true a.deleteSource r₁).snapshots (.tenant tenantID)) =
        .ok (a.stampedSnapshot snapshots tenantID r) := by
  have hnone : latestSnapshot snapshots r (.tenant tenantID) = none := by
    have hlatest := @latestSnapshot_isLatest snapshots r (.tenant tenantID) rfl
    rw [hfree] at hlatest
    cases hl : latestSnapshot snapshots r (.tenant tenantID) with
    | none => rfl
    | some s =>
      rw [hl] at hlatest
      cases hlatest.1
  have htarget : (a.snapshotView snapshots id tenantID r).target = false := by simp [snapshotView, hnone]
  cases hs : latestSnapshot snapshots r a.sourceScope with
  | none =>
    have hsource : (a.snapshotView snapshots id tenantID r).source = false := by simp [snapshotView, hs]
    rw [(View.nothing htarget hsource).2, h₁, getLatestSnapshot_eq rfl, hnone, stampedSnapshot, hs]
    rfl
  | some s =>
    have hsource : (a.snapshotView snapshots id tenantID r).source = true := by simp [snapshotView, hs]
    have hclone : a.stampedSnapshot snapshots tenantID r =
        some (stampAdoptionReceipt a.sha a.snapshotWire s a.sourceScope
        (intentFor tenantID).metadata none) := by
      rw [stampedSnapshot, hs]
      rfl
    generalize stampAdoptionReceipt a.sha a.snapshotWire s a.sourceScope (intentFor tenantID).metadata none =
      clone at hclone
    obtain ⟨new, hnew⟩ := snapshots.write_total (.tenant tenantID) [] clone rfl
    have hstored : ((a.snapshotView snapshots id tenantID r).effect true a.deleteSource r₁).snapshots
        (.tenant tenantID) =
        new := by
      have hcreate : (a.snapshotView snapshots id tenantID r).create r₁ =
          r₁.setSnapshots (.tenant tenantID) new := by
        simp only [snapshotView, hclone, hfree, hnew, okOr_ok]
      rw [(View.copied htarget hsource rfl).2, hcreate]
      split
      · simp only [snapshotView, hs]
        exact (Function.update_of_ne hne _ _).trans (Function.update_self _ _ _)
      · exact Function.update_self _ _ _
    rw [getLatestSnapshot_eq rfl, latestSnapshot_written rfl hfree (hfree ▸ hnew) hstored, hclone]

end TenantAdopter

/-! ### The next command -/

section
variable {S C E : Type} (cfg : Config S C E)

inductive Requests (a : Actor S) (ctx : Ctx) (cmd : C) (req : PersistEventsRequest) : Prop
  | now {id turn} (h : .pipeTo req ∈ (receive cfg a (.command id ctx cmd) turn).2)
  | flushed {id turn turn'}
      (h : .pipeTo req ∈ (receive cfg (receive cfg a (.command id ctx cmd) turn).1 .batchFlushTick turn').2)

variable {cfg}

variable {ctx : Ctx}

theorem batchPrecondition_founder {a : Actor S} {hasPre : Bool} {base : ℕ} (hempty : a.batchEntries = [])
    (h : BatchBase a ctx hasPre base) : batchPrecondition hasPre base =
      preconditionFromRevision ctx.expectedRevision := by
  unfold BatchBase at h
  rw [if_pos hempty] at h
  obtain ⟨rfl, rfl⟩ := h
  cases ctx.expectedRevision with
  | none => rfl
  | some n => cases n <;> rfl

theorem Requests.spec {a : Actor S} {cmd : C} {req : PersistEventsRequest} (h : Requests cfg a ctx cmd req)
    (hok : PhaseOk cfg a) (hphase : a.phase = .processing) (hentries : a.batchEntries = [])
    (hbuffer : a.batchBuffer = []) :
    req.precondition = preconditionFromRevision ctx.expectedRevision ∧ req.scope = cfg.scope ∧
      req.envelopes ≠ [] ∧
      Numbered (·.sequenceNumber) a.eventsCounter req.envelopes := by
  have hcounter : latestCounter a = a.eventsCounter := by simp [latestCounter, hentries]
  have hstopped (effects : List Effect) : .pipeTo req ∈ stopped a ++ effects ↔ .pipeTo req ∈ effects := by
    unfold stopped
    split <;> simp
  cases h with
  | @now id turn hmem =>
    have hr := @receive_reaction S C E cfg a turn hok (.command id ctx cmd)
    generalize receive cfg a (.command id ctx cmd) turn = result at hr hmem
    obtain ⟨a', effects⟩ := result
    cases hr
    case persist hproduces =>
      obtain rfl : req = _ := by simpa using hmem
      exact ⟨rfl, rfl, hproduces.envelopes.2, hproduces.envelopes.1.numbered⟩
    case gateFlush hadm => simp [inadmissible, hentries] at hadm
    case fold hstarted _ _ => obtain ⟨-, rfl⟩ | ⟨-, -, rfl⟩ := hstarted <;> simp at hmem
    case foldFlush hbase hgate hproduces =>
      obtain rfl : req = _ := by simpa [hstopped] using hmem
      rw [hcounter] at hproduces
      rw [hbuffer]
      exact ⟨batchPrecondition_founder hentries hbase, rfl, hproduces.envelopes.2, hproduces.envelopes.1.numbered⟩
    all_goals simp at hmem
  | @flushed id turn turn' hmem =>
    have hr := @receive_reaction S C E cfg a turn hok (.command id ctx cmd)
    generalize receive cfg a (.command id ctx cmd) turn = first at hr hmem
    obtain ⟨a₁, effects⟩ := first
    have htick := @receive_reaction S C E cfg a₁ turn' (hr.phaseOk hok) .batchFlushTick
    generalize receive cfg a₁ .batchFlushTick turn' = second at htick hmem
    obtain ⟨a₂, effects'⟩ := second
    cases htick with
    | idleTick => cases hmem
    | tickFlush hm hp₁ he =>
      obtain rfl : req = _ := by simpa using hmem
      -- only a fold leaves entries behind and goes on processing
      cases hr
      case fold hbase hstarted hgate hproduces =>
        rw [hcounter] at hproduces
        dsimp only [foldInto, resolveBatchPrecondition]
        rw [hbuffer]
        exact ⟨batchPrecondition_founder hentries hbase, rfl, hproduces.envelopes.2, hproduces.envelopes.1.numbered⟩
      case drainLast => exact absurd rfl he
      all_goals first | exact absurd hentries he | cases hp₁

structure DecidingStore extends OrderedStore where
  accepts : ∀ scope id old events n, scope.valid = true → events ≠ [] → Fresh old events →
    (preconditionFromRevision (some n)).Holds (old.map (·.revision)) →
      ∃ new, writeEvents scope id old events (preconditionFromRevision (some n)) = .ok new

variable (cfg) in
def Accepts (store : EventsStore) (log : Option EventLog) (a : Actor S) (n : ℕ) : Prop :=
  ∀ envelopes, envelopes ≠ [] → Numbered (·.sequenceNumber) a.eventsCounter envelopes →
    ∃ new, store.writeEvents cfg.scope cfg.persistenceID log envelopes (preconditionFromRevision (some n)) = .ok new

section
variable {store : DecidingStore} {snapshots : FullSnapshotStore} {r : Records} {a : Actor S}

theorem accepts_iff (hs : Spawned cfg) {log : Option EventLog}
    (hle : ∀ e ∈ journal log, e.sequenceNumber ≤ a.eventsCounter)
    (n : ℕ) : Accepts cfg store.toEventsStore log a n ↔
      (preconditionFromRevision (some n)).Holds (log.map (·.revision)) := by
  constructor
  · intro h
    obtain ⟨new, hnew⟩ := h [⟨cfg.persistenceID, a.eventsCounter + 1, false, ⟨"", []⟩, 0, 0, "", false, []⟩]
      (List.cons_ne_nil _ _) ⟨rfl, trivial⟩
    exact store.precondition_holds _ _ _ _ _ _ hnew
  · intro h envelopes hne hnumbered
    refine store.accepts _ _ _ _ _ hs.scope_valid hne ?_ h
    rw [Fresh, List.map_append]
    refine (journal_unique log).append (List.nodup_iff_pairwise_ne.mpr (List.pairwise_map.mpr
      (hnumbered.pairwise.imp Nat.ne_of_lt))) ?_
    intro k hold hnew
    obtain ⟨x, hx, rfl⟩ := List.mem_map.mp hold
    obtain ⟨y, hy, hxy⟩ := List.mem_map.mp hnew
    have hbound := (hnumbered.bounds y hy).1
    have hx' := hle x hx
    omega

theorem recoverFromStores_new {a : Actor S}
    (h : recoverFromStores cfg store.toEventsStore snapshots.toSnapshotStore r = .ok a) :
    (∃ state counter tenant, a = .new state counter tenant) ∧
      ∀ e ∈ journal (r.log cfg.scope), e.sequenceNumber ≤ a.eventsCounter := by
  obtain ⟨snapshot, -, h⟩ := bind_eq_ok.mp h
  obtain ⟨state, tenant, latest, hlatest, rfl⟩ := recover_new h
  refine ⟨⟨_, _, _, rfl⟩, fun e he => ?_⟩
  have hmax := store.latest_of_ok _ _ _ hlatest
  cases latest with
  | none =>
    rw [show journal (r.log cfg.scope) = [] from hmax] at he
    cases he
  | some latest => exact Nat.le_trans (hmax.2 e he) (Nat.le_max_right _ _)

theorem accepts_request (hs : Spawned cfg)
    (h : recoverFromStores cfg store.toEventsStore snapshots.toSnapshotStore r = .ok a) {cmd : C} {n : ℕ}
    {req : PersistEventsRequest} (hn : ctx.expectedRevision = some n) (hreq : Requests cfg a ctx cmd req) :
    (∃ new, store.writeEvents req.scope cfg.persistenceID (r.log cfg.scope) req.envelopes req.precondition =
      .ok new) ↔
      Accepts cfg store.toEventsStore (r.log cfg.scope) a n := by
  obtain ⟨⟨state, counter, tenant, rfl⟩, hle⟩ := recoverFromStores_new h
  obtain ⟨hpre, hscope, hne, hnumbered⟩ := hreq.spec (phaseOk_new _ _ _) rfl rfl rfl
  rw [hpre, hscope, hn]
  constructor
  · rintro ⟨new, hnew⟩
    exact (accepts_iff hs hle n).mpr (store.precondition_holds _ _ _ _ _ _ hnew)
  · intro haccepts
    exact haccepts _ hne hnumbered

end

theorem holds_iff_eq {x y : Option ℕ} (hy : y ≠ some 0) :
    (∀ n, (preconditionFromRevision (some n)).Holds x ↔ (preconditionFromRevision (some n)).Holds y) ↔ x = y := by
  constructor
  · intro h
    cases y with
    | none => exact (h 0).mpr rfl
    | some n =>
      cases n with
      | zero => exact absurd rfl hy
      | succ n => exact (h (n + 1)).mpr rfl
  · rintro rfl n
    exact Iff.rfl

end

/-! ### Adopted and recovered -/

namespace TenantAdopter
variable {S C E : Type} {cfg : Config S C E} {a : TenantAdopter} {id : String} {tenantID : TenantID} {r r' : Records}

theorem maxSequence_mem {events : List Event} (hne : events ≠ []) :
    ∃ e ∈ events, e.sequenceNumber = maxSequence events := by
  have hfold (n : ℕ) : events.foldl (fun n e => max n e.sequenceNumber) n = n ∨
      ∃ e ∈ events, e.sequenceNumber = events.foldl (fun n e => max n e.sequenceNumber) n := by
    clear hne
    induction events generalizing n with
    | nil => exact .inl rfl
    | cons x xs ih =>
      obtain hsame | ⟨e, he, heq⟩ := ih (max n x.sequenceNumber)
      · rw [List.foldl_cons, hsame]
        rcases Nat.le_total x.sequenceNumber n with hle | hle
        · exact .inl (Nat.max_eq_left hle)
        · exact .inr ⟨x, List.mem_cons_self, (Nat.max_eq_right hle).symm⟩
      · exact .inr ⟨e, List.mem_cons_of_mem _ he, heq⟩
  obtain hzero | hmem := hfold 0
  · obtain ⟨e, he⟩ := List.exists_mem_of_ne_nil _ hne
    have hle : e.sequenceNumber ≤ maxSequence events := le_maxSequence he
    rw [show maxSequence events = 0 from hzero] at hle ⊢
    exact ⟨e, he, Nat.le_zero.mp hle⟩
  · exact hmem

theorem revision_eq_iff {log : Option EventLog} {copies : List Event} {f : Event → Event} (hf : Restamps tenantID f)
    (hcopies : copies.Perm ((journal log).map f)) :
    log.map (·.revision) = (if journal log = [] then none else some (maxSequence copies)) ↔
      ∀ l, log = some l → ∃ e ∈ l.events, e.sequenceNumber = l.revision := by
  cases log with
  | none => simp
  | some log =>
    rw [journal_some] at hcopies ⊢
    simp only [Option.map_some, Option.some.injEq, forall_eq']
    split
    · rename_i hnil
      simp [hnil]
    · rename_i hne
      have hcopiesNe : copies ≠ [] := by
        rintro rfl
        exact hne (List.map_eq_nil_iff.mp (List.nil_perm.mp hcopies))
      rw [Option.some.injEq]
      constructor
      · intro heq
        obtain ⟨copy, hcopy, hmax⟩ := maxSequence_mem hcopiesNe
        obtain ⟨e, he, rfl⟩ := List.mem_map.mp (hcopies.mem_iff.mp hcopy)
        exact ⟨e, he, by rw [heq, ← hmax, hf.number]⟩
      · rintro ⟨e, he, heq⟩
        obtain ⟨copy, hcopy, hmax⟩ := maxSequence_mem hcopiesNe
        obtain ⟨x, hx, rfl⟩ := List.mem_map.mp (hcopies.mem_iff.mp hcopy)
        have hle := le_maxSequence (hcopies.mem_iff.mpr (List.mem_map_of_mem he))
        have hx' := log.le_revision x hx
        rw [hf.number] at hle hmax
        omega

section
variable {store : DecidingStore} {snapshots : FullSnapshotStore} {report : AdoptionReport} {handled : Handled}
  (hstore : a.eventsStore = some store.toJournalStore) (hsnapshots : a.snapshotStore = some snapshots)
  (hwrite : a.write = true) (hassign : a.assign id = .ok (some tenantID)) (hr : r.WellFormed id)
  (hfree : r.log (.tenant tenantID) = none ∧ r.snapshots (.tenant tenantID) = [])
  (hrun : Returns (a.processAggregate id report) r handled r') (hok : handled.failure = none)
include hstore hsnapshots hwrite hassign hr hfree hrun hok

theorem adopted_copies : newTenantID tenantID = .ok tenantID ∧
    ∃ (f : Event → Event) (g : Snapshot → Snapshot), Restamps tenantID f ∧ Restamps tenantID g ∧
      (journal (r'.log (.tenant tenantID))).Perm ((journal (r.log a.sourceScope)).map f) ∧
      (r'.log (.tenant tenantID)).map (·.revision) = (if journal (r.log a.sourceScope) = [] then none
        else some (maxSequence (journal (r'.log (.tenant tenantID))))) ∧
      snapshots.getLatestSnapshot (.tenant tenantID) (r'.snapshots (.tenant tenantID)) =
        .ok ((latestSnapshot snapshots r a.sourceScope).map g) := by
  obtain ⟨rfl, rfl⟩ : handled = (a.processed id report r).1 ∧ r' = (a.processed id report r).2 := by
    obtain ⟨hhandled, hworld⟩ := Prod.mk.inj (hrun.symm.trans (processAggregate_returns hr))
    exact ⟨Option.some.inj hhandled, congrArg (·.contents) hworld⟩
  obtain ⟨hid, hne, s, hsettled, hfinal⟩ := processed_ok hassign hok
  obtain ⟨hlog, r₁, h₁, hsnaps⟩ := settle_views hstore hsnapshots hsettled
  obtain ⟨hjournal, hrevision⟩ := target_log hr hne hfree.1
  have hlatest := @target_snapshot a id tenantID r snapshots r₁ h₁ hne hfree.2
  rw [← hwrite, ← hlog, ← hfinal] at hjournal hrevision
  rw [← hwrite, ← hsnaps, ← hfinal] at hlatest
  rw [← hjournal] at hrevision
  refine ⟨hid, _, _, restamps_stamp hid a.sha a.eventWire a.sourceScope fun e =>
    some (predecessorOf (replayed store.toJournalStore r a.sourceScope) e.sequenceNumber),
    restamps_stamp hid a.sha a.snapshotWire a.sourceScope fun _ => none, ?_, hrevision, hlatest⟩
  rw [hjournal]
  exact (replayed_perm hr a.source_valid).map _

end

theorem recover_copies {store : OrderedStore} {snapshots : FullSnapshotStore} {f : Event → Event}
    {g : Snapshot → Snapshot}
    {source : Actor S} (hs : Spawned cfg) (hf : Restamps tenantID f) (hg : Restamps tenantID g)
    (hjournal : (journal (r'.log (.tenant tenantID))).Perm ((journal (r.log cfg.scope)).map f))
    (hlatest : snapshots.getLatestSnapshot (.tenant tenantID) (r'.snapshots (.tenant tenantID)) =
      .ok ((latestSnapshot snapshots r cfg.scope).map g))
    (h : recoverFromStores cfg store.toEventsStore snapshots.toSnapshotStore r = .ok source) :
    recoverFromStores (boundTo cfg tenantID) store.toEventsStore snapshots.toSnapshotStore r' =
      .ok (.new source.currentState source.eventsCounter (.tenant tenantID)) := by
  obtain ⟨snapshot, hload, hrecover⟩ := bind_eq_ok.mp h
  have hload' : loadSnapshot (boundTo cfg tenantID) snapshots.toSnapshotStore r' = .ok (snapshot.map g) := by
    unfold loadSnapshot at hload ⊢
    split at hload
    · rw [getLatestSnapshot_eq hs.scope_valid] at hload
      rw [if_pos ‹_›, show (boundTo cfg tenantID).scope = .tenant tenantID from rfl, hlatest,
        ← Except.ok.inj hload]
      rfl
    · rw [if_neg ‹_›, ← Except.ok.inj hload]
      rfl
  rw [recoverFromStores, hload']
  exact recover_restamped hf hjournal hg hrecover

/-- The entity recovers from the target with the state and the counter it recovers with from
the source. The two accept writes at the same revisions if and only if the last event of
the source is still there: the revision of the copy is that of its last event. -/
theorem adopted_recovers {store : DecidingStore} {snapshots : FullSnapshotStore} {report : AdoptionReport}
    {handled : Handled} {source : Actor S} (hstore : a.eventsStore = some store.toJournalStore)
    (hsnapshots : a.snapshotStore = some snapshots) (hwrite : a.write = true)
    (hassign : a.assign cfg.persistenceID = .ok (some tenantID)) (hs : Spawned cfg) (hscope : cfg.scope = a.sourceScope)
    (hr : r.WellFormed cfg.persistenceID)
    (hfree : r.log (.tenant tenantID) = none ∧ r.snapshots (.tenant tenantID) = [])
    (hrun : Returns (a.processAggregate cfg.persistenceID report) r handled r') (hok : handled.failure = none)
    (hsource : recoverFromStores cfg store.toEventsStore snapshots.toSnapshotStore r = .ok source) :
    ∃ target, recoverFromStores (boundTo cfg tenantID) store.toEventsStore snapshots.toSnapshotStore r' =
      .ok target ∧
      target.currentState = source.currentState ∧ target.eventsCounter = source.eventsCounter ∧
      ((∀ n, Accepts cfg store.toEventsStore (r.log cfg.scope) source n ↔
          Accepts (boundTo cfg tenantID) store.toEventsStore (r'.log (.tenant tenantID)) target n) ↔
        ∀ log, r.log cfg.scope = some log → ∃ e ∈ log.events, e.sequenceNumber = log.revision) ∧
      (∀ ctx cmd req n, ctx.expectedRevision = some n → Requests cfg source ctx cmd req →
        ((∃ new, store.writeEvents req.scope cfg.persistenceID (r.log cfg.scope) req.envelopes
          req.precondition = .ok new) ↔
          Accepts cfg store.toEventsStore (r.log cfg.scope) source n)) ∧
      ∀ ctx cmd req n, ctx.expectedRevision = some n → Requests (boundTo cfg tenantID) target ctx cmd req →
        ((∃ new, store.writeEvents req.scope cfg.persistenceID (r'.log (.tenant tenantID)) req.envelopes
          req.precondition =
            .ok new) ↔ Accepts (boundTo cfg tenantID) store.toEventsStore (r'.log (.tenant tenantID)) target n) := by
  have hcopies := adopted_copies hstore hsnapshots hwrite hassign hr hfree hrun hok
  rw [← hscope] at hcopies
  obtain ⟨hid, f, g, hf, hg, hjournal, hrevision, hlatest⟩ := hcopies
  have htarget := recover_copies hs hf hg hjournal hlatest hsource
  have hbound : Spawned (boundTo cfg tenantID) := ⟨nofun, fun _ => ⟨tenantID, hid, rfl⟩⟩
  refine ⟨_, htarget, rfl, rfl, ?_, fun ctx cmd req n hn hreq => accepts_request hs hsource hn hreq,
    fun ctx cmd req n hn hreq => accepts_request hbound htarget hn hreq⟩
  have hpositive : (r'.log (.tenant tenantID)).map (·.revision) ≠ some 0 := by
    rw [hrevision]
    split
    · nofun
    · rename_i hne
      have hcopied : journal (r'.log (.tenant tenantID)) ≠ [] := by
        intro hnil
        rw [hnil] at hjournal
        exact hne (List.map_eq_nil_iff.mp (List.nil_perm.mp hjournal))
      obtain ⟨copy, hcopy, hmax⟩ := maxSequence_mem hcopied
      obtain ⟨e, he, rfl⟩ := List.mem_map.mp (hjournal.mem_iff.mp hcopy)
      have hnumber := (hr.numbered _ e he).1
      rw [← hmax, hf.number, Ne, Option.some.injEq]
      omega
  rw [← revision_eq_iff hf hjournal, ← hrevision, ← holds_iff_eq hpositive]
  exact forall_congr' fun n =>
    iff_congr (accepts_iff hs (recoverFromStores_new hsource).2 n)
      (accepts_iff hbound (recoverFromStores_new htarget).2 n)

/-! ### The stores -/

open Enginetest

def decidingMemory : DecidingStore where
  toOrderedStore := memoryStore
  accepts := by
    intro scope id old events n hscope hne hfresh hholds
    exact ⟨_, (Testkit.writeRecord_conditional (preconditionFromRevision_isUnconditional _) hne _).mpr
      ⟨hscope, hholds, rfl⟩⟩

def snapshotConfig : Config ℕ Command AccountEvent := { accountConfig 0 with snapshotsWriter := true }

theorem adopted_recovers_account :
    let a := acmeAdopter decidingMemory.toJournalStore true true
    let r := noRecords.setLog .unscoped (some (creditLog 1 (by decide)))
    ∃ handled r' source target, Returns (a.processAggregate "account" { dryRun := false }) r handled r' ∧
      handled.failure = none ∧
      recoverFromStores snapshotConfig decidingMemory.toEventsStore Testkit.fullSnapshotStore.toSnapshotStore r =
        .ok source ∧
      recoverFromStores (boundTo snapshotConfig "acme") decidingMemory.toEventsStore
        Testkit.fullSnapshotStore.toSnapshotStore r' = .ok target ∧
      ∀ n, Accepts snapshotConfig decidingMemory.toEventsStore (r.log .unscoped) source n ↔
        Accepts (boundTo snapshotConfig "acme") decidingMemory.toEventsStore (r'.log (.tenant "acme")) target n := by
  intro a r
  have hr : r.WellFormed "account" := wellFormed_credit
  have hrun := @processAggregate_returns "account" a { dryRun := false } r hr
  have hok : (a.processed "account" { dryRun := false } r).1.failure = none := by
    rfl
  have hsource : recoverFromStores snapshotConfig decidingMemory.toEventsStore
      Testkit.fullSnapshotStore.toSnapshotStore r = .ok (.new 1 1 .unset) := by
    rfl
  obtain ⟨target, htarget, -, -, haccepts, -⟩ := @adopted_recovers _ _ _ snapshotConfig a "acme" r _ decidingMemory
    Testkit.fullSnapshotStore { dryRun := false } _ _ rfl rfl rfl rfl ⟨fun _ => rfl, nofun⟩ rfl hr
      ⟨rfl, rfl⟩ hrun hok hsource
  refine ⟨_, _, _, target, hrun, hok, hsource, htarget, haccepts.mpr ?_⟩
  rintro log hlog
  obtain rfl := Option.some.inj hlog
  exact ⟨_, List.mem_cons_self, rfl⟩

/-- Retention has deleted the event of the snapshot. The source knows revision 1, and the
target is a record that was never written. -/
theorem emptied_account_diverges :
    let a := acmeAdopter decidingMemory.toJournalStore true false
    let r := (noRecords.setLog .unscoped (some emptiedLog)).setSnapshots .unscoped [creditSnapshot]
    Testkit.journalStore.deleteEvents .unscoped (some (creditLog 1 (by decide))) 1 = .ok (some emptiedLog) ∧
    ∃ handled r' source target, Returns (a.processAggregate "account" { dryRun := false }) r handled r' ∧
      handled.failure = none ∧
      recoverFromStores snapshotConfig decidingMemory.toEventsStore Testkit.fullSnapshotStore.toSnapshotStore r =
        .ok source ∧
      recoverFromStores (boundTo snapshotConfig "acme") decidingMemory.toEventsStore
        Testkit.fullSnapshotStore.toSnapshotStore r' = .ok target ∧
      Accepts snapshotConfig decidingMemory.toEventsStore (r.log .unscoped) source 1 ∧
      ¬ Accepts (boundTo snapshotConfig "acme") decidingMemory.toEventsStore (r'.log (.tenant "acme")) target 1 ∧
      ¬ Accepts snapshotConfig decidingMemory.toEventsStore (r.log .unscoped) source 0 ∧
      Accepts (boundTo snapshotConfig "acme") decidingMemory.toEventsStore (r'.log (.tenant "acme")) target 0 := by
  intro a r
  have hr : r.WellFormed "account" :=
    ((wellFormed_noRecords "account").setLog (by simp [emptiedLog]) (by simp [emptiedLog])
      (by simp [emptiedLog])).setSnapshots
      (by simp [creditSnapshot]) (by simp)
  have hrun := @processAggregate_returns "account" a { dryRun := false } r hr
  have hsource : recoverFromStores snapshotConfig decidingMemory.toEventsStore
      Testkit.fullSnapshotStore.toSnapshotStore r = .ok (.new 1 1 .unset) := by
    rfl
  have hok : (a.processed "account" { dryRun := false } r).1.failure = none := by
    rfl
  have hspawned : Spawned snapshotConfig := ⟨fun _ => rfl, fun h => (by cases h)⟩
  obtain ⟨hid, f, g, hf, hg, hjournal, hrevision, hlatest⟩ := @adopted_copies a "account" "acme" r _ decidingMemory
    Testkit.fullSnapshotStore _ _ rfl rfl rfl rfl hr ⟨rfl, rfl⟩ hrun hok
  have htarget := recover_copies hspawned hf hg hjournal hlatest hsource
  have hbound : Spawned (boundTo snapshotConfig "acme") := ⟨fun h => (by cases h), fun _ => ⟨"acme", hid, rfl⟩⟩
  have hnone : ((a.processed "account" { dryRun := false } r).2.log (.tenant "acme")).map (·.revision) = none :=
      hrevision
  have hsourceIff := @accepts_iff _ _ _ _ decidingMemory _ hspawned _ (recoverFromStores_new hsource).2
  have htargetIff := @accepts_iff _ _ _ _ decidingMemory _ hbound _ (recoverFromStores_new htarget).2
  refine ⟨rfl, _, _, _, _, hrun, hok, hsource, htarget, (hsourceIff 1).mpr rfl, fun h => ?_, fun h => ?_, ?_⟩
  · cases hnone.symm.trans ((htargetIff 1).mp h)
  · cases (hsourceIff 0).mp h
  · exact (htargetIff 0).mpr hnone

end TenantAdopter

end Ego.Migration

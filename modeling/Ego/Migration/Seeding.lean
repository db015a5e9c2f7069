import Ego.Enginetest.Adopter
import Ego.EventSource.Recovered
import Ego.Migration.Migrator
import Ego.Postgres.Records

/-! # Recovery from migrated snapshots -/

namespace Ego.Migration
open Persistence EventSource Tenancy
open Lib.Prog

def history (log : Option EventLog) (fromSeq toSeq : ℕ) : List Event :=
  ((journal log).filter fun e => fromSeq ≤ e.sequenceNumber ∧ e.sequenceNumber ≤ toSeq).insertionSort
    fun x y => x.sequenceNumber ≤ y.sequenceNumber

section
variable {log : Option EventLog} {fromSeq toSeq : ℕ}

theorem mem_history {e : Event} :
    e ∈ history log fromSeq toSeq ↔ e ∈ journal log ∧ fromSeq ≤ e.sequenceNumber ∧
      e.sequenceNumber ≤ toSeq := by
  rw [history, List.mem_insertionSort, List.mem_filter, decide_eq_true_iff]

theorem history_sorted : (history log fromSeq toSeq).Pairwise fun x y => x.sequenceNumber ≤ y.sequenceNumber := by
  exact List.pairwise_insertionSort _ _

theorem history_numbers : ((history log fromSeq toSeq).map (·.sequenceNumber)).Nodup := by
  have hperm := (List.perm_insertionSort (fun x y : Event => x.sequenceNumber ≤ y.sequenceNumber)
    ((journal log).filter fun e => fromSeq ≤ e.sequenceNumber ∧ e.sequenceNumber ≤ toSeq)).map (·.sequenceNumber)
  exact hperm.nodup_iff.mpr ((journal_unique log).sublist (List.filter_sublist.map _))

theorem eq_history {events : List Event}
    (hperm : events.Perm ((journal log).filter fun e => fromSeq ≤ e.sequenceNumber ∧ e.sequenceNumber ≤ toSeq))
    (hsorted : events.Pairwise fun x y => x.sequenceNumber ≤ y.sequenceNumber) :
    events = history log fromSeq toSeq := by
  refine List.Perm.eq_of_pairwise ?_ hsorted history_sorted (hperm.trans (List.perm_insertionSort _ _).symm)
  intro x y hx hy hxy hyx
  have hinj := List.inj_on_of_nodup_map (journal_unique log)
  have hmem : x ∈ journal log := (List.mem_filter.mp (hperm.mem_iff.mp hx)).1
  exact hinj hmem (mem_history.mp hy).1 (Nat.le_antisymm hxy hyx)

theorem history_append {n : ℕ} (hfrom : fromSeq ≤ n + 1) (hto : n ≤ toSeq) :
    history log fromSeq n ++ history log (n + 1) toSeq = history log fromSeq toSeq := by
  have hnodup {a b : ℕ} : (history log a b).Nodup := history_numbers.of_map _
  refine eq_history ?_ (List.pairwise_append.mpr ⟨history_sorted, history_sorted, fun x hx y hy => ?_⟩)
  · have hdisjoint : (history log fromSeq n).Disjoint (history log (n + 1) toSeq) := by
      intro e he he'
      have hle := (mem_history.mp he).2
      have hlt := (mem_history.mp he').2
      omega
    refine (List.perm_ext_iff_of_nodup (hnodup.append hnodup hdisjoint) ((journal_unique log).of_map.filter _)).mpr
      fun e => ?_
    rw [List.mem_append, mem_history, mem_history, List.mem_filter, decide_eq_true_iff]
    constructor
    · rintro (⟨he, hrange⟩ | ⟨he, hrange⟩)
      · exact ⟨he, by omega⟩
      · exact ⟨he, by omega⟩
    · rintro ⟨he, hrange⟩
      by_cases hn : e.sequenceNumber ≤ n
      · exact .inl ⟨he, by omega⟩
      · exact .inr ⟨he, by omega⟩
  · have hle := (mem_history.mp hx).2
    have hlt := (mem_history.mp hy).2
    omega

theorem history_length : (history log fromSeq toSeq).length ≤ toSeq + 1 - fromSeq := by
  have hsub : (history log fromSeq toSeq).map (·.sequenceNumber) ⊆ List.range' fromSeq (toSeq + 1 - fromSeq) := by
    intro n hn
    obtain ⟨e, he, rfl⟩ := List.mem_map.mp hn
    have hrange := (mem_history.mp he).2
    rw [List.mem_range'_1]
    omega
  have hle := (history_numbers.subperm hsub).length_le
  rwa [List.length_map, List.length_range'] at hle

theorem replay_history (store : OrderedStore) {scope : Scope} {limit : ℕ} {events : List Event}
    (h : store.replayEvents scope log fromSeq toSeq limit = .ok events) (hlimit : toSeq + 1 - fromSeq ≤ limit) :
    events = history log fromSeq toSeq := by
  obtain ⟨all, hperm, hsorted, rfl⟩ := store.replay_ordered _ _ _ _ _ _ h
  rw [eq_history hperm hsorted, List.take_of_length_le (Nat.le_trans history_length hlimit)]

end

section
variable {S C E : Type} (cfg : Config S C E)

def FoldsTo (log : Option EventLog) (n : ℕ) (state : S) : Prop :=
  (history log 1 n).foldlM (applyPersistedEvent cfg (spawnTenant cfg)) cfg.behavior.initialState = .ok state

structure CorrectFold (log : Option EventLog) (s : Snapshot) : Prop where
  state : ∃ stored payload state, s.state = some stored ∧
    decryptPayload cfg stored s.isEncrypted s.encryptionKeyId = .ok payload ∧
    cfg.codec.unmarshalState payload = .ok state ∧ FoldsTo cfg log s.sequenceNumber state
  tenant : cfg.tenantAware = true → unmarshalMetadata s.tenantMetadata = .ok (spawnTenant cfg)
  reached : ∃ e ∈ journal log, s.sequenceNumber ≤ e.sequenceNumber

variable {cfg}

theorem seedFromMetadata_spawned (hs : Spawned cfg) (md : Tenancy.Metadata) (text : String) :
    ∃ check : Except Err Unit, ∀ state counter, seedFromMetadata cfg (.new state counter (spawnTenant cfg)) md
      text =
        check.map fun _ => .new state counter (spawnTenant cfg) := by
  cases ha : cfg.tenantAware with
  | false =>
    refine ⟨.ok (), fun state counter => ?_⟩
    simp [seedFromMetadata, ha, Except.map]
  | true =>
    have hne := hs.tenant_ne_unset ha
    refine ⟨do
      let tc ← (unmarshalMetadata md).mapError (Err.wrap text)
      verifyUnchanged (spawnTenant cfg) tc, fun state counter => ?_⟩
    simp only [seedFromMetadata, seedActorTenant, ha, Bool.not_true, Bool.false_eq_true, if_false, Actor.new, hne]
    cases (unmarshalMetadata md).mapError (Err.wrap text) with
    | error err => rfl
    | ok tc => rfl

theorem CorrectFold.recoverFromSnapshot {log : Option EventLog} {s : Snapshot} (hs : Spawned cfg)
    (h : CorrectFold cfg log s) (initial : S) : ∃ state, FoldsTo cfg log s.sequenceNumber state ∧
      EventSource.recoverFromSnapshot cfg (.new initial 0 (spawnTenant cfg)) (some s) =
        .ok (.new state s.sequenceNumber (spawnTenant cfg), s.sequenceNumber + 1) := by
  obtain ⟨stored, payload, state, hstored, hpayload, hstate, hfold⟩ := h.state
  have hseed : seedFromMetadata cfg (.new initial 0 (spawnTenant cfg)) s.tenantMetadata
      "failed to unmarshal snapshot tenant metadata" = .ok (.new initial 0 (spawnTenant cfg)) := by
    cases ha : cfg.tenantAware with
    | false => simp [seedFromMetadata, ha]
    | true =>
      have hne := hs.tenant_ne_unset ha
      simp [seedFromMetadata, seedActorTenant, ha, h.tenant ha, Actor.new, hne, verifyUnchanged, Except.mapError,
        Except.map, bind, Except.bind]
  refine ⟨state, hfold, ?_⟩
  simp only [EventSource.recoverFromSnapshot, hstored, hseed, hpayload, hstate, Except.mapError, bind, Except.bind]
  rfl

theorem foldsTo_zero (log : Option EventLog) : FoldsTo cfg log 0 cfg.behavior.initialState := by
  have hnil : history log 1 0 = [] := by
    refine List.eq_nil_iff_forall_not_mem.mpr fun e he => ?_
    have hrange := (mem_history.mp he).2
    omega
  rw [FoldsTo, hnil]
  rfl

theorem recover_eq {store : OrderedStore} {log : Option EventLog} {snapshot : Option Snapshot} {latest : Event}
    {state : S} {n : ℕ} (hs : Spawned cfg) (hlatest : store.getLatestEvent cfg.scope log = .ok (some latest))
    (hsnapshot : recoverFromSnapshot cfg (.new cfg.behavior.initialState 0 (spawnTenant cfg)) snapshot =
      .ok (.new state n (spawnTenant cfg), n + 1))
    (hfold : FoldsTo cfg log n state) (hle : n ≤ latest.sequenceNumber) {check : Except Err Unit}
    (hcheck : ∀ state counter, seedFromMetadata cfg (.new state counter (spawnTenant cfg)) latest.tenantMetadata
      "failed to unmarshal event tenant metadata" = check.map fun _ => .new state counter (spawnTenant cfg)) :
    recover cfg store.toEventsStore snapshot log = check >>= fun _ =>
      ((history log 1 latest.sequenceNumber).foldlM (applyPersistedEvent cfg (spawnTenant cfg))
        cfg.behavior.initialState).map fun state => .new state latest.sequenceNumber (spawnTenant cfg) := by
  have hall : history log 1 latest.sequenceNumber = history log 1 n ++ history log (n + 1) latest.sequenceNumber :=
    (history_append (by omega) hle).symm
  have hbefore : (history log 1 latest.sequenceNumber).foldlM (applyPersistedEvent cfg (spawnTenant cfg))
      cfg.behavior.initialState =
        (history log (n + 1) latest.sequenceNumber).foldlM (applyPersistedEvent cfg (spawnTenant cfg)) state := by
    rw [hall, List.foldlM_append, hfold]
    rfl
  rw [hbefore]
  simp only [recover, recoverReading, hsnapshot, hlatest, hcheck, Except.mapError, bind, Except.bind]
  cases check with
  | error err => rfl
  | ok u =>
    simp only [Except.map]
    by_cases hmore : n + 1 ≤ latest.sequenceNumber
    · obtain ⟨events, hevents⟩ := store.replay_total cfg.scope log (n + 1) latest.sequenceNumber
        (latest.sequenceNumber - (n + 1) + 1) hs.scope_valid
      rw [if_pos hmore, hevents, replay_history store hevents (by omega)]
      rfl
    · have hnil : history log (n + 1) latest.sequenceNumber = [] := by
        refine List.eq_nil_iff_forall_not_mem.mpr fun e he => ?_
        have hrange := (mem_history.mp he).2
        omega
      obtain rfl : n = latest.sequenceNumber := by omega
      rw [if_neg hmore, hnil]
      rfl

theorem CorrectFold.recover {log : Option EventLog} {s : Snapshot} (hs : Spawned cfg) (store : OrderedStore)
    (h : CorrectFold cfg log s) :
    recover cfg store.toEventsStore (some s) log = recover cfg store.toEventsStore none log := by
  obtain ⟨state, hfold, hsnapshot⟩ := h.recoverFromSnapshot hs cfg.behavior.initialState
  obtain ⟨e, he, hreached⟩ := h.reached
  obtain ⟨latest, hlatest⟩ := store.latest_total cfg.scope log hs.scope_valid
  have hmax := store.latest_of_ok _ _ _ hlatest
  cases latest with
  | none =>
    have hnil : journal log = [] := hmax
    rw [hnil] at he
    cases he
  | some latest =>
    have hle : s.sequenceNumber ≤ latest.sequenceNumber := Nat.le_trans hreached (hmax.2 e he)
    obtain ⟨check, hcheck⟩ := seedFromMetadata_spawned hs latest.tenantMetadata
      "failed to unmarshal event tenant metadata"
    rw [recover_eq hs hlatest hsnapshot hfold hle hcheck]
    exact (recover_eq hs hlatest rfl (foldsTo_zero log) (Nat.zero_le _) hcheck).symm

end

namespace Migrator
variable {m : Migrator}

theorem foldl_better {id : String} {events : List Event} {best : Option (Snapshot × Event)} {s : Snapshot} {e : Event}
    (h : events.foldl (m.better id) best = some (s, e)) :
    best = some (s, e) ∨ e ∈ events ∧ ∃ state, m.legacyResultingState e = some state ∧
      s = ⟨id, e.sequenceNumber, some state, e.timestamp, "", false, []⟩ := by
  induction events generalizing best with
  | nil => exact .inl h
  | cons event events ih =>
    obtain hbest | ⟨he, hmade⟩ := ih h
    · unfold better at hbest
      split at hbest
      · exact .inl hbest
      · rename_i state hstate
        have hnew : (⟨id, event.sequenceNumber, some state, event.timestamp, "", false, []⟩, event) = (s, e) →
            e ∈ event :: events ∧ ∃ state, m.legacyResultingState e = some state ∧
              s = ⟨id, e.sequenceNumber, some state, e.timestamp, "", false, []⟩ := by
          intro heq
          obtain ⟨rfl, rfl⟩ := Prod.mk.inj heq
          exact ⟨List.mem_cons_self, state, hstate, rfl⟩
        split at hbest
        · exact .inr (hnew (Option.some.inj hbest))
        · split at hbest
          · exact .inr (hnew (Option.some.inj hbest))
          · exact .inl hbest
    · exact .inr ⟨List.mem_cons_of_mem _ he, hmade⟩

theorem stampSnapshotTenant_ok {s stamped : Snapshot} {e : Event} (h : m.stampSnapshotTenant s e = .ok stamped) :
    stamped = { s with tenantMetadata := stamped.tenantMetadata } ∧
      ∀ id, m.scope = .tenant id → stamped.tenantMetadata = marshalMetadata (.tenant id) := by
  unfold stampSnapshotTenant at h
  split at h
  · rename_i id hscope
    split at h
    · cases h
    · split at h
      · cases h
      · obtain rfl := Except.ok.inj h
        refine ⟨rfl, fun id' hid => ?_⟩
        obtain rfl := Scope.tenant.inj (hscope.symm.trans hid)
        rfl
  · rename_i hother
    obtain rfl := Except.ok.inj h
    exact ⟨rfl, fun id hid => absurd hid (hother id)⟩

def CarriesFolds {S C E : Type} (m : Migrator) (cfg : Config S C E) (log : Option EventLog) : Prop :=
  ∀ e ∈ journal log, ∀ payload, m.legacyResultingState e = some payload →
    ∃ state, cfg.codec.unmarshalState payload = .ok state ∧ FoldsTo cfg log e.sequenceNumber state

section
variable {S C E : Type} {cfg : Config S C E}

theorem seed_correct {log : Option EventLog} {s : Snapshot} (hs : Spawned cfg) (hscope : cfg.scope = m.scope)
    (hcarries : m.CarriesFolds cfg log) (h : m.seed cfg.persistenceID log = .ok (some s)) : CorrectFold cfg log s := by
  unfold seed at h
  split at h
  · cases h
  · rename_i events hevents
    split at h
    · cases h
    · rename_i best e hbest
      obtain ⟨stamped, hstamp, heq⟩ := Lib.map_eq_ok.mp h
      obtain rfl := Option.some.inj heq
      obtain hnone | ⟨he, payload, hpayload, rfl⟩ := foldl_better hbest
      · cases hnone
      · obtain ⟨all, hperm, -, rfl⟩ := m.eventsStore.replay_ordered _ _ _ _ _ _ hevents
        have hmem : e ∈ journal log := (List.mem_filter.mp (hperm.mem_iff.mp (List.mem_of_mem_take he))).1
        obtain ⟨state, hstate, hfold⟩ := hcarries e hmem payload hpayload
        obtain ⟨hsame, hmetadata⟩ := stampSnapshotTenant_ok hstamp
        rw [hsame]
        refine ⟨⟨payload, payload, state, rfl, rfl, hstate, hfold⟩, fun ha => ?_, e, hmem, Nat.le_refl _⟩
        obtain ⟨id, hid, htenant⟩ := hs.bound ha
        rw [hmetadata id (hscope.symm.trans htenant), unmarshalMetadata_tenant hid, spawnTenant, ha, htenant]
        rfl

theorem Touches.correct {r r' : Records} (hs : Spawned cfg) (hscope : cfg.scope = m.scope)
    (h : m.Touches cfg.persistenceID r r') (hcarries : m.CarriesFolds cfg (r.log m.scope))
    (hcorrect : ∀ s ∈ r.snapshots m.scope, CorrectFold cfg (r.log m.scope) s) :
    ∀ s ∈ r'.snapshots m.scope, CorrectFold cfg (r.log m.scope) s := by
  intro x hx
  obtain hsame | ⟨s, hseed, hnew⟩ := h.snapshots
  · exact hcorrect x ((hsame x).mp hx)
  · obtain rfl | ⟨hx, -⟩ := (hnew x).mp hx
    · exact seed_correct hs hscope hcarries hseed
    · exact hcorrect x hx

theorem recover_latest {log : Option EventLog} {snapshots : List Snapshot} (hs : Spawned cfg)
    (hscope : cfg.scope = m.scope)
    (hcorrect : ∀ s ∈ snapshots, CorrectFold cfg log s) :
    ∃ latest, m.snapshotStore.getLatestSnapshot m.scope snapshots = .ok latest ∧
      recover cfg m.eventsStore.toEventsStore latest log = recover cfg m.eventsStore.toEventsStore none log := by
  obtain ⟨latest, hlatest⟩ := m.snapshotStore.latest_total m.scope snapshots (hscope ▸ hs.scope_valid)
  refine ⟨latest, hlatest, ?_⟩
  cases latest with
  | none => rfl
  | some s => exact (hcorrect s (m.snapshotStore.latest_of_ok _ _ _ hlatest).1).recover hs m.eventsStore

end

/-- What a run that succeeds leaves. -/
theorem run_migrates {fates : List (Lib.Fate Err)} {c : Contents} {w : Lib.World Contents Err}
    (h : m.run ⟨c, fates⟩ = (some (.ok ()), w)) : (∀ id, (w.contents.records id).log = (c.records id).log) ∧
    (∀ {S C E : Type} (cfg : Config S C E), Spawned cfg → cfg.scope = m.scope →
      m.CarriesFolds cfg ((c.records cfg.persistenceID).log m.scope) →
      (∀ s ∈ (c.records cfg.persistenceID).snapshots m.scope,
        CorrectFold cfg ((c.records cfg.persistenceID).log m.scope) s) →
      ∃ latest, m.snapshotStore.getLatestSnapshot m.scope ((w.contents.records cfg.persistenceID).snapshots m.scope) =
          .ok latest ∧
        recover cfg m.eventsStore.toEventsStore latest ((w.contents.records cfg.persistenceID).log m.scope) =
          recover cfg m.eventsStore.toEventsStore none ((w.contents.records cfg.persistenceID).log m.scope)) ∧
    (∀ id, (w.contents.records id).state = (c.records id).state ∧
      ∀ scope, scope ≠ m.scope → (w.contents.records id).snapshots scope = (c.records id).snapshots scope) ∧
    ∀ fates' id, ((m.run ⟨w.contents, fates'⟩).2.contents.records id).log = (w.contents.records id).log ∧
      ((m.run ⟨w.contents, fates'⟩).2.contents.records id).state = (w.contents.records id).state ∧
      ∀ scope x, x ∈ ((m.run ⟨w.contents, fates'⟩).2.contents.records id).snapshots scope ↔
        x ∈ (w.contents.records id).snapshots scope := by
  obtain ⟨hpass, -⟩ := (run_wp c fates).1 _ _ h
  refine ⟨fun id => (hpass.touches id).log, fun cfg hs hscope hcarries hcorrect => ?_, fun id => ?_,
    fun fates' id => ?_⟩
  · have htouches := hpass.touches cfg.persistenceID
    rw [htouches.log]
    exact recover_latest hs hscope (htouches.correct hs hscope hcarries hcorrect)
  · exact ⟨(hpass.touches id).state, (hpass.touches id).other⟩
  · have hagain := wp.contents (wp_mono (run_wp (m := m) w.contents) (fun _ _ hq => hq.1) fun _ hc => hc) fates'
    exact ⟨(hagain.touches id).log, (hagain.touches id).state, run_again h id⟩

end Migrator

open Enginetest

def memoryStore : OrderedStore where
  toJournalStore := Testkit.journalStore
  replay_ordered := by
    intro scope log a b limit events h
    change Testkit.replayEvents scope log a b limit = .ok events at h
    unfold Testkit.replayEvents at h
    split at h
    · cases h
    · exact ⟨_, Lib.StableSort.sort_perm _ _, Lib.StableSort.sort_sorted Testkit.sequenceNumber_decides _,
        (Except.ok.inj h).symm⟩

def accountMigrator : Migrator where
  eventsStore := memoryStore
  snapshotStore := Testkit.fullSnapshotStore
  pageSize := 500
  scope := .unscoped
  unknown := fun evt =>
    if evt.sequenceNumber = 1 then [0x2a, 20, 0x0a, 14] ++ utf8 "testpb.Account" ++ [0x12, 2, 1, 0] else []
  unmarshal := unmarshalShortAny
  scope_valid := @rfl Bool true

def twoCredits : EventLog :=
  ⟨2, [credited "account" 1 0, credited "account" 2 0], by decide, by decide⟩

def legacyRecords : Records := noRecords.setLog .unscoped (some twoCredits)

def creditSnapshot : Snapshot := ⟨"account", 1, some ⟨"testpb.Account", [1, 0]⟩, 0, "", false, []⟩

theorem accountMigrator_listed : accountMigrator.listedIDs (accountContents legacyRecords) = ["account"] :=
  listed_account rfl (by simp [twoCredits])

theorem accountMigrator_run : Returns accountMigrator.run (accountContents legacyRecords) (.ok ())
      ((accountContents legacyRecords).set "account" (legacyRecords.setSnapshots .unscoped [creditSnapshot])) := by
  have hentity : Returns (accountMigrator.migrateEntity "account") legacyRecords (.ok ())
      (legacyRecords.setSnapshots .unscoped [creditSnapshot]) := by
    rfl
  have hzoom : Returns (zoom (fun c : Contents => c.records "account") (fun c r => c.set "account" r)
      (accountMigrator.migrateEntity "account")) (accountContents legacyRecords) (.ok ())
      ((accountContents legacyRecords).set "account" (legacyRecords.setSnapshots .unscoped [creditSnapshot])) := by
    refine returns_zoom ?_
    exact hentity
  have hall : Returns (accountMigrator.migrateAll ["account"]) (accountContents legacyRecords) (.ok ())
      ((accountContents legacyRecords).set "account" (legacyRecords.setSnapshots .unscoped [creditSnapshot])) :=
    hzoom.bind returns_pure
  have hpage : accountMigrator.eventsStore.persistenceIDs (accountMigrator.listedIDs (accountContents legacyRecords))
      accountMigrator.pageSize "" = (["account"], "") := by
    rw [accountMigrator_listed]
    rfl
  refine returns_read rfl (returns_read rfl (returns_given ?_))
  exact returns_read (congrArg Except.ok hpage) (hall.bind returns_pure)

/-- The snapshot is there, and a recovery from it and the second credit is the replay of both. -/
theorem run_migrates_account : ∃ w, accountMigrator.run ⟨accountContents legacyRecords, []⟩ =
    (some (.ok ()), w) ∧
      (w.contents.records "account").snapshots .unscoped = [creditSnapshot] ∧
      recover (accountConfig 0) memoryStore.toEventsStore (some creditSnapshot) (some twoCredits) =
        recover (accountConfig 0) memoryStore.toEventsStore none (some twoCredits) := by
  have hspawned : Spawned (accountConfig 0) := ⟨fun _ => rfl, nofun⟩
  have hcarries : accountMigrator.CarriesFolds (accountConfig 0) (some twoCredits) := by
    intro e he payload hpayload
    rw [journal_some, twoCredits, List.mem_cons, List.mem_singleton] at he
    obtain rfl | rfl := he
    · obtain rfl := Option.some.inj hpayload
      exact ⟨1, rfl, rfl⟩
    · cases hpayload
  refine ⟨_, accountMigrator_run, rfl, ?_⟩
  obtain ⟨latest, hlatest, hrecover⟩ :=
    (Migrator.run_migrates accountMigrator_run).2.1 (accountConfig 0) hspawned rfl
    hcarries nofun
  obtain rfl : some creditSnapshot = latest := Except.ok.inj hlatest
  exact hrecover

end Ego.Migration

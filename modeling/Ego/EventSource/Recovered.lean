import Ego.EventSource.Retention

/-! # Recovery from what retention has left -/

namespace Ego.EventSource
open Persistence Lib

section
variable {S C E : Type} (cfg : Config S C E)

def ownMetadata : Tenancy.Metadata :=
  if cfg.tenantAware then Tenancy.marshalMetadata (spawnTenant cfg) else []

def ReadsBack (e : Event) : Prop :=
  ∀ s s', applyEvent cfg s e = .ok s' → applyPersistedEvent cfg (spawnTenant cfg) s e = .ok s'

structure Depicts (J : List Event) (r : PersistSnapshotRequest) : Prop where
  le_length : r.snapshot.sequenceNumber ≤ J.length
  state : ∃ state, stateOf cfg (J.take r.snapshot.sequenceNumber) = .ok state ∧
    r.snapshot.state = some (cfg.codec.newState state)
  plain : r.snapshot.isEncrypted = false
  persistenceId : r.snapshot.persistenceId = cfg.persistenceID
  tenantMetadata : r.snapshot.tenantMetadata = ownMetadata cfg
  scope : r.scope = cfg.scope
  retention : ∀ g, r.retention = some g → g.eventsCounter = r.snapshot.sequenceNumber ∧ 0 < g.snapshotInterval
  configured : cfg.snapshotsWriter = true

variable {cfg} {J : List Event}

theorem Depicts.append {r : PersistSnapshotRequest} (h : Depicts cfg J r) (events : List Event) :
    Depicts cfg (J ++ events) r := by
  refine { h with le_length := ?_, state := ?_ }
  · have hle := h.le_length
    rw [List.length_append]
    omega
  · rw [List.take_append_of_le_length h.le_length]
    exact h.state

theorem Spawned.unmarshal (h : Spawned cfg) (ha : cfg.tenantAware = true) :
    Tenancy.unmarshalMetadata (ownMetadata cfg) = .ok (spawnTenant cfg) := by
  obtain ⟨id, hid, hscope⟩ := h.bound ha
  simp only [ownMetadata, spawnTenant, ha, hscope, if_true, Tenancy.ofScope]
  exact Tenancy.unmarshalMetadata_tenant hid

theorem Spawned.scope_valid (h : Spawned cfg) : cfg.scope.valid = true := by
  cases ha : cfg.tenantAware with
  | false =>
    rw [h.legacy ha]
    rfl
  | true =>
    obtain ⟨id, -, hscope⟩ := h.bound ha
    rw [hscope]
    rfl

theorem Spawned.tenant_ne_unset (h : Spawned cfg) (ha : cfg.tenantAware = true) : spawnTenant cfg ≠ .unset := by
  obtain ⟨id, -, hscope⟩ := h.bound ha
  simp [spawnTenant, ha, hscope, Tenancy.ofScope]

theorem Spawned.seed (h : Spawned cfg) (state : S) (counter : ℕ) (text : String) :
    seedFromMetadata cfg (.new state counter (spawnTenant cfg)) (ownMetadata cfg) text =
      .ok (.new state counter (spawnTenant cfg)) := by
  unfold seedFromMetadata seedActorTenant
  cases ha : cfg.tenantAware with
  | false => rfl
  | true =>
    have hne : ¬ (Actor.new state counter (spawnTenant cfg)).actorTenant = .unset :=
      h.tenant_ne_unset ha
    simp only [h.unmarshal ha, Bool.not_true, Bool.false_eq_true, if_false, hne]
    simp [Except.mapError, Bind.bind, Except.bind, Tenancy.verifyUnchanged, Actor.new, Except.map]

theorem readsBack_of_unadapted {e : Event} (hs : Spawned cfg) (hm : e.tenantMetadata = ownMetadata cfg)
    (hu : Unadapted cfg e) : ReadsBack cfg e := by
  intro s s' h
  simp only [applyEvent, decodeEvent, bind_eq_ok] at h
  obtain ⟨event, ⟨payload, hpayload, hevent⟩, hhandle⟩ := h
  obtain ⟨adapted, hadapted, hsame⟩ := hu payload hpayload
  unfold applyPersistedEvent
  cases ha : cfg.tenantAware with
  | false =>
    simp [hpayload, hadapted, hsame, hevent, hhandle, Except.mapError, Bind.bind, Except.bind]
  | true =>
    simp [hm, hs.unmarshal ha, Tenancy.verifyUnchanged, hpayload, hadapted, hsame, hevent, hhandle,
      Except.mapError, Bind.bind, Except.bind]

theorem foldlM_applyPersistedEvent {events : List Event} {s s' : S}
    (hr : ∀ e ∈ events, ReadsBack cfg e) (h : replay cfg s events = .ok s') :
    events.foldlM (applyPersistedEvent cfg (spawnTenant cfg)) s = .ok s' := by
  induction events generalizing s with
  | nil => exact h
  | cons e events ih =>
    simp only [replay, List.foldlM_cons, bind_eq_ok] at h
    obtain ⟨mid, hone, hrest⟩ := h
    obtain ⟨hre, hrs⟩ := List.forall_mem_cons.mp hr
    simp only [List.foldlM_cons, hre s mid hone]
    exact ih hrs hrest

theorem Depicts.recover {r : PersistSnapshotRequest} {s : Snapshot} {initial : S} (hs : Spawned cfg)
    (h : Depicts cfg J r) (henc : encryptSnapshotState cfg r.snapshot = .ok s) :
    ∃ state, stateOf cfg (J.take r.snapshot.sequenceNumber) = .ok state ∧
      recoverFromSnapshot cfg (.new initial 0 (spawnTenant cfg)) (some s) =
        .ok (.new state r.snapshot.sequenceNumber (spawnTenant cfg), r.snapshot.sequenceNumber + 1) := by
  obtain ⟨state, hstate, hany⟩ := h.state
  obtain ⟨stored, hstored, hnumber, hmd, hread⟩ : ∃ stored, s.state = some stored ∧
      s.sequenceNumber = r.snapshot.sequenceNumber ∧ s.tenantMetadata = ownMetadata cfg ∧
      decryptPayload cfg stored s.isEncrypted s.encryptionKeyId = .ok (cfg.codec.newState state) := by
    unfold encryptSnapshotState at henc
    rw [hany] at henc
    cases henc' : cfg.encryptor with
    | none =>
      rw [henc'] at henc
      rw [← Except.ok.inj henc]
      exact ⟨_, hany, rfl, h.tenantMetadata, by simp [decryptPayload, h.plain]⟩
    | some enc =>
      rw [henc'] at henc
      dsimp only at henc
      split at henc
      · simp at henc
      · rename_i ciphertext keyID hct
        rw [← Except.ok.inj henc]
        refine ⟨_, rfl, rfl, h.tenantMetadata, ?_⟩
        rw [h.persistenceId] at hct
        simp [decryptPayload, henc', enc.roundtrip _ _ _ _ hct, cfg.codec.any_roundtrip, Except.mapError]
  refine ⟨state, hstate, ?_⟩
  simp only [recoverFromSnapshot, hstored, hnumber, hmd, hs.seed, hread, Except.mapError,
    cfg.codec.state_roundtrip, Bind.bind, Except.bind]
  rfl

def CutAt (cut : ℕ) (J : List Event) (log : Option EventLog) : Prop :=
  journal log = J.filter fun e => cut < e.sequenceNumber

theorem Numbered.filter_eq_drop {num : Event → ℕ} {b cut : ℕ} {events : List Event}
    (h : Numbered num b events) : (events.filter fun e => cut < num e) = events.drop (cut - b) := by
  induction events generalizing b with
  | nil => simp
  | cons e events ih =>
    have hnum : num e = b + 1 := h.1
    by_cases hlt : cut < b + 1
    · have hall : ∀ x ∈ events, cut < num x := by
        intro x hx
        have := (h.2.bounds x hx).1
        omega
      have hzero : cut - b = 0 := by omega
      rw [hzero, List.drop_zero, List.filter_eq_self.mpr]
      intro x hx
      rcases List.mem_cons.mp hx with rfl | hx
      · simp [hnum, hlt]
      · simpa using hall x hx
    · obtain ⟨k, hk⟩ := Nat.exists_eq_succ_of_ne_zero (Nat.sub_ne_zero_of_lt (Nat.not_lt.mp hlt))
      rw [List.filter_cons_of_neg (by simp [hnum]; omega), ih h.2, hk, List.drop_succ_cons]
      congr 1
      omega

theorem CutAt.latest {cut : ℕ} {log : Option EventLog} {latest : Option Event}
    (hn : Numbered (·.sequenceNumber) 0 J) (hc : CutAt cut J log) (hl : IsLatest (journal log) latest) :
    (latest = none ∧ J.length ≤ cut) ∨ ∃ e, latest = some e ∧ e ∈ J ∧ e.sequenceNumber = J.length := by
  rw [CutAt, Numbered.filter_eq_drop hn, Nat.sub_zero] at hc
  cases latest with
  | none =>
    have hnil : journal log = [] := hl
    rw [hc, List.drop_eq_nil_iff] at hnil
    exact .inl ⟨rfl, hnil⟩
  | some e =>
    obtain ⟨hmem, hmax⟩ := hl
    rw [hc] at hmem hmax
    have hne : J ≠ [] := List.ne_nil_of_mem (List.mem_of_mem_drop hmem)
    refine .inr ⟨e, rfl, List.mem_of_mem_drop hmem, Nat.le_antisymm ?_ ?_⟩
    · simpa using (hn.bounds e (List.mem_of_mem_drop hmem)).2
    · -- the last event of `J` has not been deleted, as `e` has not
      obtain ⟨init, last, rfl⟩ := (List.eq_nil_or_concat' J).resolve_left hne
      have hlast : last.sequenceNumber = (init ++ [last]).length := by
        have := (numbered_append.mp hn).2.1
        simpa using this
      have hcut : cut ≤ init.length := by
        have hlen := List.length_pos_of_mem hmem
        simp only [List.length_drop, List.length_append, List.length_singleton] at hlen
        omega
      rw [← hlast]
      refine hmax last ?_
      rw [List.drop_append_of_le_length hcut]
      simp

theorem CutAt.replay {cut k limit : ℕ} {log : Option EventLog} {events : List Event}
    {store : EventsStore} {scope : Scope} (hn : Numbered (·.sequenceNumber) 0 J) (hc : CutAt cut J log)
    (hcut : cut ≤ k) (hlimit : J.length ≤ k + limit)
    (h : store.replayEvents scope log (k + 1) J.length limit = .ok events) : events = J.drop k := by
  have hsorted : (journal log).Pairwise fun x y => x.sequenceNumber < y.sequenceNumber := by
    rw [hc]
    exact hn.pairwise.filter _
  have hrange : ((journal log).filter fun e => k + 1 ≤ e.sequenceNumber ∧ e.sequenceNumber ≤ J.length) =
      J.filter fun e => k < e.sequenceNumber := by
    rw [hc, List.filter_filter]
    apply List.filter_congr
    intro e he
    have hbounds := hn.bounds e he
    rw [← Bool.decide_and, decide_eq_decide]
    omega
  rw [store.replay_of_ok _ _ _ _ _ _ h hsorted, hrange, Numbered.filter_eq_drop hn, Nat.sub_zero,
    List.take_of_length_le]
  rw [List.length_drop]
  omega

def Restores (cfg : Config S C E) (J : List Event) (k : ℕ) (snapshot : Option Snapshot) : Prop :=
  (snapshot = none ∧ k = 0) ∨ ∃ r s, snapshot = some s ∧ Depicts cfg J r ∧
    encryptSnapshotState cfg r.snapshot = .ok s ∧ k = r.snapshot.sequenceNumber

theorem Restores.recover {k : ℕ} {snapshot : Option Snapshot} (hs : Spawned cfg)
    (h : Restores cfg J k snapshot) : k ≤ J.length ∧ ∃ state, stateOf cfg (J.take k) = .ok state ∧
      recoverFromSnapshot cfg (.new cfg.behavior.initialState 0 (spawnTenant cfg)) snapshot =
        .ok (.new state k (spawnTenant cfg), k + 1) := by
  rcases h with ⟨rfl, rfl⟩ | ⟨r, s, rfl, hd, henc, rfl⟩
  · exact ⟨Nat.zero_le _, _, rfl, rfl⟩
  · exact ⟨hd.le_length, hd.recover hs henc⟩

theorem recoverReading_exact {store : RetainingStore} {snapshot : Option Snapshot}
    {log log' : Option EventLog} {k cut cut' : ℕ} {state : S} (hs : Spawned cfg)
    (hn : Numbered (·.sequenceNumber) 0 J) (hfold : stateOf cfg J = .ok state)
    (hm : ∀ e ∈ J, e.tenantMetadata = ownMetadata cfg) (hr : ∀ e ∈ J, ReadsBack cfg e)
    (hsnap : Restores cfg J k snapshot) (hc : CutAt cut J log) (hcut : cut ≤ k)
    (hc' : CutAt cut' J log') (hcut' : cut' ≤ k) :
    recoverReading cfg store.toEventsStore snapshot log log' = .ok (.new state J.length (spawnTenant cfg)) := by
  obtain ⟨hk, start, hstart, hrecover⟩ := hsnap.recover hs
  have hrest : EventSource.replay cfg start (J.drop k) = .ok state := by
    rw [← stateOf_append hstart, List.take_append_drop]
    exact hfold
  have hdone (hle : J.length ≤ k) : start = state ∧ k = J.length := by
    rw [List.drop_eq_nil_of_le hle] at hrest
    exact ⟨Except.ok.inj hrest, Nat.le_antisymm hk hle⟩
  obtain ⟨latest, hlatest⟩ := store.latest_total cfg.scope log hs.scope_valid
  have his := store.latest_of_ok _ _ _ hlatest
  simp only [recoverReading, hrecover, hlatest, Except.mapError, Bind.bind, Except.bind]
  rcases hc.latest hn his with ⟨rfl, hle⟩ | ⟨e, rfl, he, hnum⟩
  · obtain ⟨rfl, rfl⟩ := hdone (Nat.le_trans hle hcut)
    rfl
  · simp only [hm e he, hs.seed, hnum]
    split
    · rename_i hlt
      obtain ⟨events, hevents⟩ := store.replay_total cfg.scope log' (k + 1) J.length
        (J.length - (k + 1) + 1) hs.scope_valid
      have hdrop := hc'.replay hn hcut' (by omega) hevents
      have happlied := foldlM_applyPersistedEvent
        (fun x hx => hr x (List.mem_of_mem_drop (hdrop ▸ hx))) (hdrop ▸ hrest)
      have hsame : (Actor.new start k (spawnTenant cfg)).actorTenant = spawnTenant cfg := rfl
      have hbegin : (Actor.new start k (spawnTenant cfg)).currentState = start := rfl
      simp only [hevents, hsame, hbegin, happlied]
      rfl
    · obtain ⟨rfl, rfl⟩ := hdone (by omega)
      rfl

end

end Ego.EventSource

import Ego.DurableState.Node
import Ego.Testkit.DurableStore
import Ego.Enginetest.AccountDurable

/-!
# States and the versions they were committed under

One actor over a record that others write to as well.
-/

namespace Ego.DurableState
open Persistence Protocol Lib
open Enginetest (Command background durableConfig durableTurn expecting)

structure Watched (S : Type) where
  node : Node S
  record : Option DurableState
  records : List DurableState
  deriving DecidableEq

inductive Input (C : Type) where
  | actor (l : Label C)
  | external (record : Option DurableState)
  deriving DecidableEq, Repr

def Label.isStop {C : Type} : Label C → Bool
  | .stop _ => true
  | _ => false

section
variable {S C : Type} (cfg : Config S C) (store : StateStore)

def watchedStep (w : Watched S) : Input C → Watched S
  | .external record => { w with record := record, records := w.records ++ record.toList }
  | .actor l =>
    let r := nodeStep cfg store w.node w.record l
    ⟨r.1, r.2, w.records ++ if l.isStop then [] else r.2.toList⟩

def Watched.start (record : Option DurableState) : Watched S := ⟨.idle, record, record.toList⟩

def Committed (records : List DurableState) (s : S) (v : UInt64) : Prop :=
  s = cfg.behavior.initialState ∧ v = 0 ∨ ∃ ds ∈ records, recoverState cfg ds = .ok s ∧ ds.versionNumber = v

def Caches (a : Actor S) (s : S) : Prop :=
  a.cachedStateAny = none ∨ a.cachedStateAny = some (cfg.codec.newState s)

structure Paired (w : Watched S) : Prop where
  pair : ∀ a, w.node.actor = some a → Committed cfg w.records a.currentState a.currentVersion
  cache : ∀ a, w.node.actor = some a → Caches cfg a a.currentState
  replies : ∀ r, .stateReply r ∈ w.node.replies → ∃ s v, Committed cfg w.records s v ∧
    r.state = cfg.codec.newState s ∧ r.sequenceNumber = v.toNat
  flushed : ∀ ds ∈ w.node.flushed, ∃ s, Committed cfg w.records s ds.versionNumber ∧
    ds.resultingState = some (cfg.codec.newState s)
  stored : ∀ ds s, w.record = some ds → recoverState cfg ds = .ok s → Committed cfg w.records s ds.versionNumber

def ResetFits (a : Actor S) (records : List DurableState) : Prop :=
  Committed cfg records cfg.behavior.initialState a.currentVersion ∧ Caches cfg a cfg.behavior.initialState

def RecoveryFits (a : Actor S) (records : List DurableState) : Option DurableState → Prop
  | none => ResetFits cfg a records
  | some ds =>
    if legacyGenesis cfg ds then ResetFits cfg a records
    else
      match recoverTenant cfg a ds, recoverState cfg ds with
      | .ok _, .ok s => Caches cfg a s
      | _, _ => True

def RecoversFitting (w : Watched S) : Input C → Prop
  | .actor (.recover none) =>
    match w.node.actor, w.node.recovering with
    | some a, some _ => cfg.scope.valid = true → RecoveryFits cfg a w.records w.record
    | _, _ => True
  | _ => True

variable {cfg store} {w : Watched S} {records : List DurableState} {a : Actor S}

variable {s : S}

theorem Committed.grow {v : UInt64} (h : Committed cfg records s v)
    (more : List DurableState) : Committed cfg (records ++ more) s v := by
  rcases h with h | ⟨ds, hds, h⟩
  · exact .inl h
  · exact .inr ⟨ds, List.mem_append_left more hds, h⟩

theorem recoverState_newState {ds : DurableState}
    (h : ds.resultingState = some (cfg.codec.newState s)) : recoverState cfg ds = .ok s := by
  simp only [recoverState, h, cfg.codec.roundtrip, Except.mapError]

theorem currentStateAny_of_caches (h : Caches cfg a a.currentState) :
    currentStateAny cfg a = cfg.codec.newState a.currentState := by
  rcases h with h | h <;> simp [currentStateAny, h]

theorem recoverTenant_frame {a' : Actor S} {ds : DurableState} (h : recoverTenant cfg a ds = .ok a') :
    ∃ tenant, a' = { a with actorTenant := tenant } := by
  unfold recoverTenant at h
  split at h
  · exact ⟨a.actorTenant, (Except.ok.inj h).symm⟩
  split at h
  · cases h
  split at h
  · exact ⟨_, (Except.ok.inj h).symm⟩
  split at h
  · cases h
  · exact ⟨a.actorTenant, (Except.ok.inj h).symm⟩

theorem recoverFromStore_cases (cfg : Config S C) (a : Actor S) (record : Option DurableState) :
    (∃ tenant err, recoverFromStore cfg a (.ok record) = ({ a with actorTenant := tenant }, .error err) ∧
      ∀ records, RecoveryFits cfg a records record) ∨
    (recoverFromStore cfg a (.ok record) = ({ a with currentState := cfg.behavior.initialState }, .ok ()) ∧
      (record = none ∨ ∃ ds, record = some ds ∧ legacyGenesis cfg ds = true) ∧
      ∀ records, RecoveryFits cfg a records record ↔ ResetFits cfg a records) ∨
    ∃ ds tenant s, record = some ds ∧ recoverState cfg ds = .ok s ∧
      recoverFromStore cfg a (.ok record) = ({ a with
        actorTenant := tenant, currentState := s, currentVersion := ds.versionNumber }, .ok ()) ∧
      ∀ records, RecoveryFits cfg a records record ↔ Caches cfg a s := by
  cases record with
  | none => exact .inr (.inl ⟨rfl, .inl rfl, fun _ => Iff.rfl⟩)
  | some ds =>
    cases hl : legacyGenesis cfg ds with
    | true =>
      refine .inr (.inl ⟨by simp [recoverFromStore, hl], .inr ⟨ds, rfl, hl⟩, fun _ => ?_⟩)
      simp [RecoveryFits, hl]
    | false =>
      simp only [recoverFromStore, RecoveryFits, hl, Bool.false_eq_true, if_false]
      cases ht : recoverTenant cfg a ds with
      | error err => exact .inl ⟨a.actorTenant, err, rfl, fun _ => trivial⟩
      | ok a' =>
        obtain ⟨tenant, rfl⟩ := recoverTenant_frame ht
        cases hs : recoverState cfg ds with
        | error err => exact .inl ⟨tenant, err, rfl, fun _ => trivial⟩
        | ok s => exact .inr (.inr ⟨ds, tenant, s, rfl, hs, rfl, fun _ => Iff.rfl⟩)

theorem readRecord_ok {readErr : Option Err} {record latest : Option DurableState}
    (h : readRecord cfg store readErr record = .ok latest) : latest = record := by
  cases readErr with
  | some err => cases h
  | none => exact ((store.latest_ok _ _ _).mp h).2

variable {n' : Node S} {record' : Option DurableState}

theorem Paired.next {more : List DurableState} (h : Paired cfg w)
    (ha : ∀ a, n'.actor = some a → Committed cfg (w.records ++ more) a.currentState a.currentVersion ∧
      Caches cfg a a.currentState) (hr : ∀ r, .stateReply r ∈ n'.replies → .stateReply r ∈ w.node.replies ∨
      ∃ s v, Committed cfg (w.records ++ more) s v ∧ r.state = cfg.codec.newState s ∧
        r.sequenceNumber = v.toNat) (hf : ∀ ds ∈ n'.flushed, ds ∈ w.node.flushed ∨
      ∃ s, Committed cfg (w.records ++ more) s ds.versionNumber ∧ ds.resultingState = some (cfg.codec.newState s))
    (hs : ∀ ds s, record' = some ds → recoverState cfg ds = .ok s →
      Committed cfg (w.records ++ more) s ds.versionNumber) : Paired cfg ⟨n', record', w.records ++ more⟩ where
  pair := fun a h => (ha a h).1
  cache := fun a h => (ha a h).2
  replies := fun r hmem => by
    rcases hr r hmem with hold | hnew
    · obtain ⟨s, v, hc, hstate, hseq⟩ := h.replies r hold
      exact ⟨s, v, hc.grow more, hstate, hseq⟩
    · exact hnew
  flushed := fun ds hmem => by
    rcases hf ds hmem with hold | hnew
    · obtain ⟨s, hc, hstate⟩ := h.flushed ds hold
      exact ⟨s, hc.grow more, hstate⟩
    · exact hnew
  stored := hs

theorem stateReply_mem_reply {n : Node S} {reply : CommandReply} {r : StateReply}
    (h : .stateReply r ∈ (n.reply reply).replies) : .stateReply r ∈ n.replies ∨ reply = .stateReply r := by
  simp only [Node.reply, List.mem_append, List.mem_singleton] at h
  exact h.imp_right Eq.symm

theorem Paired.moves (h : Paired cfg w) (more : List DurableState)
    (ha : ∀ a, n'.actor = some a → Committed cfg w.records a.currentState a.currentVersion ∧
      Caches cfg a a.currentState) (hr : ∀ r, .stateReply r ∈ n'.replies → .stateReply r ∈ w.node.replies ∨
      ∃ s v, Committed cfg w.records s v ∧ r.state = cfg.codec.newState s ∧ r.sequenceNumber = v.toNat)
    (hf : n'.flushed = w.node.flushed) : Paired cfg ⟨n', w.record, w.records ++ more⟩ := by
  refine h.next (fun a hn => ⟨(ha a hn).1.grow more, (ha a hn).2⟩) (fun r hmem => ?_)
    (fun ds hmem => .inl (hf ▸ hmem)) fun ds s hd hrec => (h.stored ds s hd hrec).grow more
  refine (hr r hmem).imp_right ?_
  rintro ⟨s, v, hc, h⟩
  exact ⟨s, v, hc.grow more, h⟩

theorem Paired.fails (h : Paired cfg w) (a : Actor S) (err : Err) (more : List DurableState)
    (record' : Option DurableState) (hs : ∀ ds s, record' = some ds → recoverState cfg ds = .ok s →
      Committed cfg (w.records ++ more) s ds.versionNumber) :
    Paired cfg ⟨failCommand a err w.node, record', w.records ++ more⟩ := by
  refine h.next (fun b hb => ?_) (fun r hmem => .inl ?_) (fun ds hmem => .inl ?_) hs
  · rw [failCommand_actor] at hb
    exact ⟨(h.pair b hb).grow more, h.cache b hb⟩
  · unfold failCommand at hmem
    split at hmem
    · simpa using stateReply_mem_reply hmem
    · exact hmem
  · unfold failCommand at hmem
    split at hmem <;> exact hmem

theorem sendStateReply_caches (h : Caches cfg a a.currentState) :
    Caches cfg (sendStateReply cfg a).1 (sendStateReply cfg a).1.currentState ∧
      ∀ r, (sendStateReply cfg a).2 = .stateReply r →
        r.state = cfg.codec.newState a.currentState ∧ r.sequenceNumber = a.currentVersion.toNat := by
  have hany := currentStateAny_of_caches h
  refine ⟨.inr (congrArg some hany), ?_⟩
  rintro r ⟨⟩
  exact ⟨hany, rfl⟩

theorem commit_stored (c : Commit S) (records : List DurableState) :
    ∀ ds s, some (c.durableState cfg) = some ds → recoverState cfg ds = .ok s →
      Committed cfg (records ++ [c.durableState cfg]) s ds.versionNumber := by
  rintro ds s hds hs
  cases hds
  exact .inr ⟨_, by simp, hs, rfl⟩

theorem readRecord_of_recovered {a' : Actor S} {readErr : Option Err} {record : Option DurableState}
    (hr : recoverFromStore cfg a (readRecord cfg store readErr record) = (a', .ok ())) :
    readRecord cfg store readErr record = .ok record := by
  cases hread : readRecord cfg store readErr record with
  | error err => simp [recoverFromStore, hread] at hr
  | ok latest => rw [readRecord_ok hread]

theorem Paired.started {a : Actor S} {readErr : Option Err} (h : Paired cfg w)
    (hr : recoverFromStore cfg (spawned cfg) (readRecord cfg store readErr w.record) = (a, .ok ())) :
    Committed cfg w.records a.currentState a.currentVersion ∧ Caches cfg a a.currentState := by
  rw [readRecord_of_recovered hr] at hr
  rcases recoverFromStore_cases cfg (spawned cfg) w.record with
    ⟨_, _, heq, -⟩ | ⟨heq, -, -⟩ | ⟨ds, _, s, hds, hs, heq, -⟩ <;> rw [heq] at hr
  · simp at hr
  · obtain rfl := (Prod.mk.inj hr).1
    exact ⟨.inl ⟨rfl, rfl⟩, .inl rfl⟩
  · obtain rfl := (Prod.mk.inj hr).1
    exact ⟨h.stored ds s hds hs, .inl rfl⟩

theorem Paired.flushes (h : Paired cfg w) (ha : w.node.actor = some a)
    (hr : record' = w.record ∨ record' = some (flushedState cfg a)) :
    Paired cfg ⟨{ w.node with actor := none, flushed := w.node.flushed ++ [flushedState cfg a] },
      record', w.records ++ []⟩ := by
  have hpair := (h.pair a ha).grow []
  have hany : (flushedState cfg a).resultingState = some (cfg.codec.newState a.currentState) :=
    congrArg some (currentStateAny_of_caches (h.cache a ha))
  refine h.next (fun b hb => by cases hb) (fun r hr => .inl hr) (fun ds hds => ?_) fun ds s hd hs => ?_
  · rcases List.mem_append.mp hds with hds | hds
    · exact .inl hds
    · obtain rfl := List.mem_singleton.mp hds
      exact .inr ⟨_, hpair, hany⟩
  · rcases hr with rfl | rfl
    · exact (h.stored ds s hd hs).grow []
    · cases hd
      rw [recoverState_newState hany] at hs
      cases hs
      exact hpair

def Label.isRecover : Label C → Bool
  | .recover _ => true
  | _ => false

theorem Move.paired {l : Label C}
    (hm : Move cfg store w.node w.record l n' record') (hl : l.isRecover = false) (h : Paired cfg w) :
    Paired cfg ⟨n', record', w.records ++ if l.isStop then [] else record'.toList⟩ := by
  have hsame : ∀ a, w.node.actor = some a →
      Committed cfg w.records a.currentState a.currentVersion ∧ Caches cfg a a.currentState :=
    fun a ha => ⟨h.pair a ha, h.cache a ha⟩
  cases hm with
  | idle => exact h.moves _ hsame (fun r hr => .inl hr) rfl
  | refused =>
    exact h.moves _ hsame (fun r hr => .inl (by simpa using stateReply_mem_reply hr)) rfl
  | started hn hr =>
    refine h.moves _ (fun b hb => ?_) (fun r hr => .inl hr) rfl
    cases hb
    exact h.started hr
  | rejected ha hi hc hw =>
    exact h.fails _ _ _ _ fun ds s hd hs => (h.stored ds s hd hs).grow _
  | lost ha hi hc hw => exact h.fails _ _ _ _ (commit_stored _ _)
  | @committed _ _ _ _ a c ha hi hc hw =>
    have hcomm : Committed cfg (w.records ++ [c.durableState cfg]) c.newState c.newVersion :=
      .inr ⟨c.durableState cfg, by simp, recoverState_newState rfl, rfl⟩
    have hsend := @sendStateReply_caches _ _ cfg (commitState cfg a c) (.inr rfl)
    refine h.next (fun b hb => ?_) (fun r hr => ?_) (fun ds hds => .inl hds) (commit_stored c _)
    · cases hb
      exact ⟨hcomm, hsend.1⟩
    · refine (stateReply_mem_reply hr).imp_right fun heq => ?_
      exact ⟨c.newState, c.newVersion, hcomm, hsend.2 r heq⟩
  | recovered ha hi => simp [Label.isRecover] at hl
  | @read _ a ha hi =>
    have hsend := sendStateReply_caches (h.cache a ha)
    refine h.moves _ (fun b hb => ?_) (fun r hr => ?_) rfl
    · cases hb
      exact ⟨h.pair a ha, hsend.1⟩
    · refine (stateReply_mem_reply hr).imp_right fun heq => ?_
      exact ⟨a.currentState, a.currentVersion, h.pair a ha, hsend.2 r heq⟩
  | unflushed ha hi hf => exact h.moves _ (fun b hb => by cases hb) (fun r hr => .inl hr) rfl
  | flushRejected ha hi hf hw => exact h.flushes ha (.inl rfl)
  | flushed ha hi hf hw => exact h.flushes ha (.inr rfl)

theorem Paired.committed_iff (h : Paired cfg w) {v : UInt64} :
    Committed cfg (w.records ++ w.record.toList) s v ↔ Committed cfg w.records s v := by
  refine ⟨?_, fun hc => hc.grow _⟩
  rintro (hc | ⟨ds, hds, hs, rfl⟩)
  · exact .inl hc
  · rcases List.mem_append.mp hds with hds | hds
    · exact .inr ⟨ds, hds, hs, rfl⟩
    · exact h.stored ds s (Option.mem_toList.mp hds) hs

theorem Paired.recovers_iff (h : Paired cfg w) (a' : Actor S) (err : Err) :
    Paired cfg ⟨{ w.node.reply (.errorReply err) with actor := some a', recovering := none },
        w.record, w.records ++ w.record.toList⟩ ↔
      Committed cfg w.records a'.currentState a'.currentVersion ∧ Caches cfg a' a'.currentState := by
  constructor
  · intro h'
    exact ⟨h.committed_iff.mp (h'.pair a' rfl), h'.cache a' rfl⟩
  · intro ha
    refine h.moves _ (fun b hb => ?_) (fun r hr => .inl (by simpa using stateReply_mem_reply hr)) rfl
    cases hb
    exact ha

theorem recover_paired (h : Paired cfg w) (readErr : Option Err) :
    Paired cfg (watchedStep cfg store w (.actor (.recover readErr : Label C))) ↔
      RecoversFitting cfg w (.actor (.recover readErr : Label C)) := by
  have hidle : Paired cfg ⟨w.node, w.record, w.records ++ w.record.toList⟩ :=
    h.moves _ (fun a ha => ⟨h.pair a ha, h.cache a ha⟩) (fun r hr => .inl hr) rfl
  cases ha : w.node.actor with
  | none => cases readErr <;> simpa [watchedStep, nodeStep, RecoversFitting, ha, Label.isStop] using hidle
  | some a =>
    cases hi : w.node.recovering with
    | none =>
      cases readErr <;> simpa [watchedStep, nodeStep, RecoversFitting, ha, hi, Label.isStop] using hidle
    | some err =>
      have hkeep := (h.recovers_iff a err).mpr ⟨h.pair a ha, h.cache a ha⟩
      cases readErr with
      | some e =>
        refine iff_of_true ?_ trivial
        simpa [watchedStep, nodeStep, ha, hi, Label.isStop, readRecord, recoverFromStore] using hkeep
      | none =>
        simp only [watchedStep, nodeStep, ha, hi, Label.isStop, readRecord, RecoversFitting,
          Bool.false_eq_true, if_false]
        cases hl : store.getLatestState cfg.scope w.record with
        | error e =>
          refine iff_of_true hkeep fun hs => ?_
          rw [(store.latest_ok _ _ _).mpr ⟨hs, rfl⟩] at hl
          cases hl
        | ok latest =>
          obtain ⟨hs, rfl⟩ := (store.latest_ok _ _ _).mp hl
          rw [h.recovers_iff, forall_prop_of_true hs]
          rcases recoverFromStore_cases cfg a w.record with
            ⟨_, _, heq, hfit⟩ | ⟨heq, -, hfit⟩ | ⟨ds, _, s, hds, hrec, heq, hfit⟩ <;> rw [heq]
          · exact iff_of_true ⟨h.pair a ha, h.cache a ha⟩ (hfit _)
          · exact (hfit _).symm
          · rw [hfit]
            exact ⟨fun hc => hc.2, fun hc => ⟨h.stored ds s hds hrec, hc⟩⟩

theorem watchedStep_paired (h : Paired cfg w) (i : Input C) :
    Paired cfg (watchedStep cfg store w i) ↔ RecoversFitting cfg w i := by
  cases i with
  | external record =>
    refine iff_of_true ?_ trivial
    refine h.next (fun a ha => ⟨(h.pair a ha).grow _, h.cache a ha⟩) (fun r hr => .inl hr)
      (fun ds hds => .inl hds) fun ds s hd hs => ?_
    exact .inr ⟨ds, by simp [hd], hs, rfl⟩
  | actor l =>
    cases hl : l.isRecover with
    | false =>
      refine iff_of_true ((nodeStep_move store w.node w.record l).paired hl h) ?_
      cases l with
      | recover => simp [Label.isRecover] at hl
      | _ => trivial
    | true =>
      cases l with
      | recover readErr => exact recover_paired h readErr
      | _ => simp [Label.isRecover] at hl

theorem paired_start (cfg : Config S C) (record : Option DurableState) : Paired cfg (Watched.start record) where
  pair := fun a ha => by simp [Watched.start, Node.idle] at ha
  cache := fun a ha => by simp [Watched.start, Node.idle] at ha
  replies := fun r hr => by simp [Watched.start, Node.idle] at hr
  flushed := fun ds hds => by simp [Watched.start, Node.idle] at hds
  stored := fun ds s hd hs => .inr ⟨ds, Option.mem_toList.mpr hd, hs, rfl⟩

/-- Whatever the actor is asked, whatever the store answers and whoever else
writes the record: all replies and flushes pair a state with the version it was
committed under, and so do the actor and its cache at all times, exactly if
every recovery in place finds what fits the cached encoding and the version it
leaves in place. -/
theorem pairing_iff (cfg : Config S C) (store : StateStore) (record : Option DurableState)
    (inputs : List (Input C)) : (∀ before, before <+: inputs →
      Paired cfg (run (watchedStep cfg store) (Watched.start record) before)) ↔
      Along (watchedStep cfg store) (RecoversFitting cfg) (Watched.start record) inputs :=
  run_invariant_iff (watchedStep cfg store) (Paired cfg) (fun _ i _ h => watchedStep_paired h i)
    (paired_start cfg record)

def conflictedAccount : List (Input Command) :=
  [.actor (.start none), .actor (.command (expecting 0) (.createAccount 5) (durableTurn 1) .store),
    .external (some ⟨"account", 2, some (durableConfig.codec.newState 9), 2, 0, []⟩),
    .actor (.command (expecting 1) (.creditAccount "account" 1) (durableTurn 3) .store),
    .actor (.recover none), .actor (.getState background)]

/-- The last reply shows the balance of version one under version two. -/
theorem reply_pairs_stale_state :
    let w := run (watchedStep durableConfig Testkit.DurableStore.stateStore) (Watched.start none)
      conflictedAccount
    (∃ a, w.node.actor = some a ∧ a.currentState = 9 ∧ a.currentVersion = 2 ∧
      a.cachedStateAny = some (durableConfig.codec.newState 5)) ∧
      .stateReply ⟨"account", durableConfig.codec.newState 5, 2, 1⟩ ∈ w.node.replies ∧
      ∀ ds ∈ w.records, ds.versionNumber = 2 → ds.resultingState ≠ some (durableConfig.codec.newState 5) := by
  refine ⟨⟨_, rfl, ?_⟩, ?_, ?_⟩ <;> decide

end

end Ego.DurableState

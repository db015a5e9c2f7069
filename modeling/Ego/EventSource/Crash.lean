import Ego.EventSource.Recovered

/-!
# Runs with snapshots, retention and crashes

`NodeInv` is what the node keeps through the whole run.
-/

namespace Ego.EventSource
open Persistence Protocol Lib
open Tenancy (TenantContext)
open Enginetest (Command AccountEvent accountConfig background turnAt)

section
variable {S C E : Type} (cfg : Config S C E)

structure NodeInv (n : Node S C) : Prop where
  journal : ∃ log, JournalInv cfg True (Folds cfg) n log
  tenant : n.actor.actorTenant = spawnTenant cfg
  folds : ∃ state, stateOf cfg (envelopesOf n.committed) = .ok state
  requested : ∀ w ∈ n.writer, ∃ state, stateOf cfg (envelopesOf n.committed ++ w.req.envelopes) = .ok state
  own_requested : ∀ w ∈ n.writer, ∀ e ∈ w.req.envelopes, e.tenantMetadata = ownMetadata cfg
  own_buffered : ∀ e ∈ n.actor.batchBuffer, e.tenantMetadata = ownMetadata cfg
  own : ∀ e ∈ envelopesOf n.committed, e.tenantMetadata = ownMetadata cfg
  readsBack : ∀ e ∈ envelopesOf n.committed, ReadsBack cfg e
  told : ∀ r ∈ n.snapshots, Depicts cfg (envelopesOf n.committed) r

variable {cfg} {n : Node S C}

/-! ### The tenant of an actor and of its events -/

variable {a : Actor S}

theorem establishActorTenant_of_bound (tc : TenantContext)
    (h : cfg.tenantAware = true → a.actorTenant ≠ .unset) : establishActorTenant cfg a tc = a := by
  unfold establishActorTenant
  split
  · rename_i hunset
    exact absurd hunset.2 (h hunset.1)
  · rfl

theorem startFlushTimer_actorTenant (a : Actor S) (turn : Turn) :
    (startFlushTimer a turn).1.actorTenant = a.actorTenant := by
  unfold startFlushTimer
  split <;> rfl

theorem appendToBatch_actorTenant (a : Actor S) (ctx : Ctx) (envelopes : List Event) (state : S)
    (counter : ℕ) (turn : Turn) :
    (appendToBatch cfg a ctx envelopes state counter turn).actorTenant = a.actorTenant := by
  unfold appendToBatch
  split <;> rfl

variable {ctx : Ctx} {cmd : C} {turn : Turn}

theorem processCommandAndReply_actorTenant (h : cfg.tenantAware = true → a.actorTenant ≠ .unset) :
    (processCommandAndReply cfg a ctx cmd turn).1.actorTenant = a.actorTenant := by
  unfold processCommandAndReply
  simp only [establishActorTenant_of_bound _ h, sendStateReply]
  repeat' split
  all_goals rfl

theorem processAndBatch_actorTenant (h : cfg.tenantAware = true → a.actorTenant ≠ .unset) :
    (processAndBatch cfg a ctx cmd turn).1.actorTenant = a.actorTenant := by
  unfold processAndBatch
  simp only [flushBatch_eq, sendStateReply]
  repeat' split
  all_goals simp only [startFlushTimer_actorTenant, appendToBatch_actorTenant]
  all_goals first
    | rfl
    | rw [establishActorTenant_of_bound]; exact h

theorem receive_actorTenant {a : Actor S} (msg : Message C) (turn : Turn)
    (h : cfg.tenantAware = true → a.actorTenant ≠ .unset) :
    (receive cfg a msg turn).1.actorTenant = a.actorTenant := by
  cases msg with
  | getState id ctx =>
    simp only [receive, handleGetStateCommand, getStateAndReply, sendStateReply]
    repeat' split
    all_goals rfl
  | batchFlushTick =>
    simp only [receive, handleBatchFlushTick, flushBatch_eq]
    split <;> rfl
  | persistEventsResponse err =>
    simp only [receive, handleBatchPersistResponse, handleDirectPersistResponse, applyConfirmedState]
    repeat' split
    all_goals rfl
  | command id ctx cmd =>
    simp only [receive, handleCommandBatched, replyFromBatch, replyDirect, resetBatch, sendStateReply]
    repeat' split
    all_goals first
      | rfl
      | exact processAndBatch_actorTenant h
      | exact processAndBatch_actorTenant hp
      | exact processCommandAndReply_actorTenant h

variable {tc : TenantContext}

theorem marshalEvent_tenantMetadata {event : E} {seqNr : ℕ} {ts : ℤ}
    {envelope : Event} (h : marshalEvent cfg event tc seqNr ts = .ok envelope) :
    envelope.tenantMetadata = if cfg.tenantAware then Tenancy.marshalMetadata tc else [] := by
  unfold marshalEvent at h
  cases henc : cfg.encryptor with
  | none =>
    simp only [henc, Except.ok.injEq] at h
    rw [← h]
  | some enc =>
    simp only [henc] at h
    split at h
    · simp at h
    · rw [← Except.ok.inj h]

variable {state : S}

theorem buildEnvelopes_tenantMetadata {now : ℤ} {events : List E}
    {counter : ℕ} {r : List Event × S × ℕ} (h : buildEnvelopes cfg tc now events state counter = .ok r) :
    ∀ e ∈ r.1, e.tenantMetadata = if cfg.tenantAware then Tenancy.marshalMetadata tc else [] := by
  induction events generalizing state counter r with
  | nil =>
    simp only [buildEnvelopes, Except.ok.injEq] at h
    subst h
    simp
  | cons event events ih =>
    obtain ⟨next, envelope, rest, -, he, hr, hcons⟩ := buildEnvelopes_cons h
    rw [hcons]
    exact List.forall_mem_cons.mpr ⟨marshalEvent_tenantMetadata he, ih hr⟩

theorem Admitted.tenant (h : Admitted cfg a ctx turn tc) (ha : cfg.tenantAware = true)
    (hne : a.actorTenant ≠ .unset) :
    tc = a.actorTenant := by
  have hgate := h.1
  simp only [tenantGate, Tenancy.gate, ha, if_true, hne, if_false] at hgate
  split at hgate
  · simp at hgate
  · obtain ⟨_, hv, rfl⟩ := map_eq_ok.mp hgate
    unfold Tenancy.verifyUnchanged at hv
    split at hv
    · rename_i heq
      exact heq.symm
    · simp at hv

theorem Produces.own {fromState : S} {fromCounter : ℕ} {envelopes : List Event} {counter : ℕ}
    (hs : Spawned cfg) (ht : a.actorTenant = spawnTenant cfg) (hadm : Admitted cfg a ctx turn tc)
    (h : Produces cfg ctx cmd turn.now tc fromState fromCounter envelopes state counter) :
    ∀ e ∈ envelopes, e.tenantMetadata = ownMetadata cfg := by
  obtain ⟨event, events, -, hb⟩ := h.built
  intro e he
  rw [buildEnvelopes_tenantMetadata hb e he, ownMetadata]
  cases ha : cfg.tenantAware with
  | false => rfl
  | true =>
    have hne := hs.tenant_ne_unset ha
    rw [← ht] at hne
    rw [hadm.tenant ha hne, ht]

theorem pipeTo_not_mem_stopped (a : Actor S) (req : PersistEventsRequest) : .pipeTo req ∉ stopped a := by
  unfold stopped
  split <;> simp

theorem Reaction.own {a' : Actor S} {msg : Message C} {effects : List Effect}
    (hs : Spawned cfg) (ht : a.actorTenant = spawnTenant cfg)
    (hb : ∀ e ∈ a.batchBuffer, e.tenantMetadata = ownMetadata cfg)
    (hre : Reaction cfg a msg turn a' effects) : (∀ e ∈ a'.batchBuffer, e.tenantMetadata = ownMetadata cfg) ∧
      ∀ req, .pipeTo req ∈ effects → ∀ e ∈ req.envelopes, e.tenantMetadata = ownMetadata cfg := by
  cases hre
  case persist hgate h =>
    refine ⟨hb, fun req hreq => ?_⟩
    simp only [List.mem_cons, reduceCtorEq, Effect.pipeTo.injEq, List.not_mem_nil, or_false, false_or] at hreq
    subst hreq
    exact h.own hs ht hgate
  case fold hgate h ht' =>
    refine ⟨List.forall_mem_append.mpr ⟨hb, h.own hs ht hgate⟩, fun req hreq => ?_⟩
    rcases ht' with ⟨-, rfl⟩ | ⟨-, -, rfl⟩ <;> simp at hreq
  case foldFlush hgate h =>
    have hall := List.forall_mem_append.mpr ⟨hb, h.own hs ht hgate⟩
    refine ⟨hall, fun req hreq => ?_⟩
    simp only [List.mem_append, List.mem_cons, List.not_mem_nil, or_false, reduceCtorEq,
      pipeTo_not_mem_stopped, false_or, Effect.pipeTo.injEq] at hreq
    subst hreq
    exact hall
  case tickFlush =>
    refine ⟨hb, fun req hreq => ?_⟩
    rw [List.mem_singleton, Effect.pipeTo.injEq] at hreq
    subst hreq
    exact hb
  case gateFlush =>
    refine ⟨hb, fun req hreq => ?_⟩
    simp only [List.mem_append, List.mem_cons, List.not_mem_nil, or_false, reduceCtorEq,
      pipeTo_not_mem_stopped, false_or, Effect.pipeTo.injEq] at hreq
    subst hreq
    exact hb
  case drainLast => exact ⟨by simp [resetBatch], fun req hreq => by split at hreq <;> simp at hreq⟩
  all_goals exact ⟨hb, fun req hreq => by simp at hreq⟩

/-! ### The requests a turn sends -/

theorem performAll_requests (msg : Message C) (place : List Bool) (n : Node S C) (effects : List Effect) :
    ∃ ws, (performAll msg place n effects).writer = n.writer ++ ws ∧
      (performAll msg place n effects).asks = n.asks ++ ws ∧ ∀ w ∈ ws, .pipeTo w.req ∈ effects := by
  induction effects generalizing n with
  | nil => exact ⟨[], by simp⟩
  | cons e effects ih =>
    obtain ⟨ws, hw, ha, hmem⟩ := ih (perform msg place n e)
    rw [performAll_cons, hw, ha]
    have hlater : ∀ w ∈ ws, .pipeTo w.req ∈ e :: effects :=
      fun w hw => List.mem_cons_of_mem e (hmem w hw)
    cases e with
    | pipeTo req =>
      refine ⟨⟨n.asked, req, n.staging⟩ :: ws, by simp [perform], by simp [perform], ?_⟩
      exact List.forall_mem_cons.mpr ⟨List.mem_cons_self, hlater⟩
    | handle | stage | response | stash | unstashAll | tellSnapshot | startTimer | stopTimer
      | shutdown => exact ⟨ws, rfl, rfl, hlater⟩

variable {J : List Event}

theorem depicts_snapshotAndRetain (hlen : J.length = a.eventsCounter) (hfold : stateOf cfg J = .ok a.currentState)
    (hcache : a.cachedStateAny = some (cfg.codec.newState a.currentState))
    (ht : a.actorTenant = spawnTenant cfg) (hw : cfg.snapshotsWriter = true)
    (hi : 0 < cfg.snapshotInterval) : Depicts cfg J (snapshotAndRetain cfg a) where
  le_length := Nat.le_of_eq hlen.symm
  state := ⟨a.currentState, by
      have hall : J.take (snapshotAndRetain cfg a).snapshot.sequenceNumber = J :=
        List.take_of_length_le (Nat.le_of_eq hlen)
      rw [hall]
      exact hfold, by simp [snapshotAndRetain, newSnapshotEnvelope, currentStateAny, hcache]⟩
  plain := rfl
  persistenceId := rfl
  tenantMetadata := by simp [snapshotAndRetain, newSnapshotEnvelope, ht, ownMetadata]
  scope := rfl
  retention := by
    intro g hg
    obtain ⟨policy, -, rfl⟩ := Option.map_eq_some_iff.mp hg
    exact ⟨rfl, hi⟩
  configured := hw

/-! ### Steps of the node -/

theorem Stage.awaited_folds {ambiguous : Prop} {v : View S} {w : Write}
    (h : Stage cfg ambiguous (Folds cfg) v J) (hw : w ∈ v.writer) (ha : w ∈ v.asks) :
    ∃ state, stateOf cfg (J ++ w.req.envelopes) = .ok state := by
  cases h with
  | waiting _ _ hone _ _ hs hx _ hpend =>
    rw [hone, List.mem_singleton] at hw
    subst hw
    obtain ⟨state, -, hext⟩ := hpend
    rw [hx]
    exact ⟨state, folds_append _ _ _ _ hs.tracks hext.replays⟩
  | ready _ hnil | doomed _ _ hnil | confirmed _ _ _ hnil | rejected _ _ _ hnil | draining _ _ hnil =>
    simp [hnil] at ha
  | lost _ _ _ hnil => simp [hnil] at hw

theorem NodeInv.tenant_bound (hs : Spawned cfg) (h : NodeInv cfg n) :
    cfg.tenantAware = true → n.actor.actorTenant ≠ .unset := by
  intro ha
  rw [h.tenant]
  exact hs.tenant_ne_unset ha

theorem deliver_nodeInv (hs : Spawned cfg) (turn : Turn) (place : List Bool) (h : NodeInv cfg n)
    (hq : ∀ log, Persistence.journal log = envelopesOf n.committed → QuietStop cfg n log) :
    NodeInv cfg (deliver cfg turn place n) := by
  cases hm : n.mailbox with
  | nil =>
    rw [deliver_nil turn place hm]
    exact h
  | cons msg rest =>
    obtain ⟨log, hj⟩ := h.journal
    have hj' := deliver_journalInv turn place folds_append hj fun _ => hq log hj.ledger
    have hre : Reaction cfg n.actor msg { turn with timer := n.armed } _ _ :=
      receive_reaction hj.phaseOk msg
    have htenant := receive_actorTenant msg { turn with timer := n.armed } (h.tenant_bound hs)
    obtain ⟨hbuffer, hpiped⟩ := hre.own hs h.tenant h.own_buffered
    simp only [deliver, hm] at hj' ⊢
    generalize receive cfg n.actor msg { turn with timer := n.armed } = r at hre htenant hbuffer hpiped hj' ⊢
    generalize n.computed ++ ownReplies n.actor.phase msg r.2 = computed at hj' ⊢
    have hsnapshots := hre.snapshots (n := { n with computed := computed }) rest place
    obtain ⟨ws, hw, ha, hmem⟩ := performAll_requests msg place
      { n with actor := r.1, mailbox := rest, computed := computed } r.2
    have hcommitted := (performAll_frame msg place
      { n with actor := r.1, mailbox := rest, computed := computed } r.2).1
    have hactor := performAll_actor msg place
      { n with actor := r.1, mailbox := rest, computed := computed } r.2
    generalize performAll msg place
      { n with actor := r.1, mailbox := rest, computed := computed } r.2 = n' at *
    refine ⟨⟨log, hj'⟩, ?_, ?_, ?_, ?_, ?_, ?_, ?_, ?_⟩
    · rw [hactor, htenant, h.tenant]
    · rw [hcommitted]
      exact h.folds
    · intro w hmem'
      by_cases hold : w ∈ n.writer
      · rw [hcommitted]
        exact h.requested w hold
      · rw [← hj'.ledger]
        have hnew : w ∈ n'.asks := by
          rw [hw] at hmem'
          rw [ha]
          exact List.mem_append_right _ ((List.mem_append.mp hmem').resolve_left hold)
        exact hj'.stage.awaited_folds hmem' hnew
    · rw [hw]
      exact List.forall_mem_append.mpr ⟨h.own_requested, fun w hws => hpiped w.req (hmem w hws)⟩
    · rw [hactor]
      exact hbuffer
    · rw [hcommitted]
      exact h.own
    · rw [hcommitted]
      exact h.readsBack
    · intro req hreq
      rw [hcommitted]
      rcases hsnapshots req hreq with hreq | ⟨rfl, rfl, ⟨hw, hi⟩, hcache, hstate, hcounter, htenant'⟩
      · exact h.told req hreq
      · obtain ⟨-, -, -, -, ⟨state, hpending, hext⟩, known, hsync, hjournal⟩ := hj.stage.of_success hm
        have hsync' : InSync (Folds cfg) state n.view.pendingCounter (envelopesOf n.committed) := by
          rw [← hj.ledger, hjournal]
          exact hsync.append folds_append hext
        have hpending' : n.view.pendingState.getD n.actor.currentState = state := by rw [hpending]; rfl
        refine depicts_snapshotAndRetain ?_ ?_ hcache (htenant'.trans h.tenant) hw hi
        · rw [hcounter]
          exact hsync'.length
        · rw [hstate]
          exact hpending' ▸ hsync'.tracks

theorem exists_log (h : Numbered (·.sequenceNumber) 0 J) : ∃ log, Persistence.journal log = J := by
  refine ⟨some ⟨J.length, J, ?_, ?_⟩, rfl⟩
  · exact List.nodup_iff_pairwise_ne.mpr (List.pairwise_map.mpr (h.pairwise.imp Nat.ne_of_lt))
  · intro e he
    simpa using (h.bounds e he).2

variable {n' : Node S C}

theorem WriteResult.frame {ambiguous : Prop} {w : Write} {J' : List Event} (h : WriteResult ambiguous w n J J' n') :
    n'.actor = n.actor ∧ n'.writer = [] ∧ n'.snapshots = n.snapshots ∧
      (J' = J ++ w.req.envelopes ∨ J' = J ∧ n'.committed = n.committed) := by
  have hask (err : Option Err) (n : Node S C) : (answerAsk w err n).writer = n.writer ∧
      (answerAsk w err n).snapshots = n.snapshots := by
    unfold answerAsk
    split <;> exact ⟨rfl, rfl⟩
  cases h with
  | accepted hj => exact ⟨(answerAsk_frame _ _ _).1, (hask _ _).1, (hask _ _).2, .inl hj⟩
  | unreported _ hj => exact ⟨rfl, rfl, rfl, .inl hj⟩
  | refused err hj =>
    exact ⟨(answerAsk_frame _ _ _).1, (hask _ _).1, (hask _ _).2, .inr ⟨hj, (answerAsk_frame _ _ _).2.2.2.2⟩⟩
  | dropped _ hj => exact ⟨rfl, rfl, rfl, .inr ⟨hj, rfl⟩⟩

theorem NodeInv.write {w : Write} {J' : List Event} {n' : Node S C} (hs : Spawned cfg)
    (h : NodeInv cfg n) (hw : n.writer = [w])
    (hnumbered : Numbered (·.sequenceNumber) 0 (envelopesOf n.committed ++ w.req.envelopes))
    (hu : ∀ e ∈ w.req.envelopes, Unadapted cfg e) (hres : WriteResult True w n (envelopesOf n.committed) J' n') :
    NodeInv cfg n' ∧ envelopesOf n'.committed = J' := by
  obtain ⟨log, hj⟩ := h.journal
  obtain ⟨hactor, hwriter, hsnapshots, hcase⟩ := hres.frame
  have hJ : Numbered (·.sequenceNumber) 0 J' := by
    rcases hcase with rfl | ⟨rfl, -⟩
    · exact hnumbered
    · exact (numbered_append.mp hnumbered).1
  obtain ⟨log', hlog'⟩ := exists_log hJ
  rw [← hj.ledger, ← hlog'] at hres
  have hj' := hres.journalInv hw hj
  have hcommitted : envelopesOf n'.committed = J' := hj'.ledger.symm.trans hlog'
  have hnone : ∀ w ∈ n'.writer, False := by simp [hwriter]
  have hmem : w ∈ n.writer := by simp [hw]
  refine ⟨?_, hcommitted⟩
  rcases hcase with hJ' | ⟨hJ', -⟩
  · refine ⟨⟨log', hj'⟩, hactor ▸ h.tenant, ?_, fun w hw => (hnone w hw).elim,
      fun w hw => (hnone w hw).elim, hactor ▸ h.own_buffered, ?_, ?_, ?_⟩ <;>
      rw [hcommitted, hJ']
    · exact h.requested w hmem
    · exact List.forall_mem_append.mpr ⟨h.own, h.own_requested w hmem⟩
    · refine List.forall_mem_append.mpr ⟨h.readsBack, fun e he => ?_⟩
      exact readsBack_of_unadapted hs (h.own_requested w hmem e he) (hu e he)
    · intro r hr
      exact (h.told r (hsnapshots ▸ hr)).append _
  · refine ⟨⟨log', hj'⟩, hactor ▸ h.tenant, ?_, fun w hw => (hnone w hw).elim,
      fun w hw => (hnone w hw).elim, hactor ▸ h.own_buffered, ?_, ?_, ?_⟩ <;>
      rw [hcommitted, hJ']
    · exact h.folds
    · exact h.own
    · exact h.readsBack
    · exact hsnapshots ▸ h.told

theorem NodeInv.of_frame (h : NodeInv cfg n)
    (hj : ∃ log, JournalInv cfg True (Folds cfg) n' log) (ha : n'.actor = n.actor)
    (hw : n'.writer = n.writer) (hc : n'.committed = n.committed) (hs : n'.snapshots = n.snapshots) :
    NodeInv cfg n' := by
  obtain ⟨-, htenant, hfolds, hreq, hown, hbuf, hown', hback, htold⟩ := h
  rw [← ha] at htenant hbuf
  rw [← hc] at hfolds hown' hback
  rw [← hw] at hreq hown
  rw [← hc] at hreq
  rw [← hs, ← hc] at htold
  exact ⟨hj, htenant, hfolds, hreq, hown, hbuf, hown', hback, htold⟩

def Label.quiet : Label C → Bool
  | .deliver _ _ | .write _ | .restart _ => false
  | _ => true

theorem quiet_frame (store : EventsStore) (log : Option EventLog) {l : Label C} (hl : l.quiet = true) :
    (nodeStep cfg store n log l).2 = log ∧ (nodeStep cfg store n log l).1.actor = n.actor ∧
      (nodeStep cfg store n log l).1.writer = n.writer ∧ (nodeStep cfg store n log l).1.committed = n.committed ∧
      (nodeStep cfg store n log l).1.snapshots = n.snapshots := by
  cases l with
  | command | getState | flushTick => exact ⟨rfl, rfl, rfl, rfl, rfl⟩
  | timeout text =>
    simp only [nodeStep, timeoutAsk, answerAsk]
    repeat' split
    all_goals exact ⟨trivial, rfl, rfl, rfl, rfl⟩
  | fire timer =>
    simp only [nodeStep, fireTimer]
    split <;> exact ⟨trivial, rfl, rfl, rfl, rfl⟩
  | deliver | write | restart => simp [Label.quiet] at hl

theorem quiet_nodeInv (store : EventsStore) (log : Option EventLog) {l : Label C} (hl : l.quiet = true)
    (h : NodeInv cfg n) : NodeInv cfg (nodeStep cfg store n log l).1 := by
  obtain ⟨full, hj⟩ := h.journal
  obtain ⟨-, ha, hw, hc, hs⟩ := quiet_frame store log hl
  refine h.of_frame ⟨full, ?_⟩ ha hw hc hs
  have hok : LabelOk cfg True (Folds cfg) store n full l := by
    cases l with
    | command | getState | flushTick | timeout | fire => trivial
    | deliver | write | restart => simp [Label.quiet] at hl
  have hstep := nodeStep_journalInv store folds_append hj l hok
  rw [(quiet_frame store full hl).1] at hstep
  -- the record has no part in such a step
  have hsame : (nodeStep cfg store n full l).1 = (nodeStep cfg store n log l).1 := by
    cases l with
    | command | getState | flushTick | timeout | fire => rfl
    | deliver | write | restart => simp [Label.quiet] at hl
  rwa [hsame] at hstep

/-! ### What the children keep -/

def Covered (snapshots : List Snapshot) (k : ℕ) : Prop :=
  k = 0 ∨ ∃ x ∈ snapshots, k ≤ x.sequenceNumber

structure RecordsInv (cfg : Config S C E) (s : Retained S C) : Prop where
  revision : storageRevision s.log = s.persisted.length
  cut : ∃ cut, CutAt cut s.persisted s.log ∧ Covered s.snapshots cut
  stored : ∀ x ∈ s.snapshots, ∃ r ∈ s.node.snapshots, encryptSnapshotState cfg r.snapshot = .ok x
  granted : ∀ g ∈ s.granted, 0 < g.snapshotInterval ∧ Covered s.snapshots g.eventsCounter

variable {k : ℕ}

theorem Covered.mono {snapshots : List Snapshot} {k' : ℕ} (h : Covered snapshots k) (hle : k' ≤ k) :
    Covered snapshots k' := by
  rcases h with rfl | ⟨x, hx, hk⟩
  · exact .inl (Nat.le_zero.mp hle)
  · exact .inr ⟨x, hx, Nat.le_trans hle hk⟩

theorem Covered.max {snapshots : List Snapshot} {j : ℕ} (hj : Covered snapshots j)
    (hk : Covered snapshots k) : Covered snapshots (max j k) := by
  rcases Nat.le_total j k with h | h
  · rwa [Nat.max_eq_right h]
  · rwa [Nat.max_eq_left h]

theorem Covered.write {snapshotStore : SnapshotStore} {scope : Scope} {old new : List Snapshot}
    {x : Snapshot} {k : ℕ} (hc : Covered old k)
    (h : snapshotStore.writeSnapshot scope old x = .ok new) : Covered new k := by
  rcases hc with rfl | ⟨y, hy, hk⟩
  · exact .inl rfl
  · by_cases hsame : y.sequenceNumber = x.sequenceNumber
    · exact .inr ⟨x, (snapshotStore.writes _ _ _ _ h x).mpr (.inl rfl), hsame ▸ hk⟩
    · exact .inr ⟨y, (snapshotStore.writes _ _ _ _ h y).mpr (.inr ⟨hy, hsame⟩), hk⟩

variable {scope : Scope} {new : List Snapshot}

theorem Covered.delete {snapshotStore : SnapshotStore} {old : List Snapshot}
    {upTo top : ℕ} (hc : Covered old k) (h : snapshotStore.deleteSnapshots scope old upTo = .ok new)
    (htop : Covered old top) (hlt : upTo < top) : Covered new k := by
  have hmem := snapshotStore.deletes _ _ _ _ h
  rcases hc with rfl | ⟨x, hx, hk⟩
  · exact .inl rfl
  · by_cases hkeep : upTo < x.sequenceNumber
    · exact .inr ⟨x, (hmem x).mpr ⟨hx, hkeep⟩, hk⟩
    · rcases htop with rfl | ⟨y, hy, htop⟩
      · omega
      · exact .inr ⟨y, (hmem y).mpr ⟨hy, by omega⟩, by omega⟩

variable {log log' : Option EventLog}

theorem CutAt.delete {cut upTo : ℕ} (h : CutAt cut J log)
    (hd : Persistence.journal log' = (Persistence.journal log).filter fun e => upTo < e.sequenceNumber) :
    CutAt (Nat.max cut upTo) J log' := by
  rw [CutAt, hd, h, List.filter_filter]
  apply List.filter_congr
  intro e _
  rw [← Bool.decide_and, decide_eq_decide]
  change upTo < e.sequenceNumber ∧ cut < e.sequenceNumber ↔ max cut upTo < e.sequenceNumber
  omega

theorem deleteUpTo_le (req : ApplyRetentionRequest) : deleteUpTo req ≤ req.eventsCounter := by
  unfold deleteUpTo
  split <;> omega

theorem retainEvents_cut {store : RetainingStore} {req : ApplyRetentionRequest} {cut : ℕ}
    {J : List Event} {log : Option EventLog} (h : CutAt cut J log) :
    storageRevision (retainEvents store req log) = storageRevision log ∧
      ∃ cut', CutAt cut' J (retainEvents store req log) ∧ (cut' = cut ∨ cut' = max cut (deleteUpTo req)) := by
  unfold retainEvents
  split
  · split
    · rename_i log' hdelete
      obtain ⟨hrev, hjournal⟩ := store.deletes _ _ _ _ hdelete
      exact ⟨hrev, _, h.delete hjournal, .inr rfl⟩
    · exact ⟨rfl, cut, h, .inl rfl⟩
  · exact ⟨rfl, cut, h, .inl rfl⟩

variable {store : RetainingStore} {snapshotStore : SnapshotStore} {s : Retained S C}

theorem handlePersistSnapshot_ok {req : PersistSnapshotRequest} {old : List Snapshot}
    (h : handlePersistSnapshot cfg snapshotStore req old = .ok new) :
    ∃ x, encryptSnapshotState cfg req.snapshot = .ok x ∧ snapshotStore.writeSnapshot req.scope old x = .ok new := by
  simpa only [handlePersistSnapshot, bind_eq_ok] using h

theorem RecordsInv.snapshot {req : PersistSnapshotRequest} (h : RecordsInv cfg s) (hreq : req ∈ s.node.snapshots)
    (hok : handlePersistSnapshot cfg snapshotStore req s.snapshots = .ok new) :
    RecordsInv cfg { s with snapshots := new } := by
  obtain ⟨x, henc, hwrite⟩ := handlePersistSnapshot_ok hok
  obtain ⟨cut, hcut, hcovered⟩ := h.cut
  refine ⟨h.revision, ⟨cut, hcut, hcovered.write hwrite⟩, ?_, ?_⟩
  · intro y hy
    rcases (snapshotStore.writes _ _ _ _ hwrite y).mp hy with rfl | ⟨hy, -⟩
    · exact ⟨req, hreq, henc⟩
    · exact h.stored y hy
  · intro g hg
    exact ⟨(h.granted g hg).1, (h.granted g hg).2.write hwrite⟩

theorem RecordsInv.grant {req : PersistSnapshotRequest} {new : List Snapshot} (h : RecordsInv cfg s)
    (hn : NodeInv cfg s.node) (hreq : req ∈ s.node.snapshots)
    (hok : handlePersistSnapshot cfg snapshotStore req s.snapshots = .ok new) :
    RecordsInv cfg { s with snapshots := new, granted := s.granted ++ req.retention.toList } := by
  have hinv := h.snapshot hreq hok
  obtain ⟨x, henc, hwrite⟩ := handlePersistSnapshot_ok hok
  refine ⟨hinv.revision, hinv.cut, hinv.stored, List.forall_mem_append.mpr ⟨hinv.granted, ?_⟩⟩
  intro g hg
  obtain ⟨hcounter, hinterval⟩ := (hn.told req hreq).retention g (Option.mem_toList.mp hg)
  refine ⟨hinterval, .inr ⟨x, (snapshotStore.writes _ _ _ _ hwrite x).mpr (.inl rfl), ?_⟩⟩
  rw [hcounter, encryptSnapshotState_sequenceNumber henc]

variable {req : ApplyRetentionRequest}

theorem RecordsInv.eventsRetained (h : RecordsInv cfg s)
    (hreq : req ∈ s.granted) : RecordsInv cfg { s with log := retainEvents store req s.log } := by
  obtain ⟨cut, hcut, hcovered⟩ := h.cut
  obtain ⟨hrev, cut', hcut', hcase⟩ := retainEvents_cut hcut
  refine ⟨hrev.trans h.revision, ⟨cut', hcut', ?_⟩, h.stored, h.granted⟩
  rcases hcase with rfl | rfl
  · exact hcovered
  · exact hcovered.max ((h.granted req hreq).2.mono (deleteUpTo_le req))

theorem RecordsInv.snapshotsRetained (h : RecordsInv cfg s) (hreq : req ∈ s.granted) :
    RecordsInv cfg { s with snapshots := retainSnapshots snapshotStore req s.snapshots } := by
  obtain ⟨hinterval, htop⟩ := h.granted req hreq
  unfold retainSnapshots
  split
  · split
    · rename_i hcond new hdelete
      have hlt : req.eventsCounter - req.snapshotInterval < req.eventsCounter := by omega
      obtain ⟨cut, hcut, hcovered⟩ := h.cut
      refine ⟨h.revision, ⟨cut, hcut, hcovered.delete hdelete htop hlt⟩, ?_, ?_⟩
      · intro x hx
        exact h.stored x ((snapshotStore.deletes _ _ _ _ hdelete x).mp hx).1
      · intro g hg
        exact ⟨(h.granted g hg).1, (h.granted g hg).2.delete hdelete htop hlt⟩
    · exact h
  · exact h

theorem RecordsInv.retain (h : RecordsInv cfg s) (hreq : req ∈ s.granted)
    (events snapshots : Bool) : RecordsInv cfg { s with
      log := if events then retainEvents store req s.log else s.log
      snapshots := if snapshots then retainSnapshots snapshotStore req s.snapshots else s.snapshots } := by
  have hevents : RecordsInv cfg
      { s with log := if events then retainEvents store req s.log else s.log } := by
    cases events with
    | true => exact h.eventsRetained hreq
    | false => exact h
  cases snapshots with
  | true => exact hevents.snapshotsRetained hreq
  | false => exact hevents

theorem childStep_node (l : ChildLabel) : (childStep cfg store snapshotStore s l).node = s.node := by
  unfold childStep
  repeat' split
  all_goals rfl

theorem childStep_recordsInv (hn : NodeInv cfg s.node) (h : RecordsInv cfg s) (l : ChildLabel) :
    RecordsInv cfg (childStep cfg store snapshotStore s l) := by
  cases l with
  | snapshot i outcome =>
    simp only [childStep]
    cases hreq : s.node.snapshots[i]? with
    | none => exact h
    | some req =>
      have hmem := List.mem_of_getElem? hreq
      dsimp only
      split
      · rename_i hok
        exact h.grant hn hmem hok
      · rename_i hok
        exact h.snapshot hmem hok
      · exact h
  | retain i events snapshots =>
    simp only [childStep]
    cases hreq : s.granted[i]? with
    | none => exact h
    | some req => exact h.retain (List.mem_of_getElem? hreq) events snapshots

theorem RecordsInv.cut_le (hn : NodeInv cfg s.node) (h : RecordsInv cfg s) :
    ∃ cut ≤ s.persisted.length, CutAt cut s.persisted s.log ∧ Covered s.snapshots cut := by
  obtain ⟨cut, hcut, hcovered⟩ := h.cut
  refine ⟨cut, ?_, hcut, hcovered⟩
  rcases hcovered with rfl | ⟨x, hx, hle⟩
  · exact Nat.zero_le _
  · obtain ⟨r, hr, henc⟩ := h.stored x hx
    have hnum := encryptSnapshotState_sequenceNumber henc
    have htold : r.snapshot.sequenceNumber ≤ s.persisted.length := (hn.told r hr).le_length
    omega

theorem CutAt.append {cut : ℕ} {events : List Event} {id : String} {p : WritePrecondition}
    (hc : CutAt cut J log) (hle : cut ≤ J.length) (hn : Numbered (·.sequenceNumber) 0 (J ++ events))
    (h : store.writeEvents scope id log events p = .ok log') : CutAt cut (J ++ events) log' := by
  have hsub : (Persistence.journal log ++ events).Sublist (J ++ events) := by
    rw [hc]
    exact List.filter_sublist.append_right events
  have hfresh : Fresh log events :=
    (List.nodup_iff_pairwise_ne.mpr
      (List.pairwise_map.mpr (hn.pairwise.imp Nat.ne_of_lt))).sublist (hsub.map _)
  have hnew : ∀ e ∈ events, cut < e.sequenceNumber := by
    intro e he
    have hbounds := (numbered_append.mp hn).2.bounds e he
    omega
  rw [CutAt, store.appends _ _ _ _ _ _ h hfresh, hc, List.filter_append,
    List.filter_eq_self.mpr fun e he => decide_eq_true (hnew e he)]

theorem revision_append {events : List Event} {id : String}
    {p : WritePrecondition} (hr : storageRevision log = J.length) (hn : Numbered (·.sequenceNumber) 0 (J ++ events))
    (h : store.writeEvents scope id log events p = .ok log') : storageRevision log' = (J ++ events).length := by
  have hnew : Numbered (·.sequenceNumber) J.length events := by
    simpa using (numbered_append.mp hn).2
  rw [store.raises _ _ _ _ _ _ h, hr, ← Testkit.foldl_raiseRevision_eq_max,
    Testkit.foldl_raiseRevision hnew, List.length_append]

theorem write_retained (hs : Spawned cfg) (outcome : Outcome) (hn : NodeInv cfg s.node)
    (h : RecordsInv cfg s) (hu : ∀ w ∈ s.node.writer, ∀ e ∈ w.req.envelopes, Unadapted cfg e) :
    NodeInv cfg (writeNext cfg store.toEventsStore outcome s.node s.log).1 ∧ RecordsInv cfg { s with
        node := (writeNext cfg store.toEventsStore outcome s.node s.log).1
        log := (writeNext cfg store.toEventsStore outcome s.node s.log).2 } := by
  cases hw : s.node.writer with
  | nil =>
    rw [writeNext_nil store.toEventsStore outcome s.log hw]
    exact ⟨hn, h⟩
  | cons w later =>
    obtain ⟨full, hj⟩ := hn.journal
    obtain ⟨rfl, hnumbered⟩ := hj.stage.head_write hw
    rw [hj.ledger] at hnumbered
    obtain ⟨J', hres, hcase⟩ := writeNext_decides store.toEventsStore outcome s.log (fun _ => trivial) hw
      (envelopesOf s.node.committed)
    obtain ⟨hn', hcommitted⟩ := hn.write hs hw hnumbered (hu w (by simp [hw])) hres
    have hsnapshots := hres.frame.2.2.1
    generalize writeNext cfg store.toEventsStore outcome s.node s.log = r at hn' hcommitted hsnapshots hcase ⊢
    refine ⟨hn', ?_, ?_, hsnapshots.symm ▸ h.stored, h.granted⟩
    · rw [Retained.persisted, hcommitted]
      rcases hcase with ⟨rfl, hok⟩ | ⟨rfl, hsame⟩
      · exact revision_append h.revision hnumbered hok
      · exact hsame ▸ h.revision
    · rw [Retained.persisted, hcommitted]
      rcases hcase with ⟨rfl, hok⟩ | ⟨rfl, hsame⟩
      · obtain ⟨cut, hle, hcut, hcovered⟩ := h.cut_le hn
        exact ⟨cut, hcut.append hle hnumbered hok, hcovered⟩
      · exact hsame ▸ h.cut

theorem RecordsInv.of_node (h : RecordsInv cfg s)
    (hc : n'.committed = s.node.committed) (hs : s.node.snapshots ⊆ n'.snapshots) :
    RecordsInv cfg { s with node := n' } := by
  have hpersisted : Retained.persisted { s with node := n' } = s.persisted := by
    rw [Retained.persisted, Retained.persisted, hc]
  refine ⟨hpersisted.symm ▸ h.revision, hpersisted.symm ▸ h.cut, ?_, h.granted⟩
  intro x hx
  obtain ⟨r, hr, henc⟩ := h.stored x hx
  exact ⟨r, hs hr, henc⟩

/-! ### Recovery -/

structure LateInv (cfg : Config S C E) (k : ℕ) (s₀ s : Retained S C) : Prop where
  node : s.node = s₀.node
  granted : s.granted = s₀.granted
  records : RecordsInv cfg s
  cut : ∃ cut ≤ k, CutAt cut s.persisted s.log

theorem lateStep_lateInv {s₀ : Retained S C} (hn : NodeInv cfg s₀.node)
    (hk : ∀ g ∈ s₀.granted, g.eventsCounter ≤ k) (h : LateInv cfg k s₀ s) (l : ChildLabel) :
    LateInv cfg k s₀ (lateStep cfg store snapshotStore s l) := by
  have hnode : (lateStep cfg store snapshotStore s l).node = s.node := childStep_node l
  have hrecords : RecordsInv cfg (lateStep cfg store snapshotStore s l) := by
    have hinv := @childStep_recordsInv S C E cfg store snapshotStore s (h.node ▸ hn) h.records l
    refine ⟨hinv.revision, hinv.cut, hinv.stored, fun g hg => hinv.granted g ?_⟩
    cases l with
    | snapshot i outcome =>
      simp only [childStep]
      repeat' split
      all_goals first
        | exact hg
        | exact List.mem_append_left _ hg
    | retain i events snapshots =>
      simp only [childStep]
      split <;> exact hg
  refine ⟨hnode.trans h.node, h.granted, hrecords, ?_⟩
  obtain ⟨cut, hle, hcut⟩ := h.cut
  cases l with
  | snapshot i outcome =>
    refine ⟨cut, hle, ?_⟩
    simp only [lateStep, childStep]
    repeat' split
    all_goals exact hcut
  | retain i events snapshots =>
    simp only [lateStep, childStep]
    cases hreq : s.granted[i]? with
    | none => exact ⟨cut, hle, hcut⟩
    | some req =>
      cases events with
      | false => exact ⟨cut, hle, hcut⟩
      | true =>
        obtain ⟨-, cut', hcut', hcase⟩ := retainEvents_cut hcut
        refine ⟨cut', ?_, hcut'⟩
        have hbound := hk req (h.granted ▸ List.mem_of_getElem? hreq)
        have hupTo := deleteUpTo_le req
        rcases hcase with rfl | rfl
        · exact hle
        · omega

theorem run_lateInv {k : ℕ} {s₀ : Retained S C} (hn : NodeInv cfg s₀.node)
    (hk : ∀ g ∈ s₀.granted, g.eventsCounter ≤ k) (h : LateInv cfg k s₀ s) (ls : List ChildLabel) :
    LateInv cfg k s₀ (run (lateStep cfg store snapshotStore) s ls) :=
  run_invariant (lateStep cfg store snapshotStore) (LateInv cfg k s₀)
    (fun _ l h _ => lateStep_lateInv hn hk h l) h (along_of_forall _ fun _ _ => trivial)

theorem RecordsInv.snapshotRead (hs : Spawned cfg) (hn : NodeInv cfg s.node) (h : RecordsInv cfg s) :
    ∃ snapshot k, (if cfg.snapshotsWriter then
        (snapshotStore.getLatestSnapshot cfg.scope s.snapshots).mapError (Err.wrap "failed to load snapshot")
      else .ok none) = .ok snapshot ∧ Restores cfg s.persisted k snapshot ∧ ∀ j, Covered s.snapshots j →
        j ≤ k := by
  have hnone (hnil : s.snapshots = []) : ∀ j, Covered s.snapshots j → j ≤ 0 := by
    rintro j (rfl | ⟨x, hx, -⟩)
    · exact Nat.le_refl 0
    · simp [hnil] at hx
  cases hw : cfg.snapshotsWriter with
  | false =>
    refine ⟨none, 0, rfl, .inl ⟨rfl, rfl⟩, hnone ?_⟩
    cases hsnaps : s.snapshots with
    | nil => rfl
    | cons x rest =>
      obtain ⟨r, hr, -⟩ := h.stored x (by simp [hsnaps])
      have hconf := (hn.told r hr).configured
      simp [hw] at hconf
  | true =>
    obtain ⟨latest, hlatest⟩ := snapshotStore.latest_total cfg.scope s.snapshots hs.scope_valid
    have his := snapshotStore.latest_of_ok _ _ _ hlatest
    rw [if_pos rfl, hlatest]
    cases latest with
    | none => exact ⟨none, 0, rfl, .inl ⟨rfl, rfl⟩, hnone his⟩
    | some x =>
      obtain ⟨hx, hmax⟩ := his
      obtain ⟨r, hr, henc⟩ := h.stored x hx
      refine ⟨some x, r.snapshot.sequenceNumber, rfl, .inr ⟨r, x, rfl, hn.told r hr, henc, rfl⟩, ?_⟩
      rw [← encryptSnapshotState_sequenceNumber henc]
      rintro j (rfl | ⟨y, hy, hle⟩)
      · exact Nat.zero_le _
      · exact Nat.le_trans hle (hmax y hy)

theorem NodeInv.numbered (h : NodeInv cfg n) : Numbered (·.sequenceNumber) 0 (envelopesOf n.committed) := by
  obtain ⟨log, hj⟩ := h.journal
  rw [← hj.ledger]
  exact hj.stage.numbered

theorem recoverFrom_exact (hs : Spawned cfg) (hn : NodeInv cfg s.node) (h : RecordsInv cfg s)
    (first second : List ChildLabel) : ∃ state, stateOf cfg s.persisted = .ok state ∧
      (recoverFrom cfg store snapshotStore s first second).1 = .ok (.new state s.persisted.length (spawnTenant cfg)) ∧
      (recoverFrom cfg store snapshotStore s first second).2.node = s.node ∧
      RecordsInv cfg (recoverFrom cfg store snapshotStore s first second).2 := by
  obtain ⟨snapshot, k, hread, hrestores, hbound⟩ := RecordsInv.snapshotRead hs hn h
  obtain ⟨state, hstate⟩ := hn.folds
  obtain ⟨cut, hcut, hcovered⟩ := h.cut
  have hk : ∀ g ∈ s.granted, g.eventsCounter ≤ k := fun g hg => hbound _ (h.granted g hg).2
  have h₁ := @run_lateInv S C E cfg store snapshotStore s k s hn hk
    ⟨rfl, rfl, h, cut, hbound cut hcovered, hcut⟩ first
  have h₂ := @run_lateInv S C E cfg store snapshotStore _ k s hn hk h₁ second
  obtain ⟨cut₁, hle₁, hcut₁⟩ := h₁.cut
  obtain ⟨cut₂, hle₂, hcut₂⟩ := h₂.cut
  rw [Retained.persisted, h₁.node] at hcut₁
  rw [Retained.persisted, h₂.node] at hcut₂
  refine ⟨state, hstate, ?_, h₂.node, h₂.records⟩
  have hexact : recoverReading cfg store.toEventsStore snapshot _ _ = _ :=
    recoverReading_exact hs hn.numbered hstate hn.own hn.readsBack hrestores hcut₁ hle₁ hcut₂ hle₂
  simp only [recoverFrom]
  split at hread
  · rw [if_pos ‹_›, hread]
    exact hexact
  · cases hread
    rw [if_neg ‹_›]
    exact hexact

theorem respawn_nodeInv (h : NodeInv cfg n) (hstate : stateOf cfg (envelopesOf n.committed) = .ok state) :
    NodeInv cfg (n.respawn (.new state (envelopesOf n.committed).length (spawnTenant cfg))) := by
  obtain ⟨log, hj⟩ := h.journal
  have hsync : InSync (Folds cfg) state (envelopesOf n.committed).length (Persistence.journal log) := by
    rw [hj.ledger]
    exact ⟨h.numbered, rfl, hstate⟩
  refine ⟨⟨log, phaseOk_new _ _ _, rfl, ?_, hj.ledger, hj.taken⟩, rfl, h.folds, ?_, ?_, ?_, h.own,
    h.readsBack, h.told⟩
  · exact .ready rfl rfl rfl ⟨rfl, hsync⟩ (batchOk_closed rfl rfl rfl)
  · simp [Node.respawn]
  · simp [Node.respawn]
  · simp [Node.respawn, Actor.new]

/-! ### Whole runs -/

theorem performAll_snapshots (msg : Message C) (place : List Bool) (n : Node S C) (effects : List Effect) :
    n.snapshots <+: (performAll msg place n effects).snapshots := by
  induction effects generalizing n with
  | nil => exact List.prefix_refl _
  | cons e effects ih =>
    have h := ih (perform msg place n e)
    cases e <;> first | exact h | exact (List.prefix_append _ _).trans h

theorem deliver_frame (turn : Turn) (place : List Bool) (n : Node S C) :
    (deliver cfg turn place n).committed = n.committed ∧ n.snapshots <+: (deliver cfg turn place n).snapshots := by
  unfold deliver
  split
  · exact ⟨rfl, List.prefix_refl _⟩
  · rename_i msg rest hm
    have hframe (m : Node S C) (effects : List Effect) : (performAll msg place m effects).committed = m.committed ∧
        m.snapshots <+: (performAll msg place m effects).snapshots :=
      ⟨(performAll_frame msg place m effects).1, performAll_snapshots msg place m effects⟩
    apply hframe

structure RetainedInv (cfg : Config S C E) (s : Retained S C) : Prop where
  node : NodeInv cfg s.node
  records : RecordsInv cfg s

theorem retainedInv_start (cfg : Config S C E) : RetainedInv cfg (Retained.start cfg) := by
  have hj : JournalInv cfg True (Folds cfg) (Retained.start cfg).node none :=
    journalInv_start rfl
  refine ⟨⟨⟨none, hj⟩, rfl, ⟨_, rfl⟩, ?_, ?_, ?_, ?_, ?_, ?_⟩, rfl, ⟨0, rfl, .inl rfl⟩, ?_, ?_⟩ <;>
    simp [Retained.start, Node.start, Actor.new, envelopesOf]

theorem retentionStep_inv (hs : Spawned cfg) {l : RetentionLabel C} (h : RetainedInv cfg s)
    (hl : Orderly cfg s l) : RetainedInv cfg (retentionStep cfg store snapshotStore s l) := by
  have hquiet {l : Label C} (hl : l.quiet = true) : RetainedInv cfg { s with
      node := (nodeStep cfg store.toEventsStore s.node s.log l).1
      log := (nodeStep cfg store.toEventsStore s.node s.log l).2 } := by
    obtain ⟨hlog, -, -, hc, hsnap⟩ := quiet_frame store.toEventsStore s.log hl
    refine ⟨quiet_nodeInv store.toEventsStore s.log hl h.node, ?_⟩
    rw [hlog]
    exact h.records.of_node hc (hsnap ▸ List.Subset.refl _)
  cases l with
  | child l =>
    refine ⟨?_, childStep_recordsInv h.node h.records l⟩
    exact (childStep_node l).symm ▸ h.node
  | crash first second =>
    obtain ⟨state, hstate, hrecovered, hnode, hrecords⟩ :=
      recoverFrom_exact hs h.node h.records first second
    simp only [retentionStep]
    generalize recoverFrom cfg store snapshotStore s first second = r at hrecovered hnode hrecords ⊢
    obtain ⟨recovered, s'⟩ := r
    dsimp only at hrecovered hnode hrecords ⊢
    rw [hrecovered]
    refine ⟨?_, hrecords.of_node rfl (List.Subset.refl _)⟩
    dsimp only
    rw [hnode]
    exact respawn_nodeInv h.node hstate
  | actor l =>
    cases l with
    | restart => exact h
    | command | getState | flushTick | timeout | fire => exact hquiet rfl
    | write outcome =>
      obtain ⟨hn, hr⟩ := write_retained hs outcome h.node h.records hl
      exact ⟨hn, hr⟩
    | deliver turn place =>
      obtain ⟨hc, hsnap⟩ := deliver_frame turn place s.node
      refine ⟨deliver_nodeInv hs turn place h.node ?_, h.records.of_node hc hsnap.subset⟩
      intro log hlog hstop id ctx cmd rest hm hy
      obtain ⟨hw, hlen⟩ := hl hstop id ctx cmd rest hm hy
      exact ⟨hw, hlog ▸ hlen⟩

theorem run_retainedInv (cfg : Config S C E) (store : RetainingStore) (snapshotStore : SnapshotStore)
    (hs : Spawned cfg) {labels : List (RetentionLabel C)}
    (h : Along (retentionStep cfg store snapshotStore) (Orderly cfg) (Retained.start cfg) labels) :
    RetainedInv cfg (run (retentionStep cfg store snapshotStore) (Retained.start cfg) labels) :=
  run_invariant _ (RetainedInv cfg) (fun _ _ hinv hl => retentionStep_inv hs hinv hl)
    (retainedInv_start cfg) h

/-- After any run, with any calls of the crashed children still under way, a new
incarnation recovers the fold of all events that were ever persisted. -/
theorem recovery_exact (cfg : Config S C E) (store : RetainingStore) (snapshotStore : SnapshotStore)
    (hs : Spawned cfg) (labels : List (RetentionLabel C)) (first second : List ChildLabel)
    (h : Along (retentionStep cfg store snapshotStore) (Orderly cfg) (Retained.start cfg) labels) :
    let s := run (retentionStep cfg store snapshotStore) (Retained.start cfg) labels
    ∃ a, (recoverFrom cfg store snapshotStore s first second).1 = .ok a ∧
      stateOf cfg s.persisted = .ok a.currentState ∧
      a.eventsCounter = storageRevision (recoverFrom cfg store snapshotStore s first second).2.log ∧
      a.eventsCounter = s.persisted.length := by
  intro s
  have hinv : RetainedInv cfg s := run_retainedInv cfg store snapshotStore hs h
  obtain ⟨state, hstate, hrecovered, hnode, hrecords⟩ :=
    recoverFrom_exact hs hinv.node hinv.records first second
  have hrevision := hrecords.revision
  rw [Retained.persisted, hnode] at hrevision
  exact ⟨_, hrecovered, hstate, hrevision.symm, rfl⟩

theorem unadapted_of_nil (h : cfg.eventAdapters = []) (e : Event) : Unadapted cfg e := by
  intro payload _
  rw [h]
  exact ⟨payload, rfl, rfl⟩

def retainedConfig (adapters : List EventAdapter) : Config ℕ Command AccountEvent :=
  { accountConfig 0 with
    eventAdapters := adapters
    snapshotInterval := 1
    snapshotsWriter := true
    retentionPolicy := some ⟨true, true, 0⟩ }

def creditedTwice : List (RetentionLabel Command) :=
  [.actor (.command background (.creditAccount "account" 1)), .actor (.deliver (turnAt 1) []),
    .actor (.write .store), .actor (.deliver (turnAt 2) []), .actor (.deliver (turnAt 2) []),
    .child (.snapshot 0 .store), .child (.retain 0 true true),
    .actor (.command background (.creditAccount "account" 1)), .actor (.deliver (turnAt 3) []),
    .actor (.write .store), .actor (.deliver (turnAt 4) []), .actor (.deliver (turnAt 4) [])]

/-- The second snapshot arrives while the next incarnation recovers. -/
theorem recovery_exact_credited :
    let s := run (retentionStep (retainedConfig []) Testkit.retainingStore Testkit.snapshotStore)
      (Retained.start (retainedConfig [])) creditedTwice
    (s.persisted.length = 2 ∧ (Persistence.journal s.log).length = 1) ∧
    ∃ a, (recoverFrom (retainedConfig []) Testkit.retainingStore Testkit.snapshotStore s
        [.snapshot 1 .store] [.retain 0 true true]).1 = .ok a ∧
      stateOf (retainedConfig []) s.persisted = .ok a.currentState ∧ a.eventsCounter = 2 := by
  obtain ⟨a, hrecovered, hstate, -, hcounter⟩ := recovery_exact (retainedConfig [])
    Testkit.retainingStore Testkit.snapshotStore ⟨fun _ => rfl, fun h => by cases h⟩ creditedTwice
    [.snapshot 1 .store] [.retain 0 true true] (by
      have hwrite (w : Write) : ∀ e ∈ w.req.envelopes, Unadapted (retainedConfig []) e :=
        fun e _ => unadapted_of_nil rfl e
      have hrunning {n : Node ℕ Command} {P : Prop} (h : n.stopping = false) (hs : n.stopping = true) : P := by
        rw [h] at hs
        cases hs
      exact ⟨trivial, hrunning (by decide), fun w _ => hwrite w, hrunning (by decide), hrunning (by decide),
        trivial, trivial, trivial, hrunning (by decide), fun w _ => hwrite w, hrunning (by decide),
        hrunning (by decide), trivial⟩)
  refine ⟨by decide, a, hrecovered, hstate, hcounter.trans (by decide)⟩

def doubled : EventAdapter := fun payload _ =>
  match Enginetest.unmarshalEvent payload with
  | .ok (.accountCredited balance) => .ok (Enginetest.newEvent (.accountCredited (2 * balance)))
  | _ => .ok payload

/-- The recovered balance is neither that of the events as they were handled, nor
that of the events as they are read. -/
theorem recovery_mixes_readings :
    let cfg := retainedConfig [doubled]
    let s := run (retentionStep cfg Testkit.retainingStore Testkit.snapshotStore)
      (Retained.start cfg) creditedTwice
    s.node.stopping = false ∧ (recoverFrom cfg Testkit.retainingStore Testkit.snapshotStore s [] []).1.map
        (fun a => (a.currentState, a.eventsCounter)) = .ok (3, 2) ∧
      stateOf cfg s.persisted = .ok 2 ∧
      s.persisted.foldlM (applyPersistedEvent cfg (spawnTenant cfg)) cfg.behavior.initialState = .ok 4 := by
  decide

end

end Ego.EventSource

import Ego.EventSource.Sequential

/-! # Batched and direct mode -/

namespace Ego.EventSource
open Persistence Protocol Lib
open Enginetest (Command accountConfig background expecting turnAt)

section
variable {S C E : Type} (cfg : Config S C E)

def entityAfter (done : List (ℕ × Ctx × C)) : Sequential S :=
  run (Sequential.handle cfg) (.start cfg) (done.map (·.2))

structure InStep (all done : List (ℕ × Ctx × C)) (n : Node S C) : Prop where
  order : done ++ todo n = all
  entity : AtEntity cfg n.actor (entityAfter cfg done)
  staged : (envelopesOf n.staged).map untimed = (entityAfter cfg done).journal
  own : ∀ (k : ℕ) c r, done[k]? = some c →
    ((c.1, r) ∈ n.computed ∨ ∃ b ∈ n.staged, b.id = c.1 ∧ b.reply = r) →
    (entityAfter cfg done).replies[k]? = some (untimedReply r)
  reads : ∀ id ctx, .getState id ctx ∈ n.stash ++ n.mailbox → id ∉ all.map (·.1)
  ledger : n.staged = n.committed ++ (n.writer.flatMap (·.blocks) ++ n.staging)
  requests : ∀ w ∈ n.writer, w.req.scope = cfg.scope ∧ w.req.envelopes ≠ [] ∧
    Sound n.actor.eventsCounter w.req.precondition
  told : ∀ r ∈ responses n.mailbox, r = none
  succeeded : ∀ p ∈ n.outcomes, p.2 = none

variable {cfg} {n : Node S C} {all done : List (ℕ × Ctx × C)}

theorem entityAfter_append (done : List (ℕ × Ctx × C)) (id : ℕ) (ctx : Ctx) (cmd : C) :
    entityAfter cfg (done ++ [(id, ctx, cmd)]) = (entityAfter cfg done).handle cfg (ctx, cmd) := by
  simp [entityAfter, run_append]

theorem entityAfter_counts (done : List (ℕ × Ctx × C)) : (entityAfter cfg done).Counts done.length := by
  simpa [entityAfter] using run_counts (done.map (·.2))

/-! ### What a turn does to the runtime -/

theorem performAll_ledger (msg : Message C) (place : List Bool) {n : Node S C} (effects : List Effect)
    (h : n.staged = n.committed ++ (n.writer.flatMap (·.blocks) ++ n.staging)) :
    (performAll msg place n effects).staged = (performAll msg place n effects).committed ++
      ((performAll msg place n effects).writer.flatMap (·.blocks) ++ (performAll msg place n effects).staging) := by
  induction effects generalizing n with
  | nil => exact h
  | cons e effects ih =>
    refine ih ?_
    cases e <;> simp [perform, h]

theorem performAll_line (msg : Message C) (n : Node S C) (effects : List Effect) :
    (performAll msg [] n effects).stash ++ (performAll msg [] n effects).mailbox ⊆ msg :: (n.stash ++ n.mailbox) := by
  induction effects generalizing n with
  | nil => exact List.subset_cons_self _ _
  | cons e effects ih =>
    intro m hm
    have h := ih (perform msg [] n e) hm
    cases e with
    | stash =>
      simp only [perform, List.append_assoc, List.mem_cons, List.mem_append, List.not_mem_nil, or_false] at h ⊢
      tauto
    | unstashAll => simpa [perform] using h
    | handle | stage | response | pipeTo | tellSnapshot | startTimer | stopTimer | shutdown => exact h

variable {msg : Message C} {rest : List (Message C)}

theorem afterTurn_line (hm : n.mailbox = msg :: rest) (a' : Actor S) (effects : List Effect) :
    (afterTurn n msg rest a' effects).stash ++ (afterTurn n msg rest a' effects).mailbox ⊆ n.stash ++ n.mailbox := by
  refine List.Subset.trans (performAll_line msg _ effects) ?_
  intro m h
  simp only [List.mem_cons, List.mem_append, hm] at h ⊢
  tauto

theorem responses_subset {xs ys : List (Message C)} (h : xs ⊆ ys) : responses xs ⊆ responses ys := by
  intro r hr
  obtain ⟨m, hm, heq⟩ := List.mem_filterMap.mp hr
  exact List.mem_filterMap.mpr ⟨m, h hm, heq⟩

variable {a' : Actor S} {effects : List Effect}

theorem InStep.turn {done' : List (ℕ × Ctx × C)} (h : InStep cfg all done n) (hst : responses n.stash = [])
    (hm : n.mailbox = msg :: rest) (horder : done' ++ todo (afterTurn n msg rest a' effects) = all)
    (hentity : AtEntity cfg a' (entityAfter cfg done'))
    (hstaged : (envelopesOf (afterTurn n msg rest a' effects).staged).map untimed = (entityAfter cfg done').journal)
    (hown : ∀ (k : ℕ) c r, done'[k]? = some c → ((c.1, r) ∈ (afterTurn n msg rest a' effects).computed ∨
        ∃ b ∈ (afterTurn n msg rest a' effects).staged, b.id = c.1 ∧ b.reply = r) →
      (entityAfter cfg done').replies[k]? = some (untimedReply r))
    (hreq : ∀ w ∈ (afterTurn n msg rest a' effects).writer, w.req.scope = cfg.scope ∧ w.req.envelopes ≠ [] ∧
      Sound a'.eventsCounter w.req.precondition) : InStep cfg all done' (afterTurn n msg rest a' effects) := by
  have hline := afterTurn_line hm a' effects
  refine ⟨horder, (afterTurn_actor msg rest a' effects).symm ▸ hentity, hstaged, hown, ?_, ?_, ?_, ?_, ?_⟩
  · intro id ctx hmem
    exact h.reads id ctx (hline hmem)
  · exact performAll_ledger msg [] effects h.ledger
  · rw [afterTurn_actor]
    exact hreq
  · intro r hr
    have hmem := responses_subset hline (by
      rw [responses_append]
      exact List.mem_append_right _ hr)
    rw [responses_append, hst, List.nil_append] at hmem
    exact h.told r hmem
  · have houtcomes : (afterTurn n msg rest a' effects).outcomes = n.outcomes :=
      (performAll_frame _ _ _ _).2.2
    rw [houtcomes]
    exact h.succeeded

/-! ### A command is taken up -/

section
variable {id : ℕ} {ctx : Ctx} {cmd : C} {rest : List (Message C)} {s s' : Sequential S} {a' : Actor S}
  {effects : List Effect}

section
variable (h : TakesUp cfg n.actor s' s a' effects)
include h

theorem TakesUp.history (hp : n.actor.phase = .processing) :
    ∃ reply blocks answers, (afterTurn n (.command id ctx cmd) rest a' effects).staged = n.staged ++ blocks ∧
      (afterTurn n (.command id ctx cmd) rest a' effects).computed = n.computed ++ answers ∧
      s'.journal = s.journal ++ (envelopesOf blocks).map untimed ∧ s'.replies = s.replies ++ [untimedReply reply] ∧
      (∀ b ∈ blocks, b.id = id ∧ b.reply = reply) ∧ ∀ p ∈ answers, p = (id, reply) := by
  unfold afterTurn
  cases h with
  | answers reply hmarks _ _ _ hj hr =>
    refine ⟨reply, [], [(id, reply)], ?_⟩
    rcases hmarks with rfl | rfl <;> simp [perform, ownReplies, hp, Message.id, hj, hr]
  | keeps envelopes reply hst _ _ _ hj hr =>
    refine ⟨reply, [⟨id, envelopes, reply⟩], [], ?_⟩
    rcases hst with rfl | ⟨timer, rfl⟩ <;> simp [perform, ownReplies, hp, Message.id, hj, hr]
  | @sends a envelopes reply req _ _ _ hj hr =>
    refine ⟨reply, [⟨id, envelopes, reply⟩], [], ?_⟩
    unfold stopped
    cases a.flushTimer <;> simp [perform, ownReplies, hp, Message.id, hj, hr]

theorem TakesUp.requests (hw : n.writer = []) :
    ∀ w ∈ (afterTurn n (.command id ctx cmd) rest a' effects).writer, w.req.scope = cfg.scope ∧
      w.req.envelopes ≠ [] ∧ Sound a'.eventsCounter w.req.precondition := by
  unfold afterTurn
  cases h with
  | answers reply hmarks => rcases hmarks with rfl | rfl <;> simp [perform, hw]
  | keeps envelopes reply hst => rcases hst with rfl | ⟨timer, rfl⟩ <;> simp [perform, hw]
  | sends envelopes reply req _ hc _ _ _ hscope hs hne =>
    simp [perform, performAll_append, hw, hc, hscope, hs, hne]

theorem TakesUp.entity : AtEntity cfg a' s' := by
  cases h <;> assumption

end

end

variable {id : ℕ}

theorem RepliesInv.unknown (h : RepliesInv cfg False n) (hm : n.mailbox = msg :: rest) (hid : msg.requestId? = some id)
    (hown : n.actor.phase = .processing ∨ msg.commandId? = none) :
    (∀ r, (id, r) ∉ n.computed) ∧ ∀ b ∈ n.staged, b.id ≠ id := by
  constructor
  · intro r hc
    refine h.requests.answered_not_waiting (h.replies.sent hc) ?_
    simp [waitingIds, hm, requestIds, hid]
  · rintro b hb rfl
    exact not_staged h.custody h.requests h.handled h.blocks hm hid hown (List.mem_map_of_mem hb)

theorem RepliesInv.writer_nil (h : RepliesInv cfg False n) (hp : n.actor.phase = .processing) : n.writer = [] := by
  rw [(h.faithful not_false).inStep]
  cases h.custody with
  | working _ _ _ ha => exact ha
  | waiting hp' | told _ hp' => simp [hp] at hp'
  | draining _ hp' | answering hp' => simp [hp] at hp'

theorem InStep.takeUp {ctx : Ctx} {cmd : C} (h : InStep cfg all done n) (hall : (all.map (·.1)).Nodup)
    (hr : RepliesInv cfg False n) (hp : n.actor.phase = .processing) (hm : n.mailbox = .command id ctx cmd :: rest)
    (hup : TakesUp cfg n.actor (entityAfter cfg (done ++ [(id, ctx, cmd)])) (entityAfter cfg done) a' effects) :
    InStep cfg all (done ++ [(id, ctx, cmd)]) (afterTurn n (.command id ctx cmd) rest a' effects) := by
  obtain ⟨reply, blocks, answers, hstaged, hcomputed, hj, hreplies, hblocks, hanswers⟩ :=
    TakesUp.history hup hp
  have horder : done ++ (id, ctx, cmd) :: todo (afterTurn n (.command id ctx cmd) rest a' effects) = all := by
    rw [← hup.todo hr.custody hp hm]
    exact h.order
  obtain ⟨hnew, hnew'⟩ := hr.unknown hm rfl (.inl hp)
  have hlen : (entityAfter cfg done).replies.length = done.length := (entityAfter_counts done).replies
  refine h.turn hr.stashOk hm ?_ hup.entity ?_ ?_ (hup.requests (hr.writer_nil hp))
  · simpa using horder
  · rw [hstaged, envelopesOf_append, List.map_append, h.staged, hj]
  · intro k c r hk hc
    rw [hcomputed, hstaged] at hc
    rw [hreplies]
    -- an earlier command, or the one that is taken up
    rcases Nat.lt_or_ge k done.length with hlt | hge
    · rw [List.getElem?_append_left hlt] at hk
      rw [List.getElem?_append_left (hlen ▸ hlt)]
      have hne : c.1 ≠ id := by
        rintro rfl
        rw [← horder, List.map_append, List.map_cons] at hall
        refine (List.nodup_append.mp hall).2.2 c.1 ?_ c.1 List.mem_cons_self rfl
        exact List.mem_map_of_mem (List.mem_of_getElem? hk)
      refine h.own k c r hk (hc.imp ?_ ?_)
      · intro hmem
        refine (List.mem_append.mp hmem).resolve_right fun hmem => hne ?_
        exact congrArg Prod.fst (hanswers _ hmem)
      · rintro ⟨b, hb, hid, hreply⟩
        refine ⟨b, (List.mem_append.mp hb).resolve_right fun hb => hne ?_, hid, hreply⟩
        rw [← hid, (hblocks b hb).1]
    · rw [List.getElem?_append_right hge] at hk
      rw [List.getElem?_append_right (hlen ▸ hge), hlen]
      obtain ⟨hzero, rfl⟩ : k - done.length = 0 ∧ (id, ctx, cmd) = c := by
        simpa [List.getElem?_singleton] using hk
      have hr : r = reply := by
        rcases hc with hmem | ⟨b, hb, hid, rfl⟩
        · have hmem := (List.mem_append.mp hmem).resolve_left (hnew r)
          exact congrArg Prod.snd (hanswers _ hmem)
        · have hb := (List.mem_append.mp hb).resolve_left fun hb => hnew' b hb hid
          exact (hblocks b hb).2
      rw [hzero, hr]
      rfl

/-! ### Any other message -/

section
variable {turn : Turn} {msg : Message C} {rest : List (Message C)} {a' : Actor S} {effects : List Effect}

structure Uneventful (a : Actor S) (msg : Message C) : Prop where
  other : a.phase ≠ .processing ∨ msg.commandId? = none
  told : ∀ err, msg ≠ .persistEventsResponse (some err)
  answers : a.phase = .directReplying → a.directErr = none

theorem Reaction.atEntity {a : Actor S} {s : Sequential S} (hre : Reaction cfg a msg turn a' effects)
    (hu : Uneventful a msg) (hok : PhaseOk cfg a) (h : AtEntity cfg a s) : AtEntity cfg a' s := by
  obtain ⟨hcache, hfront, htenant, hbase⟩ := h
  cases hre
  case denied hp | failed hp _ | unchanged hp _ | unchangedInBatch hp _ _ _ _ _ | persist hp _ _ |
      gateFlush hp _ | fold hp _ _ _ _ _ | foldFlush hp _ _ _ _ =>
    have := hu.other
    simp [hp, Message.commandId?] at this
  case directFailed err _ | batchFailed err _ => exact absurd rfl (hu.told err)
  case replyFailure hp he => simp [hu.answers hp] at he
  case ignored | idleTick | stashedCommand | stashedRead | readDenied | read =>
    exact ⟨hcache, hfront, htenant, hbase⟩
  case tickFlush hp he =>
    refine ⟨hcache, ?_, htenant, fun h => by simp at h⟩
    simp only [frontier, hp] at hfront
    exact hfront
  case directConfirmed hp _ =>
    refine ⟨rfl, ?_, htenant, fun h => by simp at h⟩
    simp only [frontier, hp] at hfront
    exact hfront
  case batchConfirmed hp _ =>
    refine ⟨rfl, ?_, htenant, fun h => by simp at h⟩
    simp only [frontier, hp, latestState, latestCounter, hok.flushes hp, if_false] at hfront
    exact hfront
  case replySuccess hp he =>
    have hnil := (hok.direct (hok.direct_of_phase (.inr hp))).2.1
    refine ⟨hcache, ?_, htenant, fun _ h => absurd hnil h⟩
    simpa [frontier, hp, latestState, latestCounter, hnil] using hfront
  case drain hp hr hl =>
    refine ⟨hcache, ?_, htenant, fun h => by simp [hp] at h⟩
    simpa only [frontier, hp] using hfront
  case drainLast hp hr hl =>
    refine ⟨hcache, ?_, htenant, fun _ h => absurd rfl h⟩
    simpa [frontier, hp, latestState, latestCounter, resetBatch] using hfront

theorem Reaction.uneventful_history (hre : Reaction cfg n.actor msg turn a' effects)
    (hu : Uneventful n.actor msg) : (afterTurn n msg rest a' effects).staged = n.staged ∧
      ∀ p ∈ (afterTurn n msg rest a' effects).computed, p ∈ n.computed ∨ ∃ ctx, msg = .getState p.1 ctx := by
  unfold afterTurn
  cases hre
  case denied hp | failed hp _ | unchanged hp _ | unchangedInBatch hp _ _ _ _ _ | persist hp _ _ |
      gateFlush hp _ | fold hp _ _ _ _ _ | foldFlush hp _ _ _ _ =>
    have := hu.other
    simp [hp, Message.commandId?] at this
  case replyFailure hp he => simp [hu.answers hp] at he
  case readDenied id ctx err h | read id ctx h =>
    simp only [performAll_cons, performAll_nil, perform, ownReplies, Message.commandId?, or_true, if_true,
      List.filterMap_cons, List.filterMap_nil, Message.id, List.mem_append, List.mem_singleton]
    refine ⟨trivial, fun p hp => hp.imp_right ?_⟩
    rintro rfl
    exact ⟨ctx, rfl⟩
  case replySuccess hp he => simp [perform, ownReplies, hp, Message.commandId?]
  case drain hp hr hl => simp [perform, ownReplies, hp, Message.commandId?]
  case drainLast hp hr hl => simp [perform, ownReplies, hp, Message.commandId?]
  case directConfirmed hp hs | batchConfirmed hp hs =>
    simp [perform, performAll_append, ownReplies, Message.commandId?]
  case stashedRead =>
    refine ⟨rfl, fun p hp => .inl ?_⟩
    simpa [perform, ownReplies] using hp
  all_goals simp [perform, ownReplies, Message.commandId?]

theorem Reaction.uneventful_requests (hre : Reaction cfg n.actor msg turn a' effects)
    (hu : Uneventful n.actor msg) (hm : n.mailbox = msg :: rest) (hr : RepliesInv cfg False n)
    (hb : n.actor.phase = .processing → n.actor.batchEntries ≠ [] →
      n.actor.batchBuffer ≠ [] ∧ n.actor.batchBase = n.actor.eventsCounter)
    (h : ∀ w ∈ n.writer, w.req.scope = cfg.scope ∧ w.req.envelopes ≠ [] ∧
      Sound n.actor.eventsCounter w.req.precondition) :
    ∀ w ∈ (afterTurn n msg rest a' effects).writer, w.req.scope = cfg.scope ∧ w.req.envelopes ≠ [] ∧
      Sound a'.eventsCounter w.req.precondition := by
  unfold afterTurn
  cases hre
  case denied hp | failed hp _ | unchanged hp _ | unchangedInBatch hp _ _ _ _ _ | persist hp _ _ |
      gateFlush hp _ | fold hp _ _ _ _ _ | foldFlush hp _ _ _ _ =>
    have := hu.other
    simp [hp, Message.commandId?] at this
  case replyFailure hp he => simp [hu.answers hp] at he
  case tickFlush hp he =>
    obtain ⟨hne, hbase⟩ := hb hp he
    refine List.forall_mem_append.mpr ⟨h, ?_⟩
    rintro w hw
    rw [List.mem_singleton.mp hw]
    refine ⟨rfl, hne, ?_⟩
    simp only [resolveBatchPrecondition, batchPrecondition, hbase]
    cases n.actor.batchHasPrecondition with
    | false => exact .inl rfl
    | true =>
      refine .inr ?_
      cases n.actor.eventsCounter <;> rfl
  case directConfirmed hp hs | batchConfirmed hp hs =>
    have hnil : n.writer = [] := by
      rw [(hr.faithful not_false).inStep]
      exact (hr.custody.of_response hm).asks
    simp [perform, performAll_append, hnil]
  case drainLast hp hr hl =>
    rw [performAll_cons, performAll_shutdown]
    exact h
  all_goals exact h

end

theorem InStep.other {turn : Turn} (h : InStep cfg all done n) (hre : Reaction cfg n.actor msg turn a' effects)
    (hu : Uneventful n.actor msg) (hm : n.mailbox = msg :: rest) (hr : RepliesInv cfg False n)
    (hb : n.actor.phase = .processing → n.actor.batchEntries ≠ [] → n.actor.batchBuffer ≠ []) :
    InStep cfg all done (afterTurn n msg rest a' effects) := by
  obtain ⟨hstaged, hcomputed⟩ := Reaction.uneventful_history hre hu
  have htodo := hre.todo hr.phaseOk hr.custody hm hu.other
  refine h.turn hr.stashOk hm (htodo ▸ h.order) (hre.atEntity hu hr.phaseOk h.entity) (hstaged ▸ h.staged)
    ?_ ?_
  · intro k c r hk hc
    rw [hstaged] at hc
    refine h.own k c r hk (hc.imp_left fun hmem => (hcomputed _ hmem).resolve_right ?_)
    -- a read that is answered is not a command
    rintro ⟨ctx, rfl⟩
    refine h.reads c.1 ctx (by simp [hm]) ?_
    rw [← h.order, List.map_append]
    exact List.mem_append_left _ (List.mem_map_of_mem (List.mem_of_getElem? hk))
  · exact hre.uneventful_requests hu hm hr (fun hp he => ⟨hb hp he, h.entity.base hp he⟩) h.requests

variable {log : Option EventLog}

theorem JournalInv.buffer_ne (h : JournalInv cfg False (Folds cfg) n log)
    (hp : n.actor.phase = .processing) (he : n.actor.batchEntries ≠ []) : n.actor.batchBuffer ≠ [] := by
  obtain ⟨-, hb, -⟩ := h.stage.exact_of_yields hp (absurd · he)
  have hbuf : n.actor.batchBuffer = envelopesOf n.staging := hb.buffer
  obtain ⟨b, hmem⟩ := List.exists_mem_of_ne_nil _ (hb.staging_ne he)
  obtain ⟨e, hmem'⟩ := List.exists_mem_of_ne_nil _ (hb.filled b hmem)
  rw [hbuf]
  exact List.ne_nil_of_mem (List.mem_flatMap.mpr ⟨b, hmem, hmem'⟩)

theorem deliver_inStep {turn : Turn} {later : List (ℕ × Ctx × C)}
    (h : InStep cfg all done n) (hall : (all.map (·.1)).Nodup) (hj : JournalInv cfg False (Folds cfg) n log)
    (hr : RepliesInv cfg False n) (hin : turn.inTime = true)
    (hdecl : Along (Sequential.handle cfg) Declares (.start cfg) ((all ++ later).map (·.2))) :
    ∃ done, InStep cfg all done (deliver cfg turn [] n) := by
  cases hm : n.mailbox with
  | nil => exact ⟨done, by rwa [deliver_nil turn [] hm]⟩
  | cons msg rest =>
    rw [deliver_eq_afterTurn turn hm]
    by_cases hown : n.actor.phase = .processing ∧ ∃ id ctx cmd, msg = .command id ctx cmd
    · obtain ⟨hp, id, ctx, cmd, rfl⟩ := hown
      refine ⟨done ++ [(id, ctx, cmd)], h.takeUp hall hr hp hm ?_⟩
      rw [entityAfter_append]
      refine receive_takesUp hr.phaseOk hp h.entity hin ?_
      rw [← h.order, (hr.custody.todo_processing hp hm).2, List.append_assoc, List.map_append, along_append] at hdecl
      rw [(entityAfter_counts done).counter]
      exact hdecl.2.1
    · refine ⟨done, h.other (receive_reaction hr.phaseOk msg) ⟨?_, ?_, ?_⟩ hm hr hj.buffer_ne⟩
      · rw [or_iff_not_imp_left, not_not]
        intro hp
        cases msg with
        | command id ctx cmd => exact absurd ⟨hp, id, ctx, cmd, rfl⟩ hown
        | getState | batchFlushTick | persistEventsResponse => rfl
      · rintro err rfl
        have htold := h.told (some err) (by simp [hm])
        simp at htold
      · intro hp
        cases hr.custody with
        | answering _ _ _ _ _ _ ho => exact h.succeeded _ ho
        | working hp' | draining _ hp' => simp [hp] at hp'
        | waiting hp' | told _ hp' => simp [hp] at hp'

/-! ### Writes -/

structure Complete (log : Option EventLog) : Prop where
  revision : storageRevision log = (journal log).length
  unwritten : journal log = [] → log = none

def Accepts (store : RetainingStore) : Prop :=
  ∀ scope id old events p, scope.valid = true → events ≠ [] → (∀ e ∈ events, e.persistenceId = id) →
    Numbered (·.sequenceNumber) (storageRevision old) events → p.Holds (old.map (·.revision)) →
      ∃ new, store.writeEvents scope id old events p = .ok new

theorem Complete.holds {counter : ℕ} {p : WritePrecondition} (h : Complete log)
    (hc : (journal log).length = counter) (hp : Sound counter p) : p.Holds (log.map (·.revision)) := by
  rcases hp with rfl | rfl
  · trivial
  · cases counter with
    | zero =>
      rw [h.unwritten (List.length_eq_zero_iff.mp hc)]
      rfl
    | succ k =>
      have hrev := h.revision
      rw [hc] at hrev
      cases log with
      | none => simp at hrev
      | some log => exact congrArg some hrev

theorem Complete.write {store : RetainingStore} {log log' : Option EventLog} {events : List Event}
    {scope : Scope} {id : String} {p : WritePrecondition} (h : Complete log)
    (hn : Numbered (·.sequenceNumber) 0 (journal log ++ events)) (hne : events ≠ [])
    (hok : store.writeEvents scope id log events p = .ok log') :
    Complete log' ∧ journal log' = journal log ++ events := by
  have hj := store.appends _ _ _ _ _ _ hok (fresh_of_numbered hn)
  have hnew : Numbered (·.sequenceNumber) (journal log).length events := by
    simpa using (numbered_append.mp hn).2
  refine ⟨⟨?_, fun hnil => ?_⟩, hj⟩
  · rw [store.raises _ _ _ _ _ _ hok, h.revision, ← Testkit.foldl_raiseRevision_eq_max,
      Testkit.foldl_raiseRevision hnew, hj, List.length_append]
  · rw [hj] at hnil
    exact absurd (List.append_eq_nil_iff.mp hnil).2 hne

theorem request_continues {w : Write} {later : List Write}
    (hj : JournalInv cfg False (Folds cfg) n log) (hr : RepliesInv cfg False n) (hw : n.writer = w :: later) :
    later = [] ∧ n.asks = [w] ∧ (journal log).length = n.actor.eventsCounter ∧
      Numbered (·.sequenceNumber) 0 (journal log ++ w.req.envelopes) ∧
      ∀ e ∈ w.req.envelopes, e.persistenceId = cfg.persistenceID := by
  obtain ⟨rfl, hn⟩ := hj.stage.head_write hw
  obtain ⟨hp, hlen, -⟩ := hj.stage.of_writer hw
  have hasks : n.asks = [w] := (hr.faithful not_false).inStep ▸ hw
  refine ⟨rfl, hasks, hlen, hn, ?_⟩
  have hx : w.req.envelopes = envelopesOf w.blocks := by
    cases hj.stage with
    | waiting _ _ hone _ _ _ hx hb =>
      obtain ⟨rfl, -⟩ := List.cons.inj (hone.symm.trans hw)
      rw [hx, hb]
    | ready _ _ _ hj => exact absurd (hj.1.symm.trans hw) (by simp)
    | doomed hamb | lost hamb => exact hamb.elim
    | confirmed _ _ hnil => exact absurd (hnil.symm.trans hw) (by simp)
    | rejected _ _ _ _ _ hj | draining _ _ _ _ hj =>
      rcases hj with hj | ⟨hamb, -⟩
      · exact absurd (hj.1.symm.trans hw) (by simp)
      · exact hamb.elim
  rw [hx]
  intro e he
  obtain ⟨b, hb, he⟩ := List.mem_flatMap.mp he
  have hstaged : b ∈ n.staged := by
    refine hr.blocks.refers ?_
    simp only [referred, hw, List.mem_append, List.mem_flatMap]
    grind
  obtain ⟨r, -, prior, base, state, henv, -⟩ := hr.blocks.promises b hstaged
  exact henv.ids e he

theorem write_inStep {store : RetainingStore} (hstore : Accepts store)
    (hscope : cfg.scope.valid = true) (h : InStep cfg all done n) (hc : Complete log)
    (hj : JournalInv cfg False (Folds cfg) n log) (hr : RepliesInv cfg False n) :
    InStep cfg all done (writeNext cfg store.toEventsStore .store n log).1 ∧
      Complete (writeNext cfg store.toEventsStore .store n log).2 := by
  cases hw : n.writer with
  | nil =>
    rw [writeNext_nil store.toEventsStore .store log hw]
    exact ⟨h, hc⟩
  | cons w later =>
    obtain ⟨rfl, hasks, hlen, hn, hids⟩ := request_continues hj hr hw
    obtain ⟨hreq, hne, hsound⟩ := h.requests w (by simp [hw])
    have hnew : Numbered (·.sequenceNumber) (storageRevision log) w.req.envelopes := by
      rw [hc.revision]
      simpa using (numbered_append.mp hn).2
    obtain ⟨log', hok⟩ := hstore w.req.scope cfg.persistenceID log w.req.envelopes w.req.precondition
      (hreq ▸ hscope) hne hids hnew (hc.holds hlen hsound)
    obtain ⟨hc', -⟩ := hc.write hn hne hok
    have hwrite : writeNext cfg store.toEventsStore .store n log = ({ n with
        writer := []
        committed := n.committed ++ w.blocks
        asks := []
        mailbox := n.mailbox ++ [.persistEventsResponse none]
        outcomes := n.outcomes ++ w.blocks.map fun b => (b, none) }, log') := by
      simp only [writeNext, hw, hok]
      rw [answerAsk_of_singleton (n := { n with writer := [], committed := n.committed ++ w.blocks }) none hasks]
    rw [hwrite]
    refine ⟨⟨?_, h.entity, h.staged, h.own, ?_, ?_, by simp, ?_, ?_⟩, hc'⟩
    · have hsame : todo { n with
          writer := []
          committed := n.committed ++ w.blocks
          asks := []
          mailbox := n.mailbox ++ [.persistEventsResponse none]
          outcomes := n.outcomes ++ w.blocks.map fun b => (b, none) } = todo n := by
        simp [todo, owners]
      rw [hsame]
      exact h.order
    · intro id ctx hmem
      exact h.reads id ctx (by simpa using hmem)
    · have hledger := h.ledger
      rw [hw] at hledger
      simpa using hledger
    · simpa [or_imp, forall_and] using h.told
    · refine List.forall_mem_append.mpr ⟨h.succeeded, fun p hp => ?_⟩
      obtain ⟨b, -, rfl⟩ := List.mem_map.mp hp
      rfl

/-! ### Whole runs -/

def Label.smooth : Label C → Bool
  | .deliver turn place => place.isEmpty && turn.inTime
  | .write outcome => decide (outcome = .store)
  | .timeout _ | .restart _ => false
  | .command _ _ | .getState _ | .flushTick | .fire _ => true

def arrivals : ℕ → List (Label C) → List (ℕ × Ctx × C)
  | _, [] => []
  | next, .command ctx cmd :: labels => (next, ctx, cmd) :: arrivals (next + 1) labels
  | next, .getState _ :: labels => arrivals (next + 1) labels
  | next, _ :: labels => arrivals next labels

def answer (n : Node S C) (id : ℕ) : Option CommandReply := (n.replies.lookup id).map untimedReply

structure Going (cfg : Config S C E) (all : List (ℕ × Ctx × C)) (e : Entity S C) : Prop where
  journal : JournalInv cfg False (Folds cfg) e.node e.log
  replies : RepliesInv cfg False e.node
  complete : Complete e.log
  inStep : ∃ done, InStep cfg all done e.node
  fresh : (all.map (·.1)).Nodup
  bound : ∀ c ∈ all, c.1 < e.node.arrived

theorem going_start (cfg : Config S C E) : Going cfg [] (Entity.start cfg) where
  journal := journalInv_start rfl
  replies := repliesInv_start _ _ _
  complete := ⟨rfl, fun _ => rfl⟩
  inStep := by
    refine ⟨[], rfl, ⟨rfl, rfl, rfl, fun _ h => absurd rfl h⟩, rfl, ?_, ?_, rfl, ?_, ?_, ?_⟩ <;>
      simp [Entity.start, Node.start]
  fresh := List.nodup_nil
  bound := by simp

variable {l : Label C}

theorem Label.smooth_faithful (h : l.smooth = true) : l.faithful = true ∧ l.prepends = true := by
  cases l with
  | command | getState | flushTick | fire => exact ⟨rfl, rfl⟩
  | timeout | restart => simp [Label.smooth] at h
  | write outcome =>
    obtain rfl := of_decide_eq_true h
    exact ⟨rfl, rfl⟩
  | deliver turn place => exact ⟨rfl, (Bool.and_eq_true _ _ ▸ h).1⟩

theorem InStep.arrive (h : InStep cfg all done n) (msg : Message C) (timers : List ℕ) (arrived : ℕ)
    (hc : msg.command? = none) (hr : msg.response? = none)
    (hid : ∀ id ctx, msg = .getState id ctx → id ∉ all.map (·.1)) : InStep cfg all done
      { n with mailbox := n.mailbox ++ [msg], timers := timers, arrived := arrived } := by
  refine ⟨?_, h.entity, h.staged, h.own, ?_, h.ledger, h.requests, ?_, h.succeeded⟩
  · have hsame : todo { n with mailbox := n.mailbox ++ [msg], timers := timers, arrived := arrived } =
        todo n := by
      simp [todo, owners, commands, hc]
    rw [hsame]
    exact h.order
  · intro id ctx hmem
    rw [← List.append_assoc] at hmem
    rcases List.mem_append.mp hmem with hmem | hmem
    · exact h.reads id ctx hmem
    · exact hid id ctx (List.mem_singleton.mp hmem).symm
  · simpa [responses, hr] using h.told

theorem InStep.arriveCommand (h : InStep cfg all done n) (hcustody : Custody cfg n) (ctx : Ctx) (cmd : C) :
    (∀ id ctx, .getState id ctx ∈ n.stash ++ n.mailbox → id < n.arrived) →
    InStep cfg (all ++ [(n.arrived, ctx, cmd)]) done
      { n with mailbox := n.mailbox ++ [.command n.arrived ctx cmd], arrived := n.arrived + 1 } := by
  intro hlt
  refine ⟨?_, h.entity, h.staged, h.own, ?_, h.ledger, h.requests, ?_, h.succeeded⟩
  · have hmore : todo { n with
          mailbox := n.mailbox ++ [.command n.arrived ctx cmd], arrived := n.arrived + 1 } =
        todo n ++ [(n.arrived, ctx, cmd)] := by
      have hle := hcustody.owners_le
      have howners : owners { n with
          mailbox := n.mailbox ++ [.command n.arrived ctx cmd], arrived := n.arrived + 1 } = owners n := rfl
      simp only [todo, howners, ← List.append_assoc, commands_append _ [_]]
      exact List.drop_append_of_le_length hle
    rw [hmore, ← List.append_assoc, h.order]
  · intro id ctx' hmem
    have hmem : .getState id ctx' ∈ n.stash ++ n.mailbox := by simpa using hmem
    have hne : id ≠ n.arrived := Nat.ne_of_lt (hlt id ctx' hmem)
    simpa [hne] using h.reads id ctx' hmem
  · simpa using h.told

theorem getState_waits {msgs : List (Message C)} {ctx : Ctx} (h : .getState id ctx ∈ msgs) :
    id ∈ requestIds msgs := List.mem_filterMap.mpr ⟨_, h, rfl⟩

theorem RepliesInv.getState_lt (h : RepliesInv cfg False n) :
    ∀ id ctx, .getState id ctx ∈ n.stash ++ n.mailbox → id < n.arrived := by
  intro id ctx hmem
  refine h.requests.lt id (List.mem_append_right _ ?_)
  have hreq := getState_waits hmem
  rw [requestIds_append] at hreq
  exact List.mem_append.mpr (List.mem_append.mp hreq).symm

def Label.isRequest : Label C → Bool
  | .command _ _ | .getState _ => true
  | _ => false

theorem step_arrived (store : EventsStore) (e : Entity S C) {l : Label C} (hl : l.smooth = true) :
    (step cfg store e l).node.arrived = e.node.arrived + if l.isRequest then 1 else 0 := by
  have hask (w : Write) (err : Option Err) (m : Node S C) : (answerAsk w err m).arrived = m.arrived := by
    unfold answerAsk
    split <;> rfl
  cases l with
  | command | getState | flushTick => rfl
  | timeout | restart => simp [Label.smooth] at hl
  | deliver turn place =>
    simp only [step, nodeStep, deliver]
    split
    · rfl
    · exact (performAll_frame _ _ _ _).2.1
  | write outcome =>
    change (writeNext cfg store outcome e.node e.log).1.arrived = e.node.arrived
    unfold writeNext
    repeat' split
    all_goals first
      | rfl
      | exact hask _ _ _
  | fire timer =>
    change (fireTimer timer e.node).arrived = e.node.arrived
    unfold fireTimer
    split <;> rfl

theorem arrivals_cons (store : EventsStore) (e : Entity S C) (hl : l.smooth = true)
    (labels : List (Label C)) : arrivals e.node.arrived (l :: labels) =
      arrivals e.node.arrived [l] ++ arrivals (step cfg store e l).node.arrived labels := by
  rw [step_arrived store e hl]
  cases l <;> rfl

theorem step_going {store : RetainingStore} {e : Entity S C} {later : List (ℕ × Ctx × C)}
    (hstore : Accepts store) (hscope : cfg.scope.valid = true) (h : Going cfg all e) (hl : l.smooth = true)
    (hdecl : Along (Sequential.handle cfg) Declares (.start cfg) ((all ++ later).map (·.2))) :
    Going cfg (all ++ arrivals e.node.arrived [l]) (step cfg store.toEventsStore e l) := by
  obtain ⟨hfaithful, hprepends⟩ := Label.smooth_faithful hl
  have hj := nodeStep_journalInv store.toEventsStore folds_append h.journal l
    (labelOk_of_faithful store.toEventsStore _ hfaithful)
  have hr := nodeStep_repliesInv store.toEventsStore e.log h.replies
    (replyLabelOk_of_faithful h.replies hfaithful hprepends)
  have harrived := @step_arrived S C E cfg store.toEventsStore e l hl
  obtain ⟨done, hin⟩ := h.inStep
  -- no command arrives
  have hkeep (hnone : arrivals e.node.arrived [l] = [])
      (hc : Complete (step cfg store.toEventsStore e l).log)
      (hin : ∃ done, InStep cfg all done (step cfg store.toEventsStore e l).node) :
      Going cfg (all ++ arrivals e.node.arrived [l]) (step cfg store.toEventsStore e l) := by
    rw [hnone, List.append_nil]
    refine ⟨hj, hr, hc, hin, h.fresh, fun c hc => ?_⟩
    have hlt := h.bound c hc
    omega
  have hlate : e.node.arrived ∉ all.map (·.1) := by
    intro hmem
    obtain ⟨c, hc, heq⟩ := List.mem_map.mp hmem
    have hlt := h.bound c hc
    omega
  cases l with
  | command ctx cmd =>
    refine ⟨hj, hr, h.complete, ⟨done, hin.arriveCommand h.replies.custody ctx cmd h.replies.getState_lt⟩,
      ?_, ?_⟩
    · rw [List.map_append]
      refine List.nodup_append.mpr ⟨h.fresh, List.nodup_singleton _, ?_⟩
      rintro id hid _ hid' rfl
      rw [List.mem_singleton.mp hid'] at hid
      exact hlate hid
    · intro c hc
      rcases List.mem_append.mp hc with hc | hc
      · exact Nat.lt_succ_of_lt (h.bound c hc)
      · rw [List.mem_singleton.mp hc]
        exact Nat.lt_succ_self _
  | getState ctx =>
    refine hkeep rfl h.complete ⟨done, hin.arrive _ _ _ rfl rfl ?_⟩
    rintro id ctx' heq
    cases heq
    exact hlate
  | flushTick => exact hkeep rfl h.complete ⟨done, hin.arrive _ _ _ rfl rfl (by simp)⟩
  | fire timer =>
    refine hkeep rfl h.complete ⟨done, ?_⟩
    simp only [step, nodeStep, fireTimer]
    split
    · exact hin.arrive _ _ _ rfl rfl (by simp)
    · exact hin
  | timeout | restart => simp [Label.smooth] at hl
  | write outcome =>
    obtain rfl := of_decide_eq_true hl
    obtain ⟨hin', hc'⟩ := write_inStep hstore hscope hin h.complete h.journal h.replies
    exact hkeep rfl hc' ⟨done, hin'⟩
  | deliver turn place =>
    obtain ⟨hplace, hintime⟩ := Bool.and_eq_true _ _ ▸ hl
    obtain rfl := List.isEmpty_iff.mp hplace
    exact hkeep rfl h.complete (deliver_inStep hin h.fresh h.journal h.replies hintime hdecl)

theorem run_going {store : RetainingStore} {e : Entity S C} {labels : List (Label C)}
    (hstore : Accepts store) (hscope : cfg.scope.valid = true) (h : Going cfg all e)
    (hl : ∀ l ∈ labels, l.smooth = true) (hdecl : Along (Sequential.handle cfg) Declares (.start cfg)
      ((all ++ arrivals e.node.arrived labels).map (·.2))) :
    Going cfg (all ++ arrivals e.node.arrived labels) (run (step cfg store.toEventsStore) e labels) := by
  induction labels generalizing e all with
  | nil => simpa [arrivals] using h
  | cons l labels ih =>
    obtain ⟨hl, hls⟩ := List.forall_mem_cons.mp hl
    rw [arrivals_cons store.toEventsStore e hl, ← List.append_assoc] at hdecl ⊢
    exact ih (step_going hstore hscope h hl (List.append_assoc _ _ _ ▸ hdecl)) hls hdecl

/-! ### The end of a run -/

theorem RequestsOk.waiting_nil (h : RequestsOk n) (ha : ∀ id < n.arrived, id ∈ n.replies.map Prod.fst) :
    waitingIds n = [] := by
  refine List.eq_nil_iff_forall_not_mem.mpr fun id hid => ?_
  obtain ⟨p, hp, rfl⟩ := List.mem_map.mp (ha id (h.lt id (List.mem_append_right _ hid)))
  exact h.answered_not_waiting hp hid

theorem Custody.settled_blocks (h : Custody cfg n) (hs : commandIds n.stash = []) :
    n.staging = [] ∧ ∀ w ∈ n.asks, w.blocks = [] := by
  have hnil {blocks : List Block} (h : idsOf blocks <+: commandIds n.stash) : blocks = [] := by
    rw [hs, List.prefix_nil] at h
    exact List.map_eq_nil_iff.mp h
  cases h with
  | working _ hs' _ ha => exact ⟨hnil (hs' ▸ List.prefix_refl _), by simp [ha]⟩
  | waiting _ hg hp ha hb => exact ⟨hg, by simp [ha, hb, hnil hp]⟩
  | told _ _ hg _ ha | draining _ _ hg _ ha => exact ⟨hg, by simp [ha]⟩
  | answering _ hg _ ha => exact ⟨hg, by simp [ha]⟩

theorem lookup_of_mem {α : Type} {ps : List (ℕ × α)} {a : α} (hn : (ps.map Prod.fst).Nodup)
    (h : (id, a) ∈ ps) : ps.lookup id = some a := by
  obtain ⟨before, after, rfl⟩ := List.append_of_mem h
  refine List.lookup_eq_some_iff.mpr ⟨before, after, rfl, fun p hp => ?_⟩
  rw [List.map_append, List.nodup_append] at hn
  have hne := hn.2.2 p.1 (List.mem_map_of_mem hp) id (by simp)
  simpa using hne.symm

theorem Going.settled {e : Entity S C} (h : Going cfg all e) (ha : AllAnswered e) :
    (Persistence.journal e.log).map untimed = (entityAfter cfg all).journal ∧
      (all.map fun c => answer e.node c.1) = (entityAfter cfg all).replies.map some := by
  obtain ⟨done, hin⟩ := h.inStep
  obtain ⟨hmail, hstash⟩ := List.append_eq_nil_iff.mp (h.replies.requests.waiting_nil ha)
  have hcommands {msgs : List (Message C)} (h : requestIds msgs = []) : commandIds msgs = [] :=
    List.eq_nil_of_subset_nil (h ▸ commandIds_subset msgs)
  have htodo : todo e.node = [] := by
    rw [todo, commands_append, commands_eq_nil (hcommands hmail), commands_eq_nil (hcommands hstash),
      List.append_nil, List.drop_nil]
  obtain rfl : done = all := by simpa [htodo] using hin.order
  obtain ⟨hstaging, hasks⟩ := h.replies.custody.settled_blocks (hcommands hstash)
  constructor
  · have hwriter : e.node.writer.flatMap (·.blocks) = [] := by
      rw [(h.replies.faithful not_false).inStep]
      exact List.flatMap_eq_nil_iff.mpr hasks
    rw [← hin.staged, hin.ledger, hwriter, hstaging, List.append_nil, List.append_nil, h.journal.ledger]
  · refine List.ext_getElem? fun k => ?_
    rw [List.getElem?_map, List.getElem?_map]
    cases hk : done[k]? with
    | none =>
      have hlen : (entityAfter cfg done).replies.length = done.length := (entityAfter_counts done).replies
      have hnone : (entityAfter cfg done).replies[k]? = none := by
        rw [List.getElem?_eq_none_iff] at hk ⊢
        omega
      rw [hnone]
      rfl
    | some c =>
      have hmem : c ∈ done := List.mem_of_getElem? hk
      obtain ⟨⟨id, r⟩, hr, hid⟩ := List.mem_map.mp (ha c.1 (h.bound c hmem))
      subst hid
      have hlookup := lookup_of_mem (List.nodup_append.mp h.replies.requests.nodup).1 hr
      have hown : (entityAfter cfg done).replies[k]? = some (untimedReply r) := by
        refine hin.own k c r hk ((h.replies.replies.right _ hr).imp_right ?_)
        rintro ⟨b, err, ho, heq⟩
        obtain ⟨hid, hreply⟩ := Prod.mk.inj heq
        have herr : err = none := hin.succeeded _ ho
        refine ⟨b, h.replies.blocks.settled_staged ho, hid.symm, ?_⟩
        rw [hreply, herr]
        rfl
      simp only [Option.map_some, answer, hlookup, hown]

/-! ### Two modes -/

def Config.withThreshold (cfg : Config S C E) (threshold : ℤ) : Config S C E :=
  { cfg with batchThreshold := threshold }

theorem buildEnvelopes_withThreshold (threshold : ℤ) (tc : Tenancy.TenantContext) (now : ℤ) (events : List E)
    (state : S) (counter : ℕ) : buildEnvelopes (cfg.withThreshold threshold) tc now events state counter =
      buildEnvelopes cfg tc now events state counter := by
  induction events generalizing state counter with
  | nil => rfl
  | cons event events ih =>
    simp only [buildEnvelopes, ih]
    rfl

theorem handle_withThreshold (cfg : Config S C E) (threshold : ℤ) :
    Sequential.handle (cfg.withThreshold threshold) = Sequential.handle cfg := by
  funext s c
  have hresult (tc : Tenancy.TenantContext) :
      handlerResult (cfg.withThreshold threshold) tc timeless s.state s.counter c.1 c.2 =
        handlerResult cfg tc timeless s.state s.counter c.1 c.2 := by
    simp only [handlerResult, buildEnvelopes_withThreshold]
    rfl
  simp only [Sequential.handle, hresult]
  rfl

theorem run_serving (cfg : Config S C E) (store : EventsStore) {labels : List (Label C)}
    (hl : ∀ l ∈ labels, l.smooth = true) : Serving cfg (run (step cfg store) (Entity.start cfg) labels).node := by
  refine run_invariant (step cfg store) (fun e => Serving cfg e.node) (fun e l h hl => ?_)
    (serving_start _ _ _) (along_of_forall _ hl)
  obtain ⟨hfaithful, hprepends⟩ := Label.smooth_faithful hl
  refine step_serving store h ?_ ?_
  · cases l with
    | restart => simp [Label.smooth] at hl
    | _ => rfl
  · cases l with
    | deliver turn place => exact h.replies.pendingFirst hprepends
    | _ => rfl

/-- Two actors that differ in their batch threshold only (a threshold that is not
positive is direct mode) get the same commands, interleaved with anything else,
and every declared revision is right: both come to an end with every command,
and then their journals and their replies are the same. -/
theorem modes_agree (cfg : Config S C E) (direct batched : ℤ) (store : RetainingStore)
    (hstore : Accepts store) (hscope : cfg.scope.valid = true) (labels labels' : List (Label C))
    (hl : ∀ l ∈ labels, l.smooth = true) (hl' : ∀ l ∈ labels', l.smooth = true)
    (hsame : (arrivals 0 labels).map (·.2) = (arrivals 0 labels').map (·.2))
    (hdecl : Along (Sequential.handle cfg) Declares (.start cfg) ((arrivals 0 labels).map (·.2))) :
    let e := run (step (cfg.withThreshold direct) store.toEventsStore)
      (Entity.start (cfg.withThreshold direct)) labels
    let e' := run (step (cfg.withThreshold batched) store.toEventsStore)
      (Entity.start (cfg.withThreshold batched)) labels'
    Eventually (step (cfg.withThreshold direct) store.toEventsStore) Enabled AllAnswered e ∧
      Eventually (step (cfg.withThreshold batched) store.toEventsStore) Enabled AllAnswered e' ∧
      (AllAnswered e → AllAnswered e' → (journal e.log).map untimed = (journal e'.log).map untimed ∧
        ((arrivals 0 labels).map fun c => answer e.node c.1) =
          (arrivals 0 labels').map fun c => answer e'.node c.1) := by
  intro e e'
  have hgoing : Going (cfg.withThreshold direct) ([] ++ arrivals 0 labels) e := by
    refine @run_going S C E (cfg.withThreshold direct) [] store _ labels hstore hscope (going_start _) hl ?_
    rw [handle_withThreshold]
    exact hdecl
  have hgoing' : Going (cfg.withThreshold batched) ([] ++ arrivals 0 labels') e' := by
    refine @run_going S C E (cfg.withThreshold batched) [] store _ labels' hstore hscope (going_start _) hl' ?_
    rw [handle_withThreshold]
    exact hsame ▸ hdecl
  refine ⟨(run_serving _ _ hl).eventually _, (run_serving _ _ hl').eventually _, fun ha ha' => ?_⟩
  obtain ⟨hj, hr⟩ := hgoing.settled ha
  obtain ⟨hj', hr'⟩ := hgoing'.settled ha'
  have hentity : entityAfter (cfg.withThreshold direct) (arrivals 0 labels) =
      entityAfter (cfg.withThreshold batched) (arrivals 0 labels') := by
    simp only [entityAfter, handle_withThreshold, hsame]
    rfl
  rw [List.nil_append] at hj hr hj' hr'
  exact ⟨by rw [hj, hj', hentity], by rw [hr, hr', hentity]⟩

theorem accepts_testkit : Accepts Testkit.retainingStore := by
  intro scope id old events p hscope hne _ _ hp
  cases hu : p.isUnconditional with
  | true =>
    refine ⟨if events = [] then old else some (Testkit.newEventLog old events), ?_⟩
    have hv : p.valid = true := by cases p <;> simp_all [WritePrecondition.isUnconditional, WritePrecondition.valid]
    change Testkit.writeRecord scope id old events p = _
    simp only [Testkit.writeRecord, hscope, hv, hu, Bool.not_true, Bool.false_eq_true, if_false, if_true]
  | false => exact ⟨_, (Testkit.writeRecord_conditional hu hne _).mpr ⟨hscope, hp, rfl⟩⟩

def storedSingly : List (Label Command) :=
  [.command (expecting 0) (.createAccount 5), .deliver (turnAt 1) [], .write .store, .deliver (turnAt 2) [],
    .deliver (turnAt 2) [], .command background .testNoEvent, .deliver (turnAt 3) [],
    .command (expecting 1) (.creditAccount "account" 2), .deliver (turnAt 4) [], .write .store,
    .deliver (turnAt 5) [], .deliver (turnAt 5) []]

def storedTogether : List (Label Command) :=
  [.command (expecting 0) (.createAccount 5), .deliver (turnAt 1) [], .command background .testNoEvent,
    .deliver (turnAt 1) [], .getState background, .deliver (turnAt 1) [],
    .command (expecting 1) (.creditAccount "account" 2), .deliver (turnAt 2) [], .write .store,
    .deliver (turnAt 3) [], .deliver (turnAt 3) [], .deliver (turnAt 3) []]

theorem modes_agree_account :
    let e := run (step ((accountConfig 0).withThreshold 0) Testkit.eventsStore)
      (Entity.start ((accountConfig 0).withThreshold 0)) storedSingly
    let e' := run (step ((accountConfig 0).withThreshold 2) Testkit.eventsStore)
      (Entity.start ((accountConfig 0).withThreshold 2)) storedTogether
    (journal e.log).length = 2 ∧ (journal e.log).map untimed = (journal e'.log).map untimed ∧
      [answer e.node 0, answer e.node 1, answer e.node 2] = [answer e'.node 0, answer e'.node 1, answer e'.node 3] := by
  obtain ⟨-, -, hend⟩ := modes_agree (accountConfig 0) 0 2 Testkit.retainingStore accepts_testkit rfl
    storedSingly storedTogether (by decide) (by decide) (by decide) (by decide)
  obtain ⟨hj, hr⟩ := hend (by decide) (by decide)
  exact ⟨by decide, hj, hr⟩

end

end Ego.EventSource

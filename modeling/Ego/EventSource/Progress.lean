import Ego.Lib.Eventually
import Ego.EventSource.SoleWriter

/-! # Every request is answered -/

namespace Ego.EventSource
open Persistence Lib
open Enginetest (Command accountConfig background turnAt)

section
variable {S C E : Type}

structure TimerInv (n : Node S C) : Prop where
  armed : ∀ t, n.actor.flushTimer = some t → t ∈ n.timers ∨ .batchFlushTick ∈ n.mailbox
  running : n.actor.phase = .processing → n.actor.batchEntries ≠ [] → n.actor.flushTimer ≠ none

variable {cfg : Config S C E} {n : Node S C}

variable {turn : Turn} {msg : Message C} {rest : List (Message C)} {a' : Actor S}
  {effects : List Effect}

theorem Reaction.timerInv (hre : Reaction cfg n.actor msg turn a' effects) (place : List Bool)
    (hok : PhaseOk cfg n.actor) (h : TimerInv n) (hm : n.mailbox = msg :: rest) :
    TimerInv (performAll msg place { n with actor := a', mailbox := rest } effects) := by
  -- other messages leave the tick in the mailbox
  have hkeep : msg ≠ .batchFlushTick → ∀ t, n.actor.flushTimer = some t →
      t ∈ n.timers ∨ .batchFlushTick ∈ rest := by
    intro hmsg t ht
    rcases h.armed t ht with h | h
    · exact .inl h
    · rw [hm] at h
      exact .inr (List.mem_of_ne_of_mem (Ne.symm hmsg) h)
  have hunstash : msg ≠ .batchFlushTick → ∀ t, n.actor.flushTimer = some t →
      t ∈ n.timers ∨ .batchFlushTick ∈ interleave place n.stash rest := by
    intro hmsg t ht
    exact (hkeep hmsg t ht).imp_right fun h => mem_interleave.mpr (.inr h)
  cases hre
  case ignored | stashedCommand | stashedRead | readDenied | read | denied | failed | unchanged |
      unchangedInBatch =>
    exact ⟨hkeep (by simp), h.running⟩
  case idleTick hp =>
    refine ⟨fun t ht => by simp at ht, fun hp' he => ?_⟩
    exact absurd hp (not_or.mpr ⟨not_not.mpr hp', he⟩)
  case tickFlush | gateFlush | foldFlush =>
    exact ⟨fun t ht => by simp [perform] at ht, fun hp => by simp [perform] at hp⟩
  case persist => exact ⟨hkeep (by simp), fun hp => by simp [perform] at hp⟩
  case fold timer started _ _ _ _ _ _ htimer =>
    rcases htimer with ⟨ht, rfl⟩ | ⟨-, rfl, rfl⟩
    · exact ⟨fun t ht' => hkeep (by simp) t (ht.trans ht'), fun _ _ => Option.some_ne_none _⟩
    · refine ⟨fun t ht' => .inl ?_, fun _ _ => Option.some_ne_none _⟩
      simp only [performAll_actor, Option.some.injEq] at ht'
      exact List.mem_append_right _ (List.mem_singleton.mpr ht'.symm)
  case directConfirmed | batchConfirmed =>
    rw [performAll_append, performAll_tellSnapshot]
    exact ⟨hunstash (by simp), fun hp => by simp [perform] at hp⟩
  case directFailed | batchFailed => exact ⟨hunstash (by simp), fun hp => by simp [perform] at hp⟩
  case replySuccess hp he =>
    exact ⟨hunstash (by simp), fun _ hne => absurd (hok.direct (hok.direct_of_phase (.inr hp))).2.1 hne⟩
  case replyFailure hp he =>
    rw [performAll_append, performAll_shutdown]
    exact ⟨hunstash (by simp), fun _ hne => absurd (hok.direct (hok.direct_of_phase (.inr hp))).2.1 hne⟩
  case drain => exact ⟨hkeep (by simp), h.running⟩
  case drainLast =>
    rw [performAll_cons, performAll_shutdown]
    exact ⟨hkeep (by simp), fun _ hne => absurd rfl hne⟩

def Message.weight : Message C → ℕ
  | .command _ _ _ => 3
  | _ => 1

def onTheWay (n : Node S C) : ℕ :=
  (n.mailbox.map Message.weight).sum + 2 * n.timers.length + 2 * n.writer.length + 2 * n.asks.length

def phasesLeft : PersistPhase → ℕ
  | .processing => 2
  | .persisting | .flushing => 1
  | .replying | .directReplying => 0

def rank (n : Node S C) : ℕ × ℕ × ℕ :=
  ((waitingIds n).length, phasesLeft n.actor.phase, onTheWay n)

theorem Message.weight_pos (msg : Message C) : 0 < msg.weight := by
  cases msg <;> simp [Message.weight]

section
variable {n' : Node S C}
  (hcount : n'.replies.length + (waitingIds n').length = n.replies.length + (waitingIds n).length)

include hcount

theorem lower_of_answer (h : n'.replies.length = n.replies.length + 1) : Lower (rank n') (rank n) := by
  refine .inl ?_
  simp only [rank]
  omega

theorem lower_of_phase (h : n'.replies = n.replies)
    (hp : phasesLeft n'.actor.phase < phasesLeft n.actor.phase) : Lower (rank n') (rank n) := by
  rw [h] at hcount
  exact .inr ⟨by simp only [rank]; omega, .inl hp⟩

theorem lower_of_use (h : n'.replies = n.replies) (hp : n'.actor.phase = n.actor.phase)
    (hlt : onTheWay n' < onTheWay n) : Lower (rank n') (rank n) := by
  rw [h] at hcount
  exact .inr ⟨by simp only [rank]; omega, .inr ⟨by simp only [rank, hp], hlt⟩⟩

end

theorem Reaction.waiting_length (hre : Reaction cfg n.actor msg turn a' effects) (place : List Bool)
    (hm : n.mailbox = msg :: rest) :
    (performAll msg place { n with actor := a', mailbox := rest } effects).replies.length +
      (waitingIds (performAll msg place { n with actor := a', mailbox := rest } effects)).length =
      n.replies.length + (waitingIds n).length := by
  have h := (hre.requests_perm place hm).length_eq
  simpa only [requestsOf, waitingIds, List.length_append, List.length_map] using h

theorem Reaction.lower (hre : Reaction cfg n.actor msg turn a' effects) (place : List Bool)
    (hm : n.mailbox = msg :: rest) :
    Lower (rank (performAll msg place { n with actor := a', mailbox := rest } effects)) (rank n) := by
  have hcount := hre.waiting_length place hm
  have hpos := msg.weight_pos
  have hpop : onTheWay { n with mailbox := rest } < onTheWay n := by
    simp only [onTheWay, hm, List.map_cons, List.sum_cons]
    omega
  cases hre
  case ignored | idleTick | stashedCommand | stashedRead => exact lower_of_use hcount rfl rfl hpop
  case readDenied | read | denied | failed | unchanged | unchangedInBatch | drain | replySuccess |
      replyFailure | drainLast =>
    exact lower_of_answer hcount (by simp [perform])
  case tickFlush hp _ | persist hp _ _ | directFailed hp | batchFailed hp =>
    exact lower_of_phase hcount rfl (by simp [perform, phasesLeft, hp])
  case gateFlush hp _ | foldFlush hp _ _ _ _ | directConfirmed hp _ | batchConfirmed hp _ =>
    exact lower_of_phase hcount (by simp [perform, performAll_append])
      (by simp [perform, performAll_append, phasesLeft, hp])
  case fold htimer =>
    rcases htimer with ⟨-, rfl⟩ | ⟨-, -, rfl⟩
    · exact lower_of_use hcount rfl rfl hpop
    · refine lower_of_use hcount rfl rfl ?_
      -- a command weighs more than the timer it starts
      simp [onTheWay, perform, hm, Message.weight]
      omega

def Enabled (e : Entity S C) : Label C → Prop
  | .deliver _ place => e.node.mailbox ≠ [] ∧ pendingFirst e.node place = true
  | .write _ => e.node.writer ≠ []
  | .timeout _ => e.node.asks ≠ []
  | .fire timer => timer ∈ e.node.timers
  | _ => False

def AllAnswered (e : Entity S C) : Prop := ∀ id < e.node.arrived, id ∈ e.node.replies.map Prod.fst

instance (e : Entity S C) : Decidable (AllAnswered e) :=
  inferInstanceAs (Decidable (∀ id < e.node.arrived, id ∈ e.node.replies.map Prod.fst))

structure Serving (cfg : Config S C E) (n : Node S C) : Prop where
  replies : RepliesInv cfg True n
  timers : TimerInv n
  kept : ∀ id < n.arrived, id ∈ requestsOf n

def Label.isRestart : Label C → Bool
  | .restart _ => true
  | _ => false

def unstashesFirst (e : Entity S C) : Label C → Bool
  | .deliver _ place => pendingFirst e.node place
  | _ => true

theorem TimerInv.of_mailbox {n' : Node S C} (h : TimerInv n) (ha : n'.actor = n.actor)
    (ht : n'.timers = n.timers) (hm : n.mailbox ⊆ n'.mailbox) : TimerInv n' where
  armed := by
    rw [ha, ht]
    exact fun t hft => (h.armed t hft).imp_right fun h => hm h
  running := by
    rw [ha]
    exact h.running

theorem answerAsk_timerInv (w : Write) (err : Option Err) (h : TimerInv n) : TimerInv (answerAsk w err n) := by
  unfold answerAsk
  split
  · exact h.of_mailbox rfl rfl (List.subset_append_left _ _)
  · exact h

theorem answerAsk_requests (w : Write) (err : Option Err) : requestsOf (answerAsk w err n) = requestsOf n := by
  unfold answerAsk
  split
  · simp [requestsOf]
  · rfl

variable {l : Label C}

theorem nodeStep_timerInv (store : EventsStore) (log : Option EventLog)
    (hok : PhaseOk cfg n.actor) (h : TimerInv n) (hl : l.isRestart = false) :
    TimerInv (nodeStep cfg store n log l).1 := by
  cases l with
  | command | getState | flushTick => exact h.of_mailbox rfl rfl (List.subset_append_left _ _)
  | restart snapshot => simp [Label.isRestart] at hl
  | deliver turn place =>
    cases hm : n.mailbox with
    | nil => simpa only [nodeStep, deliver_nil turn place hm] using h
    | cons msg rest =>
      obtain ⟨a', effects, hre, heq⟩ := deliver_reaction turn place hok hm
      simp only [nodeStep, heq]
      generalize n.computed ++ ownReplies n.actor.phase msg effects = computed
      exact hre.timerInv (n := { n with computed := computed }) place hok ⟨h.armed, h.running⟩ hm
  | write outcome =>
    cases hw : n.writer with
    | nil => simpa only [nodeStep, writeNext_nil store outcome log hw] using h
    | cons w later =>
      have hpop : ∀ committed, TimerInv { n with writer := later, committed := committed } :=
        fun _ => ⟨h.armed, h.running⟩
      rcases @writeNext_cases S C E cfg n w later store outcome log hw with
        ⟨log', -, heq | ⟨-, heq⟩⟩ | ⟨err, heq⟩ | ⟨-, heq⟩ <;> simp only [nodeStep, heq]
      · exact answerAsk_timerInv w none (hpop _)
      · exact hpop _
      · exact answerAsk_timerInv w (some err) (hpop _)
      · exact hpop _
  | timeout text =>
    simp only [nodeStep, timeoutAsk]
    split
    · exact h
    · exact answerAsk_timerInv _ _ h
  | fire timer =>
    simp only [nodeStep, fireTimer]
    split
    · refine ⟨fun t ht => ?_, h.running⟩
      rcases h.armed t ht with hmem | hmem
      · by_cases heq : t = timer
        · exact .inr (by simp)
        · exact .inl ((List.mem_erase_of_ne heq).mpr hmem)
      · exact .inr (List.mem_append_left _ hmem)
    · exact h

theorem nodeStep_kept (store : EventsStore) (log : Option EventLog)
    (hok : PhaseOk cfg n.actor) (h : ∀ id < n.arrived, id ∈ requestsOf n) (hl : l.isRestart = false) :
    ∀ id < (nodeStep cfg store n log l).1.arrived, id ∈ requestsOf (nodeStep cfg store n log l).1 := by
  have hask : ∀ (w : Write) (err : Option Err) (m : Node S C), m.arrived = n.arrived →
      requestsOf m = requestsOf n →
      ∀ id < (answerAsk w err m).arrived, id ∈ requestsOf (answerAsk w err m) := by
    intro w err m ha hr
    rw [answerAsk_requests, hr]
    unfold answerAsk
    split <;> simpa only [ha] using h
  have harrive : ∀ msg : Message C, msg.requestId? = some n.arrived → ∀ id < n.arrived + 1,
      id ∈ n.replies.map Prod.fst ++ (requestIds (n.mailbox ++ [msg]) ++ requestIds n.stash) := by
    intro msg hmsg id hid
    rcases Nat.lt_succ_iff_lt_or_eq.mp hid with hid | rfl
    · have := h id hid
      simp only [requestsOf, requestIds_append, List.mem_append] at this ⊢
      grind
    · simp [requestIds, hmsg]
  cases l with
  | command ctx cmd => exact harrive (.command n.arrived ctx cmd) rfl
  | getState ctx => exact harrive (.getState n.arrived ctx) rfl
  | flushTick => simpa [nodeStep, requestsOf] using h
  | restart snapshot => simp [Label.isRestart] at hl
  | deliver turn place =>
    cases hm : n.mailbox with
    | nil => simpa only [nodeStep, deliver_nil turn place hm] using h
    | cons msg rest =>
      obtain ⟨a', effects, hre, heq⟩ := deliver_reaction turn place hok hm
      simp only [nodeStep, heq]
      generalize n.computed ++ ownReplies n.actor.phase msg effects = computed
      have hperm := hre.requests_perm (n := { n with computed := computed }) place hm
      intro id hid
      rw [(performAll_frame _ _ _ _).2.1] at hid
      exact hperm.symm.subset (h id hid)
  | write outcome =>
    cases hw : n.writer with
    | nil => simpa only [nodeStep, writeNext_nil store outcome log hw] using h
    | cons w later =>
      rcases @writeNext_cases S C E cfg n w later store outcome log hw with
        ⟨log', -, heq | ⟨-, heq⟩⟩ | ⟨err, heq⟩ | ⟨-, heq⟩ <;> simp only [nodeStep, heq]
      · exact hask w none _ rfl rfl
      · exact h
      · exact hask w (some err) _ rfl rfl
      · exact h
  | timeout text =>
    simp only [nodeStep, timeoutAsk]
    split
    · exact h
    · exact hask _ _ n rfl rfl
  | fire timer =>
    simp only [nodeStep, fireTimer]
    split
    · simpa [requestsOf] using h
    · exact h

variable {e : Entity S C}

theorem step_serving (store : EventsStore) (h : Serving cfg e.node)
    (hl : l.isRestart = false) (hu : unstashesFirst e l = true) : Serving cfg (step cfg store e l).node := by
  refine ⟨nodeStep_repliesInv store e.log h.replies ?_, nodeStep_timerInv store e.log h.replies.phaseOk h.timers hl,
    nodeStep_kept store e.log h.replies.phaseOk h.kept hl⟩
  cases l with
  | deliver => exact hu
  | restart snapshot => simp [Label.isRestart] at hl
  | write => exact fun _ => trivial
  | command | getState | flushTick | timeout | fire => trivial

theorem Enabled.step_serving (store : EventsStore)
    (h : Serving cfg e.node) (hl : Enabled e l) : Serving cfg (step cfg store e l).node := by
  cases l with
  | deliver => exact EventSource.step_serving store h rfl hl.2
  | restart => exact hl.elim
  | _ => exact EventSource.step_serving store h rfl rfl

theorem answerAsk_onTheWay (w : Write) (err : Option Err) (n : Node S C) :
    onTheWay (answerAsk w err n) ≤ onTheWay n ∧ (w ∈ n.asks → onTheWay (answerAsk w err n) < onTheWay n) := by
  unfold answerAsk
  split
  · rename_i hany
    obtain ⟨w', hw', hid⟩ := List.any_eq_true.mp hany
    have hlt : (n.asks.filter (·.id != w.id)).length < n.asks.length :=
      List.length_filter_lt_length_iff_exists.mpr ⟨w', hw', by simpa using hid⟩
    simp only [onTheWay, List.map_append, List.map_cons, List.map_nil, List.sum_append,
      List.sum_cons, List.sum_nil, Message.weight]
    exact ⟨by omega, fun _ => by omega⟩
  · rename_i hany
    refine ⟨Nat.le_refl _, fun hw => ?_⟩
    simp only [List.any_eq_true, not_exists, not_and, beq_iff_eq] at hany
    exact absurd rfl (hany w hw)

theorem answerAsk_waiting (w : Write) (err : Option Err) (n : Node S C) :
    waitingIds (answerAsk w err n) = waitingIds n := by
  unfold answerAsk
  split
  · simp [waitingIds]
  · rfl

theorem Enabled.lower (store : EventsStore) (h : Serving cfg e.node)
    (hl : Enabled e l) : Lower (rank (step cfg store e l).node) (rank e.node) := by
  obtain ⟨n, log⟩ := e
  -- outside of a turn no request is answered and the phase stays
  have hask : ∀ (w : Write) (err : Option Err) (m : Node S C), m.actor = n.actor →
      m.replies = n.replies → waitingIds m = waitingIds n →
      onTheWay (answerAsk w err m) < onTheWay n → Lower (rank (answerAsk w err m)) (rank n) := by
    intro w err m ha hr hw hlt
    obtain ⟨ha', -, -, hr', -⟩ := answerAsk_frame w err m
    refine lower_of_use ?_ (hr'.trans hr) (by rw [ha', ha]) hlt
    rw [answerAsk_waiting, hr', hr, hw]
  cases l with
  | command | getState | flushTick | restart => exact hl.elim
  | deliver turn place =>
    obtain ⟨msg, rest, hm⟩ := List.exists_cons_of_ne_nil hl.1
    obtain ⟨a', effects, hre, heq⟩ := deliver_reaction turn place h.replies.phaseOk hm
    simp only [step, nodeStep, heq]
    generalize n.computed ++ ownReplies n.actor.phase msg effects = computed
    exact hre.lower (n := { n with computed := computed }) place hm
  | write outcome =>
    obtain ⟨w, later, hw⟩ : ∃ w later, n.writer = w :: later := List.exists_cons_of_ne_nil hl
    have hpop : ∀ committed, onTheWay { n with writer := later, committed := committed } < onTheWay n := by
      simp only [onTheWay, hw, List.length_cons]
      omega
    rcases @writeNext_cases S C E cfg n w later store outcome log hw with
      ⟨log', -, heq | ⟨-, heq⟩⟩ | ⟨err, heq⟩ | ⟨-, heq⟩ <;> simp only [step, nodeStep, heq]
    · exact hask w none _ rfl rfl rfl
        (Nat.lt_of_le_of_lt (answerAsk_onTheWay w none _).1 (hpop _))
    · exact lower_of_use rfl rfl rfl (hpop _)
    · exact hask w (some err) _ rfl rfl rfl
        (Nat.lt_of_le_of_lt (answerAsk_onTheWay w (some err) _).1 (hpop _))
    · exact lower_of_use rfl rfl rfl (hpop _)
  | timeout text =>
    obtain ⟨w, later, ha⟩ : ∃ w later, n.asks = w :: later := List.exists_cons_of_ne_nil hl
    simp only [step, nodeStep, timeoutAsk, ha]
    exact hask w _ n rfl rfl rfl ((answerAsk_onTheWay w _ n).2 (by simp [ha]))
  | fire timer =>
    have hmem : timer ∈ n.timers := hl
    simp only [step, nodeStep, fireTimer, hmem, if_true]
    refine lower_of_use (by simp [waitingIds]) rfl rfl ?_
    have hlen := List.length_erase_of_mem hmem
    have hpos := List.length_pos_of_mem hmem
    simp only [onTheWay, List.map_append, List.map_cons, List.map_nil, List.sum_append,
      List.sum_cons, List.sum_nil, Message.weight]
    omega

theorem Serving.goes_on (h : Serving cfg e.node) (hw : ¬ AllAnswered e) : ∃ l, Enabled e l := by
  by_contra hstuck
  have hnone := fun l hl => hstuck ⟨l, hl⟩
  have hmail : e.node.mailbox = [] := by
    by_contra hne
    exact hnone (.deliver ⟨0, none, none, 0⟩ []) ⟨hne, pendingFirst_nil _ h.replies.custody.owed_le⟩
  have hasks : e.node.asks = [] := by
    by_contra hne
    exact hnone (.timeout "") hne
  have htimers : e.node.timers = [] := by
    by_contra hne
    obtain ⟨t, ht⟩ := List.exists_mem_of_ne_nil _ hne
    exact hnone (.fire t) ht
  -- an actor with an empty mailbox and nothing on the way has no batch and no stash
  have hstash : requestIds e.node.stash = [] := by
    cases h.replies.custody with
    | working hp hs hq ha hr he =>
      have hentries : e.node.actor.batchEntries = [] := by
        by_contra hne
        cases ht : e.node.actor.flushTimer with
        | none => exact h.timers.running hp hne ht
        | some t =>
          have := h.timers.armed t ht
          simp [htimers, hmail] at this
      have hstaging : e.node.staging = [] := by
        rw [hentries] at he
        simpa using he.symm
      rw [hq, hs, hstaging, idsOf_nil]
    | waiting _ _ _ ha => simp [hasks] at ha
    | told _ _ _ _ _ hr => simp [hmail] at hr
    | draining _ _ _ hs => rw [hs, requestIds_nil]
    | answering _ _ _ _ _ _ _ _ hm => simp [hmail] at hm
  refine hw fun id hid => ?_
  have hkept := h.kept id hid
  simpa [requestsOf, hmail, hstash] using hkept

theorem Serving.eventually (store : EventsStore) (h : Serving cfg e.node) :
    Eventually (step cfg store) Enabled AllAnswered e :=
  eventually_of_rank lower_wellFounded (fun e => rank e.node) (fun e => Serving cfg e.node)
    (fun _ _ h hl => hl.step_serving store h) (fun _ _ h hl => hl.lower store h)
    (fun _ h hw => h.goes_on hw) h

theorem serving_start (state : S) (counter : ℕ) (tenant : Tenancy.TenantContext) :
    Serving cfg (Node.start (.new state counter tenant) : Node S C) :=
  ⟨repliesInv_start state counter tenant, ⟨by simp [Node.start, Actor.new], by simp [Node.start, Actor.new]⟩,
    by simp [Node.start]⟩

/-- Whatever the order of arrivals and outcomes, as long as `UnstashAll` puts the
commands that are owed a reply ahead of other commands: every handler runs once
at most, every request gets one reply, and it is its own. -/
theorem replies_correlate (cfg : Config S C E) (store : EventsStore) (labels : List (Label C))
    (hone : ∀ l ∈ labels, l.isRestart = false)
    (hu : Along (step cfg store) (fun e l => unstashesFirst e l = true) (Entity.start cfg) labels) :
    let e := run (step cfg store) (Entity.start cfg) labels
    e.node.handled.Nodup ∧ (e.node.replies.map Prod.fst).Nodup ∧
      (∀ p ∈ e.node.replies, p ∈ e.node.computed ∨
        ∃ b ∈ e.node.staged, ∃ r err, b.reply = .stateReply r ∧ OwnResult cfg b.envelopes r ∧
          (b, err) ∈ e.node.outcomes ∧ p = (b.id, b.answer err)) ∧
      Eventually (step cfg store) Enabled AllAnswered e := by
  intro e
  have hserving : Serving cfg e.node :=
    run_invariant (step cfg store) (fun e => Serving cfg e.node)
      (fun e l h hl => step_serving store h hl.1 hl.2) (serving_start _ _ _)
      ((along_of_forall _ hone).and _ hu)
  refine ⟨hserving.replies.handled.nodup, (List.nodup_append.mp hserving.replies.requests.nodup).1,
    fun p hp => ?_, ?_⟩
  · refine (hserving.replies.replies.right p hp).imp_right ?_
    rintro ⟨b, err, ho, rfl⟩
    have hstaged := hserving.replies.blocks.settled_staged ho
    obtain ⟨r, hr, hown⟩ := hserving.replies.blocks.promises b hstaged
    exact ⟨b, hstaged, r, err, hr, hown, ho, rfl⟩
  · exact hserving.eventually store

theorem replies_correlate_account :
    let e := run (step (accountConfig 2) Testkit.eventsStore) (Entity.start (accountConfig 2))
      batchedAccount
    e.node.handled = [0, 1, 2, 3] ∧ e.node.replies.map Prod.fst = [0, 1, 2] ∧
      Eventually (step (accountConfig 2) Testkit.eventsStore) Enabled AllAnswered e :=
  ⟨by decide, by decide, (replies_correlate (accountConfig 2) Testkit.eventsStore batchedAccount
    (by decide) (by decide)).2.2.2⟩

def swappedAccount : List (Label Command) :=
  [.command background (.createAccount 5), .deliver (turnAt 1) [], .write .store,
    .command background (.createAccount 7), .deliver (turnAt 2) [false], .deliver (turnAt 3) [],
    .deliver (turnAt 4) []]

/-- The second command is told of the first one's result and never handled, and
the first one's handler runs twice. -/
theorem reply_goes_astray :
    let e := run (step (accountConfig 0) Testkit.eventsStore) (Entity.start (accountConfig 0))
      swappedAccount
    e.node.handled = [0, 0] ∧
      e.node.replies = [(1, .stateReply ⟨"account", ⟨"testpb.Account", Enginetest.encodeNat 5⟩, 1, 1⟩)] ∧
      e.node.staged.map (·.id) = [0, 0] := by
  decide

end

end Ego.EventSource

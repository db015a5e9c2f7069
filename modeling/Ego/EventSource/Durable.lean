import Ego.EventSource.SoleWriter

/-!
# What a successful reply shows is stored

A reply with number `n` is durable if the events `1..n` are in the journal.
-/

namespace Ego.EventSource
open Persistence Protocol Lib
open Enginetest (Command accountConfig background turnAt)

section
variable {S C E : Type} (cfg : Config S C E)

def Durable (journal : List Event) : CommandReply → Prop
  | .errorReply _ => True
  | .stateReply r => r.sequenceNumber ≤ journal.length ∧
      ∃ state, stateOf cfg (journal.take r.sequenceNumber) = .ok state ∧ r.state = cfg.codec.newState state

def horizon (n : Node S C) (journal : List Event) : List Event :=
  match n.actor.phase with
  | .processing => journal ++ envelopesOf n.staging
  | .flushing => journal.take n.actor.eventsCounter ++ envelopesOf n.awaited
  | _ => journal

structure DurableInv (n : Node S C) (journal : List Event) : Prop where
  cache : ∀ a, n.actor.cachedStateAny = some a → a = cfg.codec.newState n.actor.currentState
  entries : ∀ reply ∈ n.actor.batchEntries, Durable cfg (horizon n journal) reply
  replies : ∀ p ∈ n.replies, Durable cfg journal p.2

def repliesFromBatch (n : Node S C) : Label C → Bool
  | .deliver turn _ =>
    match n.mailbox with
    | .command _ ctx cmd :: _ =>
      n.actor.phase = .processing && !n.actor.batchEntries.isEmpty && (tenantGate cfg n.actor ctx).isOk &&
        (checkDeadline turn.beforeHandler "before handler execution").isOk &&
        !inadmissible n.actor ctx &&
        (match dispatchToBehavior cfg ctx cmd (latestState n.actor) with
          | .ok [] => true
          | _ => false)
    | _ => false
  | _ => false

variable {cfg} {n : Node S C} {J : List Event}

theorem Durable.append {reply : CommandReply} (h : Durable cfg J reply) (events : List Event) :
    Durable cfg (J ++ events) reply := by
  cases reply with
  | errorReply => trivial
  | stateReply r =>
    obtain ⟨hle, state, hs, heq⟩ := h
    refine ⟨?_, state, ?_, heq⟩
    · rw [List.length_append]
      omega
    · rwa [List.take_append_of_le_length hle]

theorem durable_of_folds {state : S} {r : StateReply} (hs : Folds cfg J state)
    (hn : r.sequenceNumber = J.length) (hr : r.state = cfg.codec.newState state) : Durable cfg J (.stateReply r) :=
  ⟨Nat.le_of_eq hn, state, by rw [hn, List.take_length]; exact hs, hr⟩

theorem Stage.known {ambiguous : Prop} {track : List Event → S → Prop} {v : View S}
    (h : Stage cfg ambiguous track v J) : ∃ known extra, J = known ++ extra ∧
      InSync track v.state v.counter known := by
  have hexact : Exact track v J → ∃ known extra, J = known ++ extra ∧
      InSync track v.state v.counter known := fun h => ⟨J, [], (List.append_nil J).symm, h.2⟩
  have hbehind : Behind track v J → ∃ known extra, J = known ++ extra ∧
      InSync track v.state v.counter known := by
    intro h
    cases h with
    | stored _ hs _ hj => exact ⟨_, _, hj, hs⟩
    | onItsWay _ hs => exact ⟨J, [], (List.append_nil J).symm, hs⟩
  cases h with
  | ready _ _ _ hj => exact hexact hj
  | waiting _ _ _ _ _ hs => exact ⟨J, [], (List.append_nil J).symm, hs⟩
  | doomed _ _ _ _ _ _ _ _ hj | lost _ _ _ _ _ _ _ hj => exact hbehind hj
  | confirmed _ _ _ _ _ _ hs hj => exact ⟨_, _, hj, hs⟩
  | rejected _ _ _ _ _ hj | draining _ _ _ _ hj => exact hj.elim hexact fun h => hbehind h.2.2

theorem currentReply_durable {ambiguous : Prop} (h : Stage cfg ambiguous (Folds cfg) n.view J)
    (hc : ∀ a, n.actor.cachedStateAny = some a → a = cfg.codec.newState n.actor.currentState) :
    Durable cfg J (currentReply cfg n.actor) := by
  obtain ⟨known, extra, rfl, hs⟩ := h.known
  refine (durable_of_folds hs.tracks hs.length.symm ?_).append extra
  simp only [currentStateAny]
  cases hcache : n.actor.cachedStateAny with
  | none => rfl
  | some a => exact hc a hcache

variable {n' : Node S C}

theorem DurableInv.keep (h : DurableInv cfg n J) (sent : List (ℕ × CommandReply))
    (hc : ∀ a, n'.actor.cachedStateAny = some a → a = cfg.codec.newState n'.actor.currentState)
    (he : n'.actor.batchEntries = n.actor.batchEntries) (hh : horizon n' J = horizon n J)
    (hr : n'.replies = n.replies ++ sent) (hs : ∀ p ∈ sent, Durable cfg J p.2) : DurableInv cfg n' J where
  cache := hc
  entries := by
    rw [he, hh]
    exact h.entries
  replies := by
    rw [hr]
    exact List.forall_mem_append.mpr ⟨h.replies, hs⟩

theorem DurableInv.close (h : DurableInv cfg n J) (sent : List (ℕ × CommandReply))
    (hc : ∀ a, n'.actor.cachedStateAny = some a → a = cfg.codec.newState n'.actor.currentState)
    (he : n'.actor.batchEntries = []) (hr : n'.replies = n.replies ++ sent)
    (hs : ∀ p ∈ sent, Durable cfg J p.2) : DurableInv cfg n' J where
  cache := hc
  entries := by simp [he]
  replies := by
    rw [hr]
    exact List.forall_mem_append.mpr ⟨h.replies, hs⟩

theorem DurableInv.fold (h : DurableInv cfg n J)
    (hsync : InSync (Folds cfg) n.actor.currentState n.actor.eventsCounter J)
    (hb : BatchOk cfg n.view) (hp : n.actor.phase = .processing) {b : Block} {state : S} {counter : ℕ}
    (hx : Extends cfg (latestState n.actor) (latestCounter n.actor) b.envelopes state counter)
    (now : ℤ) : ∀ reply ∈ n.actor.batchEntries ++ [pendingReply cfg state counter now],
      Durable cfg (J ++ envelopesOf (n.staging ++ [b])) reply := by
  have hsync' := hsync.append folds_append ((hb.latest hp).append hx)
  rw [envelopesOf_append, envelopesOf_singleton]
  refine List.forall_mem_append.mpr ⟨fun reply hr => ?_, List.forall_mem_singleton.mpr ?_⟩
  · have hold := h.entries reply hr
    simp only [horizon, hp] at hold
    rw [← List.append_assoc]
    exact hold.append b.envelopes
  · exact durable_of_folds hsync'.tracks hsync'.length.symm rfl

variable {log : Option EventLog}

theorem Reaction.durable {turn : Turn} {msg : Message C} {rest : List (Message C)} {a' : Actor S}
    {effects : List Effect} (hre : Reaction cfg n.actor msg turn a' effects)
    (place : List Bool) (hok : PhaseOk cfg n.actor)
    (hstage : Stage cfg False (Folds cfg) n.view (journal log)) (h : DurableInv cfg n (journal log))
    (hno : repliesFromBatch cfg n (.deliver turn place) = false) (hm : n.mailbox = msg :: rest) :
    DurableInv cfg (performAll msg place { n with actor := a', mailbox := rest } effects)
      (journal log) := by
  have hcur := currentReply_durable hstage h.cache
  have hcache : ∀ a, some (currentStateAny cfg n.actor) = some a →
      a = cfg.codec.newState n.actor.currentState := by
    intro a ha
    rw [← Option.some.inj ha, currentStateAny]
    cases hc : n.actor.cachedStateAny with
    | none => rfl
    | some c => exact h.cache c hc
  have hdirect := fun hp => (hok.direct (hok.direct_of_phase hp)).2.1
  -- a batch is only held by an actor in step with its journal
  have hready := fun hp => hstage.exact_of_yields hp fun _ hamb => hamb.elim
  have hopen : n.actor.phase = .processing →
      (journal log).take n.actor.eventsCounter = journal log := by
    intro hp
    have hl : (journal log).length = n.actor.eventsCounter := (hready hp).1.2.length
    rw [← hl, List.take_length]
  cases hre
  case ignored | idleTick | stashedCommand | stashedRead =>
    exact h.keep [] h.cache rfl rfl (List.append_nil _).symm (by simp)
  case readDenied | denied | failed =>
    exact h.keep _ h.cache rfl rfl rfl (List.forall_mem_singleton.mpr trivial)
  case read | unchanged =>
    exact h.keep _ hcache rfl rfl rfl (List.forall_mem_singleton.mpr hcur)
  case unchangedInBatch ctx cmd tc hasPre hp hpre he hadm hd hgate =>
    simp [repliesFromBatch, hm, hp, he, hadm, hd, hgate.1, hgate.2, Except.isOk, Except.toBool] at hno
  case persist hmode hp _ _ =>
    exact h.close [] h.cache (hok.direct hmode).2.1 (List.append_nil _).symm (by simp)
  case tickFlush hmode hp he =>
    refine h.keep [] h.cache rfl ?_ (List.append_nil _).symm (by simp)
    simp [horizon, perform, hp, hopen hp]
  case gateFlush hmode hp hadm =>
    rw [performAll_append, performAll_stopped]
    refine h.keep [] h.cache rfl ?_ (List.append_nil _).symm (by simp)
    simp [horizon, perform, hp, hopen hp]
  case fold id ctx cmd tc tenant hasPre base envelopes state counter timer started hmode hp
      hadm hbase hgate hprod htimer =>
    obtain ⟨hj, hb, -⟩ := hready hp
    have hfold := h.fold hj.2 hb hp (b := ⟨id, envelopes, pendingReply cfg state counter turn.now⟩)
      hprod.extends turn.now
    rcases htimer with ⟨-, rfl⟩ | ⟨-, rfl, rfl⟩ <;>
      exact ⟨h.cache, by simpa [horizon, perform, hp, foldInto, Message.id] using hfold, h.replies⟩
  case foldFlush id ctx cmd tc tenant hasPre base envelopes state counter hmode hp hadm hbase
      hgate hprod =>
    obtain ⟨hj, hb, -⟩ := hready hp
    have hfold := h.fold hj.2 hb hp (b := ⟨id, envelopes, pendingReply cfg state counter turn.now⟩)
      hprod.extends turn.now
    rw [performAll_append, performAll_append, performAll_stopped]
    refine ⟨h.cache, ?_, h.replies⟩
    simpa [horizon, perform, hp, foldInto, Message.id, hopen hp] using hfold
  case directConfirmed snaps hp hs =>
    rw [performAll_append, performAll_tellSnapshot]
    exact h.close [] (fun a ha => (Option.some.inj ha).symm) (hdirect (.inl hp))
      (List.append_nil _).symm (by simp)
  case directFailed hp =>
    exact h.close [] h.cache (hdirect (.inl hp)) (List.append_nil _).symm (by simp)
  case batchConfirmed snaps hp hs =>
    obtain ⟨-, -, -, -, -, known, hsync, hj⟩ := hstage.of_success hm
    rw [performAll_append, performAll_tellSnapshot]
    refine h.keep [] (fun a ha => (Option.some.inj ha).symm) rfl ?_
      (List.append_nil _).symm (by simp)
    simp only [horizon, performAll, perform, hp, List.foldl_cons, List.foldl_nil]
    rw [hj, ← hsync.length, List.take_left]
  case batchFailed err hp =>
    refine ⟨h.cache, fun reply hr => ?_, h.replies⟩
    obtain ⟨entry, -, rfl⟩ := List.mem_map.mp hr
    trivial
  case replySuccess hp he =>
    exact h.close _ hcache (hdirect (.inr hp)) rfl (List.forall_mem_singleton.mpr hcur)
  case replyFailure hp he =>
    rw [performAll_append, performAll_shutdown]
    exact h.close _ h.cache (hdirect (.inr hp)) rfl (List.forall_mem_singleton.mpr trivial)
  case drain reply hp hrem hl =>
    have hreply := h.entries reply (List.mem_of_getElem? hl)
    simp only [horizon, hp] at hreply
    exact h.keep _ h.cache rfl rfl rfl (List.forall_mem_singleton.mpr hreply)
  case drainLast reply hp hrem hl =>
    have hreply := h.entries reply (List.mem_of_getElem? hl)
    simp only [horizon, hp] at hreply
    rw [performAll_cons, performAll_shutdown]
    exact h.close _ h.cache rfl rfl (List.forall_mem_singleton.mpr hreply)

theorem DurableInv.append (h : DurableInv cfg n J) (events : List Event)
    (ha : n'.actor = n.actor) (hg : n'.staging = n.staging) (hw : n'.awaited = n.awaited) (hr : n'.replies = n.replies)
    (hx : events = [] ∨ n.actor.phase ≠ .processing ∧ n.actor.eventsCounter ≤ J.length) :
    DurableInv cfg n' (J ++ events) where
  cache := by
    rw [ha]
    exact h.cache
  entries := by
    intro reply hreply
    rw [ha] at hreply
    have hold := h.entries reply hreply
    simp only [horizon, ha, hg, hw] at hold ⊢
    rcases hx with rfl | ⟨hp, hle⟩
    · simpa only [List.append_nil] using hold
    · cases hphase : n.actor.phase with
      | processing => exact absurd hphase hp
      | flushing =>
        simp only [hphase] at hold ⊢
        rwa [List.take_append_of_le_length hle]
      | replying | persisting | directReplying =>
        simp only [hphase] at hold ⊢
        exact hold.append events
  replies := by
    rw [hr]
    exact fun p hp => (h.replies p hp).append events

theorem nodeStep_durable (store : EventsStore) {l : Label C}
    (hj : JournalInv cfg False (Folds cfg) n log) (h : DurableInv cfg n (journal log))
    (hf : l.faithful = true) (hno : repliesFromBatch cfg n l = false) :
    DurableInv cfg (nodeStep cfg store n log l).1 (journal (nodeStep cfg store n log l).2) := by
  have hsame : ∀ n' : Node S C, n'.actor = n.actor → n'.staging = n.staging →
      n'.awaited = n.awaited → n'.replies = n.replies → DurableInv cfg n' (journal log) := by
    intro n' ha hg hw hr
    simpa using h.append [] ha hg hw hr (.inl rfl)
  cases l with
  | command | getState | flushTick => exact hsame _ rfl rfl rfl rfl
  | timeout | restart => simp [Label.faithful] at hf
  | fire timer =>
    simp only [nodeStep, fireTimer]
    split
    · exact hsame _ rfl rfl rfl rfl
    · exact h
  | deliver turn place =>
    cases hm : n.mailbox with
    | nil => simpa only [nodeStep, deliver_nil turn place hm] using h
    | cons msg rest =>
      obtain ⟨a', effects, hre, heq⟩ := deliver_reaction turn place hj.phaseOk hm
      simp only [nodeStep, heq]
      generalize n.computed ++ ownReplies n.actor.phase msg effects = computed
      exact hre.durable (n := { n with computed := computed }) place hj.phaseOk hj.stage
        ⟨h.cache, h.entries, h.replies⟩ hno hm
  | write outcome =>
    cases hw : n.writer with
    | nil => simpa only [nodeStep, writeNext_nil store outcome log hw] using h
    | cons w later =>
      obtain ⟨hp, hlen, hfresh⟩ := hj.stage.of_writer hw
      rcases @writeNext_cases S C E cfg n w later store outcome log hw with
        ⟨log', hok, heq | ⟨-, heq⟩⟩ | ⟨err, heq⟩ | ⟨-, heq⟩ <;> simp only [nodeStep, heq]
      · obtain ⟨ha, hg, haw, hr, -⟩ := answerAsk_frame w none
          { n with writer := later, committed := n.committed ++ w.blocks }
        rw [store.appends _ _ _ _ _ _ hok hfresh]
        exact h.append _ ha hg haw hr (.inr ⟨hp, Nat.le_of_eq hlen.symm⟩)
      · rw [store.appends _ _ _ _ _ _ hok hfresh]
        exact h.append _ rfl rfl rfl rfl (.inr ⟨hp, Nat.le_of_eq hlen.symm⟩)
      · obtain ⟨ha, hg, haw, hr, -⟩ := answerAsk_frame w (some err) { n with writer := later }
        exact hsame _ ha hg haw hr
      · exact hsame _ rfl rfl rfl rfl

theorem eq_ok_of_isOk {ε α : Type} {x : Except ε α} (h : x.isOk = true) : ∃ a, x = .ok a := by
  cases x with
  | error => simp [Except.isOk, Except.toBool] at h
  | ok a => exact ⟨a, rfl⟩

theorem deliver_repliesFromBatch {turn : Turn} {place : List Bool} (hok : PhaseOk cfg n.actor)
    (h : repliesFromBatch cfg n (.deliver turn place) = true) :
    n.actor.phase = .processing ∧ n.actor.batchEntries ≠ [] ∧ ∃ id r,
      (id, .stateReply r) ∈ (deliver cfg turn place n).replies ∧ r.sequenceNumber = n.actor.batchCounter := by
  unfold repliesFromBatch at h
  dsimp only at h
  split at h
  · rename_i id ctx cmd rest hm
    simp only [Bool.and_eq_true, decide_eq_true_eq, Bool.not_eq_true'] at h
    obtain ⟨⟨⟨⟨⟨hp, he⟩, htenant⟩, hdl⟩, hadm⟩, hd⟩ := h
    have he' : n.actor.batchEntries ≠ [] := by simpa using he
    have hmode : cfg.batchEnabled = true := by
      by_contra hmode
      exact he' (hok.direct (Bool.not_eq_true _ ▸ hmode)).2.1
    obtain ⟨tc, htenant⟩ := eq_ok_of_isOk htenant
    obtain ⟨⟨⟩, hdl⟩ := eq_ok_of_isOk hdl
    have hd' : dispatchToBehavior cfg ctx cmd (latestState n.actor) = .ok [] := by
      split at hd
      · assumption
      · simp at hd
    refine ⟨hp, he', id, ⟨cfg.persistenceID, cfg.codec.newState (latestState n.actor),
      latestCounter n.actor, n.actor.lastCommandTime⟩, ?_, by simp [latestCounter, he']⟩
    simp only [deliver, hm, receive, hmode, if_true, handleCommandBatched, hp, processAndBatch,
      htenant, hdl, hadm, Bool.false_eq_true, if_false, hd']
    split <;> simp [perform, Message.id]
  · simp at h

theorem JournalInv.batchCounter_gt {track : List Event → S → Prop}
    (h : JournalInv cfg False track n log) (hp : n.actor.phase = .processing)
    (he : n.actor.batchEntries ≠ []) : (journal log).length < n.actor.batchCounter := by
  obtain ⟨hj, hb, -⟩ := h.stage.exact_of_yields hp fun _ hamb => hamb.elim
  obtain ⟨state, -, hext⟩ := hb.of_open hp he
  obtain ⟨b, hmem⟩ := List.exists_mem_of_ne_nil _ (hb.staging_ne he)
  have hlen : (journal log).length = n.actor.eventsCounter := hj.2.length
  have hpos : 0 < (envelopesOf n.staging).length := by
    obtain ⟨e, he⟩ := List.exists_mem_of_ne_nil _ (hb.filled b hmem)
    exact List.length_pos_of_mem (List.mem_flatMap.mpr ⟨b, hmem, he⟩)
  have hcounter := hext.counter_eq
  omega

/-- Every successful reply shows what is stored, exactly in the runs in which no
command without events is taken up while a batch is open. -/
theorem replies_durable_iff (cfg : Config S C E) (store : EventsStore) (labels : List (Label C))
    (hf : ∀ l ∈ labels, l.faithful = true) : (∀ before, before <+: labels →
        let e := run (step cfg store) (Entity.start cfg) before
        ∀ id r, (id, .stateReply r) ∈ e.node.replies → Durable cfg (journal e.log) (.stateReply r)) ↔
      Along (step cfg store) (fun e l => repliesFromBatch cfg e.node l = false) (Entity.start cfg)
        labels := by
  have hfaithful : ∀ ls, ls <+: labels → ∀ l ∈ ls, l.faithful = true :=
    fun ls hls l hl => hf l (hls.subset hl)
  constructor
  · intro h
    refine along_of_prefixes _ fun before l hpre => ?_
    rw [← Bool.not_eq_true]
    intro hbad
    have hj := run_journalInv cfg store (hfaithful before ((List.prefix_append _ _).trans hpre))
    cases l with
    | deliver turn place =>
      obtain ⟨hp, he, id, r, hr, hseq⟩ := deliver_repliesFromBatch hj.phaseOk hbad
      have hdur := h _ hpre id r (by rw [run_append]; exact hr)
      have hlen := hdur.1
      rw [run_append] at hlen
      have hgt := hj.batchCounter_gt hp he
      rw [← hseq] at hgt
      exact Nat.not_lt.mpr hlen hgt
    | _ => simp [repliesFromBatch] at hbad
  · rintro halong before ⟨later, rfl⟩ e id r hr
    have hboth := ((along_of_forall _ hf).and _ halong)
    have hinv := run_invariant (step cfg store)
      (fun e => JournalInv cfg False (Folds cfg) e.node e.log ∧ DurableInv cfg e.node (journal e.log))
      (fun e l h hl => ⟨nodeStep_journalInv store folds_append h.1 l (labelOk_of_faithful store _ hl.1),
        nodeStep_durable store h.1 h.2 hl.1 hl.2⟩)
      ⟨journalInv_start rfl, ⟨by simp [Entity.start, Node.start, Actor.new],
        by simp [Entity.start, Node.start, Actor.new], by simp [Entity.start, Node.start]⟩⟩
      ((along_append _).mp hboth).1
    exact hinv.2.replies _ hr

theorem replies_durable_account : (∀ l ∈ batchedAccount, l.faithful = true) ∧
    ∀ before, before <+: batchedAccount →
      let e := run (step (accountConfig 2) Testkit.eventsStore) (Entity.start (accountConfig 2)) before
      ∀ id r, (id, .stateReply r) ∈ e.node.replies → Durable (accountConfig 2) (journal e.log) (.stateReply r) :=
  ⟨by decide, (replies_durable_iff (accountConfig 2) Testkit.eventsStore batchedAccount (by decide)).mpr
    (by decide)⟩

def exposedAccount : List (Label Command) :=
  [.command background (.createAccount 5), .deliver (turnAt 1) [],
    .command background .testNoEvent, .deliver (turnAt 2) [], .fire 0, .deliver (turnAt 3) [],
    .write (.fail (.message "connection lost")), .deliver (turnAt 4) [], .deliver (turnAt 4) []]

/-- It was told of a balance of five after one event, and nothing is stored. -/
theorem reply_shows_discarded_state :
    let e := run (step (accountConfig 2) Testkit.eventsStore) (Entity.start (accountConfig 2))
      exposedAccount
    let r : StateReply := ⟨"account", ⟨"testpb.Account", Enginetest.encodeNat 5⟩, 1, zeroTime⟩
    (∀ l ∈ exposedAccount, l.faithful = true) ∧ (1, .stateReply r) ∈ e.node.replies ∧
      ¬ Durable (accountConfig 2) (journal e.log) (.stateReply r) ∧
      (0, .errorReply (.message "connection lost")) ∈ e.node.replies := by
  refine ⟨by decide, by decide, fun h => ?_, by decide⟩
  exact absurd h.1 (by decide)

end

end Ego.EventSource

import Ego.EventSource.Replies

/-!
# The staged blocks, their outcomes and the replies

A block is what one command staged.
-/

namespace Ego.EventSource
open Persistence Protocol Lib

section
variable {S C E : Type} {cfg : Config S C E} {n : Node S C} {ambiguous : Prop}

def referred (n : Node S C) : List Block :=
  n.staging ++ (n.awaited ++ (n.committed ++ ((n.writer ++ n.asks).flatMap (·.blocks) ++ n.outcomes.map Prod.fst)))

def ledgerIds (n : Node S C) : List ℕ :=
  n.outcomes.map (·.1.id) ++ (n.asks.flatMap (fun w => idsOf w.blocks) ++ idsOf n.staging)

theorem mem_ledgerIds {id : ℕ} (h : id ∈ ledgerIds n) : ∃ b ∈ referred n, b.id = id := by
  simp only [ledgerIds, idsOf, List.mem_append, List.mem_map, List.mem_flatMap] at h
  rcases h with ⟨p, hp, rfl⟩ | ⟨w, hw, b, hb, rfl⟩ | ⟨b, hb, rfl⟩
  · exact ⟨p.1, by simp only [referred, List.mem_append, List.mem_map]; grind, rfl⟩
  · exact ⟨b, by simp only [referred, List.mem_append, List.mem_flatMap]; grind, rfl⟩
  · exact ⟨b, by simp [referred, hb], rfl⟩

def OwnResult (cfg : Config S C E) (envelopes : List Event) (r : StateReply) : Prop :=
  ∃ prior base state, Envelopes cfg r.timestamp prior base envelopes state r.sequenceNumber ∧
    r.state = cfg.codec.newState state

structure BlocksInv (cfg : Config S C E) (n : Node S C) : Prop where
  handled : ∀ b ∈ n.staged, b.id ∈ n.handled
  nodup : (idsOf n.staged).Nodup
  promises : ∀ b ∈ n.staged, ∃ r, b.reply = .stateReply r ∧ OwnResult cfg b.envelopes r
  refers : referred n ⊆ n.staged
  once : (ledgerIds n).Nodup
  lt_asked : ∀ w, w ∈ n.writer ∨ w ∈ n.asks → w.id < n.asked
  agree : ∀ w ∈ n.writer, ∀ w' ∈ n.asks, w.id = w'.id → w = w'
  stored : ∀ b, (b, none) ∈ n.outcomes → b ∈ n.committed

structure Faithful (n : Node S C) : Prop where
  inStep : n.writer = n.asks
  confirmed : ∀ b ∈ n.committed, (b, none) ∈ n.outcomes

theorem BlocksInv.perform (h : BlocksInv cfg n) (msg : Message C) (place : List Bool)
    (e : Effect) (hstage : ∀ envelopes reply, e = .stage envelopes reply →
      msg.id ∈ n.handled ∧ msg.id ∉ idsOf n.staged ∧ ∃ r, reply = .stateReply r ∧
        OwnResult cfg envelopes r) :
    BlocksInv cfg (perform msg place n e) := by
  obtain ⟨hh, hnd, hpr, href, honce, hlt, hag, hstored⟩ := h
  cases e with
  | response | stash | unstashAll | tellSnapshot | startTimer | stopTimer | shutdown =>
    exact ⟨hh, hnd, hpr, href, honce, hlt, hag, hstored⟩
  | handle =>
    exact ⟨fun b hb => List.mem_append_left _ (hh b hb), hnd, hpr, href, honce, hlt, hag, hstored⟩
  | stage envelopes reply =>
    obtain ⟨hid, hnew, r, rfl, hown⟩ := hstage envelopes reply rfl
    have hopen : msg.id ∉ ledgerIds n := by
      intro hmem
      obtain ⟨b, hb, hbid⟩ := mem_ledgerIds hmem
      exact hnew (List.mem_map.mpr ⟨b, href hb, hbid⟩)
    refine ⟨?_, ?_, ?_, ?_, ?_, hlt, hag, hstored⟩
    · exact List.forall_mem_append.mpr ⟨hh, List.forall_mem_singleton.mpr hid⟩
    · change (idsOf (n.staged ++ [_])).Nodup
      rw [idsOf_append, idsOf_singleton]
      exact List.concat_eq_append ▸ hnd.concat hnew
    · exact List.forall_mem_append.mpr ⟨hpr, List.forall_mem_singleton.mpr ⟨r, rfl, hown⟩⟩
    · intro b hb
      simp only [referred, EventSource.perform, List.append_assoc, List.mem_append] at hb ⊢
      rcases hb with hb | hb | hb
      · exact .inl (href (List.mem_append_left _ hb))
      · exact .inr hb
      · exact .inl (href (List.mem_append_right _ (by simpa only [List.mem_append] using hb)))
    · change (n.outcomes.map (·.1.id) ++ (n.asks.flatMap (fun w => idsOf w.blocks) ++ idsOf (n.staging ++ [_]))).Nodup
      rw [idsOf_append, idsOf_singleton, ← List.append_assoc, ← List.append_assoc,
        List.append_assoc _ _ (idsOf n.staging)]
      exact List.concat_eq_append ▸ honce.concat hopen
  | pipeTo req =>
    refine ⟨hh, hnd, hpr, ?_, ?_, ?_, ?_, hstored⟩
    · intro b hb
      refine href ?_
      simp only [referred, EventSource.perform, List.mem_append, List.mem_flatMap, List.mem_singleton] at hb ⊢
      grind
    · simpa [ledgerIds, EventSource.perform] using honce
    · intro w hw
      simp only [EventSource.perform, List.mem_append, List.mem_singleton] at hw ⊢
      rcases hw with (hw | rfl) | (hw | rfl)
      · exact Nat.lt_succ_of_lt (hlt w (.inl hw))
      · exact Nat.lt_succ_self _
      · exact Nat.lt_succ_of_lt (hlt w (.inr hw))
      · exact Nat.lt_succ_self _
    · intro w hw w' hw' heq
      simp only [EventSource.perform, List.mem_append, List.mem_singleton] at hw hw'
      -- the new request has a number of its own
      rcases hw with hw | rfl <;> rcases hw' with hw' | rfl
      · exact hag w hw w' hw' heq
      · exact absurd heq (Nat.ne_of_lt (hlt w (.inl hw)))
      · exact absurd heq.symm (Nat.ne_of_lt (hlt w' (.inr hw')))
      · rfl

theorem Faithful.performAll (h : Faithful n) (msg : Message C) (place : List Bool)
    (effects : List Effect) : Faithful (performAll msg place n effects) := by
  induction effects generalizing n with
  | nil => exact h
  | cons e effects ih =>
    refine ih ?_
    cases e with
    | pipeTo req => exact ⟨by simp only [perform, h.inStep], h.confirmed⟩
    | _ => exact ⟨h.inStep, h.confirmed⟩

variable {b : Block} {err : Option Err}

theorem BlocksInv.settled_staged (h : BlocksInv cfg n) (hb : (b, err) ∈ n.outcomes) : b ∈ n.staged := by
  refine h.refers ?_
  simp only [referred, List.mem_append, List.mem_map]
  exact .inr (.inr (.inr (.inr ⟨_, hb, rfl⟩)))

def Effect.isStage : Effect → Bool
  | .stage _ _ => true
  | _ => false

variable {msg : Message C} {effects : List Effect}

theorem BlocksInv.performAll (h : BlocksInv cfg n) (place : List Bool) (hno : ∀ e ∈ effects, e.isStage = false) :
    BlocksInv cfg (performAll msg place n effects) := by
  induction effects generalizing n with
  | nil => exact h
  | cons e effects ih =>
    obtain ⟨he, hes⟩ := List.forall_mem_cons.mp hno
    refine ih (h.perform msg place e ?_) hes
    rintro envelopes reply rfl
    simp [Effect.isStage] at he

theorem Produces.ownResult {ctx : Ctx} {cmd : C} {now : ℤ} {tc : Tenancy.TenantContext} {prior state : S}
    {base counter : ℕ} {envelopes : List Event} (h : Produces cfg ctx cmd now tc prior base envelopes state counter) :
    OwnResult cfg envelopes ⟨cfg.persistenceID, cfg.codec.newState state, counter, now⟩ :=
  ⟨prior, base, state, h.envelopes.1, rfl⟩

variable {turn : Turn} {a' : Actor S}

theorem Reaction.stages {a : Actor S} (hre : Reaction cfg a msg turn a' effects) :
    (∀ e ∈ effects, e.isStage = false) ∨
      a.phase = .processing ∧ msg.requestId? = some msg.id ∧ ∃ envelopes r rest,
        effects = .handle :: .stage envelopes (.stateReply r) :: rest ∧ OwnResult cfg envelopes r ∧
        ∀ e ∈ rest, e.isStage = false := by
  have hstopped : ∀ e ∈ stopped a, e.isStage = false := by
    unfold stopped
    cases a.flushTimer <;> simp [Effect.isStage]
  cases hre
  case persist hp _ hprod =>
    exact .inr ⟨hp, rfl, _, _, _, rfl, hprod.ownResult, by simp [Effect.isStage]⟩
  case fold hp _ _ _ hprod ht =>
    refine .inr ⟨hp, rfl, _, _, _, rfl, hprod.ownResult, ?_⟩
    rcases ht with ⟨-, rfl⟩ | ⟨-, -, rfl⟩ <;> simp [Effect.isStage]
  case foldFlush hp _ _ _ hprod =>
    refine .inr ⟨hp, rfl, _, _, _, rfl, hprod.ownResult, ?_⟩
    simpa [Effect.isStage, or_imp, forall_and] using hstopped
  case gateFlush => exact .inl (by simpa [Effect.isStage, or_imp, forall_and] using hstopped)
  case directConfirmed | batchConfirmed | replyFailure | drainLast =>
    exact .inl (by simp [Effect.isStage, or_imp, forall_and])
  all_goals exact .inl (by simp [Effect.isStage])

variable {rest : List (Message C)}

theorem not_staged {id : ℕ} (hc : Custody cfg n) (hreq : RequestsOk n) (hh : HandledInv n)
    (hb : BlocksInv cfg n) (hm : n.mailbox = msg :: rest) (hid : msg.requestId? = some id)
    (hown : n.actor.phase = .processing ∨ msg.commandId? = none) : id ∉ idsOf n.staged := by
  intro hstaged
  obtain ⟨b, hmem, rfl⟩ := List.mem_map.mp hstaged
  have hwait : b.id ∈ waitingIds n := by simp [waitingIds, hm, requestIds, hid]
  exact hc.head_not_owner hreq.nodup hm hid hown (hh.owner _ (hb.handled b hmem) hwait)

theorem Reaction.blocksInv (hre : Reaction cfg n.actor msg turn a' effects) (place : List Bool)
    (hc : Custody cfg n) (hreq : RequestsOk n) (hh : HandledInv n) (hb : BlocksInv cfg n)
    (hm : n.mailbox = msg :: rest) :
    BlocksInv cfg (performAll msg place { n with actor := a', mailbox := rest } effects) := by
  have hpop : BlocksInv cfg { n with actor := a', mailbox := rest } :=
    ⟨hb.handled, hb.nodup, hb.promises, hb.refers, hb.once, hb.lt_asked, hb.agree, hb.stored⟩
  rcases hre.stages with hno | ⟨hp, hid, envelopes, r, later, rfl, hown, hno⟩
  · exact hpop.performAll place hno
  · have hnew := not_staged hc hreq hh hb hm hid (.inl hp)
    have hhandle := hpop.perform msg place .handle (by simp)
    refine (hhandle.perform msg place (.stage envelopes (.stateReply r)) ?_).performAll place hno
    rintro envelopes' reply heq
    cases heq
    exact ⟨by simp [EventSource.perform], hnew, r, rfl, hown⟩

structure RepliesOk (n : Node S C) : Prop where
  right : ∀ p ∈ n.replies, p ∈ n.computed ∨ ∃ b err, (b, err) ∈ n.outcomes ∧ p = (b.id, b.answer err)
  sent : n.computed ⊆ n.replies
  apart : ∀ p ∈ n.computed, p.1 ∉ idsOf n.staged

variable {n' : Node S C}

theorem RepliesOk.keep (h : RepliesOk n) (hr : n'.replies = n.replies)
    (hc : n'.computed = n.computed) (hs : n'.staged = n.staged) (ho : n.outcomes ⊆ n'.outcomes) : RepliesOk n' where
  right := by
    intro p hp
    rw [hr] at hp
    rw [hc]
    exact (h.right p hp).imp_right fun ⟨b, err, hb, heq⟩ => ⟨b, err, ho hb, heq⟩
  sent := by
    rw [hc, hr]
    exact h.sent
  apart := by
    rw [hc, hs]
    exact h.apart

theorem RepliesOk.own {p : ℕ × CommandReply} (h : RepliesOk n) (hnew : p.1 ∉ idsOf n.staged)
    (hr : n'.replies = n.replies ++ [p]) (hc : n'.computed = n.computed ++ [p])
    (hs : n'.staged = n.staged) (ho : n'.outcomes = n.outcomes) : RepliesOk n' where
  right := by
    rw [hr, hc, ho]
    refine List.forall_mem_append.mpr ⟨fun q hq => ?_, List.forall_mem_singleton.mpr ?_⟩
    · exact (h.right q hq).imp_left (List.mem_append_left _)
    · exact .inl (List.mem_append_right _ (List.mem_singleton_self p))
  sent := by
    rw [hr, hc]
    exact List.append_subset.mpr ⟨fun q hq => List.mem_append_left _ (h.sent hq), List.subset_append_right _ _⟩
  apart := by
    rw [hc, hs]
    exact List.forall_mem_append.mpr ⟨h.apart, List.forall_mem_singleton.mpr hnew⟩

theorem RepliesOk.give (h : RepliesOk n)
    (hb : (b, err) ∈ n.outcomes) (hr : n'.replies = n.replies ++ [(b.id, b.answer err)])
    (hc : n'.computed = n.computed) (hs : n'.staged = n.staged) (ho : n'.outcomes = n.outcomes) : RepliesOk n' where
  right := by
    rw [hr, hc, ho]
    exact List.forall_mem_append.mpr ⟨h.right, List.forall_mem_singleton.mpr (.inr ⟨b, err, hb, rfl⟩)⟩
  sent := by
    rw [hr, hc]
    exact fun p hp => List.mem_append_left _ (h.sent hp)
  apart := by
    rw [hc, hs]
    exact h.apart

theorem RepliesOk.stage (h : RepliesOk n) (hnew : b.id ∉ n.replies.map Prod.fst)
    (hr : n'.replies = n.replies) (hc : n'.computed = n.computed) (hs : n'.staged = n.staged ++ [b])
    (ho : n'.outcomes = n.outcomes) : RepliesOk n' where
  right := by
    rw [hr, hc, ho]
    exact h.right
  sent := by
    rw [hr, hc]
    exact h.sent
  apart := by
    intro p hp
    rw [hc] at hp
    rw [hs, idsOf_append, idsOf_singleton, List.mem_append, List.mem_singleton]
    rintro (hmem | heq)
    · exact h.apart p hp hmem
    · exact hnew (heq ▸ List.mem_map_of_mem (h.sent hp))

theorem ownReplies_append (phase : PersistPhase) (msg : Message C) (xs ys : List Effect) :
    ownReplies phase msg (xs ++ ys) = ownReplies phase msg xs ++ ownReplies phase msg ys := by
  unfold ownReplies
  split
  · exact List.filterMap_append
  · rfl

theorem ownReplies_stopped (phase : PersistPhase) (msg : Message C) (a : Actor S) :
    ownReplies phase msg (stopped a) = [] := by
  unfold stopped
  cases a.flushTimer <;> simp [ownReplies]

theorem Reaction.repliesOk (hre : Reaction cfg n.actor msg turn a' effects) (place : List Bool)
    (hok : PhaseOk cfg n.actor) (hc : Custody cfg n) (hreq : RequestsOk n) (hh : HandledInv n)
    (hb : BlocksInv cfg n) (h : RepliesOk n) (hm : n.mailbox = msg :: rest) : RepliesOk (performAll msg place
      { { n with computed := n.computed ++ ownReplies n.actor.phase msg effects } with
        actor := a', mailbox := rest } effects) := by
  have hnew : ∀ id, msg.requestId? = some id →
      n.actor.phase = .processing ∨ msg.commandId? = none → id ∉ idsOf n.staged :=
    fun id hid hown => not_staged hc hreq hh hb hm hid hown
  have hunanswered : ∀ id, msg.requestId? = some id → id ∉ n.replies.map Prod.fst := by
    intro id hid hmem
    obtain ⟨p, hp, rfl⟩ := List.mem_map.mp hmem
    refine hreq.answered_not_waiting hp ?_
    simp [waitingIds, hm, requestIds, hid]
  cases hre
  case ignored | idleTick | tickFlush | stashedCommand | stashedRead | directFailed | batchFailed =>
    exact h.keep rfl (by simp [ownReplies, perform]) rfl (List.Subset.refl _)
  case gateFlush =>
    rw [performAll_append, performAll_stopped, ownReplies_append, ownReplies_stopped]
    exact h.keep rfl (by simp [ownReplies, perform]) rfl (List.Subset.refl _)
  case directConfirmed | batchConfirmed =>
    rw [performAll_append, performAll_tellSnapshot]
    exact h.keep rfl (by simp [ownReplies, perform]) rfl (List.Subset.refl _)
  case readDenied id _ _ _ | read id _ _ =>
    exact h.own (hnew id rfl (.inr rfl)) rfl (by simp [ownReplies, perform, Message.commandId?]) rfl rfl
  case denied id _ _ _ hp | failed id _ _ _ _ hp _ | unchanged id _ _ hp _ |
      unchangedInBatch id _ _ _ _ hp _ _ _ _ _ =>
    exact h.own (hnew id rfl (.inl hp)) rfl (by simp [ownReplies, perform, hp]) rfl rfl
  case persist id ctx cmd tc tenant envelopes state counter hmode hp hgate hprod =>
    exact h.stage (b := ⟨id, envelopes, pendingReply cfg state counter turn.now⟩)
      (hunanswered id rfl) rfl (by simp [ownReplies, perform]) rfl rfl
  case fold id ctx cmd tc tenant hasPre base envelopes state counter timer started hmode hp
      hadm hbase hgate hprod htimer =>
    rcases htimer with ⟨-, rfl⟩ | ⟨-, rfl, rfl⟩ <;>
      exact h.stage (b := ⟨id, envelopes, pendingReply cfg state counter turn.now⟩)
        (hunanswered id rfl) rfl (by simp [ownReplies, perform]) rfl rfl
  case foldFlush id ctx cmd tc tenant hasPre base envelopes state counter hmode hp hadm hbase
      hgate hprod =>
    rw [performAll_append, performAll_append, performAll_stopped, ownReplies_append,
      ownReplies_append, ownReplies_stopped]
    exact h.stage (b := ⟨id, envelopes, pendingReply cfg state counter turn.now⟩)
      (hunanswered id rfl) rfl (by simp [ownReplies, perform]) rfl rfl
  case replySuccess id ctx cmd hp he =>
    obtain ⟨b, hans, rfl⟩ := hc.of_directReplying hp hm
    have hout := hans.outcome
    rw [he] at hout
    refine h.give hout ?_ (by simp [ownReplies, perform, hp, Message.commandId?]) rfl rfl
    simp [perform, hans.current he, Block.answer, Message.id]
  case replyFailure id ctx cmd err hp he =>
    obtain ⟨b, hans, rfl⟩ := hc.of_directReplying hp hm
    have hout := hans.outcome
    rw [he] at hout
    rw [performAll_append, performAll_shutdown]
    exact h.give hout rfl (by simp [ownReplies, perform, hp, Message.commandId?]) rfl rfl
  case drain id ctx cmd reply hp hrem hl =>
    obtain ⟨b, err, hdr, rfl⟩ := hc.of_replying hok hp hm
    have hout := hdr.outcome b (List.mem_of_getElem? hdr.block)
    refine h.give hout ?_ (by simp [ownReplies, perform, hp, Message.commandId?]) rfl rfl
    simp [perform, Message.id, hdr.reply_eq hl]
  case drainLast id ctx cmd reply hp hrem hl =>
    obtain ⟨b, err, hdr, rfl⟩ := hc.of_replying hok hp hm
    have hout := hdr.outcome b (List.mem_of_getElem? hdr.block)
    rw [performAll_cons, performAll_shutdown]
    refine h.give hout ?_ (by simp [ownReplies, perform, hp, Message.commandId?]) rfl rfl
    simp [perform, Message.id, hdr.reply_eq hl]

structure RepliesInv (cfg : Config S C E) (ambiguous : Prop) (n : Node S C) : Prop where
  phaseOk : PhaseOk cfg n.actor
  stashOk : responses n.stash = []
  requests : RequestsOk n
  custody : Custody cfg n
  handled : HandledInv n
  blocks : BlocksInv cfg n
  replies : RepliesOk n
  faithful : ¬ ambiguous → Faithful n

/-- The steps the invariant allows: `UnstashAll` puts those who are owed a reply
first, and outcomes are lost or come late only where `ambiguous`. -/
def ReplyLabelOk (ambiguous : Prop) (n : Node S C) : Label C → Prop
  | .deliver _ place => pendingFirst n place = true
  | .write outcome => outcome = .lost → ambiguous
  | .timeout _ => ambiguous
  | .restart _ => n.writer = []
  | _ => True

theorem deliver_repliesInv (turn : Turn) {place : List Bool} (h : RepliesInv cfg ambiguous n)
    (hpf : pendingFirst n place = true) : RepliesInv cfg ambiguous (deliver cfg turn place n) := by
  cases hm : n.mailbox with
  | nil => rwa [deliver_nil turn place hm]
  | cons msg rest =>
    obtain ⟨a', effects, hre, heq⟩ := deliver_reaction turn place h.phaseOk hm
    have hreplies := hre.repliesOk place h.phaseOk h.custody h.requests h.handled h.blocks h.replies hm
    rw [heq]
    generalize n.computed ++ ownReplies n.actor.phase msg effects = computed at hreplies ⊢
    obtain ⟨hok, hst, hreq, hc, hh, hb, -, hf⟩ := h
    have hperm := hre.requests_perm (n := { n with computed := computed }) place hm
    have hreq' : RequestsOk (performAll msg place
        { { n with computed := computed } with actor := a', mailbox := rest } effects) := by
      refine ⟨hperm.nodup_iff.mpr hreq.nodup, fun id hid => ?_⟩
      rw [(performAll_frame _ _ _ _).2.1]
      exact hreq.lt id (hperm.subset hid)
    have hc₀ : Custody cfg { n with computed := computed } :=
      hc.keep cfg rfl rfl rfl rfl rfl rfl (fun _ => List.prefix_refl _) (List.prefix_refl _) (.inl rfl)
    have hh₀ : HandledInv { n with computed := computed } := ⟨hh.nodup, hh.lt, hh.owner⟩
    have hb₀ : BlocksInv cfg { n with computed := computed } :=
      ⟨hb.handled, hb.nodup, hb.promises, hb.refers, hb.once, hb.lt_asked, hb.agree, hb.stored⟩
    have hreq₀ : RequestsOk { n with computed := computed } := ⟨hreq.nodup, hreq.lt⟩
    exact ⟨by rw [performAll_actor]; exact hre.phaseOk hok,
      hre.stashOk (n := { n with computed := computed }) place hst, hreq',
      hre.custody (n := { n with computed := computed }) hok hst hpf hc₀ hm,
      hre.handledInv (n := { n with computed := computed }) hreq' hok hc₀ hreq₀ hh₀ hm,
      hre.blocksInv (n := { n with computed := computed }) place hc₀ hreq₀ hh₀ hb₀ hm, hreplies,
      fun hamb => Faithful.performAll (n := { n with
        computed := computed, actor := a', mailbox := rest })
        ⟨(hf hamb).inStep, (hf hamb).confirmed⟩ msg place effects⟩

theorem RepliesInv.arrive {arrived : ℕ} (h : RepliesInv cfg ambiguous n) (msg : Message C)
    (timers : List ℕ) (hr : msg.response? = none) (hle : n.arrived ≤ arrived)
    (hid : ∀ id, msg.requestId? = some id → id = n.arrived ∧ n.arrived < arrived) : RepliesInv cfg ambiguous
      { n with mailbox := n.mailbox ++ [msg], timers := timers, arrived := arrived } := by
  obtain ⟨hok, hst, hreq, hc, hh, hb, hrep, hf⟩ := h
  have hnew : ∀ id ∈ requestIds [msg], id = n.arrived ∧ n.arrived < arrived := by
    intro id hmem
    obtain ⟨m, hm, heq⟩ := List.mem_filterMap.mp hmem
    exact hid id (List.mem_singleton.mp hm ▸ heq)
  have hperm : (requestsOf { n with mailbox := n.mailbox ++ [msg], timers := timers, arrived := arrived }).Perm
      (requestsOf n ++ requestIds [msg]) := by
    refine List.perm_iff_count.mpr fun id => ?_
    simp only [requestsOf, requestIds_append, List.count_append]
    omega
  refine ⟨hok, hst, ⟨?_, ?_⟩, ?_, ?_, ?_, ?_, ?_⟩
  · refine hperm.nodup_iff.mpr (List.nodup_append.mpr ⟨hreq.nodup, ?_, ?_⟩)
    · cases msg <;> simp
    · intro x hx y hy
      have := hreq.lt x hx
      have := (hnew y hy).1
      omega
  · intro id hmem
    rcases List.mem_append.mp (hperm.subset hmem) with hmem | hmem
    · exact Nat.lt_of_lt_of_le (hreq.lt id hmem) hle
    · exact (hnew id hmem).1 ▸ (hnew id hmem).2
  · refine hc.keep cfg rfl rfl rfl rfl rfl ?_ (fun _ => ?_) (List.prefix_refl _) (.inl rfl)
    · simp [responses, hr]
    · simp
  · refine hh.keep rfl hle (fun id hmem => ?_) fun _ ho _ => ho
    simp only [waitingIds, requestIds_append, List.mem_append] at hmem ⊢
    rcases hmem with (hmem | hmem) | hmem
    · exact .inl (.inl hmem)
    · exact .inr (Nat.le_of_eq (hnew id hmem).1.symm)
    · exact .inl (.inr hmem)
  · exact ⟨hb.handled, hb.nodup, hb.promises, hb.refers, hb.once, hb.lt_asked, hb.agree, hb.stored⟩
  · exact ⟨hrep.right, hrep.sent, hrep.apart⟩
  · exact fun hamb => ⟨(hf hamb).inStep, (hf hamb).confirmed⟩

variable {w : Write}

theorem RepliesInv.pop {later : List Write} {committed : List Block}
    (h : RepliesInv cfg ambiguous n) (hw : n.writer = w :: later)
    (hc : committed = n.committed ∨ committed = n.committed ++ w.blocks) :
    RepliesInv cfg True { n with writer := later, committed := committed } := by
  obtain ⟨hok, hst, hreq, hcu, hh, hb, hrep, -⟩ := h
  have hsub : n.committed ⊆ committed := by
    rcases hc with rfl | rfl
    · exact List.Subset.refl _
    · exact List.subset_append_left _ _
  refine ⟨hok, hst, ⟨hreq.nodup, hreq.lt⟩, ?_, ⟨hh.nodup, hh.lt, hh.owner⟩, ?_,
    ⟨hrep.right, hrep.sent, hrep.apart⟩, fun hamb => absurd trivial hamb⟩
  · exact hcu.keep cfg rfl rfl rfl rfl rfl rfl (fun _ => List.prefix_refl _) (List.prefix_refl _)
      (.inl rfl)
  · refine ⟨hb.handled, hb.nodup, hb.promises, ?_, hb.once, ?_, ?_, fun b hmem => hsub (hb.stored b hmem)⟩
    · intro b hmem
      refine hb.refers ?_
      simp only [referred, hw, List.mem_append, List.mem_flatMap, List.mem_cons] at hmem ⊢
      rcases hc with rfl | rfl
      · grind
      · rw [List.mem_append] at hmem
        grind
    · exact fun w' hw' => hb.lt_asked w' (hw'.imp_left fun h => hw ▸ List.mem_cons_of_mem _ h)
    · exact fun w' hw' => hb.agree w' (hw ▸ List.mem_cons_of_mem _ hw')

theorem RepliesInv.tell (h : RepliesInv cfg True n)
    (ha : n.asks = [w]) (herr : err = none → w.blocks ⊆ n.committed) : RepliesInv cfg True { n with
      asks := []
      mailbox := n.mailbox ++ [.persistEventsResponse err]
      outcomes := n.outcomes ++ w.blocks.map fun b => (b, err) } := by
  obtain ⟨hok, hst, hreq, hcu, hh, hb, hrep, -⟩ := h
  refine ⟨hok, hst, ?_, ?_, ?_, ?_, ?_, fun hamb => absurd trivial hamb⟩
  · refine ⟨?_, ?_⟩
    · simpa [requestsOf] using hreq.nodup
    · simpa [requestsOf] using hreq.lt
  · cases hcu with
    | @waiting w' hp hg hs ha' hblocks hr hd =>
      obtain rfl : w' = w := by simpa [ha] using ha'.symm
      refine .told err hp hg hs rfl (by simp [hr]) ?_ hd
      intro b hmem
      rw [hblocks]
      exact List.mem_append_right _ (List.mem_map.mpr ⟨b, hmem, rfl⟩)
    | working _ _ _ ha' | told _ _ _ _ ha' | draining _ _ _ _ ha' | answering _ _ _ ha' =>
      simp [ha] at ha'
  · refine hh.keep rfl (Nat.le_refl _) (fun id hmem => .inl ?_) fun _ ho _ => ho
    simpa [waitingIds] using hmem
  · refine ⟨hb.handled, hb.nodup, hb.promises, ?_, ?_, ?_, ?_, ?_⟩
    · intro b hmem
      refine hb.refers ?_
      simp only [referred, ha, List.mem_append, List.mem_flatMap, List.mem_map] at hmem ⊢
      grind
    · have honce := hb.once
      simp only [ledgerIds, ha] at honce ⊢
      simpa [idsOf, Function.comp_def] using honce
    · exact fun w' hw' => hb.lt_asked w' (.inl (hw'.resolve_right List.not_mem_nil))
    · exact fun _ _ w' hw' => absurd hw' List.not_mem_nil
    · intro b hmem
      rcases List.mem_append.mp hmem with hmem | hmem
      · exact hb.stored b hmem
      · obtain ⟨b', hb', heq⟩ := List.mem_map.mp hmem
        cases heq
        exact herr rfl hb'
  · exact hrep.keep rfl rfl rfl (List.subset_append_left _ _)

theorem Custody.asks_le (h : Custody cfg n) : n.asks = [] ∨ ∃ w, n.asks = [w] := by
  cases h with
  | waiting _ _ _ ha => exact .inr ⟨_, ha⟩
  | working _ _ _ ha | told _ _ _ _ ha | draining _ _ _ _ ha | answering _ _ _ ha => exact .inl ha

theorem RepliesInv.answerAsk (h : RepliesInv cfg True n)
    (hag : ∀ w' ∈ n.asks, w.id = w'.id → w = w') (herr : err = none → w.blocks ⊆ n.committed) :
    RepliesInv cfg True (answerAsk w err n) := by
  rcases h.custody.asks_le with ha | ⟨w', ha⟩
  · rwa [answerAsk_of_nil _ _ ha]
  · by_cases hid : w.id = w'.id
    · obtain rfl := hag w' (by simp [ha]) hid
      rw [answerAsk_of_singleton _ ha]
      exact h.tell ha herr
    · have hother : EventSource.answerAsk w err n = n := by
        simp [EventSource.answerAsk, ha, Ne.symm hid]
      rwa [hother]

theorem RepliesInv.of_any (h : RepliesInv cfg ambiguous n) : RepliesInv cfg True n :=
  ⟨h.phaseOk, h.stashOk, h.requests, h.custody, h.handled, h.blocks, h.replies, fun hamb => absurd trivial hamb⟩

theorem RepliesInv.of_faithful (h : RepliesInv cfg True n) (hf : ¬ ambiguous → Faithful n) :
    RepliesInv cfg ambiguous n :=
  ⟨h.phaseOk, h.stashOk, h.requests, h.custody, h.handled, h.blocks, h.replies, hf⟩

theorem write_repliesInv (store : EventsStore) {outcome : Outcome} (log : Option EventLog)
    (h : RepliesInv cfg ambiguous n) (hlost : outcome = .lost → ambiguous) :
    RepliesInv cfg ambiguous (writeNext cfg store outcome n log).1 := by
  cases hw : n.writer with
  | nil => rwa [writeNext_nil store outcome log hw]
  | cons w later =>
    have hag := h.blocks.agree w (by simp [hw])
    -- a faithful writer has one request, the one that is waited for
    have hone : ¬ ambiguous → n.asks = [w] ∧ later = [] := by
      intro hamb
      have hsame := (h.faithful hamb).inStep
      rcases h.custody.asks_le with ha | ⟨w', ha⟩
      · simp [ha, hw] at hsame
      · rw [ha, hw] at hsame
        obtain ⟨rfl, hl⟩ := List.cons.inj hsame
        exact ⟨ha, hl⟩
    rcases writeNext_cases store outcome log hw with ⟨log', -, heq⟩ | ⟨err, heq⟩ | ⟨ho, heq⟩
    · have hpop := h.pop hw (.inr rfl)
      rcases heq with heq | ⟨ho, heq⟩ <;> rw [heq]
      · refine (hpop.answerAsk hag fun _ => List.subset_append_right _ _).of_faithful fun hamb => ?_
        obtain ⟨ha, rfl⟩ := hone hamb
        rw [answerAsk_of_singleton _ (by exact ha)]
        refine ⟨rfl, List.forall_mem_append.mpr ⟨fun b hb => ?_, fun b hb => ?_⟩⟩
        · exact List.mem_append_left _ ((h.faithful hamb).confirmed b hb)
        · exact List.mem_append_right _ (List.mem_map.mpr ⟨b, hb, rfl⟩)
      · exact hpop.of_faithful fun hamb => absurd (hlost ho) hamb
    · have hpop := h.pop hw (.inl rfl)
      rw [heq]
      refine (hpop.answerAsk hag fun he => by simp at he).of_faithful fun hamb => ?_
      obtain ⟨ha, rfl⟩ := hone hamb
      rw [answerAsk_of_singleton _ (by exact ha)]
      exact ⟨rfl, fun b hb => List.mem_append_left _ ((h.faithful hamb).confirmed b hb)⟩
    · rw [heq]
      exact (h.pop hw (.inl rfl)).of_faithful fun hamb => absurd (hlost ho) hamb

theorem timeout_repliesInv (text : String) (h : RepliesInv cfg ambiguous n) (hamb : ambiguous) :
    RepliesInv cfg ambiguous (timeoutAsk text n) := by
  rcases h.custody.asks_le with ha | ⟨w, ha⟩
  · simpa only [timeoutAsk, ha] using h
  · simp only [timeoutAsk, ha]
    rw [answerAsk_of_singleton _ ha]
    exact ((h.of_any).tell ha fun he => by simp at he).of_faithful fun h => absurd hamb h

theorem restart_repliesInv (store : EventsStore) (snapshot : Option Snapshot)
    (log : Option EventLog) (h : RepliesInv cfg ambiguous n) (hw : n.writer = []) :
    RepliesInv cfg ambiguous (restartNode cfg store snapshot n log) := by
  unfold restartNode
  cases hr : recover cfg store snapshot log with
  | error err => exact h
  | ok a =>
    obtain ⟨state, tenant, latest, -, rfl⟩ := recover_new hr
    obtain ⟨hok, hst, hreq, hcu, hh, hb, hrep, hf⟩ := h
    refine ⟨phaseOk_new _ _ _, rfl, ⟨?_, ?_⟩, .settled rfl rfl rfl rfl rfl rfl, ?_, ?_, ?_, ?_⟩
    · simpa [requestsOf] using (List.nodup_append.mp hreq.nodup).1
    · intro id hid
      refine hreq.lt id (List.mem_append_left _ ?_)
      simpa [requestsOf] using hid
    · exact hh.keep rfl (Nat.le_refl _) (fun id hid => absurd hid (by simp [waitingIds])) fun id _ hid =>
        absurd hid (by simp [waitingIds])
    · refine ⟨hb.handled, hb.nodup, hb.promises, ?_, ?_, ?_, ?_, hb.stored⟩
      · intro b hmem
        refine hb.refers ?_
        simp only [referred, hw, List.mem_append, List.mem_flatMap] at hmem ⊢
        grind
      · simpa [ledgerIds] using (List.nodup_append.mp hb.once).1
      · intro w hmem
        simp [hw] at hmem
      · intro w hmem
        simp [hw] at hmem
    · exact ⟨hrep.right, hrep.sent, hrep.apart⟩
    · exact fun hamb => ⟨hw, (hf hamb).confirmed⟩

theorem nodeStep_repliesInv (store : EventsStore) (log : Option EventLog)
    (h : RepliesInv cfg ambiguous n) {l : Label C} (hl : ReplyLabelOk ambiguous n l) :
    RepliesInv cfg ambiguous (nodeStep cfg store n log l).1 := by
  cases l with
  | command ctx cmd =>
    exact h.arrive (.command n.arrived ctx cmd) n.timers rfl (Nat.le_succ _)
      fun id hid => ⟨(Option.some.inj hid).symm, Nat.lt_succ_self _⟩
  | getState ctx =>
    exact h.arrive (.getState n.arrived ctx) n.timers rfl (Nat.le_succ _)
      fun id hid => ⟨(Option.some.inj hid).symm, Nat.lt_succ_self _⟩
  | flushTick =>
    exact h.arrive .batchFlushTick n.timers rfl (Nat.le_refl _) fun id hid => by
      simp [Message.requestId?] at hid
  | deliver turn place => exact deliver_repliesInv turn h hl
  | write outcome => exact write_repliesInv store log h hl
  | timeout text => exact timeout_repliesInv text h hl
  | fire timer =>
    simp only [nodeStep, fireTimer]
    split
    · exact h.arrive .batchFlushTick (n.timers.erase timer) rfl (Nat.le_refl _)
        fun id hid => by simp [Message.requestId?] at hid
    · exact h
  | restart snapshot => exact restart_repliesInv store snapshot log h hl

theorem repliesInv_start (state : S) (counter : ℕ) (tenant : Tenancy.TenantContext) :
    RepliesInv cfg ambiguous (Node.start (.new state counter tenant) : Node S C) := by
  have hblocks : BlocksInv cfg (Node.start (.new state counter tenant) : Node S C) := by
    refine ⟨?_, List.nodup_nil, ?_, ?_, List.nodup_nil, ?_, ?_, ?_⟩ <;> simp [Node.start, referred]
  have hhandled : HandledInv (Node.start (.new state counter tenant) : Node S C) := by
    refine ⟨List.nodup_nil, ?_, ?_⟩ <;> simp [Node.start]
  have hreplies : RepliesOk (Node.start (.new state counter tenant) : Node S C) := by
    refine ⟨?_, ?_, ?_⟩ <;> simp [Node.start]
  exact ⟨phaseOk_new _ _ _, rfl, ⟨List.nodup_nil, by simp [requestsOf, Node.start]⟩,
    .settled rfl rfl rfl rfl rfl rfl, hhandled, hblocks, hreplies, fun _ => ⟨rfl, by simp [Node.start]⟩⟩

end

end Ego.EventSource

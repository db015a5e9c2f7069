import Ego.EventSource.Node
import Mathlib.Data.List.Nodup

/-!
# Which reply goes to which command

Replies are matched to stashed commands by position.
-/

namespace Ego.EventSource
open Persistence Protocol Lib

section
variable {S C E : Type}

def requestsOf (n : Node S C) : List ℕ :=
  n.replies.map Prod.fst ++ (requestIds n.mailbox ++ requestIds n.stash)

theorem count_requestIds_interleave (place : List Bool) (xs ys : List (Message C)) (id : ℕ) :
    (requestIds (interleave place xs ys)).count id = (requestIds xs).count id + (requestIds ys).count id := by
  have h := (interleave_perm place xs ys).filterMap Message.requestId?
  rw [List.filterMap_append] at h
  exact (h.count_eq id).trans List.count_append

variable {cfg : Config S C E} {n : Node S C}

variable {turn : Turn} {msg : Message C} {rest : List (Message C)} {a' : Actor S}
  {effects : List Effect}

theorem Reaction.requests_perm (hre : Reaction cfg n.actor msg turn a' effects)
    (place : List Bool) (hm : n.mailbox = msg :: rest) :
    (requestsOf (performAll msg place { n with actor := a', mailbox := rest } effects)).Perm
      (requestsOf n) := by
  refine List.perm_iff_count.mpr fun id => ?_
  cases hre
  case fold ht =>
    rcases ht with ⟨-, rfl⟩ | ⟨-, -, rfl⟩ <;>
      simp [requestsOf, perform, hm, Message.id, List.count_append, List.count_cons] <;> omega
  all_goals
    simp [requestsOf, perform, performAll_append, hm, Message.id, List.count_append, List.count_cons,
      count_requestIds_interleave] <;> omega

def owed (a : Actor S) : ℕ :=
  match a.phase with
  | .persisting => 1
  | .flushing => a.batchEntries.length
  | _ => 0

/-- If the next message is a write's outcome, the `UnstashAll` it causes puts the
commands that are owed a reply ahead of all other commands. -/
def pendingFirst (n : Node S C) (place : List Bool) : Bool :=
  match n.mailbox with
  | .persistEventsResponse _ :: rest =>
    (commandIds (interleave place n.stash rest)).take (owed n.actor) == (commandIds n.stash).take (owed n.actor)
  | _ => true

theorem pendingFirst_nil (n : Node S C) (h : owed n.actor ≤ (commandIds n.stash).length) :
    pendingFirst n [] = true := by
  unfold pendingFirst
  split
  · rw [interleave_nil, commandIds_append, List.take_append_of_le_length h, beq_self_eq_true]
  · rfl

structure Desk where
  phase : PersistPhase
  entries : List CommandReply
  remaining : ℕ
  err : Option Err
  -- the reply of the command in flight in direct mode, and that of the current state
  promised : Option CommandReply
  current : CommandReply

variable (cfg)

def desk (a : Actor S) : Desk where
  phase := a.phase
  entries := a.batchEntries
  remaining := a.remainingReplies
  err := a.directErr
  promised := a.directPendingState.map fun state =>
    pendingReply cfg state a.directPendingCounter a.directPendingTime
  current := currentReply cfg a

def idsOf (blocks : List Block) : List ℕ := blocks.map (·.id)

@[simp] theorem idsOf_nil : idsOf [] = [] := rfl

@[simp] theorem idsOf_append (xs ys : List Block) : idsOf (xs ++ ys) = idsOf xs ++ idsOf ys :=
  List.map_append

@[simp] theorem idsOf_singleton (b : Block) : idsOf [b] = [b.id] := rfl

structure Promised (d : Desk) (awaited : List Block) : Prop where
  batched : d.phase = .flushing → d.entries = awaited.map (·.reply)
  direct : d.phase = .persisting → ∃ b, awaited = [b] ∧ d.promised = some b.reply

def owners (n : Node S C) : List ℕ :=
  match n.actor.phase with
  | .processing => idsOf n.staging
  | .replying => (idsOf n.awaited).drop (n.awaited.length - n.actor.remainingReplies)
  | _ => idsOf n.awaited

inductive Custody (n : Node S C) : Prop
  | working (hp : n.actor.phase = .processing) (hs : commandIds n.stash = idsOf n.staging)
      (hq : requestIds n.stash = commandIds n.stash) (ha : n.asks = [])
      (hr : responses n.mailbox = []) (he : n.actor.batchEntries = n.staging.map (·.reply))
  | waiting {w : Write} (hp : n.actor.phase = .persisting ∨ n.actor.phase = .flushing)
      (hg : n.staging = []) (hs : idsOf n.awaited <+: commandIds n.stash) (ha : n.asks = [w])
      (hb : w.blocks = n.awaited) (hr : responses n.mailbox = [])
      (hd : Promised (desk cfg n.actor) n.awaited)
  | told (err : Option Err) (hp : n.actor.phase = .persisting ∨ n.actor.phase = .flushing)
      (hg : n.staging = []) (hs : idsOf n.awaited <+: commandIds n.stash) (ha : n.asks = [])
      (hr : responses n.mailbox = [err]) (ho : ∀ b ∈ n.awaited, (b, err) ∈ n.outcomes)
      (hd : Promised (desk cfg n.actor) n.awaited)
  | draining (err : Option Err) (hp : n.actor.phase = .replying) (hg : n.staging = [])
      (hs : n.stash = []) (ha : n.asks = []) (hr : responses n.mailbox = [])
      (ho : ∀ b ∈ n.awaited, (b, err) ∈ n.outcomes)
      (he : n.actor.batchEntries = n.awaited.map (·.answer err))
      (hm : owners n <+: commandIds n.mailbox)
  | answering {b : Block} (hp : n.actor.phase = .directReplying) (hg : n.staging = [])
      (hs : commandIds n.stash = []) (ha : n.asks = []) (hr : responses n.mailbox = [])
      (hb : n.awaited = [b]) (ho : (b, n.actor.directErr) ∈ n.outcomes)
      (hd : n.actor.directErr = none → currentReply cfg n.actor = b.reply)
      (hm : [b.id] <+: commandIds n.mailbox)

variable {n' : Node S C}

theorem Custody.keep (h : Custody cfg n) (hdesk : desk cfg n'.actor = desk cfg n.actor) (hg : n'.staging = n.staging)
    (hw : n'.awaited = n.awaited) (ha : n'.asks = n.asks) (ho : n'.outcomes = n.outcomes)
    (hr : responses n'.mailbox = responses n.mailbox)
    (hm : n.actor.phase = .replying ∨ n.actor.phase = .directReplying →
      commandIds n.mailbox <+: commandIds n'.mailbox) (hs : commandIds n.stash <+: commandIds n'.stash)
    (hs' : n'.stash = n.stash ∨ n.actor.phase = .persisting ∨ n.actor.phase = .flushing ∨
      n.actor.phase = .directReplying ∧ commandIds n'.stash = commandIds n.stash) : Custody cfg n' := by
  obtain ⟨hphase, hentries, hrem, herr, -, hcur⟩ := Desk.mk.inj hdesk
  cases h with
  | working hp hs₀ hq ha₀ hr₀ he =>
    have hst : n'.stash = n.stash := by
      rcases hs' with h | h | h | h
      · exact h
      all_goals simp [hp] at h
    exact .working (hphase.trans hp) (by rw [hst, hg, hs₀]) (by rw [hst, hq]) (ha.trans ha₀)
      (hr.trans hr₀) (by rw [hentries, hg, he])
  | waiting hp hg₀ hs₀ ha₀ hb hr₀ hd =>
    refine .waiting (by rw [hphase]; exact hp) (hg.trans hg₀) ?_ (ha.trans ha₀) (hb.trans hw.symm)
      (hr.trans hr₀) (by rw [hdesk, hw]; exact hd)
    rw [hw]
    exact hs₀.trans hs
  | told err hp hg₀ hs₀ ha₀ hr₀ ho₀ hd =>
    refine .told err (by rw [hphase]; exact hp) (hg.trans hg₀) ?_ (ha.trans ha₀) (hr.trans hr₀)
      (by rw [hw, ho]; exact ho₀) (by rw [hdesk, hw]; exact hd)
    rw [hw]
    exact hs₀.trans hs
  | draining err hp hg₀ hs₀ ha₀ hr₀ ho₀ he hm₀ =>
    have hst : n'.stash = n.stash := by
      rcases hs' with h | h | h | h
      · exact h
      all_goals simp [hp] at h
    have hown : owners n' = owners n := by simp only [owners, hphase, hp, hw, hrem]
    exact .draining err (hphase.trans hp) (hg.trans hg₀) (hst.trans hs₀) (ha.trans ha₀)
      (hr.trans hr₀) (by rw [hw, ho]; exact ho₀) (by rw [hentries, hw, he]) (hown ▸ hm₀.trans (hm (.inl hp)))
  | answering hp hg₀ hs₀ ha₀ hr₀ hb ho₀ hd hm₀ =>
    have hst : commandIds n'.stash = [] := by
      rcases hs' with h | h | h | h
      · rw [h, hs₀]
      · simp [hp] at h
      · simp [hp] at h
      · exact h.2.trans hs₀
    exact .answering (hphase.trans hp) (hg.trans hg₀) hst (ha.trans ha₀) (hr.trans hr₀)
      (hw.trans hb) (by rw [herr, ho]; exact ho₀) (by rw [herr, hcur]; exact hd) (hm₀.trans (hm (.inr hp)))

variable {cfg}

theorem commandIds_subset (msgs : List (Message C)) : commandIds msgs ⊆ requestIds msgs := by
  intro id h
  obtain ⟨msg, hmsg, hid⟩ := List.mem_filterMap.mp h
  refine List.mem_filterMap.mpr ⟨msg, hmsg, ?_⟩
  cases msg <;> simp_all [Message.commandId?, Message.requestId?]

def waitingIds (n : Node S C) : List ℕ := requestIds n.mailbox ++ requestIds n.stash

theorem Custody.owners_wait (h : Custody cfg n) :
    owners n ⊆ commandIds n.stash ∨ n.actor.phase ≠ .processing ∧ owners n ⊆ commandIds n.mailbox := by
  cases h with
  | working hp hs => exact .inl (by simp [owners, hp, hs])
  | waiting hp _ hs | told _ hp _ hs =>
    refine .inl ?_
    rcases hp with hp | hp <;> simpa only [owners, hp] using hs.subset
  | draining _ hp _ _ _ _ _ _ hm => exact .inr ⟨by simp [hp], hm.subset⟩
  | answering hp _ _ _ _ hb _ _ hm =>
    refine .inr ⟨by simp [hp], ?_⟩
    simpa only [owners, hp, hb, idsOf, List.map_cons, List.map_nil] using hm.subset

variable {id : ℕ}

theorem Custody.head_not_owner (h : Custody cfg n) (hreq : (requestsOf n).Nodup)
    (hm : n.mailbox = msg :: rest) (hid : msg.requestId? = some id)
    (hown : n.actor.phase = .processing ∨ msg.commandId? = none) : id ∉ owners n := by
  have hnd : (id :: (requestIds rest ++ requestIds n.stash)).Nodup := by
    have := (List.nodup_append.mp hreq).2.1
    rw [hm] at this
    simpa [requestIds, hid] using this
  have hnot := (List.nodup_cons.mp hnd).1
  intro ho
  rcases h.owners_wait with hs | ⟨hp, hs⟩
  · exact hnot (List.mem_append_right _ (commandIds_subset _ (hs ho)))
  · have hcmd : msg.commandId? = none := hown.resolve_left hp
    have hmem := hs ho
    rw [hm] at hmem
    simp only [commandIds, List.filterMap_cons, hcmd] at hmem
    exact hnot (List.mem_append_left _ (commandIds_subset _ hmem))

theorem Custody.flush (h : Custody cfg n) (hp : n.actor.phase = .processing) (msg : Message C)
    (place : List Bool) (req : PersistEventsRequest) : Custody cfg (perform msg place
      { n with actor := { n.actor with flushTimer := none, phase := .flushing } } (.pipeTo req)) := by
  cases h with
  | working _ hs hq ha hr he =>
    refine .waiting (w := ⟨n.asked, req, n.staging⟩) (.inr rfl) rfl ?_ ?_ rfl hr ⟨fun _ => he, ?_⟩
    · exact hs ▸ List.prefix_refl _
    · simp [perform, ha]
    · intro h
      simp [desk, perform] at h
  | waiting hp' | told _ hp' => simp [hp] at hp'
  | draining _ hp' | answering hp' => simp [hp] at hp'

theorem Custody.fold (h : Custody cfg n) (hp : n.actor.phase = .processing) (id : ℕ) (ctx : Ctx)
    (cmd : C) (envelopes : List Event) (tenant : Tenancy.TenantContext) (hasPre : Bool) (base : ℕ)
    (state : S) (counter : ℕ) (now : ℤ) : Custody cfg { n with
      actor := foldInto cfg n.actor tenant hasPre base envelopes state counter now
      stash := n.stash ++ [.command id ctx cmd]
      staging := n.staging ++ [⟨id, envelopes, pendingReply cfg state counter now⟩] } := by
  cases h with
  | working _ hs hq ha hr he =>
    refine .working hp ?_ ?_ ha hr ?_
    · simp [hs, idsOf]
    · simp [hq]
    · simp [foldInto, he]
  | waiting hp' | told _ hp' => simp [hp] at hp'
  | draining _ hp' | answering hp' => simp [hp] at hp'

variable {err : Option Err} {place : List Bool}

theorem leads_of_pendingFirst {ids : List ℕ} (h : pendingFirst n place = true)
    (hm : n.mailbox = .persistEventsResponse err :: rest) (hs : ids <+: commandIds n.stash)
    (hl : ids.length = owed n.actor) : ids <+: commandIds (interleave place n.stash rest) := by
  have htake : ids = (commandIds n.stash).take ids.length := List.prefix_iff_eq_take.mp hs
  simp only [pendingFirst, hm, beq_iff_eq] at h
  rw [← hl, ← htake] at h
  exact h ▸ List.take_prefix _ _

structure Told (cfg : Config S C E) (n : Node S C) (err : Option Err) (rest : List (Message C)) :
    Prop where
  phase : n.actor.phase = .persisting ∨ n.actor.phase = .flushing
  staging : n.staging = []
  asks : n.asks = []
  owners_stashed : idsOf n.awaited <+: commandIds n.stash
  no_other : responses rest = []
  outcome : ∀ b ∈ n.awaited, (b, err) ∈ n.outcomes
  promised : Promised (desk cfg n.actor) n.awaited

theorem Custody.of_response (h : Custody cfg n)
    (hm : n.mailbox = .persistEventsResponse err :: rest) : Told cfg n err rest := by
  have hresp : responses n.mailbox = err :: responses rest := by simp [hm]
  cases h with
  | told err' hp hg hs ha hr ho hd =>
    obtain ⟨rfl, hrest⟩ := List.cons.inj (hr.symm.trans hresp)
    exact ⟨hp, hg, ha, hs, hrest.symm, ho, hd⟩
  | working _ _ _ _ hr | waiting _ _ _ _ _ hr | draining _ _ _ _ _ hr | answering _ _ _ _ hr =>
    simp [hr] at hresp

theorem Custody.drain (h : Custody cfg n) (hst : responses n.stash = [])
    (hm : n.mailbox = .persistEventsResponse err :: rest) (hpf : pendingFirst n place = true)
    (hp : n.actor.phase = .flushing) (hp' : n'.actor.phase = .replying)
    (he : n'.actor.batchEntries = n.awaited.map (·.answer err))
    (hrem : n'.actor.remainingReplies = n.awaited.length) (hw : n'.awaited = n.awaited)
    (hg : n'.staging = n.staging) (ha : n'.asks = n.asks) (ho : n'.outcomes = n.outcomes)
    (hs : n'.stash = []) (hm' : n'.mailbox = interleave place n.stash rest) : Custody cfg n' := by
  obtain ⟨-, hg₀, ha₀, hs₀, hr₀, ho₀, hd⟩ := h.of_response hm
  refine .draining err hp' (hg.trans hg₀) hs (ha.trans ha₀) ?_ (by rw [hw, ho]; exact ho₀)
    (by rw [he, hw]) ?_
  · rw [hm']
    exact responses_interleave hst hr₀
  · have howners : owners n' = idsOf n.awaited := by simp [owners, hp', hw, hrem]
    rw [howners, hm']
    refine leads_of_pendingFirst hpf hm hs₀ ?_
    have hlen : n.actor.batchEntries = n.awaited.map (·.reply) := hd.batched hp
    simp [owed, hp, hlen, idsOf]

theorem Custody.answer (h : Custody cfg n) (hst : responses n.stash = [])
    (hm : n.mailbox = .persistEventsResponse err :: rest) (hpf : pendingFirst n place = true)
    (hp : n.actor.phase = .persisting) (hp' : n'.actor.phase = .directReplying) (he : n'.actor.directErr = err)
    (hcur : err = none → some (currentReply cfg n'.actor) = (desk cfg n.actor).promised)
    (hw : n'.awaited = n.awaited) (hg : n'.staging = n.staging) (ha : n'.asks = n.asks)
    (ho : n'.outcomes = n.outcomes) (hs : n'.stash = [])
    (hm' : n'.mailbox = interleave place n.stash rest) : Custody cfg n' := by
  obtain ⟨-, hg₀, ha₀, hs₀, hr₀, ho₀, hd⟩ := h.of_response hm
  obtain ⟨b, hb, hpr⟩ := hd.direct hp
  refine .answering (b := b) hp' (hg.trans hg₀) (by rw [hs]; rfl) (ha.trans ha₀) ?_
    (hw.trans hb) ?_ ?_ ?_
  · rw [hm']
    exact responses_interleave hst hr₀
  · rw [ho, he]
    exact ho₀ b (by simp [hb])
  · intro herr
    have := (hcur (he ▸ herr)).trans hpr
    exact Option.some.inj this
  · rw [hm']
    rw [hb] at hs₀
    exact leads_of_pendingFirst hpf hm hs₀ (by simp [owed, hp])

structure Drains (n : Node S C) (rest : List (Message C)) (b : Block) (err : Option Err) : Prop where
  block : n.awaited[n.awaited.length - n.actor.remainingReplies]? = some b
  owners_eq : owners n = b.id :: (idsOf n.awaited).drop (n.awaited.length - n.actor.remainingReplies + 1)
  later : (idsOf n.awaited).drop (n.awaited.length - n.actor.remainingReplies + 1) <+: commandIds rest
  entries : n.actor.batchEntries = n.awaited.map (·.answer err)
  outcome : ∀ b ∈ n.awaited, (b, err) ∈ n.outcomes
  staging : n.staging = []
  stash : n.stash = []
  asks : n.asks = []
  no_other : responses rest = []

theorem Drains.reply_eq {b : Block} {reply : CommandReply} (h : Drains n rest b err)
    (hl : n.actor.batchEntries[n.actor.batchEntries.length - n.actor.remainingReplies]? = some reply) :
    reply = b.answer err := by
  rw [h.entries, List.length_map, List.getElem?_map, h.block] at hl
  exact (Option.some.inj hl).symm

theorem Custody.of_replying {ctx : Ctx} {cmd : C}
    (h : Custody cfg n) (hok : PhaseOk cfg n.actor) (hp : n.actor.phase = .replying)
    (hm : n.mailbox = .command id ctx cmd :: rest) : ∃ b err, Drains n rest b err ∧ b.id = id := by
  cases h with
  | draining err _ hg hs ha hr ho he hmail =>
    obtain ⟨hpos, hle⟩ := hok.owes hp
    rw [he, List.length_map] at hle
    have hlt : n.awaited.length - n.actor.remainingReplies < n.awaited.length := by omega
    have hdrop : owners n = (n.awaited[n.awaited.length - n.actor.remainingReplies]).id ::
        (idsOf n.awaited).drop (n.awaited.length - n.actor.remainingReplies + 1) := by
      simp only [owners, hp]
      rw [List.drop_eq_getElem_cons (by simpa [idsOf] using hlt)]
      simp [idsOf]
    rw [hdrop, hm, commandIds_command, List.cons_prefix_cons] at hmail
    rw [hm, responses_command] at hr
    exact ⟨_, err, ⟨List.getElem?_eq_getElem hlt, hdrop, hmail.2, he, ho, hg, hs, ha, hr⟩, hmail.1⟩
  | working hp' | answering hp' => simp [hp] at hp'
  | waiting hp' | told _ hp' => simp [hp] at hp'

structure Answers (cfg : Config S C E) (n : Node S C) (rest : List (Message C)) (b : Block) :
    Prop where
  awaited : n.awaited = [b]
  outcome : (b, n.actor.directErr) ∈ n.outcomes
  current : n.actor.directErr = none → currentReply cfg n.actor = b.reply
  staging : n.staging = []
  asks : n.asks = []
  no_other : responses rest = []

theorem Custody.of_directReplying {ctx : Ctx} {cmd : C} (h : Custody cfg n) (hp : n.actor.phase = .directReplying)
    (hm : n.mailbox = .command id ctx cmd :: rest) : ∃ b, Answers cfg n rest b ∧ b.id = id := by
  cases h with
  | @answering b _ hg hs ha hr hb ho hd hmail =>
    rw [hm, commandIds_command, List.cons_prefix_cons] at hmail
    rw [hm, responses_command] at hr
    exact ⟨b, ⟨hb, ho, hd, hg, ha, hr⟩, hmail.1⟩
  | working hp' | draining _ hp' => simp [hp] at hp'
  | waiting hp' | told _ hp' => simp [hp] at hp'

theorem Custody.settled (hp : n.actor.phase = .processing) (hs : n.stash = [])
    (hg : n.staging = []) (ha : n.asks = []) (hr : responses n.mailbox = [])
    (he : n.actor.batchEntries = []) : Custody cfg n := by
  refine .working hp ?_ ?_ ha hr ?_
  · rw [hs, hg]
    rfl
  · rw [hs]
    rfl
  · rw [he, hg]
    rfl

theorem Reaction.custody (hre : Reaction cfg n.actor msg turn a' effects)
    (hok : PhaseOk cfg n.actor) (hst : responses n.stash = []) (hpf : pendingFirst n place = true)
    (h : Custody cfg n) (hm : n.mailbox = msg :: rest) :
    Custody cfg (performAll msg place { n with actor := a', mailbox := rest } effects) := by
  cases hre
  case idleTick | readDenied | read =>
    refine h.keep cfg rfl rfl rfl rfl rfl ?_ (fun _ => ?_) (List.prefix_refl _) (.inl rfl)
    · simp [hm, perform]
    · simp [hm, perform]
  case denied hp | failed hp _ | unchanged hp _ | unchangedInBatch hp _ _ _ _ _ =>
    refine h.keep cfg rfl rfl rfl rfl rfl ?_ ?_ (List.prefix_refl _) (.inl rfl)
    · simp [hm, perform]
    · simp [hp]
  case ignored err hp => exact absurd (h.of_response hm).phase (not_or.mpr hp)
  case stashedCommand hp =>
    refine h.keep cfg rfl rfl rfl rfl rfl ?_ ?_ ?_ (.inr (hp.imp_right .inl))
    · simp [hm, perform]
    · rcases hp with hp | hp <;> simp [hp]
    · simp [perform]
  case stashedRead hp =>
    refine h.keep cfg rfl rfl rfl rfl rfl ?_ (fun _ => ?_) ?_ (.inr ?_)
    · simp [hm, perform]
    · simp [hm, perform]
    · simp [perform]
    · exact hp.imp_right fun hp => .inr ⟨hp, by simp [perform]⟩
  case tickFlush hmode hp he =>
    have hpop : Custody cfg { n with mailbox := rest } :=
      h.keep cfg rfl rfl rfl rfl rfl (by simp [hm]) (by simp [hp]) (List.prefix_refl _) (.inl rfl)
    exact hpop.flush hp .batchFlushTick place _
  case gateFlush id ctx cmd hmode hp hadm =>
    have hpop : Custody cfg { n with mailbox := rest } :=
      h.keep cfg rfl rfl rfl rfl rfl (by simp [hm]) (by simp [hp]) (List.prefix_refl _) (.inl rfl)
    have hflush := hpop.flush hp (.command id ctx cmd) place
      ⟨n.actor.batchBuffer, resolveBatchPrecondition n.actor, cfg.scope⟩
    rw [performAll_append, performAll_stopped]
    -- the command that caused the flush joins the stash behind the batch
    exact hflush.keep cfg rfl rfl rfl rfl rfl rfl (fun _ => List.prefix_refl _)
      (by simp [perform]) (.inr (.inr (.inl rfl)))
  case fold id ctx cmd tc tenant hasPre base envelopes state counter timer started hmode hp
      hadm hbase hgate hprod htimer =>
    have hpop : Custody cfg { n with mailbox := rest } :=
      h.keep cfg rfl rfl rfl rfl rfl (by simp [hm]) (by simp [hp]) (List.prefix_refl _) (.inl rfl)
    have hfold := hpop.fold hp id ctx cmd envelopes tenant hasPre base state counter turn.now
    rcases htimer with ⟨-, rfl⟩ | ⟨-, rfl, rfl⟩ <;>
      exact hfold.keep cfg rfl rfl rfl rfl rfl rfl (fun _ => List.prefix_refl _)
        (List.prefix_refl _) (.inl rfl)
  case foldFlush id ctx cmd tc tenant hasPre base envelopes state counter hmode hp hadm hbase
      hgate hprod =>
    have hpop : Custody cfg { n with mailbox := rest } :=
      h.keep cfg rfl rfl rfl rfl rfl (by simp [hm]) (by simp [hp]) (List.prefix_refl _) (.inl rfl)
    have hfold := hpop.fold hp id ctx cmd envelopes tenant hasPre base state counter turn.now
    have hflush := hfold.flush hp (.command id ctx cmd) place
      ⟨n.actor.batchBuffer ++ envelopes, batchPrecondition hasPre base, cfg.scope⟩
    rw [performAll_append, performAll_append, performAll_stopped]
    exact hflush.keep cfg rfl rfl rfl rfl rfl rfl (fun _ => List.prefix_refl _)
      (List.prefix_refl _) (.inl rfl)
  case persist id ctx cmd tc tenant envelopes state counter hmode hp hgate hprod =>
    cases h with
    | working _ hs hq ha hr he =>
      have hg : n.staging = [] := by
        rw [(hok.direct hmode).2.1] at he
        simpa using he.symm
      rw [hm, responses_command] at hr
      refine .waiting (w := ⟨n.asked, ⟨envelopes, preconditionFromRevision ctx.expectedRevision,
        cfg.scope⟩, [⟨id, envelopes, pendingReply cfg state counter turn.now⟩]⟩) (.inl rfl) rfl
        ?_ ?_ ?_ hr ⟨?_, fun _ => ⟨⟨id, envelopes, pendingReply cfg state counter turn.now⟩, ?_, rfl⟩⟩
      · simp [perform, hg, hs, idsOf, Message.id]
      · simp [perform, ha, hg, Message.id]
      · simp [perform, hg, Message.id]
      · simp [desk, perform]
      · simp [perform, hg, Message.id]
    | waiting hp' | told _ hp' | draining _ hp' | answering hp' => simp [hp] at hp'
  case directConfirmed snaps hp hs =>
    rw [performAll_append, performAll_tellSnapshot]
    refine h.answer hst hm hpf hp rfl rfl (fun _ => ?_) rfl rfl rfl rfl rfl rfl
    obtain ⟨b, -, hpr⟩ := (h.of_response hm).promised.direct hp
    obtain ⟨state, hstate, -⟩ := Option.map_eq_some_iff.mp hpr
    simp [desk, hstate, performAll, perform, currentReply, currentStateAny, applyConfirmedState, pendingReply]
  case directFailed err hp =>
    exact h.answer hst hm hpf hp rfl rfl (fun he => by simp at he) rfl rfl rfl rfl rfl rfl
  case batchConfirmed snaps hp hs =>
    have he : n.actor.batchEntries = n.awaited.map (·.reply) := (h.of_response hm).promised.batched hp
    rw [performAll_append, performAll_tellSnapshot]
    refine h.drain hst hm hpf hp rfl he ?_ rfl rfl rfl rfl rfl rfl
    simp [performAll, perform, he]
  case batchFailed err hp =>
    have he : n.actor.batchEntries = n.awaited.map (·.reply) := (h.of_response hm).promised.batched hp
    refine h.drain hst hm hpf hp rfl ?_ ?_ rfl rfl rfl rfl rfl rfl
    · change n.actor.batchEntries.map _ = _
      rw [he, List.map_map]
      rfl
    · simp [performAll, perform, he]
  case replySuccess id ctx cmd hp he =>
    obtain ⟨b, hb, -⟩ := h.of_directReplying hp hm
    exact .settled rfl rfl hb.staging hb.asks (responses_interleave hst hb.no_other)
      (hok.direct (hok.direct_of_phase (.inr hp))).2.1
  case replyFailure id ctx cmd err hp he =>
    obtain ⟨b, hb, -⟩ := h.of_directReplying hp hm
    rw [performAll_append, performAll_shutdown]
    exact .settled rfl rfl hb.staging hb.asks (responses_interleave hst hb.no_other)
      (hok.direct (hok.direct_of_phase (.inr hp))).2.1
  case drain id ctx cmd reply hp hrem hl =>
    obtain ⟨b, err, hb, -⟩ := h.of_replying hok hp hm
    obtain ⟨hpos, hle⟩ := hok.owes hp
    rw [hb.entries, List.length_map] at hle
    refine .draining err hp hb.staging hb.stash hb.asks hb.no_other hb.outcome hb.entries ?_
    have hone : n.awaited.length - n.actor.remainingReplies + 1 =
        n.awaited.length - (n.actor.remainingReplies - 1) := by omega
    have hlater := hb.later
    rw [hone] at hlater
    simpa [owners, perform, hp] using hlater
  case drainLast id ctx cmd reply hp hrem hl =>
    obtain ⟨b, err, hb, -⟩ := h.of_replying hok hp hm
    rw [performAll_cons, performAll_shutdown]
    exact .settled rfl hb.stash hb.staging hb.asks hb.no_other rfl

structure HandledInv (n : Node S C) : Prop where
  nodup : n.handled.Nodup
  lt : ∀ id ∈ n.handled, id < n.arrived
  owner : ∀ id ∈ n.handled, id ∈ waitingIds n → id ∈ owners n

theorem HandledInv.keep (h : HandledInv n) (hh : n'.handled = n.handled)
    (ha : n.arrived ≤ n'.arrived) (hw : ∀ id ∈ waitingIds n', id ∈ waitingIds n ∨ n.arrived ≤ id)
    (ho : ∀ id ∈ owners n, id ∈ waitingIds n' → id ∈ owners n') : HandledInv n' where
  nodup := hh ▸ h.nodup
  lt := fun id hid => Nat.lt_of_lt_of_le (h.lt id (hh ▸ hid)) ha
  owner := by
    intro id hid hwait
    rw [hh] at hid
    rcases hw id hwait with hw | hw
    · exact ho id (h.owner id hid hw) hwait
    · exact absurd (h.lt id hid) (Nat.not_lt.mpr hw)

theorem HandledInv.handle (h : HandledInv n) (id : ℕ) (hh : n'.handled = n.handled ++ [id])
    (hwait : id ∈ waitingIds n) (hlt : id < n.arrived) (hno : id ∉ owners n)
    (ha : n.arrived ≤ n'.arrived) (hw : ∀ id ∈ waitingIds n', id ∈ waitingIds n)
    (ho : ∀ x, x ∈ owners n ∨ x = id → x ∈ waitingIds n' → x ∈ owners n') : HandledInv n' where
  nodup := by
    rw [hh]
    refine List.nodup_append.mpr ⟨h.nodup, List.nodup_singleton id, ?_⟩
    intro x hx y hy
    rw [List.mem_singleton.mp hy]
    rintro rfl
    exact hno (h.owner _ hx hwait)
  lt := by
    intro x hx
    rw [hh, List.mem_append, List.mem_singleton] at hx
    rcases hx with hx | rfl
    · exact Nat.lt_of_lt_of_le (h.lt x hx) ha
    · exact Nat.lt_of_lt_of_le hlt ha
  owner := by
    intro x hx hwait'
    rw [hh, List.mem_append, List.mem_singleton] at hx
    exact ho x (hx.imp_left fun hx => h.owner x hx (hw x hwait')) hwait'

structure RequestsOk (n : Node S C) : Prop where
  nodup : (requestsOf n).Nodup
  lt : ∀ id ∈ requestsOf n, id < n.arrived

theorem RequestsOk.answered_not_waiting {p : ℕ × CommandReply} (h : RequestsOk n)
    (hp : p ∈ n.replies) : p.1 ∉ waitingIds n := fun hw =>
  (List.nodup_append.mp h.nodup).2.2 _ (List.mem_map_of_mem hp) _ hw rfl

theorem performAll_replies (msg : Message C) (place : List Bool) (n : Node S C)
    (effects : List Effect) : n.replies <+: (performAll msg place n effects).replies := by
  induction effects generalizing n with
  | nil => exact List.prefix_refl _
  | cons e effects ih =>
    have h := ih (perform msg place n e)
    cases e <;> first | exact h | exact (List.prefix_append _ _).trans h

section
variable (hreq' : RequestsOk (performAll msg place { n with actor := a', mailbox := rest } effects))
include hreq'

theorem Reaction.waiting_sub (hre : Reaction cfg n.actor msg turn a' effects)
    (hm : n.mailbox = msg :: rest) :
    ∀ id ∈ waitingIds (performAll msg place { n with actor := a', mailbox := rest } effects),
      id ∈ waitingIds n := by
  intro id hid
  have hmem := (hre.requests_perm place hm).subset (List.mem_append_right _ hid)
  rcases List.mem_append.mp hmem with hr | hw
  · obtain ⟨p, hp, rfl⟩ := List.mem_map.mp hr
    have hp' := (performAll_replies msg place { n with actor := a', mailbox := rest } effects).subset hp
    exact absurd hid (hreq'.answered_not_waiting hp')
  · exact hw

theorem Reaction.handledInv (hre : Reaction cfg n.actor msg turn a' effects)
    (hok : PhaseOk cfg n.actor) (hc : Custody cfg n) (hreq : RequestsOk n)
    (h : HandledInv n) (hm : n.mailbox = msg :: rest) :
    HandledInv (performAll msg place { n with actor := a', mailbox := rest } effects) := by
  have hsub := hre.waiting_sub hreq' hm
  have hwait : ∀ id, msg.requestId? = some id → id ∈ waitingIds n ∧ id < n.arrived := by
    intro id hid
    have hmem : id ∈ waitingIds n := by simp [waitingIds, hm, requestIds, hid]
    exact ⟨hmem, hreq.lt id (List.mem_append_right _ hmem)⟩
  cases hre
  case ignored | idleTick | stashedCommand | stashedRead | readDenied | read | denied =>
    exact h.keep rfl (Nat.le_refl _) (fun id hid => .inl (hsub id hid)) fun _ ho _ => ho
  case tickFlush hmode hp he =>
    refine h.keep rfl (Nat.le_refl _) (fun id hid => .inl (hsub id hid)) fun id ho _ => ?_
    simpa [owners, hp, perform] using ho
  case gateFlush hmode hp hadm =>
    rw [performAll_append, performAll_stopped] at hsub ⊢
    refine h.keep rfl (Nat.le_refl _) (fun id hid => .inl (hsub id hid)) fun id ho _ => ?_
    simpa [owners, hp, perform] using ho
  case failed id _ _ _ _ hp _ | unchanged id _ _ hp _ | unchangedInBatch id _ _ _ _ hp _ _ _ _ _ =>
    obtain ⟨hid, hlt⟩ := hwait id rfl
    refine h.handle id rfl hid hlt (hc.head_not_owner hreq.nodup hm rfl (.inl hp))
      (Nat.le_refl _) hsub ?_
    rintro x (hx | rfl) hx'
    · exact hx
    · exact absurd hx' (hreq'.answered_not_waiting (List.mem_append_right _ (List.mem_singleton_self _)))
  case persist id ctx cmd tc tenant envelopes state counter hmode hp hgate hprod =>
    obtain ⟨hid, hlt⟩ := hwait id rfl
    refine h.handle id rfl hid hlt (hc.head_not_owner hreq.nodup hm rfl (.inl hp))
      (Nat.le_refl _) hsub fun x hx _ => ?_
    simpa [owners, hp, perform, idsOf, Message.id] using hx
  case fold id ctx cmd tc tenant hasPre base envelopes state counter timer started hmode hp
      hadm hbase hgate hprod htimer =>
    obtain ⟨hid, hlt⟩ := hwait id rfl
    have hno := hc.head_not_owner hreq.nodup hm rfl (.inl hp)
    rcases htimer with ⟨-, rfl⟩ | ⟨-, rfl, rfl⟩ <;>
      refine h.handle id rfl hid hlt hno (Nat.le_refl _) hsub fun x hx _ => ?_ <;>
      simpa [owners, hp, perform, idsOf, Message.id, foldInto] using hx
  case foldFlush id ctx cmd tc tenant hasPre base envelopes state counter hmode hp hadm hbase
      hgate hprod =>
    obtain ⟨hid, hlt⟩ := hwait id rfl
    rw [performAll_append, performAll_append, performAll_stopped] at hsub ⊢
    refine h.handle id rfl hid hlt (hc.head_not_owner hreq.nodup hm rfl (.inl hp))
      (Nat.le_refl _) hsub fun x hx _ => ?_
    simpa [owners, hp, perform, idsOf, Message.id] using hx
  case directConfirmed snaps hp hs =>
    rw [performAll_append, performAll_tellSnapshot] at hsub ⊢
    refine h.keep rfl (Nat.le_refl _) (fun id hid => .inl (hsub id hid)) fun id ho _ => ?_
    simpa [owners, hp, perform] using ho
  case directFailed hp =>
    refine h.keep rfl (Nat.le_refl _) (fun id hid => .inl (hsub id hid)) fun id ho _ => ?_
    simpa [owners, hp, perform] using ho
  case batchConfirmed snaps hp hs =>
    have he : n.actor.batchEntries = n.awaited.map (·.reply) := (hc.of_response hm).promised.batched hp
    rw [performAll_append, performAll_tellSnapshot] at hsub ⊢
    refine h.keep rfl (Nat.le_refl _) (fun id hid => .inl (hsub id hid)) fun id ho _ => ?_
    simpa [owners, hp, perform, he] using ho
  case batchFailed hp =>
    have he : n.actor.batchEntries = n.awaited.map (·.reply) := (hc.of_response hm).promised.batched hp
    refine h.keep rfl (Nat.le_refl _) (fun id hid => .inl (hsub id hid)) fun id ho _ => ?_
    simpa [owners, hp, perform, he] using ho
  case replySuccess id ctx cmd hp he =>
    obtain ⟨b, hb, rfl⟩ := hc.of_directReplying hp hm
    refine h.keep rfl (Nat.le_refl _) (fun id hid => .inl (hsub id hid)) fun x ho hx => ?_
    have hx' : x = b.id := by simpa [owners, hp, hb.awaited, idsOf] using ho
    exact absurd (hx' ▸ hx) (hreq'.answered_not_waiting (List.mem_append_right _ (List.mem_singleton_self _)))
  case replyFailure id ctx cmd err hp he =>
    obtain ⟨b, hb, rfl⟩ := hc.of_directReplying hp hm
    rw [performAll_append, performAll_shutdown] at hsub hreq' ⊢
    refine h.keep rfl (Nat.le_refl _) (fun id hid => .inl (hsub id hid)) fun x ho hx => ?_
    have hx' : x = b.id := by simpa [owners, hp, hb.awaited, idsOf] using ho
    exact absurd (hx' ▸ hx) (hreq'.answered_not_waiting (List.mem_append_right _ (List.mem_singleton_self _)))
  case drain id ctx cmd reply hp hrem hl =>
    obtain ⟨b, err, hb, rfl⟩ := hc.of_replying hok hp hm
    obtain ⟨hpos, hle⟩ := hok.owes hp
    rw [hb.entries, List.length_map] at hle
    refine h.keep rfl (Nat.le_refl _) (fun id hid => .inl (hsub id hid)) fun x ho hx => ?_
    rw [hb.owners_eq, List.mem_cons] at ho
    rcases ho with rfl | ho
    · exact absurd hx (hreq'.answered_not_waiting (List.mem_append_right _ (List.mem_singleton_self _)))
    · have hone : n.awaited.length - n.actor.remainingReplies + 1 =
          n.awaited.length - (n.actor.remainingReplies - 1) := by omega
      rw [hone] at ho
      simpa [owners, perform, hp] using ho
  case drainLast id ctx cmd reply hp hrem hl =>
    obtain ⟨b, err, hb, rfl⟩ := hc.of_replying hok hp hm
    obtain ⟨hpos, hle⟩ := hok.owes hp
    rw [performAll_cons, performAll_shutdown] at hsub hreq' ⊢
    refine h.keep rfl (Nat.le_refl _) (fun id hid => .inl (hsub id hid)) fun x ho hx => ?_
    rw [hb.owners_eq, List.mem_cons, List.drop_of_length_le (by simp [idsOf]; omega)] at ho
    rcases ho with rfl | ho
    · exact absurd hx (hreq'.answered_not_waiting (List.mem_append_right _ (List.mem_singleton_self _)))
    · exact absurd ho List.not_mem_nil

end

end

end Ego.EventSource

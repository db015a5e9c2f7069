import Ego.Lib.Insertion
import Ego.EventSource.Crash
import Ego.EventSource.Handling

/-! # Messages of other tenants -/

namespace Ego.EventSource
open Persistence Protocol Lib
open Tenancy (TenantContext)

inductive Request (C : Type) where
  | command (ctx : Ctx) (cmd : C)
  | getState (ctx : Ctx)
  deriving DecidableEq, Repr

namespace Request
variable {C : Type}

def ctx : Request C → Ctx
  | .command ctx _ => ctx
  | .getState ctx => ctx

def message (id : ℕ) : Request C → Message C
  | .command ctx cmd => .command id ctx cmd
  | .getState ctx => .getState id ctx

def label : Request C → Label C
  | .command ctx cmd => .command ctx cmd
  | .getState ctx => .getState ctx

end Request

section
variable {S C E : Type}

def Node.skip (n : Node S C) : Node S C := { n with arrived := n.arrived + 1 }

def delivers (id : ℕ) (s : Node S C × Option EventLog) : Act (Label C) (Option EventLog) → Bool
  | .own (.deliver _ _) => s.1.mailbox.head?.bind Message.requestId? == some id
  | _ => false

def stashFirst : Act (Label C) (Option EventLog) → Bool
  | .own l => l.prepends
  | .others _ => true

/-! ### Who is owed a reply waits in front -/

def held (a : Actor S) : ℕ :=
  match a.phase with
  | .persisting => 1
  | .processing | .flushing => a.batchEntries.length
  | _ => 0

def claims (a : Actor S) : ℕ :=
  match a.phase with
  | .replying => a.remainingReplies
  | .directReplying => 1
  | _ => 0

def Message.commands : Message C → ℕ
  | .command _ _ _ => 1
  | _ => 0

variable {cfg : Config S C E}

theorem length_commandIds_cons (msg : Message C) (msgs : List (Message C)) :
    (commandIds (msg :: msgs)).length = msg.commands + (commandIds msgs).length := by
  cases msg <;> simp [Message.commands, Nat.add_comm]

variable {a a' : Actor S} {msg : Message C} {effects : List Effect}

theorem Reaction.claims {turn : Turn} (h : Reaction cfg a msg turn a' effects) :
    claims a' = 0 ∨ claims a' + msg.commands ≤ claims a ∨
      (claims a' ≤ held a ∧ ∃ snaps : List PersistSnapshotRequest,
        effects = snaps.map .tellSnapshot ++ [.unstashAll]) := by
  cases h
  case ignored | idleTick | stashedRead | readDenied | read =>
    exact .inr (.inl (by simp [EventSource.claims, Message.commands]))
  case stashedCommand hp =>
    rcases hp with hp | hp <;> exact .inl (by simp [EventSource.claims, hp])
  case tickFlush | gateFlush | foldFlush | persist | replySuccess | replyFailure | drainLast =>
    exact .inl rfl
  case denied hp | failed hp _ | unchanged hp _ | unchangedInBatch hp _ _ _ _ _ =>
    exact .inl (by simp [EventSource.claims, hp])
  case fold hp _ _ _ _ _ => exact .inl (by simp [EventSource.claims, foldInto, hp])
  case directConfirmed hp hs => exact .inr (.inr ⟨by simp [EventSource.claims, held, hp], _, rfl⟩)
  case directFailed hp => exact .inr (.inr ⟨by simp [EventSource.claims, held, hp], [], rfl⟩)
  case batchConfirmed hp hs =>
    exact .inr (.inr ⟨by simp [EventSource.claims, held, hp], _, rfl⟩)
  case batchFailed hp => exact .inr (.inr ⟨by simp [EventSource.claims, held, hp], [], rfl⟩)
  case drain hp hr hl =>
    simp only [EventSource.claims, hp, Message.commands]
    omega

structure Guarded (cfg : Config S C E) (bound : TenantContext) (n : Node S C) : Prop where
  phaseOk : PhaseOk cfg n.actor
  tenant : n.actor.actorTenant = bound
  held_le : held n.actor ≤ (commandIds n.stash).length
  claims_le : claims n.actor ≤ (commandIds n.mailbox).length
  lt : ∀ msg, msg ∈ n.mailbox ∨ msg ∈ n.stash → ∀ id, msg.requestId? = some id → id < n.arrived

variable {n : Node S C}

theorem Reaction.held_le {turn : Turn} (h : Reaction cfg n.actor msg turn a' effects) (hok : PhaseOk cfg n.actor)
    (hle : held n.actor ≤ (commandIds n.stash).length) (computed : List (ℕ × CommandReply))
    (rest : List (Message C)) : held a' ≤ (commandIds (performAll msg []
      { n with computed := computed, actor := a', mailbox := rest } effects).stash).length := by
  cases h
  case ignored | readDenied | read | idleTick | stashedRead => simpa [perform, held] using hle
  case stashedCommand =>
    simp only [performAll_cons, performAll_nil, perform, commandIds_append, List.length_append]
    omega
  case tickFlush hm hp he => simpa [perform, held, hp] using hle
  case denied hp | failed hp _ | unchanged hp _ | unchangedInBatch hp _ _ _ _ _ =>
    simpa [perform, held, hp] using hle
  case persist => simp [perform, held]
  case gateFlush hm hp hadm =>
    simp only [held, hp] at hle ⊢
    simp only [performAll_append, performAll_stopped, performAll_cons, performAll_nil, perform,
      commandIds_append, List.length_append]
    omega
  case fold hm hp _ _ _ _ ht =>
    simp only [held, hp, foldInto] at hle ⊢
    rcases ht with ⟨-, rfl⟩ | ⟨-, -, rfl⟩ <;> simpa [perform] using hle
  case foldFlush hm hp _ _ _ _ =>
    simp only [held, hp, foldInto] at hle ⊢
    simpa [perform, performAll_append] using hle
  case drain hp _ _ => simp [held, hp]
  case replySuccess hp _ | replyFailure hp _ =>
    simp [held, (hok.direct (hok.direct_of_phase (.inr hp))).2.1]
  all_goals simp [held, resetBatch]

variable {rest : List (Message C)}

theorem deliver_cons (turn : Turn) (place : List Bool) (h : n.mailbox = msg :: rest) :
    deliver cfg turn place n = performAll msg place { n with
        computed := n.computed ++ ownReplies n.actor.phase msg
          (receive cfg n.actor msg { turn with timer := n.armed }).2
        actor := (receive cfg n.actor msg { turn with timer := n.armed }).1
        mailbox := rest } (receive cfg n.actor msg { turn with timer := n.armed }).2 := by
  simp only [deliver, h]

variable {snapshot : Option Snapshot}

theorem recover_actorTenant {store : EventsStore} {log : Option EventLog} (hs : spawnTenant cfg ≠ .unset)
    (h : recover cfg store snapshot log = .ok a) :
    a.actorTenant = spawnTenant cfg := by
  have hseed {a b : Actor S} {md : Tenancy.Metadata} {text : String} (ha : a.actorTenant = spawnTenant cfg)
      (h : seedFromMetadata cfg a md text = .ok b) : b.actorTenant = spawnTenant cfg := by
    unfold seedFromMetadata at h
    split at h
    · rwa [← Except.ok.inj h]
    · obtain ⟨tc, -, h⟩ := bind_eq_ok.mp h
      unfold seedActorTenant at h
      split at h
      · rwa [← Except.ok.inj h]
      · rw [if_neg (ha ▸ hs)] at h
        obtain ⟨-, -, h⟩ := map_eq_ok.mp h
        rwa [← h]
  simp only [recover, recoverReading, bind_eq_ok] at h
  obtain ⟨⟨a₀, replayFrom⟩, hsnap, latest, -, h⟩ := h
  have ha₀ : a₀.actorTenant = spawnTenant cfg := by
    obtain ⟨-, rfl, -⟩ | ⟨s, b, state, -, hb, rfl, -⟩ := recoverFromSnapshot_ok hsnap
    · rfl
    · exact @hseed _ b _ _ rfl hb
  cases latest with
  | none => exact Except.ok.inj h ▸ ha₀
  | some latest =>
    simp only [bind_eq_ok] at h
    obtain ⟨b, hb, h⟩ := h
    split at h
    · simp only [bind_eq_ok] at h
      obtain ⟨_, -, _, -, h⟩ := h
      rw [← Except.ok.inj h]
      exact @hseed _ b _ _ ha₀ hb
    · rw [← Except.ok.inj h]
      exact hseed ha₀ hb

/-! ### Steps of the runtime -/

def Node.put (n : Node S C) (mailbox stash : List (Message C)) (replies computed : List (ℕ × CommandReply)) :
    Node S C :=
  { n with mailbox := mailbox, stash := stash, replies := replies, computed := computed }

def Node.withMailbox (n : Node S C) (mailbox : List (Message C)) : Node S C := { n with mailbox := mailbox }
def Node.withStash (n : Node S C) (stash : List (Message C)) : Node S C := { n with stash := stash }
def Node.withReplies (n : Node S C) (replies computed : List (ℕ × CommandReply)) : Node S C :=
  { n with replies := replies, computed := computed }

def Label.outside : Label C → Bool
  | .deliver _ _ | .restart _ => false
  | _ => true

theorem answerAsk_put (w : Write) (err : Option Err) (n : Node S C) :
    ∃ (added : List (Message C)) (n' : Node S C), n'.actor = n.actor ∧ n'.arrived = n.arrived ∧
      requestIds added = [] ∧ ∀ mailbox stash replies computed,
        answerAsk w err (n.put mailbox stash replies computed) =
          n'.put (mailbox ++ added) stash replies computed := by
  obtain ⟨hactor, -⟩ := answerAsk_frame w err n
  by_cases ha : n.asks.any (·.id == w.id)
  · refine ⟨[.persistEventsResponse err], answerAsk w err n, hactor, ?_, rfl, fun _ _ _ _ => ?_⟩
    · simp only [answerAsk, ha, if_true]
    · simp only [answerAsk, Node.put, ha, if_true]
  · exact ⟨[], n, rfl, rfl, rfl, fun _ _ _ _ => by simp [answerAsk, Node.put, ha]⟩

def AddsOnly (cfg : Config S C E) (store : EventsStore) (n : Node S C) (log : Option EventLog) (l : Label C) : Prop :=
  ∃ (added : List (Message C)) (n' : Node S C) (log' : Option EventLog), n'.actor = n.actor ∧
    n.arrived ≤ n'.arrived ∧ (∀ id ∈ requestIds added, n.arrived ≤ id ∧ id < n'.arrived) ∧
    ∀ mailbox stash replies computed, nodeStep cfg store (n.put mailbox stash replies computed) log l =
      (n'.put (mailbox ++ added) stash replies computed, log')

theorem outside_addsOnly (store : EventsStore) (n : Node S C) (log : Option EventLog) {l : Label C}
    (hl : l.outside = true) : AddsOnly cfg store n log l := by
  have hask (w : Write) (err : Option Err) (m : Node S C) (log' : Option EventLog) (ha : m.actor = n.actor)
      (hr : m.arrived = n.arrived) (h : ∀ mailbox stash replies computed,
        nodeStep cfg store (n.put mailbox stash replies computed) log l =
          (answerAsk w err (m.put mailbox stash replies computed), log')) : AddsOnly cfg store n log l := by
    obtain ⟨added, n', hactor, harrived, hids, hput⟩ := answerAsk_put w err m
    exact ⟨added, n', log', hactor.trans ha, by omega, by simp [hids], fun _ _ _ _ => by rw [h, hput]⟩
  have hquiet (m : Node S C) (log' : Option EventLog) (ha : m.actor = n.actor) (hr : m.arrived = n.arrived)
      (h : ∀ mailbox stash replies computed, nodeStep cfg store (n.put mailbox stash replies computed) log l =
          (m.put mailbox stash replies computed, log')) : AddsOnly cfg store n log l :=
    ⟨[], m, log', ha, by omega, by simp, fun _ _ _ _ => by rw [h, List.append_nil]⟩
  cases l with
  | command ctx cmd =>
    exact ⟨[.command n.arrived ctx cmd], { n with arrived := n.arrived + 1 }, log, rfl, Nat.le_succ _,
      by simp, fun _ _ _ _ => rfl⟩
  | getState ctx =>
    exact ⟨[.getState n.arrived ctx], { n with arrived := n.arrived + 1 }, log, rfl, Nat.le_succ _,
      by simp, fun _ _ _ _ => rfl⟩
  | flushTick => exact ⟨[.batchFlushTick], n, log, rfl, Nat.le_refl _, by simp, fun _ _ _ _ => rfl⟩
  | deliver | restart => simp [Label.outside] at hl
  | write outcome =>
    cases hw : n.writer with
    | nil => exact hquiet n log rfl rfl fun _ _ _ _ => by simp [nodeStep, writeNext, Node.put, hw]
    | cons w rest =>
      cases hs : store.writeEvents w.req.scope cfg.persistenceID log w.req.envelopes w.req.precondition with
      | ok log' =>
        cases outcome with
        | fail err =>
          exact hask w (some err) { n with writer := rest } log rfl rfl fun _ _ _ _ => by
            simp only [nodeStep, writeNext, Node.put, hw]
        | store =>
          exact hask w none { n with writer := rest, committed := n.committed ++ w.blocks } log' rfl rfl
            fun _ _ _ _ => by simp only [nodeStep, writeNext, Node.put, hw, hs]
        | lost =>
          exact hquiet { n with writer := rest, committed := n.committed ++ w.blocks } log' rfl rfl
            fun _ _ _ _ => by simp only [nodeStep, writeNext, Node.put, hw, hs]
      | error err =>
        cases outcome with
        | fail err =>
          exact hask w (some err) { n with writer := rest } log rfl rfl fun _ _ _ _ => by
            simp only [nodeStep, writeNext, Node.put, hw]
        | store =>
          exact hask w (some err) { n with writer := rest } log rfl rfl fun _ _ _ _ => by
            simp only [nodeStep, writeNext, Node.put, hw, hs]
        | lost =>
          exact hquiet { n with writer := rest } log rfl rfl fun _ _ _ _ => by
            simp only [nodeStep, writeNext, Node.put, hw, hs]
  | timeout text =>
    cases ha : n.asks with
    | nil => exact hquiet n log rfl rfl fun _ _ _ _ => by simp [nodeStep, timeoutAsk, Node.put, ha]
    | cons w rest =>
      exact hask w (some (.message text)) n log rfl rfl fun _ _ _ _ => by
        simp only [nodeStep, timeoutAsk, Node.put, ha]
  | fire timer =>
    by_cases ht : timer ∈ n.timers
    · exact ⟨[.batchFlushTick], { n with timers := n.timers.erase timer }, log, rfl, Nat.le_refl _, by simp,
        fun _ _ _ _ => by simp [nodeStep, fireTimer, Node.put, ht]⟩
    · exact hquiet n log rfl rfl fun _ _ _ _ => by simp [nodeStep, fireTimer, Node.put, ht]

theorem perform_mailbox (msg : Message C) (n : Node S C) (effects : List Effect) :
    ∃ released, ∀ mailbox, performAll msg [] (n.withMailbox mailbox) effects =
      (performAll msg [] n effects).withMailbox (released ++ mailbox) := by
  induction effects generalizing n with
  | nil => exact ⟨[], fun _ => rfl⟩
  | cons e effects ih =>
    obtain ⟨released, h⟩ := ih (perform msg [] n e)
    cases e
    case unstashAll =>
      refine ⟨released ++ n.stash, fun mailbox => ?_⟩
      rw [List.append_assoc]
      exact h (n.stash ++ mailbox)
    all_goals exact ⟨released, h⟩

theorem perform_stash (msg : Message C) (place : List Bool) (n : Node S C) (effects : List Effect)
    (h : .unstashAll ∉ effects) : ∃ added, ∀ stash, performAll msg place (n.withStash stash) effects =
      (performAll msg place n effects).withStash (stash ++ added) := by
  induction effects generalizing n with
  | nil => exact ⟨[], fun _ => by simp⟩
  | cons e effects ih =>
    obtain ⟨added, hadd⟩ := ih (perform msg place n e) fun hmem => h (List.mem_cons_of_mem e hmem)
    cases e
    case unstashAll => exact absurd List.mem_cons_self h
    case stash =>
      refine ⟨msg :: added, fun stash => ?_⟩
      have hadd := hadd (stash ++ [msg])
      rw [List.append_assoc] at hadd
      exact hadd
    all_goals exact ⟨added, hadd⟩

theorem perform_replies (msg : Message C) (place : List Bool) (n : Node S C) (effects : List Effect) :
    ∃ added, ∀ replies computed, performAll msg place (n.withReplies replies computed) effects =
      (performAll msg place n effects).withReplies (replies ++ added) computed := by
  induction effects generalizing n with
  | nil => exact ⟨[], fun _ _ => by simp⟩
  | cons e effects ih =>
    obtain ⟨added, h⟩ := ih (perform msg place n e)
    cases e
    case response reply =>
      refine ⟨(msg.id, reply) :: added, fun replies computed => ?_⟩
      have hadd := h (replies ++ [(msg.id, reply)]) computed
      rw [List.append_assoc] at hadd
      exact hadd
    all_goals exact ⟨added, h⟩

theorem perform_release (msg : Message C) (n : Node S C) (snaps : List PersistSnapshotRequest) :
    performAll msg [] n (snaps.map .tellSnapshot ++ [.unstashAll]) =
      ({ n with snapshots := n.snapshots ++ snaps }.withMailbox (n.stash ++ n.mailbox)).withStash [] := by
  simp [performAll_append, perform, Node.withMailbox, Node.withStash]

/-! ### A run beside another -/

structure Apart (id : ℕ) (n : Node S C) : Prop where
  lt : id < n.arrived
  waiting : ∀ msg, msg ∈ n.mailbox ∨ msg ∈ n.stash → msg.requestId? ≠ some id

/-- The first node is the second one with the message `m` on top of it: it waits,
behind all commands that are owed a reply, or it was answered, or it was lost. -/
inductive Beside (m : Message C) (reply : CommandReply) (n₁ n₂ : Node S C) : Prop
  | queued (before after : List (Message C)) (hm : n₂.mailbox = before ++ after)
      (hle : claims n₂.actor ≤ (commandIds before).length) (heq : n₁ = n₂.withMailbox (before ++ m :: after))
  | stashed (before after : List (Message C)) (hm : n₂.stash = before ++ after)
      (hle : held n₂.actor ≤ (commandIds before).length)
      (hp : n₂.actor.phase = .persisting ∨ n₂.actor.phase = .flushing)
      (heq : n₁ = n₂.withStash (before ++ m :: after))
  | answered (before after before' after' : List (ℕ × CommandReply)) (hr : n₂.replies = before ++ after)
      (hc : n₂.computed = before' ++ after')
      (heq : n₁ = n₂.withReplies (before ++ (m.id, reply) :: after) (before' ++ (m.id, reply) :: after'))
  | gone (heq : n₁ = n₂)

variable {m : Message C} {reply : CommandReply} {n₁ n₂ : Node S C} {store : EventsStore}
  {log : Option EventLog} {bound : TenantContext}

variable {l : Label C}

theorem Beside.outside (hl : l.outside = true) (h : Beside m reply n₁ n₂) :
    Beside m reply (nodeStep cfg store n₁ log l).1 (nodeStep cfg store n₂ log l).1 ∧
      (nodeStep cfg store n₁ log l).2 = (nodeStep cfg store n₂ log l).2 := by
  obtain ⟨added, n', log', hactor, -, -, hput⟩ := outside_addsOnly store n₂ log hl
  have hsame : nodeStep cfg store n₂ log l = _ := hput n₂.mailbox n₂.stash n₂.replies n₂.computed
  rw [hsame]
  cases h with
  | queued before after hm hle heq =>
    subst heq
    have hstep : nodeStep cfg store (n₂.withMailbox (before ++ m :: after)) log l = _ :=
      hput (before ++ m :: after) n₂.stash n₂.replies n₂.computed
    rw [hstep]
    refine ⟨.queued before (after ++ added) ?_ ?_ ?_, rfl⟩
    · simp [Node.put, hm]
    · simpa [Node.put, hactor] using hle
    · simp [Node.put, Node.withMailbox]
  | stashed before after hm hle hp heq =>
    subst heq
    have hstep : nodeStep cfg store (n₂.withStash (before ++ m :: after)) log l = _ :=
      hput n₂.mailbox (before ++ m :: after) n₂.replies n₂.computed
    rw [hstep]
    exact ⟨.stashed before after hm (by simpa [Node.put, hactor] using hle)
      (by simpa [Node.put, hactor] using hp) rfl, rfl⟩
  | answered before after before' after' hr hc heq =>
    subst heq
    have hstep : nodeStep cfg store (n₂.withReplies (before ++ (m.id, reply) :: after)
        (before' ++ (m.id, reply) :: after')) log l = _ :=
      hput n₂.mailbox n₂.stash (before ++ (m.id, reply) :: after) (before' ++ (m.id, reply) :: after')
    rw [hstep]
    exact ⟨.answered before after before' after' hr hc rfl, rfl⟩
  | gone heq =>
    rw [heq, hsame]
    exact ⟨.gone rfl, rfl⟩

theorem Beside.restart (h : Beside m reply n₁ n₂) :
    Beside m reply (restartNode cfg store snapshot n₁ log) (restartNode cfg store snapshot n₂ log) := by
  unfold restartNode
  cases recover cfg store snapshot log with
  | error err => exact h
  | ok a =>
    cases h with
    | queued _ _ _ _ heq | stashed _ _ _ _ _ heq | gone heq =>
      subst heq
      exact .gone rfl
    | answered before after before' after' hr hc heq =>
      subst heq
      exact .answered before after before' after' hr hc rfl

theorem Reaction.while_waiting {turn : Turn}
    (h : Reaction cfg a msg turn a' effects) (hp : a.phase = .persisting ∨ a.phase = .flushing) :
    (a'.phase = a.phase ∧ held a' = held a ∧ .unstashAll ∉ effects) ∨ (EventSource.claims a' ≤ held a ∧
        ∃ snaps : List PersistSnapshotRequest, effects = snaps.map .tellSnapshot ++ [.unstashAll]) := by
  cases h
  case idleTick | stashedCommand | stashedRead | readDenied | read => exact .inl ⟨rfl, rfl, by simp⟩
  case directConfirmed hp _ => exact .inr ⟨by simp [EventSource.claims, held, hp], _, rfl⟩
  case directFailed hp => exact .inr ⟨by simp [EventSource.claims, held, hp], [], rfl⟩
  case batchConfirmed hp _ => exact .inr ⟨by simp [EventSource.claims, held, hp], _, rfl⟩
  case batchFailed hp => exact .inr ⟨by simp [EventSource.claims, held, hp], [], rfl⟩
  all_goals simp_all

def Node.turned (n : Node S C) (a : Actor S) (own : List (ℕ × CommandReply)) (rest : List (Message C)) : Node S C :=
  { n with computed := n.computed ++ own, actor := a, mailbox := rest }

section Turn
variable {n : Node S C} {a' : Actor S} {msg : Message C} {turn : Turn} {effects : List Effect}
  (own : List (ℕ × CommandReply))

section
variable (hre : Reaction cfg n.actor msg turn a' effects)
include hre

theorem Reaction.claims_le {released front : List (Message C)}
    (hheld : held n.actor ≤ (commandIds n.stash).length)
    (hle : EventSource.claims n.actor ≤ (commandIds (msg :: front)).length)
    (hperf : ∀ mailbox, performAll msg [] ((n.turned a' own []).withMailbox mailbox) effects =
      (performAll msg [] (n.turned a' own []) effects).withMailbox (released ++ mailbox)) :
    EventSource.claims a' ≤ (commandIds (released ++ front)).length := by
  rw [commandIds_append, List.length_append]
  rw [length_commandIds_cons] at hle
  rcases hre.claims with hc | hc | ⟨hc, snaps, rfl⟩
  · omega
  · omega
  · have hrel := congrArg Node.mailbox (hperf [])
    rw [perform_release, perform_release] at hrel
    have hrel : n.stash = released := by simpa [Node.withMailbox, Node.withStash, Node.turned] using hrel
    rw [← hrel]
    omega

theorem turn_queued {front after : List (Message C)}
    (hheld : held n.actor ≤ (commandIds n.stash).length)
    (hle : claims n.actor ≤ (commandIds (msg :: front)).length) :
    Beside m reply (performAll msg [] (n.turned a' own (front ++ m :: after)) effects)
      (performAll msg [] (n.turned a' own (front ++ after)) effects) := by
  obtain ⟨released, hperf⟩ := perform_mailbox msg (n.turned a' own []) effects
  have hclaims := hre.claims_le own hheld hle hperf
  have ha : (performAll msg [] (n.turned a' own []) effects).actor = a' := performAll_actor _ _ _ _
  have h₁ : performAll msg [] (n.turned a' own (front ++ m :: after)) effects = _ := hperf (front ++ m :: after)
  have h₂ : performAll msg [] (n.turned a' own (front ++ after)) effects = _ := hperf (front ++ after)
  rw [h₁, h₂]
  refine .queued (released ++ front) after ?_ ?_ ?_
  · simp [Node.withMailbox]
  · change claims (performAll msg [] (n.turned a' own []) effects).actor ≤ _
    rwa [ha]
  · simp only [List.append_assoc]
    rfl

theorem turn_stashed {before after : List (Message C)}
    (hp : n.actor.phase = .persisting ∨ n.actor.phase = .flushing) (hs : n.stash = before ++ after)
    (hle : held n.actor ≤ (commandIds before).length) :
    Beside m reply (performAll msg [] ((n.withStash (before ++ m :: after)).turned a' own rest) effects)
      (performAll msg [] (n.turned a' own rest) effects) := by
  rcases hre.while_waiting hp with ⟨hphase, hheld, hno⟩ | ⟨hc, snaps, rfl⟩
  · obtain ⟨added, hperf⟩ := perform_stash msg [] (n.turned a' own rest) effects hno
    have h₁ : performAll msg [] ((n.withStash (before ++ m :: after)).turned a' own rest) effects = _ :=
      hperf (before ++ m :: after)
    have h₂ : performAll msg [] (n.turned a' own rest) effects = _ := hperf n.stash
    have ha : (performAll msg [] (n.turned a' own rest) effects).actor = a' := performAll_actor _ _ _ _
    rw [h₁, h₂]
    refine .stashed before (after ++ added) ?_ ?_ ?_ ?_
    · simp [Node.withStash, hs]
    · change held (performAll msg [] (n.turned a' own rest) effects).actor ≤ _
      rw [ha, hheld]
      exact hle
    · change (performAll msg [] (n.turned a' own rest) effects).actor.phase = .persisting ∨
        (performAll msg [] (n.turned a' own rest) effects).actor.phase = .flushing
      rw [ha, hphase]
      exact hp
    · simp [Node.withStash]
  · rw [perform_release, perform_release]
    refine .queued before (after ++ rest) ?_ (hc.trans hle) ?_
    · simp [Node.withMailbox, Node.withStash, Node.turned, hs]
    · simp [Node.withMailbox, Node.withStash, Node.turned]

end

theorem turn_answered {before after before' after' : List (ℕ × CommandReply)}
    (place : List Bool) (hr : n.replies = before ++ after) (hc : n.computed = before' ++ after') :
    Beside m reply (performAll msg place ((n.withReplies (before ++ (m.id, reply) :: after)
        (before' ++ (m.id, reply) :: after')).turned a' own rest) effects)
      (performAll msg place (n.turned a' own rest) effects) := by
  obtain ⟨added, hperf⟩ := perform_replies msg place (n.turned a' own rest) effects
  have h₁ : performAll msg place ((n.withReplies (before ++ (m.id, reply) :: after)
      (before' ++ (m.id, reply) :: after')).turned a' own rest) effects = _ :=
    hperf (before ++ (m.id, reply) :: after) (before' ++ (m.id, reply) :: after' ++ own)
  have h₂ : performAll msg place (n.turned a' own rest) effects = _ := hperf n.replies (n.computed ++ own)
  rw [h₁, h₂]
  refine .answered before (after ++ added) before' (after' ++ own) ?_ ?_ ?_
  · simp [Node.withReplies, hr]
  · simp [Node.withReplies, hc]
  · simp [Node.withReplies]

end Turn

theorem Beside.turn {rest' : List (Message C)} {turn : Turn} {id : ℕ}
    (hg : Guarded cfg bound n₂) (h : Beside m reply n₁ n₂) (hm : m.requestId? = some id)
    (hid : msg.requestId? ≠ some id) (h₁ : n₁.mailbox = msg :: rest') (h₂ : n₂.mailbox = msg :: rest) :
    Beside m reply (deliver cfg turn [] n₁) (deliver cfg turn [] n₂) := by
  have hre : Reaction cfg n₂.actor msg { turn with timer := n₂.armed } _ _ := receive_reaction hg.phaseOk msg
  have hact : n₁.actor = n₂.actor ∧ n₁.armed = n₂.armed := by
    cases h with
    | queued _ _ _ _ heq | stashed _ _ _ _ _ heq | answered _ _ _ _ _ _ heq | gone heq =>
      subst heq
      exact ⟨rfl, rfl⟩
  rw [deliver_cons turn [] h₁, deliver_cons turn [] h₂, hact.1, hact.2]
  generalize receive cfg n₂.actor msg { turn with timer := n₂.armed } = r at hre ⊢
  obtain ⟨a', effects⟩ := r
  generalize ownReplies n₂.actor.phase msg effects = own
  cases h with
  | queued before after hmail hle heq =>
    subst heq
    obtain ⟨front, rfl⟩ : ∃ front, before = msg :: front := by
      cases before with
      | nil =>
        obtain rfl : m = msg := (List.cons.inj h₁).1
        exact absurd hm hid
      | cons x front => exact ⟨front, by rw [(List.cons.inj h₁).1]⟩
    obtain rfl : rest = front ++ after := (List.cons.inj (h₂.symm.trans hmail)).2
    obtain rfl : rest' = front ++ m :: after := (List.cons.inj h₁).2.symm
    exact turn_queued own hre hg.held_le hle
  | stashed before after hs hle hp heq =>
    subst heq
    obtain rfl : rest' = rest := (List.cons.inj (h₁.symm.trans h₂)).2
    exact turn_stashed own hre hp hs hle
  | answered before after before' after' hr hc heq =>
    subst heq
    obtain rfl : rest' = rest := (List.cons.inj (h₁.symm.trans h₂)).2
    exact turn_answered own [] hr hc
  | gone heq =>
    subst heq
    obtain rfl : rest' = rest := (List.cons.inj (h₁.symm.trans h₂)).2
    exact .gone rfl

/-! ### The foreign request itself -/

theorem receive_foreign {r : Request C} {err : Err} (id : ℕ) (turn : Turn)
    (hok : PhaseOk cfg a) (hgate : Tenancy.gate cfg.tenantAware a.actorTenant r.ctx.tenant = .error err)
    (hc : claims a = 0) : (receive cfg a (r.message id) turn = (a, [.response (.errorReply err)]) ∧
        (a.phase = .processing ∨ (r.message id).commandId? = none)) ∨
      (receive cfg a (r.message id) turn = (a, [.stash]) ∧ (a.phase = .persisting ∨ a.phase = .flushing)) := by
  have hgates : gates cfg a.actorTenant r.ctx turn = .error err := by
    simp only [gates, hgate]
    rfl
  cases hp : a.phase with
  | replying =>
    have hpos := hok.owes hp
    simp only [claims, hp] at hc
    omega
  | directReplying => simp [claims, hp] at hc
  | processing =>
    cases r with
    | command ctx cmd =>
      refine .inl ⟨?_, .inl rfl⟩
      have hg : gates cfg a.actorTenant ctx turn = .error err := hgates
      simp only [Request.message, receive, handleCommandBatched, hp, processAndBatch_eq, processCommandAndReply_eq, hg]
      split <;> rfl
    | getState ctx =>
      have hg : tenantGate cfg a ctx = .error err := hgate
      simp [Request.message, receive, handleGetStateCommand, getStateAndReply, hg, hp, sendErrorReply]
  | persisting =>
    have hmode := hok.direct_of_phase (.inl hp)
    cases r <;> simp [Request.message, receive, handleGetStateCommand, hmode, hp]
  | flushing =>
    have hmode := hok.batched_of_phase (.inl hp)
    cases r with
    | command ctx cmd =>
      exact .inr ⟨by simp [Request.message, receive, handleCommandBatched, hmode, hp], .inr rfl⟩
    | getState ctx =>
      refine .inl ⟨?_, .inr rfl⟩
      have hg : tenantGate cfg a ctx = .error err := hgate
      simp [Request.message, receive, handleGetStateCommand, getStateAndReply, hg, hmode, sendErrorReply]

theorem Beside.taken {r : Request C} {id : ℕ} {err : Err} {x : Message C}
    (turn : Turn) (place : List Bool) (hg : Guarded cfg bound n₂)
    (hgate : Tenancy.gate cfg.tenantAware bound r.ctx.tenant = .error err) (ha : Apart id n₂)
    (h : Beside (r.message id) (.errorReply err) n₁ n₂) (h₁ : n₁.mailbox = x :: rest)
    (hx : x.requestId? = some id) :
    Beside (r.message id) (.errorReply err) (deliver cfg turn place n₁) n₂ := by
  have hnot (hm : n₁.mailbox = n₂.mailbox) : False :=
    ha.waiting x (.inl (by rw [← hm, h₁]; exact List.mem_cons_self)) hx
  cases h with
  | stashed _ _ _ _ _ heq | answered _ _ _ _ _ _ heq | gone heq =>
    subst heq
    exact (hnot rfl).elim
  | queued before after hm hle heq =>
    subst heq
    obtain rfl : before = [] := by
      cases before with
      | nil => rfl
      | cons y before =>
        obtain rfl : y = x := (List.cons.inj h₁).1
        exact absurd hx (ha.waiting y (.inl (by rw [hm]; exact List.mem_cons_self)))
    obtain ⟨rfl, rfl⟩ : r.message id = x ∧ after = rest := List.cons.inj h₁
    obtain rfl : after = n₂.mailbox := hm.symm
    change Beside _ _ (performAll (r.message id) place (n₂.turned
      (receive cfg n₂.actor (r.message id) { turn with timer := n₂.armed }).1
      (ownReplies n₂.actor.phase (r.message id)
        (receive cfg n₂.actor (r.message id) { turn with timer := n₂.armed }).2) n₂.mailbox)
      (receive cfg n₂.actor (r.message id) { turn with timer := n₂.armed }).2) _
    rcases receive_foreign id { turn with timer := n₂.armed } hg.phaseOk (hg.tenant ▸ hgate)
      (Nat.le_zero.mp hle) with ⟨hr, hp⟩ | ⟨hr, hp⟩
    · rw [hr]
      refine .answered n₂.replies [] n₂.computed [] (List.append_nil _).symm
        (List.append_nil _).symm ?_
      rw [ownReplies, if_pos hp]
      rfl
    · rw [hr]
      refine .stashed n₂.stash [] (List.append_nil _).symm hg.held_le hp ?_
      have hnone : ownReplies n₂.actor.phase (r.message id) [.stash] = [] := by simp [ownReplies]
      rw [hnone]
      simp [perform, Node.turned, Node.withStash]

/-! ### Whole runs -/

theorem mem_performAll {x : Message C} {place : List Bool}
    (h : x ∈ (performAll msg place n effects).mailbox ∨ x ∈ (performAll msg place n effects).stash) :
    x = msg ∨ x ∈ n.mailbox ∨ x ∈ n.stash := by
  induction effects generalizing n with
  | nil => exact .inr h
  | cons e effects ih =>
    have h := ih h
    cases e
    case stash =>
      rcases h with h | h | h
      · exact .inl h
      · exact .inr (.inl h)
      · rcases List.mem_append.mp h with h | h
        · exact .inr (.inr h)
        · exact .inl (List.mem_singleton.mp h)
    case unstashAll =>
      rcases h with h | h | h
      · exact .inl h
      · exact .inr (mem_interleave.mp h).symm
      · simp [perform] at h
    all_goals exact h

theorem Apart.deliver {id : ℕ} (turn : Turn) (place : List Bool) (h : Apart id n) :
    Apart id (deliver cfg turn place n) := by
  cases hm : n.mailbox with
  | nil => rwa [deliver_nil turn place hm]
  | cons msg rest =>
    rw [deliver_cons turn place hm]
    refine ⟨?_, fun x hx => h.waiting x ?_⟩
    · rw [(performAll_frame _ _ _ _).2.1]
      exact h.lt
    · rcases mem_performAll hx with rfl | hx | hx
      · exact .inl (hm ▸ List.mem_cons_self)
      · exact .inl (hm ▸ List.mem_cons_of_mem msg hx)
      · exact .inr hx

theorem Guarded.deliver (turn : Turn) (hb : bound ≠ .unset) (h : Guarded cfg bound n) :
    Guarded cfg bound (deliver cfg turn [] n) := by
  cases hm : n.mailbox with
  | nil => rwa [deliver_nil turn [] hm]
  | cons msg rest =>
    have hre : Reaction cfg n.actor msg { turn with timer := n.armed } _ _ := receive_reaction h.phaseOk msg
    have htenant := @receive_actorTenant S C E cfg n.actor msg { turn with timer := n.armed }
      fun _ => h.tenant.symm ▸ hb
    rw [deliver_cons turn [] hm]
    generalize receive cfg n.actor msg { turn with timer := n.armed } = r at hre htenant ⊢
    obtain ⟨a', effects⟩ := r
    generalize ownReplies n.actor.phase msg effects = own
    obtain ⟨released, hperf⟩ := perform_mailbox msg (n.turned a' own []) effects
    have hclaims := hre.claims_le own h.held_le (hm ▸ h.claims_le) hperf
    have hmail : performAll msg [] (n.turned a' own rest) effects = _ := hperf rest
    refine ⟨?_, ?_, ?_, ?_, fun x hx => ?_⟩
    · rw [performAll_actor]
      exact hre.phaseOk h.phaseOk
    · rw [performAll_actor]
      exact htenant.trans h.tenant
    · rw [performAll_actor]
      exact hre.held_le h.phaseOk h.held_le _ rest
    · rw [performAll_actor]
      change claims a' ≤ (commandIds (performAll msg [] (n.turned a' own rest) effects).mailbox).length
      rw [hmail]
      exact hclaims
    · rw [(performAll_frame _ _ _ _).2.1]
      refine h.lt x ?_
      rcases mem_performAll hx with rfl | hx | hx
      · exact .inl (hm ▸ List.mem_cons_self)
      · exact .inl (hm ▸ List.mem_cons_of_mem msg hx)
      · exact .inr hx

theorem mem_requestIds {msgs : List (Message C)} {id : ℕ} (h : msg ∈ msgs)
    (hid : msg.requestId? = some id) : id ∈ requestIds msgs :=
  List.mem_filterMap.mpr ⟨msg, h, hid⟩

theorem Guarded.outside (hl : l.outside = true) (h : Guarded cfg bound n) :
    Guarded cfg bound (nodeStep cfg store n log l).1 := by
  obtain ⟨added, n', log', ha, hle, hids, hput⟩ := outside_addsOnly store n log hl
  have hstep : nodeStep cfg store n log l = _ := hput n.mailbox n.stash n.replies n.computed
  rw [hstep]
  refine ⟨?_, ?_, ?_, ?_, fun msg hmsg id hid => ?_⟩
  · exact (show n'.actor = _ from ha) ▸ h.phaseOk
  · exact (show n'.actor = _ from ha) ▸ h.tenant
  · exact (show n'.actor = _ from ha) ▸ h.held_le
  · have := h.claims_le
    simp only [Node.put, ha, commandIds_append, List.length_append]
    omega
  · change msg ∈ n.mailbox ++ added ∨ msg ∈ n.stash at hmsg
    rw [List.mem_append] at hmsg
    rcases hmsg with (hmsg | hmsg) | hmsg
    · exact Nat.lt_of_lt_of_le (h.lt msg (.inl hmsg) id hid) hle
    · exact (hids id (mem_requestIds hmsg hid)).2
    · exact Nat.lt_of_lt_of_le (h.lt msg (.inr hmsg) id hid) hle

theorem Apart.outside {id : ℕ} (hl : l.outside = true) (h : Apart id n) :
    Apart id (nodeStep cfg store n log l).1 := by
  obtain ⟨added, n', log', -, hle, hids, hput⟩ := outside_addsOnly store n log hl
  have hstep : nodeStep cfg store n log l = _ := hput n.mailbox n.stash n.replies n.computed
  rw [hstep]
  refine ⟨Nat.lt_of_lt_of_le h.lt hle, fun msg hmsg hid => ?_⟩
  change msg ∈ n.mailbox ++ added ∨ msg ∈ n.stash at hmsg
  rw [List.mem_append] at hmsg
  rcases hmsg with (hmsg | hmsg) | hmsg
  · exact h.waiting msg (.inl hmsg) hid
  · have := h.lt
    have := (hids id (mem_requestIds hmsg hid)).1
    omega
  · exact h.waiting msg (.inr hmsg) hid

theorem Guarded.restart (hs : spawnTenant cfg = bound) (hb : bound ≠ .unset) (h : Guarded cfg bound n) :
    Guarded cfg bound (restartNode cfg store snapshot n log) := by
  unfold restartNode
  cases hr : recover cfg store snapshot log with
  | error err => exact h
  | ok a =>
    have htenant := recover_actorTenant (hs.symm ▸ hb) hr
    obtain ⟨state, tenant, latest, -, rfl⟩ := recover_new hr
    exact ⟨phaseOk_new _ _ _, htenant.trans hs, Nat.zero_le _, Nat.zero_le _, by simp⟩

theorem Apart.restart {id : ℕ} (h : Apart id n) : Apart id (restartNode cfg store snapshot n log) := by
  unfold restartNode
  cases recover cfg store snapshot log with
  | error err => exact h
  | ok a => exact ⟨h.lt, by simp⟩

theorem nodeStep_guarded (hs : spawnTenant cfg = bound) (hb : bound ≠ .unset)
    (hl : l.prepends = true) (h : Guarded cfg bound n) : Guarded cfg bound (nodeStep cfg store n log l).1 := by
  cases l with
  | deliver turn place =>
    rw [List.isEmpty_iff.mp hl]
    exact h.deliver turn hb
  | restart snapshot => exact h.restart hs hb
  | command | getState | flushTick | write | timeout | fire => exact h.outside rfl

theorem Beside.head {id : ℕ} (h : Beside m reply n₁ n₂)
    (hm : m.requestId? = some id) (hid : msg.requestId? ≠ some id) (h₁ : n₁.mailbox = msg :: rest) :
    ∃ rest, n₂.mailbox = msg :: rest := by
  cases h with
  | stashed _ _ _ _ _ heq | answered _ _ _ _ _ _ heq | gone heq =>
    subst heq
    exact ⟨rest, h₁⟩
  | queued before after hmail _ heq =>
    subst heq
    cases before with
    | nil =>
      obtain rfl : m = msg := (List.cons.inj h₁).1
      exact absurd hm hid
    | cons x front =>
      obtain rfl : x = msg := (List.cons.inj h₁).1
      exact ⟨front ++ after, hmail⟩

theorem Beside.deliver {turn : Turn} {id : ℕ} (hg : Guarded cfg bound n₂) (h : Beside m reply n₁ n₂)
    (hm : m.requestId? = some id) (hid : n₁.mailbox.head?.bind Message.requestId? ≠ some id) :
    Beside m reply (deliver cfg turn [] n₁) (deliver cfg turn [] n₂) := by
  cases h₁ : n₁.mailbox with
  | nil =>
    have h₂ : n₂.mailbox = [] := by
      cases h with
      | queued before after _ _ heq =>
        subst heq
        simp [Node.withMailbox] at h₁
      | stashed _ _ _ _ _ heq | answered _ _ _ _ _ _ heq | gone heq =>
        subst heq
        exact h₁
    rwa [deliver_nil turn [] h₁, deliver_nil turn [] h₂]
  | cons msg rest =>
    have hmsg : msg.requestId? ≠ some id := by simpa [h₁] using hid
    obtain ⟨rest', h₂⟩ := h.head hm hmsg h₁
    exact h.turn hg hm hmsg h₁ h₂

structure Follows (cfg : Config S C E) (bound : TenantContext) (id : ℕ) (m : Message C) (reply : CommandReply)
    (s t : Node S C × Option EventLog) : Prop where
  beside : Beside m reply s.1 t.1
  log : s.2 = t.2
  guarded : Guarded cfg bound t.1
  apart : Apart id t.1

variable {s t : Node S C × Option EventLog} {id : ℕ} {r : Request C} {err : Err}

theorem Follows.step {l : Act (Label C) (Option EventLog)} (hs : spawnTenant cfg = bound) (hb : bound ≠ .unset)
    (hl : stashFirst l = true) (hm : m.requestId? = some id) (hd : delivers id s l = false)
    (h : Follows cfg bound id m reply s t) :
    Follows cfg bound id m reply (amid (nodeStep cfg store) s l) (amid (nodeStep cfg store) t l) := by
  obtain ⟨n₁, log₁⟩ := s
  obtain ⟨n₂, log₂⟩ := t
  obtain ⟨hbeside, rfl, hg, ha⟩ := h
  cases l with
  | others log => exact ⟨hbeside, rfl, hg, ha⟩
  | own l =>
    have hg' : Guarded cfg bound (nodeStep cfg store n₂ log₁ l).1 := nodeStep_guarded hs hb hl hg
    have hout (ho : l.outside = true) : Follows cfg bound id m reply (nodeStep cfg store n₁ log₁ l)
        (nodeStep cfg store n₂ log₁ l) :=
      ⟨(hbeside.outside ho).1, (hbeside.outside ho).2, hg', ha.outside ho⟩
    cases l with
    | deliver turn place =>
      obtain rfl : place = [] := List.isEmpty_iff.mp hl
      have hid : n₁.mailbox.head?.bind Message.requestId? ≠ some id := by simpa [delivers] using hd
      exact ⟨hbeside.deliver hg hm hid, rfl, hg', ha.deliver turn []⟩
    | restart snapshot => exact ⟨hbeside.restart, rfl, hg', ha.restart⟩
    | command | getState | flushTick | write | timeout | fire => exact hout rfl

theorem Follows.taken {l : Act (Label C) (Option EventLog)}
    (hgate : Tenancy.gate cfg.tenantAware bound r.ctx.tenant = .error err) (hd : delivers id s l = true)
    (h : Follows cfg bound id (r.message id) (.errorReply err) s t) :
    Follows cfg bound id (r.message id) (.errorReply err) (amid (nodeStep cfg store) s l) t := by
  obtain ⟨n₁, log₁⟩ := s
  obtain ⟨hbeside, hlog, hg, ha⟩ := h
  match l, hd with
  | .own (.deliver turn place), hd =>
    refine ⟨?_, hlog, hg, ha⟩
    have hid : n₁.mailbox.head?.bind Message.requestId? = some id := by simpa [delivers] using hd
    cases h₁ : n₁.mailbox with
    | nil => simp [h₁] at hid
    | cons x rest => exact hbeside.taken turn place hg hgate ha h₁ (by simpa [h₁] using hid)

/-- The two nodes differ in what waits and what was answered, and of the answers
only in one to the inserted message. -/
structure Unmoved (id : ℕ) (reply : CommandReply) (n₁ n₂ : Node S C) : Prop where
  same : n₁ = n₂.put n₁.mailbox n₁.stash n₁.replies n₁.computed
  replies : n₁.replies = n₂.replies ∨
    ∃ before after, n₂.replies = before ++ after ∧ n₁.replies = before ++ (id, reply) :: after

end

end Ego.EventSource

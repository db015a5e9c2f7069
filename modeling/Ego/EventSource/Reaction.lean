import Ego.EventSource.Actor

/-!
# What one message does

`Reaction` lists, rule by rule, everything `receive` can do in the phases an actor of
the configured mode is in.
-/

namespace Ego.EventSource
open Persistence Protocol
open Tenancy (TenantContext)

section
variable {S C E : Type} (cfg : Config S C E)

/-- The phases of each mode. Direct mode never opens a batch, a flush has
something to flush, and a batch that is being answered owes at least one reply. -/
structure PhaseOk (a : Actor S) : Prop where
  direct : cfg.batchEnabled = false → (a.phase = .processing ∨ a.phase = .persisting ∨
    a.phase = .directReplying) ∧
      a.batchEntries = [] ∧ a.batchBuffer = []
  batched : cfg.batchEnabled = true → a.phase = .processing ∨ a.phase = .flushing ∨ a.phase = .replying
  flushes : a.phase = .flushing → a.batchEntries ≠ []
  owes : a.phase = .replying → 0 < a.remainingReplies ∧ a.remainingReplies ≤ a.batchEntries.length

def Admitted (a : Actor S) (ctx : Ctx) (turn : Turn) (tc : TenantContext) : Prop :=
  tenantGate cfg a ctx = .ok tc ∧ checkDeadline turn.beforeHandler "before handler execution" = .ok ()

def BatchBase (a : Actor S) (ctx : Ctx) (hasPrecondition : Bool) (base : ℕ) : Prop :=
  if a.batchEntries = [] then
    hasPrecondition = ctx.expectedRevision.isSome ∧ base = ctx.expectedRevision.getD a.eventsCounter
  else
    hasPrecondition = (a.batchHasPrecondition || ctx.expectedRevision.isSome) ∧
      base = a.batchBase ∧ ∀ r, ctx.expectedRevision = some r → r = a.batchCounter

def foldInto (a : Actor S) (tenant : TenantContext) (hasPrecondition : Bool) (base : ℕ)
    (envelopes : List Event) (state : S) (counter : ℕ) (now : ℤ) : Actor S :=
  { a with
    actorTenant := tenant
    batchHasPrecondition := hasPrecondition
    batchBase := base
    batchBuffer := a.batchBuffer ++ envelopes
    batchState := some state
    batchCounter := counter
    batchTime := now
    batchNumEvents := a.batchNumEvents + envelopes.length
    batchEntries := a.batchEntries ++ [pendingReply cfg state counter now] }

structure Produces (ctx : Ctx) (cmd : C) (now : ℤ) (tc : TenantContext) (fromState : S)
    (fromCounter : ℕ) (envelopes : List Event) (state : S) (counter : ℕ) : Prop where
  built : ∃ event events, dispatchToBehavior cfg ctx cmd fromState = .ok (event :: events) ∧
    buildEnvelopes cfg tc now (event :: events) fromState fromCounter = .ok (envelopes, state, counter)

def stopped (a : Actor S) : List Effect :=
  match a.flushTimer with
  | some id => [.stopTimer id]
  | none => []

inductive Reaction (a : Actor S) : Message C → Turn → Actor S → List Effect → Prop
  -- a write's outcome that nobody waits for
  | ignored {err turn} (h : a.phase ≠ .persisting ∧ a.phase ≠ .flushing) :
      Reaction a (.persistEventsResponse err) turn a []
  | idleTick {turn} (h : a.phase ≠ .processing ∨ a.batchEntries = []) :
      Reaction a .batchFlushTick turn { a with flushTimer := none } []
  | tickFlush {turn} (hm : cfg.batchEnabled = true) (hp : a.phase = .processing)
      (he : a.batchEntries ≠ []) :
      Reaction a .batchFlushTick turn { a with flushTimer := none, phase := .flushing }
        [.pipeTo ⟨a.batchBuffer, resolveBatchPrecondition a, cfg.scope⟩]
  | stashedCommand {id ctx cmd turn} (h : a.phase = .persisting ∨ a.phase = .flushing) :
      Reaction a (.command id ctx cmd) turn a [.stash]
  | stashedRead {id ctx turn} (h : a.phase = .persisting ∨ a.phase = .directReplying) :
      Reaction a (.getState id ctx) turn a [.stash]
  | readDenied {id ctx turn err} (h : a.phase ≠ .persisting ∧ a.phase ≠ .directReplying) :
      Reaction a (.getState id ctx) turn a [.response (.errorReply err)]
  | read {id ctx turn} (h : a.phase ≠ .persisting ∧ a.phase ≠ .directReplying) :
      Reaction a (.getState id ctx) turn
        { a with cachedStateAny := some (currentStateAny cfg a) } [.response (currentReply cfg a)]
  -- a command refused before its handler runs
  | denied {id ctx cmd turn err} (hp : a.phase = .processing) :
      Reaction a (.command id ctx cmd) turn a [.response (.errorReply err)]
  -- the handler ran and the command failed: no event of it is kept
  | failed {id ctx cmd turn err} (hasPre : Bool) (hp : a.phase = .processing)
      (hpre : a.batchHasPrecondition = true → hasPre = true) :
      Reaction a (.command id ctx cmd) turn { a with batchHasPrecondition := hasPre }
        [.handle, .response (.errorReply err)]
  | unchanged {id ctx cmd turn} (hp : a.phase = .processing) (he : a.batchEntries = []) :
      Reaction a (.command id ctx cmd) turn
        { a with cachedStateAny := some (currentStateAny cfg a) }
        [.handle, .response (currentReply cfg a)]
  -- no events while a batch is open: the reply shows the batch's own state
  | unchangedInBatch {id ctx cmd turn tc} (hasPre : Bool) (hp : a.phase = .processing)
      (hpre : a.batchHasPrecondition = true → hasPre = true) (he : a.batchEntries ≠ [])
      (hadm : inadmissible a ctx = false)
      (hd : dispatchToBehavior cfg ctx cmd (latestState a) = .ok [])
      (hgate : Admitted cfg a ctx turn tc) :
      Reaction a (.command id ctx cmd) turn { a with batchHasPrecondition := hasPre }
        [.handle, .response (.stateReply ⟨cfg.persistenceID, cfg.codec.newState (latestState a),
          latestCounter a, a.lastCommandTime⟩)]
  | persist {id ctx cmd turn tc tenant envelopes state counter} (hm : cfg.batchEnabled = false)
      (hp : a.phase = .processing) (hgate : Admitted cfg a ctx turn tc)
      (h : Produces cfg ctx cmd turn.now tc a.currentState a.eventsCounter envelopes state counter) :
      Reaction a (.command id ctx cmd) turn
        { a with
          actorTenant := tenant
          directPendingState := some state
          directPendingCounter := counter
          directPendingTime := turn.now
          phase := .persisting }
        [.handle, .stage envelopes (pendingReply cfg state counter turn.now), .stash,
          .pipeTo ⟨envelopes, preconditionFromRevision ctx.expectedRevision, cfg.scope⟩]
  -- a declared revision that does not fit the open batch: flush it first
  | gateFlush {id ctx cmd turn} (hm : cfg.batchEnabled = true) (hp : a.phase = .processing)
      (hadm : inadmissible a ctx = true) :
      Reaction a (.command id ctx cmd) turn { a with flushTimer := none, phase := .flushing }
        (stopped a ++ [.pipeTo ⟨a.batchBuffer, resolveBatchPrecondition a, cfg.scope⟩, .stash])
  | fold {id ctx cmd turn tc tenant hasPre base envelopes state counter timer started}
      (hm : cfg.batchEnabled = true) (hp : a.phase = .processing)
      (hadm : inadmissible a ctx = false) (hb : BatchBase a ctx hasPre base)
      (hgate : Admitted cfg a ctx turn tc)
      (h : Produces cfg ctx cmd turn.now tc (latestState a) (latestCounter a) envelopes state counter)
      (ht : a.flushTimer = some timer ∧ started = [] ∨
        a.flushTimer = none ∧ timer = turn.timer ∧ started = [.startTimer timer]) :
      Reaction a (.command id ctx cmd) turn
        { foldInto cfg a tenant hasPre base envelopes state counter turn.now with
          flushTimer := some timer }
        ([.handle, .stage envelopes (pendingReply cfg state counter turn.now), .stash] ++ started)
  | foldFlush {id ctx cmd turn tc tenant hasPre base envelopes state counter}
      (hm : cfg.batchEnabled = true) (hp : a.phase = .processing)
      (hadm : inadmissible a ctx = false) (hb : BatchBase a ctx hasPre base)
      (hgate : Admitted cfg a ctx turn tc)
      (h : Produces cfg ctx cmd turn.now tc (latestState a) (latestCounter a) envelopes state counter) :
      Reaction a (.command id ctx cmd) turn
        { foldInto cfg a tenant hasPre base envelopes state counter turn.now with
          flushTimer := none, phase := .flushing }
        ([.handle, .stage envelopes (pendingReply cfg state counter turn.now), .stash] ++
          (stopped a ++ [.pipeTo ⟨a.batchBuffer ++ envelopes, batchPrecondition hasPre base, cfg.scope⟩]))
  | directConfirmed {turn snaps} (hp : a.phase = .persisting)
      (hs : snaps = triggerSnapshotAndRetention cfg (applyConfirmedState cfg a
        (a.directPendingState.getD a.currentState) a.directPendingCounter a.directPendingTime)) :
      Reaction a (.persistEventsResponse none) turn
        { applyConfirmedState cfg a (a.directPendingState.getD a.currentState)
            a.directPendingCounter a.directPendingTime with
          directErr := none, phase := .directReplying }
        (snaps.map .tellSnapshot ++ [.unstashAll])
  | directFailed {err turn} (hp : a.phase = .persisting) :
      Reaction a (.persistEventsResponse (some err)) turn
        { a with
          directErr := some err
          directShutdown := !shouldStayAliveAfterConflict a err
          phase := .directReplying } [.unstashAll]
  | batchConfirmed {turn snaps} (hp : a.phase = .flushing)
      (hs : snaps = if crossedSnapshotBoundary cfg (applyConfirmedState cfg a
          (a.batchState.getD a.currentState) a.batchCounter a.batchTime) a.eventsCounter then
        [snapshotAndRetain cfg (applyConfirmedState cfg a (a.batchState.getD a.currentState)
          a.batchCounter a.batchTime)] else []) :
      Reaction a (.persistEventsResponse none) turn
        { applyConfirmedState cfg a (a.batchState.getD a.currentState) a.batchCounter a.batchTime with
          remainingReplies := a.batchEntries.length, phase := .replying }
        (snaps.map .tellSnapshot ++ [.unstashAll])
  | batchFailed {err turn} (hp : a.phase = .flushing) :
      Reaction a (.persistEventsResponse (some err)) turn
        { a with
          batchEntries := a.batchEntries.map fun _ => .errorReply err
          remainingReplies := a.batchEntries.length
          shutdownOnDrain := !shouldStayAliveAfterConflict a err
          phase := .replying } [.unstashAll]
  | replySuccess {id ctx cmd turn} (hp : a.phase = .directReplying) (he : a.directErr = none) :
      Reaction a (.command id ctx cmd) turn
        { a with phase := .processing, cachedStateAny := some (currentStateAny cfg a) }
        [.response (currentReply cfg a), .unstashAll]
  | replyFailure {id ctx cmd turn err} (hp : a.phase = .directReplying) (he : a.directErr = some err) :
      Reaction a (.command id ctx cmd) turn
        { a with phase := .processing, directErr := none, directShutdown := false }
        ([.response (.errorReply err), .unstashAll] ++ if a.directShutdown then [.shutdown] else [])
  | drain {id ctx cmd turn reply} (hp : a.phase = .replying) (hr : 1 < a.remainingReplies)
      (hl : a.batchEntries[a.batchEntries.length - a.remainingReplies]? = some reply) :
      Reaction a (.command id ctx cmd) turn
        { a with remainingReplies := a.remainingReplies - 1 } [.response reply]
  | drainLast {id ctx cmd turn reply} (hp : a.phase = .replying) (hr : a.remainingReplies = 1)
      (hl : a.batchEntries[a.batchEntries.length - a.remainingReplies]? = some reply) :
      Reaction a (.command id ctx cmd) turn { resetBatch a with phase := .processing }
        (.response reply :: if a.shutdownOnDrain then [.shutdown] else [])

theorem flushBatch_eq (a : Actor S) :
    flushBatch cfg a = ({ a with flushTimer := none, phase := .flushing },
      stopped a ++ [.pipeTo ⟨a.batchBuffer, resolveBatchPrecondition a, cfg.scope⟩]) := by
  unfold flushBatch stopFlushTimer stopped
  cases h : a.flushTimer with
  | none => simp [resolveBatchPrecondition, ← h]
  | some id => rfl

theorem establishActorTenant_eq (a : Actor S) (tc : TenantContext) :
    ∃ tenant, establishActorTenant cfg a tc = { a with actorTenant := tenant } := by
  unfold establishActorTenant
  split
  · exact ⟨tc, rfl⟩
  · exact ⟨a.actorTenant, rfl⟩

theorem startFlushTimer_eq (a : Actor S) (turn : Turn) : ∃ timer started,
    (a.flushTimer = some timer ∧ started = [] ∨
        a.flushTimer = none ∧ timer = turn.timer ∧ started = [.startTimer timer]) ∧
      startFlushTimer a turn = ({ a with flushTimer := some timer }, started) := by
  unfold startFlushTimer
  split
  · rename_i timer h
    exact ⟨timer, [], .inl ⟨h, rfl⟩, by rw [← h]⟩
  · rename_i h
    exact ⟨turn.timer, [.startTimer turn.timer], .inr ⟨h, rfl, rfl⟩, rfl⟩

/- The revision of a command that joins an open batch is the batch's counter:
any other one was turned away by the admission gate. -/
theorem appendToBatch_eq {a : Actor S} {ctx : Ctx} (turn : Turn) (hadm : inadmissible a ctx = false)
    (tenant : TenantContext)
    (envelopes : List Event) (state : S) (counter : ℕ) : ∃ hasPre base, BatchBase a ctx hasPre base ∧
      appendToBatch cfg { (if a.batchEntries ≠ [] ∧ ctx.expectedRevision.isSome then
          { a with batchHasPrecondition := true } else a) with actorTenant := tenant }
        ctx envelopes state counter turn =
      foldInto cfg a tenant hasPre base envelopes state counter turn.now := by
  by_cases he : a.batchEntries = []
  · refine ⟨ctx.expectedRevision.isSome, ctx.expectedRevision.getD a.eventsCounter, ?_, ?_⟩
    · simp [BatchBase, he]
    · simp [appendToBatch, foldInto, latestCounter, he]
  · refine ⟨a.batchHasPrecondition || ctx.expectedRevision.isSome, a.batchBase, ?_, ?_⟩
    · refine (if_neg he).mpr ⟨rfl, rfl, ?_⟩
      intro r hr
      simpa [inadmissible, he, hr, latestCounter] using hadm
    · cases hr : ctx.expectedRevision <;> simp [appendToBatch, foldInto, he]

variable {cfg} {a : Actor S} {turn : Turn}

theorem processCommandAndReply_reaction (hm : cfg.batchEnabled = false) (hok : PhaseOk cfg a)
    (hp : a.phase = .processing) (id : ℕ) (ctx : Ctx) (cmd : C) :
    Reaction cfg a (.command id ctx cmd) turn (processCommandAndReply cfg a ctx cmd turn).1
      (processCommandAndReply cfg a ctx cmd turn).2 := by
  unfold processCommandAndReply
  split
  · exact .denied hp
  rename_i tc htc
  split
  · exact .denied hp
  rename_i hdl
  split
  · exact .failed a.batchHasPrecondition hp fun h => h
  · exact .unchanged hp (hok.direct hm).2.1
  rename_i event events hd
  split
  · exact .failed a.batchHasPrecondition hp fun h => h
  rename_i envelopes state counter hb
  split
  · exact .failed a.batchHasPrecondition hp fun h => h
  split
  · exact .failed a.batchHasPrecondition hp fun h => h
  obtain ⟨tenant, ht⟩ := establishActorTenant_eq cfg a tc
  rw [ht]
  exact .persist hm hp ⟨htc, hdl⟩ ⟨event, events, hd, hb⟩

theorem replyDirect_reaction (hp : a.phase = .directReplying) (id : ℕ) (ctx : Ctx) (cmd : C) :
    Reaction cfg a (.command id ctx cmd) turn (replyDirect cfg a).1 (replyDirect cfg a).2 := by
  unfold replyDirect
  split
  · rename_i err he
    exact .replyFailure hp he
  · rename_i he
    exact .replySuccess hp he

theorem processAndBatch_reaction (hm : cfg.batchEnabled = true) (hp : a.phase = .processing)
    (id : ℕ) (ctx : Ctx) (cmd : C) : Reaction cfg a (.command id ctx cmd) turn (processAndBatch cfg a ctx cmd turn).1
      (processAndBatch cfg a ctx cmd turn).2 := by
  unfold processAndBatch
  dsimp only
  split
  · exact .denied hp
  rename_i tc htc
  split
  · exact .denied hp
  rename_i hdl
  split
  · rename_i hadm
    rw [flushBatch_eq]
    simp only [List.append_assoc, List.singleton_append]
    exact .gateFlush hm hp hadm
  rename_i hadm
  rw [Bool.not_eq_true] at hadm
  -- the admitted actor differs from `a` in `batchHasPrecondition` only
  have hset : ∃ hasPre, (if a.batchEntries ≠ [] ∧ ctx.expectedRevision.isSome then
      { a with batchHasPrecondition := true } else a) =
      { a with batchHasPrecondition := hasPre } ∧
      (a.batchHasPrecondition = true → hasPre = true) := by
    split
    · exact ⟨true, rfl, fun _ => rfl⟩
    · exact ⟨a.batchHasPrecondition, rfl, fun h => h⟩
  split
  · obtain ⟨hasPre, h, hpre⟩ := hset
    rw [h]
    exact .failed hasPre hp hpre
  · rename_i hd
    by_cases he : a.batchEntries = []
    · simp only [he, ne_eq, not_true_eq_false, false_and, if_false, if_true]
      exact .unchanged hp he
    · obtain ⟨hasPre, h, hpre⟩ := hset
      rw [h]
      simp only [he, if_false]
      exact .unchangedInBatch hasPre hp hpre he hadm hd ⟨htc, hdl⟩
  rename_i event events hd
  split
  · obtain ⟨hasPre, h, hpre⟩ := hset
    rw [h]
    exact .failed hasPre hp hpre
  rename_i envelopes state counter hb
  split
  · obtain ⟨hasPre, h, hpre⟩ := hset
    rw [h]
    exact .failed hasPre hp hpre
  have hprod : Produces cfg ctx cmd turn.now tc (latestState a) (latestCounter a) envelopes state
    counter := ⟨event, events, hd, hb⟩
  obtain ⟨tenant, ht⟩ := establishActorTenant_eq cfg
    (if a.batchEntries ≠ [] ∧ ctx.expectedRevision.isSome then
      { a with batchHasPrecondition := true } else a) tc
  obtain ⟨hasPre, base, hbase, happ⟩ := appendToBatch_eq cfg turn hadm tenant envelopes
    state counter
  rw [ht, happ]
  split
  · rw [flushBatch_eq]
    exact .foldFlush hm hp hadm hbase ⟨htc, hdl⟩ hprod
  · obtain ⟨timer, started, htimer, hstart⟩ := startFlushTimer_eq
      (foldInto cfg a tenant hasPre base envelopes state counter turn.now) turn
    rw [hstart]
    exact .fold hm hp hadm hbase ⟨htc, hdl⟩ hprod htimer

section
variable (hok : PhaseOk cfg a)
include hok

theorem replyFromBatch_reaction (hp : a.phase = .replying) (id : ℕ) (ctx : Ctx)
    (cmd : C) : Reaction cfg a (.command id ctx cmd) turn (replyFromBatch cfg a ctx cmd turn).1
      (replyFromBatch cfg a ctx cmd turn).2 := by
  obtain ⟨hpos, hle⟩ := hok.owes hp
  have hlt : a.batchEntries.length - a.remainingReplies < a.batchEntries.length := by omega
  have hl := List.getElem?_eq_getElem hlt
  unfold replyFromBatch
  rw [if_neg (by omega), hl]
  dsimp only
  split
  · rename_i hr
    exact .drainLast hp hr hl
  · exact .drain hp (by omega) hl

theorem persistEventsResponse_reaction (err : Option Err) :
    Reaction cfg a (.persistEventsResponse err : Message C) turn (receive cfg a (.persistEventsResponse err) turn).1
      (receive cfg a (.persistEventsResponse err) turn).2 := by
  simp only [receive]
  split
  · rename_i hm
    unfold handleBatchPersistResponse
    split
    · rename_i hp
      exact .ignored ⟨by rcases hok.batched hm with h | h | h <;> simp [h], hp⟩
    · rename_i hp
      rw [not_not] at hp
      cases err with
      | some err => exact .batchFailed hp
      | none => exact .batchConfirmed hp rfl
  · rename_i hm
    rw [Bool.not_eq_true] at hm
    unfold handleDirectPersistResponse
    split
    · rename_i hp
      exact .ignored ⟨hp, by rcases (hok.direct hm).1 with h | h | h <;> simp [h]⟩
    · rename_i hp
      rw [not_not] at hp
      cases err with
      | some err => exact .directFailed hp
      | none => exact .directConfirmed hp rfl

theorem batchFlushTick_reaction :
    Reaction cfg a (.batchFlushTick : Message C) turn (handleBatchFlushTick cfg a).1
      (handleBatchFlushTick cfg a).2 := by
  unfold handleBatchFlushTick
  dsimp only
  split
  · rename_i h
    exact .idleTick h
  · rename_i h
    rw [not_or, not_not] at h
    have hm : cfg.batchEnabled = true := by
      by_contra hm
      exact h.2 (hok.direct (Bool.not_eq_true _ ▸ hm)).2.1
    exact .tickFlush hm h.1 h.2

theorem getState_reaction (id : ℕ) (ctx : Ctx) :
    Reaction cfg a (.getState id ctx : Message C) turn (handleGetStateCommand cfg a ctx).1
      (handleGetStateCommand cfg a ctx).2 := by
  unfold handleGetStateCommand
  split
  · rename_i h
    exact .stashedRead h.2
  · rename_i h
    have hp : a.phase ≠ .persisting ∧ a.phase ≠ .directReplying := by
      cases hm : cfg.batchEnabled with
      | false =>
        simpa [hm, not_or] using h
      | true => rcases hok.batched hm with hp | hp | hp <;> simp [hp]
    unfold getStateAndReply
    split
    · exact .readDenied hp
    · exact .read hp

theorem receive_reaction (msg : Message C) :
    Reaction cfg a msg turn (receive cfg a msg turn).1 (receive cfg a msg turn).2 := by
  cases msg with
  | getState id ctx => exact getState_reaction hok id ctx
  | batchFlushTick => exact batchFlushTick_reaction hok
  | persistEventsResponse err => exact persistEventsResponse_reaction hok err
  | command id ctx cmd =>
    simp only [receive]
    cases hm : cfg.batchEnabled with
    | true =>
      unfold handleCommandBatched
      rcases hok.batched hm with hp | hp | hp <;> simp only [hp]
      · exact processAndBatch_reaction hm hp id ctx cmd
      · exact .stashedCommand (.inr hp)
      · exact replyFromBatch_reaction hok hp id ctx cmd
    | false =>
      rcases (hok.direct hm).1 with hp | hp | hp <;> simp only [hp]
      · exact processCommandAndReply_reaction hm hok hp id ctx cmd
      · exact .stashedCommand (.inl hp)
      · exact replyDirect_reaction hp id ctx cmd

end

theorem phaseOk_new (state : S) (counter : ℕ) (tenant : TenantContext) :
    PhaseOk cfg (Actor.new state counter tenant) where
  direct := fun _ => ⟨.inl rfl, rfl, rfl⟩
  batched := fun _ => .inl rfl
  flushes := fun h => by simp [Actor.new] at h
  owes := fun h => by simp [Actor.new] at h

theorem PhaseOk.direct_of_phase (hok : PhaseOk cfg a)
    (hp : a.phase = .persisting ∨ a.phase = .directReplying) : cfg.batchEnabled = false := by
  by_contra hm
  rcases hok.batched (Bool.not_eq_false _ ▸ hm) with h | h | h <;> simp [h] at hp

theorem PhaseOk.batched_of_phase (hok : PhaseOk cfg a)
    (hp : a.phase = .flushing ∨ a.phase = .replying) : cfg.batchEnabled = true := by
  by_contra hm
  rcases (hok.direct (Bool.not_eq_true _ ▸ hm)).1 with h | h | h <;> simp [h] at hp

theorem Reaction.phaseOk {msg : Message C} {a' : Actor S} {effects : List Effect}
    (h : Reaction cfg a msg turn a' effects) (hok : PhaseOk cfg a) : PhaseOk cfg a' := by
  cases h
  case ignored | idleTick | stashedCommand | stashedRead | readDenied | read | denied | failed |
      unchanged | unchangedInBatch =>
    exact ⟨hok.direct, hok.batched, hok.flushes, hok.owes⟩
  case tickFlush hm hp he =>
    exact ⟨fun h => by simp [h] at hm, fun _ => .inr (.inl rfl), fun _ => he, fun h => by simp at h⟩
  case persist hm hp _ _ =>
    exact ⟨fun h => ⟨.inr (.inl rfl), (hok.direct h).2⟩, fun h => by simp [h] at hm,
      fun h => by simp at h, fun h => by simp at h⟩
  case gateFlush hm hp hadm =>
    have he : a.batchEntries ≠ [] := by
      intro he
      simp [inadmissible, he] at hadm
    exact ⟨fun h => by simp [h] at hm, fun _ => .inr (.inl rfl), fun _ => he, fun h => by simp at h⟩
  case fold hm hp _ _ _ _ _ =>
    exact ⟨fun h => by simp [h] at hm, fun _ => .inl hp, fun h => by simp [foldInto, hp] at h,
      fun h => by simp [foldInto, hp] at h⟩
  case foldFlush hm hp _ _ _ _ =>
    exact ⟨fun h => by simp [h] at hm, fun _ => .inr (.inl rfl), fun _ => by simp [foldInto], fun h => by simp at h⟩
  case directConfirmed hp _ | directFailed hp =>
    have hm := hok.direct_of_phase (.inl hp)
    exact ⟨fun h => ⟨.inr (.inr rfl), (hok.direct h).2⟩, fun h => by simp [h] at hm,
      fun h => by simp at h, fun h => by simp at h⟩
  case batchConfirmed hp _ =>
    have hm := hok.batched_of_phase (.inl hp)
    exact ⟨fun h => by simp [h] at hm, fun _ => .inr (.inr rfl), fun h => by simp at h,
      fun _ => ⟨List.length_pos_iff.mpr (hok.flushes hp), Nat.le_refl _⟩⟩
  case batchFailed hp =>
    have hm := hok.batched_of_phase (.inl hp)
    exact ⟨fun h => by simp [h] at hm, fun _ => .inr (.inr rfl), fun h => by simp at h,
      fun _ => ⟨List.length_pos_iff.mpr (hok.flushes hp), Nat.le_of_eq (List.length_map _).symm⟩⟩
  case replySuccess hp he | replyFailure hp he =>
    have hm := hok.direct_of_phase (.inr hp)
    exact ⟨fun h => ⟨.inl rfl, (hok.direct h).2⟩, fun h => by simp [h] at hm,
      fun h => by simp at h, fun h => by simp at h⟩
  case drain hp hr hl =>
    refine ⟨hok.direct, hok.batched, fun h => by simp [hp] at h, fun h => ?_⟩
    have := hok.owes h
    dsimp only
    omega
  case drainLast hp hr hl =>
    exact ⟨fun _ => ⟨.inl rfl, rfl, rfl⟩, fun _ => .inl rfl, fun h => by simp at h, fun h => by simp at h⟩

end

end Ego.EventSource

import Ego.EventSource.Handling
import Ego.EventSource.Progress
import Ego.Testkit.SnapshotStore

/-! # An entity that handles one command after the other -/

namespace Ego.EventSource
open Persistence Protocol Lib
open Tenancy (TenantContext)

section
variable {S C E : Type} (cfg : Config S C E)

def untimed (e : Event) : Event := { e with timestamp := 0 }

def untimedReply : CommandReply → CommandReply
  | .stateReply r => .stateReply { r with timestamp := 0 }
  | .errorReply err => .errorReply err

structure Sequential (S : Type) where
  state : S
  counter : ℕ
  tenant : TenantContext
  journal : List Event
  -- the reply of each command, in order
  replies : List CommandReply

def Sequential.start : Sequential S := ⟨cfg.behavior.initialState, 0, spawnTenant cfg, [], []⟩

def timeless : Turn := ⟨0, none, none, 0⟩

def Sequential.handle (s : Sequential S) (c : Ctx × C) : Sequential S :=
  match gates cfg s.tenant c.1 timeless with
  | .error err => { s with replies := s.replies ++ [.errorReply err] }
  | .ok tc =>
    match handlerResult cfg tc timeless s.state s.counter c.1 c.2 with
    | .error err => { s with replies := s.replies ++ [.errorReply err] }
    | .ok none => { s with replies := s.replies ++ [pendingReply cfg s.state s.counter 0] }
    | .ok (some (envelopes, state, counter)) =>
      { state := state
        counter := counter
        tenant := if cfg.tenantAware ∧ s.tenant = .unset then tc else s.tenant
        journal := s.journal ++ envelopes
        replies := s.replies ++ [pendingReply cfg state counter 0] }

def Declares (s : Sequential S) (c : Ctx × C) : Prop :=
  ∀ r, c.1.expectedRevision = some r → r = s.journal.length

instance (s : Sequential S) (c : Ctx × C) : Decidable (Declares s c) :=
  decidable_of_iff (∀ r ∈ c.1.expectedRevision, r = s.journal.length) Iff.rfl

variable {cfg}

theorem marshalEvent_untimed (event : E) (tc : TenantContext) (seqNr : ℕ) (ts : ℤ) :
    (marshalEvent cfg event tc seqNr ts).map untimed = marshalEvent cfg event tc seqNr 0 := by
  unfold marshalEvent
  cases cfg.encryptor with
  | none => rfl
  | some enc =>
    dsimp only
    cases enc.encrypt cfg.persistenceID (cfg.codec.marshalAny (cfg.codec.newEvent event)) with
    | error err => rfl
    | ok ciphertext => rfl

theorem buildEnvelopes_untimed (tc : TenantContext) (now : ℤ) (events : List E) (state : S) (counter : ℕ) :
    (buildEnvelopes cfg tc now events state counter).map (fun r => (r.1.map untimed, r.2)) =
      buildEnvelopes cfg tc 0 events state counter := by
  induction events generalizing state counter with
  | nil => rfl
  | cons event events ih =>
    simp only [buildEnvelopes]
    cases cfg.behavior.handleEvent event state with
    | error err => rfl
    | ok next =>
      rw [← marshalEvent_untimed event tc (counter + 1) now]
      cases marshalEvent cfg event tc (counter + 1) now with
      | error err => rfl
      | ok envelope =>
        simp only [Bind.bind, Except.bind, Except.map, ← ih]
        cases buildEnvelopes cfg tc now events next (counter + 1) with
        | error err => rfl
        | ok built => rfl

def Turn.inTime (turn : Turn) : Bool := turn.beforeHandler.isNone && turn.beforePersistence.isNone

variable {turn : Turn}

theorem gates_inTime (h : turn.inTime = true) (tenant : TenantContext) (ctx : Ctx) :
    gates cfg tenant ctx turn = gates cfg tenant ctx timeless := by
  simp only [Turn.inTime, Bool.and_eq_true, Option.isNone_iff_eq_none] at h
  simp only [gates, h.1, timeless]

theorem handlerResult_inTime (h : turn.inTime = true) (tc : TenantContext) (state : S)
    (counter : ℕ) (ctx : Ctx) (cmd : C) :
    (handlerResult cfg tc turn state counter ctx cmd).map (Option.map fun r => (r.1.map untimed, r.2)) =
      handlerResult cfg tc timeless state counter ctx cmd := by
  simp only [Turn.inTime, Bool.and_eq_true, Option.isNone_iff_eq_none] at h
  simp only [handlerResult, timeless]
  cases dispatchToBehavior cfg ctx cmd state with
  | error err => rfl
  | ok events =>
    cases events with
    | nil => rfl
    | cons event events =>
      simp only [Bind.bind, Except.bind, ← buildEnvelopes_untimed tc turn.now, h.2]
      cases buildEnvelopes cfg tc turn.now (event :: events) state counter with
      | error err => rfl
      | ok built => rfl

structure Sequential.Counts (s : Sequential S) (handled : ℕ) : Prop where
  counter : s.counter = s.journal.length
  replies : s.replies.length = handled

variable {s : Sequential S}

theorem Sequential.handle_counts {handled : ℕ} (h : s.Counts handled) (c : Ctx × C) :
    (s.handle cfg c).Counts (handled + 1) := by
  unfold Sequential.handle
  split
  · exact ⟨h.counter, by simp [h.replies]⟩
  split
  · exact ⟨h.counter, by simp [h.replies]⟩
  · exact ⟨h.counter, by simp [h.replies]⟩
  · rename_i envelopes state counter hres
    obtain ⟨hspec, -⟩ := handlerResult_spec hres
    refine ⟨?_, by simp [h.replies]⟩
    rw [List.length_append, hspec.counter_eq, h.counter]

theorem run_counts (cmds : List (Ctx × C)) : (run (Sequential.handle cfg) (.start cfg) cmds).Counts cmds.length := by
  have hrun (s : Sequential S) (k : ℕ) (h : s.Counts k) (cmds : List (Ctx × C)) :
      (run (Sequential.handle cfg) s cmds).Counts (k + cmds.length) := by
    induction cmds generalizing s k with
    | nil => exact h
    | cons c cmds ih =>
      have hnext := ih (s.handle cfg c) (k + 1) (Sequential.handle_counts h c)
      rwa [List.length_cons, Nat.add_comm cmds.length, ← Nat.add_assoc]
  simpa using hrun (.start cfg) 0 ⟨rfl, rfl⟩ cmds

def frontier (a : Actor S) : S × ℕ :=
  match a.phase with
  | .persisting => (a.directPendingState.getD a.currentState, a.directPendingCounter)
  | .replying | .directReplying => (a.currentState, a.eventsCounter)
  | .processing | .flushing => (latestState a, latestCounter a)

def Sound (counter : ℕ) (p : WritePrecondition) : Prop :=
  p = .unconditional ∨ p = preconditionFromRevision (some counter)

structure AtEntity (cfg : Config S C E) (a : Actor S) (s : Sequential S) : Prop where
  cache : currentStateAny cfg a = cfg.codec.newState a.currentState
  frontier : frontier a = (s.state, s.counter)
  tenant : a.actorTenant = s.tenant
  base : a.phase = .processing → a.batchEntries ≠ [] → a.batchBase = a.eventsCounter

inductive TakesUp (cfg : Config S C E) (a : Actor S) (s' : Sequential S) (s : Sequential S) :
    Actor S → List Effect → Prop
  | answers {a' : Actor S} {marks : List Effect} (reply : CommandReply) (hm : marks = [] ∨ marks = [.handle])
      (hp : a'.phase = .processing) (hc : a'.eventsCounter = a.eventsCounter) (hat : AtEntity cfg a' s')
      (hj : s'.journal = s.journal) (hr : s'.replies = s.replies ++ [untimedReply reply]) :
      TakesUp cfg a s' s a' (marks ++ [.response reply])
  | keeps {a' : Actor S} {started : List Effect} (envelopes : List Event) (reply : CommandReply)
      (hst : started = [] ∨ ∃ timer, started = [.startTimer timer]) (hp : a'.phase = .processing)
      (hc : a'.eventsCounter = a.eventsCounter) (hat : AtEntity cfg a' s')
      (hj : s'.journal = s.journal ++ envelopes.map untimed)
      (hr : s'.replies = s.replies ++ [untimedReply reply]) :
      TakesUp cfg a s' s a' ([.handle, .stage envelopes reply, .stash] ++ started)
  | sends {a' b : Actor S} (envelopes : List Event) (reply : CommandReply) (req : PersistEventsRequest)
      (hp : a'.phase = .persisting ∨ a'.phase = .flushing) (hc : a'.eventsCounter = a.eventsCounter)
      (hat : AtEntity cfg a' s') (hj : s'.journal = s.journal ++ envelopes.map untimed)
      (hr : s'.replies = s.replies ++ [untimedReply reply]) (hscope : req.scope = cfg.scope)
      (hs : Sound a.eventsCounter req.precondition) (hne : req.envelopes ≠ []) :
      TakesUp cfg a s' s a' ([.handle, .stage envelopes reply, .stash] ++ (stopped b ++ [.pipeTo req]))

theorem Sequential.handle_eq (h : turn.inTime = true) (s : Sequential S) (ctx : Ctx) (cmd : C) :
    s.handle cfg (ctx, cmd) = match gates cfg s.tenant ctx turn with
      | .error err => { s with replies := s.replies ++ [.errorReply err] }
      | .ok tc =>
        match handlerResult cfg tc turn s.state s.counter ctx cmd with
        | .error err => { s with replies := s.replies ++ [.errorReply err] }
        | .ok none => { s with replies := s.replies ++ [pendingReply cfg s.state s.counter 0] }
        | .ok (some (envelopes, state, counter)) =>
          { state := state
            counter := counter
            tenant := if cfg.tenantAware ∧ s.tenant = .unset then tc else s.tenant
            journal := s.journal ++ envelopes.map untimed
            replies := s.replies ++ [pendingReply cfg state counter 0] } := by
  simp only [Sequential.handle, gates_inTime h]
  cases gates cfg s.tenant ctx timeless with
  | error err => rfl
  | ok tc =>
    simp only [← handlerResult_inTime h]
    cases handlerResult cfg tc turn s.state s.counter ctx cmd with
    | error err => rfl
    | ok result =>
      cases result with
      | none => rfl
      | some built => rfl

theorem establishActorTenant_eq_tenant (a : Actor S) (tc : TenantContext) :
    (establishActorTenant cfg a tc).actorTenant =
      if cfg.tenantAware ∧ a.actorTenant = .unset then tc else a.actorTenant := by
  unfold establishActorTenant
  split <;> rfl

variable {a : Actor S} {ctx : Ctx} {cmd : C}

theorem processCommandAndReply_takesUp
    (hm : cfg.batchEnabled = false) (hok : PhaseOk cfg a) (hp : a.phase = .processing)
    (hat : AtEntity cfg a s) (hin : turn.inTime = true)
    (hdecl : ∀ r, ctx.expectedRevision = some r → r = s.counter) :
    TakesUp cfg a (s.handle cfg (ctx, cmd)) s (processCommandAndReply cfg a ctx cmd turn).1
      (processCommandAndReply cfg a ctx cmd turn).2 := by
  have he := (hok.direct hm).2.1
  obtain ⟨sstate, scounter, tenant, journal, replies⟩ := s
  obtain ⟨rfl, rfl⟩ : a.currentState = sstate ∧ a.eventsCounter = scounter := by
    simpa [frontier, hp, latestState, latestCounter, he] using hat.frontier
  obtain rfl : a.actorTenant = tenant := hat.tenant
  have hsame (replies : List CommandReply) :
      AtEntity cfg a ⟨a.currentState, a.eventsCounter, a.actorTenant, journal, replies⟩ :=
    ⟨hat.cache, hat.frontier, rfl, hat.base⟩
  rw [processCommandAndReply_eq, Sequential.handle_eq hin]
  cases gates cfg a.actorTenant ctx turn with
  | error err => exact .answers (.errorReply err) (.inl rfl) hp rfl (hsame _) rfl rfl
  | ok tc =>
    dsimp only
    cases hres : handlerResult cfg tc turn a.currentState a.eventsCounter ctx cmd with
    | error err => exact .answers (.errorReply err) (.inr rfl) hp rfl (hsame _) rfl rfl
    | ok result =>
      cases result with
      | none =>
        refine .answers (currentReply cfg a) (.inr rfl) hp rfl ⟨hat.cache, hat.frontier, rfl, hat.base⟩ rfl ?_
        rw [currentReply, hat.cache]
        rfl
      | some built =>
        obtain ⟨envelopes, state, counter⟩ := built
        rw [establishActorTenant_actor]
        refine .sends (b := { a with flushTimer := none }) envelopes (pendingReply cfg state counter turn.now)
          ⟨envelopes, preconditionFromRevision ctx.expectedRevision, cfg.scope⟩ (.inl rfl) rfl
          ⟨hat.cache, rfl, establishActorTenant_eq_tenant a tc, ?_⟩ rfl rfl rfl ?_ (handlerResult_spec hres).2
        · intro h
          simp at h
        · cases hr : ctx.expectedRevision with
          | none => exact .inl rfl
          | some r =>
            rw [hdecl r hr]
            exact .inr rfl

theorem folded_takesUp {journal : List Event} {replies : List CommandReply} {tc : TenantContext}
    {envelopes : List Event} {state : S} {counter : ℕ}
    (hp : a.phase = .processing) (hne : envelopes ≠ [])
    (hat : AtEntity cfg a ⟨latestState a, latestCounter a, a.actorTenant, journal, replies⟩)
    (hdecl : ∀ r, ctx.expectedRevision = some r → r = latestCounter a) :
    let a' := folded cfg a tc ctx turn envelopes state counter
    let marks : List Effect := [.handle, .stage envelopes (pendingReply cfg state counter turn.now), .stash]
    let r := if (a'.batchNumEvents : ℤ) ≥ cfg.batchThreshold then
        ((flushBatch cfg a').1, marks ++ (flushBatch cfg a').2)
      else ((startFlushTimer a' turn).1, marks ++ (startFlushTimer a' turn).2)
    TakesUp cfg a ⟨state, counter, if cfg.tenantAware ∧ a.actorTenant = .unset then tc else a.actorTenant,
        journal ++ envelopes.map untimed, replies ++ [pendingReply cfg state counter 0]⟩
      ⟨latestState a, latestCounter a, a.actorTenant, journal, replies⟩ r.1 r.2 := by
  have hbase : foldedBase a ctx = a.eventsCounter := by
    unfold foldedBase
    split
    · rename_i he
      cases hr : ctx.expectedRevision with
      | none => rfl
      | some r => simpa [latestCounter, he] using hdecl r hr
    · rename_i he
      exact hat.base hp he
  intro a' marks r
  have hfront : latestState a' = state ∧ latestCounter a' = counter := by
    simp [a', folded, foldInto, latestState, latestCounter]
  have htenant : a'.actorTenant = if cfg.tenantAware ∧ a.actorTenant = .unset then tc else a.actorTenant :=
    establishActorTenant_eq_tenant a tc
  by_cases hfull : (a'.batchNumEvents : ℤ) ≥ cfg.batchThreshold
  · simp only [r, if_pos hfull, flushBatch_eq]
    refine .sends envelopes (pendingReply cfg state counter turn.now) _ (.inr rfl) rfl
      ⟨hat.cache, ?_, htenant, fun h => by simp at h⟩ rfl rfl rfl ?_ (List.append_ne_nil_of_right_ne_nil _ hne)
    · simp only [frontier]
      exact Prod.ext hfront.1 hfront.2
    · have hsame : a'.batchBase = a.eventsCounter := hbase
      simp only [resolveBatchPrecondition, batchPrecondition, hsame]
      cases a'.batchHasPrecondition with
      | false => exact .inl rfl
      | true =>
        refine .inr ?_
        cases a.eventsCounter <;> rfl
  · obtain ⟨timer, started, hstarted, hstart⟩ := startFlushTimer_eq a' turn
    simp only [r, if_neg hfull, hstart]
    refine .keeps envelopes (pendingReply cfg state counter turn.now) ?_ hp rfl
      ⟨hat.cache, ?_, htenant, fun _ _ => hbase⟩ rfl rfl
    · rcases hstarted with ⟨-, h⟩ | ⟨-, -, h⟩
      · exact .inl h
      · exact .inr ⟨timer, h⟩
    · have hp' : a'.phase = .processing := hp
      simp only [frontier, hp']
      exact Prod.ext hfront.1 hfront.2

theorem processAndBatch_takesUp (hp : a.phase = .processing) (hat : AtEntity cfg a s) (hin : turn.inTime = true)
    (hdecl : ∀ r, ctx.expectedRevision = some r → r = s.counter) :
    TakesUp cfg a (s.handle cfg (ctx, cmd)) s (processAndBatch cfg a ctx cmd turn).1
      (processAndBatch cfg a ctx cmd turn).2 := by
  obtain ⟨sstate, scounter, tenant, journal, replies⟩ := s
  obtain ⟨rfl, rfl⟩ : latestState a = sstate ∧ latestCounter a = scounter := by
    simpa [frontier, hp] using hat.frontier
  obtain rfl : a.actorTenant = tenant := hat.tenant
  have hadm : inadmissible a ctx = false := by
    cases hr : ctx.expectedRevision with
    | none => simp [inadmissible, hr]
    | some r => simp [inadmissible, hr, hdecl r hr]
  have hsame (replies : List CommandReply) :
      AtEntity cfg (joined a ctx) ⟨latestState a, latestCounter a, a.actorTenant, journal, replies⟩ :=
    ⟨hat.cache, hat.frontier, rfl, hat.base⟩
  rw [processAndBatch_eq, Sequential.handle_eq hin]
  cases gates cfg a.actorTenant ctx turn with
  | error err =>
    exact .answers (.errorReply err) (.inl rfl) hp rfl ⟨hat.cache, hat.frontier, rfl, hat.base⟩ rfl rfl
  | ok tc =>
    simp only [hadm, Bool.false_eq_true, if_false]
    cases hres : handlerResult cfg tc turn (latestState a) (latestCounter a) ctx cmd with
    | error err => exact .answers (.errorReply err) (.inr rfl) hp rfl (hsame _) rfl rfl
    | ok result =>
      cases result with
      | none =>
        dsimp only
        split
        · rename_i he
          refine .answers (currentReply cfg a) (.inr rfl) hp rfl ⟨hat.cache, hat.frontier, rfl, hat.base⟩ rfl ?_
          rw [currentReply, hat.cache]
          simp [latestState, latestCounter, he, untimedReply, pendingReply]
        · exact .answers _ (.inr rfl) hp rfl (hsame _) rfl rfl
      | some built => exact folded_takesUp hp (handlerResult_spec hres).2 hat hdecl

variable {id : ℕ}

theorem receive_takesUp
    (hok : PhaseOk cfg a) (hp : a.phase = .processing) (hat : AtEntity cfg a s) (hin : turn.inTime = true)
    (hdecl : ∀ r, ctx.expectedRevision = some r → r = s.counter) :
    TakesUp cfg a (s.handle cfg (ctx, cmd)) s (receive cfg a (.command id ctx cmd) turn).1
      (receive cfg a (.command id ctx cmd) turn).2 := by
  simp only [receive, handleCommandBatched, hp]
  split
  · exact processAndBatch_takesUp hp hat hin hdecl
  · exact processCommandAndReply_takesUp (Bool.not_eq_true _ ▸ ‹_›) hok hp hat hin hdecl

def Message.command? : Message C → Option (ℕ × Ctx × C)
  | .command id ctx cmd => some (id, ctx, cmd)
  | _ => none

def commands (msgs : List (Message C)) : List (ℕ × Ctx × C) := msgs.filterMap Message.command?

@[simp] theorem commands_append (xs ys : List (Message C)) :
    commands (xs ++ ys) = commands xs ++ commands ys := List.filterMap_append

section
variable (id : ℕ) (ctx : Ctx) (cmd : C) (err : Option Err) (msgs : List (Message C))

@[simp] theorem commands_nil : commands ([] : List (Message C)) = [] := rfl
@[simp] theorem commands_command : commands (.command id ctx cmd :: msgs) = (id, ctx, cmd) :: commands msgs := rfl
@[simp] theorem commands_getState : commands (.getState id ctx :: msgs) = commands msgs := rfl
@[simp] theorem commands_tick : commands (.batchFlushTick :: msgs) = commands msgs := rfl
@[simp] theorem commands_response : commands (.persistEventsResponse err :: msgs) = commands msgs := rfl

end

def todo (n : Node S C) : List (ℕ × Ctx × C) :=
  (commands (n.stash ++ n.mailbox)).drop (owners n).length

theorem commands_length (msgs : List (Message C)) : (commands msgs).length = (commandIds msgs).length := by
  induction msgs with
  | nil => rfl
  | cons msg msgs ih =>
    cases msg with
    | command => exact congrArg (· + 1) ih
    | getState | batchFlushTick | persistEventsResponse => exact ih

variable {n : Node S C}

theorem Custody.owners_le (h : Custody cfg n) : (owners n).length ≤ (commands (n.stash ++ n.mailbox)).length := by
  rw [commands_length, commandIds_append, List.length_append]
  cases h with
  | working hp hs => simp [owners, hp, hs]
  | waiting hp _ hs | told _ hp _ hs =>
    have hle := hs.length_le
    rcases hp with hp | hp <;> simp only [owners, hp] <;> omega
  | draining _ hp _ _ _ _ _ _ hm =>
    have hle := hm.length_le
    omega
  | answering hp _ _ _ _ hb _ _ hm =>
    have hle := hm.length_le
    simp only [owners, hp, hb, idsOf, List.map_cons, List.map_nil]
    omega

def afterTurn (n : Node S C) (msg : Message C) (rest : List (Message C)) (a' : Actor S)
    (effects : List Effect) : Node S C :=
  performAll msg [] { n with
    computed := n.computed ++ ownReplies n.actor.phase msg effects
    actor := a'
    mailbox := rest } effects

variable {rest : List (Message C)}

theorem deliver_eq_afterTurn {msg : Message C} (turn : Turn) (h : n.mailbox = msg :: rest) : deliver cfg turn [] n =
      afterTurn n msg rest (receive cfg n.actor msg { turn with timer := n.armed }).1
        (receive cfg n.actor msg { turn with timer := n.armed }).2 := by
  simp only [deliver, h, afterTurn]

@[simp] theorem afterTurn_actor (msg : Message C) (rest : List (Message C)) (a' : Actor S)
    (effects : List Effect) : (afterTurn n msg rest a' effects).actor = a' := performAll_actor _ _ _ _

theorem Custody.todo_processing (h : Custody cfg n)
    (hp : n.actor.phase = .processing) (hm : n.mailbox = .command id ctx cmd :: rest) :
    (commands n.stash).length = n.staging.length ∧ todo n = (id, ctx, cmd) :: commands rest := by
  have hlen : (commands n.stash).length = n.staging.length := by
    cases h with
    | working _ hs => rw [commands_length, hs, idsOf, List.length_map]
    | waiting hp' | told _ hp' | draining _ hp' | answering hp' => simp [hp] at hp'
  simp [todo, owners, hp, idsOf, hm, ← hlen]

theorem TakesUp.todo {s' : Sequential S} {a' : Actor S} {effects : List Effect}
    (h : TakesUp cfg n.actor s' s a' effects) (hc : Custody cfg n)
    (hp : n.actor.phase = .processing) (hm : n.mailbox = .command id ctx cmd :: rest) :
    todo n = (id, ctx, cmd) :: todo (afterTurn n (.command id ctx cmd) rest a' effects) := by
  obtain ⟨hlen, htodo⟩ := hc.todo_processing hp hm
  rw [htodo]
  unfold afterTurn
  cases h with
  | answers reply hmarks hp' =>
    rcases hmarks with rfl | rfl <;>
      simp [EventSource.todo, owners, perform, hp', idsOf, ← hlen]
  | keeps envelopes reply hst hp' =>
    rcases hst with rfl | ⟨timer, rfl⟩ <;>
      simp [EventSource.todo, owners, perform, hp', idsOf, ← hlen]
  | sends envelopes reply req hp' =>
    rcases hp' with hp' | hp' <;>
      simp [EventSource.todo, owners, perform, performAll_append, hp', idsOf, ← hlen]

theorem commands_eq_nil {msgs : List (Message C)} (h : commandIds msgs = []) : commands msgs = [] := by
  rw [← List.length_eq_zero_iff, commands_length, h, List.length_nil]

theorem Reaction.todo {msg : Message C} {a' : Actor S}
    {effects : List Effect} (hre : Reaction cfg n.actor msg turn a' effects) (hok : PhaseOk cfg n.actor)
    (hc : Custody cfg n) (hm : n.mailbox = msg :: rest)
    (hother : n.actor.phase ≠ .processing ∨ msg.commandId? = none) :
    todo (afterTurn n msg rest a' effects) = todo n := by
  unfold afterTurn
  cases hre
  case denied hp | failed hp _ | unchanged hp _ | unchangedInBatch hp _ _ _ _ _ | persist hp _ _ |
      gateFlush hp _ | fold hp _ _ _ _ _ | foldFlush hp _ _ _ _ =>
    simp [hp, Message.commandId?] at hother
  case ignored | idleTick | readDenied | read => simp [EventSource.todo, owners, perform, hm]
  case stashedCommand | stashedRead => simp [EventSource.todo, owners, perform, hm]
  case tickFlush hp _ => simp [EventSource.todo, owners, perform, hm, hp]
  case directConfirmed hp _ | directFailed hp =>
    simp [EventSource.todo, owners, perform, performAll_append, hm, hp]
  case batchConfirmed hp _ | batchFailed hp =>
    have he : n.actor.batchEntries = n.awaited.map (·.reply) := (hc.of_response hm).promised.batched hp
    simp [EventSource.todo, owners, perform, performAll_append, hm, hp, he]
  case replySuccess hp _ | replyFailure hp _ =>
    obtain ⟨b, hb, rfl⟩ := hc.of_directReplying hp hm
    have hs : commands n.stash = [] := by
      cases hc with
      | answering _ _ hs => exact commands_eq_nil hs
      | working hp' | draining _ hp' | waiting hp' | told _ hp' => simp [hp] at hp'
    simp [EventSource.todo, owners, perform, hm, hp, hs, hb.awaited, hb.staging, idsOf]
  case drain hp hr hl =>
    obtain ⟨b, err, hb, rfl⟩ := hc.of_replying hok hp hm
    obtain ⟨-, hle⟩ := hok.owes hp
    rw [hb.entries, List.length_map] at hle
    obtain ⟨k, hk⟩ : ∃ k, n.actor.remainingReplies = k + 1 := ⟨_, (Nat.succ_pred (by omega)).symm⟩
    have hlen : n.awaited.length - (n.awaited.length - (k + 1)) = k + 1 := by omega
    have hlen' : n.awaited.length - (n.awaited.length - k) = k := by omega
    simp [EventSource.todo, owners, perform, hm, hp, hb.stash, idsOf, hk, hlen, hlen']
  case drainLast hp hr hl =>
    obtain ⟨b, err, hb, rfl⟩ := hc.of_replying hok hp hm
    obtain ⟨-, hle⟩ := hok.owes hp
    rw [hb.entries, List.length_map] at hle
    have hlen : n.awaited.length - (n.awaited.length - 1) = 1 := by omega
    simp [EventSource.todo, owners, perform, hm, hp, hb.stash, hb.staging, idsOf, hr, hlen]

end

end Ego.EventSource

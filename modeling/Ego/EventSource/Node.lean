import Ego.Lib.Runs
import Ego.Lib.Interleave
import Ego.EventSource.Envelopes

/-!
# An actor in its runtime

The actor with its mailbox and stash, the flush timers, and the events writer with the
asks that wait for it (`events_writer_actor.go`).
-/

namespace Ego.EventSource
open Persistence Protocol Lib

/-- The envelopes one command staged, and the reply they promise it. -/
structure Block where
  id : ℕ
  envelopes : List Event
  reply : CommandReply
  deriving DecidableEq, Repr

def Block.answer (err : Option Err) (b : Block) : CommandReply :=
  match err with
  | none => b.reply
  | some err => .errorReply err

def envelopesOf (blocks : List Block) : List Event := blocks.flatMap (·.envelopes)

/-- A request on its way through the events writer. -/
structure Write where
  id : ℕ
  req : PersistEventsRequest
  blocks : List Block
  deriving DecidableEq, Repr

namespace Message
variable {C : Type}

def id : Message C → ℕ
  | .command id _ _ => id
  | .getState id _ => id
  | _ => 0

def commandId? : Message C → Option ℕ
  | .command id _ _ => some id
  | _ => none

def requestId? : Message C → Option ℕ
  | .command id _ _ => some id
  | .getState id _ => some id
  | _ => none

def response? : Message C → Option (Option Err)
  | .persistEventsResponse err => some err
  | _ => none

end Message

def commandIds {C : Type} (msgs : List (Message C)) : List ℕ := msgs.filterMap Message.commandId?
def requestIds {C : Type} (msgs : List (Message C)) : List ℕ := msgs.filterMap Message.requestId?
def responses {C : Type} (msgs : List (Message C)) : List (Option Err) :=
  msgs.filterMap Message.response?

structure Node (S C : Type) where
  actor : Actor S
  mailbox : List (Message C)
  stash : List (Message C)
  -- the number of requests that have arrived, which names the next one
  arrived : ℕ
  timers : List ℕ
  armed : ℕ
  -- requests the writer has not processed, asks that have not been answered
  writer : List Write
  asks : List Write
  asked : ℕ
  stopping : Bool
  snapshots : List PersistSnapshotRequest
  replies : List (ℕ × CommandReply)
  handled : List ℕ
  -- the replies that requests got in a turn of their own
  computed : List (ℕ × CommandReply)
  -- blocks accepted since the last request, those of the last request, and all
  staging : List Block
  awaited : List Block
  staged : List Block
  committed : List Block
  outcomes : List (Block × Option Err)
  deriving DecidableEq, Repr

section
variable {S C E : Type}

def Node.start (actor : Actor S) : Node S C where
  actor := actor
  mailbox := []
  stash := []
  arrived := 0
  timers := []
  armed := 0
  writer := []
  asks := []
  asked := 0
  stopping := false
  snapshots := []
  replies := []
  handled := []
  computed := []
  staging := []
  awaited := []
  staged := []
  committed := []
  outcomes := []

def perform (msg : Message C) (place : List Bool) (n : Node S C) : Effect → Node S C
  | .handle => { n with handled := n.handled ++ [msg.id] }
  | .stage envelopes reply =>
    { n with
      staging := n.staging ++ [⟨msg.id, envelopes, reply⟩]
      staged := n.staged ++ [⟨msg.id, envelopes, reply⟩] }
  | .response reply => { n with replies := n.replies ++ [(msg.id, reply)] }
  | .stash => { n with stash := n.stash ++ [msg] }
  | .unstashAll => { n with mailbox := interleave place n.stash n.mailbox, stash := [] }
  | .pipeTo req =>
    { n with
      writer := n.writer ++ [⟨n.asked, req, n.staging⟩]
      asks := n.asks ++ [⟨n.asked, req, n.staging⟩]
      asked := n.asked + 1
      awaited := n.staging
      staging := [] }
  | .tellSnapshot req => { n with snapshots := n.snapshots ++ [req] }
  | .startTimer id => { n with timers := n.timers ++ [id], armed := n.armed + 1 }
  | .stopTimer id => { n with timers := n.timers.erase id }
  | .shutdown => { n with stopping := true }

def performAll (msg : Message C) (place : List Bool) (n : Node S C) (effects : List Effect) : Node S C :=
  effects.foldl (perform msg place) n

variable (cfg : Config S C E)

def ownReplies (phase : PersistPhase) (msg : Message C) (effects : List Effect) : List (ℕ × CommandReply) :=
  if phase = .processing ∨ msg.commandId? = none then
    effects.filterMap fun
      | .response reply => some (msg.id, reply)
      | _ => none
  else []

def deliver (turn : Turn) (place : List Bool) (n : Node S C) : Node S C :=
  match n.mailbox with
  | [] => n
  | msg :: rest =>
    let r := receive cfg n.actor msg { turn with timer := n.armed }
    let n := { n with computed := n.computed ++ ownReplies n.actor.phase msg r.2 }
    performAll msg place { n with actor := r.1, mailbox := rest } r.2

/-- The ask of `w` ends, unless it has ended before: its outcome goes to the
actor's mailbox (`askEventsWriter` under `PipeTo`). -/
def answerAsk (w : Write) (err : Option Err) (n : Node S C) : Node S C :=
  if n.asks.any (·.id == w.id) then
    { n with
      asks := n.asks.filter (·.id != w.id)
      mailbox := n.mailbox ++ [.persistEventsResponse err]
      outcomes := n.outcomes ++ w.blocks.map fun b => (b, err) }
  else n

/-- What happens to the request at the head of the writer's queue: the store
decides and the writer reports it; the store never gets it and the writer
reports `err`; or the store decides and the report is lost. -/
inductive Outcome where
  | store
  | fail (err : Err)
  | lost
  deriving DecidableEq, Repr

def writeNext (store : EventsStore) (outcome : Outcome) (n : Node S C) (log : Option EventLog) :
    Node S C × Option EventLog :=
  match n.writer with
  | [] => (n, log)
  | w :: rest =>
    let n := { n with writer := rest }
    match outcome with
    | .fail err => (answerAsk w (some err) n, log)
    | .store =>
      match store.writeEvents w.req.scope cfg.persistenceID log w.req.envelopes w.req.precondition with
      | .ok log => (answerAsk w none { n with committed := n.committed ++ w.blocks }, log)
      | .error err => (answerAsk w (some err) n, log)
    | .lost =>
      match store.writeEvents w.req.scope cfg.persistenceID log w.req.envelopes w.req.precondition with
      | .ok log => ({ n with committed := n.committed ++ w.blocks }, log)
      | .error _ => (n, log)

/-- The oldest open ask gives up waiting; its request stays where it is. -/
def timeoutAsk (text : String) (n : Node S C) : Node S C :=
  match n.asks with
  | [] => n
  | w :: _ => answerAsk w (some (.message text)) n

def fireTimer (id : ℕ) (n : Node S C) : Node S C :=
  if id ∈ n.timers then
    { n with timers := n.timers.erase id, mailbox := n.mailbox ++ [.batchFlushTick] }
  else n

/-- A new incarnation recovers and takes over, with an empty mailbox. An attempt
whose recovery fails starts nothing. -/
def restartNode (store : EventsStore) (snapshot : Option Snapshot) (n : Node S C) (log : Option EventLog) : Node S C :=
  match recover cfg store snapshot log with
  | .error _ => n
  | .ok actor =>
    { n with
      actor := actor
      mailbox := []
      stash := []
      timers := []
      asks := []
      stopping := false
      staging := []
      awaited := [] }

inductive Label (C : Type) where
  | command (ctx : Ctx) (cmd : C)
  | getState (ctx : Ctx)
  | flushTick
  | deliver (turn : Turn) (place : List Bool)
  | write (outcome : Outcome)
  | timeout (text : String)
  | fire (timer : ℕ)
  | restart (snapshot : Option Snapshot)
  deriving DecidableEq, Repr

def nodeStep (store : EventsStore) (n : Node S C) (log : Option EventLog) : Label C → Node S C × Option EventLog
  | .command ctx cmd =>
    ({ n with mailbox := n.mailbox ++ [.command n.arrived ctx cmd], arrived := n.arrived + 1 }, log)
  | .getState ctx =>
    ({ n with mailbox := n.mailbox ++ [.getState n.arrived ctx], arrived := n.arrived + 1 }, log)
  | .flushTick => ({ n with mailbox := n.mailbox ++ [.batchFlushTick] }, log)
  | .deliver turn place => (deliver cfg turn place n, log)
  | .write outcome => writeNext cfg store outcome n log
  | .timeout text => (timeoutAsk text n, log)
  | .fire timer => (fireTimer timer n, log)
  | .restart snapshot => (restartNode cfg store snapshot n log, log)

structure Entity (S C : Type) where
  node : Node S C
  log : Option EventLog
  deriving DecidableEq

def step (store : EventsStore) (e : Entity S C) (l : Label C) : Entity S C :=
  let r := nodeStep cfg store e.node e.log l
  ⟨r.1, r.2⟩

def Entity.start : Entity S C :=
  ⟨.start (.new cfg.behavior.initialState 0 (spawnTenant cfg)), none⟩

@[simp] theorem envelopesOf_nil : envelopesOf [] = [] := rfl

@[simp] theorem envelopesOf_append (xs ys : List Block) :
    envelopesOf (xs ++ ys) = envelopesOf xs ++ envelopesOf ys := List.flatMap_append

@[simp] theorem envelopesOf_singleton (b : Block) : envelopesOf [b] = b.envelopes := by
  simp [envelopesOf]

@[simp] theorem performAll_nil (msg : Message C) (place : List Bool) (n : Node S C) :
    performAll msg place n [] = n := rfl

@[simp] theorem performAll_cons (msg : Message C) (place : List Bool) (n : Node S C) (e : Effect) (es : List Effect) :
    performAll msg place n (e :: es) = performAll msg place (perform msg place n e) es := rfl

theorem performAll_append (msg : Message C) (place : List Bool) (n : Node S C) (xs ys : List Effect) :
    performAll msg place n (xs ++ ys) = performAll msg place (performAll msg place n xs) ys :=
  List.foldl_append

@[simp] theorem performAll_tellSnapshot (msg : Message C) (place : List Bool) (n : Node S C)
    (reqs : List PersistSnapshotRequest) :
    performAll msg place n (reqs.map .tellSnapshot) = { n with snapshots := n.snapshots ++ reqs } := by
  induction reqs generalizing n with
  | nil => simp
  | cons req reqs ih => simp [perform, ih]

@[simp] theorem performAll_actor (msg : Message C) (place : List Bool) (n : Node S C)
    (effects : List Effect) : (performAll msg place n effects).actor = n.actor := by
  induction effects generalizing n with
  | nil => rfl
  | cons e effects ih =>
    have h := ih (perform msg place n e)
    cases e <;> exact h

theorem performAll_frame (msg : Message C) (place : List Bool) (n : Node S C) (effects : List Effect) :
    (performAll msg place n effects).committed = n.committed ∧
    (performAll msg place n effects).arrived = n.arrived ∧
      (performAll msg place n effects).outcomes = n.outcomes := by
  induction effects generalizing n with
  | nil => exact ⟨rfl, rfl, rfl⟩
  | cons e effects ih =>
    have h := ih (perform msg place n e)
    cases e <;> exact h

@[simp] theorem performAll_stopped (msg : Message C) (place : List Bool) (n : Node S C) (a : Actor S) :
    performAll msg place n (stopped a) = { n with timers := (a.flushTimer.map n.timers.erase).getD n.timers } := by
  unfold stopped
  cases a.flushTimer <;> rfl

@[simp] theorem performAll_shutdown (msg : Message C) (place : List Bool) (n : Node S C) (b : Bool) :
    performAll msg place n (if b then [.shutdown] else []) = { n with stopping := n.stopping || b } := by
  cases b with
  | true => simp [perform]
  | false => simp

@[simp] theorem commandIds_nil : commandIds ([] : List (Message C)) = [] := rfl
@[simp] theorem requestIds_nil : requestIds ([] : List (Message C)) = [] := rfl
@[simp] theorem responses_nil : responses ([] : List (Message C)) = [] := rfl

@[simp] theorem commandIds_append (xs ys : List (Message C)) :
    commandIds (xs ++ ys) = commandIds xs ++ commandIds ys := List.filterMap_append

@[simp] theorem requestIds_append (xs ys : List (Message C)) :
    requestIds (xs ++ ys) = requestIds xs ++ requestIds ys := List.filterMap_append

@[simp] theorem responses_append (xs ys : List (Message C)) :
    responses (xs ++ ys) = responses xs ++ responses ys := List.filterMap_append

section
variable (id : ℕ) (ctx : Ctx) (cmd : C) (err : Option Err) (msgs : List (Message C))

@[simp] theorem commandIds_command : commandIds (.command id ctx cmd :: msgs) = id :: commandIds msgs := rfl
@[simp] theorem commandIds_getState : commandIds (.getState id ctx :: msgs) = commandIds msgs := rfl
@[simp] theorem commandIds_tick : commandIds (.batchFlushTick :: msgs) = commandIds msgs := rfl
@[simp] theorem commandIds_response : commandIds (.persistEventsResponse err :: msgs) = commandIds msgs := rfl
@[simp] theorem requestIds_command : requestIds (.command id ctx cmd :: msgs) = id :: requestIds msgs := rfl
@[simp] theorem requestIds_getState : requestIds (.getState id ctx :: msgs) = id :: requestIds msgs := rfl
@[simp] theorem requestIds_tick : requestIds (.batchFlushTick :: msgs) = requestIds msgs := rfl
@[simp] theorem requestIds_response : requestIds (.persistEventsResponse err :: msgs) = requestIds msgs := rfl
@[simp] theorem responses_command : responses (.command id ctx cmd :: msgs) = responses msgs := rfl
@[simp] theorem responses_getState : responses (.getState id ctx :: msgs) = responses msgs := rfl
@[simp] theorem responses_tick : responses (.batchFlushTick :: msgs) = responses msgs := rfl
@[simp] theorem responses_response : responses (.persistEventsResponse err :: msgs) = err :: responses msgs := rfl

end

theorem responses_interleave {place : List Bool} {xs ys : List (Message C)}
    (hx : responses xs = []) (hy : responses ys = []) : responses (interleave place xs ys) = [] := by
  have h := (interleave_perm place xs ys).filterMap Message.response?
  rw [List.filterMap_append] at h
  change (responses (interleave place xs ys)).Perm (responses xs ++ responses ys) at h
  rw [hx, hy] at h
  exact h.eq_nil

variable {cfg}

variable {n : Node S C}

theorem deliver_nil (turn : Turn) (place : List Bool) (h : n.mailbox = []) : deliver cfg turn place n = n := by
  simp only [deliver, h]

theorem deliver_reaction {msg : Message C} {rest : List (Message C)} (turn : Turn)
    (place : List Bool) (hok : PhaseOk cfg n.actor) (h : n.mailbox = msg :: rest) :
    ∃ a' effects, Reaction cfg n.actor msg { turn with timer := n.armed } a' effects ∧
      deliver cfg turn place n = performAll msg place
          { { n with computed := n.computed ++ ownReplies n.actor.phase msg effects } with
            actor := a', mailbox := rest } effects := by
  refine ⟨_, _, receive_reaction hok msg, ?_⟩
  simp only [deliver, h]

theorem Reaction.stashOk {turn : Turn} {msg : Message C} {rest : List (Message C)} {a' : Actor S}
    {effects : List Effect} (hre : Reaction cfg n.actor msg turn a' effects) (place : List Bool)
    (hst : responses n.stash = []) :
    responses (performAll msg place { n with actor := a', mailbox := rest } effects).stash = [] := by
  cases hre
  case fold ht => rcases ht with ⟨-, rfl⟩ | ⟨-, -, rfl⟩ <;> simp [perform, hst]
  all_goals simp [perform, performAll_append, hst]

theorem answerAsk_frame (w : Write) (err : Option Err) (n : Node S C) :
    (answerAsk w err n).actor = n.actor ∧ (answerAsk w err n).staging = n.staging ∧
      (answerAsk w err n).awaited = n.awaited ∧ (answerAsk w err n).replies = n.replies ∧
      (answerAsk w err n).committed = n.committed := by
  unfold answerAsk
  split <;> exact ⟨rfl, rfl, rfl, rfl, rfl⟩

theorem answerAsk_of_nil (w : Write) (err : Option Err) (h : n.asks = []) : answerAsk w err n = n := by
  simp [answerAsk, h]

theorem answerAsk_of_singleton {w : Write} (err : Option Err) (h : n.asks = [w]) : answerAsk w err n = { n with
      asks := []
      mailbox := n.mailbox ++ [.persistEventsResponse err]
      outcomes := n.outcomes ++ w.blocks.map fun b => (b, err) } := by
  simp [answerAsk, h]

theorem writeNext_nil (store : EventsStore) (outcome : Outcome)
    (log : Option EventLog) (h : n.writer = []) : writeNext cfg store outcome n log = (n, log) := by
  simp only [writeNext, h]

theorem writeNext_cases {n : Node S C} {w : Write} {rest : List Write} (store : EventsStore)
    (outcome : Outcome) (log : Option EventLog) (h : n.writer = w :: rest) :
    (∃ log', store.writeEvents w.req.scope cfg.persistenceID log w.req.envelopes
          w.req.precondition = .ok log' ∧ (writeNext cfg store outcome n log = (answerAsk w none
            { n with writer := rest, committed := n.committed ++ w.blocks }, log') ∨
          outcome = .lost ∧ writeNext cfg store outcome n log =
            ({ n with writer := rest, committed := n.committed ++ w.blocks }, log'))) ∨
      (∃ err, writeNext cfg store outcome n log = (answerAsk w (some err)
        { n with writer := rest }, log)) ∨
      (outcome = .lost ∧ writeNext cfg store outcome n log = ({ n with writer := rest }, log)) := by
  simp only [writeNext, h]
  cases outcome with
  | fail err => exact .inr (.inl ⟨err, rfl⟩)
  | store =>
    dsimp only
    split
    · rename_i log' hw
      exact .inl ⟨log', hw, .inl rfl⟩
    · rename_i err hw
      exact .inr (.inl ⟨err, rfl⟩)
  | lost =>
    dsimp only
    split
    · rename_i log' hw
      exact .inl ⟨log', hw, .inr ⟨rfl, rfl⟩⟩
    · exact .inr (.inr ⟨rfl, rfl⟩)

end

end Ego.EventSource

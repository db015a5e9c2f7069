import Ego.Projection.Runner
import Ego.Lib.Runs
import Mathlib.Data.List.Basic

/-!
# The processing loop and its workers (`internal/projectionrunner/runner.go`)

One goroutine runs the loop and a fixed number run `worker`.
-/

namespace Ego.Projection
open Persistence

inductive RecoveryPolicy where
  | fail
  | retryAndFail
  | skip
  | retryAndSkip
  -- `RecoveryPolicy` is an int
  | other
  deriving DecidableEq, Repr

structure PoolConfig where
  recoveryPolicy : RecoveryPolicy
  retries : UInt64
  -- whether each is configured
  deadLetterHandler : Bool
  encryptor : Bool
  eventAdapters : Bool
  startingOffset : ℤ
  numWorkers : ℕ

inductive HandlerOutcome where
  | returned (r : Except Err Unit)
  -- the text of the `handlerPanicError`
  | panicked (text : String)

structure Calls where
  decrypt : Except Err Bytes
  unmarshal : Except Err Any
  adapt : Except Err Any
  handle : ℕ → HandlerOutcome

inductive Verdict where
  | handled
  -- given up after the failed attempts, and sent to the dead letter handler
  | skipped (causes : List Err)
  | failed (err : Err)
  deriving DecidableEq

def handleSafely : HandlerOutcome → Except Err Unit
  | .returned r => r
  | .panicked text => .error (.message text)

def maxTries (tries : Int64) : ℕ := if tries ≤ 0 then 5 else tries.toNatClampNeg

def retryFrom (fn : ℕ → Except Err Unit) (attempt : ℕ) : ℕ → Except (List Err) Unit
  | 0 => (fn attempt).mapError fun err => [err]
  | left + 1 =>
    match fn attempt with
    | .ok () => .ok ()
    | .error err => (retryFrom fn (attempt + 1) left).mapError fun errs => err :: errs

def retryOn (tries : Int64) (fn : ℕ → Except Err Unit) : Except (List Err) Unit :=
  retryFrom fn 1 (maxTries tries - 1)

def lastError (errs : List Err) : Err := errs.getLastD (.message "")

def retryHandle (cfg : PoolConfig) (calls : Calls) : Except (List Err) Unit :=
  retryOn cfg.retries.toInt64 fun k => handleSafely (calls.handle k)

def handleWithPolicy (cfg : PoolConfig) (calls : Calls) : Verdict :=
  match cfg.recoveryPolicy with
  | .fail | .other =>
    match handleSafely (calls.handle 1) with
    | .ok () => .handled
    | .error err => .failed err
  | .retryAndFail =>
    match retryHandle cfg calls with
    | .ok () => .handled
    | .error errs => .failed (lastError errs)
  | .retryAndSkip =>
    match retryHandle cfg calls with
    | .ok () => .handled
    | .error errs => .skipped errs
  | .skip =>
    match handleSafely (calls.handle 1) with
    | .ok () => .handled
    | .error err => .skipped [err]

def decodeFor (cfg : PoolConfig) (calls : Calls) (envelope : Event) : Except Err Any := do
  let event ← if envelope.isEncrypted && cfg.encryptor then do
      let _ ← calls.decrypt.mapError (Err.wrap (atRevision "failed to decrypt event" envelope))
      calls.unmarshal.mapError (Err.wrap (atRevision "failed to unmarshal decrypted event" envelope))
    else .ok envelope.event
  if cfg.eventAdapters then
    calls.adapt.mapError (Err.wrap (atRevision "failed to adapt event" envelope))
  else .ok event

def verdictOn (cfg : PoolConfig) (calls : Calls) (envelope : Event) : Verdict :=
  match decodeFor cfg calls envelope with
  | .error err => .failed err
  | .ok _ => handleWithPolicy cfg calls

/-- From `reading` on, `currOffset` is the offset its pass over the shard started from. -/
inductive Worker where
  | idle
  | took (shard : ℕ)
  | resolving (shard : ℕ)
  | reading (shard : ℕ) (currOffset : ℤ)
  | handling (shard : ℕ) (currOffset : ℤ) (events : List Event) (nextOffset : ℤ)
  | committing (shard : ℕ) (currOffset : ℤ) (nextOffset : ℤ)
  | ending (shard : ℕ) (err : Option Failure)
  | reported (shard : ℕ)
  | exited
  deriving DecidableEq

inductive Loop where
  | idle
  -- a pull was requested, `running` is read next
  | pulled
  | listing
  | dispatching (todo : List ℕ)
  | waiting
  -- waits after the context ended the dispatch
  | abandoned
  | backoff
  | failing (err : Err)
  -- in its own call of `Stop`, and whether that call does the stopping
  | stopping (own : Bool)
  | returned
  deriving DecidableEq

inductive Stopper where
  | signals
  | cancels
  deriving DecidableEq

structure Ledger where
  -- the shard's entry of `committedOffsets`
  committed : Option ℤ
  written : List ℤ
  read : List Event
  outcomes : List (Event × Verdict)
  deadLetters : List Event

structure Pool where
  running : Bool
  cancelled : Bool
  stopSignal : Bool
  stopper : Option Stopper
  loop : Loop
  workCh : List ℕ
  workerErrCh : List Failure
  -- the counter of the pass's `WaitGroup`
  undone : ℕ
  workers : List Worker
  shards : ℕ → Ledger
  storeFailures : ℕ
  -- history: the shards of this pass that are done
  done : List ℕ

def workCapacity : ℕ := 64

structure ShardOffsets where
  entries : List (ℕ × ℤ)
  nodup : (entries.map Prod.fst).Nodup

inductive Act where
  | take
  | exit
  | checkRunning
  | currentOffset (stored : Except Err ℤ)
  | getShardEvents (page : Except Err (List Event × ℤ))
  | processEnvelope (calls : Calls)
  | writeOffset (r : Except Err Unit)
  | report
  | done

inductive PoolLabel where
  | work (i : ℕ) (act : Act)
  | pull
  | checkRunning
  | shardOffsets (r : Except Err ShardOffsets)
  | send
  -- a select of the loop takes `ctx.Done()` or the stop signal
  | seeDone
  | seeStop
  | awake
  | backoffEnds
  | callStop
  | stopReturns
  -- another goroutine calls `Stop`; its further steps
  | stop
  | stopSends
  | stopCancels
  -- the context of `Start` is cancelled
  | cancel

variable (cfg : PoolConfig)

def Pool.start : Pool where
  running := true
  cancelled := false
  stopSignal := false
  stopper := none
  loop := .idle
  workCh := []
  workerErrCh := []
  undone := 0
  workers := List.replicate cfg.numWorkers .idle
  shards := fun _ => ⟨none, [], [], [], []⟩
  storeFailures := 0
  done := []

def Pool.setWorker (p : Pool) (i : ℕ) (w : Worker) : Pool := { p with workers := p.workers.set i w }

def Pool.onShard (p : Pool) (shard : ℕ) (f : Ledger → Ledger) : Pool :=
  { p with shards := Function.update p.shards shard (f (p.shards shard)) }

def pendingShards (p : Pool) (offsets : ShardOffsets) : List ℕ :=
  if cfg.startingOffset ≠ zeroInstant then
    (offsets.entries.filter fun (_, latest) => latest > unixMilli cfg.startingOffset).map Prod.fst
  else
    (offsets.entries.filter fun (shard, latest) =>
      match (p.shards shard).committed with
      | none => true
      | some committed => latest > committed).map Prod.fst

def startFrom (committed : ℤ) : ℤ :=
  if cfg.startingOffset ≠ zeroInstant then unixMilli cfg.startingOffset else committed

def Ledger.record (l : Ledger) (envelope : Event) (verdict : Verdict) : Ledger :=
  match verdict with
  | .skipped _ =>
    { l with
      outcomes := l.outcomes ++ [(envelope, verdict)]
      deadLetters := if cfg.deadLetterHandler then l.deadLetters ++ [envelope] else l.deadLetters }
  | _ => { l with outcomes := l.outcomes ++ [(envelope, verdict)] }

def Worker.next (shard : ℕ) (currOffset : ℤ) (events : List Event) (nextOffset : ℤ) : Worker :=
  match events with
  | [] => .committing shard currOffset nextOffset
  | _ => .handling shard currOffset events nextOffset

def Pool.reportError (p : Pool) (err : Option Failure) : Pool :=
  match err with
  | some failure =>
    if !p.cancelled && p.workerErrCh.length < cfg.numWorkers then
      { p with workerErrCh := p.workerErrCh ++ [failure] }
    else p
  | none => p

def workStep (p : Pool) (i : ℕ) (w : Worker) (act : Act) : Pool :=
  match w, act with
  | .idle, .take =>
    match p.workCh with
    | [] => p
    | shard :: rest => { p.setWorker i (.took shard) with workCh := rest }
  | .idle, .exit => if p.cancelled then p.setWorker i .exited else p
  | .took shard, .checkRunning =>
    p.setWorker i (if p.running then .resolving shard else .ending shard none)
  | .resolving shard, .currentOffset stored =>
    match (p.shards shard).committed, stored with
    | some committed, _ => p.setWorker i (.reading shard (startFrom cfg committed))
    | none, .error err => p.setWorker i (.ending shard (some (.store err)))
    | none, .ok offset =>
      (p.onShard shard fun l => { l with committed := some offset }).setWorker i
        (.reading shard (startFrom cfg offset))
  | .reading shard currOffset, .getShardEvents page =>
    match page with
    | .error err => p.setWorker i (.ending shard (some (.store err)))
    | .ok ([], _) => p.setWorker i (.ending shard none)
    | .ok (event :: events, nextOffset) =>
      (p.onShard shard fun l => { l with read := l.read ++ event :: events }).setWorker i
        (.handling shard currOffset (event :: events) nextOffset)
  | .handling shard currOffset (event :: events) nextOffset, .processEnvelope calls =>
    let verdict := verdictOn cfg calls event
    (p.onShard shard fun l => l.record cfg event verdict).setWorker i
      (match verdict with
        | .failed err => .ending shard (some (.event err))
        | _ => .next shard currOffset events nextOffset)
  | .committing shard _ nextOffset, .writeOffset r =>
    match r with
    | .error err => p.setWorker i (.ending shard (some (.store err)))
    | .ok () =>
      (p.onShard shard fun l =>
        { l with written := l.written ++ [nextOffset], committed := some nextOffset }).setWorker i
          (.ending shard none)
  | .ending shard err, .report => (p.reportError cfg err).setWorker i (.reported shard)
  | .reported shard, .done =>
    { p.setWorker i .idle with undone := p.undone - 1, done := p.done ++ [shard] }
  | _, _ => p

def Failure.isEvent : Failure → Bool
  | .event _ => true
  | .store _ => false

/-- An event that cannot be processed comes before a failed store. -/
def Pool.drain (p : Pool) : Pool :=
  let p' := { p with workerErrCh := [] }
  match p.workerErrCh.find? Failure.isEvent with
  | some (.event err) => { p' with loop := .failing err }
  | _ =>
    if p.workerErrCh = [] then { p' with storeFailures := 0, loop := .idle }
    else { p' with storeFailures := p.storeFailures + 1, loop := .backoff }

def Pool.beginPass (p : Pool) (shards : List ℕ) : Pool :=
  match shards with
  | [] => { p with storeFailures := 0, loop := .idle }
  | _ => { p with undone := p.undone + shards.length, done := [], loop := .dispatching shards }

def Loop.dispatch : List ℕ → Loop
  | [] => .waiting
  | todo => .dispatching todo

def poolStep (p : Pool) : PoolLabel → Pool
  | .work i act =>
    match p.workers[i]? with
    | none => p
    | some w => workStep cfg p i w act
  | .pull => if p.loop = .idle then { p with loop := .pulled } else p
  | .checkRunning =>
    if p.loop = .pulled then { p with loop := if p.running then .listing else .idle } else p
  | .shardOffsets r =>
    if p.loop = .listing then
      match r with
      | .error _ => { p with storeFailures := p.storeFailures + 1, loop := .backoff }
      | .ok offsets => p.beginPass (pendingShards cfg p offsets)
    else p
  | .send =>
    match p.loop with
    | .dispatching (shard :: todo) =>
      if p.workCh.length < workCapacity then
        { p with workCh := p.workCh ++ [shard], loop := .dispatch todo }
      else p
    | _ => p
  | .seeDone =>
    if p.cancelled then
      match p.loop with
      | .idle => { p with loop := .returned }
      | .backoff => { p with loop := .returned }
      -- the shards that were never dispatched are taken off the counter
      | .dispatching todo => { p with undone := p.undone - todo.length, loop := .abandoned }
      | _ => p
    else p
  | .seeStop =>
    if p.stopSignal ∧ (p.loop = .idle ∨ p.loop = .backoff) then
      { p with stopSignal := false, loop := .returned }
    else p
  | .awake =>
    if p.undone = 0 then
      match p.loop with
      | .waiting => p.drain
      | .abandoned => { p with loop := .returned }
      | _ => p
    else p
  | .backoffEnds => if p.loop = .backoff then { p with loop := .idle } else p
  | .callStop =>
    match p.loop with
    | .failing _ =>
      if p.running then { p with running := false, stopper := some .signals, loop := .stopping true }
      else { p with loop := .stopping false }
    | _ => p
  | .stopReturns =>
    match p.loop with
    | .stopping own => if own ∧ p.stopper.isSome then p else { p with loop := .returned }
    | _ => p
  | .stop => if p.running then { p with running := false, stopper := some .signals } else p
  | .stopSends =>
    if p.stopper = some .signals ∧ !p.stopSignal then { p with stopSignal := true, stopper := some .cancels }
    else p
  | .stopCancels => if p.stopper = some .cancels then { p with cancelled := true, stopper := none } else p
  | .cancel => { p with cancelled := true }

def Loop.inPass : Loop → Bool
  | .dispatching _ | .waiting | .abandoned => true
  | _ => false

def Loop.over : Loop → Bool
  | .failing _ | .stopping _ | .returned => true
  | _ => false

def Loop.todo : Loop → List ℕ
  | .dispatching todo => todo
  | _ => []

inductive PoolMove (p : Pool) : PoolLabel → Pool → Prop
  | rest {l} : PoolMove p l p
  | take {i shard rest} (hw : p.workers[i]? = some .idle) (hq : p.workCh = shard :: rest) :
      PoolMove p (.work i .take) { p.setWorker i (.took shard) with workCh := rest }
  | exit {i} (hw : p.workers[i]? = some .idle) (hc : p.cancelled = true) :
      PoolMove p (.work i .exit) (p.setWorker i .exited)
  | resolve {i shard} (hw : p.workers[i]? = some (.took shard)) (hr : p.running = true) :
      PoolMove p (.work i .checkRunning) (p.setWorker i (.resolving shard))
  -- the shard is left, or a call to a store fails
  | leave {i w act shard err} (hw : p.workers[i]? = some w) (hs : w = .took shard ∨ w = .resolving shard ∨
        (∃ o, w = .reading shard o) ∨ ∃ o v, w = .committing shard o v)
      (he : ∀ f, err = some f → f.isEvent = false) :
      PoolMove p (.work i act) (p.setWorker i (.ending shard err))
  | cached {i shard stored committed} (hw : p.workers[i]? = some (.resolving shard))
      (hc : (p.shards shard).committed = some committed) :
      PoolMove p (.work i (.currentOffset stored)) (p.setWorker i (.reading shard (startFrom cfg committed)))
  | resolved {i shard offset} (hw : p.workers[i]? = some (.resolving shard))
      (hc : (p.shards shard).committed = none) :
      PoolMove p (.work i (.currentOffset (.ok offset)))
        ((p.onShard shard fun l => { l with committed := some offset }).setWorker i
          (.reading shard (startFrom cfg offset)))
  | page {i shard currOffset event events nextOffset} (hw : p.workers[i]? = some (.reading shard currOffset)) :
      PoolMove p (.work i (.getShardEvents (.ok (event :: events, nextOffset))))
        ((p.onShard shard fun l => { l with read := l.read ++ event :: events }).setWorker i
          (.handling shard currOffset (event :: events) nextOffset))
  | processed {i shard currOffset event events nextOffset calls}
      (hw : p.workers[i]? = some (.handling shard currOffset (event :: events) nextOffset))
      (hv : ∀ err, verdictOn cfg calls event ≠ .failed err) :
      PoolMove p (.work i (.processEnvelope calls))
        ((p.onShard shard fun l => l.record cfg event (verdictOn cfg calls event)).setWorker i
          (.next shard currOffset events nextOffset))
  | unprocessable {i shard currOffset event events nextOffset calls err}
      (hw : p.workers[i]? = some (.handling shard currOffset (event :: events) nextOffset))
      (hv : verdictOn cfg calls event = .failed err) :
      PoolMove p (.work i (.processEnvelope calls))
        ((p.onShard shard fun l => l.record cfg event (.failed err)).setWorker i
          (.ending shard (some (.event err))))
  | committed {i shard currOffset nextOffset} (hw : p.workers[i]? = some (.committing shard currOffset nextOffset)) :
      PoolMove p (.work i (.writeOffset (.ok ())))
        ((p.onShard shard fun l =>
          { l with written := l.written ++ [nextOffset], committed := some nextOffset }).setWorker i
            (.ending shard none))
  | report {i shard err} (hw : p.workers[i]? = some (.ending shard err)) :
      PoolMove p (.work i .report) ((p.reportError cfg err).setWorker i (.reported shard))
  | finish {i shard} (hw : p.workers[i]? = some (.reported shard)) :
      PoolMove p (.work i .done)
        { p.setWorker i .idle with undone := p.undone - 1, done := p.done ++ [shard] }
  | between {l loop' storeFailures' running' stopSignal' stopper'} (hl : p.loop.inPass = false)
      (hl' : loop'.inPass = false) (ho : p.loop.over = true → loop'.over = true)
      (hr : running' = true → p.running = true)
      (hpulled : loop' = .pulled → l = .pull)
      (hlisting : loop' = .listing → p.loop = .pulled ∧ p.running = true) :
      PoolMove p l { p with
        loop := loop', storeFailures := storeFailures', running := running', stopSignal := stopSignal',
        stopper := stopper' }
  | pass {offsets} (hl : p.loop = .listing) (hs : pendingShards cfg p offsets ≠ []) :
      PoolMove p (.shardOffsets (.ok offsets)) { p with
        undone := p.undone + (pendingShards cfg p offsets).length, done := [],
        loop := .dispatching (pendingShards cfg p offsets) }
  | send {shard todo} (hl : p.loop = .dispatching (shard :: todo)) :
      PoolMove p .send { p with workCh := p.workCh ++ [shard], loop := .dispatch todo }
  | abandon {todo} (hl : p.loop = .dispatching todo) (hc : p.cancelled = true) :
      PoolMove p .seeDone { p with undone := p.undone - todo.length, loop := .abandoned }
  -- the pass is over, and its errors are drained unless the loop leaves anyway
  | awake {loop' workerErrCh' storeFailures'} (hl : p.loop = .waiting ∨ p.loop = .abandoned) (h0 : p.undone = 0)
      (hl' : loop'.inPass = false)
      (he : loop'.over = true ∨ ∀ f ∈ p.workerErrCh, f.isEvent = false)
      (hpulled : loop' ≠ .pulled) (hlisting : loop' ≠ .listing) :
      PoolMove p .awake
        { p with loop := loop', workerErrCh := workerErrCh', storeFailures := storeFailures' }
  | stop : PoolMove p .stop { p with running := false, stopper := some .signals }
  | signal : PoolMove p .stopSends { p with stopSignal := true, stopper := some .cancels }
  | cancel {l stopper'} (hl : l = .stopCancels ∨ l = .cancel) :
      PoolMove p l { p with cancelled := true, stopper := stopper' }

variable {cfg}

theorem Pool.beginPass_of_ne (p : Pool) {shards : List ℕ} (h : shards ≠ []) : p.beginPass shards =
    { p with undone := p.undone + shards.length, done := [], loop := .dispatching shards } := by
  cases shards with
  | nil => exact absurd rfl h
  | cons shard shards => rfl

theorem workStep_move {p : Pool} {i : ℕ} {w : Worker} (hw : p.workers[i]? = some w) (act : Act) :
    PoolMove cfg p (.work i act) (workStep cfg p i w act) := by
  unfold workStep
  split
  · split
    · exact .rest
    · exact .take hw ‹_›
  · split
    · exact .exit hw ‹_›
    · exact .rest
  · rename_i shard
    by_cases hr : p.running = true
    · rw [if_pos hr]
      exact .resolve hw hr
    · rw [if_neg hr]
      exact .leave hw (.inl rfl) (by simp)
  · split
    · exact .cached hw ‹_›
    · exact .leave hw (.inr (.inl rfl)) (by rintro f ⟨⟩; rfl)
    · exact .resolved hw ‹_›
  · split
    · exact .leave hw (.inr (.inr (.inl ⟨_, rfl⟩))) (by rintro f ⟨⟩; rfl)
    · exact .leave hw (.inr (.inr (.inl ⟨_, rfl⟩))) (by simp)
    · exact .page hw
  · rename_i shard currOffset event events nextOffset calls
    cases hv : verdictOn cfg calls event with
    | failed err => exact .unprocessable hw hv
    | handled | skipped =>
      have hne : ∀ err, verdictOn cfg calls event ≠ .failed err := by simp [hv]
      simpa only [hv] using PoolMove.processed hw hne
  · split
    · exact .leave hw (.inr (.inr (.inr ⟨_, _, rfl⟩))) (by rintro f ⟨⟩; rfl)
    · exact .committed hw
  · exact .report hw
  · exact .finish hw
  · exact .rest

theorem drain_move {p : Pool} (hl : p.loop = .waiting) (h0 : p.undone = 0) : PoolMove cfg p .awake p.drain := by
  unfold Pool.drain
  split
  · exact .awake (.inl hl) h0 rfl (.inl rfl) (by simp) (by simp)
  · rename_i hnone
    have hstore : ∀ f ∈ p.workerErrCh, f.isEvent = false := by
      intro f hf
      by_contra hevent
      obtain ⟨g, hg⟩ : ∃ g, p.workerErrCh.find? Failure.isEvent = some g :=
        Option.isSome_iff_exists.mp (List.find?_isSome.mpr ⟨f, hf, by simpa using hevent⟩)
      cases g with
      | event err => exact hnone err hg
      | store err => exact absurd (List.find?_some hg) (by simp [Failure.isEvent])
    split
    · exact .awake (.inl hl) h0 rfl (.inr hstore) (by simp) (by simp)
    · exact .awake (.inl hl) h0 rfl (.inr hstore) (by simp) (by simp)

theorem poolStep_move (p : Pool) (l : PoolLabel) : PoolMove cfg p l (poolStep cfg p l) := by
  cases l with
  | work i act =>
    simp only [poolStep]
    cases hw : p.workers[i]? with
    | none => exact .rest
    | some w => exact workStep_move hw act
  | pull | backoffEnds =>
    simp only [poolStep]
    split
    · rename_i hl
      exact .between (by simp [hl, Loop.inPass]) rfl (by simp [hl, Loop.over]) id (by simp) (by simp)
    · exact .rest
  | checkRunning =>
    simp only [poolStep]
    split
    · rename_i hl
      by_cases hr : p.running = true
      · rw [if_pos hr]
        exact .between (by simp [hl, Loop.inPass]) rfl (by simp [hl, Loop.over]) id (by simp) (by simp [hl, hr])
      · rw [if_neg hr]
        exact .between (by simp [hl, Loop.inPass]) rfl (by simp [hl, Loop.over]) id (by simp) (by simp)
    · exact .rest
  | shardOffsets r =>
    simp only [poolStep]
    split
    · rename_i hl
      cases r with
      | error err =>
        exact .between (by simp [hl, Loop.inPass]) rfl (by simp [hl, Loop.over]) id (by simp) (by simp)
      | ok offsets =>
        by_cases hs : pendingShards cfg p offsets = []
        · simp only [Pool.beginPass, hs]
          exact .between (by simp [hl, Loop.inPass]) rfl (by simp [hl, Loop.over]) id (by simp) (by simp)
        · have hpass := Pool.beginPass_of_ne p hs
          simp only [hpass]
          exact .pass hl hs
    · exact .rest
  | send =>
    simp only [poolStep]
    split
    · split
      · exact .send ‹_›
      · exact .rest
    · exact .rest
  | seeDone =>
    simp only [poolStep]
    split
    · rename_i hc
      split
      · rename_i hl
        exact .between (by simp [hl, Loop.inPass]) rfl (by simp [hl, Loop.over]) id (by simp) (by simp)
      · rename_i hl
        exact .between (by simp [hl, Loop.inPass]) rfl (by simp [hl, Loop.over]) id (by simp) (by simp)
      · exact .abandon ‹_› hc
      · exact .rest
    · exact .rest
  | seeStop =>
    simp only [poolStep]
    split
    · rename_i h
      obtain ⟨-, hl | hl⟩ := h
      · exact .between (by simp [hl, Loop.inPass]) rfl (by simp [hl, Loop.over]) id (by simp) (by simp)
      · exact .between (by simp [hl, Loop.inPass]) rfl (by simp [hl, Loop.over]) id (by simp) (by simp)
    · exact .rest
  | awake =>
    simp only [poolStep]
    split
    · rename_i h0
      split
      · exact drain_move ‹_› h0
      · rename_i hl
        exact .awake (.inr hl) h0 rfl (.inl rfl) (by simp) (by simp)
      · exact .rest
    · exact .rest
  | callStop =>
    simp only [poolStep]
    split
    · rename_i hl
      split
      · exact .between (by simp [hl, Loop.inPass]) rfl (by simp [Loop.over]) (by simp) (by simp) (by simp)
      · exact .between (by simp [hl, Loop.inPass]) rfl (by simp [Loop.over]) id (by simp) (by simp)
    · exact .rest
  | stopReturns =>
    simp only [poolStep]
    split
    · rename_i hl
      split
      · exact .rest
      · exact .between (by simp [hl, Loop.inPass]) rfl (by simp [Loop.over]) id (by simp) (by simp)
    · exact .rest
  | stop =>
    simp only [poolStep]
    split
    · exact .stop
    · exact .rest
  | stopSends =>
    simp only [poolStep]
    split
    · exact .signal
    · exact .rest
  | stopCancels =>
    simp only [poolStep]
    split
    · exact .cancel (.inl rfl)
    · exact .rest
  | cancel => exact .cancel (.inr rfl)

end Ego.Projection

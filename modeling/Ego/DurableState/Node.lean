import Ego.Lib.Except
import Ego.Lib.Runs
import Ego.DurableState.Actor

/-!
# A durable-state actor and its record

A `Node` is one incarnation after another of the actor of an entity.
-/

namespace Ego.DurableState
open Persistence Protocol Lib

/-- What happens to a write: the store decides and says so, it is out of reach,
or it decides and the answer is lost. -/
inductive Outcome where
  | store
  | fail (err : Err)
  | lost (err : Err)
  deriving DecidableEq, Repr

def Outcome.reaches : Outcome → Bool
  | .fail _ => false
  | _ => true

structure Node (S : Type) where
  -- the running actor, if there is one
  actor : Option (Actor S)
  -- a command failed with this error, and the actor reads its record again
  recovering : Option Err
  replies : List CommandReply
  flushed : List DurableState
  deriving DecidableEq

inductive Label (C : Type) where
  | start (readErr : Option Err)
  | command (ctx : Ctx) (cmd : C) (turn : Turn) (outcome : Outcome)
  | recover (readErr : Option Err)
  | getState (ctx : Ctx)
  | stop (outcome : Outcome)
  deriving DecidableEq, Repr

section
variable {S C : Type}

def Node.idle : Node S := ⟨none, none, [], []⟩

def Node.reply (n : Node S) (reply : CommandReply) : Node S :=
  { n with replies := n.replies ++ [reply] }

variable (cfg : Config S C) (store : StateStore)

def readRecord (readErr : Option Err) (record : Option DurableState) : Except Err (Option DurableState) :=
  match readErr with
  | some err => .error err
  | none => store.getLatestState cfg.scope record

def writeRecord (outcome : Outcome) (record : Option DurableState) (state : DurableState)
    (p : WritePrecondition) : Except Err Unit × Option DurableState :=
  match outcome, store.writeState cfg.scope record state p with
  | .fail err, _ => (.error err, record)
  | .store, .ok record => (.ok (), record)
  | .store, .error err => (.error err, record)
  | .lost err, .ok record => (.error err, record)
  | .lost err, .error _ => (.error err, record)

def accepts (outcome : Outcome) (record : Option DurableState) (p : WritePrecondition) : Bool :=
  outcome.reaches && cfg.scope.valid && decide (p.Holds (storedVersion record))

/-- The end of a command whose write has failed, unless the actor has to recover. -/
def failCommand (a : Actor S) (err : Err) (n : Node S) : Node S :=
  if provablyInSyncAfterConflict a err then n.reply (.errorReply err)
  else { n with recovering := some err }

def commandStep (a : Actor S) (ctx : Ctx) (cmd : C) (turn : Turn) (outcome : Outcome) (n : Node S)
    (record : Option DurableState) : Node S × Option DurableState :=
  match processCommand cfg a ctx cmd turn with
  | .error err => (n.reply (.errorReply err), record)
  | .ok c =>
    match writeRecord cfg store outcome record (c.durableState cfg) c.precondition with
    | (.error err, record) => (failCommand a err n, record)
    | (.ok (), record) =>
      let (a, reply) := sendStateReply cfg (commitState cfg a c)
      ({ n.reply reply with actor := some a }, record)

def postStop (a : Actor S) (outcome : Outcome) (n : Node S) (record : Option DurableState) :
    Node S × Option DurableState :=
  if flushesOnStop cfg a then
    let state := flushedState cfg a
    ({ n with actor := none, flushed := n.flushed ++ [state] },
      (writeRecord cfg store outcome record state .unconditional).2)
  else ({ n with actor := none }, record)

def nodeStep (n : Node S) (record : Option DurableState) : Label C → Node S × Option DurableState
  | .start readErr =>
    match n.actor, recoverFromStore cfg (spawned cfg) (readRecord cfg store readErr record) with
    | none, (a, .ok ()) => ({ n with actor := some a }, record)
    | _, _ => (n, record)
  | .command ctx cmd turn outcome =>
    match n.actor, n.recovering with
    | some a, none => commandStep cfg store a ctx cmd turn outcome n record
    | _, _ => (n, record)
  | .recover readErr =>
    match n.actor, n.recovering with
    | some a, some err =>
      let a := (recoverFromStore cfg a (readRecord cfg store readErr record)).1
      ({ n.reply (.errorReply err) with actor := some a, recovering := none }, record)
    | _, _ => (n, record)
  | .getState ctx =>
    match n.actor, n.recovering with
    | some a, none =>
      let (a, reply) := getStateAndReply cfg a ctx
      ({ n.reply reply with actor := some a }, record)
    | _, _ => (n, record)
  | .stop outcome =>
    match n.actor, n.recovering with
    | some a, none => postStop cfg store a outcome n record
    | _, _ => (n, record)

inductive Move (n : Node S) (record : Option DurableState) :
    Label C → Node S → Option DurableState → Prop
  | idle {l} : Move n record l n record
  | refused {l err} : Move n record l (n.reply (.errorReply err)) record
  | started {readErr a} (hn : n.actor = none)
      (hr : recoverFromStore cfg (spawned cfg) (readRecord cfg store readErr record) = (a, .ok ())) :
      Move n record (.start readErr) { n with actor := some a } record
  -- the store does not take the write, or cannot say that it does
  | rejected {ctx cmd turn outcome a c err} (ha : n.actor = some a) (hi : n.recovering = none)
      (hc : processCommand cfg a ctx cmd turn = .ok c)
      (hw : accepts cfg outcome record c.precondition = false) :
      Move n record (.command ctx cmd turn outcome) (failCommand a err n) record
  | lost {ctx cmd turn outcome a c err} (ha : n.actor = some a) (hi : n.recovering = none)
      (hc : processCommand cfg a ctx cmd turn = .ok c)
      (hw : accepts cfg outcome record c.precondition = true) :
      Move n record (.command ctx cmd turn outcome) (failCommand a err n)
        (some (c.durableState cfg))
  | committed {ctx cmd turn outcome a c} (ha : n.actor = some a) (hi : n.recovering = none)
      (hc : processCommand cfg a ctx cmd turn = .ok c)
      (hw : accepts cfg outcome record c.precondition = true) :
      Move n record (.command ctx cmd turn outcome)
        { n.reply (sendStateReply cfg (commitState cfg a c)).2 with
          actor := some (sendStateReply cfg (commitState cfg a c)).1 }
        (some (c.durableState cfg))
  | recovered {readErr a err} (ha : n.actor = some a) (hi : n.recovering = some err) :
      Move n record (.recover readErr)
        { n.reply (.errorReply err) with
          actor := some (recoverFromStore cfg a (readRecord cfg store readErr record)).1
          recovering := none } record
  | read {ctx a} (ha : n.actor = some a) (hi : n.recovering = none) :
      Move n record (.getState ctx)
        { n.reply (sendStateReply cfg a).2 with actor := some (sendStateReply cfg a).1 } record
  | unflushed {outcome a} (ha : n.actor = some a) (hi : n.recovering = none)
      (hf : flushesOnStop cfg a = false) :
      Move n record (.stop outcome) { n with actor := none } record
  | flushRejected {outcome a} (ha : n.actor = some a) (hi : n.recovering = none)
      (hf : flushesOnStop cfg a = true)
      (hw : accepts cfg outcome record .unconditional = false) :
      Move n record (.stop outcome)
        { n with actor := none, flushed := n.flushed ++ [flushedState cfg a] } record
  | flushed {outcome a} (ha : n.actor = some a) (hi : n.recovering = none)
      (hf : flushesOnStop cfg a = true)
      (hw : accepts cfg outcome record .unconditional = true) :
      Move n record (.stop outcome)
        { n with actor := none, flushed := n.flushed ++ [flushedState cfg a] }
        (some (flushedState cfg a))

variable {cfg store} {n : Node S} {record : Option DurableState}

theorem failCommand_actor (a : Actor S) (err : Err) (n : Node S) : (failCommand a err n).actor = n.actor := by
  unfold failCommand
  split <;> rfl

variable (store) in
theorem writeRecord_of_accepts {outcome : Outcome} {p : WritePrecondition}
    (h : accepts cfg outcome record p = true) (state : DurableState) :
    writeRecord cfg store outcome record state p = (.ok (), some state) ∨
      ∃ err, writeRecord cfg store outcome record state p = (.error err, some state) := by
  simp only [accepts, Bool.and_eq_true, decide_eq_true_iff] at h
  have hw := (store.write_ok cfg.scope record state p _).mpr ⟨h.1.2, h.2, rfl⟩
  cases outcome with
  | store => exact .inl (by simp only [writeRecord, hw])
  | fail err => exact absurd h.1.1 (by simp [Outcome.reaches])
  | lost err => exact .inr ⟨err, by simp only [writeRecord, hw]⟩

variable (store) in
theorem writeRecord_of_not_accepts {outcome : Outcome} {p : WritePrecondition}
    (h : accepts cfg outcome record p = false) (state : DurableState) :
    ∃ err, writeRecord cfg store outcome record state p = (.error err, record) := by
  cases hw : store.writeState cfg.scope record state p with
  | error err =>
    cases outcome with
    | store => exact ⟨err, by simp only [writeRecord, hw]⟩
    | fail err' => exact ⟨err', by simp only [writeRecord]⟩
    | lost err' => exact ⟨err', by simp only [writeRecord, hw]⟩
  | ok new =>
    obtain ⟨hs, hp, -⟩ := (store.write_ok cfg.scope record state p new).mp hw
    cases outcome with
    | fail err' => exact ⟨err', by simp only [writeRecord]⟩
    | store | lost => simp [accepts, Outcome.reaches, hs, hp] at h

theorem commandStep_move {a : Actor S} (ctx : Ctx) (cmd : C) (turn : Turn) (outcome : Outcome)
    (ha : n.actor = some a) (hi : n.recovering = none) : Move cfg store n record (.command ctx cmd turn outcome)
      (commandStep cfg store a ctx cmd turn outcome n record).1
      (commandStep cfg store a ctx cmd turn outcome n record).2 := by
  unfold commandStep
  cases hc : processCommand cfg a ctx cmd turn with
  | error err => exact .refused
  | ok c =>
    cases hw : accepts cfg outcome record c.precondition with
    | true =>
      rcases writeRecord_of_accepts store hw (c.durableState cfg) with h | ⟨err, h⟩
      · simp only [h]
        exact .committed ha hi hc hw
      · simp only [h]
        exact .lost ha hi hc hw
    | false =>
      obtain ⟨err, h⟩ := writeRecord_of_not_accepts store hw (c.durableState cfg)
      simp only [h]
      exact .rejected ha hi hc hw

theorem postStop_move {a : Actor S} (outcome : Outcome) (ha : n.actor = some a) (hi : n.recovering = none) :
    Move cfg store n record (.stop outcome) (postStop cfg store a outcome n record).1
      (postStop cfg store a outcome n record).2 := by
  unfold postStop
  cases hf : flushesOnStop cfg a with
  | false => exact .unflushed ha hi hf
  | true =>
    cases hw : accepts cfg outcome record .unconditional with
    | true =>
      have h : (writeRecord cfg store outcome record (flushedState cfg a) .unconditional).2 =
          some (flushedState cfg a) := by
        rcases writeRecord_of_accepts store hw (flushedState cfg a) with h | ⟨err, h⟩ <;>
          rw [h]
      simp only [if_true, h]
      exact .flushed ha hi hf hw
    | false =>
      obtain ⟨err, h⟩ := writeRecord_of_not_accepts store hw (flushedState cfg a)
      simp only [if_true, h]
      exact .flushRejected ha hi hf hw

variable (store) in
theorem nodeStep_move (n : Node S) (record : Option DurableState) (l : Label C) :
    Move cfg store n record l (nodeStep cfg store n record l).1 (nodeStep cfg store n record l).2 := by
  cases l with
  | start readErr =>
    simp only [nodeStep]
    split
    · rename_i a hn hr
      exact .started hn hr
    · exact .idle
  | command ctx cmd turn outcome =>
    simp only [nodeStep]
    split
    · rename_i a ha hi
      exact commandStep_move ctx cmd turn outcome ha hi
    · exact .idle
  | recover readErr =>
    simp only [nodeStep]
    split
    · rename_i a err ha hi
      exact .recovered ha hi
    · exact .idle
  | getState ctx =>
    simp only [nodeStep, getStateAndReply]
    split
    · rename_i a ha hi
      cases tenantGate cfg a ctx with
      | error err =>
        have h : { n.reply (.errorReply err) with actor := some a } = n.reply (.errorReply err) := by
          rw [← ha]
          rfl
        simp only [h]
        exact .refused
      | ok _ => exact .read ha hi
    · exact .idle
  | stop outcome =>
    simp only [nodeStep]
    split
    · rename_i a ha hi
      exact postStop_move outcome ha hi
    · exact .idle

end

end Ego.DurableState

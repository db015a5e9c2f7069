import Ego.Lib.Runs
import Ego.Saga.Actor

/-! # A saga and its journal -/

namespace Ego.Saga
open Persistence Protocol

structure Node (S C : Type) where
  -- the running actor, if there is one
  actor : Option (Actor S)
  tasks : List (Task C)
  sent : List (Dispatch C)
  replies : List SagaReply
  deriving DecidableEq

inductive Label (C : Type) where
  | start (pingErr : Option Err)
  -- an event of the stream, a request for the state, any other message
  | event (event : Event) (env : Surroundings)
  | getState (ctx : Ctx)
  | command (ctx : Ctx) (cmd : C)
  | timeout
  -- the next command of the turn is sent and answered
  | send (op : Option String) (answer : Answer) (env : Surroundings)
  | proceed
  | stop

section
variable {S C M : Type}

def Node.idle : Node S C := ⟨none, [], [], []⟩

def Node.reply (n : Node S C) (reply : SagaReply) : Node S C := { n with replies := n.replies ++ [reply] }

variable (cfg : Config S C M) (store : EventsStore)

def Node.ready (n : Node S C) : Option (Actor S) := if n.tasks.isEmpty then n.actor else none

def sendNext (a : Actor S) (op : Option String) (answer : Answer) (env : Surroundings) (n : Node S C)
    (log : Option EventLog) : Node S C × Option EventLog :=
  match n.tasks with
  | .send ctx cmd :: rest =>
    let r := processAction cfg store a ctx (handleAnswer cfg a ctx cmd.entityID answer) env log
    ({ n with actor := some r.actor, tasks := r.tasks ++ rest, sent := n.sent ++ [dispatch cfg ctx cmd op] }, r.log)
  | .compensate ctx (cmd :: cmds) :: rest =>
    let n := { n with sent := n.sent ++ [dispatch cfg ctx cmd op] }
    match answer with
    | .failed _ => ({ n with actor := some { a with status := .failed }, tasks := rest }, log)
    | _ => ({ n with tasks := .compensate ctx cmds :: rest }, log)
  | _ => (n, log)

def proceed (a : Actor S) (n : Node S C) : Node S C :=
  match n.tasks with
  | .finish _ true _ :: rest => { n with actor := some { a with status := .completed }, tasks := rest }
  | .finish ctx false true :: rest =>
    let r := compensate cfg { a with status := .compensating } ctx
    { n with actor := some r.1, tasks := r.2 ++ rest }
  | .finish _ false false :: rest => { n with tasks := rest }
  | .compensate _ [] :: rest => { n with actor := some { a with status := .completed }, tasks := rest }
  | _ => n

def nodeStep (n : Node S C) (log : Option EventLog) : Label C → Node S C × Option EventLog
  | .start pingErr =>
    match n.actor, pingErr, recover cfg store log with
    | none, none, .ok a => ({ n with actor := some a }, log)
    | _, _, _ => (n, log)
  | .event event env =>
    match n.ready with
    | none => (n, log)
    | some a =>
      -- `consumeEvents` does not forward the saga's own events
      if event.persistenceId = cfg.sagaID then (n, log)
      else
        let r := handleStreamEvent cfg store a event env log
        ({ n with actor := some r.actor, tasks := r.tasks }, r.log)
  | .getState ctx =>
    match n.ready with
    | none => (n, log)
    | some a => (n.reply (getStateAndReply cfg a ctx), log)
  | .command _ _ => (n, log)
  | .timeout =>
    match n.ready with
    | none => (n, log)
    | some a =>
      let r := handleTimeout cfg a
      ({ n with actor := some r.1, tasks := r.2 }, log)
  | .send op answer env =>
    match n.actor with
    | none => (n, log)
    | some a => sendNext cfg store a op answer env n log
  | .proceed =>
    match n.actor with
    | none => (n, log)
    | some a => (proceed cfg a n, log)
  | .stop => ({ n with actor := none, tasks := [] }, log)

end

end Ego.Saga

import Ego.Lib.Insertion
import Ego.DurableState.Node

/-! # Messages of other tenants -/

namespace Ego.DurableState
open Persistence Protocol Lib
open Tenancy (TenantContext)

section
variable {S C : Type} {cfg : Config S C} {store : StateStore} {bound : TenantContext}

def Node.withReplies (n : Node S) (replies : List CommandReply) : Node S := { n with replies := replies }

def IgnoresReplies (cfg : Config S C) (store : StateStore) (n : Node S) (record : Option DurableState)
    (l : Label C) : Prop :=
  ∃ added, ∀ replies, nodeStep cfg store (n.withReplies replies) record l =
    ((nodeStep cfg store n record l).1.withReplies (replies ++ added), (nodeStep cfg store n record l).2)

theorem nodeStep_ignoresReplies (n : Node S) (record : Option DurableState) (l : Label C) :
    IgnoresReplies cfg store n record l := by
  obtain ⟨actor, recovering, replies₀, flushed⟩ := n
  have hquiet (m : Node S) (record' : Option DurableState)
      (h : ∀ replies, nodeStep cfg store ⟨actor, recovering, replies, flushed⟩ record l =
        (m.withReplies replies, record')) :
      IgnoresReplies cfg store ⟨actor, recovering, replies₀, flushed⟩ record l :=
    ⟨[], fun replies => by rw [h replies₀, List.append_nil]; exact h replies⟩
  have hanswer (m : Node S) (record' : Option DurableState) (reply : CommandReply)
      (h : ∀ replies, nodeStep cfg store ⟨actor, recovering, replies, flushed⟩ record l =
        (m.withReplies (replies ++ [reply]), record')) :
      IgnoresReplies cfg store ⟨actor, recovering, replies₀, flushed⟩ record l :=
    ⟨[reply], fun replies => by rw [h replies₀]; exact h replies⟩
  cases l with
  | start readErr =>
    cases actor with
    | some a => exact hquiet ⟨some a, recovering, [], flushed⟩ record fun _ => rfl
    | none =>
      cases hr : recoverFromStore cfg (spawned cfg) (readRecord cfg store readErr record) with
      | mk a result =>
        cases result with
        | error err => exact hquiet ⟨none, recovering, [], flushed⟩ record fun _ => by simp [nodeStep, hr,
            Node.withReplies]
        | ok _ => exact hquiet ⟨some a, recovering, [], flushed⟩ record fun _ => by simp [nodeStep, hr,
            Node.withReplies]
  | command ctx cmd turn outcome =>
    cases actor with
    | none => exact hquiet ⟨none, recovering, [], flushed⟩ record fun _ => rfl
    | some a =>
      cases recovering with
      | some err => exact hquiet ⟨some a, some err, [], flushed⟩ record fun _ => rfl
      | none =>
        cases hc : processCommand cfg a ctx cmd turn with
        | error err =>
          exact hanswer ⟨some a, none, [], flushed⟩ record (.errorReply err) fun _ => by
            simp [nodeStep, commandStep, hc, Node.reply, Node.withReplies]
        | ok c =>
          cases hw : writeRecord cfg store outcome record (c.durableState cfg) c.precondition with
          | mk result record' =>
            cases result with
            | ok _ =>
              exact hanswer ⟨some (sendStateReply cfg (commitState cfg a c)).1, none, [], flushed⟩ record'
                (sendStateReply cfg (commitState cfg a c)).2 fun _ => by
                  simp [nodeStep, commandStep, hc, hw, Node.reply, Node.withReplies]
            | error err =>
              by_cases hsync : provablyInSyncAfterConflict a err = true
              · exact hanswer ⟨some a, none, [], flushed⟩ record' (.errorReply err) fun _ => by
                  simp [nodeStep, commandStep, hc, hw, failCommand, hsync, Node.reply, Node.withReplies]
              · exact hquiet ⟨some a, some err, [], flushed⟩ record' fun _ => by
                  simp [nodeStep, commandStep, hc, hw, failCommand, hsync, Node.withReplies]
  | recover readErr =>
    cases actor with
    | none => exact hquiet ⟨none, recovering, [], flushed⟩ record fun _ => rfl
    | some a =>
      cases recovering with
      | none => exact hquiet ⟨some a, none, [], flushed⟩ record fun _ => rfl
      | some err =>
        exact hanswer ⟨some (recoverFromStore cfg a (readRecord cfg store readErr record)).1, none, [], flushed⟩
          record (.errorReply err) fun _ => rfl
  | getState ctx =>
    cases actor with
    | none => exact hquiet ⟨none, recovering, [], flushed⟩ record fun _ => rfl
    | some a =>
      cases recovering with
      | some err => exact hquiet ⟨some a, some err, [], flushed⟩ record fun _ => rfl
      | none =>
        exact hanswer ⟨some (getStateAndReply cfg a ctx).1, none, [], flushed⟩ record
          (getStateAndReply cfg a ctx).2 fun _ => rfl
  | stop outcome =>
    cases actor with
    | none => exact hquiet ⟨none, recovering, [], flushed⟩ record fun _ => rfl
    | some a =>
      cases recovering with
      | some err => exact hquiet ⟨some a, some err, [], flushed⟩ record fun _ => rfl
      | none =>
        by_cases hf : flushesOnStop cfg a = true
        · exact hquiet ⟨none, none, [], flushed ++ [flushedState cfg a]⟩
            (writeRecord cfg store outcome record (flushedState cfg a) .unconditional).2 fun _ => by
              simp [nodeStep, postStop, hf, Node.withReplies]
        · exact hquiet ⟨none, none, [], flushed⟩ record fun _ => by simp [nodeStep, postStop, hf, Node.withReplies]

variable {n n₁ n₂ : Node S} {record : Option DurableState} {reply : CommandReply}

def Unmoved (reply : CommandReply) (n₁ n₂ : Node S) : Prop :=
  n₁ = n₂ ∨ ∃ before after, n₂.replies = before ++ after ∧
    n₁ = n₂.withReplies (before ++ reply :: after)

theorem Unmoved.step (l : Label C) (h : Unmoved reply n₁ n₂) :
    Unmoved reply (nodeStep cfg store n₁ record l).1 (nodeStep cfg store n₂ record l).1 ∧
      (nodeStep cfg store n₁ record l).2 = (nodeStep cfg store n₂ record l).2 := by
  obtain ⟨added, hadded⟩ := @nodeStep_ignoresReplies S C cfg store n₂ record l
  rcases h with rfl | ⟨before, after, hr, rfl⟩
  · exact ⟨.inl rfl, rfl⟩
  · have hsame := congrArg (·.1.replies) (hadded n₂.replies)
    have hsame : (nodeStep cfg store n₂ record l).1.replies = n₂.replies ++ added := hsame
    rw [hadded]
    refine ⟨.inr ⟨before, after ++ added, ?_, ?_⟩, rfl⟩
    · rw [hsame, hr, List.append_assoc]
    · simp [Node.withReplies]

end

end Ego.DurableState

import Ego.Lib.Insertion
import Ego.Saga.Node

/-! # Messages of other tenants -/

namespace Ego.Saga
open Persistence Lib
open Tenancy (TenantContext)

section
variable {S C M : Type} {cfg : Config S C M} {store : EventsStore} {bound : TenantContext}
  {n n₁ n₂ : Node S C} {log : Option EventLog} {reply : SagaReply}

def Node.withReplies (n : Node S C) (replies : List SagaReply) : Node S C := { n with replies := replies }

theorem sendNext_withReplies (a : Actor S) (op : Option String) (answer : Answer) (env : Surroundings)
    (n : Node S C) (log : Option EventLog) (replies : List SagaReply) :
    sendNext cfg store a op answer env (n.withReplies replies) log =
      ((sendNext cfg store a op answer env n log).1.withReplies replies,
        (sendNext cfg store a op answer env n log).2) := by
  obtain ⟨actor, tasks, sent, replies₀⟩ := n
  match tasks with
  | [] | .send _ _ :: _ | .finish _ _ _ :: _ | .compensate _ [] :: _ => rfl
  | .compensate ctx (cmd :: cmds) :: rest => cases answer <;> rfl

theorem proceed_withReplies (a : Actor S) (n : Node S C) (replies : List SagaReply) :
    proceed cfg a (n.withReplies replies) = (proceed cfg a n).withReplies replies := by
  obtain ⟨actor, tasks, sent, replies₀⟩ := n
  match tasks with
  | [] | .send _ _ :: _ | .compensate _ [] :: _ | .compensate _ (_ :: _) :: _ => rfl
  | .finish _ true _ :: _ | .finish _ false true :: _ | .finish _ false false :: _ => rfl

theorem nodeStep_withReplies (n : Node S C) (log : Option EventLog) (l : Label C) :
    ∃ added, ∀ replies, nodeStep cfg store (n.withReplies replies) log l =
      ((nodeStep cfg store n log l).1.withReplies (replies ++ added), (nodeStep cfg store n log l).2) := by
  have hready (replies : List SagaReply) : (n.withReplies replies).ready = n.ready := rfl
  have hactor (replies : List SagaReply) : (n.withReplies replies).actor = n.actor := rfl
  cases l with
  | getState ctx =>
    cases hr : n.ready with
    | none => exact ⟨[], fun replies => by simp [nodeStep, hready, hr]⟩
    | some a =>
      refine ⟨[getStateAndReply cfg a ctx], fun replies => ?_⟩
      simp only [nodeStep, hready, hr]
      rfl
  | command ctx cmd => exact ⟨[], fun replies => by simp [nodeStep]⟩
  | stop => exact ⟨[], fun replies => by simp [nodeStep, Node.withReplies]⟩
  | start pingErr =>
    refine ⟨[], fun replies => ?_⟩
    rw [List.append_nil]
    simp only [nodeStep, hactor]
    split <;> rfl
  | event e env =>
    refine ⟨[], fun replies => ?_⟩
    rw [List.append_nil]
    simp only [nodeStep, hready]
    split
    · rfl
    · split <;> rfl
  | timeout =>
    refine ⟨[], fun replies => ?_⟩
    rw [List.append_nil]
    simp only [nodeStep, hready]
    split <;> rfl
  | send op answer env =>
    refine ⟨[], fun replies => ?_⟩
    rw [List.append_nil]
    simp only [nodeStep, hactor]
    split
    · rfl
    · exact sendNext_withReplies _ op answer env n log replies
  | proceed =>
    refine ⟨[], fun replies => ?_⟩
    rw [List.append_nil]
    simp only [nodeStep, hactor]
    split
    · rfl
    · rw [proceed_withReplies]

theorem bindOrVerify_bound {a b : Actor S} {ctx : Option TenantContext} (haware : cfg.tenantAware = true)
    (hb : a.boundTenant ≠ .unset) (h : bindOrVerify cfg a ctx = .ok b) : b = a ∧ ctx = some a.boundTenant := by
  simp only [bindOrVerify, haware, Bool.not_true, Bool.false_eq_true, if_false, hb, bind_eq_ok] at h
  obtain ⟨tc, htc, h⟩ := h
  obtain ⟨_, hv, rfl⟩ := map_eq_ok.mp h
  refine ⟨rfl, ?_⟩
  have heq : a.boundTenant = tc := by
    by_contra hne
    simp [Tenancy.verifyUnchanged, hne] at hv
  subst heq
  cases ctx with
  | none => simp [Tenancy.require] at htc
  | some tc =>
    simp only [Tenancy.require] at htc
    split at htc
    · exact congrArg some (Except.ok.inj htc)
    · simp at htc

theorem persistAndApplyEvents_boundTenant {a b : Actor S} {ctx : Option TenantContext} {events : List M}
    {env : Surroundings} {log' : Option EventLog}
    (h : persistAndApplyEvents cfg store a ctx events env log = (.ok b, log')) : b.boundTenant = a.boundTenant := by
  unfold persistAndApplyEvents at h
  split at h
  · simp at h
  · split at h
    · simp at h
    · split at h
      · simp at h
      · rw [← Except.ok.inj (Prod.mk.inj h).1]

theorem processAction_boundTenant (a : Actor S) (ctx : Option TenantContext) (action : Option (SagaAction C M))
    (env : Surroundings) (log : Option EventLog) :
    (processAction cfg store a ctx action env log).actor.boundTenant = a.boundTenant := by
  unfold processAction
  split
  · rfl
  · split
    · rfl
    · split
      · rfl
      · rename_i hp
        exact persistAndApplyEvents_boundTenant hp

def Unmoved (reply : SagaReply) (n₁ n₂ : Node S C) : Prop :=
  n₁ = n₂ ∨ ∃ before after, n₂.replies = before ++ after ∧
    n₁ = n₂.withReplies (before ++ reply :: after)

theorem Unmoved.step (l : Label C) (h : Unmoved reply n₁ n₂) :
    Unmoved reply (nodeStep cfg store n₁ log l).1 (nodeStep cfg store n₂ log l).1 ∧
      (nodeStep cfg store n₁ log l).2 = (nodeStep cfg store n₂ log l).2 := by
  obtain ⟨added, hadded⟩ := @nodeStep_withReplies S C M cfg store n₂ log l
  rcases h with rfl | ⟨before, after, hr, rfl⟩
  · exact ⟨.inl rfl, rfl⟩
  · have hsame := congrArg (·.1.replies) (hadded n₂.replies)
    have hsame : (nodeStep cfg store n₂ log l).1.replies = n₂.replies ++ added := hsame
    rw [hadded]
    refine ⟨.inr ⟨before, after ++ added, ?_, ?_⟩, rfl⟩
    · rw [hsame, hr, List.append_assoc]
    · simp [Node.withReplies]

end

end Ego.Saga

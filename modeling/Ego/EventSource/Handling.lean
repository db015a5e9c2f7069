import Ego.EventSource.Envelopes

/-!
# How a command is handled, in both modes

`processCommandAndReply` and `processAndBatch` take the same decisions.
-/

namespace Ego.EventSource
open Persistence Protocol Lib
open Tenancy (TenantContext)

section
variable {S C E : Type} (cfg : Config S C E)

def gates (tenant : TenantContext) (ctx : Ctx) (turn : Turn) : Except Err TenantContext := do
  let tc ← Tenancy.gate cfg.tenantAware tenant ctx.tenant
  checkDeadline turn.beforeHandler "before handler execution"
  return tc

def handlerResult (tc : TenantContext) (turn : Turn) (state : S) (counter : ℕ) (ctx : Ctx) (cmd : C) :
    Except Err (Option (List Event × S × ℕ)) := do
  match ← dispatchToBehavior cfg ctx cmd state with
  | [] => return none
  | event :: events =>
    let built ← buildEnvelopes cfg tc turn.now (event :: events) state counter
    checkDeadline turn.beforePersistence "before persistence"
    return some built

def joined (a : Actor S) (ctx : Ctx) : Actor S :=
  { a with
    batchHasPrecondition :=
      a.batchHasPrecondition || (!a.batchEntries.isEmpty && ctx.expectedRevision.isSome) }

theorem joined_of_nil {a : Actor S} (ctx : Ctx) (h : a.batchEntries = []) : joined a ctx = a := by
  have hsame : (a.batchHasPrecondition || (!a.batchEntries.isEmpty && ctx.expectedRevision.isSome)) =
      a.batchHasPrecondition := by simp [h]
  unfold joined
  rw [hsame]

theorem joined_of_none {a : Actor S} {ctx : Ctx} (h : ctx.expectedRevision = none) : joined a ctx = a := by
  unfold joined
  rw [h, Option.isSome_none, Bool.and_false, Bool.or_false]

def foldedHasPrecondition (a : Actor S) (ctx : Ctx) : Bool :=
  if a.batchEntries = [] then ctx.expectedRevision.isSome else (joined a ctx).batchHasPrecondition

def foldedBase (a : Actor S) (ctx : Ctx) : ℕ :=
  if a.batchEntries = [] then ctx.expectedRevision.getD a.eventsCounter else a.batchBase

def folded (a : Actor S) (tc : TenantContext) (ctx : Ctx) (turn : Turn) (envelopes : List Event)
    (state : S) (counter : ℕ) : Actor S :=
  foldInto cfg a (establishActorTenant cfg a tc).actorTenant (foldedHasPrecondition a ctx)
    (foldedBase a ctx) envelopes state counter turn.now

theorem establishActorTenant_actor (a : Actor S) (tc : TenantContext) :
    establishActorTenant cfg a tc = { a with actorTenant := (establishActorTenant cfg a tc).actorTenant } := by
  unfold establishActorTenant
  split <;> rfl

theorem verifyTenantForPersist_of_gate {tenant tc : TenantContext} {ctx : Ctx}
    (h : Tenancy.gate cfg.tenantAware tenant ctx.tenant = .ok tc) : verifyTenantForPersist cfg ctx = .ok () := by
  unfold Tenancy.gate at h
  unfold verifyTenantForPersist
  split at h
  · rename_i haware
    rw [if_pos haware]
    cases hr : Tenancy.require ctx.tenant with
    | error err => simp [hr] at h
    | ok tc => rfl
  · rename_i haware
    rw [if_neg haware]

theorem processCommandAndReply_eq (a : Actor S) (ctx : Ctx) (cmd : C) (turn : Turn) :
    processCommandAndReply cfg a ctx cmd turn = match gates cfg a.actorTenant ctx turn with
      | .error err => (a, [sendErrorReply err])
      | .ok tc =>
        match handlerResult cfg tc turn a.currentState a.eventsCounter ctx cmd with
        | .error err => (a, [.handle, sendErrorReply err])
        | .ok none => ((sendStateReply cfg a).1, [.handle, .response (currentReply cfg a)])
        | .ok (some (envelopes, state, counter)) =>
          ({ establishActorTenant cfg a tc with
              directPendingState := some state
              directPendingCounter := counter
              directPendingTime := turn.now
              phase := .persisting },
            [.handle, .stage envelopes (pendingReply cfg state counter turn.now), .stash,
              .pipeTo ⟨envelopes, preconditionFromRevision ctx.expectedRevision, cfg.scope⟩]) := by
  unfold processCommandAndReply gates handlerResult tenantGate
  cases hgate : Tenancy.gate cfg.tenantAware a.actorTenant ctx.tenant with
  | error err => rfl
  | ok tc =>
    cases checkDeadline turn.beforeHandler "before handler execution" with
    | error err => rfl
    | ok _ =>
      simp only [Bind.bind, Except.bind, Pure.pure, Except.pure]
      cases dispatchToBehavior cfg ctx cmd a.currentState with
      | error err => rfl
      | ok events =>
        cases events with
        | nil => rfl
        | cons event events =>
          simp only
          cases buildEnvelopes cfg tc turn.now (event :: events) a.currentState a.eventsCounter with
          | error err => rfl
          | ok built =>
            simp only [verifyTenantForPersist_of_gate cfg hgate]
            cases checkDeadline turn.beforePersistence "before persistence" with
            | error err => rfl
            | ok _ => rfl

theorem appendToBatch_joined {a : Actor S} {ctx : Ctx} (tc : TenantContext) (turn : Turn)
    (envelopes : List Event) (state : S) (counter : ℕ) :
    appendToBatch cfg (establishActorTenant cfg (joined a ctx) tc) ctx envelopes state counter turn =
      folded cfg a tc ctx turn envelopes state counter := by
  have hsame : (establishActorTenant cfg (joined a ctx) tc).actorTenant =
      (establishActorTenant cfg a tc).actorTenant := by
    unfold establishActorTenant joined
    split <;> simp_all
  rw [establishActorTenant_actor, hsame]
  by_cases he : a.batchEntries = []
  · simp [appendToBatch, folded, foldInto, foldedHasPrecondition, foldedBase, latestCounter, joined, he]
  · simp [appendToBatch, folded, foldInto, foldedHasPrecondition, foldedBase, joined, he]

theorem processAndBatch_eq (a : Actor S) (ctx : Ctx) (cmd : C) (turn : Turn) :
    processAndBatch cfg a ctx cmd turn = match gates cfg a.actorTenant ctx turn with
      | .error err => (a, [sendErrorReply err])
      | .ok tc =>
        if inadmissible a ctx then
          ((flushBatch cfg a).1, (flushBatch cfg a).2 ++ [.stash])
        else
          match handlerResult cfg tc turn (latestState a) (latestCounter a) ctx cmd with
          | .error err => (joined a ctx, [.handle, sendErrorReply err])
          | .ok none =>
            if a.batchEntries = [] then
              ((sendStateReply cfg a).1, [.handle, .response (currentReply cfg a)])
            else
              (joined a ctx, [.handle, .response (.stateReply
                ⟨cfg.persistenceID, cfg.codec.newState (latestState a), latestCounter a, a.lastCommandTime⟩)])
          | .ok (some (envelopes, state, counter)) =>
            let a' := folded cfg a tc ctx turn envelopes state counter
            let marks : List Effect :=
              [.handle, .stage envelopes (pendingReply cfg state counter turn.now), .stash]
            if (a'.batchNumEvents : ℤ) ≥ cfg.batchThreshold then
              ((flushBatch cfg a').1, marks ++ (flushBatch cfg a').2)
            else ((startFlushTimer a' turn).1, marks ++ (startFlushTimer a' turn).2) := by
  have hjoined : (if a.batchEntries ≠ [] ∧ ctx.expectedRevision.isSome then
      { a with batchHasPrecondition := true } else a) = joined a ctx := by
    split
    · rename_i h
      simp [joined, h]
    · rename_i h
      cases hr : ctx.expectedRevision with
      | none => rw [joined_of_none hr]
      | some r => rw [joined_of_nil ctx (by simpa [hr] using h)]
  unfold processAndBatch gates handlerResult tenantGate
  cases Tenancy.gate cfg.tenantAware a.actorTenant ctx.tenant with
  | error err => rfl
  | ok tc =>
    cases checkDeadline turn.beforeHandler "before handler execution" with
    | error err => rfl
    | ok _ =>
      simp only [Bind.bind, Except.bind, Pure.pure, Except.pure, hjoined]
      split
      · rfl
      cases dispatchToBehavior cfg ctx cmd (latestState a) with
      | error err => rfl
      | ok events =>
        cases events with
        | nil =>
          by_cases he : a.batchEntries = []
          · simp only [joined_of_nil ctx he, he, if_true]
            rfl
          · have he' : (joined a ctx).batchEntries ≠ [] := he
            simp only [he, he', if_false]
            rfl
        | cons event events =>
          simp only
          cases buildEnvelopes cfg tc turn.now (event :: events) (latestState a) (latestCounter a) with
          | error err => rfl
          | ok built =>
            cases checkDeadline turn.beforePersistence "before persistence" with
            | error err => rfl
            | ok _ =>
              simp only [appendToBatch_joined]

variable {cfg}

theorem handlerResult_spec {tc : TenantContext} {turn : Turn} {state state' : S} {counter counter' : ℕ}
    {ctx : Ctx} {cmd : C} {envelopes : List Event}
    (h : handlerResult cfg tc turn state counter ctx cmd = .ok (some (envelopes, state', counter'))) :
    Envelopes cfg turn.now state counter envelopes state' counter' ∧ envelopes ≠ [] := by
  simp only [handlerResult, bind_eq_ok] at h
  obtain ⟨events, hd, h⟩ := h
  cases events with
  | nil => simp [Pure.pure, Except.pure] at h
  | cons event events =>
    simp only [bind_eq_ok] at h
    obtain ⟨built, hb, _, -, h⟩ := h
    simp only [Pure.pure, Except.pure, Except.ok.injEq, Option.some.injEq] at h
    subst h
    exact Produces.envelopes ⟨event, events, hd, hb⟩

end

end Ego.EventSource

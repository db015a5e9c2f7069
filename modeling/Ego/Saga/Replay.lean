import Ego.Saga.Isolation
import Ego.Saga.Lifecycle

/-! # The saga and its journal agree -/

namespace Ego.Saga
open Persistence Protocol Lib
open Tenancy (TenantContext)

def Stored (tc : TenantContext) : Prop :=
  tc.valid = true ∧ Tenancy.unmarshalMetadata (Tenancy.marshalMetadata tc) = .ok tc

section
variable {S C M : Type}

variable (cfg : Config S C M) (store : EventsStore)

/-- An event of the marker's type changes no state. -/
def Idle (m : M) : Prop :=
  cfg.codec.isEmpty m = true →
    ∀ ctx state state', cfg.behavior.applyEvent ctx m state = .ok state' → state' = state

/-- The behavior returns the action in this step. -/
def Returned (n : Node S C) (action : SagaAction C M) : Label C → Prop
  | .event event _ => ∃ a ctx m, n.actor = some a ∧ eventContext cfg event = .ok ctx ∧
      cfg.codec.unmarshalNew event.event = .ok m ∧ cfg.behavior.handleEvent ctx m a.currentState = .ok (some action)
  | .send _ answer _ => ∃ a ctx cmd rest, n.actor = some a ∧ n.tasks = .send ctx cmd :: rest ∧
      handleAnswer cfg a ctx cmd.entityID answer = some action
  | _ => False

def MarkersIdle (n : Node S C) (l : Label C) : Prop :=
  ∀ action, Returned cfg n action l → ∀ m ∈ action.events, Idle cfg m

def turnContext (tc : TenantContext) : Option TenantContext := if cfg.tenantAware then some tc else none

def boundTo (bound tc : TenantContext) : TenantContext := if cfg.tenantAware then tc else bound

def replayed (state : S) (bound : TenantContext) : Actor S :=
  { spawned cfg with currentState := state, boundTenant := bound }

structure Journaled (log : Option EventLog) (state : S) (counter : ℕ) (bound : TenantContext) : Prop where
  numbered : Numbered (·.sequenceNumber) 0 (journal log)
  length : (journal log).length = counter
  replays : (journal log).foldlM (replayEvent cfg) (spawned cfg) = .ok (replayed cfg state bound)

def Readable (log : Option EventLog) : Prop :=
  (∃ latest, store.getLatestEvent cfg.scope log = .ok latest) ∧
    ∀ n, ∃ events, store.replayEvents cfg.scope log 1 n n = .ok events

def Surroundings.Faithful (env : Surroundings) : Prop := ∀ err, env.outcome ≠ .lost err

def Label.Faithful : Label C → Prop
  | .event _ env | .send _ _ env => env.Faithful
  | _ => True

variable {cfg store} {log log' : Option EventLog} {state state' : S} {counter counter' : ℕ}
  {bound tc : TenantContext} {env : Surroundings}

theorem replayEvent_envelope {m : M} {newState : S} {seq : ℕ} {ts : ℤ}
    (hstored : cfg.tenantAware = true → Stored tc)
    (hbound : cfg.tenantAware = true → bound = tc ∨ bound = .unset)
    (happly : if cfg.codec.isEmpty m then newState = state
      else cfg.behavior.applyEvent (turnContext cfg tc) m state = .ok newState) :
    replayEvent cfg (replayed cfg state bound)
        (newEnvelope cfg (cfg.codec.newAny m) (if cfg.tenantAware then Tenancy.marshalMetadata tc else []) seq ts) =
      .ok (replayed cfg newState (boundTo cfg bound tc)) := by
  have hctx : eventContext cfg (newEnvelope cfg (cfg.codec.newAny m)
      (if cfg.tenantAware then Tenancy.marshalMetadata tc else []) seq ts) = .ok (turnContext cfg tc) := by
    cases haware : cfg.tenantAware with
    | false => simp [eventContext, turnContext, haware]
    | true =>
      obtain ⟨hvalid, hread⟩ := hstored haware
      simp [eventContext, turnContext, haware, newEnvelope, hread, attach, hvalid, Except.mapError, Bind.bind,
        Except.bind]
  have hbind : bindOrVerify cfg (replayed cfg state bound) (turnContext cfg tc) =
      .ok (replayed cfg state (boundTo cfg bound tc)) := by
    cases haware : cfg.tenantAware with
    | false => simp [bindOrVerify, boundTo, haware]
    | true =>
      obtain ⟨hvalid, -⟩ := hstored haware
      rcases hbound haware with rfl | rfl
      · by_cases hunset : bound = .unset
        · simp [hunset, TenantContext.valid] at hvalid
        · simp [bindOrVerify, turnContext, boundTo, haware, Tenancy.require, hvalid, replayed, hunset,
            Tenancy.verifyUnchanged, Except.map, Bind.bind, Except.bind]
      · simp [bindOrVerify, turnContext, boundTo, haware, Tenancy.require, hvalid, replayed, Bind.bind, Except.bind]
  have hread : cfg.codec.unmarshalNew (newEnvelope cfg (cfg.codec.newAny m)
      (if cfg.tenantAware then Tenancy.marshalMetadata tc else []) seq ts).event = .ok m :=
    cfg.codec.roundtrip m
  simp only [replayEvent, hctx, hbind, hread, Except.mapError, Bind.bind, Except.bind]
  by_cases hempty : cfg.codec.isEmpty m = true
  · rw [if_pos hempty] at happly ⊢
    rw [happly]
    rfl
  · rw [if_neg hempty] at happly ⊢
    have hstate : (replayed cfg state (boundTo cfg bound tc)).currentState = state := rfl
    simp only [hstate, happly]
    rfl

variable {events : List M} {envelopes : List Event}

theorem buildEnvelopes_replays {clock : ℕ → ℤ} (hstored : cfg.tenantAware = true → Stored tc)
    (hidle : ∀ m ∈ events, Idle cfg m)
    (hbound : cfg.tenantAware = true → bound = tc ∨ bound = .unset)
    (hne : events ≠ [] ∨ boundTo cfg bound tc = bound)
    (h : buildEnvelopes cfg (turnContext cfg tc) tc clock events state counter = .ok (envelopes, state', counter')) :
    Numbered (·.sequenceNumber) counter envelopes ∧ counter' = counter + envelopes.length ∧
      envelopes.foldlM (replayEvent cfg) (replayed cfg state bound) =
        .ok (replayed cfg state' (boundTo cfg bound tc)) := by
  induction events generalizing state counter envelopes bound with
  | nil =>
    obtain ⟨rfl, rfl, rfl⟩ := by simpa [buildEnvelopes] using h
    rw [hne.resolve_left (by simp)]
    exact ⟨trivial, rfl, rfl⟩
  | cons m events ih =>
    simp only [buildEnvelopes, bind_eq_ok] at h
    obtain ⟨newState, happly, ⟨rest, s, c⟩, hrest, h⟩ := h
    obtain ⟨rfl, rfl, rfl⟩ := by simpa [Pure.pure, Except.pure] using h
    have happly := mapError_eq_ok.mp happly
    have hbound' : boundTo cfg (boundTo cfg bound tc) tc = boundTo cfg bound tc := by
      unfold boundTo
      split <;> rfl
    have haware : cfg.tenantAware = true → boundTo cfg bound tc = tc := fun ha => by simp [boundTo, ha]
    obtain ⟨hnum, hlen, hfold⟩ := ih (fun m' hm' => hidle m' (List.mem_cons_of_mem _ hm'))
      (fun ha => .inl (haware ha)) (.inr hbound') hrest
    rw [hbound'] at hfold
    refine ⟨⟨rfl, hnum⟩, ?_, ?_⟩
    · rw [hlen, List.length_cons]
      omega
    · have hresult : if cfg.codec.isEmpty m then newState = state
          else cfg.behavior.applyEvent (turnContext cfg tc) m state = .ok newState := by
        split
        · rename_i he
          exact hidle m List.mem_cons_self he _ _ _ happly
        · exact happly
      rw [List.foldlM_cons, replayEvent_envelope hstored hbound hresult]
      exact hfold

theorem writeEvents_ok {outcome : Outcome} (h : writeEvents cfg store outcome log envelopes = (.ok (), log')) :
    store.writeEvents cfg.scope cfg.sagaID log envelopes .unconditional = .ok log' := by
  unfold writeEvents at h
  split at h <;> simp_all

variable {err : Err}

theorem writeEvents_error (hf : env.Faithful)
    (h : writeEvents cfg store env.outcome log envelopes = (.error err, log')) : log' = log := by
  unfold writeEvents at h
  split at h
  · simp_all
  · simp_all
  · simp_all
  · rename_i hl _
    exact absurd hl (hf _)
  · rename_i hl _
    exact absurd hl (hf _)

theorem Journaled.append (h : Journaled cfg log state counter bound)
    (hnum : Numbered (·.sequenceNumber) counter envelopes)
    (hfold : envelopes.foldlM (replayEvent cfg) (replayed cfg state bound) = .ok (replayed cfg state' tc))
    (hw : store.writeEvents cfg.scope cfg.sagaID log envelopes .unconditional = .ok log') :
    Journaled cfg log' state' (counter + envelopes.length) tc := by
  have hall : Numbered (·.sequenceNumber) 0 (journal log ++ envelopes) :=
    numbered_append.mpr ⟨h.numbered, by rw [Nat.zero_add, h.length]; exact hnum⟩
  have hjournal := store.appends _ _ _ _ _ _ hw (fresh_of_numbered hall)
  constructor
  · rw [hjournal]
    exact hall
  · rw [hjournal, List.length_append, h.length]
  · rw [hjournal, List.foldlM_append, h.replays]
    exact hfold

variable {a b : Actor S}

theorem persistAndApplyEvents_journaled (h : Journaled cfg log a.currentState a.eventsCounter a.boundTenant)
    (hstored : cfg.tenantAware = true → Stored tc) (hidle : ∀ m ∈ events, Idle cfg m)
    (hbound : cfg.tenantAware = true → a.boundTenant = tc ∨ a.boundTenant = .unset) (hne : events ≠ [])
    (hp : persistAndApplyEvents cfg store a (turnContext cfg tc) events env log = (.ok b, log')) :
    Journaled cfg log' b.currentState b.eventsCounter (boundTo cfg a.boundTenant tc) ∧
      b.boundTenant = a.boundTenant := by
  -- without tenants the envelopes carry none, whatever the turn is for
  have hrequire : ∃ tc', (if cfg.tenantAware then Tenancy.require (turnContext cfg tc) else .ok .unset) = .ok tc' ∧
      turnContext cfg tc' = turnContext cfg tc ∧ boundTo cfg a.boundTenant tc' = boundTo cfg a.boundTenant tc ∧
      (cfg.tenantAware = true → tc' = tc) := by
    cases haware : cfg.tenantAware with
    | false => exact ⟨.unset, by simp [turnContext, boundTo, haware]⟩
    | true => exact ⟨tc, by simp [turnContext, haware, Tenancy.require, (hstored haware).1]⟩
  obtain ⟨tc', hreq, hctx, hto, haware⟩ := hrequire
  simp only [persistAndApplyEvents, hreq] at hp
  split at hp
  · simp at hp
  · rename_i envelopes nextState nextCounter hbuild
    split at hp
    · simp at hp
    · rename_i log₁ hw
      obtain ⟨hb, rfl⟩ := Prod.mk.inj hp
      obtain rfl := Except.ok.inj hb
      rw [← hctx] at hbuild
      obtain ⟨hnum, hcounter, hfold⟩ := buildEnvelopes_replays (fun ha => haware ha ▸ hstored ha) hidle
        (fun ha => haware ha ▸ hbound ha) (.inl hne) hbuild
      rw [hto] at hfold
      subst hcounter
      exact ⟨h.append hnum hfold (writeEvents_ok hw), rfl⟩

variable {ctx : Option TenantContext}

theorem persistAndApplyEvents_error (hf : env.Faithful)
    (hp : persistAndApplyEvents cfg store a ctx events env log = (.error err, log')) : log' = log := by
  unfold persistAndApplyEvents at hp
  split at hp
  · exact (Prod.mk.inj hp).2.symm
  · split at hp
    · exact (Prod.mk.inj hp).2.symm
    · split at hp
      · rename_i hw
        rw [← (Prod.mk.inj hp).2]
        exact writeEvents_error hf hw
      · simp at hp

theorem persistTenantBinding_journaled (h : Journaled cfg log a.currentState a.eventsCounter a.boundTenant)
    (haware : cfg.tenantAware = true) (hstored : Stored tc) (hunset : a.boundTenant = .unset)
    (hp : persistTenantBinding cfg store a tc env log = (.ok b, log')) :
    Journaled cfg log' b.currentState b.eventsCounter tc := by
  simp only [persistTenantBinding] at hp
  split at hp
  · simp at hp
  · rename_i log₁ hw
    obtain ⟨hb, rfl⟩ := Prod.mk.inj hp
    obtain rfl := Except.ok.inj hb
    have hmarker := @replayEvent_envelope S C M cfg a.currentState a.boundTenant tc cfg.codec.empty a.currentState
      (a.eventsCounter + 1) (env.clock (a.eventsCounter + 1)) (fun _ => hstored) (fun _ => .inr hunset)
      (by rw [if_pos cfg.codec.isEmpty_empty])
    rw [if_pos haware, boundTo, if_pos haware] at hmarker
    have hw := writeEvents_ok hw
    refine Journaled.append h ?_ ?_ hw
    · exact ⟨rfl, trivial⟩
    · rw [List.foldlM_cons, hmarker]
      rfl

theorem persistTenantBinding_error (hf : env.Faithful)
    (hp : persistTenantBinding cfg store a tc env log = (.error err, log')) : log' = log := by
  simp only [persistTenantBinding] at hp
  split at hp
  · rename_i hw
    rw [← (Prod.mk.inj hp).2]
    exact writeEvents_error hf hw
  · simp at hp

structure InTurn (cfg : Config S C M) (a : Actor S) (tasks : List (Task C)) (log : Option EventLog) : Prop where
  journaled : Journaled cfg log a.currentState a.eventsCounter a.boundTenant
  contexts : ∀ ctx cmd, .send ctx cmd ∈ tasks →
    ctx = turnContext cfg a.boundTenant ∧ (cfg.tenantAware = true → Stored a.boundTenant)

section
variable (h : Journaled cfg log a.currentState a.eventsCounter a.boundTenant)
include h

theorem inTurn_idle :
    InTurn cfg a ([] : List (Task C)) log := ⟨h, by simp⟩

theorem inTurn_dispatch {action : SagaAction C M}
    (hstored : cfg.tenantAware = true → Stored a.boundTenant) :
    InTurn cfg a (dispatchActionEffects (turnContext cfg a.boundTenant) action) log := by
  refine ⟨h, fun ctx cmd hmem => ?_⟩
  simp only [dispatchActionEffects, List.mem_append, List.mem_map, List.mem_singleton] at hmem
  rcases hmem with ⟨cmd', -, heq⟩ | heq
  · exact ⟨(Task.send.inj heq).1.symm, hstored⟩
  · simp at heq

theorem processAction_inTurn {action : Option (SagaAction C M)} (hf : env.Faithful)
    (hidle : ∀ act, action = some act → ∀ m ∈ act.events, Idle cfg m)
    (hstored : cfg.tenantAware = true → Stored a.boundTenant) :
    let r := processAction cfg store a (turnContext cfg a.boundTenant) action env log
    InTurn cfg r.actor r.tasks r.log := by
  intro r
  simp only [r, processAction]
  split
  · exact inTurn_idle h
  · rename_i act
    split
    · exact inTurn_dispatch h hstored
    · rename_i hne
      split
      · rename_i hp
        rw [persistAndApplyEvents_error hf hp]
        exact inTurn_idle h
      · rename_i b log' hp
        obtain ⟨hj, hb⟩ := persistAndApplyEvents_journaled h hstored (hidle act rfl) (fun _ => .inl rfl) hne hp
        have hsame : boundTo cfg a.boundTenant a.boundTenant = b.boundTenant := by
          unfold boundTo
          split <;> exact hb.symm
        rw [hsame] at hj
        rw [← hb]
        exact inTurn_dispatch hj (fun ha => hb ▸ hstored ha)

theorem processUnbound_inTurn {action : Option (SagaAction C M)} (hf : env.Faithful)
    (hidle : ∀ act, action = some act → ∀ m ∈ act.events, Idle cfg m)
    (hunset : cfg.tenantAware = true → a.boundTenant = .unset) (hstored : cfg.tenantAware = true → Stored tc) :
    let r := processUnbound cfg store a (turnContext cfg tc) action env log
    InTurn cfg r.actor r.tasks r.log := by
  intro r
  simp only [r, processUnbound]
  split
  · exact inTurn_idle h
  cases haware : cfg.tenantAware with
  | false =>
    have hctx : turnContext cfg tc = turnContext cfg a.boundTenant := by simp [turnContext, haware]
    rw [hctx]
    exact processAction_inTurn h hf hidle (by simp [haware])
  | true =>
    have hrequire : Tenancy.require (turnContext cfg tc) = .ok tc := by
      simp [turnContext, haware, Tenancy.require, (hstored haware).1]
    simp only [Bool.not_true, Bool.false_eq_true, if_false, hrequire]
    cases action with
    | none => exact inTurn_idle h
    | some act =>
      dsimp only
      split
      · rename_i err log₁ hp
        have hlog : log₁ = log := by
          split at hp
          · exact persistAndApplyEvents_error hf hp
          · exact persistTenantBinding_error hf hp
        rw [hlog]
        exact inTurn_idle h
      · rename_i b log' hp
        have hj : Journaled cfg log' b.currentState b.eventsCounter tc := by
          split at hp
          · rename_i hne
            have hj := (persistAndApplyEvents_journaled h hstored (hidle act rfl)
              (fun ha => .inr (hunset ha)) hne hp).1
            rwa [boundTo, if_pos haware] at hj
          · exact persistTenantBinding_journaled h haware (hstored haware) (hunset haware) hp
        exact inTurn_dispatch hj hstored

end

theorem eventContext_stored {event : Event} (h : eventContext cfg event = .ok ctx) :
    ∃ tc, ctx = turnContext cfg tc ∧ (cfg.tenantAware = true → Stored tc) := by
  cases haware : cfg.tenantAware with
  | false =>
    simp only [eventContext, haware, Bool.not_false, if_true, Except.ok.injEq] at h
    exact ⟨.unset, by simp [turnContext, haware, ← h], by simp⟩
  | true =>
    simp only [eventContext, haware, Bool.not_true, Bool.false_eq_true, if_false, bind_eq_ok] at h
    obtain ⟨tc, htc, h⟩ := h
    have hstored := Tenancy.unmarshalMetadata_marshalMetadata (mapError_eq_ok.mp htc)
    unfold attach at h
    rw [if_pos hstored.1] at h
    exact ⟨tc, by simp [turnContext, haware, ← Except.ok.inj h], fun _ => hstored⟩

theorem handleStreamEvent_inTurn {event : Event} (hf : env.Faithful)
    (hmarkers : ∀ ctx m action, eventContext cfg event = .ok ctx → cfg.codec.unmarshalNew event.event = .ok m →
      cfg.behavior.handleEvent ctx m a.currentState = .ok (some action) → ∀ m ∈ action.events, Idle cfg m)
    (h : Journaled cfg log a.currentState a.eventsCounter a.boundTenant) :
    let r := handleStreamEvent cfg store a event env log
    InTurn cfg r.actor r.tasks r.log := by
  intro r
  simp only [r, handleStreamEvent]
  split
  · exact inTurn_idle h
  split
  · exact inTurn_idle h
  rename_i ctx hctx
  obtain ⟨tc, rfl, hstored⟩ := eventContext_stored hctx
  by_cases hbound : (cfg.tenantAware && a.boundTenant != .unset) = true
  · obtain ⟨haware, hset⟩ : cfg.tenantAware = true ∧ a.boundTenant ≠ .unset := by simpa using hbound
    rw [if_pos hbound]
    cases hv : bindOrVerify cfg a (turnContext cfg tc) with
    | error err => exact inTurn_idle h
    | ok b =>
      obtain ⟨rfl, hsame⟩ := bindOrVerify_bound haware hset hv
      have htc : tc = b.boundTenant := by simpa [turnContext, haware] using hsame
      dsimp only
      split
      · exact inTurn_idle h
      rename_i m hm
      split
      · exact inTurn_idle h
      rename_i action hhandle
      rw [if_pos hbound, htc]
      exact processAction_inTurn h hf (fun act hact => hmarkers _ m act hctx hm (hact ▸ hhandle)) (htc ▸ hstored)
  · rw [if_neg hbound]
    dsimp only
    split
    · exact inTurn_idle h
    rename_i m hm
    split
    · exact inTurn_idle h
    rename_i action hhandle
    rw [if_neg hbound]
    exact processUnbound_inTurn h hf (fun act hact => hmarkers _ m act hctx hm (hact ▸ hhandle))
      (fun ha => by simpa [ha] using hbound) hstored

theorem recover_eq {latest : Option Event} (h : Journaled cfg log state counter bound)
    (hlatest : store.getLatestEvent cfg.scope log = .ok latest) (hreplay : ∀ e, latest = some e →
      ∃ events, store.replayEvents cfg.scope log 1 e.sequenceNumber e.sequenceNumber = .ok events) :
    recover cfg store log = .ok { replayed cfg state bound with eventsCounter := counter } := by
  have hnumber := (store.latest_of_ok _ _ _ hlatest).number h.numbered
  rw [h.length] at hnumber
  simp only [recover, hlatest, Except.mapError, Bind.bind, Except.bind]
  cases latest with
  | none =>
    obtain rfl : 0 = counter := hnumber
    have hnil : journal log = [] := List.length_eq_zero_iff.mp h.length
    have hreplays := h.replays
    rw [hnil] at hreplays
    have hsame : spawned cfg = replayed cfg state bound := Except.ok.inj hreplays
    rw [hsame]
    rfl
  | some e =>
    obtain rfl : e.sequenceNumber = counter := hnumber
    obtain ⟨events, hevents⟩ := hreplay e rfl
    have hall : events = journal log := by
      rw [store.replay_of_ok _ _ _ _ _ _ hevents (h.numbered.pairwise)]
      have hfilter : (journal log).filter (fun x =>
          1 ≤ x.sequenceNumber ∧ x.sequenceNumber ≤ e.sequenceNumber) = journal log := by
        refine List.filter_eq_self.mpr fun x hx => ?_
        have hbounds := h.numbered.bounds x hx
        rw [h.length] at hbounds
        exact decide_eq_true ⟨by omega, by omega⟩
      rw [hfilter, List.take_of_length_le (Nat.le_of_eq h.length)]
    simp only [hevents, hall, h.replays, Pure.pure, Except.pure]

theorem recover_ok (h : Journaled cfg log state counter bound) (hr : recover cfg store log = .ok a) :
    a = { replayed cfg state bound with eventsCounter := counter } := by
  have hreads : ∃ latest, store.getLatestEvent cfg.scope log = .ok latest ∧ ∀ e, latest = some e →
      ∃ events, store.replayEvents cfg.scope log 1 e.sequenceNumber e.sequenceNumber = .ok events := by
    simp only [recover, bind_eq_ok] at hr
    obtain ⟨latest, hlatest, hr⟩ := hr
    refine ⟨latest, mapError_eq_ok.mp hlatest, ?_⟩
    rintro e rfl
    simp only [bind_eq_ok] at hr
    obtain ⟨events, hevents, -⟩ := hr
    exact ⟨events, mapError_eq_ok.mp hevents⟩
  obtain ⟨latest, hlatest, hreplay⟩ := hreads
  rw [recover_eq h hlatest hreplay] at hr
  exact (Except.ok.inj hr).symm

def InStep (cfg : Config S C M) (n : Node S C) (log : Option EventLog) : Prop :=
  match n.actor with
  | none => n.tasks = [] ∧ ∃ state counter bound, Journaled cfg log state counter bound
  | some a => InTurn cfg a n.tasks log

variable {n : Node S C}

theorem InStep.turn (h : InStep cfg n log) (ha : n.actor = some a) : InTurn cfg a n.tasks log := by
  rw [InStep, ha] at h
  exact h

theorem InTurn.tail {t : Task C} {rest : List (Task C)} (h : InTurn cfg a (t :: rest) log) :
    InTurn cfg a rest log := ⟨h.journaled, fun ctx cmd hmem => h.contexts ctx cmd (List.mem_cons_of_mem t hmem)⟩

theorem InTurn.withStatus {tasks : List (Task C)} (s : SagaStatus) (h : InTurn cfg a tasks log) :
    InTurn cfg { a with status := s } tasks log := ⟨h.journaled, h.contexts⟩

theorem InTurn.compensating {cmds : List (SagaCommand C)} {rest : List (Task C)}
    (h : InTurn cfg a rest log) : InTurn cfg a (.compensate ctx cmds :: rest) log := by
  refine ⟨h.journaled, fun ctx cmd hmem => ?_⟩
  exact h.contexts ctx cmd (by simpa using hmem)

theorem compensate_inTurn {ctx : Option TenantContext} {rest : List (Task C)} (h : InTurn cfg a rest log) :
    InTurn cfg (compensate cfg a ctx).1 ((compensate cfg a ctx).2 ++ rest) log := by
  unfold compensate
  split
  · exact h.withStatus .failed
  · exact h.compensating

theorem sendNext_inStep {op : Option String} {answer : Answer} (hf : env.Faithful)
    (hmarkers : MarkersIdle cfg n (.send op answer env)) (ha : n.actor = some a) (h : InTurn cfg a n.tasks log) :
    let r := sendNext cfg store a op answer env n log
    InStep cfg r.1 r.2 := by
  intro r
  simp only [r, sendNext]
  split
  · rename_i ctx cmd rest ht
    rw [ht] at h
    obtain ⟨rfl, hstored⟩ := h.contexts ctx cmd List.mem_cons_self
    have hturn := @processAction_inTurn S C M cfg store log env a h.journaled
      (handleAnswer cfg a (turnContext cfg a.boundTenant) cmd.entityID answer) hf
      (fun act hact => hmarkers act ⟨a, _, cmd, rest, ha, ht, hact⟩) hstored
    have hkept := @processAction_boundTenant S C M cfg store a (turnContext cfg a.boundTenant)
    refine ⟨hturn.journaled, fun ctx cmd' hmem => ?_⟩
    rcases List.mem_append.mp hmem with hmem | hmem
    · exact hturn.contexts ctx cmd' hmem
    · rw [hkept]
      exact h.tail.contexts ctx cmd' hmem
  · rename_i ctx cmd cmds rest ht
    rw [ht] at h
    split
    · exact h.tail.withStatus .failed
    · simp only [InStep, ha]
      exact h.tail.compensating
  · simp only [InStep, ha]
    exact h

theorem proceed_inTurn (ha : n.actor = some a) (h : InTurn cfg a n.tasks log) : InStep cfg (proceed cfg a n) log := by
  unfold proceed
  split
  · rename_i ht
    rw [ht] at h
    exact h.tail.withStatus .completed
  · rename_i ht
    rw [ht] at h
    exact compensate_inTurn (h.tail.withStatus .compensating)
  · rename_i ht
    rw [ht] at h
    simp only [InStep, ha]
    exact h.tail
  · rename_i ht
    rw [ht] at h
    exact h.tail.withStatus .completed
  · simp only [InStep, ha]
    exact h

theorem handleTimeout_inTurn (h : InTurn cfg a ([] : List (Task C)) log) :
    InTurn cfg (handleTimeout cfg a : Actor S × List (Task C)).1 (handleTimeout cfg a).2 log := by
  unfold handleTimeout
  split
  · exact h
  · dsimp only
    split
    · exact h.withStatus .failed
    · rename_i ctx _
      have hcomp := @compensate_inTurn S C M cfg log { a with status := .compensating } ctx []
        (h.withStatus .compensating)
      rwa [List.append_nil] at hcomp

theorem nodeStep_inStep {l : Label C} (hf : l.Faithful) (hmarkers : MarkersIdle cfg n l)
    (h : InStep cfg n log) : InStep cfg (nodeStep cfg store n log l).1 (nodeStep cfg store n log l).2 := by
  cases l with
  | start pingErr =>
    simp only [nodeStep]
    split
    · rename_i a hnone hr
      rw [InStep, hnone] at h
      obtain ⟨hidle, state, counter, bound, h⟩ := h
      obtain rfl := recover_ok h hr
      simp only [InStep, hidle]
      exact inTurn_idle h
    · exact h
  | event event env =>
    simp only [nodeStep]
    split
    · exact h
    · rename_i a hr
      have ha := (ready_eq_some hr).1
      split
      · exact h
      · exact handleStreamEvent_inTurn hf (fun ctx m action hctx hm hact =>
          hmarkers action ⟨a, ctx, m, ha, hctx, hm, hact⟩) (h.turn ha).journaled
  | getState ctx =>
    simp only [nodeStep]
    split
    · exact h
    · exact h
  | command ctx cmd => exact h
  | timeout =>
    simp only [nodeStep]
    split
    · exact h
    · rename_i a hr
      obtain ⟨ha, ht⟩ := ready_eq_some hr
      have hturn := h.turn ha
      rw [ht] at hturn
      exact handleTimeout_inTurn hturn
  | send op answer env =>
    simp only [nodeStep]
    split
    · exact h
    · rename_i a ha
      exact sendNext_inStep hf hmarkers ha (h.turn ha)
  | proceed =>
    simp only [nodeStep]
    split
    · exact h
    · rename_i a ha
      exact proceed_inTurn ha (h.turn ha)
  | stop =>
    simp only [nodeStep, InStep]
    cases ha : n.actor with
    | none =>
      rw [InStep, ha] at h
      exact ⟨trivial, h.2⟩
    | some a => exact ⟨trivial, _, _, _, (h.turn ha).journaled⟩

/-- After every step a fresh incarnation that recovers from the store gets the
state, the counter and the tenant of the running saga, if a failed write stores nothing
and no action of the run gives a meaning to the marker message. -/
theorem recovery_matches_saga (cfg : Config S C M) (store : EventsStore) (labels : List (Label C))
    (hok : Along (fun s l => nodeStep cfg store s.1 s.2 l) (fun s l => l.Faithful ∧ MarkersIdle cfg s.1 l)
      (Node.idle, none) labels) :
    let s := nodeRun cfg store Node.idle none labels
    ∀ a, s.1.actor = some a → Readable cfg store s.2 →
      ∃ b, recover cfg store s.2 = .ok b ∧ b.currentState = a.currentState ∧
        b.eventsCounter = a.eventsCounter ∧ b.boundTenant = a.boundTenant := by
  intro s a ha hread
  have hstart : Journaled cfg none (spawned cfg).currentState 0 (spawned cfg).boundTenant := ⟨trivial, rfl, rfl⟩
  have hin : InStep cfg s.1 s.2 :=
    run_invariant (fun s l => nodeStep cfg store s.1 s.2 l) (fun s => InStep cfg s.1 s.2)
      (fun s l hs hl => nodeStep_inStep hl.1 hl.2 hs) ⟨rfl, _, _, _, hstart⟩ hok
  obtain ⟨latest, hlatest⟩ := hread.1
  refine ⟨_, recover_eq (hin.turn ha).journaled hlatest (fun e _ => hread.2 _), rfl, rfl, rfl⟩

end

open Enginetest in
def noting (m : Message) : Config ℕ Command Message :=
  sagaConfig (callbackSaga ⟨[], [m], false, false⟩ noAction noAction [])

open Enginetest in
theorem noting_credits_idle (n : Node ℕ Command) (event : Event) (env : Surroundings) :
    MarkersIdle (noting (.inl (.accountCredited 1))) n (.event event env) := by
  rintro action ⟨a, ctx, m, -, -, -, hact⟩ m' hm'
  rw [← Option.some.inj (Except.ok.inj hact)] at hm'
  obtain rfl := List.mem_singleton.mp hm'
  exact fun hempty => absurd hempty (by decide)

open Enginetest in
theorem recovery_matches_noting :
    let s := nodeRun (noting (.inl (.accountCredited 1))) Testkit.eventsStore Node.idle none
      [.start none, .event (credited "c" 1 0) reachable]
    s.1.actor = some ⟨1, 1, .running, .unset⟩ ∧
      ∃ b, recover (noting (.inl (.accountCredited 1))) Testkit.eventsStore s.2 = .ok b ∧ b.currentState = 1 := by
  intro s
  have hactor : s.1.actor = some ⟨1, 1, .running, .unset⟩ := rfl
  have hfaithful : reachable.Faithful := by simp [Surroundings.Faithful, reachable]
  obtain ⟨b, hb, hstate, -, -⟩ := recovery_matches_saga (noting (.inl (.accountCredited 1))) Testkit.eventsStore
    [.start none, .event (credited "c" 1 0) reachable]
    ⟨⟨trivial, fun _ h => h.elim⟩, ⟨hfaithful, noting_credits_idle _ _ _⟩, trivial⟩ _ hactor
      ⟨⟨_, rfl⟩, fun n => ⟨_, rfl⟩⟩
  exact ⟨hactor, b, hb, hstate⟩

open Enginetest in
/-- An event of the behavior that happens to be of the marker's type is applied when
it is written and skipped when it is replayed. -/
theorem own_marker_lost :
    let s := nodeRun (noting (.inl .empty)) Testkit.eventsStore Node.idle none
      [.start none, .event (credited "c" 1 0) reachable]
    s.1.actor = some ⟨1, 1, .running, .unset⟩ ∧
      recover (noting (.inl .empty)) Testkit.eventsStore s.2 = .ok ⟨0, 1, .running, .unset⟩ :=
  ⟨rfl, rfl⟩

end Ego.Saga

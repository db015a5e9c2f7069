import Ego.Enginetest.Saga
import Ego.Testkit.EventStore

/-! # The life of a saga -/

namespace Ego.Saga
open Persistence Lib
open Tenancy (TenantContext)

def Task.plain {C : Type} : Task C → Bool
  | .compensate _ _ => false
  | _ => true

def Spent {C : Type} (tasks : List (Task C)) : Prop := ∀ t ∈ tasks, ∃ ctx, t = .finish ctx false false

section
variable {S C M : Type}

def SendsForward (n : Node S C) (l : Label C) : Prop :=
  (∃ op answer env, l = .send op answer env) ∧ ∃ ctx cmd rest, n.tasks = .send ctx cmd :: rest

variable (cfg : Config S C M) (store : EventsStore)

def InvokesCompensate (n : Node S C) (l : Label C) : Prop :=
  (l = .proceed ∧ ∃ ctx rest, n.tasks = .finish ctx false true :: rest) ∨
    (l = .timeout ∧ ∃ a ctx, n.ready = some a ∧ a.status = .running ∧ compensationContext cfg a = .ok ctx)

/-- When an action completes or compensates the saga, nothing is left to do of the
actions around it: no command, and no end that would do so too. -/
def EndsLast (n : Node S C) : Label C → Prop
  | .proceed => ∀ ctx complete compensate rest, n.tasks = .finish ctx complete compensate :: rest →
      (complete || compensate) = true → Spent rest
  | _ => True

def nodeRun (n : Node S C) (log : Option EventLog) (labels : List (Label C)) : Node S C × Option EventLog :=
  run (fun s l => nodeStep cfg store s.1 s.2 l) (n, log) labels

def Node.status (n : Node S C) : Option SagaStatus := n.actor.map (·.status)

variable {cfg store} {a b : Actor S} {ctx : Option TenantContext} {env : Surroundings} {log log' : Option EventLog}

theorem persistAndApplyEvents_status {events : List M}
    (h : persistAndApplyEvents cfg store a ctx events env log = (.ok b, log')) : b.status = a.status := by
  unfold persistAndApplyEvents at h
  split at h
  · simp at h
  · split at h
    · simp at h
    · split at h
      · simp at h
      · rw [← Except.ok.inj (Prod.mk.inj h).1]

theorem persistTenantBinding_status {tc : TenantContext}
    (h : persistTenantBinding cfg store a tc env log = (.ok b, log')) : b.status = a.status := by
  simp only [persistTenantBinding] at h
  split at h
  · simp at h
  · rw [← Except.ok.inj (Prod.mk.inj h).1]

theorem plain_of_dispatch {action : SagaAction C M} : ∀ t ∈ dispatchActionEffects ctx action, t.plain = true := by
  intro t ht
  simp only [dispatchActionEffects, List.mem_append, List.mem_map, List.mem_singleton] at ht
  rcases ht with ⟨cmd, -, rfl⟩ | rfl
  · rfl
  · rfl

def Keeps (a : Actor S) (r : Turned S C) : Prop := r.actor.status = a.status ∧ ∀ t ∈ r.tasks, t.plain = true

theorem keeps_self : Keeps a (⟨a, [], log⟩ : Turned S C) := ⟨rfl, by simp⟩

theorem processAction_keeps (action : Option (SagaAction C M)) :
    Keeps a (processAction cfg store a ctx action env log) := by
  unfold processAction
  split
  · exact keeps_self
  · split
    · exact ⟨rfl, plain_of_dispatch⟩
    · split
      · exact keeps_self
      · rename_i hp
        exact ⟨persistAndApplyEvents_status hp, plain_of_dispatch⟩

theorem processUnbound_keeps (action : Option (SagaAction C M)) :
    Keeps a (processUnbound cfg store a ctx action env log) := by
  unfold processUnbound
  split
  · exact keeps_self
  split
  · exact processAction_keeps action
  split
  · exact keeps_self
  · exact keeps_self
  · rename_i tc action _
    split
    · exact keeps_self
    · rename_i b log' hp
      have hstatus : b.status = a.status := by
        split at hp
        · exact persistAndApplyEvents_status hp
        · exact persistTenantBinding_status hp
      exact ⟨hstatus, plain_of_dispatch⟩

theorem bindOrVerify_status (h : bindOrVerify cfg a ctx = .ok b) : b.status = a.status := by
  unfold bindOrVerify at h
  split at h
  · rw [← Except.ok.inj h]
  · obtain ⟨tc, -, h⟩ := bind_eq_ok.mp h
    split at h
    · rw [← Except.ok.inj h]
    · obtain ⟨_, -, rfl⟩ := map_eq_ok.mp h
      rfl

theorem handleStreamEvent_keeps (event : Event) : Keeps a (handleStreamEvent cfg store a event env log) := by
  unfold handleStreamEvent
  split
  · exact keeps_self
  split
  · exact keeps_self
  dsimp only
  split
  · exact keeps_self
  rename_i b hb
  have hstatus : b.status = a.status := by
    split at hb
    · exact bindOrVerify_status hb
    · rw [← Except.ok.inj hb]
  have hkeeps {r : Turned S C} (h : Keeps b r) : Keeps a r := ⟨h.1.trans hstatus, h.2⟩
  split
  · exact hkeeps keeps_self
  split
  · exact hkeeps keeps_self
  split
  · exact hkeeps (processAction_keeps _)
  · exact hkeeps (processUnbound_keeps _)

def Fits (tasks : List (Task C)) : SagaStatus → Prop
  | .running => ∀ t ∈ tasks, t.plain = true
  | .compensating => ∃ ctx cmds rest, tasks = .compensate ctx cmds :: rest ∧ Spent rest
  | .completed | .failed => Spent tasks

def Follows : SagaStatus → SagaStatus → Prop
  | .running, _ => True
  | .compensating, s => s ≠ .running
  | .completed, s => s = .completed
  | .failed, s => s = .failed

theorem follows_refl (s : SagaStatus) : Follows s s := by
  cases s <;> simp [Follows]

variable {s : SagaStatus}

theorem follows_trans {t u : SagaStatus} (hst : Follows s t) (htu : Follows t u) : Follows s u := by
  cases s <;> cases t <;> simp_all [Follows]

theorem Follows.ne_running {t : SagaStatus} (h : Follows s t) (hs : s ≠ .running) : t ≠ .running := by
  cases s <;> simp_all [Follows]

theorem spent_tail {t : Task C} {tasks : List (Task C)} (h : Spent (t :: tasks)) : Spent tasks :=
  fun u hu => h u (List.mem_cons_of_mem t hu)

variable {rest : List (Task C)}

theorem fits_send {cmd : SagaCommand C} (h : Fits (.send ctx cmd :: rest) s) : s = .running ∧ Fits rest .running := by
  cases s with
  | running => exact ⟨rfl, fun t ht => h t (List.mem_cons_of_mem _ ht)⟩
  | compensating => simp [Fits] at h
  | completed => simp [Fits, Spent] at h
  | failed => simp [Fits, Spent] at h

theorem fits_compensate {cmds : List (SagaCommand C)}
    (h : Fits (.compensate ctx cmds :: rest) s) : s = .compensating ∧ Spent rest := by
  cases s with
  | running => simp [Fits, Task.plain] at h
  | compensating =>
    obtain ⟨_, _, _, heq, hspent⟩ := h
    obtain ⟨-, rfl⟩ := List.cons.inj heq
    exact ⟨rfl, hspent⟩
  | completed => simp [Fits, Spent] at h
  | failed => simp [Fits, Spent] at h

theorem fits_finish {complete compensate : Bool} (h : Fits (.finish ctx complete compensate :: rest) s) :
    Fits rest s ∧ (s ≠ .running → complete = false ∧ compensate = false) := by
  cases s with
  | running => exact ⟨fun t ht => h t (List.mem_cons_of_mem _ ht), by simp⟩
  | compensating => simp [Fits] at h
  | completed =>
    obtain ⟨ctx', heq⟩ := h _ List.mem_cons_self
    simp only [Task.finish.injEq] at heq
    exact ⟨spent_tail h, fun _ => heq.2⟩
  | failed =>
    obtain ⟨ctx', heq⟩ := h _ List.mem_cons_self
    simp only [Task.finish.injEq] at heq
    exact ⟨spent_tail h, fun _ => heq.2⟩

theorem compensate_fits {rest : List (Task C)} (hs : a.status = .compensating) (hrest : Spent rest) :
    Fits ((compensate cfg a ctx).2 ++ rest) (compensate cfg a ctx).1.status ∧
      (compensate cfg a ctx).1.status ≠ .running := by
  unfold compensate
  split
  · exact ⟨hrest, by simp⟩
  · rename_i cmds _
    rw [hs]
    exact ⟨⟨ctx, cmds, rest, rfl, hrest⟩, by simp⟩

def LivesOn (s : SagaStatus) (n : Node S C) : Prop :=
  ∃ b, n.actor = some b ∧ Follows s b.status ∧ Fits n.tasks b.status

variable {n : Node S C}

theorem sendNext_lives {op : Option String} {answer : Answer} (ha : n.actor = some a)
    (hfits : Fits n.tasks a.status) : LivesOn a.status (sendNext cfg store a op answer env n log).1 := by
  unfold sendNext
  split
  · rename_i ctx cmd rest ht
    rw [ht] at hfits
    obtain ⟨hrun, hrest⟩ := fits_send hfits
    obtain ⟨hstatus, hplain⟩ := processAction_keeps (handleAnswer cfg a ctx cmd.entityID answer)
    refine ⟨_, rfl, by simp [hrun, Follows], ?_⟩
    rw [hstatus, hrun]
    intro t h
    rcases List.mem_append.mp h with h | h
    · exact hplain t h
    · exact hrest t h
  · rename_i ctx cmd cmds rest ht
    rw [ht] at hfits
    obtain ⟨hcomp, hspent⟩ := fits_compensate hfits
    split
    · exact ⟨_, rfl, by simp [hcomp, Follows], hspent⟩
    · refine ⟨a, ha, follows_refl _, ?_⟩
      rw [hcomp]
      exact ⟨ctx, cmds, rest, rfl, hspent⟩
  · exact ⟨a, ha, follows_refl _, hfits⟩

theorem proceed_lives (ha : n.actor = some a) (hends : EndsLast n .proceed) (hfits : Fits n.tasks a.status) :
    LivesOn a.status (proceed cfg a n) := by
  unfold proceed
  split
  · rename_i ctx compensate rest ht
    have hspent := hends ctx true compensate rest ht rfl
    rw [ht] at hfits
    have hrun : a.status = .running := by
      by_contra hne
      simpa using ((fits_finish hfits).2 hne).1
    exact ⟨_, rfl, by simp [hrun, Follows], hspent⟩
  · rename_i ctx rest ht
    have hspent := hends ctx false true rest ht rfl
    rw [ht] at hfits
    have hrun : a.status = .running := by
      by_contra hne
      simpa using ((fits_finish hfits).2 hne).2
    have hcomp := @compensate_fits S C M cfg { a with status := .compensating } ctx rest rfl hspent
    exact ⟨_, rfl, by simp [hrun, Follows], hcomp.1⟩
  · rename_i ctx rest ht
    rw [ht] at hfits
    exact ⟨a, ha, follows_refl _, (fits_finish hfits).1⟩
  · rename_i ctx rest ht
    rw [ht] at hfits
    obtain ⟨hcomp, hspent⟩ := fits_compensate hfits
    exact ⟨_, rfl, by simp [hcomp, Follows], hspent⟩
  · exact ⟨a, ha, follows_refl _, hfits⟩

theorem ready_eq_some (h : n.ready = some a) : n.actor = some a ∧ n.tasks = [] := by
  unfold Node.ready at h
  split at h
  · exact ⟨h, List.isEmpty_iff.mp ‹_›⟩
  · simp at h

theorem handleTimeout_lives (a : Actor S) (hrun : a.status = .running) : (handleTimeout cfg a).1.status ≠ .running ∧
      Fits (handleTimeout cfg a : Actor S × List (Task C)).2 (handleTimeout cfg a).1.status := by
  unfold handleTimeout
  rw [if_neg (by simp [hrun])]
  dsimp only
  split
  · exact ⟨by simp, by simp [Fits, Spent]⟩
  · rename_i ctx _
    have hcomp := @compensate_fits S C M cfg { a with status := .compensating } ctx [] rfl (by simp [Spent])
    rw [List.append_nil] at hcomp
    exact ⟨hcomp.2, hcomp.1⟩

theorem nodeStep_lives (l : Label C) (hl : l ≠ .stop) (ha : n.actor = some a) (hends : EndsLast n l)
    (hfits : Fits n.tasks a.status) : LivesOn a.status (nodeStep cfg store n log l).1 := by
  have hsame : LivesOn a.status n := ⟨a, ha, follows_refl _, hfits⟩
  cases l with
  | start pingErr =>
    simp only [nodeStep, ha]
    exact hsame
  | event event env =>
    simp only [nodeStep]
    split
    · exact hsame
    · rename_i b hr
      obtain rfl : b = a := Option.some.inj ((ready_eq_some hr).1.symm.trans ha)
      split
      · exact hsame
      by_cases hrun : b.status = .running
      · obtain ⟨hstatus, hplain⟩ := handleStreamEvent_keeps event
        refine ⟨_, rfl, by simp [hrun, Follows], ?_⟩
        rw [hstatus, hrun]
        exact hplain
      · have hidle : handleStreamEvent cfg store b event env log = ⟨b, [], log⟩ := by
          simp [handleStreamEvent, hrun]
        rw [hidle, ← (ready_eq_some hr).2]
        exact ⟨b, rfl, follows_refl _, hfits⟩
  | getState ctx =>
    simp only [nodeStep]
    split
    · exact hsame
    · exact hsame
  | command ctx cmd => exact hsame
  | timeout =>
    simp only [nodeStep]
    split
    · exact hsame
    · rename_i b hr
      obtain rfl : b = a := Option.some.inj ((ready_eq_some hr).1.symm.trans ha)
      by_cases hrun : b.status = .running
      · exact ⟨_, rfl, by simp [hrun, Follows], (handleTimeout_lives b hrun).2⟩
      · have hidle : handleTimeout cfg b = (b, ([] : List (Task C))) := by simp [handleTimeout, hrun]
        rw [hidle, ← (ready_eq_some hr).2]
        exact ⟨b, rfl, follows_refl _, hfits⟩
  | send op answer env =>
    simp only [nodeStep, ha]
    exact sendNext_lives ha hfits
  | proceed =>
    simp only [nodeStep, ha]
    exact proceed_lives ha hends hfits
  | stop => exact absurd rfl hl

def Alive (n : Node S C) : Prop := ∃ a, n.actor = some a ∧ Fits n.tasks a.status

theorem LivesOn.status (h : LivesOn s n) : ∃ t, n.status = some t ∧ Follows s t := by
  obtain ⟨b, hb, hf, -⟩ := h
  exact ⟨b.status, by rw [Node.status, hb]; rfl, hf⟩

def StatusFollows (n n' : Node S C) : Prop := ∀ s, n.status = some s → ∃ t, n'.status = some t ∧ Follows s t

theorem alive_step {l : Label C} (h : Alive n) (hl : l ≠ .stop) (hends : EndsLast n l) :
    Alive (nodeStep cfg store n log l).1 ∧ StatusFollows n (nodeStep cfg store n log l).1 := by
  obtain ⟨a, ha, hfits⟩ := h
  have hlives := @nodeStep_lives S C M cfg store a log n l hl ha hends hfits
  refine ⟨?_, fun s hs => ?_⟩
  · obtain ⟨b, hb, -, hfits⟩ := hlives
    exact ⟨b, hb, hfits⟩
  · rw [Node.status, ha] at hs
    rw [← Option.some.inj hs]
    exact hlives.status

theorem alive_run {labels : List (Label C)} (h : Alive n) (hone : ∀ l ∈ labels, l ≠ .stop)
    (hends : Along (fun s l => nodeStep cfg store s.1 s.2 l) (fun s l => EndsLast s.1 l) (n, log) labels) :
    Alive (nodeRun cfg store n log labels).1 ∧ StatusFollows n (nodeRun cfg store n log labels).1 := by
  have hall := (along_of_forall (fun s l => nodeStep cfg store s.1 s.2 l) (s := (n, log)) hone).and _ hends
  constructor
  · exact run_invariant (fun s l => nodeStep cfg store s.1 s.2 l) (fun s => Alive s.1)
      (fun s l hs hok => (alive_step hs hok.1 hok.2).1) h hall
  · refine run_relates (fun s l => nodeStep cfg store s.1 s.2 l) (fun s => Alive s.1)
      (fun s t => StatusFollows s.1 t.1) ?_ ?_ (fun s l hs hok => (alive_step hs hok.1 hok.2).1)
      (fun s l hs hok => (alive_step hs hok.1 hok.2).2) h hall
    · intro s t ht
      exact ⟨t, ht, follows_refl t⟩
    · intro s t u hst htu v hv
      obtain ⟨w, hw, hvw⟩ := hst v hv
      obtain ⟨x, hx, hwx⟩ := htu w hw
      exact ⟨x, hx, follows_trans hvw hwx⟩

theorem status_of_sendsForward {l : Label C} (h : Alive n) (hs : SendsForward n l) : n.status = some .running := by
  obtain ⟨a, ha, hfits⟩ := h
  obtain ⟨-, ctx, cmd, rest, ht⟩ := hs
  rw [ht] at hfits
  rw [Node.status, ha, Option.map_some, (fits_send hfits).1]

theorem status_of_invokes {l : Label C} (h : Alive n) (hends : EndsLast n l) (hi : InvokesCompensate cfg n l) :
    n.status = some .running ∧ ∃ s, (nodeStep cfg store n log l).1.status = some s ∧ s ≠ .running := by
  obtain ⟨a, ha, hfits⟩ := h
  rcases hi with ⟨rfl, ctx, rest, ht⟩ | ⟨rfl, b, ctx, hr, hrun, -⟩
  · have hspent := hends ctx false true rest ht rfl
    rw [ht] at hfits
    have hrun : a.status = .running := by
      by_contra hne
      simpa using ((fits_finish hfits).2 hne).2
    refine ⟨by rw [Node.status, ha, Option.map_some, hrun], ?_⟩
    have hcomp := @compensate_fits S C M cfg { a with status := .compensating } ctx rest rfl hspent
    refine ⟨_, ?_, hcomp.2⟩
    simp only [nodeStep, ha, proceed, ht, Node.status]
    rfl
  · obtain rfl : b = a := Option.some.inj ((ready_eq_some hr).1.symm.trans ha)
    refine ⟨by rw [Node.status, ha, Option.map_some, hrun], ?_⟩
    refine ⟨_, ?_, (@handleTimeout_lives S C M cfg b hrun).1⟩
    simp only [nodeStep, hr, Node.status]
    rfl

theorem nodeRun_append (before later : List (Label C)) : nodeRun cfg store n log (before ++ later) =
      nodeRun cfg store (nodeRun cfg store n log before).1 (nodeRun cfg store n log before).2 later :=
  run_append ..

theorem alive_between {labels before later : List (Label C)} (h : Alive n) (hone : ∀ l ∈ labels, l ≠ .stop)
    (hends : Along (fun s l => nodeStep cfg store s.1 s.2 l) (fun s l => EndsLast s.1 l) (n, log) labels)
    (hpre : before ++ later <+: labels) : Alive (nodeRun cfg store n log before).1 ∧
      StatusFollows (nodeRun cfg store n log before).1 (nodeRun cfg store n log (before ++ later)).1 := by
  obtain ⟨rest, rfl⟩ := hpre
  have hsplit := (along_append _).mp ((along_append _).mp hends).1
  have hbefore := alive_run h (fun l hl => hone l (by simp [hl])) hsplit.1
  have hlater : ∀ l ∈ later, l ≠ .stop := fun l hl => hone l (by simp [hl])
  have hthen := alive_run hbefore.1 hlater hsplit.2
  refine ⟨hbefore.1, ?_⟩
  rw [nodeRun_append]
  exact hthen.2

/-- Within one incarnation, if every action that ends the saga is the last thing to
be done of its turn: forward commands are only sent in status `running`,
`Compensate` is called at most once, and a terminal status stays. -/
theorem saga_ends_once (cfg : Config S C M) (store : EventsStore) (n : Node S C) (a : Actor S)
    (log : Option EventLog) (labels : List (Label C)) (hactor : n.actor = some a)
    (hrunning : a.status = .running) (hidle : n.tasks = []) (hone : ∀ l ∈ labels, l ≠ .stop)
    (hends : Along (fun s l => nodeStep cfg store s.1 s.2 l) (fun s l => EndsLast s.1 l) (n, log) labels) :
    let node before := (nodeRun cfg store n log before).1
    (∀ before l, before ++ [l] <+: labels → SendsForward (node before) l →
      (node before).status = some .running) ∧
    (∀ before l before' l', before ++ [l] <+: labels → before' ++ [l'] <+: labels →
      InvokesCompensate cfg (node before) l → InvokesCompensate cfg (node before') l' → before = before') ∧
    ∀ before later s, before ++ later <+: labels → (node before).status = some s →
      s = .completed ∨ s = .failed → (node (before ++ later)).status = some s := by
  have halive : Alive n := ⟨a, hactor, by rw [hidle, hrunning]; simp [Fits]⟩
  have hbetween {before later : List (Label C)} (hpre : before ++ later <+: labels) :=
    alive_between halive hone hends hpre
  refine ⟨?_, ?_, ?_⟩
  · intro before l hpre hs
    exact status_of_sendsForward (hbetween hpre).1 hs
  · -- the later of two calls would be made after the earlier one has left `running`
    have hearlier : ∀ before l before' l', before ++ [l] <+: labels → before' ++ [l'] <+: labels →
        InvokesCompensate cfg (nodeRun cfg store n log before).1 l →
        InvokesCompensate cfg (nodeRun cfg store n log before').1 l' → ¬ before ++ [l] <+: before' := by
      rintro before l before' l' hpre hpre' hi hi' ⟨later, rfl⟩
      obtain ⟨-, s, hs, hne⟩ := status_of_invokes (hbetween hpre).1 (hends.at_prefix _ hpre) hi
      have hrun := (@status_of_invokes S C M cfg store log _ l' (hbetween hpre').1 (hends.at_prefix _ hpre') hi').1
      have hlater : before ++ [l] ++ later <+: labels := (List.prefix_append _ [l']).trans hpre'
      have hafter : (nodeRun cfg store n log (before ++ [l])).1.status = some s := by
        rw [nodeRun_append]
        exact hs
      obtain ⟨t, ht, hf⟩ := (hbetween hlater).2 s hafter
      rw [hrun] at ht
      exact hf.ne_running hne (Option.some.inj ht).symm
    intro before l before' l' hpre hpre' hi hi'
    have hle := hearlier before l before' l' hpre hpre' hi hi'
    have hge := hearlier before' l' before l hpre' hpre hi' hi
    have hlen : before.length = before'.length := by
      by_contra hne
      rcases Nat.lt_or_gt_of_ne hne with hlt | hlt
      · refine hle (List.prefix_of_prefix_length_le hpre ((List.prefix_append _ _).trans hpre') ?_)
        rw [List.length_append]
        exact hlt
      · refine hge (List.prefix_of_prefix_length_le hpre' ((List.prefix_append _ _).trans hpre) ?_)
        rw [List.length_append]
        exact hlt
    exact (List.prefix_of_prefix_length_le ((List.prefix_append _ _).trans hpre)
      ((List.prefix_append _ _).trans hpre') hlen.le).eq_of_length hlen
  · intro before later s hpre hs hterm
    obtain ⟨t, ht, hf⟩ := (hbetween hpre).2 s hs
    rcases hterm with rfl | rfl
    · rw [ht, hf]
    · rw [ht, hf]

end

open Enginetest in
def crediting : Config ℕ Command Message :=
  sagaConfig (callbackSaga ⟨[credit "a"], [], false, false⟩ ⟨[], [], true, false⟩ noAction [])

open Enginetest in
/-- The saga is started, reacts to an event and completes inside the action that
sent the command. -/
theorem saga_ends_once_crediting :
    let labels : List (Label Command) :=
      [.event (credited "c" 1 0) reachable, .send none (acceptedBy "a") reachable, .proceed, .proceed]
    let start : Node ℕ Command := ⟨some (spawned crediting), [], [], []⟩
    (nodeRun crediting Testkit.eventsStore start none (labels.take 3)).1.status = some .completed ∧
      (nodeRun crediting Testkit.eventsStore start none labels).1.status = some .completed := by
  intro labels start
  refine ⟨rfl, ?_⟩
  refine (saga_ends_once crediting Testkit.eventsStore start (spawned crediting) none labels rfl rfl rfl
    (by simp [labels]) ?_).2.2 (labels.take 3) [.proceed] .completed (List.prefix_refl _) rfl (.inl rfl)
  refine ⟨trivial, trivial, ?_, ?_, trivial⟩
  · rintro ctx complete compensate rest ht - t hmem
    obtain ⟨-, rfl⟩ := List.cons.inj ht
    exact ⟨none, List.mem_singleton.mp hmem⟩
  · rintro ctx complete compensate rest ht - t hmem
    obtain ⟨-, rfl⟩ := List.cons.inj ht
    exact absurd hmem List.not_mem_nil

open Enginetest in
def hasty : Config ℕ Command Message :=
  sagaConfig (callbackSaga ⟨[credit "a", credit "b"], [], false, false⟩ ⟨[], [], false, true⟩ noAction [])

open Enginetest in
/-- The answer to the first command ends the saga. The loop of the outer action goes
on: the second command is sent in status `completed`, its answer calls `Compensate`
again, and the status goes back to `compensating`. -/
theorem ended_saga_goes_on :
    let labels : List (Label Command) :=
      [.event (credited "c" 1 0) reachable, .send none (acceptedBy "a") reachable, .proceed, .proceed,
        .send none (acceptedBy "b") reachable, .proceed]
    let node k := (nodeRun hasty Testkit.eventsStore ⟨some (spawned hasty), [], [], []⟩ none (labels.take k)).1
    InvokesCompensate hasty (node 2) .proceed ∧ (node 4).status = some .completed ∧
      SendsForward (node 4) (.send none (acceptedBy "b") reachable) ∧
      InvokesCompensate hasty (node 5) .proceed ∧ (node 6).status = some .compensating := by
  refine ⟨.inl ⟨rfl, none, _, rfl⟩, rfl, ⟨⟨_, _, _, rfl⟩, none, _, _, rfl⟩,
    .inl ⟨rfl, none, _, rfl⟩, rfl⟩

def Answer.accepted : Answer → Bool
  | .reply (.stateReply _) => true
  | _ => false

def Answer.delivered : Answer → Bool
  | .failed _ => false
  | _ => true

structure Exchange where
  op : Option String
  answer : Answer
  env : Surroundings

def compensationSteps {C : Type} : List Exchange → List (Label C)
  | [] => [.proceed]
  | x :: xs =>
    if x.answer.delivered then .send x.op x.answer x.env :: compensationSteps xs
    else [.send x.op x.answer x.env]

section
variable {S C M : Type} {cfg : Config S C M} {store : EventsStore} {a : Actor S} {log : Option EventLog}

theorem accepted_delivered {answer : Answer} (h : answer.accepted = true) : answer.delivered = true := by
  cases answer with
  | failed err => simp [Answer.accepted] at h
  | unexpected => rfl
  | reply reply => rfl

theorem nodeRun_cons (n : Node S C) (l : Label C) (labels : List (Label C)) : nodeRun cfg store n log (l :: labels) =
      nodeRun cfg store (nodeStep cfg store n log l).1 (nodeStep cfg store n log l).2 labels := rfl

theorem sendNext_compensate {n : Node S C} {ctx : Option TenantContext} {cmd : SagaCommand C}
    {cmds : List (SagaCommand C)} {rest : List (Task C)} (x : Exchange)
    (ht : n.tasks = .compensate ctx (cmd :: cmds) :: rest) :
    let r := sendNext cfg store a x.op x.answer x.env n log
    if x.answer.delivered then r.1.actor = n.actor ∧ r.1.tasks = .compensate ctx cmds :: rest
    else r.1.actor = some { a with status := .failed } ∧ r.1.tasks = rest := by
  simp only [sendNext, ht]
  cases x.answer with
  | failed | unexpected => exact ⟨rfl, rfl⟩
  | reply reply => exact ⟨rfl, rfl⟩

theorem compensation_run (ctx : Option TenantContext) (rest : List (Task C)) (exchanges : List Exchange)
    (cmds : List (SagaCommand C)) (hlen : exchanges.length = cmds.length) (n : Node S C)
    (ha : n.actor = some a) (ht : n.tasks = .compensate ctx cmds :: rest) (log : Option EventLog) :
    let n' := (nodeRun cfg store n log (compensationSteps exchanges)).1
    n'.tasks = rest ∧ n'.status =
      some (if exchanges.all (·.answer.delivered) then SagaStatus.completed else .failed) := by
  induction exchanges generalizing cmds n log with
  | nil =>
    obtain rfl := List.length_eq_zero_iff.mp hlen.symm
    simp [compensationSteps, nodeRun, nodeStep, ha, proceed, ht, Node.status]
  | cons x xs ih =>
    obtain ⟨cmd, cmds, rfl⟩ := List.exists_cons_of_length_eq_add_one hlen.symm
    have hsend := @sendNext_compensate S C M cfg store a log n ctx cmd cmds rest x ht
    have hstep : nodeStep cfg store n log (.send x.op x.answer x.env) =
        sendNext cfg store a x.op x.answer x.env n log := by simp only [nodeStep, ha]
    by_cases hd : x.answer.delivered = true
    · simp only [hd, if_true] at hsend
      have hthen := ih cmds (by simpa using hlen) _ (hsend.1.trans ha) hsend.2
        (sendNext cfg store a x.op x.answer x.env n log).2
      simp only [compensationSteps, hd, if_true, nodeRun_cons, hstep, List.all_cons, Bool.true_and]
      exact hthen
    · simp only [hd, Bool.false_eq_true, if_false] at hsend
      simp only [compensationSteps, hd, Bool.false_eq_true, if_false, nodeRun_cons, hstep, List.all_cons,
        Bool.false_and]
      have hstatus : (sendNext cfg store a x.op x.answer x.env n log).1.status = some .failed := by
        rw [Node.status, hsend.1]
        rfl
      exact ⟨hsend.2, hstatus⟩

/-- A compensation ends in `completed` exactly if all its commands were accepted
and in `failed` otherwise, exactly if one of them is not delivered or none is
answered otherwise than with a state. -/
theorem compensation_ends_iff (cfg : Config S C M) (store : EventsStore) (n : Node S C) (a : Actor S)
    (ctx : Option TenantContext) (rest : List (Task C)) (log : Option EventLog) (cmds : List (SagaCommand C))
    (exchanges : List Exchange) (hc : cfg.behavior.compensate ctx a.currentState = .ok cmds)
    (hlen : exchanges.length = cmds.length) :
    let r := compensate cfg { a with status := .compensating } ctx
    let n' := (nodeRun cfg store { n with actor := some r.1, tasks := r.2 ++ rest } log
      (compensationSteps exchanges)).1
    n'.tasks = rest ∧ (((n'.status = some .completed ↔ ∀ x ∈ exchanges, x.answer.accepted = true) ∧
          (n'.status = some .failed ↔ ¬ ∀ x ∈ exchanges, x.answer.accepted = true)) ↔
        (∃ x ∈ exchanges, x.answer.delivered = false) ∨
          ∀ x ∈ exchanges, x.answer.delivered = true → x.answer.accepted = true) := by
  intro r n'
  have hr : r = ({ a with status := .compensating }, [.compensate ctx cmds]) := by
    simp only [r, compensate, hc]
  have hrun := @compensation_run S C M cfg store { a with status := .compensating } ctx rest exchanges cmds hlen
    { n with actor := some r.1, tasks := r.2 ++ rest } (by rw [hr]) (by rw [hr]; rfl) log
  refine ⟨hrun.1, ?_⟩
  have hstatus : n'.status =
      some (if exchanges.all (·.answer.delivered) then SagaStatus.completed else .failed) := hrun.2
  rw [hstatus]
  by_cases hall : ∀ x ∈ exchanges, x.answer.delivered = true
  · have htrue : exchanges.all (·.answer.delivered) = true := List.all_eq_true.mpr hall
    have hnone : ¬ ∃ x ∈ exchanges, x.answer.delivered = false := by
      rintro ⟨x, hx, hd⟩
      simp [hall x hx] at hd
    have hsame : (∀ x ∈ exchanges, x.answer.delivered = true → x.answer.accepted = true) ↔
        ∀ x ∈ exchanges, x.answer.accepted = true :=
      forall₂_congr fun x hx => ⟨fun h => h (hall x hx), fun h _ => h⟩
    rw [htrue, hsame]
    simp [hnone]
  · have hfalse : exchanges.all (·.answer.delivered) = false := by
      rw [← Bool.not_eq_true, List.all_eq_true]
      exact hall
    have hnot : ¬ ∀ x ∈ exchanges, x.answer.accepted = true :=
      fun h => hall fun x hx => accepted_delivered (h x hx)
    obtain ⟨x, hx, hd⟩ : ∃ x ∈ exchanges, x.answer.delivered = false := by
      simpa using hall
    have hsome : ∃ x ∈ exchanges, x.answer.delivered = false := ⟨x, hx, hd⟩
    simp [hfalse, hnot, hsome]

end

open Enginetest in
def refunding : Config ℕ Command Message :=
  sagaConfig (callbackSaga noAction noAction noAction [credit "a", credit "b"])

open Enginetest in
theorem compensation_ends_refunding :
    let exchanges : List Exchange := [⟨none, acceptedBy "a", reachable⟩, ⟨none, acceptedBy "b", reachable⟩]
    let r := compensate refunding { spawned refunding with status := .compensating } none
    (nodeRun refunding Testkit.eventsStore ⟨some r.1, r.2, [], []⟩ none (compensationSteps exchanges)).1.status =
        some .completed ↔ ∀ x ∈ exchanges, x.answer.accepted = true := by
  intro exchanges r
  have h := compensation_ends_iff refunding Testkit.eventsStore ⟨none, [], [], []⟩ (spawned refunding) none []
    none [credit "a", credit "b"] exchanges rfl rfl
  exact (h.2.mpr (.inr (by decide))).1

open Enginetest in
/-- The account rejects the refund, and the saga reports that it has completed. -/
theorem rejected_compensation_completes :
    let exchanges : List Exchange :=
      [⟨none, acceptedBy "a", reachable⟩, ⟨none, .reply (.errorReply "insufficient funds"), reachable⟩]
    let r := compensate refunding { spawned refunding with status := .compensating } none
    (nodeRun refunding Testkit.eventsStore ⟨some r.1, r.2, [], []⟩ none (compensationSteps exchanges)).1.status =
        some .completed ∧ ¬ ∀ x ∈ exchanges, x.answer.accepted = true :=
  ⟨rfl, by decide⟩

end Ego.Saga

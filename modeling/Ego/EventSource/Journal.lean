import Ego.EventSource.Node

/-!
# The actor's counter and state against the stored journal

`Stage` says in which of a few situations a sole writer and its journal can be.
-/

namespace Ego.EventSource
open Persistence Protocol Lib

section
variable {S C E : Type}

structure View (S : Type) where
  phase : PersistPhase
  state : S
  counter : ℕ
  buffer : List Event
  entries : ℕ
  -- what a confirmed write will make of state and counter
  pendingState : Option S
  pendingCounter : ℕ
  -- the actor shuts down once it has answered for a failed write
  stops : Bool
  stopping : Bool
  staging : List Block
  awaited : List Block
  writer : List Write
  asks : List Write
  responses : List (Option Err)

def Node.view (n : Node S C) : View S where
  phase := n.actor.phase
  state := n.actor.currentState
  counter := n.actor.eventsCounter
  buffer := n.actor.batchBuffer
  entries := n.actor.batchEntries.length
  pendingState :=
    if n.actor.phase = .persisting then n.actor.directPendingState else n.actor.batchState
  pendingCounter :=
    if n.actor.phase = .persisting then n.actor.directPendingCounter else n.actor.batchCounter
  stops :=
    if n.actor.phase = .replying then n.actor.shutdownOnDrain
    else n.actor.directErr.isSome && n.actor.directShutdown
  stopping := n.stopping
  staging := n.staging
  awaited := n.awaited
  writer := n.writer
  asks := n.asks
  responses := responses n.mailbox

variable (cfg : Config S C E) (ambiguous : Prop) (track : List Event → S → Prop)

structure InSync (state : S) (counter : ℕ) (journal : List Event) : Prop where
  numbered : Numbered (·.sequenceNumber) 0 journal
  length : journal.length = counter
  tracks : track journal state

structure Extends (state : S) (counter : ℕ) (events : List Event) (state' : S) (counter' : ℕ) :
    Prop where
  numbered : Numbered (·.sequenceNumber) counter events
  counter_eq : counter' = counter + events.length
  replays : replay cfg state events = .ok state'

structure BatchOk (v : View S) : Prop where
  buffer : v.buffer = envelopesOf v.staging
  entries : v.entries = v.staging.length
  filled : ∀ b ∈ v.staging, b.envelopes ≠ []
  extends_state : v.staging ≠ [] → ∃ state, v.pendingState = some state ∧
    Extends cfg v.state v.counter (envelopesOf v.staging) state v.pendingCounter

def Pending (v : View S) : Prop := ∃ state, v.pendingState = some state ∧
  Extends cfg v.state v.counter (envelopesOf v.awaited) state v.pendingCounter

def Exact (v : View S) (journal : List Event) : Prop :=
  v.writer = [] ∧ InSync track v.state v.counter journal

/-- The actor may have missed a commit: the journal goes on after what it knows,
or a request it has given up is still on its way to the store. -/
inductive Behind (v : View S) (journal : List Event) : Prop
  | stored {known extra : List Event} (hw : v.writer = []) (hs : InSync track v.state v.counter known)
      (hx : Numbered (·.sequenceNumber) v.counter extra) (hj : journal = known ++ extra) :
      Behind v journal
  | onItsWay {w : Write} (hw : v.writer = [w]) (hs : InSync track v.state v.counter journal)
      (hx : Numbered (·.sequenceNumber) v.counter w.req.envelopes)
      (hb : w.req.envelopes = envelopesOf w.blocks) : Behind v journal

inductive Stage (v : View S) (journal : List Event) : Prop
  | ready (hp : v.phase = .processing) (ha : v.asks = []) (hr : v.responses = [])
      (hj : Exact track v journal) (hb : BatchOk cfg v)
  | doomed (hamb : ambiguous) (hp : v.phase = .processing) (ha : v.asks = []) (hr : v.responses = [])
      (hstop : v.stopping = true) (hg : v.staging = []) (hbuf : v.buffer = []) (he : v.entries = 0)
      (hj : Behind track v journal)
  | waiting {w : Write} (hp : v.phase = .persisting ∨ v.phase = .flushing) (hg : v.staging = [])
      (hw : v.writer = [w]) (ha : v.asks = [w]) (hr : v.responses = [])
      (hs : InSync track v.state v.counter journal) (hx : w.req.envelopes = envelopesOf v.awaited)
      (hb : w.blocks = v.awaited) (hpend : Pending cfg v)
  | lost {w : Write} (hamb : ambiguous) (hp : v.phase = .persisting ∨ v.phase = .flushing)
      (hg : v.staging = []) (hw : v.writer = []) (ha : v.asks = [w]) (hr : v.responses = [])
      (hpend : Pending cfg v) (hj : Behind track v journal)
  | confirmed {known : List Event} (hp : v.phase = .persisting ∨ v.phase = .flushing)
      (hg : v.staging = []) (hw : v.writer = []) (ha : v.asks = []) (hr : v.responses = [none])
      (hpend : Pending cfg v) (hs : InSync track v.state v.counter known)
      (hj : journal = known ++ envelopesOf v.awaited)
  | rejected (err : Err) (hp : v.phase = .persisting ∨ v.phase = .flushing) (hg : v.staging = [])
      (ha : v.asks = []) (hr : v.responses = [some err])
      (hj : Exact track v journal ∨ ambiguous ∧ (∃ text, err = .message text) ∧ Behind track v journal)
  | draining (hp : v.phase = .replying ∨ v.phase = .directReplying) (hg : v.staging = [])
      (ha : v.asks = []) (hr : v.responses = [])
      (hj : Exact track v journal ∨ ambiguous ∧ v.stops = true ∧ Behind track v journal)

structure JournalInv (n : Node S C) (log : Option EventLog) : Prop where
  phaseOk : PhaseOk cfg n.actor
  stashOk : responses n.stash = []
  stage : Stage cfg ambiguous track n.view (journal log)
  ledger : journal log = envelopesOf n.committed
  taken : ∀ r ∈ n.snapshots, r.snapshot.sequenceNumber ≤ (journal log).length

def yieldsEvents (a : Actor S) (ctx : Ctx) (cmd : C) : Bool :=
  match dispatchToBehavior cfg ctx cmd (latestState a) with
  | .ok (_ :: _) => true
  | _ => false

def CaughtUp (n : Node S C) (log : Option EventLog) : Prop :=
  n.writer = [] ∧ (journal log).length = n.actor.eventsCounter

def QuietStop (n : Node S C) (log : Option EventLog) : Prop :=
  n.stopping = true → ∀ id ctx cmd rest, n.mailbox = .command id ctx cmd :: rest →
    yieldsEvents cfg n.actor ctx cmd = true → CaughtUp n log

/-- A snapshot the store may return: none, or one the actor asked for, as the
snapshot writer encrypts it. -/
def StoredSnapshot (n : Node S C) (snapshot : Option Snapshot) : Prop :=
  ∀ s, snapshot = some s → ∃ r ∈ n.snapshots, encryptSnapshotState cfg r.snapshot = .ok s

/-- The steps the invariant allows: outcomes are lost or come late only where
`ambiguous`, and a new incarnation starts when no write is on its way. -/
def LabelOk (store : EventsStore) (n : Node S C) (log : Option EventLog) : Label C → Prop
  | .deliver _ _ => ambiguous → QuietStop cfg n log
  | .write outcome => outcome = .lost → ambiguous
  | .timeout _ => ambiguous
  | .restart snapshot => n.writer = [] ∧ StoredSnapshot cfg n snapshot ∧
      ∀ a, recover cfg store snapshot log = .ok a → track (journal log) a.currentState
  | _ => True

variable {cfg ambiguous track}
variable {n : Node S C} {v : View S} {log : Option EventLog} {J : List Event}

theorem JournalInv.eq_of_journal {log' : Option EventLog} (h : journal log' = journal log) :
    JournalInv cfg ambiguous track n log' = JournalInv cfg ambiguous track n log := by
  apply propext
  constructor
  · rintro ⟨hok, hst, hstage, hl, htaken⟩
    rw [h] at hstage hl htaken
    exact ⟨hok, hst, hstage, hl, htaken⟩
  · rintro ⟨hok, hst, hstage, hl, htaken⟩
    rw [← h] at hstage hl htaken
    exact ⟨hok, hst, hstage, hl, htaken⟩

variable {state : S} {counter : ℕ} {events : List Event}

theorem InSync.append {state' : S} {counter' : ℕ}
    (htrack : ∀ J s es s', track J s → replay cfg s es = .ok s' → track (J ++ es) s')
    (hs : InSync track state counter J) (hx : Extends cfg state counter events state' counter') :
    InSync track state' counter' (J ++ events) where
  numbered := numbered_append.mpr ⟨hs.numbered, by rw [Nat.zero_add, hs.length]; exact hx.numbered⟩
  length := by rw [List.length_append, hs.length, hx.counter_eq]
  tracks := htrack _ _ _ _ hs.tracks hx.replays

theorem InSync.numbered_append (hs : InSync track state counter J) (hx : Numbered (·.sequenceNumber) counter events) :
    Numbered (·.sequenceNumber) 0 (J ++ events) :=
  Lib.numbered_append.mpr ⟨hs.numbered, by rw [Nat.zero_add, hs.length]; exact hx⟩

theorem InSync.fresh (hs : InSync track state counter (journal log))
    (hx : Numbered (·.sequenceNumber) counter events) : Fresh log events :=
  fresh_of_numbered (hs.numbered_append hx)

theorem Extends.append {s₀ s₁ s₂ : S} {c₀ c₁ c₂ : ℕ} {xs ys : List Event}
    (hx : Extends cfg s₀ c₀ xs s₁ c₁) (hy : Extends cfg s₁ c₁ ys s₂ c₂) : Extends cfg s₀ c₀
    (xs ++ ys) s₂ c₂ where
  numbered := numbered_append.mpr ⟨hx.numbered, hx.counter_eq ▸ hy.numbered⟩
  counter_eq := by
    rw [hy.counter_eq, hx.counter_eq, List.length_append]
    omega
  replays := (replay_append hx.replays ys).trans hy.replays

theorem Produces.extends {ctx : Ctx} {cmd : C} {now : ℤ} {tc : Tenancy.TenantContext} {s s' : S}
    {c c' : ℕ} {envelopes : List Event} (h : Produces cfg ctx cmd now tc s c envelopes s' c') :
    Extends cfg s c envelopes s' c' where
  numbered := h.envelopes.1.numbered
  counter_eq := h.envelopes.1.counter_eq
  replays := h.envelopes.1.replays

theorem Behind.exact (h : Behind track v J) (hw : v.writer = []) (hl : J.length = v.counter) : Exact track v J := by
  cases h with
  | onItsWay hw' => simp [hw] at hw'
  | @stored known extra _ hs hx hj =>
    subst hj
    have hnil : extra = [] := List.length_eq_zero_iff.mp (by
      rw [List.length_append, hs.length] at hl
      omega)
    rw [hnil, List.append_nil]
    exact ⟨hw, hs⟩

theorem batchOk_closed (hg : v.staging = []) (hbuf : v.buffer = []) (he : v.entries = 0) : BatchOk cfg v where
  buffer := by rw [hbuf, hg, envelopesOf_nil]
  entries := by rw [he, hg, List.length_nil]
  filled := by simp [hg]
  extends_state := fun hne => absurd hg hne

/-! ### One message -/

theorem Stage.exact_of_yields (h : Stage cfg ambiguous track n.view (journal log)) (hp : n.actor.phase = .processing)
    (hq : n.actor.batchEntries = [] → ambiguous → n.stopping = true → CaughtUp n log) :
    Exact track n.view (journal log) ∧ BatchOk cfg n.view ∧ n.asks = [] ∧ responses n.mailbox = [] := by
  cases h with
  | ready _ ha hr hj hb => exact ⟨hj, hb, ha, hr⟩
  | doomed hamb _ ha hr hstop hg hbuf he hj =>
    obtain ⟨hw, hl⟩ := hq (List.length_eq_zero_iff.mp he) hamb hstop
    exact ⟨hj.exact hw hl, batchOk_closed hg hbuf he, ha, hr⟩
  | waiting hp' | lost _ hp' | confirmed hp' | rejected _ hp' | draining hp' =>
    change n.actor.phase = _ ∨ n.actor.phase = _ at hp'
    simp [hp] at hp'

section
variable (hb : BatchOk cfg n.view)
include hb

theorem BatchOk.staging_ne (he : n.actor.batchEntries ≠ []) : n.staging ≠ [] := by
  intro hs
  have hlen : n.actor.batchEntries.length = n.staging.length := hb.entries
  rw [hs] at hlen
  exact he (List.length_eq_zero_iff.mp hlen)

theorem BatchOk.of_open (hp : n.actor.phase = .processing)
    (he : n.actor.batchEntries ≠ []) : ∃ state, n.actor.batchState = some state ∧
      Extends cfg n.actor.currentState n.actor.eventsCounter (envelopesOf n.staging) state n.actor.batchCounter := by
  obtain ⟨state, hstate, hext⟩ := hb.extends_state (hb.staging_ne he)
  simp only [Node.view, hp, reduceCtorEq, if_false] at hstate hext
  exact ⟨state, hstate, hext⟩

theorem BatchOk.latest (hp : n.actor.phase = .processing) :
    Extends cfg n.actor.currentState n.actor.eventsCounter (envelopesOf n.staging)
      (latestState n.actor) (latestCounter n.actor) := by
  by_cases he : n.actor.batchEntries = []
  · have hlen : n.actor.batchEntries.length = n.staging.length := hb.entries
    have hs : n.staging = [] := by simpa [he] using hlen.symm
    simp only [hs, envelopesOf_nil, latestState, latestCounter, he, if_true]
    exact ⟨trivial, rfl, rfl⟩
  · obtain ⟨state, hstate, hext⟩ := hb.of_open hp he
    simp only [latestState, latestCounter, he, if_false, hstate, Option.getD_some]
    exact hext

theorem BatchOk.fold {b : Block} (hp : n.actor.phase = .processing) (hne : b.envelopes ≠ [])
    (hx : Extends cfg (latestState n.actor) (latestCounter n.actor) b.envelopes state counter)
    (tenant : Tenancy.TenantContext) (hasPre : Bool) (base : ℕ) (now : ℤ) : BatchOk cfg (Node.view { n with
      actor := foldInto cfg n.actor tenant hasPre base b.envelopes state counter now
      staging := n.staging ++ [b] }) where
  buffer := by
    have := hb.buffer
    simp only [Node.view] at this
    simp [Node.view, foldInto, this]
  entries := by
    have := hb.entries
    simp only [Node.view] at this
    simp [Node.view, foldInto, this]
  filled := List.forall_mem_append.mpr ⟨hb.filled, List.forall_mem_singleton.mpr hne⟩
  extends_state := fun _ => by
    have := (hb.latest hp).append hx
    simpa [Node.view, foldInto, hp] using this

theorem BatchOk.pop (rest : List (Message C)) :
    BatchOk cfg (Node.view { n with mailbox := rest }) :=
  ⟨hb.buffer, hb.entries, hb.filled, hb.extends_state⟩

theorem flush_stage (hj : Exact track n.view J) (ha : n.asks = [])
    (hr : responses n.mailbox = []) (hp : n.actor.phase = .processing)
    (he : n.actor.batchEntries ≠ []) (msg : Message C) (place : List Bool) (p : WritePrecondition)
    (scope : Scope) : Stage cfg ambiguous track
      (perform msg place { n with actor := { n.actor with flushTimer := none, phase := .flushing } }
        (.pipeTo ⟨n.actor.batchBuffer, p, scope⟩)).view J := by
  have hs : n.staging ≠ [] := hb.staging_ne he
  have hw : n.writer = [] := hj.1
  refine .waiting (w := ⟨n.asked, ⟨n.actor.batchBuffer, p, scope⟩, n.staging⟩) (.inr rfl) rfl
    ?_ ?_ hr hj.2 hb.buffer rfl ?_
  · simp [Node.view, perform, hw]
  · simp [Node.view, perform, ha]
  · simpa [Pending, Node.view, perform, hp] using hb.extends_state hs

end

variable {rest : List (Message C)}

section
variable (h : Stage cfg ambiguous track n.view (journal log))
include h

theorem Stage.of_success (hm : n.mailbox = .persistEventsResponse none :: rest) :
    responses rest = [] ∧ n.staging = [] ∧ n.asks = [] ∧ n.writer = [] ∧ Pending cfg n.view ∧
      ∃ known, InSync track n.actor.currentState n.actor.eventsCounter known ∧
        journal log = known ++ envelopesOf n.awaited := by
  have hresp : n.view.responses = none :: responses rest := by simp [Node.view, hm]
  cases h with
  | confirmed hp hg hw ha hr hpend hs hj =>
    rw [hr] at hresp
    exact ⟨(List.cons.inj hresp).2.symm, hg, ha, hw, hpend, _, hs, hj⟩
  | rejected _ _ _ _ hr => simp [hr] at hresp
  | ready _ _ hr | doomed _ _ _ hr | waiting _ _ _ _ hr | lost _ _ _ _ _ hr | draining _ _ _ hr =>
    simp [hr] at hresp

theorem Stage.of_failure {err : Err}
    (hm : n.mailbox = .persistEventsResponse (some err) :: rest) :
    responses rest = [] ∧ n.staging = [] ∧ n.asks = [] ∧ (Exact track n.view (journal log) ∨
        ambiguous ∧ (∃ text, err = .message text) ∧ Behind track n.view (journal log)) := by
  have hresp : n.view.responses = some err :: responses rest := by simp [Node.view, hm]
  cases h with
  | rejected err' hp hg ha hr hj =>
    rw [hr] at hresp
    obtain ⟨he, hrest⟩ := List.cons.inj hresp
    cases he
    exact ⟨hrest.symm, hg, ha, hj⟩
  | confirmed _ _ _ _ hr => simp [hr] at hresp
  | ready _ _ hr | doomed _ _ _ hr | waiting _ _ _ _ hr | lost _ _ _ _ _ hr | draining _ _ _ hr =>
    simp [hr] at hresp

theorem Stage.of_draining (hp : n.actor.phase = .replying ∨ n.actor.phase = .directReplying) :
    n.staging = [] ∧ n.asks = [] ∧ responses n.mailbox = [] ∧ (Exact track n.view (journal log) ∨
        ambiguous ∧ n.view.stops = true ∧ Behind track n.view (journal log)) := by
  cases h with
  | draining _ hg ha hr hj => exact ⟨hg, ha, hr, hj⟩
  | ready hp' | doomed _ hp' =>
    change n.actor.phase = _ at hp'
    simp [hp'] at hp
  | waiting hp' | lost _ hp' | confirmed hp' | rejected _ hp' =>
    change n.actor.phase = _ ∨ n.actor.phase = _ at hp'
    rcases hp' with hp' | hp' <;> simp [hp'] at hp

end

variable {v' : View S}

theorem Exact.of_eq (h : Exact track v J) (hw : v'.writer = v.writer)
    (hs : v'.state = v.state) (hc : v'.counter = v.counter) : Exact track v' J := by
  unfold Exact at *
  rw [hw, hs, hc]
  exact h

theorem Behind.of_eq (h : Behind track v J) (hw : v'.writer = v.writer)
    (hs : v'.state = v.state) (hc : v'.counter = v.counter) : Behind track v' J := by
  cases h with
  | stored hw' hs' hx hj =>
    exact .stored (hw.trans hw') (by rw [hs, hc]; exact hs') (by rw [hc]; exact hx) hj
  | onItsWay hw' hs' hx hb =>
    exact .onItsWay (hw.trans hw') (by rw [hs, hc]; exact hs') (by rw [hc]; exact hx) hb

theorem settle_stage (hj : Exact track v J ∨ ambiguous ∧ v.stops = true ∧ Behind track v J)
    (hw : v'.writer = v.writer) (hs : v'.state = v.state) (hc : v'.counter = v.counter)
    (hp : v'.phase = .processing) (ha : v'.asks = []) (hr : v'.responses = [])
    (hg : v'.staging = []) (hbuf : v'.buffer = []) (he : v'.entries = 0)
    (hstop : v.stops = true → v'.stopping = true) : Stage cfg ambiguous track v' J := by
  rcases hj with hj | ⟨hamb, hstops, hj⟩
  · exact .ready hp ha hr (hj.of_eq hw hs hc) (batchOk_closed hg hbuf he)
  · exact .doomed hamb hp ha hr (hstop hstops) hg hbuf he (hj.of_eq hw hs hc)

theorem Produces.yieldsEvents {a : Actor S} {ctx : Ctx} {cmd : C} {now : ℤ}
    {tc : Tenancy.TenantContext} {c c' : ℕ} {s' : S} {envelopes : List Event}
    (h : Produces cfg ctx cmd now tc (latestState a) c envelopes s' c') : yieldsEvents cfg a ctx cmd = true := by
  obtain ⟨event, events, hd, -⟩ := h.built
  simp [EventSource.yieldsEvents, hd]

theorem View.set_responses {r : List (Option Err)} (h : v.responses = r) : { v with responses := r } = v := by
  subst h
  rfl

theorem Reaction.stage {turn : Turn} {msg : Message C} {a' : Actor S}
    {effects : List Effect} (hre : Reaction cfg n.actor msg turn a' effects) (place : List Bool)
    (htrack : ∀ J s es s', track J s → replay cfg s es = .ok s' → track (J ++ es) s')
    (hok : PhaseOk cfg n.actor) (hst : responses n.stash = [])
    (h : Stage cfg ambiguous track n.view (journal log)) (hq : ambiguous → QuietStop cfg n log)
    (hm : n.mailbox = msg :: rest) : Stage cfg ambiguous track
      (performAll msg place { n with actor := a', mailbox := rest } effects).view (journal log) := by
  cases hre
  case idleTick | stashedCommand | stashedRead | readDenied | read | denied | failed |
      unchanged | unchangedInBatch | drain =>
    have hrest : n.view.responses = responses rest := by simp [Node.view, hm]
    rw [← View.set_responses hrest] at h
    exact h
  case ignored err hp =>
    -- outside of a write there is no outcome in the mailbox
    have hresp : n.view.responses = err :: responses rest := by simp [Node.view, hm]
    cases h with
    | ready _ _ hr | doomed _ _ _ hr | draining _ _ _ hr => simp [hr] at hresp
    | waiting hp' | lost _ hp' | confirmed hp' | rejected _ hp' => exact absurd hp' (not_or.mpr hp)
  case tickFlush hmode hp he =>
    obtain ⟨hj, hb, ha, hr⟩ := h.exact_of_yields hp (absurd · he)
    rw [hm, responses_tick] at hr
    exact flush_stage (n := { n with mailbox := rest }) (hb.pop rest) hj ha hr hp he
      .batchFlushTick place _ _
  case gateFlush hmode hp hadm =>
    have he : n.actor.batchEntries ≠ [] := by
      intro he
      simp [inadmissible, he] at hadm
    obtain ⟨hj, hb, ha, hr⟩ := h.exact_of_yields hp (absurd · he)
    rw [hm, responses_command] at hr
    rw [performAll_append, performAll_stopped]
    exact flush_stage (n := { n with mailbox := rest }) (hb.pop rest) hj ha hr hp he
      .batchFlushTick place _ _
  case persist id ctx cmd tc tenant envelopes state counter hmode hp hgate hprod =>
    have hempty := (hok.direct hmode).2.1
    have hlatest : latestState n.actor = n.actor.currentState := by simp [latestState, hempty]
    obtain ⟨hj, hb, ha, hr⟩ := h.exact_of_yields hp fun _ hamb hstop =>
      hq hamb hstop id ctx cmd rest hm ((hlatest ▸ hprod : Produces cfg ctx cmd turn.now tc
        (latestState n.actor) n.actor.eventsCounter envelopes state counter).yieldsEvents)
    rw [hm, responses_command] at hr
    have hw : n.writer = [] := hj.1
    have hg : n.staging = [] := by
      have hlen := hb.entries
      simpa [Node.view, hempty] using hlen.symm
    refine .waiting (w := ⟨n.asked, ⟨envelopes, preconditionFromRevision ctx.expectedRevision,
      cfg.scope⟩, [⟨id, envelopes, pendingReply cfg state counter turn.now⟩]⟩) (.inl rfl) rfl ?_ ?_
      hr hj.2 ?_ ?_ ?_
    · simp [Node.view, perform, hw, hg, Message.id]
    · simp [Node.view, perform, ha, hg, Message.id]
    · simp [Node.view, perform, hg]
    · simp [Node.view, perform, hg, Message.id]
    · refine ⟨state, by simp [Node.view, perform], ?_⟩
      simpa [Node.view, perform, hg] using hprod.extends
  case fold id ctx cmd tc tenant hasPre base envelopes state counter timer started hmode hp
      hadm hbase hgate hprod htimer =>
    obtain ⟨hj, hb, ha, hr⟩ := h.exact_of_yields hp fun _ hamb hstop =>
      hq hamb hstop id ctx cmd rest hm hprod.yieldsEvents
    rw [hm, responses_command] at hr
    have hfold := hb.fold (b := ⟨id, envelopes, pendingReply cfg state counter turn.now⟩)
      hp hprod.envelopes.2 hprod.extends tenant hasPre base turn.now
    rcases htimer with ⟨-, rfl⟩ | ⟨-, rfl, rfl⟩ <;>
      exact .ready hp ha hr hj ⟨hfold.buffer, hfold.entries, hfold.filled, hfold.extends_state⟩
  case foldFlush id ctx cmd tc tenant hasPre base envelopes state counter hmode hp hadm hbase
      hgate hprod =>
    obtain ⟨hj, hb, ha, hr⟩ := h.exact_of_yields hp fun _ hamb hstop =>
      hq hamb hstop id ctx cmd rest hm hprod.yieldsEvents
    rw [hm, responses_command] at hr
    have hfold := hb.fold (b := ⟨id, envelopes, pendingReply cfg state counter turn.now⟩)
      hp hprod.envelopes.2 hprod.extends tenant hasPre base turn.now
    rw [performAll_append, performAll_append, performAll_stopped]
    exact flush_stage (n := { n with
        mailbox := rest
        actor := foldInto cfg n.actor tenant hasPre base envelopes state counter turn.now
        staging := n.staging ++ [⟨id, envelopes, pendingReply cfg state counter turn.now⟩] })
      ⟨hfold.buffer, hfold.entries, hfold.filled, hfold.extends_state⟩ hj ha hr hp (by simp [foldInto])
      .batchFlushTick place _ _
  case directConfirmed snaps hp hs =>
    obtain ⟨hr, hg, ha, hw, ⟨state, hstate, hext⟩, known, hsync, hj⟩ := h.of_success hm
    simp only [Node.view, hp, if_true] at hstate hext
    rw [performAll_append, performAll_tellSnapshot]
    refine .draining (.inr rfl) hg ha (responses_interleave hst hr) (.inl ⟨hw, ?_⟩)
    rw [hj]
    have hsync' := hsync.append htrack hext
    simpa [Node.view, perform, applyConfirmedState, hstate] using hsync'
  case batchConfirmed snaps hp hs =>
    obtain ⟨hr, hg, ha, hw, ⟨state, hstate, hext⟩, known, hsync, hj⟩ := h.of_success hm
    simp only [Node.view, hp, reduceCtorEq, if_false] at hstate hext
    rw [performAll_append, performAll_tellSnapshot]
    refine .draining (.inl rfl) hg ha (responses_interleave hst hr) (.inl ⟨hw, ?_⟩)
    rw [hj]
    have hsync' := hsync.append htrack hext
    simpa [Node.view, perform, applyConfirmedState, hstate] using hsync'
  case directFailed err hp =>
    obtain ⟨hr, hg, ha, hj⟩ := h.of_failure hm
    refine .draining (.inr rfl) hg ha (responses_interleave hst hr) ?_
    rcases hj with hj | ⟨hamb, ⟨text, rfl⟩, hj⟩
    · exact .inl hj
    · exact .inr ⟨hamb, rfl, hj.of_eq rfl rfl rfl⟩
  case batchFailed err hp =>
    obtain ⟨hr, hg, ha, hj⟩ := h.of_failure hm
    refine .draining (.inl rfl) hg ha (responses_interleave hst hr) ?_
    rcases hj with hj | ⟨hamb, ⟨text, rfl⟩, hj⟩
    · exact .inl hj
    · exact .inr ⟨hamb, rfl, hj.of_eq rfl rfl rfl⟩
  case replySuccess hp he =>
    obtain ⟨hg, ha, hr, hj⟩ := h.of_draining (.inr hp)
    rw [hm, responses_command] at hr
    obtain ⟨hentries, hbuffer⟩ := (hok.direct (hok.direct_of_phase (.inr hp))).2
    refine settle_stage hj rfl rfl rfl rfl ha (responses_interleave hst hr) hg hbuffer ?_ ?_
    · exact List.length_eq_zero_iff.mpr hentries
    · simp [Node.view, hp, he]
  case replyFailure err hp he =>
    obtain ⟨hg, ha, hr, hj⟩ := h.of_draining (.inr hp)
    rw [hm, responses_command] at hr
    obtain ⟨hentries, hbuffer⟩ := (hok.direct (hok.direct_of_phase (.inr hp))).2
    rw [performAll_append, performAll_shutdown]
    refine settle_stage hj rfl rfl rfl rfl ha (responses_interleave hst hr) hg hbuffer ?_ ?_
    · exact List.length_eq_zero_iff.mpr hentries
    · intro hstops
      have hsd : n.actor.directShutdown = true := by simpa [Node.view, hp, he] using hstops
      simp [Node.view, hsd]
  case drainLast reply hp hrem hl =>
    obtain ⟨hg, ha, hr, hj⟩ := h.of_draining (.inl hp)
    rw [hm, responses_command] at hr
    rw [performAll_cons, performAll_shutdown]
    refine settle_stage hj rfl rfl rfl rfl ha hr hg rfl rfl fun hstops => ?_
    have hsd : n.actor.shutdownOnDrain = true := by simpa [Node.view, hp] using hstops
    simp [Node.view, hsd]

theorem InSync.counter_le {known : List Event} (h : InSync track state counter known) (extra : List Event) :
    counter ≤ (known ++ extra).length := by
  rw [List.length_append, h.length]
  omega

theorem Behind.counter_le (h : Behind track v J) : v.counter ≤ J.length := by
  cases h with
  | stored _ hs _ hj => exact hj ▸ hs.counter_le _
  | onItsWay _ hs => exact Nat.le_of_eq hs.length.symm

theorem Stage.counter_le (h : Stage cfg ambiguous track v J) : v.counter ≤ J.length := by
  cases h with
  | ready _ _ _ hj => exact Nat.le_of_eq hj.2.length.symm
  | waiting _ _ _ _ _ hs => exact Nat.le_of_eq hs.length.symm
  | doomed _ _ _ _ _ _ _ _ hj | lost _ _ _ _ _ _ _ hj => exact hj.counter_le
  | confirmed _ _ _ _ _ _ hs hj => exact hj ▸ hs.counter_le _
  | rejected _ _ _ _ _ hj | draining _ _ _ _ hj =>
    rcases hj with hj | ⟨-, -, hj⟩
    · exact Nat.le_of_eq hj.2.length.symm
    · exact hj.counter_le

theorem Behind.numbered (h : Behind track v J) : Numbered (·.sequenceNumber) 0 J := by
  cases h with
  | stored _ hs hx hj =>
    rw [hj]
    exact numbered_append.mpr ⟨hs.numbered, by rw [Nat.zero_add, hs.length]; exact hx⟩
  | onItsWay _ hs => exact hs.numbered

theorem Stage.numbered (h : Stage cfg ambiguous track v J) : Numbered (·.sequenceNumber) 0 J := by
  cases h with
  | ready _ _ _ hj => exact hj.2.numbered
  | waiting _ _ _ _ _ hs => exact hs.numbered
  | doomed _ _ _ _ _ _ _ _ hj | lost _ _ _ _ _ _ _ hj => exact hj.numbered
  | confirmed _ _ _ _ _ hpend hs hj =>
    obtain ⟨state, -, hext⟩ := hpend
    rw [hj]
    exact numbered_append.mpr ⟨hs.numbered, by rw [Nat.zero_add, hs.length]; exact hext.numbered⟩
  | rejected _ _ _ _ _ hj | draining _ _ _ _ hj =>
    rcases hj with hj | ⟨-, -, hj⟩
    · exact hj.2.numbered
    · exact hj.numbered

theorem mem_trigger {a : Actor S} {r : PersistSnapshotRequest} (h : r ∈ triggerSnapshotAndRetention cfg a) :
    r = snapshotAndRetain cfg a ∧ cfg.snapshotsWriter = true ∧ 0 < cfg.snapshotInterval := by
  unfold triggerSnapshotAndRetention at h
  split at h
  · simp at h
  · rename_i hcond
    simp only [Bool.or_eq_true, Bool.not_eq_true', beq_iff_eq, not_or] at hcond
    exact ⟨List.mem_singleton.mp h, by simpa using hcond.1.1, Nat.pos_of_ne_zero hcond.1.2⟩

theorem crossed_configured {a : Actor S} {previous : ℕ} (h : crossedSnapshotBoundary cfg a previous = true) :
    cfg.snapshotsWriter = true ∧ 0 < cfg.snapshotInterval := by
  unfold crossedSnapshotBoundary at h
  split at h
  · simp at h
  · rename_i hcond
    simp only [Bool.or_eq_true, Bool.not_eq_true', beq_iff_eq, not_or] at hcond
    exact ⟨by simpa using hcond.1, Nat.pos_of_ne_zero hcond.2⟩

theorem Reaction.snapshots {turn : Turn} {msg : Message C} {a' : Actor S} {effects : List Effect}
    (hre : Reaction cfg n.actor msg turn a' effects) (rest : List (Message C)) (place : List Bool)
    (r : PersistSnapshotRequest)
    (h : r ∈ (performAll msg place { n with actor := a', mailbox := rest } effects).snapshots) :
    r ∈ n.snapshots ∨ (msg = .persistEventsResponse none ∧ r = snapshotAndRetain cfg a' ∧
      (cfg.snapshotsWriter = true ∧ 0 < cfg.snapshotInterval) ∧
      a'.cachedStateAny = some (cfg.codec.newState a'.currentState) ∧
      a'.currentState = n.view.pendingState.getD n.actor.currentState ∧
      a'.eventsCounter = n.view.pendingCounter ∧ a'.actorTenant = n.actor.actorTenant) := by
  cases hre
  case directConfirmed hp hs =>
    rw [performAll_append, performAll_tellSnapshot] at h
    rcases List.mem_append.mp h with h | h
    · exact .inl h
    · rw [hs] at h
      refine .inr ⟨rfl, (mem_trigger h).1, (mem_trigger h).2, rfl, ?_, ?_, rfl⟩ <;>
        simp [Node.view, hp, applyConfirmedState]
  case batchConfirmed hp hs =>
    rw [performAll_append, performAll_tellSnapshot] at h
    rcases List.mem_append.mp h with h | h
    · exact .inl h
    · rw [hs] at h
      split at h
      · rename_i hcross
        refine .inr ⟨rfl, List.mem_singleton.mp h, crossed_configured hcross, rfl, ?_, ?_, rfl⟩ <;>
          simp [Node.view, hp, applyConfirmedState]
      · simp at h
  case fold ht => rcases ht with ⟨-, rfl⟩ | ⟨-, -, rfl⟩ <;> exact .inl h
  case gateFlush | foldFlush | replyFailure | drainLast =>
    simp [perform, performAll_append] at h
    exact .inl h
  all_goals exact .inl h

/-! ### One step of the node -/

theorem deliver_journalInv (turn : Turn) (place : List Bool)
    (htrack : ∀ J s es s', track J s → replay cfg s es = .ok s' → track (J ++ es) s')
    (h : JournalInv cfg ambiguous track n log) (hq : ambiguous → QuietStop cfg n log) :
    JournalInv cfg ambiguous track (deliver cfg turn place n) log := by
  cases hm : n.mailbox with
  | nil => rwa [deliver_nil turn place hm]
  | cons msg rest =>
    obtain ⟨a', effects, hre, heq⟩ := deliver_reaction turn place h.phaseOk hm
    rw [heq]
    generalize n.computed ++ ownReplies n.actor.phase msg effects = computed
    have hstage := hre.stage (n := { n with computed := computed }) place htrack h.phaseOk h.stashOk
      h.stage hq hm
    refine ⟨?_, hre.stashOk (n := { n with computed := computed }) place h.stashOk, hstage, ?_, ?_⟩
    · rw [performAll_actor]
      exact hre.phaseOk h.phaseOk
    · rw [(performAll_frame _ _ _ _).1]
      exact h.ledger
    · intro r hr
      rcases hre.snapshots (n := { n with computed := computed }) _ _ r hr with hr | ⟨-, rfl, -⟩
      · exact h.taken r hr
      · have hle := hstage.counter_le
        simpa [Node.view, snapshotAndRetain, newSnapshotEnvelope] using hle

inductive WriteResult (ambiguous : Prop) (w : Write) (n : Node S C) (J J' : List Event) :
    Node S C → Prop
  | accepted (hj : J' = J ++ w.req.envelopes) :
      WriteResult ambiguous w n J J' (answerAsk w none
        { n with writer := [], committed := n.committed ++ w.blocks })
  | unreported (hamb : ambiguous) (hj : J' = J ++ w.req.envelopes) :
      WriteResult ambiguous w n J J' { n with writer := [], committed := n.committed ++ w.blocks }
  | refused (err : Err) (hj : J' = J) :
      WriteResult ambiguous w n J J' (answerAsk w (some err) { n with writer := [] })
  | dropped (hamb : ambiguous) (hj : J' = J) : WriteResult ambiguous w n J J' { n with writer := [] }

variable {w : Write}

theorem Stage.head_write {later : List Write}
    (h : Stage cfg ambiguous track n.view (journal log)) (hw : n.writer = w :: later) :
    later = [] ∧ Numbered (·.sequenceNumber) 0 (journal log ++ w.req.envelopes) := by
  have hw' : n.view.writer = w :: later := hw
  have hexact : ¬ Exact track n.view (journal log) := fun hj => by simp [hj.1] at hw'
  have hbehind : Behind track n.view (journal log) → later = [] ∧
      Numbered (·.sequenceNumber) 0 (journal log ++ w.req.envelopes) := by
    intro hj
    cases hj with
    | stored hnil => simp [hnil] at hw'
    | onItsWay hone hs hx hb =>
      obtain ⟨rfl, rfl⟩ := List.cons.inj (hone.symm.trans hw')
      exact ⟨rfl, hs.numbered_append hx⟩
  cases h with
  | @waiting w' hp hg hone ha hr hs hx hb hpend =>
    obtain ⟨rfl, rfl⟩ := List.cons.inj (hone.symm.trans hw')
    obtain ⟨state, -, hext⟩ := hpend
    exact ⟨rfl, hs.numbered_append (hx ▸ hext.numbered)⟩
  | ready _ _ _ hj => exact absurd hj hexact
  | doomed _ _ _ _ _ _ _ _ hj => exact hbehind hj
  | lost _ _ _ hnil | confirmed _ _ hnil => simp [hnil] at hw'
  | rejected _ _ _ _ _ hj => exact hj.elim (absurd · hexact) fun h => hbehind h.2.2
  | draining _ _ _ _ hj => exact hj.elim (absurd · hexact) fun h => hbehind h.2.2

theorem writeNext_decides {w : Write} (store : EventsStore) (outcome : Outcome) (log : Option EventLog)
    (hf : outcome = .lost → ambiguous) (hw : n.writer = [w]) (J : List Event) :
    ∃ J', WriteResult ambiguous w n J J' (writeNext cfg store outcome n log).1 ∧
      (J' = J ++ w.req.envelopes ∧ store.writeEvents w.req.scope cfg.persistenceID log w.req.envelopes
          w.req.precondition = .ok (writeNext cfg store outcome n log).2 ∨
        J' = J ∧ (writeNext cfg store outcome n log).2 = log) := by
  rcases writeNext_cases store outcome log hw with
    ⟨log', hok, h | ⟨hlost, h⟩⟩ | ⟨err, h⟩ | ⟨hlost, h⟩
  · rw [h]
    exact ⟨_, .accepted rfl, .inl ⟨rfl, hok⟩⟩
  · rw [h]
    exact ⟨_, .unreported (hf hlost) rfl, .inl ⟨rfl, hok⟩⟩
  · rw [h]
    exact ⟨_, .refused err rfl, .inr ⟨rfl, rfl⟩⟩
  · rw [h]
    exact ⟨_, .dropped (hf hlost) rfl, .inr ⟨rfl, rfl⟩⟩

theorem Behind.written {w : Write} {J' : List Event} {n' : Node S C} (h : Behind track n.view J)
    (hres : WriteResult ambiguous w n J J' n') (hw : n.writer = [w]) (ha : n.asks = [])
    (hl : J = envelopesOf n.committed) : ∃ committed, n' = { n with writer := [], committed := committed } ∧
      Behind track { n.view with writer := [] } J' ∧
      J' = envelopesOf committed ∧ J.length ≤ J'.length := by
  have hw' : n.view.writer = [w] := hw
  obtain ⟨hs, hx, hb⟩ : InSync track n.actor.currentState n.actor.eventsCounter J ∧
      Numbered (·.sequenceNumber) n.actor.eventsCounter w.req.envelopes ∧
        w.req.envelopes = envelopesOf w.blocks := by
    cases h with
    | stored hnil => simp [hnil] at hw'
    | onItsWay hone hs hx hb =>
      obtain ⟨rfl, -⟩ := List.cons.inj (hone.symm.trans hw')
      exact ⟨hs, hx, hb⟩
  have hcommitted (hj : J' = J ++ w.req.envelopes) :
      Behind track { n.view with writer := [] } J' ∧ J' = envelopesOf (n.committed ++ w.blocks) ∧
        J.length ≤ J'.length := by
    refine ⟨.stored rfl hs hx hj, ?_, ?_⟩
    · rw [hj, hl, hb, envelopesOf_append]
    · rw [hj, List.length_append]
      omega
  have hrejected (hj : J' = J) : Behind track { n.view with writer := [] } J' ∧
      J' = envelopesOf n.committed ∧ J.length ≤ J'.length := by
    subst hj
    exact ⟨.stored rfl hs (numbered_nil _) (List.append_nil _).symm, hl, Nat.le_refl _⟩
  cases hres with
  | accepted hj => exact ⟨_, answerAsk_of_nil _ _ (by exact ha), hcommitted hj⟩
  | unreported _ hj => exact ⟨_, rfl, hcommitted hj⟩
  | refused err hj => exact ⟨_, answerAsk_of_nil _ _ (by exact ha), hrejected hj⟩
  | dropped _ hj => exact ⟨_, rfl, hrejected hj⟩

theorem Stage.of_writer {later : List Write}
    (h : Stage cfg False track n.view (journal log)) (hw : n.writer = w :: later) :
    n.actor.phase ≠ .processing ∧ (journal log).length = n.actor.eventsCounter ∧ Fresh log w.req.envelopes := by
  have hw' : n.view.writer = w :: later := hw
  have hexact : Exact track n.view (journal log) → False := fun hj => by simp [hj.1] at hw'
  cases h with
  | @waiting w' hp hg hone ha hr hs hx hb hpend =>
    obtain ⟨rfl, -⟩ := List.cons.inj (hone.symm.trans hw')
    obtain ⟨state, -, hext⟩ := hpend
    have hp' : n.actor.phase = .persisting ∨ n.actor.phase = .flushing := hp
    exact ⟨by rcases hp' with hp' | hp' <;> simp [hp'], hs.length, hs.fresh (hx ▸ hext.numbered)⟩
  | ready _ _ _ hj => exact (hexact hj).elim
  | doomed hamb | lost hamb => exact hamb.elim
  | confirmed _ _ hnil => simp [hnil] at hw'
  | rejected _ _ _ _ _ hj | draining _ _ _ _ hj => exact (hj.elim hexact fun h => h.1).elim

theorem WriteResult.journalInv {log' : Option EventLog} {n' : Node S C}
    (hres : WriteResult ambiguous w n (journal log) (journal log') n') (hw : n.writer = [w])
    (h : JournalInv cfg ambiguous track n log) : JournalInv cfg ambiguous track n' log' := by
  obtain ⟨hok, hst, hstage, hl, htaken⟩ := h
  have hw' : n.view.writer = [w] := hw
  have hexact : ¬ Exact track n.view (journal log) := fun hj => by simp [hj.1] at hw'
  cases hstage with
  | ready _ _ _ hj => exact absurd hj hexact
  | lost _ _ _ hnil | confirmed _ _ hnil => simp [hnil] at hw'
  | doomed hamb hp ha hr hstop hg hbuf he hj =>
    obtain ⟨committed, rfl, hbehind, hl', hle⟩ := hj.written hres hw ha hl
    exact ⟨hok, hst, .doomed hamb hp ha hr hstop hg hbuf he hbehind, hl',
      fun r hr => Nat.le_trans (htaken r hr) hle⟩
  | rejected err hp hg ha hr hj =>
    rcases hj with hj | ⟨hamb, herr, hj⟩
    · exact absurd hj hexact
    · obtain ⟨committed, rfl, hbehind, hl', hle⟩ := hj.written hres hw ha hl
      exact ⟨hok, hst, .rejected err hp hg ha hr (.inr ⟨hamb, herr, hbehind⟩), hl',
        fun r hr => Nat.le_trans (htaken r hr) hle⟩
  | draining hp hg ha hr hj =>
    rcases hj with hj | ⟨hamb, hstops, hj⟩
    · exact absurd hj hexact
    · obtain ⟨committed, rfl, hbehind, hl', hle⟩ := hj.written hres hw ha hl
      exact ⟨hok, hst, .draining hp hg ha hr (.inr ⟨hamb, hstops, hbehind⟩), hl',
        fun r hr => Nat.le_trans (htaken r hr) hle⟩
  | @waiting w₀ hp hg hone ha hr hs hx hb hpend =>
    obtain ⟨rfl, -⟩ := List.cons.inj (hone.symm.trans hw')
    obtain ⟨state, hstate, hext⟩ := hpend
    have hbuf : w₀.req.envelopes = envelopesOf w₀.blocks := hx.trans (by rw [hb])
    have hr' : responses n.mailbox = [] := hr
    have hl' (hj : journal log' = journal log ++ w₀.req.envelopes) :
        journal log' = envelopesOf (n.committed ++ w₀.blocks) ∧
          ∀ r ∈ n.snapshots, r.snapshot.sequenceNumber ≤ (journal log').length := by
      refine ⟨by rw [hj, hl, hbuf, envelopesOf_append], fun r hr => ?_⟩
      have hle := htaken r hr
      rw [hj, List.length_append]
      omega
    cases hres with
    | accepted hj =>
      rw [answerAsk_of_singleton _ (by exact ha)]
      refine ⟨hok, hst, .confirmed hp hg rfl rfl ?_ ⟨state, hstate, hext⟩ hs (hx ▸ hj), (hl' hj).1,
        (hl' hj).2⟩
      simp [Node.view, hr']
    | unreported hamb hj =>
      exact ⟨hok, hst, .lost hamb hp hg rfl ha hr ⟨state, hstate, hext⟩
        (.stored rfl hs hext.numbered (hx ▸ hj)), (hl' hj).1, (hl' hj).2⟩
    | refused err hj =>
      rw [answerAsk_of_singleton _ (by exact ha), JournalInv.eq_of_journal hj]
      refine ⟨hok, hst, .rejected err hp hg rfl ?_ (.inl ⟨rfl, hs⟩), hl, htaken⟩
      simp [Node.view, hr']
    | dropped hamb hj =>
      rw [JournalInv.eq_of_journal hj]
      exact ⟨hok, hst, .lost hamb hp hg rfl ha hr ⟨state, hstate, hext⟩
        (.stored rfl hs (numbered_nil _) (List.append_nil _).symm), hl, htaken⟩

theorem write_journalInv (store : EventsStore) (outcome : Outcome)
    (hf : outcome = .lost → ambiguous) (h : JournalInv cfg ambiguous track n log) :
    JournalInv cfg ambiguous track (writeNext cfg store outcome n log).1 (writeNext cfg store outcome n log).2 := by
  cases hw : n.writer with
  | nil =>
    rw [writeNext_nil store outcome log hw]
    exact h
  | cons w later =>
    obtain ⟨rfl, hnumbered⟩ := h.stage.head_write hw
    obtain ⟨J', hres, ⟨hJ, hok⟩ | ⟨hJ, hlog⟩⟩ :=
      writeNext_decides store outcome log hf hw (journal log)
    · rw [← store.appends _ _ _ _ _ _ hok (fresh_of_numbered hnumbered)] at hJ
      exact (hJ ▸ hres).journalInv hw h
    · rw [← hlog] at hJ
      exact (hJ ▸ hres).journalInv hw h

theorem timeout_journalInv (text : String) (hamb : ambiguous) (h : JournalInv cfg ambiguous track n log) :
    JournalInv cfg ambiguous track (timeoutAsk text n) log := by
  obtain ⟨hok, hst, hstage, hl, htaken⟩ := h
  have hidle : n.asks = [] → JournalInv cfg ambiguous track (timeoutAsk text n) log := by
    intro ha
    simp only [timeoutAsk, ha]
    exact ⟨hok, hst, hstage, hl, htaken⟩
  cases hstage with
  | ready _ ha | doomed _ _ ha | confirmed _ _ _ ha | rejected _ _ _ ha | draining _ _ ha =>
    exact hidle ha
  | @waiting w hp hg hw ha hr hs hx hb hpend =>
    have hr' : responses n.mailbox = [] := hr
    have ha' : n.asks = [w] := ha
    simp only [timeoutAsk, ha']
    rw [answerAsk_of_singleton _ ha']
    obtain ⟨state, -, hext⟩ := hpend
    refine ⟨hok, hst, .rejected (.message text) hp hg rfl ?_
      (.inr ⟨hamb, ⟨text, rfl⟩, .onItsWay hw hs (hx ▸ hext.numbered) (hx.trans (by rw [hb]))⟩), hl, htaken⟩
    simp [Node.view, hr']
  | @lost w _ hp hg hw ha hr hpend hj =>
    have hr' : responses n.mailbox = [] := hr
    have ha' : n.asks = [w] := ha
    simp only [timeoutAsk, ha']
    rw [answerAsk_of_singleton _ ha']
    refine ⟨hok, hst, .rejected (.message text) hp hg rfl ?_
      (.inr ⟨hamb, ⟨text, rfl⟩, hj.of_eq rfl rfl rfl⟩), hl, htaken⟩
    simp [Node.view, hr']

theorem encryptSnapshotState_sequenceNumber {snapshot s : Snapshot}
    (h : encryptSnapshotState cfg snapshot = .ok s) : s.sequenceNumber = snapshot.sequenceNumber := by
  unfold encryptSnapshotState at h
  split at h
  · split at h
    · simp at h
    · rw [← Except.ok.inj h]
  · rw [← Except.ok.inj h]

theorem restart_journalInv (store : EventsStore) (snapshot : Option Snapshot)
    (h : JournalInv cfg ambiguous track n log) (hw : n.writer = []) (hs : StoredSnapshot cfg n snapshot)
    (ht : ∀ a, recover cfg store snapshot log = .ok a → track (journal log) a.currentState) :
    JournalInv cfg ambiguous track (restartNode cfg store snapshot n log) log := by
  unfold restartNode
  cases hr : recover cfg store snapshot log with
  | error err => exact h
  | ok a =>
    have hn := h.stage.numbered
    have hle (s : Snapshot) (hsnap : snapshot = some s) : s.sequenceNumber ≤ (journal log).length := by
      obtain ⟨r, hr, henc⟩ := hs s hsnap
      rw [encryptSnapshotState_sequenceNumber henc]
      exact h.taken r hr
    obtain ⟨state, tenant, rfl⟩ := recover_numbered hr hn (usable_le hle)
    exact ⟨phaseOk_new _ _ _, rfl, .ready rfl rfl rfl ⟨hw, hn, rfl, ht _ hr⟩ (batchOk_closed rfl rfl rfl),
      h.ledger, h.taken⟩

theorem nodeStep_journalInv (store : EventsStore)
    (htrack : ∀ J s es s', track J s → replay cfg s es = .ok s' → track (J ++ es) s')
    (h : JournalInv cfg ambiguous track n log) (l : Label C) (hl : LabelOk cfg ambiguous track store n log l) :
    JournalInv cfg ambiguous track (nodeStep cfg store n log l).1 (nodeStep cfg store n log l).2 := by
  -- an arrival leaves the view as it is
  have harrive : ∀ (msg : Message C) (timers : List ℕ) (arrived : ℕ), msg.response? = none →
      JournalInv cfg ambiguous track
        { n with mailbox := n.mailbox ++ [msg], timers := timers, arrived := arrived } log := by
    intro msg timers arrived hmsg
    refine ⟨h.phaseOk, h.stashOk, ?_, h.ledger, h.taken⟩
    have hresp : n.view.responses = responses (n.mailbox ++ [msg]) := by
      simp [Node.view, responses, hmsg]
    have hstage := h.stage
    rw [← View.set_responses hresp] at hstage
    exact hstage
  cases l with
  | command ctx cmd => exact harrive (.command n.arrived ctx cmd) n.timers (n.arrived + 1) rfl
  | getState ctx => exact harrive (.getState n.arrived ctx) n.timers (n.arrived + 1) rfl
  | flushTick => exact harrive .batchFlushTick n.timers n.arrived rfl
  | deliver turn place => exact deliver_journalInv turn place htrack h hl
  | write outcome => exact write_journalInv store outcome hl h
  | timeout text => exact timeout_journalInv text hl h
  | fire timer =>
    simp only [nodeStep, fireTimer]
    split
    · exact harrive .batchFlushTick (n.timers.erase timer) n.arrived rfl
    · exact h
  | restart snapshot => exact restart_journalInv store snapshot h hl.1 hl.2.1 hl.2.2

end

end Ego.EventSource

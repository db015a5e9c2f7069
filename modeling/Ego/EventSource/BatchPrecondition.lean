import Ego.EventSource.Handling
import Ego.EventSource.Node
import Ego.Testkit.EventStore
import Ego.Enginetest.Account

/-! # One precondition for a whole batch -/

namespace Ego.EventSource
open Persistence Protocol Lib
open Enginetest (Command accountConfig background expecting turnAt)

section
variable {S C E : Type} (cfg : Config S C E)

structure Batch where
  -- what the founder declared, and the actor's counter at that time
  founder : Option ℕ
  confirmed : ℕ
  -- what the commands that passed the admission gate declared
  admitted : List (Option ℕ)
  -- what the commands that were folded declared, with their envelopes
  folded : List (Option ℕ × List Event)

def Batch.envelopes (b : Batch) : List Event := b.folded.flatMap (·.2)

def Batch.foundedWell (b : Batch) : Prop := b.founder = none ∨ b.founder = some b.confirmed

def observeCommand (declared : Option ℕ) (confirmed : ℕ) (staged : List (List Event)) : Option Batch →
    Option Batch
  | none =>
    if staged = [] then none
    else some ⟨declared, confirmed, [declared], staged.map fun events => (declared, events)⟩
  | some b => some { b with
      admitted := b.admitted ++ [declared]
      folded := b.folded ++ staged.map fun events => (declared, events) }

def observe (n n' : Node S C) (batch : Option Batch) : Option Batch :=
  match n.mailbox with
  | .command _ ctx _ :: _ =>
    if n.handled.length < n'.handled.length then
      observeCommand ctx.expectedRevision n.actor.eventsCounter
        ((n'.staged.drop n.staged.length).map (·.envelopes)) batch
    else batch
  | _ => batch

structure Watched (S C : Type) where
  node : Node S C
  log : Option EventLog
  batch : Option Batch
  flushed : List (Write × Batch)

inductive WatchLabel (C : Type) where
  | actor (l : Label C)
  | others (log : Option EventLog)

def Watched.turn (s : Watched S C) (n' : Node S C) : Watched S C :=
  match n'.writer.drop s.node.writer.length, observe s.node n' s.batch with
  | w :: _, some b => { s with node := n', batch := none, flushed := s.flushed ++ [(w, b)] }
  | _, batch => { s with node := n', batch := batch }

def watchStep (store : EventsStore) (s : Watched S C) : WatchLabel C → Watched S C
  | .others log => { s with log := log }
  | .actor (.deliver turn place) => s.turn (deliver cfg turn place s.node)
  | .actor (.restart snapshot) =>
    -- a new incarnation has no batch
    match recover cfg store snapshot s.log with
    | .ok _ => { s with node := restartNode cfg store snapshot s.node s.log, batch := none }
    | .error _ => s
  | .actor l =>
    let r := nodeStep cfg store s.node s.log l
    { s with node := r.1, log := r.2 }

def Watched.start : Watched S C := ⟨(Entity.start cfg).node, none, none, []⟩

structure Batch.Matches (b : Batch) (hasPre : Bool) (base : ℕ) (buffer : List Event) : Prop where
  conditional : hasPre = b.admitted.any Option.isSome
  base_eq : base = b.founder.getD b.confirmed
  buffer_eq : buffer = b.envelopes
  numbered : Numbered (·.sequenceNumber) b.confirmed b.envelopes
  founded : ∃ events later, b.folded = (b.founder, events) :: later
  joined : ∀ before r events after, b.folded = before ++ (some r, events) :: after → before ≠ [] →
    r = b.confirmed + (before.flatMap (·.2)).length

variable {hasPre : Bool} {base : ℕ} {buffer : List Event} {b : Batch}

theorem batchPrecondition_unconditional_iff : batchPrecondition hasPre base = .unconditional ↔ hasPre = false := by
  unfold batchPrecondition
  cases hasPre with
  | false => simp
  | true =>
    simp only [Bool.not_true, Bool.false_eq_true, if_false]
    split <;> simp

theorem Batch.Matches.unconditional_iff (h : b.Matches hasPre base buffer) :
    batchPrecondition hasPre base = .unconditional ↔ ∀ declared ∈ b.admitted, declared = none := by
  rw [batchPrecondition_unconditional_iff, h.conditional]
  simp

theorem storageRevision_of_holds {log : Option EventLog} (hc : batchPrecondition hasPre base ≠ .unconditional)
    (h : (batchPrecondition hasPre base).Holds (log.map (·.revision))) : storageRevision log = base := by
  rw [Ne, batchPrecondition_unconditional_iff, Bool.not_eq_false] at hc
  unfold batchPrecondition at h
  simp only [hc, Bool.not_true, Bool.false_eq_true, if_false] at h
  split at h
  · rename_i hzero
    obtain rfl := Option.map_eq_none_iff.mp h
    exact hzero.symm
  · obtain ⟨log, rfl, hrev⟩ := Option.map_eq_some_iff.mp h
    exact hrev

theorem Batch.Matches.revision (h : b.Matches hasPre base buffer) (hf : b.foundedWell)
    {before after : List (Option ℕ × List Event)} {r : ℕ} {events : List Event}
    (hs : b.folded = before ++ (some r, events) :: after) :
    (before.flatMap (·.2)).foldl Testkit.raiseRevision base = r := by
  have hbase : base = b.confirmed := by
    rw [h.base_eq]
    rcases hf with hf | hf <;> rw [hf] <;> rfl
  have hn : Numbered (·.sequenceNumber) b.confirmed (before.flatMap (·.2)) := by
    have hall := h.numbered
    rw [Batch.envelopes, hs, List.flatMap_append] at hall
    exact (numbered_append.mp hall).1
  rw [hbase, Testkit.foldl_raiseRevision hn]
  cases before with
  | nil =>
    obtain ⟨events', later, hfold⟩ := h.founded
    have hr : some r = b.founder := congrArg Prod.fst (List.cons.inj (hs.symm.trans hfold)).1
    rcases hf with hf | hf
    · simp [hf] at hr
    · rw [hf] at hr
      simpa using (Option.some.inj hr).symm
  | cons x before => exact (h.joined _ _ _ _ hs (by simp)).symm

def OpenBatch (a : Actor S) : Option Batch → Prop
  | none => a.phase = .processing → a.batchEntries = [] ∧ a.batchBuffer = []
  | some b => a.phase = .processing ∧ a.batchEntries ≠ [] ∧ b.confirmed = a.eventsCounter ∧
      a.batchCounter = a.eventsCounter + a.batchBuffer.length ∧
      b.Matches a.batchHasPrecondition a.batchBase a.batchBuffer

def FlushOf (w : Write) (b : Batch) : Prop :=
  ∃ hasPre base, w.req.precondition = batchPrecondition hasPre base ∧ b.Matches hasPre base w.req.envelopes

structure WatchInv (s : Watched S C) : Prop where
  phaseOk : PhaseOk cfg s.node.actor
  batch : OpenBatch s.node.actor s.batch
  flushed : ∀ p ∈ s.flushed, FlushOf p.1 p.2
  written : s.node.writer ⊆ s.flushed.map Prod.fst

variable {cfg} {s : Watched S C} {a : Actor S}

variable {batch : Option Batch}

theorem OpenBatch.of_open (h : OpenBatch a batch) (hp : a.phase = .processing)
    (he : a.batchEntries ≠ []) : ∃ b, batch = some b ∧ b.confirmed = a.eventsCounter ∧
      a.batchCounter = a.eventsCounter + a.batchBuffer.length ∧
      b.Matches a.batchHasPrecondition a.batchBase a.batchBuffer := by
  cases batch with
  | none => exact absurd (h hp).1 he
  | some b => exact ⟨b, rfl, h.2.2⟩

theorem OpenBatch.of_closed (h : OpenBatch a batch) (hp : a.phase = .processing)
    (he : a.batchEntries = []) : batch = none ∧ a.batchBuffer = [] := by
  cases batch with
  | none => exact ⟨rfl, (h hp).2⟩
  | some b => exact absurd he h.2.1

variable {envelopes : List Event}

theorem matches_founded (declared : Option ℕ) (confirmed : ℕ)
    (hn : Numbered (·.sequenceNumber) confirmed envelopes) :
    Batch.Matches ⟨declared, confirmed, [declared], [(declared, envelopes)]⟩ declared.isSome
      (declared.getD confirmed) envelopes where
  conditional := by simp
  base_eq := rfl
  buffer_eq := by simp [Batch.envelopes]
  numbered := by simpa [Batch.envelopes] using hn
  founded := ⟨envelopes, [], rfl⟩
  joined := by
    intro before r events after hs hne
    obtain ⟨x, before, rfl⟩ := List.exists_cons_of_ne_nil hne
    simp at hs

theorem Batch.Matches.admitted (h : b.Matches hasPre base buffer) (declared : Option ℕ) :
    Batch.Matches { b with admitted := b.admitted ++ [declared] } (hasPre || declared.isSome) base buffer :=
  ⟨by simp [h.conditional], h.base_eq, h.buffer_eq, h.numbered, h.founded, h.joined⟩

theorem Batch.Matches.join {declared : Option ℕ} (h : b.Matches hasPre base buffer)
    (hn : Numbered (·.sequenceNumber) (b.confirmed + buffer.length) envelopes)
    (hd : ∀ r, declared = some r → r = b.confirmed + buffer.length) : Batch.Matches { b with
      admitted := b.admitted ++ [declared]
      folded := b.folded ++ [(declared, envelopes)] } (hasPre || declared.isSome) base (buffer ++ envelopes) where
  conditional := by simp [h.conditional]
  base_eq := h.base_eq
  buffer_eq := by simp [Batch.envelopes, h.buffer_eq]
  numbered := by
    rw [h.buffer_eq] at hn
    simp only [Batch.envelopes, List.flatMap_append, List.flatMap_cons, List.flatMap_nil, List.append_nil]
    exact numbered_append.mpr ⟨h.numbered, hn⟩
  founded := by
    obtain ⟨events, later, hs⟩ := h.founded
    exact ⟨events, later ++ [(declared, envelopes)], by simp [hs]⟩
  joined := by
    intro before r events after hs hne
    rcases List.eq_nil_or_concat' after with rfl | ⟨after, last, rfl⟩
    · obtain ⟨rfl, hlast⟩ := List.append_inj' hs rfl
      have hr : declared = some r := congrArg Prod.fst (List.cons.inj hlast).1
      rw [hd r hr, h.buffer_eq]
      rfl
    · have hs' : b.folded ++ [(declared, envelopes)] = (before ++ (some r, events) :: after) ++ [last] := by
        simpa using hs
      obtain ⟨hfold, -⟩ := List.append_inj' hs' rfl
      exact h.joined before r events after hfold hne

variable {n' : Node S C}

theorem WatchInv.keep (h : WatchInv cfg s)
    (ho : observe s.node n' s.batch = batch) (hok : PhaseOk cfg n'.actor) (hw : n'.writer = s.node.writer)
    (hb : OpenBatch n'.actor batch) : WatchInv cfg (s.turn n') := by
  have hturn : s.turn n' = { s with node := n', batch := batch } := by
    simp only [Watched.turn, hw, List.drop_length, ho]
  rw [hturn]
  exact ⟨hok, hb, h.flushed, hw ▸ h.written⟩

theorem WatchInv.flush {w : Write} (h : WatchInv cfg s)
    (ho : observe s.node n' s.batch = batch) (hok : PhaseOk cfg n'.actor)
    (hw : n'.writer = s.node.writer ++ [w]) (hp : n'.actor.phase = .flushing)
    (hb : ∃ b, batch = some b ∧ FlushOf w b) : WatchInv cfg (s.turn n') := by
  obtain ⟨b, rfl, hflush⟩ := hb
  have hturn : s.turn n' = { s with node := n', batch := none, flushed := s.flushed ++ [(w, b)] } := by
    simp only [Watched.turn, hw, List.drop_left, ho]
  have hbusy : n'.actor.phase ≠ .processing := by simp [hp]
  rw [hturn]
  refine ⟨hok, fun h => absurd h hbusy, List.forall_mem_append.mpr ⟨h.flushed, by simpa using hflush⟩, ?_⟩
  simp only [hw, List.map_append, List.map_cons, List.map_nil]
  exact List.append_subset.mpr ⟨List.subset_append_of_subset_left _ h.written, List.subset_append_right _ _⟩

theorem observe_of_handled {n : Node S C} (batch : Option Batch) (hh : n'.handled = n.handled) :
    observe n n' batch = batch := by
  unfold observe
  split
  · rw [hh, if_neg (Nat.lt_irrefl _)]
  · rfl

variable {ctx : Ctx} {rest : List (Message C)}

theorem observe_command {n : Node S C} {id : ℕ} {cmd : C}
    {blocks : List Block} (batch : Option Batch) (hm : n.mailbox = .command id ctx cmd :: rest)
    (hh : n'.handled = n.handled ++ [id]) (hst : n'.staged = n.staged ++ blocks) :
    observe n n' batch = observeCommand ctx.expectedRevision n.actor.eventsCounter
      (blocks.map (·.envelopes)) batch := by
  simp only [observe, hm, hh, hst, List.drop_left, List.length_append, List.length_singleton, Nat.lt_succ_self, if_true]

theorem flushOf_resolve (id : ℕ) (scope : Scope) (blocks : List Block)
    (h : OpenBatch a batch) (hp : a.phase = .processing) (he : a.batchEntries ≠ []) :
    ∃ b, batch = some b ∧ FlushOf ⟨id, ⟨a.batchBuffer, resolveBatchPrecondition a, scope⟩, blocks⟩ b := by
  obtain ⟨b, rfl, -, -, hmatches⟩ := h.of_open hp he
  exact ⟨b, rfl, _, _, rfl, hmatches⟩

theorem joined_of_ne_nil (ctx : Ctx) (he : a.batchEntries ≠ []) :
    (joined a ctx).batchHasPrecondition = (a.batchHasPrecondition || ctx.expectedRevision.isSome) := by
  have hopen : a.batchEntries.isEmpty = false := by simpa using he
  simp only [joined, hopen, Bool.not_false, Bool.true_and]

theorem OpenBatch.admitted (h : OpenBatch a batch) (hp : a.phase = .processing) (ctx : Ctx) :
    OpenBatch (joined a ctx) (observeCommand ctx.expectedRevision a.eventsCounter [] batch) := by
  by_cases he : a.batchEntries = []
  · obtain ⟨rfl, hbuf⟩ := h.of_closed hp he
    exact fun _ => ⟨he, hbuf⟩
  · obtain ⟨b, rfl, hconf, hcount, hmatches⟩ := h.of_open hp he
    have hmatches' := hmatches.admitted ctx.expectedRevision
    rw [← joined_of_ne_nil ctx he] at hmatches'
    refine ⟨hp, he, hconf, hcount, ?_⟩
    rw [List.map_nil, List.append_nil]
    exact hmatches'

theorem OpenBatch.fold {turn : Turn} {state : S} {counter : ℕ} (h : OpenBatch a batch) (hp : a.phase = .processing)
    (hadm : inadmissible a ctx = false)
    (hspec : Envelopes cfg turn.now (latestState a) (latestCounter a) envelopes state counter)
    (tc : Tenancy.TenantContext) : OpenBatch (folded cfg a tc ctx turn envelopes state counter)
      (observeCommand ctx.expectedRevision a.eventsCounter [envelopes] batch) := by
  have hne : (folded cfg a tc ctx turn envelopes state counter).batchEntries ≠ [] := by
    simp [folded, foldInto]
  have hcounter := hspec.counter_eq
  have hn := hspec.numbered
  by_cases he : a.batchEntries = []
  · obtain ⟨rfl, hbuf⟩ := h.of_closed hp he
    simp only [latestCounter, he, if_true] at hcounter hn
    refine ⟨hp, hne, rfl, ?_, ?_⟩
    · simp [folded, foldInto, hbuf, hcounter]
    · have hfound := matches_founded ctx.expectedRevision a.eventsCounter hn
      simpa [folded, foldInto, foldedHasPrecondition, foldedBase, he, hbuf] using hfound
  · obtain ⟨b, rfl, hconf, hcount, hmatches⟩ := h.of_open hp he
    simp only [latestCounter, he, if_false, hcount] at hcounter hn
    refine ⟨hp, hne, hconf, ?_, ?_⟩
    · simp only [folded, foldInto, List.length_append]
      omega
    · rw [← hconf] at hn
      have hd : ∀ r, ctx.expectedRevision = some r → r = b.confirmed + a.batchBuffer.length := by
        intro r hr
        have hr' : r = a.batchCounter := by simpa [inadmissible, he, hr, latestCounter] using hadm
        rw [hr', hcount, hconf]
      have hjoin := hmatches.join hn hd
      rw [← joined_of_ne_nil ctx he] at hjoin
      simpa [folded, foldInto, foldedHasPrecondition, foldedBase, he] using hjoin

theorem processAndBatch_watchInv {id : ℕ} {cmd : C} (turn : Turn)
    (place : List Bool) (h : WatchInv cfg s) (hmode : cfg.batchEnabled = true)
    (hp : s.node.actor.phase = .processing) (hm : s.node.mailbox = .command id ctx cmd :: rest)
    (computed : List (ℕ × CommandReply)) : WatchInv cfg (s.turn (performAll (.command id ctx cmd) place { s.node with
      computed := computed
      actor := (processAndBatch cfg s.node.actor ctx cmd turn).1
      mailbox := rest } (processAndBatch cfg s.node.actor ctx cmd turn).2)) := by
  have hok : PhaseOk cfg (processAndBatch cfg s.node.actor ctx cmd turn).1 :=
    (processAndBatch_reaction hmode hp id ctx cmd).phaseOk h.phaseOk
  cases hgates : gates cfg s.node.actor.actorTenant ctx turn with
  | error err =>
    simp only [processAndBatch_eq, hgates] at hok ⊢
    exact h.keep (observe_of_handled _ rfl) hok rfl h.batch
  | ok tc =>
    simp only [processAndBatch_eq, hgates, flushBatch_eq] at hok ⊢
    by_cases hadm : inadmissible s.node.actor ctx = true
    · have he : s.node.actor.batchEntries ≠ [] := by
        intro he
        simp [inadmissible, he] at hadm
      simp only [if_pos hadm] at hok ⊢
      rw [performAll_append, performAll_append, performAll_stopped]
      exact h.flush (observe_of_handled _ rfl) hok rfl rfl (flushOf_resolve _ _ _ h.batch hp he)
    simp only [if_neg hadm] at hok ⊢
    rw [Bool.not_eq_true] at hadm
    have hjoined := h.batch.admitted hp ctx
    cases hresult : handlerResult cfg tc turn (latestState s.node.actor) (latestCounter s.node.actor) ctx cmd with
    | error err =>
      simp only [hresult] at hok ⊢
      exact h.keep (observe_command s.batch hm rfl (List.append_nil _).symm) hok rfl hjoined
    | ok result =>
      cases result with
      | none =>
        simp only [hresult] at hok ⊢
        by_cases he : s.node.actor.batchEntries = []
        · rw [joined_of_nil ctx he] at hjoined
          simp only [if_pos he] at hok ⊢
          exact h.keep (observe_command s.batch hm rfl (List.append_nil _).symm) hok rfl hjoined
        · simp only [if_neg he] at hok ⊢
          exact h.keep (observe_command s.batch hm rfl (List.append_nil _).symm) hok rfl hjoined
      | some built =>
        obtain ⟨envelopes, state, counter⟩ := built
        have hfold := h.batch.fold hp hadm (handlerResult_spec hresult).1 tc
        have hne : (folded cfg s.node.actor tc ctx turn envelopes state counter).batchEntries ≠ [] := by
          simp [folded, foldInto]
        simp only [hresult] at hok ⊢
        by_cases hfull : ((folded cfg s.node.actor tc ctx turn envelopes state counter).batchNumEvents : ℤ) ≥
            cfg.batchThreshold
        · simp only [if_pos hfull] at hok ⊢
          rw [performAll_append, performAll_append, performAll_stopped]
          exact h.flush (observe_command s.batch hm rfl rfl) hok rfl rfl (flushOf_resolve _ _ _ hfold hp hne)
        · obtain ⟨timer, started, hstarted, htimer⟩ := startFlushTimer_eq
            (folded cfg s.node.actor tc ctx turn envelopes state counter) turn
          simp only [if_neg hfull, htimer] at hok ⊢
          rcases hstarted with ⟨-, rfl⟩ | ⟨-, -, rfl⟩
          · exact h.keep (observe_command s.batch hm rfl rfl) hok rfl hfold
          · exact h.keep (observe_command s.batch hm rfl rfl) hok rfl hfold

theorem OpenBatch.of_busy (h : OpenBatch a batch) (hp : a.phase ≠ .processing) : batch = none := by
  cases batch with
  | none => rfl
  | some b => exact absurd h.1 hp

theorem OpenBatch.replying {a' : Actor S} (h : OpenBatch a batch) (hp : a.phase ≠ .processing)
    (hp' : a'.phase = .replying) : OpenBatch a' batch := by
  rw [h.of_busy hp]
  intro hidle
  simp [hp'] at hidle

theorem Reaction.watchInv {msg : Message C} {turn : Turn} {a' : Actor S}
    {effects : List Effect} (place : List Bool) (hre : Reaction cfg s.node.actor msg turn a' effects)
    (h : WatchInv cfg s) (hmode : cfg.batchEnabled = true)
    (hcommand : s.node.actor.phase = .processing → msg.commandId? = none) (computed : List (ℕ × CommandReply)) :
    WatchInv cfg (s.turn (performAll msg place
      { s.node with computed := computed, actor := a', mailbox := rest } effects)) := by
  have hok := hre.phaseOk h.phaseOk
  have hdirect : ¬ (s.node.actor.phase = .persisting ∨ s.node.actor.phase = .directReplying) := fun hp => by
    simp [h.phaseOk.direct_of_phase hp] at hmode
  cases hre
  case ignored | idleTick | stashedCommand | stashedRead | readDenied | read =>
    exact h.keep (observe_of_handled _ rfl) hok rfl h.batch
  case tickFlush hp he =>
    exact h.flush (observe_of_handled _ rfl) hok rfl rfl (flushOf_resolve _ _ _ h.batch hp he)
  case denied hp | failed hp _ | unchanged hp _ | unchangedInBatch hp _ _ _ _ _ | persist hp _ _ | gateFlush hp _ |
      fold hp _ _ _ _ _ | foldFlush hp _ _ _ _ =>
    exact absurd (hcommand hp) (Option.some_ne_none _)
  case directConfirmed hp _ | directFailed hp => exact absurd (.inl hp) hdirect
  case replySuccess hp _ | replyFailure hp _ => exact absurd (.inr hp) hdirect
  case batchConfirmed hp _ =>
    rw [performAll_append, performAll_tellSnapshot]
    exact h.keep (observe_of_handled _ rfl) hok rfl (h.batch.replying (by simp [hp]) rfl)
  case batchFailed hp =>
    exact h.keep (observe_of_handled _ rfl) hok rfl (h.batch.replying (by simp [hp]) rfl)
  case drain hp _ _ =>
    exact h.keep (observe_of_handled _ rfl) hok rfl (h.batch.replying (by simp [hp]) hp)
  case drainLast hp _ _ =>
    have hnone := h.batch.of_busy (by simp [hp])
    rw [performAll_cons, performAll_shutdown]
    exact h.keep (observe_of_handled _ rfl) hok rfl (hnone ▸ fun _ => ⟨rfl, rfl⟩)

theorem deliver_watchInv (turn : Turn) (place : List Bool) (h : WatchInv cfg s) (hmode : cfg.batchEnabled = true) :
    WatchInv cfg (s.turn (deliver cfg turn place s.node)) := by
  cases hm : s.node.mailbox with
  | nil =>
    rw [deliver_nil turn place hm]
    exact h.keep (observe_of_handled _ rfl) h.phaseOk rfl h.batch
  | cons msg rest =>
    by_cases hcommand : s.node.actor.phase = .processing → msg.commandId? = none
    · obtain ⟨a', effects, hre, hdeliver⟩ := deliver_reaction turn place h.phaseOk hm
      rw [hdeliver]
      exact hre.watchInv place h hmode hcommand _
    · obtain ⟨hp, hcommand⟩ := Classical.not_imp.mp hcommand
      cases msg with
      | command id ctx cmd =>
        have hreceive : receive cfg s.node.actor (.command id ctx cmd) { turn with timer := s.node.armed } =
            processAndBatch cfg s.node.actor ctx cmd { turn with timer := s.node.armed } := by
          simp only [receive, handleCommandBatched, hmode, hp, if_true]
        simp only [deliver, hm, hreceive]
        exact processAndBatch_watchInv _ place h hmode hp hm _
      | getState | batchFlushTick => exact absurd rfl hcommand
      | persistEventsResponse err => exact absurd rfl hcommand

theorem answerAsk_writer (w : Write) (err : Option Err) (n : Node S C) : (answerAsk w err n).writer = n.writer := by
  unfold answerAsk
  split <;> rfl

theorem writeNext_writer (store : EventsStore) (outcome : Outcome) (n : Node S C) (log : Option EventLog) :
    (writeNext cfg store outcome n log).1.actor = n.actor ∧
      (writeNext cfg store outcome n log).1.writer ⊆ n.writer := by
  cases hw : n.writer with
  | nil =>
    rw [writeNext_nil store outcome log hw]
    exact ⟨rfl, by simp [hw]⟩
  | cons w rest =>
    rcases writeNext_cases store outcome log hw with ⟨log', -, hn | ⟨-, hn⟩⟩ | ⟨err, hn⟩ | ⟨-, hn⟩ <;>
      rw [hn] <;> simp [answerAsk_writer, answerAsk_frame]

theorem watchStep_watchInv (store : EventsStore) (hmode : cfg.batchEnabled = true) (h : WatchInv cfg s)
    (l : WatchLabel C) : WatchInv cfg (watchStep cfg store s l) := by
  have hsame : ∀ (n : Node S C) log, n.actor = s.node.actor → n.writer ⊆ s.node.writer →
      WatchInv cfg { s with node := n, log := log } := fun n log ha hw =>
    ⟨ha ▸ h.phaseOk, ha ▸ h.batch, h.flushed, List.Subset.trans hw h.written⟩
  cases l with
  | others log => exact ⟨h.phaseOk, h.batch, h.flushed, h.written⟩
  | actor l =>
    cases l with
    | deliver turn place => exact deliver_watchInv turn place h hmode
    | restart snapshot =>
      cases hr : recover cfg store snapshot s.log with
      | error err =>
        simp only [watchStep, hr]
        exact h
      | ok a =>
        simp only [watchStep, restartNode, hr]
        obtain ⟨state, tenant, latest, -, rfl⟩ := recover_new hr
        exact ⟨phaseOk_new _ _ _, fun _ => ⟨rfl, rfl⟩, h.flushed, h.written⟩
    | write outcome =>
      obtain ⟨ha, hw⟩ := writeNext_writer store outcome s.node s.log
      exact hsame _ _ ha hw
    | command | getState | flushTick => exact hsame _ _ rfl (List.Subset.refl _)
    | timeout text =>
      change WatchInv cfg { s with node := timeoutAsk text s.node }
      unfold timeoutAsk
      split
      · exact h
      · exact hsame _ _ (answerAsk_frame _ _ _).1 (by simp [answerAsk_writer])
    | fire timer =>
      change WatchInv cfg { s with node := fireTimer timer s.node }
      unfold fireTimer
      split
      · exact hsame _ _ rfl (List.Subset.refl _)
      · exact h

theorem run_watchInv (store : EventsStore) (hmode : cfg.batchEnabled = true) (labels : List (WatchLabel C)) :
    WatchInv cfg (run (watchStep cfg store) (Watched.start cfg) labels) := by
  have hstart : WatchInv cfg (Watched.start cfg) :=
    ⟨phaseOk_new _ _ _, fun _ => ⟨rfl, rfl⟩, by simp [Watched.start], by simp [Watched.start, Entity.start,
      Node.start]⟩
  exact run_invariant _ (WatchInv cfg) (fun _ l h _ => watchStep_watchInv store hmode h l) hstart
    (along_of_forall _ fun _ _ => trivial)

/-- Every request of the writer is the flush of a batch that was observed. If the
founder of the batch declared nothing or the confirmed counter, the request is
unconditional exactly if nobody declared a revision, and a store that takes a
conditional one was, right before the first event of each command, at the
revision that command declared. -/
theorem batch_precondition_stands_for_all (store : EventsStore) (hmode : cfg.batchEnabled = true)
    (labels : List (WatchLabel C)) :
    let s := run (watchStep cfg store) (Watched.start cfg) labels
    s.node.writer ⊆ s.flushed.map Prod.fst ∧ ∀ w b, (w, b) ∈ s.flushed → b.foundedWell →
        (w.req.precondition = .unconditional ↔ ∀ declared ∈ b.admitted, declared = none) ∧
        (w.req.precondition ≠ .unconditional → ∀ log log',
          store.writeEvents w.req.scope cfg.persistenceID log w.req.envelopes w.req.precondition = .ok log' →
          w.req.envelopes = b.envelopes ∧ ∀ before r events after, b.folded = before ++
            (some r, events) :: after →
              (before.flatMap (·.2)).foldl Testkit.raiseRevision (storageRevision log) = r) := by
  intro s
  have hinv : WatchInv cfg s := run_watchInv store hmode labels
  refine ⟨hinv.written, fun w b hmem hf => ?_⟩
  obtain ⟨hasPre, base, hp, hmatches⟩ := hinv.flushed _ hmem
  rw [hp]
  refine ⟨hmatches.unconditional_iff, fun hc log log' hok => ⟨hmatches.buffer_eq, ?_⟩⟩
  intro before r events after hs
  rw [storageRevision_of_holds hc (store.precondition_holds _ _ _ _ _ _ hok)]
  exact hmatches.revision hf hs

def joinedLater : List (WatchLabel Command) :=
  [.actor (.command background (.createAccount 5)), .actor (.deliver (turnAt 1) []),
    .actor (.command (expecting 1) (.creditAccount "account" 2)), .actor (.deliver (turnAt 2) [])]

theorem batch_precondition_stands_for_all_account :
    let s := run (watchStep (accountConfig 2) Testkit.eventsStore) (Watched.start (accountConfig 2)) joinedLater
    s.flushed.map (fun p => (p.1.req.precondition, p.2.admitted)) = [(.genesis, [none, some 1])] ∧
      ∀ p ∈ s.flushed, p.2.foundedWell ∧
        (p.1.req.precondition = .unconditional ↔ ∀ declared ∈ p.2.admitted, declared = none) := by
  intro s
  have hfounded : ∀ p ∈ s.flushed, p.2.founder = none := by decide
  obtain ⟨-, hall⟩ := batch_precondition_stands_for_all Testkit.eventsStore
    (by decide : (accountConfig 2).batchEnabled = true) joinedLater
  refine ⟨by decide, fun p hp => ⟨.inl (hfounded p hp), ?_⟩⟩
  exact (hall p.1 p.2 hp (.inl (hfounded p hp))).1

end

end Ego.EventSource

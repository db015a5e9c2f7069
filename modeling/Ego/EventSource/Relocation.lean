import Ego.Lib.Shared
import Ego.EventSource.Node
import Ego.Testkit.EventStore
import Ego.Enginetest.Account

/-! # Two incarnations of one entity over the in-memory store -/

namespace Ego.EventSource
open Persistence Protocol Lib
open Enginetest (Command accountConfig turnAt expecting)

section
variable {S C E : Type}

structure Record where
  log : Option EventLog
  accepted : List Event
  deriving DecidableEq

def nextWrite (n : Node S C) : Label C → Option Write
  | .write (.fail _) => none
  | .write _ => n.writer.head?
  | _ => none

variable (cfg : Config S C E)

def acceptedBy (n : Node S C) (log : Option EventLog) (l : Label C) : List Event :=
  match nextWrite n l with
  | none => []
  | some w =>
    match Testkit.eventsStore.writeEvents w.req.scope cfg.persistenceID log w.req.envelopes
      w.req.precondition with
    | .ok _ => w.req.envelopes
    | .error _ => []

def recordStep (n : Node S C) (r : Record) (l : Label C) : Node S C × Record :=
  let next := nodeStep cfg Testkit.eventsStore n r.log l
  (next.1, ⟨next.2, r.accepted ++ acceptedBy cfg n r.log l⟩)

def pairStep : Shared (Node S C) Record → Side × Label C → Shared (Node S C) Record :=
  Shared.step (recordStep cfg)

def Pair.start : Shared (Node S C) Record :=
  let actor := Actor.new cfg.behavior.initialState 0 (spawnTenant cfg)
  ⟨.start actor, .start actor, none, []⟩

structure Intact (r : Record) : Prop where
  accepted : journal r.log = r.accepted
  numbered : Numbered (·.sequenceNumber) 0 (journal r.log)
  revision : (journal r.log).length = storageRevision r.log

def Message.declares : Message C → Bool
  | .command _ ctx _ => ctx.expectedRevision.isSome
  | _ => true

def Label.declares : Label C → Bool
  | .command ctx _ => ctx.expectedRevision.isSome
  | _ => true

def declaredRevision : WritePrecondition → ℕ
  | .exactRevision revision => revision
  | _ => 0

def misnumbers (n : Node S C) (log : Option EventLog) (l : Label C) : Bool :=
  match nextWrite n l with
  | none => false
  | some w =>
    w.req.scope.valid && decide (w.req.precondition.Holds (log.map (·.revision))) &&
      w.req.envelopes.head?.map (·.sequenceNumber) != some (declaredRevision w.req.precondition + 1)

structure BatchNumbered (a : Actor S) : Prop where
  closed : a.batchEntries = [] → a.batchBuffer = []
  conditional : a.batchEntries ≠ [] → a.batchHasPrecondition = true
  filled : a.batchEntries ≠ [] → a.batchBuffer ≠ []
  numbered : a.batchEntries ≠ [] → ∃ base, Numbered (·.sequenceNumber) base a.batchBuffer ∧
    a.batchCounter = base + a.batchBuffer.length

structure WriteNumbered (req : PersistEventsRequest) : Prop where
  conditional : req.precondition.isUnconditional = false
  filled : req.envelopes ≠ []
  numbered : ∃ base, Numbered (·.sequenceNumber) base req.envelopes

structure NodeNumbered (n : Node S C) : Prop where
  phaseOk : PhaseOk cfg n.actor
  declared : ∀ m ∈ n.mailbox ++ n.stash, m.declares = true
  batch : BatchNumbered n.actor
  writes : ∀ w ∈ n.writer, WriteNumbered w.req

variable {cfg} {n : Node S C} {a : Actor S}

theorem batchPrecondition_conditional (base : ℕ) : (batchPrecondition true base).isUnconditional = false := by
  unfold batchPrecondition
  split
  · contradiction
  split <;> rfl

theorem batchNumbered_of_closed (he : a.batchEntries = []) (hb : a.batchBuffer = []) : BatchNumbered a where
  closed := fun _ => hb
  conditional := fun hne => absurd he hne
  filled := fun hne => absurd he hne
  numbered := fun hne => absurd he hne

theorem BatchNumbered.latest (h : BatchNumbered a) : ∃ base, Numbered (·.sequenceNumber) base a.batchBuffer ∧
      latestCounter a = base + a.batchBuffer.length := by
  by_cases he : a.batchEntries = []
  · rw [latestCounter, if_pos he, h.closed he]
    exact ⟨a.eventsCounter, trivial, rfl⟩
  · rw [latestCounter, if_neg he]
    exact h.numbered he

variable {base : ℕ}

theorem BatchBase.conditional {ctx : Ctx} {hasPre : Bool} (h : BatchBase a ctx hasPre base)
    (hd : ctx.expectedRevision.isSome = true) : hasPre = true := by
  unfold BatchBase at h
  split at h
  · exact h.1.trans hd
  · rw [h.1, hd, Bool.or_true]

theorem BatchNumbered.fold {ctx : Ctx} {cmd : C} {now : ℤ} {tc : Tenancy.TenantContext}
    {hasPre : Bool} {counter : ℕ} {envelopes : List Event} {state : S} (h : BatchNumbered a)
    (hb : BatchBase a ctx hasPre base) (hd : ctx.expectedRevision.isSome = true)
    (hp : Produces cfg ctx cmd now tc (latestState a) (latestCounter a) envelopes state counter)
    (tenant : Tenancy.TenantContext) :
    BatchNumbered (foldInto cfg a tenant hasPre base envelopes state counter now) := by
  obtain ⟨henv, hne⟩ := hp.envelopes
  obtain ⟨b, hnum, hlatest⟩ := h.latest
  refine ⟨fun he => ?_, fun _ => hb.conditional hd, fun _ => ?_, fun _ => ⟨b, ?_, ?_⟩⟩
  · simp [foldInto] at he
  · simp [foldInto, hne]
  · exact numbered_append.mpr ⟨hnum, hlatest ▸ henv.numbered⟩
  · have hcounter := henv.counter_eq
    simp only [foldInto, List.length_append]
    omega

theorem BatchNumbered.write (h : BatchNumbered a) (he : a.batchEntries ≠ []) (scope : Scope) :
    WriteNumbered ⟨a.batchBuffer, resolveBatchPrecondition a, scope⟩ where
  conditional := by
    rw [resolveBatchPrecondition, h.conditional he]
    exact batchPrecondition_conditional _
  filled := h.filled he
  numbered := (h.numbered he).imp fun _ hb => hb.1

variable {msg : Message C} {effects : List Effect}

theorem Reaction.batchNumbered {turn : Turn} {a' : Actor S}
    (hre : Reaction cfg a msg turn a' effects) (hmsg : msg.declares = true) (h : BatchNumbered a) :
    BatchNumbered a' := by
  cases hre
  case failed hpre | unchangedInBatch hpre _ _ _ _ =>
    exact ⟨h.closed, fun he => hpre (h.conditional he), h.filled, h.numbered⟩
  case fold tenant _ _ _ _ _ _ _ _ _ _ hb _ hprod _ | foldFlush tenant _ _ _ _ _ _ _ _ hb _ hprod =>
    have hfold := h.fold hb hmsg hprod tenant
    exact ⟨hfold.closed, hfold.conditional, hfold.filled, hfold.numbered⟩
  case batchFailed =>
    have he : ∀ err, a.batchEntries.map (fun _ => CommandReply.errorReply err) = [] ↔
        a.batchEntries = [] := fun _ => List.map_eq_nil_iff
    exact ⟨fun h0 => h.closed ((he _).mp h0), fun hne => h.conditional (mt (he _).mpr hne),
      fun hne => h.filled (mt (he _).mpr hne), fun hne => h.numbered (mt (he _).mpr hne)⟩
  case drainLast => exact batchNumbered_of_closed rfl rfl
  all_goals exact ⟨h.closed, h.conditional, h.filled, h.numbered⟩

theorem mem_stopped {req : PersistEventsRequest} : ¬ .pipeTo req ∈ stopped a := by
  unfold stopped
  cases a.flushTimer <;> simp

theorem Reaction.writeNumbered {turn : Turn} {a' : Actor S}
    (hre : Reaction cfg a msg turn a' effects) (hmsg : msg.declares = true) (h : BatchNumbered a)
    {req : PersistEventsRequest} (hreq : .pipeTo req ∈ effects) : WriteNumbered req := by
  cases hre
  case tickFlush he =>
    obtain rfl : req = _ := by simpa using hreq
    exact h.write he _
  case gateFlush hadm =>
    have he : a.batchEntries ≠ [] := by
      intro he
      simp [inadmissible, he] at hadm
    obtain rfl : req = _ := by simpa [mem_stopped] using hreq
    exact h.write he _
  case persist ctx _ _ _ _ _ _ _ _ _ hprod =>
    obtain ⟨henv, hne⟩ := hprod.envelopes
    obtain rfl : req = _ := by simpa using hreq
    refine ⟨?_, hne, a.eventsCounter, henv.numbered⟩
    have hd : ctx.expectedRevision.isSome = true := hmsg
    rw [preconditionFromRevision_isUnconditional, ← Option.not_isSome, hd]
    rfl
  case foldFlush tenant _ _ _ _ _ _ _ _ hb _ hprod =>
    obtain rfl : req = _ := by simpa [mem_stopped] using hreq
    exact (h.fold hb hmsg hprod tenant).write (by simp [foldInto]) _
  case fold ht =>
    rcases ht with ⟨-, rfl⟩ | ⟨-, -, rfl⟩ <;> simp at hreq
  all_goals simp at hreq

theorem mem_performAll_messages {m : Message C} {place : List Bool}
    (h : m ∈ (performAll msg place n effects).mailbox ++ (performAll msg place n effects).stash) :
    m = msg ∨ m ∈ n.mailbox ++ n.stash := by
  induction effects generalizing n with
  | nil => exact .inr h
  | cons e effects ih =>
    have hm := ih h
    cases e with
    | stash =>
      simp only [perform, List.mem_append, List.mem_singleton] at hm ⊢
      tauto
    | unstashAll =>
      simp only [perform, List.append_nil, mem_interleave] at hm
      simp only [List.mem_append]
      tauto
    | _ => exact hm

theorem mem_performAll_writer {place : List Bool} {w : Write}
    (h : w ∈ (performAll msg place n effects).writer) : w ∈ n.writer ∨ .pipeTo w.req ∈ effects := by
  induction effects generalizing n with
  | nil => exact .inl h
  | cons e effects ih =>
    have hw := (ih h).imp_right (List.mem_cons_of_mem e)
    cases e with
    | pipeTo req =>
      simp only [perform, List.mem_append, List.mem_singleton] at hw
      rcases hw with (hw | rfl) | hw
      · exact .inl hw
      · exact .inr List.mem_cons_self
      · exact .inr hw
    | _ => exact hw

theorem deliver_numbered (turn : Turn) (place : List Bool) (h : NodeNumbered cfg n) :
    NodeNumbered cfg (deliver cfg turn place n) := by
  cases hm : n.mailbox with
  | nil => rwa [deliver_nil turn place hm]
  | cons msg rest =>
    obtain ⟨a', effects, hre, heq⟩ := deliver_reaction turn place h.phaseOk hm
    have hmsg : msg.declares = true := h.declared msg (by simp [hm])
    rw [heq]
    refine ⟨?_, fun m hmem => ?_, ?_, fun w hw => ?_⟩
    · rw [performAll_actor]
      exact hre.phaseOk h.phaseOk
    · rcases mem_performAll_messages hmem with rfl | hmem
      · exact hmsg
      · have hrest : m ∈ rest ++ n.stash := hmem
        exact h.declared m (by simp [hm, hrest])
    · rw [performAll_actor]
      exact hre.batchNumbered hmsg h.batch
    · rcases mem_performAll_writer hw with hw | hreq
      · exact h.writes w hw
      · exact hre.writeNumbered hmsg h.batch hreq

theorem NodeNumbered.arrive (h : NodeNumbered cfg n) (msg : Message C) (hmsg : msg.declares = true)
    {n' : Node S C} (ha : n'.actor = n.actor) (hm : n'.mailbox = n.mailbox ++ [msg])
    (hs : n'.stash = n.stash) (hw : ∀ w ∈ n'.writer, w ∈ n.writer) : NodeNumbered cfg n' where
  phaseOk := ha ▸ h.phaseOk
  declared := by
    intro m hmem
    simp only [hm, hs, List.mem_append, List.mem_singleton] at hmem
    rcases hmem with (hmem | rfl) | hmem
    · exact h.declared m (by simp [hmem])
    · exact hmsg
    · exact h.declared m (by simp [hmem])
  batch := ha ▸ h.batch
  writes := fun w hmem => h.writes w (hw w hmem)

theorem answerAsk_numbered (w : Write) (err : Option Err) (h : NodeNumbered cfg n) :
    NodeNumbered cfg (answerAsk w err n) := by
  unfold answerAsk
  split
  · exact h.arrive (.persistEventsResponse err) rfl rfl rfl rfl fun _ hw => hw
  · exact h

theorem NodeNumbered.wrote {w : Write} {later : List Write} (h : NodeNumbered cfg n)
    (hw : n.writer = w :: later) (committed : List Block) :
    NodeNumbered cfg { n with writer := later, committed := committed } :=
  ⟨h.phaseOk, h.declared, h.batch, fun w hmem => h.writes w (hw ▸ List.mem_cons_of_mem _ hmem)⟩

variable {l : Label C}

theorem nodeStep_numbered (store : EventsStore) (log : Option EventLog)
    (hl : l.declares = true) (h : NodeNumbered cfg n) : NodeNumbered cfg (nodeStep cfg store n log l).1 := by
  cases l with
  | command ctx cmd => exact h.arrive (.command n.arrived ctx cmd) hl rfl rfl rfl fun _ hw => hw
  | getState ctx => exact h.arrive (.getState n.arrived ctx) rfl rfl rfl rfl fun _ hw => hw
  | flushTick => exact h.arrive .batchFlushTick rfl rfl rfl rfl fun _ hw => hw
  | deliver turn place => exact deliver_numbered turn place h
  | write outcome =>
    cases hw : n.writer with
    | nil =>
      simp only [nodeStep, writeNext_nil store outcome log hw]
      exact h
    | cons w later =>
      simp only [nodeStep]
      rcases writeNext_cases store outcome log hw with
        ⟨log', -, heq | ⟨-, heq⟩⟩ | ⟨err, heq⟩ | ⟨-, heq⟩ <;> rw [heq]
      · exact answerAsk_numbered w none (h.wrote hw _)
      · exact h.wrote hw _
      · exact answerAsk_numbered w (some err) (h.wrote hw n.committed)
      · exact h.wrote hw n.committed
  | timeout text =>
    simp only [nodeStep, timeoutAsk]
    split
    · exact h
    · exact answerAsk_numbered _ _ h
  | fire timer =>
    simp only [nodeStep, fireTimer]
    split
    · exact h.arrive .batchFlushTick rfl rfl rfl rfl fun _ hw => hw
    · exact h
  | restart snapshot =>
    simp only [nodeStep, restartNode]
    split
    · exact h
    · rename_i actor hrec
      obtain ⟨state, tenant, latest, -, rfl⟩ := recover_new hrec
      exact ⟨phaseOk_new _ _ _, by simp, batchNumbered_of_closed rfl rfl, h.writes⟩

theorem nodeStep_log (log : Option EventLog) (l : Label C) : (nodeStep cfg Testkit.eventsStore n log l).2 =
      match nextWrite n l with
      | none => log
      | some w =>
        match Testkit.eventsStore.writeEvents w.req.scope cfg.persistenceID log w.req.envelopes
          w.req.precondition with
        | .ok log' => log'
        | .error _ => log := by
  cases l with
  | write outcome =>
    cases outcome <;> cases hw : n.writer <;> simp only [nodeStep, writeNext, nextWrite, hw, List.head?]
    all_goals split <;> simp only [*]
  | _ => rfl

variable {log : Option EventLog}

theorem mem_journal_nodeStep {e : Event} (h : e ∈ journal (nodeStep cfg Testkit.eventsStore n log l).2) :
    e ∈ journal log ∨ e ∈ acceptedBy cfg n log l := by
  rw [nodeStep_log] at h
  unfold acceptedBy
  cases hw : nextWrite n l with
  | none => exact .inl (by simpa only [hw] using h)
  | some w =>
    simp only [hw] at h ⊢
    cases hs : Testkit.eventsStore.writeEvents w.req.scope cfg.persistenceID log w.req.envelopes
        w.req.precondition with
    | error err => exact .inl (by simpa only [hs] using h)
    | ok new =>
      simp only [hs] at h ⊢
      exact Testkit.mem_journal_writeRecord hs h

theorem intact_iff_continues {accepted events : List Event} (h : Intact ⟨log, accepted⟩) (hne : events ≠ [])
    (hn : Numbered (·.sequenceNumber) base events) :
    Intact ⟨some (Testkit.newEventLog log events), accepted ++ events⟩ ↔ base = storageRevision log := by
  obtain ⟨hacc, hold, hrev⟩ := h
  dsimp only at hacc hold hrev
  constructor
  · rintro ⟨hacc', hnew, -⟩
    have hcont : Numbered (·.sequenceNumber) 0 (journal log ++ events) := by
      dsimp only at hacc' hnew
      rwa [hacc, ← hacc']
    have hnum := (numbered_append.mp hcont).2
    obtain ⟨x, xs, rfl⟩ := List.exists_cons_of_ne_nil hne
    have h1 := hnum.1
    have h2 := hn.1
    omega
  · rintro rfl
    have hcont : Numbered (·.sequenceNumber) 0 (journal log ++ events) :=
      numbered_append.mpr ⟨hold, by rwa [Nat.zero_add, hrev]⟩
    have hfresh : Fresh log events :=
      List.nodup_iff_pairwise_ne.mpr (List.pairwise_map.mpr (hcont.pairwise.imp Nat.ne_of_lt))
    have hj : journal (some (Testkit.newEventLog log events)) = journal log ++ events :=
      Testkit.newEventLog_of_fresh hfresh
    refine ⟨by rw [hj, hacc], by rwa [hj], ?_⟩
    rw [hj, storageRevision_some, List.length_append, hrev]
    exact (Testkit.foldl_raiseRevision hn).symm

theorem declaredRevision_of_holds {p : WritePrecondition}
    (hc : p.isUnconditional = false) (hp : p.Holds (log.map (·.revision))) :
    declaredRevision p = storageRevision log := by
  cases p with
  | unspecified => exact hp.elim
  | unconditional => simp [WritePrecondition.isUnconditional] at hc
  | genesis =>
    obtain rfl := Option.map_eq_none_iff.mp hp
    rfl
  | exactRevision r =>
    obtain ⟨log, rfl, rfl⟩ := Option.map_eq_some_iff.mp hp
    rfl

theorem recordStep_intact {r : Record} (h : Intact r) (hw : ∀ w ∈ n.writer, WriteNumbered w.req) :
    Intact (recordStep cfg n r l).2 ↔ misnumbers n r.log l = false := by
  rw [recordStep, nodeStep_log, acceptedBy, misnumbers]
  cases hnext : nextWrite n l with
  | none => simpa using h
  | some w =>
    have hmem : w ∈ n.writer := by
      unfold nextWrite at hnext
      split at hnext
      · simp at hnext
      · exact List.mem_of_head? hnext
      · simp at hnext
    obtain ⟨hcond, hne, base, hnum⟩ := hw w hmem
    have hstore := @Testkit.writeRecord_conditional w.req.scope cfg.persistenceID r.log
      w.req.envelopes w.req.precondition hcond hne
    by_cases hok : w.req.scope.valid = true ∧ w.req.precondition.Holds (r.log.map (·.revision))
    · have heq := (hstore _).mpr ⟨hok.1, hok.2, rfl⟩
      simp only [Testkit.eventsStore, heq]
      rw [intact_iff_continues h hne hnum, ← declaredRevision_of_holds hcond hok.2]
      obtain ⟨x, xs, hcons⟩ := List.exists_cons_of_ne_nil hne
      rw [hcons] at hnum ⊢
      have hx : x.sequenceNumber = base + 1 := hnum.1
      simp [hok.1, hok.2, hx]
    · have herr : ∃ err, Testkit.writeRecord w.req.scope cfg.persistenceID r.log w.req.envelopes
          w.req.precondition = .error err := by
        cases hr : Testkit.writeRecord w.req.scope cfg.persistenceID r.log w.req.envelopes
          w.req.precondition with
        | error err => exact ⟨err, rfl⟩
        | ok new => exact absurd ⟨((hstore new).mp hr).1, ((hstore new).mp hr).2.1⟩ hok
      obtain ⟨err, herr⟩ := herr
      simp only [Testkit.eventsStore, herr, List.append_nil]
      refine iff_of_true h ?_
      rw [← Bool.not_eq_true, Bool.and_eq_true, Bool.and_eq_true, decide_eq_true_iff]
      exact fun hc => hok hc.1

def PairNumbered (cfg : Config S C E) : Shared (Node S C) Record → Prop :=
  Shared.Both fun n _ => NodeNumbered cfg n

theorem pairStep_numbered {p : Shared (Node S C) Record} {l : Side × Label C}
    (h : PairNumbered cfg p) (hl : l.2.declares = true) : PairNumbered cfg (pairStep cfg p l) :=
  Shared.Both.step h (nodeStep_numbered Testkit.eventsStore p.common.log hl (h.part l.1))
    fun _ hm => hm

theorem pairNumbered_start : PairNumbered cfg (Pair.start cfg) := by
  have h : NodeNumbered cfg (Node.start (.new cfg.behavior.initialState 0 (spawnTenant cfg))) :=
    ⟨phaseOk_new _ _ _, by simp [Node.start], batchNumbered_of_closed rfl rfl, by simp [Node.start]⟩
  exact ⟨h, h⟩

/-- Two incarnations whose commands all declare a revision, in any interleaving:
the journal holds all accepted events, each as it was accepted, and is numbered
up to the stored revision, in every state of the run exactly if no write that
meets its precondition is numbered from a counter other than the declared
revision. -/
theorem relocation_intact_iff (cfg : Config S C E) (labels : List (Side × Label C))
    (hd : ∀ l ∈ labels, l.2.declares = true) :
    (∀ before, before <+: labels → Intact (run (pairStep cfg) (Pair.start cfg) before).common) ↔
      Along (pairStep cfg) (fun p l => misnumbers (p.part l.1) p.common.log l.2 = false) (Pair.start cfg) labels := by
  have hnum : ∀ before, before <+: labels →
      PairNumbered cfg (run (pairStep cfg) (Pair.start cfg) before) := fun before hpre =>
    run_invariant (pairStep cfg) (PairNumbered cfg) (fun _ _ h hl => pairStep_numbered h hl)
      pairNumbered_start (along_of_forall _ fun l hl => hd l (hpre.subset hl))
  have hrun := @run_invariant_iff _ _ (pairStep cfg)
    (fun p l => misnumbers (p.part l.1) p.common.log l.2 = false)
    (fun p => PairNumbered cfg p ∧ Intact p.common) labels ?_ _ ⟨pairNumbered_start, ⟨rfl, trivial, rfl⟩⟩
  · rw [← hrun]
    exact forall₂_congr fun before hpre => (and_iff_right (hnum before hpre)).symm
  · rintro p l hl ⟨hp, hi⟩
    rw [and_iff_right (pairStep_numbered hp (hd l hl)), pairStep, Shared.step_common]
    exact recordStep_intact hi (hp.part l.1).writes

def relocatedAccount : List (Side × Label Command) :=
  [(.first, .command (expecting 0) (.createAccount 5)), (.first, .deliver (turnAt 1) []),
    (.first, .write .store), (.first, .deliver (turnAt 2) []), (.first, .deliver (turnAt 2) []),
    (.second, .restart none), (.second, .command (expecting 1) (.creditAccount "account" 7)),
    (.first, .command (expecting 1) (.creditAccount "account" 9)),
    (.second, .deliver (turnAt 3) []), (.first, .deliver (turnAt 3) []), (.second, .write .store),
    (.first, .write .store), (.first, .deliver (turnAt 4) []), (.second, .deliver (turnAt 4) [])]

theorem relocation_intact_account :
    let p := run (pairStep (accountConfig 0)) (Pair.start (accountConfig 0)) relocatedAccount
    storageRevision p.common.log = 2 ∧ Intact p.common :=
  ⟨by decide, (relocation_intact_iff (accountConfig 0) relocatedAccount (by decide)).mpr (by decide)
    relocatedAccount (List.prefix_refl _)⟩

def staleAccount : List (Side × Label Command) :=
  [(.first, .command (expecting 0) (.createAccount 5)), (.first, .deliver (turnAt 1) []),
    (.first, .write .store), (.second, .command (expecting 1) (.createAccount 7)),
    (.second, .deliver (turnAt 2) []), (.second, .write .store)]

/-- The committed event is overwritten: both writes were accepted under number one. -/
theorem relocated_event_overwritten :
    let at_commit := run (pairStep (accountConfig 0)) (Pair.start (accountConfig 0))
      (staleAccount.take 3)
    let at_end := run (pairStep (accountConfig 0)) (Pair.start (accountConfig 0)) staleAccount
    (∀ l ∈ staleAccount, l.2.declares = true) ∧
    (∃ e ∈ journal at_commit.common.log, e ∉ journal at_end.common.log) ∧
      at_end.common.accepted.length = 2 ∧ (journal at_end.common.log).length = 1 := by
  decide

end

end Ego.EventSource

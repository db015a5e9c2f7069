import Ego.EventSource.Crash
import Ego.Migration.Seeding

/-!
# The PostgreSQL store against the in-memory store

Of two events with one number `testkit/eventstore.go` keeps the later one; PostgreSQL
keeps the first, or refuses the write. Writers that number on do not see a difference.
-/

namespace Ego.Postgres
open Persistence Lib
open Enginetest (Command credited)

variable {old : Option EventLog} {events : List Event}

theorem eq_newEventLog {new : EventLog} (h : Fresh old events) (hevents : new.events = journal old ++ events)
    (hrevision : new.revision = highest (storageRevision old) events) : new = Testkit.newEventLog old events := by
  have hmerged := Testkit.newEventLog_of_fresh h
  have hraised : (Testkit.newEventLog old events).revision = highest (storageRevision old) events :=
    Testkit.foldl_raiseRevision_eq_max events _
  generalize Testkit.newEventLog old events = log at hmerged hraised
  cases new
  cases log
  simp_all

theorem insertEvents_eq (h : Fresh old events) : insertEvents old events = .ok (Testkit.newEventLog old events) := by
  obtain ⟨new, hnew⟩ := insertEvents_total h
  obtain ⟨hevents, hrevision⟩ := insertEvents_spec hnew
  rw [hnew, eq_newEventLog h hevents hrevision]

theorem writeRecord_agrees {scope : Scope} {id : String} {p : WritePrecondition}
    (h : p.Holds (old.map (·.revision)) → Fresh old events) :
    writeRecord scope id old events p = Testkit.writeRecord scope id old events p := by
  unfold writeRecord Testkit.writeRecord writeConditional Testkit.conditionalLog
  cases p with
  | unspecified => rfl
  | unconditional =>
    have hnew : writeUnconditional old events = Testkit.newEventLog old events :=
      eq_newEventLog (h trivial) (insertIgnoring_of_fresh (h trivial)) rfl
    simp [WritePrecondition.isUnconditional, hnew]
  | genesis =>
    cases old with
    | none => simp [WritePrecondition.isUnconditional, insertEvents_eq (h rfl)]
    | some log => rfl
  | exactRevision n =>
    cases old with
    | none => rfl
    | some log =>
      by_cases hn : n = log.revision
      · simp [WritePrecondition.isUnconditional, insertEvents_eq (h (congrArg some hn.symm))]
      · simp [WritePrecondition.isUnconditional, hn]

theorem deleteEvents_agrees : deleteEvents = Testkit.deleteEvents := by
  funext scope log upTo
  unfold deleteEvents Testkit.deleteEvents
  cases log with
  | none => rfl
  | some log =>
    have hfilter : (log.events.filter fun e => !decide (e.sequenceNumber ≤ upTo)) =
        log.events.filter fun e => e.sequenceNumber > upTo :=
      List.filter_congr fun e _ => by rw [← decide_not, decide_eq_decide, Nat.not_le]
    simp only [Option.map_some, hfilter]
    split
    · rfl
    split
    · rename_i hlen
      simp only [List.filter_sublist.eq_of_length hlen]
    · rfl

theorem replayEvents_agrees : retainingStore.replayEvents = Testkit.replayEvents := by
  funext scope log a b limit
  have hsorted := @Migration.eq_history log a b _ (StableSort.sort_perm _ _)
    (StableSort.sort_sorted Testkit.sequenceNumber_decides _)
  simp only [retainingStore, Testkit.replayEvents, hsorted]
  rfl

theorem isLatest_unique {x y : Option Event} (hu : (events.map (·.sequenceNumber)).Nodup) (hx : IsLatest events x)
    (hy : IsLatest events y) : x = y := by
  cases x with
  | none =>
    obtain rfl : events = [] := hx
    cases y with
    | none => rfl
    | some y => exact absurd hy.1 List.not_mem_nil
  | some x =>
    cases y with
    | none =>
      obtain rfl : events = [] := hy
      exact absurd hx.1 List.not_mem_nil
    | some y => rw [List.inj_on_of_nodup_map hu hx.1 hy.1 (Nat.le_antisymm (hy.2 x hx.1) (hx.2 y hy.1))]

theorem getLatestEvent_agrees : getLatestEvent = Testkit.getLatestEvent := by
  funext scope log
  cases hs : scope.valid with
  | false => simp [getLatestEvent, Testkit.getLatestEvent, hs]
  | true =>
    obtain ⟨x, hx⟩ := retainingStore.latest_total scope log hs
    obtain ⟨y, hy⟩ := Testkit.retainingStore.latest_total scope log hs
    have hsame := isLatest_unique (journal_unique log) (getLatestEvent_ok hx) (Testkit.getLatestEvent_ok hy)
    exact hx.trans (hsame ▸ hy.symm)

inductive Call where
  | writeEvents (scope : Scope) (persistenceID : String) (events : List Event) (precondition : WritePrecondition)
  | deleteEvents (scope : Scope) (toSequenceNumber : ℕ)
  | replayEvents (scope : Scope) (fromSequenceNumber toSequenceNumber limit : ℕ)
  | getLatestEvent (scope : Scope)

/-- The record and the answers so far. -/
structure Session where
  log : Option EventLog
  answers : List (Except Err (List Event))

def Session.answer (s : Session) (reply : Except Err (List Event)) : Session :=
  { s with answers := s.answers ++ [reply] }

def Session.stored (s : Session) : Except Err (Option EventLog) → Session
  | .ok log => { s with log := log }.answer (.ok [])
  | .error err => s.answer (.error err)

def serve (store : RetainingStore) (s : Session) : Call → Session
  | .writeEvents scope id events p => s.stored (store.writeEvents scope id s.log events p)
  | .deleteEvents scope upTo => s.stored (store.deleteEvents scope s.log upTo)
  | .replayEvents scope a b limit => s.answer (store.replayEvents scope s.log a b limit)
  | .getLatestEvent scope => s.answer ((store.getLatestEvent scope s.log).map Option.toList)

/-- A write whose precondition holds brings numbers that are not taken, each of them
once. -/
def NumbersOn (s : Session) : Call → Prop
  | .writeEvents _ _ events p => p.Holds (s.log.map (·.revision)) → Fresh s.log events
  | _ => True

theorem serve_agrees {s : Session} {call : Call} (h : NumbersOn s call) :
    serve retainingStore s call = serve Testkit.retainingStore s call := by
  cases call with
  | writeEvents scope id events p => exact congrArg s.stored (writeRecord_agrees h)
  | deleteEvents scope upTo => exact congrArg (fun f => s.stored (f scope s.log upTo)) deleteEvents_agrees
  | replayEvents scope a b limit => exact congrArg (fun f => s.answer (f scope s.log a b limit)) replayEvents_agrees
  | getLatestEvent scope =>
    exact congrArg (fun f => s.answer ((f scope s.log).map Option.toList)) getLatestEvent_agrees

/-- Every answer is the same, conflicts included, and so is the record. -/
theorem stores_agree (s : Session) (calls : List Call) (h : Along (serve Testkit.retainingStore) NumbersOn s calls) :
    run (serve retainingStore) s calls = run (serve Testkit.retainingStore) s calls :=
  run_congr _ (fun _ => True) (fun _ _ _ hcall => ⟨serve_agrees hcall, trivial⟩) trivial h

def accountCalls : List Call :=
  [.writeEvents .unscoped "account" [credited "account" 1 0, credited "account" 2 0] .genesis,
    .writeEvents .unscoped "account" [credited "account" 1 0] .genesis, .deleteEvents .unscoped 2,
    .writeEvents .unscoped "account" [credited "account" 3 0] (.exactRevision 2), .replayEvents .unscoped 1 9 9]

theorem stores_agree_account : (run (serve Testkit.retainingStore) ⟨none, []⟩ accountCalls).answers.length = 5 ∧
      run (serve retainingStore) ⟨none, []⟩ accountCalls = run (serve Testkit.retainingStore) ⟨none, []⟩
        accountCalls := by
  refine ⟨rfl, stores_agree _ _ ?_⟩
  exact ⟨fun _ => by decide, fun h => (by cases h), trivial, fun _ => by decide, trivial, trivial⟩

theorem Session.stored_log {s : Session} {result : Except Err (Option EventLog)} {P : Option EventLog → Prop}
    (hold : P s.log) (hnew : ∀ new, result = .ok new → P new) : P (s.stored result).log := by
  cases result with
  | error err => exact hold
  | ok new => exact hnew new rfl

def Call.spares (e : Event) : Call → Bool
  | .deleteEvents _ upTo => upTo < e.sequenceNumber
  | _ => true

theorem serve_keeps (s : Session) (call : Call) :
    (journal s.log).filter call.spares ⊆ journal (serve retainingStore s call).log := by
  have hsame : (journal s.log).filter call.spares ⊆ journal s.log := fun e he => (List.mem_filter.mp he).1
  cases call with
  | writeEvents scope id events p =>
    refine Session.stored_log (P := fun log => _ ⊆ journal log) hsame fun new hwrite => ?_
    obtain ⟨-, -, -, hkept⟩ := writeRecord_ok hwrite
    exact List.Subset.trans hsame hkept
  | deleteEvents scope upTo =>
    refine Session.stored_log (P := fun log => _ ⊆ journal log) hsame fun new hdelete => ?_
    exact (retainingStore.deletes _ _ _ _ hdelete).2 ▸ List.Subset.refl _
  | replayEvents | getLatestEvent => exact hsame

theorem serve_raises (store : RetainingStore) (s : Session) (call : Call) :
    storageRevision s.log ≤ storageRevision (serve store s call).log := by
  cases call with
  | writeEvents scope id events p =>
    refine Session.stored_log (P := fun log => _ ≤ storageRevision log) (Nat.le_refl _) fun new hwrite => ?_
    rw [store.raises _ _ _ _ _ _ hwrite]
    exact (le_highest _ events).1
  | deleteEvents scope upTo =>
    refine Session.stored_log (P := fun log => _ ≤ storageRevision log) (Nat.le_refl _) fun new hdelete => ?_
    exact Nat.le_of_eq (store.deletes _ _ _ _ hdelete).1.symm
  | replayEvents | getLatestEvent => exact Nat.le_refl _

/-- Whatever is written, under whatever numbers: a stored event is what it was until
`DeleteEvents` reaches it. -/
theorem stored_events_stay (s : Session) (calls : List Call) :
    ((journal s.log).filter fun e => calls.all (·.spares e)) ⊆ journal (run (serve retainingStore) s calls).log := by
  induction calls generalizing s with
  | nil => simp
  | cons call calls ih =>
    refine fun e he => ih (serve retainingStore s call) ?_
    simp only [List.mem_filter, List.all_cons, Bool.and_eq_true] at he ⊢
    exact ⟨serve_keeps s call (List.mem_filter.mpr ⟨he.1, he.2.1⟩), he.2.2⟩

/-- Once the record has passed revision `n`, no write that expects `n` is accepted any
more, also after `DeleteEvents` has emptied it. -/
theorem passed_revision_refused (store : RetainingStore) (s : Session) (calls : List Call) (scope : Scope) (id : String)
    (events : List Event) (n : ℕ) : let s' := run (serve store) s calls
    let p := preconditionFromRevision (some n)
    storageRevision s.log ≤ n ∨ ∃ err, serve store s' (.writeEvents scope id events p) =
      s'.answer (.error err) := by
  intro s' p
  cases hwrite : store.writeEvents scope id s'.log events p with
  | error err => exact .inr ⟨err, congrArg s'.stored hwrite⟩
  | ok new =>
    have hholds := store.precondition_holds _ _ _ _ _ _ hwrite
    have hn : storageRevision s'.log = n := by
      cases n with
      | zero | succ => rw [storageRevision, show s'.log.map _ = _ from hholds]; rfl
    have hle := run_always (serve store) (fun t => storageRevision s.log ≤ storageRevision t.log)
      (fun t call h => Nat.le_trans h (serve_raises store t call)) (Nat.le_refl _) calls
    exact .inl (hn ▸ hle)

section
open EventSource
variable {S C E : Type} {cfg : Config S C E} {snapshotStore : SnapshotStore} {s : Retained S C}

/- What the actor asks for continues what was ever persisted, so no number is taken. -/
theorem fresh_of_retained (h : RetainedInv cfg s) {w : Write} {later : List Write} (hw : s.node.writer = w :: later) :
    Fresh s.log w.req.envelopes := by
  obtain ⟨full, hj⟩ := h.node.journal
  have hnumbered := (hj.stage.head_write hw).2
  rw [hj.ledger] at hnumbered
  obtain ⟨cut, hcut, -⟩ := h.records.cut
  have hsub : (journal s.log ++ w.req.envelopes).Sublist (envelopesOf s.node.committed ++ w.req.envelopes) := by
    rw [hcut]
    exact List.filter_sublist.append_right _
  exact (List.nodup_iff_pairwise_ne.mpr
    (List.pairwise_map.mpr (hnumbered.pairwise.imp Nat.ne_of_lt))).sublist (hsub.map _)

theorem writeNext_agrees (h : RetainedInv cfg s) (outcome : Outcome) :
    writeNext cfg retainingStore.toEventsStore outcome s.node s.log =
      writeNext cfg Testkit.retainingStore.toEventsStore outcome s.node s.log := by
  cases hw : s.node.writer with
  | nil => simp only [writeNext, hw]
  | cons w later =>
    have hwrite : retainingStore.writeEvents w.req.scope cfg.persistenceID s.log w.req.envelopes w.req.precondition =
        Testkit.retainingStore.writeEvents w.req.scope cfg.persistenceID s.log w.req.envelopes w.req.precondition :=
      writeRecord_agrees fun _ => fresh_of_retained h hw
    simp only [writeNext, hw, hwrite]

theorem childStep_agrees (s : Retained S C) (l : ChildLabel) :
    childStep cfg retainingStore snapshotStore s l = childStep cfg Testkit.retainingStore snapshotStore s l := by
  have hdelete : retainingStore.deleteEvents = Testkit.retainingStore.deleteEvents := deleteEvents_agrees
  cases l <;> simp only [childStep, retainEvents, hdelete]

theorem recoverFrom_agrees (first second : List ChildLabel) :
    recoverFrom cfg retainingStore snapshotStore s first second =
      recoverFrom cfg Testkit.retainingStore snapshotStore s first second := by
  have hlate : lateStep cfg retainingStore snapshotStore (C := C) =
      lateStep cfg Testkit.retainingStore snapshotStore := by
    funext s l
    rw [lateStep, lateStep, childStep_agrees]
  have hlatest : retainingStore.getLatestEvent = Testkit.retainingStore.getLatestEvent := getLatestEvent_agrees
  have hreplay : retainingStore.replayEvents = Testkit.retainingStore.replayEvents := replayEvents_agrees
  simp only [recoverFrom, hlate, recoverReading, hlatest, hreplay]

theorem retentionStep_agrees (h : RetainedInv cfg s) (l : RetentionLabel C) :
    retentionStep cfg retainingStore snapshotStore s l = retentionStep cfg Testkit.retainingStore snapshotStore s
      l := by
  cases l with
  | child l => exact childStep_agrees s l
  | crash first second => simp only [retentionStep, recoverFrom_agrees]
  | actor l =>
    cases l with
    | write outcome => simp only [retentionStep, nodeStep, writeNext_agrees h]
    | restart | command | getState | flushTick | deliver | timeout | fire => rfl

/-- An entity with its writer, snapshots and retention that is tested over the in-memory
events store does the same over PostgreSQL, crashes included: the same replies, the same
actor, the same journal and the same snapshots. -/
theorem retained_runs_agree (cfg : Config S C E) (snapshotStore : SnapshotStore) (hs : Spawned cfg)
    (labels : List (RetentionLabel C))
    (h : Along (retentionStep cfg Testkit.retainingStore snapshotStore) (Orderly cfg) (Retained.start cfg) labels) :
    run (retentionStep cfg retainingStore snapshotStore) (Retained.start cfg) labels =
      run (retentionStep cfg Testkit.retainingStore snapshotStore) (Retained.start cfg) labels :=
  run_congr _ (RetainedInv cfg) (fun _ l hinv hl => ⟨retentionStep_agrees hinv l, retentionStep_inv hs hinv hl⟩)
    (retainedInv_start cfg) h

def creditedCrash : List (RetentionLabel Command) :=
    creditedTwice ++ [.crash [.snapshot 1 .store] [.retain 0 true true]]

theorem retained_runs_agree_credited : let cfg := retainedConfig []
    let s := run (retentionStep cfg Testkit.retainingStore Testkit.snapshotStore) (Retained.start cfg) creditedCrash
    s.node.actor.eventsCounter = 2 ∧
      run (retentionStep cfg retainingStore Testkit.snapshotStore) (Retained.start cfg) creditedCrash = s := by
  intro cfg s
  refine ⟨by decide, retained_runs_agree _ _ ⟨fun _ => rfl, fun h => by cases h⟩ _ ?_⟩
  have hwrite (w : Write) : ∀ e ∈ w.req.envelopes, Unadapted cfg e := fun e _ => unadapted_of_nil rfl e
  have hrunning {n : Node ℕ Command} {P : Prop} (h : n.stopping = false) (hs : n.stopping = true) : P := by simp_all
  exact ⟨trivial, hrunning (by decide), fun w _ => hwrite w, hrunning (by decide), hrunning (by decide),
    trivial, trivial,
    trivial, hrunning (by decide), fun w _ => hwrite w, hrunning (by decide), hrunning (by decide), trivial, trivial⟩

end

end Ego.Postgres

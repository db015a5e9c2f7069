import Ego.EventSource.SoleWriter

/-!
# An actor that goes on after a conflict

After a rejected write an actor goes on exactly if the conflict reports its own counter
as the stored revision.
-/

namespace Ego.EventSource
open Persistence Protocol Lib
open Enginetest (Command accountConfig expecting turnAt credited)

section
variable {S C E : Type} (cfg : Config S C E)

structure Moment (S : Type) where
  blocks : List Block
  err : Err
  state : S
  counter : ℕ
  revision : Option ℕ
  stored : List Event
  deriving DecidableEq

structure Failure (S : Type) where
  blocks : List Block
  err : Err
  state : S
  counter : ℕ
  deriving DecidableEq

def Failure.survivable (f : Failure S) : Prop :=
  ∃ e, f.err = .conflict e ∧ e.actualRevision = some f.counter

structure Contended (S C : Type) where
  node : Node S C
  log : Option EventLog
  -- what retention has removed from the record
  removed : List Event
  conflicts : List (Moment S)
  failures : List (Failure S)

def inOrder (events : List Event) : List Event :=
  StableSort.sort (fun x y : Event => decide (x.sequenceNumber < y.sequenceNumber)) events

namespace Contended

def atNode (s : Contended S C) (l : Label C) : Contended S C :=
  let r := nodeStep cfg Testkit.eventsStore s.node s.log l
  { s with node := r.1, log := r.2 }

def moment (s : Contended S C) (w : Write) (err : Err) : Moment S where
  blocks := w.blocks
  err := err
  state := s.node.actor.currentState
  counter := s.node.actor.eventsCounter
  revision := s.log.map (·.revision)
  stored := inOrder (s.removed ++ journal s.log)

def told (s : Contended S C) : List (Failure S) :=
  match s.node.mailbox with
  | .persistEventsResponse (some err) :: _ =>
    if s.node.actor.phase = .persisting ∨ s.node.actor.phase = .flushing then
      [⟨s.node.awaited, err, s.node.actor.currentState, s.node.actor.eventsCounter⟩]
    else []
  | _ => []

end Contended

def Contended.start (a : Actor S) (log : Option EventLog) : Contended S C := ⟨.start a, log, [], [], []⟩

/-- The fold of what is stored, for an incarnation that started as `a`: a snapshot
stands for the events before it, recovery reads the events it found through the
adapters, and later ones count as they were handled. -/
def foldStored (snapshot : Option Snapshot) (a : Actor S) (stored : List Event) : Except Err S := do
  let (spawned, replayFrom) ←
    recoverFromSnapshot cfg (.new cfg.behavior.initialState 0 (spawnTenant cfg)) snapshot
  let state ← (stored.filter fun e => replayFrom ≤ e.sequenceNumber ∧ e.sequenceNumber ≤ a.eventsCounter).foldlM
    (applyPersistedEvent cfg a.actorTenant) spawned.currentState
  replay cfg state (stored.filter fun e => a.eventsCounter < e.sequenceNumber)

/-! ### Reading in order -/

variable {cfg} {events : List Event}

theorem increasing_ext {xs ys : List Event} (hx : xs.Pairwise fun x y => x.sequenceNumber < y.sequenceNumber)
    (hy : ys.Pairwise fun x y => x.sequenceNumber < y.sequenceNumber) (h : ∀ e, e ∈ xs ↔ e ∈ ys) : xs = ys := by
  have hnodup : ∀ {zs : List Event}, (zs.Pairwise fun x y => x.sequenceNumber < y.sequenceNumber) → zs.Nodup :=
    fun hz => hz.imp fun hlt heq => Nat.ne_of_lt hlt (congrArg Event.sequenceNumber heq)
  have hperm : xs.Perm ys := (List.perm_ext_iff_of_nodup (hnodup hx) (hnodup hy)).mpr h
  refine hperm.eq_of_pairwise ?_ hx hy
  intro x y _ _ hxy hyx
  exact absurd hyx (Nat.lt_asymm hxy)

theorem inOrder_perm (events : List Event) : (inOrder events).Perm events := StableSort.sort_perm _ events

theorem mem_inOrder {e : Event} : e ∈ inOrder events ↔ e ∈ events := (inOrder_perm events).mem_iff

theorem inOrder_pairwise (h : (events.map (·.sequenceNumber)).Nodup) :
    (inOrder events).Pairwise fun x y => x.sequenceNumber < y.sequenceNumber := by
  have hne : (inOrder events).Pairwise fun x y => x.sequenceNumber ≠ y.sequenceNumber :=
    List.pairwise_map.mp (List.nodup_iff_pairwise_ne.mp (((inOrder_perm events).map _).nodup_iff.mpr h))
  have hle := StableSort.sort_sorted Testkit.sequenceNumber_decides events
  exact (hle.and hne).imp fun ⟨hle, hne⟩ => Nat.lt_of_le_of_ne hle hne

theorem length_le_of_between {lo hi : ℕ} (hu : (events.map (·.sequenceNumber)).Nodup)
    (h : ∀ e ∈ events, lo ≤ e.sequenceNumber ∧ e.sequenceNumber ≤ hi) : events.length ≤ hi - lo + 1 := by
  have hsub : events.map (·.sequenceNumber) ⊆ List.range' lo (hi - lo + 1) := by
    intro k hk
    obtain ⟨e, he, rfl⟩ := List.mem_map.mp hk
    have := h e he
    rw [List.mem_range'_1]
    omega
  have hle := (List.subperm_of_subset hu hsub).length_le
  simpa using hle

variable {scope : Scope} {log : Option EventLog}

theorem replayEvents_all {lo hi : ℕ} {found : List Event}
    (h : Testkit.replayEvents scope log lo hi (hi - lo + 1) = .ok found)
    (hall : ∀ e ∈ journal log, e.sequenceNumber ≤ hi) :
    found = (inOrder (journal log)).filter fun e => lo ≤ e.sequenceNumber := by
  have hunique := journal_unique log
  have hfilter : ((journal log).filter fun e => lo ≤ e.sequenceNumber ∧ e.sequenceNumber ≤ hi) =
      (journal log).filter fun e => lo ≤ e.sequenceNumber :=
    List.filter_congr fun e he => by simp [hall e he]
  have hsub : (((journal log).filter fun e => lo ≤ e.sequenceNumber).map (·.sequenceNumber)).Nodup :=
    hunique.sublist (List.filter_sublist.map _)
  unfold Testkit.replayEvents at h
  split at h
  · simp at h
  have hfound := (Except.ok.inj h).symm
  rw [hfilter] at hfound
  have hlen : (inOrder ((journal log).filter fun e => lo ≤ e.sequenceNumber)).length ≤ hi - lo + 1 := by
    rw [(inOrder_perm _).length_eq]
    refine length_le_of_between hsub fun e he => ?_
    obtain ⟨hmem, hlo⟩ := List.mem_filter.mp he
    exact ⟨of_decide_eq_true hlo, hall e hmem⟩
  change found = (inOrder _).take _ at hfound
  rw [hfound, List.take_of_length_le hlen]
  refine increasing_ext (inOrder_pairwise hsub) ((inOrder_pairwise hunique).filter _) fun e => ?_
  rw [mem_inOrder, List.mem_filter, List.mem_filter, mem_inOrder]

variable {snapshot : Option Snapshot} {a : Actor S}

theorem recover_reads (h : recover cfg Testkit.eventsStore snapshot log = .ok a) : ∃ spawned replayFrom,
      recoverFromSnapshot cfg (.new cfg.behavior.initialState 0 (spawnTenant cfg)) snapshot =
        .ok (spawned, replayFrom) ∧ ((inOrder (journal log)).filter fun e => replayFrom ≤ e.sequenceNumber).foldlM
        (applyPersistedEvent cfg a.actorTenant) spawned.currentState = .ok a.currentState := by
  simp only [recover, recoverReading, bind_eq_ok] at h
  obtain ⟨⟨spawned, replayFrom⟩, hsnap, latest, hlatest, h⟩ := h
  refine ⟨spawned, replayFrom, hsnap, ?_⟩
  have hall := Testkit.eventsStore.latest_of_ok _ _ _ (mapError_eq_ok.mp hlatest)
  cases latest with
  | none =>
    have hnil : journal log = [] := hall
    rw [← Except.ok.inj h, hnil]
    rfl
  | some latest =>
    simp only [bind_eq_ok] at h
    obtain ⟨a₁, htenant, h⟩ := h
    obtain ⟨state, tenant, rfl, -⟩ := recoverFromSnapshot_new hsnap
    obtain ⟨tenant', rfl⟩ := seedFromMetadata_new htenant
    split at h
    · simp only [bind_eq_ok] at h
      obtain ⟨found, hfound, state', hstate, h⟩ := h
      rw [← Except.ok.inj h, ← replayEvents_all (mapError_eq_ok.mp hfound) hall.2]
      exact hstate
    · rename_i hafter
      have hnil : ((inOrder (journal log)).filter fun e => replayFrom ≤ e.sequenceNumber) = [] := by
        refine List.filter_eq_nil_iff.mpr fun e he => ?_
        have := hall.2 e (mem_inOrder.mp he)
        simp only [decide_eq_true_eq]
        omega
      rw [← Except.ok.inj h, hnil]
      rfl

theorem recover_counter (h : recover cfg Testkit.eventsStore snapshot log = .ok a) :
    (∀ e ∈ journal log, e.sequenceNumber ≤ a.eventsCounter) ∧
      ((∀ s, snapshot = some s → s.sequenceNumber ≤ storageRevision log) →
        a.eventsCounter ≤ storageRevision log) := by
  obtain ⟨state, tenant, latest, hlatest, rfl⟩ := recover_new h
  have hall := Testkit.eventsStore.latest_of_ok _ _ _ hlatest
  cases latest with
  | none =>
    have hnil : journal log = [] := hall
    exact ⟨by simp [hnil], fun hs => Nat.max_le.mpr ⟨usable_le hs, Nat.zero_le _⟩⟩
  | some latest =>
    have hle := le_storageRevision hall.1
    exact ⟨fun e he => Nat.le_trans (hall.2 e he) (Nat.le_max_right _ _), fun hs =>
      Nat.max_le.mpr ⟨usable_le hs, hle⟩⟩

/-! ### The record and what the actor has written -/

structure Mirrors (known : List Event) (upTo : ℕ) (removed : List Event) (log : Option EventLog) : Prop where
  mem : ∀ e, e ∈ known ↔ e ∈ removed ++ journal log ∧ e.sequenceNumber ≤ upTo
  removed_le : ∀ e ∈ removed, e.sequenceNumber ≤ upTo
  unique : ((removed ++ journal log).map (·.sequenceNumber)).Nodup
  reached : upTo ≤ storageRevision log

section
variable {known removed : List Event} {upTo : ℕ} {log : Option EventLog}

theorem unique_append {xs ys : List Event} : ((xs ++ ys).map (·.sequenceNumber)).Nodup ↔
    (xs.map (·.sequenceNumber)).Nodup ∧ (ys.map (·.sequenceNumber)).Nodup ∧
      ∀ x ∈ xs, ∀ y ∈ ys, x.sequenceNumber ≠ y.sequenceNumber := by
  rw [List.map_append, List.nodup_append]
  simp only [List.mem_map, forall_exists_index, and_imp, forall_apply_eq_imp_iff₂]

theorem Mirrors.others (h : Mirrors known upTo removed log)
    (hnew : ∀ e ∈ events, storageRevision log < e.sequenceNumber) :
    Mirrors known upTo removed (some (Testkit.newEventLog log events)) := by
  have hreached := h.reached
  obtain ⟨hru, -, hapart⟩ := unique_append.mp h.unique
  refine ⟨fun e => ?_, h.removed_le, ?_, ?_⟩
  · rw [h.mem e, List.mem_append, List.mem_append]
    refine and_congr_left fun hle => or_congr_right ?_
    have hother : e.sequenceNumber ∉ events.map (·.sequenceNumber) := by
      intro hmem
      obtain ⟨x, hx, heq⟩ := List.mem_map.mp hmem
      have := hnew x hx
      omega
    exact (Testkit.mem_foldl_mergeEvent_of_other hother).symm
  · refine unique_append.mpr ⟨hru, journal_unique _, fun x hx y hy => ?_⟩
    rcases Testkit.mem_foldl_mergeEvent hy with hy | hy
    · exact hapart x hx y hy
    · have := h.removed_le x hx
      have := hnew y hy
      omega
  · exact Nat.le_trans hreached (Testkit.le_foldl_raiseRevision events (storageRevision log)).1

theorem Mirrors.retain {k : ℕ} {log' : Option EventLog} (h : Mirrors known upTo removed log)
    (hk : k ≤ upTo) (hdelete : Testkit.deleteEvents scope log k = .ok log') :
    Mirrors known upTo (removed ++ (journal log).filter fun e => e.sequenceNumber ≤ k) log' := by
  obtain ⟨hrevision, hjournal⟩ := Testkit.deleteEvents_ok hdelete
  have hperm : (removed ++ ((journal log).filter (fun e => e.sequenceNumber ≤ k)) ++ journal log').Perm
      (removed ++ journal log) := by
    rw [List.append_assoc, hjournal]
    refine List.Perm.append_left _ ?_
    have hnot : (fun e : Event => decide (k < e.sequenceNumber)) =
        fun e => !decide (e.sequenceNumber ≤ k) := by
      simp only [← decide_not, Nat.not_le]
    rw [hnot]
    exact List.filter_append_perm _ _
  refine ⟨fun e => ?_, ?_, (hperm.map _).nodup_iff.mpr h.unique, hrevision ▸ h.reached⟩
  · rw [h.mem e, hperm.mem_iff]
  · refine List.forall_mem_append.mpr ⟨h.removed_le, fun e he => ?_⟩
    exact Nat.le_trans (of_decide_eq_true (List.mem_filter.mp he).2) hk

theorem Mirrors.write {envelopes : List Event} {scope : Scope} {id : String} {p : WritePrecondition}
    {log' : Option EventLog} (h : Mirrors known upTo removed log) (hn : Numbered (·.sequenceNumber) upTo envelopes)
    (hok : Testkit.writeRecord scope id log envelopes p = .ok log') :
    Mirrors (known ++ envelopes) (upTo + envelopes.length) removed log' := by
  obtain ⟨-, rfl⟩ := Testkit.writeRecord_ok hok
  by_cases hnil : envelopes = []
  · simpa [hnil] using h
  rw [if_neg hnil]
  obtain ⟨hru, -, hapart⟩ := unique_append.mp h.unique
  have hunique : (envelopes.map (·.sequenceNumber)).Nodup :=
    List.nodup_iff_pairwise_ne.mpr (List.pairwise_map.mpr (hn.pairwise.imp Nat.ne_of_lt))
  have hmem : ∀ e, e ∈ journal (some (Testkit.newEventLog log envelopes)) ↔
      e ∈ envelopes ∨ e ∈ journal log ∧ e.sequenceNumber ∉ envelopes.map (·.sequenceNumber) := fun e =>
    Testkit.mem_foldl_mergeEvent_iff hunique
  refine ⟨fun e => ?_, fun e he => ?_, ?_, ?_⟩
  · rw [List.mem_append, List.mem_append, hmem, h.mem e, List.mem_append]
    constructor
    · rintro (⟨hr | hj, hle⟩ | he)
      · exact ⟨.inl hr, by omega⟩
      · refine ⟨.inr (.inr ⟨hj, fun hmem => ?_⟩), by omega⟩
        obtain ⟨x, hx, heq⟩ := List.mem_map.mp hmem
        have := (hn.bounds x hx).1
        omega
      · exact ⟨.inr (.inl he), (hn.bounds e he).2⟩
    · rintro ⟨hr | he | ⟨hj, hother⟩, hle⟩
      · exact .inl ⟨.inl hr, h.removed_le e hr⟩
      · exact .inr he
      · refine .inl ⟨.inr hj, ?_⟩
        by_contra hlt
        exact hother (hn.covers (by omega) hle)
  · have := h.removed_le e he
    omega
  · refine unique_append.mpr ⟨hru, journal_unique _, fun x hx y hy => ?_⟩
    rcases (hmem y).mp hy with hy | ⟨hy, -⟩
    · have := h.removed_le x hx
      have := (hn.bounds y hy).1
      omega
    · exact hapart x hx y hy
  · obtain ⟨e, before, rfl⟩ : ∃ e before, envelopes = before ++ [e] := by
      obtain ⟨before, e, rfl⟩ := (List.eq_nil_or_concat' envelopes).resolve_left hnil
      exact ⟨e, before, rfl⟩
    have hlast : e.sequenceNumber = upTo + before.length + 1 := (numbered_append.mp hn).2.1
    have hle := (Testkit.le_foldl_raiseRevision (before ++ [e]) (storageRevision log)).2 e (by simp)
    rw [hlast, Nat.add_assoc] at hle
    rw [List.length_append, List.length_singleton]
    exact hle

end

/-! ### The actor against its own writes

The invariants of a sole writer hold of any actor if the journal is taken to be
what it has written itself, after as many events as it has recovered. Only the
number of the latter counts, so `standIn` takes their place. -/

def standIn (count : ℕ) : List Event :=
  (List.range count).map fun i => ⟨"", i + 1, false, ⟨"", []⟩, 0, 0, "", false, []⟩

theorem standIn_length (count : ℕ) : (standIn count).length = count := by simp [standIn]

def recordOf (events : List Event) (h : Numbered (·.sequenceNumber) 0 events) : Option EventLog := some {
  revision := events.length
  events := events
  unique := List.nodup_iff_pairwise_ne.mpr (List.pairwise_map.mpr (h.pairwise.imp Nat.ne_of_lt))
  le_revision := fun e he => by
    have := (h.bounds e he).2
    omega }

def Since (cfg : Config S C E) (a : Actor S) (J : List Event) (state : S) : Prop :=
  ∃ own, J = standIn a.eventsCounter ++ own ∧ replay cfg a.currentState own = .ok state

theorem Since.append (J : List Event) (s : S) (es : List Event) (s' : S) (h : Since cfg a J s)
    (hr : replay cfg s es = .ok s') : Since cfg a (J ++ es) s' := by
  obtain ⟨own, rfl, hown⟩ := h
  exact ⟨own ++ es, List.append_assoc _ _ _, (replay_append hown es).trans hr⟩

def Node.after (before : List Block) (n : Node S C) : Node S C := { n with committed := before ++ n.committed }

section
variable {before : List Block} {n : Node S C}

theorem performAll_after (msg : Message C) (place : List Bool) (effects : List Effect) :
    performAll msg place (n.after before) effects = (performAll msg place n effects).after before := by
  induction effects generalizing n with
  | nil => rfl
  | cons e effects ih =>
    have hone : perform msg place (n.after before) e = (perform msg place n e).after before := by
      cases e <;> rfl
    rw [performAll_cons, performAll_cons, hone, ih]

theorem answerAsk_after (w : Write) (err : Option Err) :
    answerAsk w err (n.after before) = (answerAsk w err n).after before := by
  unfold answerAsk
  change (if n.asks.any (·.id == w.id) then _ else _) = _
  split <;> rfl

theorem nodeStep_after (store : EventsStore) (log : Option EventLog) (l : Label C) :
    nodeStep cfg store (n.after before) log l =
      ((nodeStep cfg store n log l).1.after before, (nodeStep cfg store n log l).2) := by
  cases l with
  | command | getState | flushTick => rfl
  | deliver turn place =>
    cases hm : n.mailbox with
    | nil =>
      have hm' : (n.after before).mailbox = [] := hm
      simp only [nodeStep]
      rw [deliver_nil turn place hm', deliver_nil turn place hm]
    | cons msg rest =>
      have hm' : (n.after before).mailbox = msg :: rest := hm
      simp only [nodeStep, deliver, hm, hm']
      rw [← performAll_after]
      rfl
  | write outcome =>
    cases hw : n.writer with
    | nil =>
      have hw' : (n.after before).writer = [] := hw
      simp only [nodeStep]
      rw [writeNext_nil store outcome log hw', writeNext_nil store outcome log hw]
    | cons w rest =>
      have hw' : (n.after before).writer = w :: rest := hw
      simp only [nodeStep, writeNext, hw, hw']
      cases outcome with
      | fail err =>
        rw [← answerAsk_after]
        rfl
      | store =>
        dsimp only
        split
        · dsimp only
          rw [← answerAsk_after]
          simp only [Node.after, List.append_assoc]
        · dsimp only
          rw [← answerAsk_after]
          rfl
      | lost =>
        dsimp only
        split
        · simp only [Node.after, List.append_assoc]
        · rfl
  | timeout text =>
    have hasks : (n.after before).asks = n.asks := rfl
    simp only [nodeStep, timeoutAsk, hasks]
    split
    · rfl
    · rw [← answerAsk_after]
  | fire timer =>
    have htimers : (n.after before).timers = n.timers := rfl
    simp only [nodeStep, fireTimer, htimers]
    split <;> rfl
  | restart snapshot =>
    simp only [nodeStep, restartNode]
    split <;> rfl

end

def history (a : Actor S) : List Block := [⟨0, standIn a.eventsCounter, .errorReply (.message "")⟩]

def Tracked (cfg : Config S C E) (log₀ : Option EventLog) (a : Actor S) (n : Node S C) (removed : List Event)
    (log : Option EventLog) : Prop :=
  ∃ own hn, JournalInv cfg True (Since cfg a) (n.after (history a)) (recordOf (standIn a.eventsCounter ++ own) hn) ∧
    Mirrors (journal log₀ ++ own) (a.eventsCounter + own.length) removed log

section
variable {log₀ log : Option EventLog} {a : Actor S} {n : Node S C} {removed : List Event}

theorem Tracked.others (h : Tracked cfg log₀ a n removed log)
    (hnew : ∀ e ∈ events, storageRevision log < e.sequenceNumber) :
    Tracked cfg log₀ a n removed (some (Testkit.newEventLog log events)) := by
  obtain ⟨own, hn, hj, hm⟩ := h
  exact ⟨own, hn, hj, hm.others hnew⟩

theorem recordOf_length {own : List Event} (hn : Numbered (·.sequenceNumber) 0 (standIn a.eventsCounter ++ own)) :
    (journal (recordOf _ hn)).length = a.eventsCounter + own.length := by
  change (standIn a.eventsCounter ++ own).length = _
  rw [List.length_append, standIn_length]

section
variable (h : Tracked cfg log₀ a n removed log)
include h

theorem Tracked.retain {k : ℕ} {log' : Option EventLog}
    (hk : k ≤ n.actor.eventsCounter) (hdelete : Testkit.deleteEvents scope log k = .ok log') :
    Tracked cfg log₀ a n (removed ++ (journal log).filter fun e => e.sequenceNumber ≤ k) log' := by
  obtain ⟨own, hn, hj, hm⟩ := h
  have hle : n.actor.eventsCounter ≤ _ := hj.stage.counter_le
  rw [recordOf_length hn] at hle
  exact ⟨own, hn, hj, hm.retain (Nat.le_trans hk hle) hdelete⟩

theorem Tracked.quiet {l : Label C} {n' : Node S C}
    (hstep : ∀ log, nodeStep cfg Testkit.eventsStore n log l = (n', log))
    (hl : ∀ log, LabelOk cfg True (Since cfg a) Testkit.eventsStore (n.after (history a)) log l) :
    Tracked cfg log₀ a n' removed log := by
  obtain ⟨own, hn, hj, hm⟩ := h
  have hj' := nodeStep_journalInv Testkit.eventsStore Since.append hj l (hl _)
  rw [nodeStep_after, hstep] at hj'
  exact ⟨own, hn, hj', hm⟩

theorem Tracked.write (outcome : Outcome) :
    Tracked cfg log₀ a (writeNext cfg Testkit.eventsStore outcome n log).1 removed
      (writeNext cfg Testkit.eventsStore outcome n log).2 := by
  cases hw : n.writer with
  | nil =>
    rw [writeNext_nil _ outcome log hw]
    exact h
  | cons w later =>
    obtain ⟨own, hn, hj, hm⟩ := h
    have hw' : (n.after (history a)).writer = w :: later := hw
    obtain ⟨rfl, hnumbered⟩ := hj.stage.head_write hw'
    have hnext : Numbered (·.sequenceNumber) (a.eventsCounter + own.length) w.req.envelopes := by
      have := (numbered_append.mp hnumbered).2
      rwa [Nat.zero_add, recordOf_length hn] at this
    obtain ⟨J', hres, hcases⟩ := writeNext_decides Testkit.eventsStore outcome log (fun _ => trivial) hw'
      (journal (recordOf _ hn))
    have hafter := @nodeStep_after S C E cfg (history a) n Testkit.eventsStore log (.write outcome)
    simp only [nodeStep] at hafter
    rw [hafter] at hres hcases
    rcases hcases with ⟨rfl, hok⟩ | ⟨rfl, hlog⟩
    · have hn' : Numbered (·.sequenceNumber) 0 (standIn a.eventsCounter ++ (own ++ w.req.envelopes)) := by
        rw [← List.append_assoc]
        exact hnumbered
      refine ⟨own ++ w.req.envelopes, hn', ?_, ?_⟩
      · have hjournal : journal (recordOf _ hn') = journal (recordOf _ hn) ++ w.req.envelopes :=
          (List.append_assoc _ _ _).symm
        rw [← hjournal] at hres
        exact hres.journalInv hw' hj
      · have hm' := hm.write hnext hok
        rwa [List.append_assoc, Nat.add_assoc, ← List.length_append] at hm'
    · refine ⟨own, hn, hres.journalInv hw' hj, ?_⟩
      rw [hlog]
      exact hm

end

theorem Stage.tracks {ambiguous : Prop} {track : List Event → S → Prop} {v : View S} {J : List Event}
    (h : Stage cfg ambiguous track v J) (hl : J.length = v.counter) : track J v.state := by
  have hexact : Exact track v J → track J v.state := fun hj => hj.2.tracks
  have hgrown : ∀ {known extra : List Event}, InSync track v.state v.counter known → J = known ++ extra →
      track J v.state := by
    intro known extra hs hj
    have hnil : extra = [] := by
      rw [hj, List.length_append, hs.length] at hl
      exact List.length_eq_zero_iff.mp (by omega)
    rw [hj, hnil, List.append_nil]
    exact hs.tracks
  have hbehind : Behind track v J → track J v.state := by
    intro hj
    cases hj with
    | stored _ hs _ hj => exact hgrown hs hj
    | onItsWay _ hs => exact hs.tracks
  cases h with
  | ready _ _ _ hj => exact hexact hj
  | waiting _ _ _ _ _ hs => exact hs.tracks
  | doomed _ _ _ _ _ _ _ _ hj | lost _ _ _ _ _ _ _ hj => exact hbehind hj
  | confirmed _ _ _ _ _ _ hs hj => exact hgrown hs hj
  | rejected _ _ _ _ _ hj | draining _ _ _ _ hj => exact hj.elim hexact fun h => hbehind h.2.2

theorem foldStored_eq {own : List Event} {state : S} (hr : recover cfg Testkit.eventsStore snapshot log₀ = .ok a)
    (hm : Mirrors (journal log₀ ++ own) (a.eventsCounter + own.length) removed log)
    (hn : Numbered (·.sequenceNumber) a.eventsCounter own) (hrev : storageRevision log = a.eventsCounter + own.length)
    (hreplay : replay cfg a.currentState own = .ok state) :
    foldStored cfg snapshot a (inOrder (removed ++ journal log)) = .ok state := by
  have hall : ∀ e, e ∈ inOrder (removed ++ journal log) ↔ e ∈ journal log₀ ∨ e ∈ own := by
    intro e
    rw [mem_inOrder, ← List.mem_append, hm.mem e]
    refine ⟨fun he => ⟨he, ?_⟩, fun he => he.1⟩
    rcases List.mem_append.mp he with he | he
    · exact hm.removed_le e he
    · exact hrev ▸ le_storageRevision he
  have hold := (recover_counter hr).1
  have hincreasing := inOrder_pairwise hm.unique
  obtain ⟨spawned, replayFrom, hsnap, hfold⟩ := recover_reads hr
  have hfound : ((inOrder (removed ++ journal log)).filter fun e =>
      replayFrom ≤ e.sequenceNumber ∧ e.sequenceNumber ≤ a.eventsCounter) =
      (inOrder (journal log₀)).filter fun e => replayFrom ≤ e.sequenceNumber := by
    refine increasing_ext (hincreasing.filter _) ((inOrder_pairwise (journal_unique log₀)).filter _) fun e => ?_
    rw [List.mem_filter, List.mem_filter, hall, mem_inOrder, decide_eq_true_eq, decide_eq_true_eq]
    constructor
    · rintro ⟨he | he, hlo, hhi⟩
      · exact ⟨he, hlo⟩
      · have := (hn.bounds e he).1
        omega
    · exact fun ⟨he, hlo⟩ => ⟨.inl he, hlo, hold e he⟩
  have hown : ((inOrder (removed ++ journal log)).filter fun e => a.eventsCounter < e.sequenceNumber) = own := by
    refine increasing_ext (hincreasing.filter _) hn.pairwise fun e => ?_
    rw [List.mem_filter, hall, decide_eq_true_eq]
    constructor
    · rintro ⟨he | he, hlt⟩
      · have := hold e he
        omega
      · exact he
    · exact fun he => ⟨.inr he, (hn.bounds e he).1⟩
  simp only [foldStored, hsnap, hfound, hown, Bind.bind, Except.bind]
  rw [hfold]
  exact hreplay

theorem Tracked.folds (h : Tracked cfg log₀ a n removed log)
    (hr : recover cfg Testkit.eventsStore snapshot log₀ = .ok a)
    (hrev : log.map (·.revision) = some n.actor.eventsCounter) :
    foldStored cfg snapshot a (inOrder (removed ++ journal log)) = .ok n.actor.currentState := by
  obtain ⟨own, hn, hj, hm⟩ := h
  have hrev' : storageRevision log = n.actor.eventsCounter := by
    rw [storageRevision, hrev]
    rfl
  have hle : n.actor.eventsCounter ≤ (journal (recordOf _ hn)).length := hj.stage.counter_le
  have hlen := recordOf_length hn
  have hreached := hm.reached
  have heq : (journal (recordOf _ hn)).length = n.actor.eventsCounter := by omega
  obtain ⟨own', hsame, hreplay⟩ := hj.stage.tracks heq
  obtain rfl : own = own' := List.append_cancel_left hsame
  refine foldStored_eq hr hm ?_ (by omega) hreplay
  have := (numbered_append.mp hn).2
  rwa [standIn_length, Nat.zero_add] at this

end

/-! ### Answering for a failed write -/

section
variable {n : Node S C} {failures : List (Failure S)} {f : Failure S} {turn : Turn} {msg : Message C}
  {rest : List (Message C)} {a' : Actor S} {effects : List Effect}

def Failure.answered (f : Failure S) (n : Node S C) : Prop :=
  ∀ b ∈ f.blocks, (b.id, CommandReply.errorReply f.err) ∈ n.replies

structure Owed (n : Node S C) (f : Failure S) : Prop where
  blocks : f.blocks = n.awaited
  batched : n.actor.phase = .replying → n.actor.batchEntries = f.blocks.map (fun _ => .errorReply f.err) ∧
    (f.survivable ∨ n.actor.shutdownOnDrain = true) ∧
    ∀ b ∈ f.blocks.take (f.blocks.length - n.actor.remainingReplies),
      (b.id, CommandReply.errorReply f.err) ∈ n.replies
  direct : n.actor.phase = .directReplying → n.actor.directErr = some f.err ∧
    (f.survivable ∨ n.actor.directShutdown = true)

inductive Answering (n : Node S C) (failures : List (Failure S)) : Prop
  | settled (h : ∀ f ∈ failures, f.answered n ∧ (f.survivable ∨ n.stopping = true))
  | pending (old : List (Failure S)) (f : Failure S) (hf : failures = old ++ [f])
      (hold : ∀ f ∈ old, f.answered n ∧ f.survivable)
      (hp : n.actor.phase = .replying ∨ n.actor.phase = .directReplying) (ho : Owed n f)

theorem shouldStayAlive_iff (actor : Actor S) (blocks : List Block) (err : Err) :
    shouldStayAliveAfterConflict actor err = true ↔
      Failure.survivable ⟨blocks, err, actor.currentState, actor.eventsCounter⟩ := by
  cases err with
  | conflict e => simp [shouldStayAliveAfterConflict, Failure.survivable]
  | message text => simp [shouldStayAliveAfterConflict, Failure.survivable]

theorem Failure.answered.mono {n' : Node S C} (h : f.answered n) (hr : n.replies <+: n'.replies) : f.answered n' :=
  fun b hb => hr.subset (h b hb)

theorem Answering.keep {n' : Node S C} (h : Answering n failures) (ha : n'.actor = n.actor)
    (hw : n'.awaited = n.awaited) (hr : n'.replies = n.replies) (hs : n'.stopping = n.stopping) :
    Answering n' failures := by
  cases h with
  | settled h =>
    refine .settled fun f hf => ⟨(h f hf).1.mono (hr ▸ List.prefix_refl _), ?_⟩
    rw [hs]
    exact (h f hf).2
  | pending old f hf hold hp ho =>
    refine .pending old f hf (fun f hf => ⟨(hold f hf).1.mono (hr ▸ List.prefix_refl _), (hold f hf).2⟩)
      (by rwa [ha]) ?_
    exact ⟨by rw [hw]; exact ho.blocks, by rw [ha, hr]; exact ho.batched, by rw [ha]; exact ho.direct⟩

theorem Reaction.stopping (hre : Reaction cfg n.actor msg turn a' effects) (hs : n.stopping = false)
    (hp : a'.phase ≠ .processing) (computed : List (ℕ × CommandReply)) (place : List Bool) :
    (performAll msg place { n with computed := computed, actor := a', mailbox := rest } effects).stopping = false := by
  cases hre
  case fold ht => rcases ht with ⟨-, rfl⟩ | ⟨-, -, rfl⟩ <;> exact hs
  case replyFailure | drainLast => exact absurd rfl hp
  case gateFlush | foldFlush | directConfirmed | batchConfirmed => simp [performAll_append, perform, hs]
  all_goals exact hs

theorem Reaction.told {err : Err} (hre : Reaction cfg n.actor (.persistEventsResponse (some err)) turn a' effects)
    (hc : Custody cfg n) (hm : n.mailbox = .persistEventsResponse (some err) :: rest)
    (hall : ∀ f ∈ failures, f.answered n ∧ f.survivable) (computed : List (ℕ × CommandReply))
    (place : List Bool) :
    Answering (performAll (.persistEventsResponse (some err)) place
      { n with computed := computed, actor := a', mailbox := rest } effects)
      (failures ++ [⟨n.awaited, err, n.actor.currentState, n.actor.eventsCounter⟩]) := by
  have htold := hc.of_response hm
  have hstays := shouldStayAlive_iff n.actor n.awaited err
  have hverdict : ∀ b : Bool, b = (!shouldStayAliveAfterConflict n.actor err) →
      (Failure.survivable ⟨n.awaited, err, n.actor.currentState, n.actor.eventsCounter⟩ ∨ b = true) := by
    rw [← hstays]
    cases shouldStayAliveAfterConflict n.actor err <;> simp
  cases hre
  case ignored h => exact absurd htold.phase (by simp [h])
  case directFailed hp =>
    refine .pending failures _ rfl hall (.inr rfl) ⟨rfl, fun h => by simp [perform] at h,
      fun _ => ⟨rfl, hverdict _ rfl⟩⟩
  case batchFailed hp =>
    have hentries : n.actor.batchEntries = n.awaited.map (·.reply) := htold.promised.batched hp
    refine .pending failures _ rfl hall (.inl rfl) ⟨rfl, fun _ => ⟨?_, hverdict _ rfl, ?_⟩,
      fun h => by simp [perform] at h⟩
    · change n.actor.batchEntries.map (fun _ => CommandReply.errorReply err) = n.awaited.map fun _ => .errorReply err
      rw [hentries, List.map_map]
      rfl
    · simp [hentries, perform]

theorem Owed.give {b : Block} {err : Option Err} {reply : CommandReply} (ho : Owed n f)
    (hp : n.actor.phase = .replying) (hdr : Drains n rest b err)
    (hl : n.actor.batchEntries[n.actor.batchEntries.length - n.actor.remainingReplies]? = some reply) :
    reply = .errorReply f.err ∧ ∀ b' ∈ f.blocks.take (f.blocks.length - n.actor.remainingReplies + 1),
        (b'.id, CommandReply.errorReply f.err) ∈ n.replies ++ [(b.id, reply)] := by
  obtain ⟨he, -, hgiven⟩ := ho.batched hp
  have hreply : reply = .errorReply f.err := by
    rw [he, List.getElem?_map] at hl
    obtain ⟨x, -, hx⟩ := Option.map_eq_some_iff.mp hl
    exact hx.symm
  have hblock := hdr.block
  rw [← ho.blocks] at hblock
  refine ⟨hreply, fun b' hb' => ?_⟩
  rw [List.take_add_one, hblock, Option.toList_some, List.mem_append, List.mem_singleton] at hb'
  rcases hb' with hb' | rfl
  · exact List.mem_append_left _ (hgiven b' hb')
  · rw [hreply]
    exact List.mem_append_right _ (List.mem_singleton_self _)

theorem Reaction.answering (hre : Reaction cfg n.actor msg turn a' effects) (hok : PhaseOk cfg n.actor)
    (hc : Custody cfg n) (hm : n.mailbox = msg :: rest) (hs : n.stopping = false) (h : Answering n failures)
    (computed : List (ℕ × CommandReply)) (place : List Bool) :
    Answering (performAll msg place { n with computed := computed, actor := a', mailbox := rest } effects)
      failures := by
  have hreplies := performAll_replies msg place { n with computed := computed, actor := a', mailbox := rest } effects
  cases h with
  | settled h =>
    refine .settled fun f hf => ⟨(h f hf).1.mono hreplies, .inl ?_⟩
    exact (h f hf).2.resolve_right (by simp [hs])
  | pending old f hf hold hp ho =>
    have hold' : ∀ f ∈ old, f.answered (performAll msg place
        { n with computed := computed, actor := a', mailbox := rest } effects) ∧ f.survivable :=
      fun f hf => ⟨(hold f hf).1.mono hreplies, (hold f hf).2⟩
    have hsame : ∀ n' : Node S C, n'.actor = n.actor → n'.awaited = n.awaited → n.replies <+: n'.replies →
        Owed n' f := by
      intro n' ha hw hr
      refine ⟨by rw [hw]; exact ho.blocks, ?_, by rw [ha]; exact ho.direct⟩
      rw [ha]
      intro hp
      obtain ⟨he, hsurv, hgiven⟩ := ho.batched hp
      exact ⟨he, hsurv, fun b hb => hr.subset (hgiven b hb)⟩
    cases hre
    case ignored | stashedRead | readDenied =>
      exact .pending old f hf hold' hp (hsame _ rfl rfl hreplies)
    case idleTick | read =>
      exact .pending old f hf hold' hp ⟨ho.blocks, fun hp => by
        obtain ⟨he, hsurv, hgiven⟩ := ho.batched hp
        exact ⟨he, hsurv, fun b hb => hreplies.subset (hgiven b hb)⟩, ho.direct⟩
    case tickFlush hp' _ | denied hp' | failed hp' _ | unchanged hp' _ | unchangedInBatch hp' _ _ _ _ _ |
        persist hp' _ _ | gateFlush hp' _ | fold hp' _ _ _ _ _ | foldFlush hp' _ _ _ _ | directConfirmed hp' _ |
        directFailed hp' | batchConfirmed hp' _ | batchFailed hp' =>
      simp [hp'] at hp
    case stashedCommand hp' => rcases hp' with hp' | hp' <;> simp [hp'] at hp
    case replySuccess hp' he => simp [(ho.direct hp').1] at he
    case replyFailure id ctx cmd err hp' he =>
      obtain ⟨herr, hsurv⟩ := ho.direct hp'
      obtain ⟨b, hb, rfl⟩ := hc.of_directReplying hp' hm
      obtain rfl : f.err = err := Option.some.inj (herr.symm.trans he)
      rw [performAll_append, performAll_shutdown] at hold' ⊢
      refine .settled (hf ▸ List.forall_mem_append.mpr ⟨fun f hf => ⟨(hold' f hf).1, .inl (hold' f hf).2⟩,
        ?_⟩)
      refine List.forall_mem_singleton.mpr ⟨fun b' hb' => ?_, ?_⟩
      · rw [ho.blocks, hb.awaited, List.mem_singleton] at hb'
        simp [hb', perform, Message.id]
      · exact hsurv.imp_right fun hsd => by simp [hsd]
    case drain id ctx cmd reply hp' hrem hl =>
      obtain ⟨he, hsurv, -⟩ := ho.batched hp'
      obtain ⟨b, err, hdr, rfl⟩ := hc.of_replying hok hp' hm
      obtain ⟨rfl, hgiven⟩ := ho.give hp' hdr hl
      have hle := (hok.owes hp').2
      rw [he, List.length_map] at hle
      have hindex : f.blocks.length - (n.actor.remainingReplies - 1) =
          f.blocks.length - n.actor.remainingReplies + 1 := by omega
      refine .pending old f hf hold' hp ⟨ho.blocks, fun _ => ⟨he, hsurv, ?_⟩, ho.direct⟩
      intro b' hb'
      refine hgiven b' ?_
      rw [← hindex]
      exact hb'
    case drainLast id ctx cmd reply hp' hrem hl =>
      obtain ⟨he, hsurv, -⟩ := ho.batched hp'
      obtain ⟨b, err, hdr, rfl⟩ := hc.of_replying hok hp' hm
      obtain ⟨rfl, hgiven⟩ := ho.give hp' hdr hl
      have hle := (hok.owes hp').2
      rw [he, List.length_map] at hle
      rw [performAll_cons, performAll_shutdown] at hold' ⊢
      refine .settled (hf ▸ List.forall_mem_append.mpr ⟨fun f hf => ⟨(hold' f hf).1, .inl (hold' f hf).2⟩,
        ?_⟩)
      refine List.forall_mem_singleton.mpr ⟨fun b' hb' => ?_, ?_⟩
      · refine hgiven b' ?_
        rwa [hrem, Nat.sub_add_cancel (by omega), List.take_length]
      · exact hsurv.imp_right fun hsd => by simp [hsd]

end

/-! ### Every run -/

section
variable (cfg) (snapshot : Option Snapshot) (log₀ : Option EventLog) (a : Actor S)

def Moment.sound (m : Moment S) : Prop :=
  ∃ e, m.err = .conflict e ∧ e.actualRevision = m.revision ∧
    (m.revision = some m.counter → foldStored cfg snapshot a m.stored = .ok m.state)

def Reported (conflicts : List (Moment S)) (f : Failure S) : Prop :=
  ∃ m ∈ conflicts, m.err = f.err ∧ m.blocks = f.blocks ∧ m.state = f.state ∧ m.counter = f.counter

structure ContendedInv (s : Contended S C) : Prop where
  replies : RepliesInv cfg True s.node
  tracked : Tracked cfg log₀ a s.node s.removed s.log
  sound : ∀ m ∈ s.conflicts, m.sound cfg snapshot a
  waiting : ∀ e, some (.conflict e) ∈ responses s.node.mailbox → Reported s.conflicts
    ⟨s.node.awaited, .conflict e, s.node.actor.currentState, s.node.actor.eventsCounter⟩
  reported : ∀ f ∈ s.failures, f.survivable → Reported s.conflicts f
  answering : Answering s.node s.failures
  live : s.node.actor.phase ≠ .processing → s.node.stopping = false

end

section
variable {snapshot : Option Snapshot} {log₀ : Option EventLog} {a : Actor S} {s : Contended S C}

theorem ContendedInv.quiet {l : Label C} {n' : Node S C} (h : ContendedInv cfg snapshot log₀ a s)
    (hstep : ∀ log, nodeStep cfg Testkit.eventsStore s.node log l = (n', log))
    (hl : ∀ log, LabelOk cfg True (Since cfg a) Testkit.eventsStore (s.node.after (history a)) log l)
    (hreply : ReplyLabelOk True s.node l) (hactor : n'.actor = s.node.actor) (hw : n'.awaited = s.node.awaited)
    (hr : n'.replies = s.node.replies) (hs : n'.stopping = s.node.stopping)
    (hresp : ∀ e, some (.conflict e) ∈ responses n'.mailbox → some (.conflict e) ∈ responses s.node.mailbox) :
    ContendedInv cfg snapshot log₀ a (s.atNode cfg l) := by
  have hnext : s.atNode cfg l = { s with node := n' } := by
    simp only [Contended.atNode, hstep]
  have hreplies := nodeStep_repliesInv Testkit.eventsStore s.log h.replies hreply
  rw [hstep] at hreplies
  rw [hnext]
  refine ⟨hreplies, h.tracked.quiet hstep hl, h.sound, ?_, h.reported, h.answering.keep hactor hw hr hs, ?_⟩
  · intro e he
    simp only [hw, hactor]
    exact h.waiting e (hresp e he)
  · rw [hactor, hs]
    exact h.live

theorem Reported.mono {conflicts more : List (Moment S)} {f : Failure S} (h : Reported conflicts f) :
    Reported (conflicts ++ more) f := by
  obtain ⟨m, hm, hrest⟩ := h
  exact ⟨m, List.mem_append_left _ hm, hrest⟩

theorem responses_answerAsk {n : Node S C} {w : Write} {later : List Write} {committed : List Block}
    {err : Option Err} {e : ConflictError} (hr : RepliesInv cfg True n) (hw : n.writer = w :: later)
    (h : some (.conflict e) ∈ responses
      (answerAsk w err { n with writer := later, committed := committed }).mailbox) :
    some (.conflict e) ∈ responses n.mailbox ∨ err = some (.conflict e) ∧ w.blocks = n.awaited := by
  unfold answerAsk at h
  split at h
  · rename_i hask
    obtain ⟨w', hw', hid⟩ := List.any_eq_true.mp hask
    have hsame : w = w' := hr.blocks.agree w (by simp [hw]) w' hw' (by simpa using (beq_iff_eq.mp hid).symm)
    have hblocks : w.blocks = n.awaited := by
      have hw'' : w' ∈ n.asks := hw'
      cases hr.custody with
      | @waiting w₀ _ _ _ ha hb _ _ =>
        rw [ha, List.mem_singleton] at hw''
        rw [hsame, hw'', hb]
      | working _ _ _ ha | told _ _ _ _ ha | draining _ _ _ _ ha | answering _ _ _ ha =>
        simp [ha] at hw''
    rw [responses_append, List.mem_append] at h
    exact h.imp_right fun h => ⟨(List.mem_singleton.mp h).symm, hblocks⟩
  · exact .inl h

theorem answerAsk_stopping (w : Write) (err : Option Err) (n : Node S C) :
    (answerAsk w err n).stopping = n.stopping := by
  unfold answerAsk
  split <;> rfl

theorem writeNext_frame (store : EventsStore) (outcome : Outcome) (n : Node S C) (log : Option EventLog) :
    (writeNext cfg store outcome n log).1.actor = n.actor ∧
    (writeNext cfg store outcome n log).1.awaited = n.awaited ∧
      (writeNext cfg store outcome n log).1.replies = n.replies ∧
      (writeNext cfg store outcome n log).1.stopping = n.stopping := by
  cases hw : n.writer with
  | nil =>
    rw [writeNext_nil store outcome log hw]
    exact ⟨rfl, rfl, rfl, rfl⟩
  | cons w later =>
    rcases writeNext_cases store outcome log hw with
      ⟨log', -, hn | ⟨-, hn⟩⟩ | ⟨err, hn⟩ | ⟨-, hn⟩ <;> rw [hn] <;>
        simp [answerAsk_frame, answerAsk_stopping]

theorem ContendedInv.write {w : Write} (outcome : Outcome) {more : List (Moment S)}
    (h : ContendedInv cfg snapshot log₀ a s) (hsound : ∀ m ∈ more, m.sound cfg snapshot a)
    (hmore : ∀ e, some (.conflict e) ∈ responses
      (writeNext cfg Testkit.eventsStore outcome s.node s.log).1.mailbox →
      some (.conflict e) ∈ responses s.node.mailbox ∨
        w.blocks = s.node.awaited ∧ s.moment w (.conflict e) ∈ more) : ContendedInv cfg snapshot log₀ a
      { s.atNode cfg (.write outcome) with conflicts := s.conflicts ++ more } := by
  obtain ⟨hactor, hawaited, hreplies, hstopping⟩ := writeNext_frame Testkit.eventsStore outcome s.node s.log
  refine ⟨write_repliesInv Testkit.eventsStore s.log h.replies fun _ => trivial, h.tracked.write outcome,
    List.forall_mem_append.mpr ⟨h.sound, hsound⟩, ?_, fun f hf hs => (h.reported f hf hs).mono,
    h.answering.keep hactor hawaited hreplies hstopping, ?_⟩
  · intro e he
    simp only [Contended.atNode, nodeStep, hactor, hawaited]
    rcases hmore e he with he | ⟨hblocks, hmem⟩
    · exact (h.waiting e he).mono
    · exact ⟨_, List.mem_append_right _ hmem, rfl, hblocks, rfl, rfl⟩
  · simp only [Contended.atNode, nodeStep, hactor, hstopping]
    exact h.live

theorem ContendedInv.fail (text : String) (h : ContendedInv cfg snapshot log₀ a s) :
    ContendedInv cfg snapshot log₀ a (s.atNode cfg (.write (.fail (.message text)))) := by
  cases hw : s.node.writer with
  | nil =>
    simp only [Contended.atNode, nodeStep]
    rw [writeNext_nil _ _ _ hw]
    exact h
  | cons w later =>
    have hwrite := @ContendedInv.write S C E cfg snapshot log₀ a s w (.fail (.message text)) [] h (by simp) (by
      intro e he
      simp only [writeNext, hw] at he
      exact (responses_answerAsk h.replies hw he).imp_right
        fun he => by simp at he)
    rw [List.append_nil] at hwrite
    exact hwrite

end

end

end Ego.EventSource

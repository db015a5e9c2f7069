import Ego.Lib.Unwinding
import Ego.Postgres.Scopes
import Ego.Testkit.Stores

/-! # What the calls for one pair see of the others -/

namespace Ego.Testkit
open Persistence Lib.Unwinding

namespace EventStore

def Call.scope : Call → Scope
  | .writeEvents scope _ _ | .deleteEvents scope _ _ | .replayEvents scope _ _ _ _ | .getLatestEvent scope _
  | .persistenceIDs scope _ _ => scope

/-- The part of a call that is addressed to a pair. Of an unconditional write it is
the events of the id; a conditional write of several ids is addressed to none. -/
def Call.restrict (scope : Scope) (id : String) : Call → Option Call
  | .writeEvents s events p =>
    if s ≠ scope then none
    else if p.isUnconditional then
      if group events id = [] then none else some (.writeEvents s (group events id) p)
    else if events ≠ [] ∧ ∀ e ∈ events, e.persistenceId = id then some (.writeEvents s events p)
    else none
  | .deleteEvents s i n => if s = scope ∧ i = id then some (.deleteEvents s i n) else none
  | .replayEvents s i a b limit => if s = scope ∧ i = id then some (.replayEvents s i a b limit) else none
  | .getLatestEvent s i => if s = scope ∧ i = id then some (.getLatestEvent s i) else none
  | .persistenceIDs _ _ _ => none

theorem order_nodup (events : List Event) : (order events).Nodup := Lib.distinct_nodup _

variable {events : List Event} {id : String}

theorem group_eq_nil : group events id = [] ↔ id ∉ order events := by
  rw [order, Lib.mem_distinct, group, List.filter_eq_nil_iff, List.mem_map]
  simp

theorem lookup_insertGroups (scope : Scope) (events : List Event) {ids : List String} (hn : ids.Nodup) (db : Db)
    (key : Scope × String) :
    (ids.foldl (fun db id => db.insert (scope, id) (newEventLog (db.lookup (scope, id)) (group events id))) db).lookup
        key =
      if key.1 = scope ∧ key.2 ∈ ids then some (newEventLog (db.lookup key) (group events key.2))
        else db.lookup key := by
  induction ids generalizing db with
  | nil => simp
  | cons id ids ih =>
    obtain ⟨hid, hids⟩ := List.nodup_cons.mp hn
    rw [List.foldl_cons, ih hids]
    by_cases hkey : key = (scope, id)
    · subst hkey
      rw [if_neg fun h => hid h.2, if_pos ⟨rfl, List.mem_cons_self⟩, AList.lookup_insert]
    · rw [AList.lookup_insert_ne hkey]
      have hiff : key.1 = scope ∧ key.2 ∈ ids ↔ key.1 = scope ∧ key.2 ∈ id :: ids := by
        rw [List.mem_cons]
        refine ⟨fun h => ⟨h.1, .inr h.2⟩,
          fun h => ⟨h.1, h.2.resolve_left fun heq => hkey (Prod.ext h.1 heq)⟩⟩
      simp only [hiff]

theorem lookup_writeUnconditional (db : Db) (scope : Scope) (events : List Event) (key : Scope × String) :
    (writeUnconditional db scope events).lookup key =
      if key.1 = scope ∧ group events key.2 ≠ [] then some (newEventLog (db.lookup key) (group events key.2))
      else db.lookup key := by
  rw [writeUnconditional, lookup_insertGroups scope events (order_nodup events)]
  simp only [ne_eq, group_eq_nil, not_not]

theorem group_group (events : List Event) (id : String) : group (group events id) id = group events id := by
  simp [group]

theorem writeEvents_conditional {db : Db} {scope : Scope} {events : List Event} {p : WritePrecondition} {id : String}
    (hs : scope.valid = true) (hp : p.valid = true) (hu : p.isUnconditional = false) (he : events ≠ [])
    (hid : ∀ e ∈ events, e.persistenceId = id) : writeEvents db scope events p =
      publish db (scope, id) (conditionalLog scope id (db.lookup (scope, id)) events p) := by
  cases events with
  | nil => exact absurd rfl he
  | cons first rest =>
    obtain ⟨rfl, hrest⟩ := List.forall_mem_cons.mp hid
    have hany : ¬ (rest.any fun e => e.persistenceId ≠ first.persistenceId) = true := by
      rw [List.any_eq_true]
      rintro ⟨e, hmem, hne⟩
      exact of_decide_eq_true hne (hrest e hmem)
    unfold writeEvents
    simp only [hs, hp, hu, Bool.not_true, Bool.false_eq_true, if_false, if_neg hany]

variable {db : Db} {scope : Scope} {p : WritePrecondition}

theorem writeEvents_unconditional (hs : scope.valid = true) (hu : p.isUnconditional = true) :
    writeEvents db scope events p = (.ok (), writeUnconditional db scope events) := by
  have hp : p.valid = true := by cases p <;> simp_all [WritePrecondition.isUnconditional, WritePrecondition.valid]
  simp [writeEvents, hs, hp, hu]

theorem step_of_invalid {call : Call} (h : call.scope.valid = false) : (step db call).2 = db := by
  cases call with
  | writeEvents scope events p =>
    have hs : scope.valid = false := h
    simp [step, writeEvents, hs]
  | deleteEvents scope id n =>
    have hs : scope.valid = false := h
    simp [step, deleteEvents, Testkit.deleteEvents, hs]
  | replayEvents | getLatestEvent => rfl
  | persistenceIDs scope n token => rfl

theorem writeEvents_cases (db : Db) (scope : Scope) (events : List Event) (p : WritePrecondition) :
    (∃ err, writeEvents db scope events p = (.error err, db)) ∨
    (p.isUnconditional = true ∧ writeEvents db scope events p = (.ok (), writeUnconditional db scope events)) ∨
    ∃ id log, p.isUnconditional = false ∧ events ≠ [] ∧ (∀ e ∈ events, e.persistenceId = id) ∧
      writeEvents db scope events p = (.ok (), db.insert (scope, id) log) := by
  unfold writeEvents
  split
  · exact .inl ⟨_, rfl⟩
  split
  · exact .inl ⟨_, rfl⟩
  split
  · rename_i hu
    exact .inr (.inl ⟨hu, rfl⟩)
  · rename_i hu
    split
    · exact .inl ⟨_, rfl⟩
    · rename_i first rest
      split
      · exact .inl ⟨_, rfl⟩
      · rename_i hany
        cases conditionalLog scope first.persistenceId (db.lookup (scope, first.persistenceId)) (first :: rest) p with
        | error err => exact .inl ⟨err, rfl⟩
        | ok log =>
          refine .inr (.inr ⟨first.persistenceId, log, Bool.eq_false_of_not_eq_true hu, List.cons_ne_nil _ _,
            List.forall_mem_cons.mpr ⟨rfl, fun e he => ?_⟩, rfl⟩)
          by_contra hne
          exact hany (List.any_eq_true.mpr ⟨e, he, decide_eq_true hne⟩)

variable {s : Scope}

theorem lookup_writeEvents_of_dropped (h : Call.restrict scope id (.writeEvents s events p) = none) :
    (writeEvents db s events p).2.lookup (scope, id) = db.lookup (scope, id) := by
  rcases writeEvents_cases db s events p with ⟨err, hw⟩ | ⟨hu, hw⟩ | ⟨id', log, hu, he, hid, hw⟩
  · rw [hw]
  · rw [hw, lookup_writeUnconditional, if_neg]
    rintro ⟨rfl, hgroup⟩
    simp [Call.restrict, hu, hgroup] at h
  · rw [hw]
    refine AList.lookup_insert_ne fun heq => ?_
    obtain ⟨rfl, rfl⟩ := Prod.mk.inj heq
    have hkept : Call.restrict scope id (.writeEvents scope events p) = some (.writeEvents scope events p) := by
      simp only [Call.restrict, ne_eq, not_true, if_false, hu, Bool.false_eq_true, if_pos (And.intro he hid)]
    rw [hkept] at h
    cases h

variable {db' : Db}

theorem writeEvents_restrict {call : Call} (h : Call.restrict scope id (.writeEvents scope events p) = some call)
    (hagree : db.lookup (scope, id) = db'.lookup (scope, id)) : ∃ part, call = .writeEvents scope part p ∧
      (writeEvents db scope events p).1 = (writeEvents db' scope part p).1 ∧
        (writeEvents db scope events p).2.lookup (scope, id) = (writeEvents db' scope part p).2.lookup (scope, id) := by
  simp only [Call.restrict, ne_eq, not_true, if_false] at h
  cases hs : scope.valid with
  | false =>
    have hinvalid (db : Db) (events : List Event) : writeEvents db scope events p = (.error errInvalidScope, db) := by
      simp [writeEvents, hs]
    split at h
    · split at h
      · cases h
      · exact ⟨_, (Option.some.inj h).symm, by simp only [hinvalid], by simp only [hinvalid, hagree]⟩
    · split at h
      · exact ⟨_, (Option.some.inj h).symm, by simp only [hinvalid], by simp only [hinvalid, hagree]⟩
      · cases h
  | true =>
    split at h
    · rename_i hu
      split at h
      · cases h
      · rename_i hgroup
        refine ⟨_, (Option.some.inj h).symm, ?_, ?_⟩
        · rw [writeEvents_unconditional hs hu, writeEvents_unconditional hs hu]
        · rw [writeEvents_unconditional hs hu, writeEvents_unconditional hs hu, lookup_writeUnconditional,
            lookup_writeUnconditional, group_group, hagree]
    · rename_i hu
      split at h
      · rename_i hpart
        refine ⟨_, (Option.some.inj h).symm, ?_⟩
        cases hp : p.valid with
        | false =>
          have hinvalid (db : Db) : writeEvents db scope events p = (.error errInvalidPrecondition, db) := by
            simp [writeEvents, hs, hp]
          exact ⟨by rw [hinvalid, hinvalid], by rw [hinvalid, hinvalid, hagree]⟩
        | true =>
          have hw (db : Db) := @writeEvents_conditional db scope events p id hs hp (Bool.eq_false_of_not_eq_true hu)
            hpart.1 hpart.2
          rw [hw, hw, hagree]
          cases conditionalLog scope id (db'.lookup (scope, id)) events p with
          | error err => exact ⟨rfl, hagree⟩
          | ok log =>
            refine ⟨rfl, ?_⟩
            change (db.insert _ log).lookup _ = (db'.insert _ log).lookup _
            rw [AList.lookup_insert, AList.lookup_insert]
      · cases h

theorem lookup_deleteEvents_of_ne {i : String} {n : ℕ} (h : ¬ (s = scope ∧ i = id)) :
    (deleteEvents db s i n).2.lookup (scope, id) = db.lookup (scope, id) := by
  unfold deleteEvents
  split
  · rfl
  · rfl
  · refine AList.lookup_insert_ne fun heq => h ?_
    obtain ⟨rfl, rfl⟩ := Prod.mk.inj heq
    exact ⟨rfl, rfl⟩

theorem deleteEvents_congr (n : ℕ) (hagree : db.lookup (scope, id) = db'.lookup (scope, id)) :
    (deleteEvents db scope id n).1 = (deleteEvents db' scope id n).1 ∧
      (deleteEvents db scope id n).2.lookup (scope, id) = (deleteEvents db' scope id n).2.lookup (scope, id) := by
  unfold deleteEvents
  rw [hagree]
  cases Testkit.deleteEvents scope (db'.lookup (scope, id)) n with
  | error err => exact ⟨rfl, hagree⟩
  | ok log =>
    cases log with
    | none => exact ⟨rfl, hagree⟩
    | some log => exact ⟨rfl, by rw [AList.lookup_insert, AList.lookup_insert]⟩

theorem unwinds (scope : Scope) (id : String) :
    Unwinds step (Call.restrict scope id) fun db db' => db.lookup (scope, id) = db'.lookup (scope, id) where
  dropped := by
    intro db db' call h hagree
    cases call with
    | writeEvents s events p => exact (lookup_writeEvents_of_dropped h).trans hagree
    | deleteEvents s i n =>
      refine (lookup_deleteEvents_of_ne fun heq => ?_).trans hagree
      simp [Call.restrict, heq] at h
    | replayEvents | getLatestEvent | persistenceIDs => exact hagree
  kept := by
    intro db db' call call' h hagree
    cases call with
    | writeEvents s events p =>
      have hscope : s = scope := by
        by_contra hne
        simp [Call.restrict, hne] at h
      subst hscope
      obtain ⟨part, rfl, hanswer, hnext⟩ := writeEvents_restrict h hagree
      exact ⟨congrArg Answer.done hanswer, hnext⟩
    | deleteEvents s i n =>
      obtain ⟨⟨rfl, rfl⟩, rfl⟩ : (s = scope ∧ i = id) ∧ .deleteEvents s i n = call' := by
        simpa [Call.restrict] using h
      obtain ⟨hanswer, hnext⟩ := deleteEvents_congr n hagree
      exact ⟨congrArg Answer.done hanswer, hnext⟩
    | replayEvents s i a b limit =>
      obtain ⟨⟨rfl, rfl⟩, rfl⟩ : (s = scope ∧ i = id) ∧ .replayEvents s i a b limit = call' := by
        simpa [Call.restrict] using h
      refine ⟨?_, hagree⟩
      simp only [step, replayEvents, hagree]
    | getLatestEvent s i =>
      obtain ⟨⟨rfl, rfl⟩, rfl⟩ : (s = scope ∧ i = id) ∧ .getLatestEvent s i = call' := by
        simpa [Call.restrict] using h
      refine ⟨?_, hagree⟩
      simp only [step, getLatestEvent, hagree]
    | persistenceIDs s n token => cases h

def Call.ofScope (scope : Scope) : Call → Option Call
  | .writeEvents s events p => if s = scope then some (.writeEvents s events p) else none
  | .persistenceIDs s n token => if s = scope then some (.persistenceIDs s n token) else none
  | _ => none

def revision (db : Db) (scope : Scope) (id : String) : Option ℕ := (db.lookup (scope, id)).map (·.revision)

theorem mem_keys {db : Db} {scope : Scope} {id : String} : id ∈ keys db scope ↔
    (revision db scope id).isSome = true := by
  rw [keys, Finset.mem_sort, List.mem_toFinset, List.mem_map, revision, Option.isSome_map, AList.lookup_isSome,
    AList.mem_keys]
  constructor
  · rintro ⟨⟨s, i⟩, hmem, rfl⟩
    obtain ⟨hkey, hscope⟩ := List.mem_filter.mp hmem
    rw [← show s = scope from of_decide_eq_true hscope]
    exact hkey
  · exact fun h => ⟨(scope, id), List.mem_filter.mpr ⟨h, decide_eq_true rfl⟩, rfl⟩

theorem keys_congr (h : ∀ id, revision db scope id = revision db' scope id) : keys db scope = keys db' scope := by
  have hset : ((db.keys.filter fun key => key.1 = scope).map (·.2)).toFinset =
      ((db'.keys.filter fun key => key.1 = scope).map (·.2)).toFinset := by
    ext id
    have hmem := @mem_keys db scope id
    have hmem' := @mem_keys db' scope id
    rw [keys, Finset.mem_sort] at hmem hmem'
    rw [hmem, hmem', h]
  rw [keys, keys, hset]

theorem newEventLog_revision {old old' : Option EventLog} (h : old.map (·.revision) = old'.map (·.revision))
    (events : List Event) : (newEventLog old events).revision = (newEventLog old' events).revision := by
  simp only [newEventLog, storageRevision, h]

theorem conditionalLog_revision {old old' : Option EventLog}
    (h : old.map (·.revision) = old'.map (·.revision)) (events : List Event) (p : WritePrecondition) :
    (conditionalLog scope id old events p).map (·.revision) = (conditionalLog scope id old' events p).map
    (·.revision) := by
  cases old with
  | none =>
    obtain rfl : old' = none := Option.map_eq_none_iff.mp h.symm
    rfl
  | some log =>
    obtain ⟨log', rfl, hrevision⟩ := Option.map_eq_some_iff.mp h.symm
    unfold conditionalLog
    dsimp only
    split
    · rw [show log'.revision = log.revision from hrevision]
    · rw [show log'.revision = log.revision from hrevision]
      split
      · exact congrArg Except.ok (newEventLog_revision h events)
      · rfl

theorem revision_publish {log log' : Except Err EventLog}
    (hagree : ∀ id, revision db scope id = revision db' scope id)
    (hlog : log.map (·.revision) = log'.map (·.revision)) :
    (publish db (scope, id) log).1 = (publish db' (scope, id) log').1 ∧
      ∀ other, revision (publish db (scope, id) log).2 scope other = revision (publish db' (scope, id) log').2
        scope other := by
  cases log with
  | error err =>
    cases log' with
    | error err' => exact ⟨congrArg Except.error (Except.error.inj hlog), hagree⟩
    | ok log' => cases hlog
  | ok log =>
    cases log' with
    | error err' => cases hlog
    | ok log' =>
      refine ⟨rfl, fun other => ?_⟩
      unfold revision publish
      by_cases hid : other = id
      · subst hid
        rw [AList.lookup_insert, AList.lookup_insert]
        exact congrArg some (Except.ok.inj hlog)
      · have hne : (scope, other) ≠ (scope, id) := fun heq => hid (Prod.mk.inj heq).2
        rw [AList.lookup_insert_ne hne, AList.lookup_insert_ne hne]
        exact hagree other

theorem revision_writeEvents (events : List Event) (p : WritePrecondition)
    (hagree : ∀ id, revision db scope id = revision db' scope id) :
    (writeEvents db scope events p).1 = (writeEvents db' scope events p).1 ∧
      ∀ id, revision (writeEvents db scope events p).2 scope id = revision (writeEvents db' scope events p).2
        scope id := by
  unfold writeEvents
  split
  · exact ⟨rfl, hagree⟩
  split
  · exact ⟨rfl, hagree⟩
  split
  · refine ⟨rfl, fun id => ?_⟩
    unfold revision
    rw [lookup_writeUnconditional, lookup_writeUnconditional]
    split
    · exact congrArg some (newEventLog_revision (hagree id) _)
    · exact hagree id
  · split
    · exact ⟨rfl, hagree⟩
    · rename_i first rest
      split
      · exact ⟨rfl, hagree⟩
      · exact revision_publish hagree (conditionalLog_revision (hagree _) _ _)

theorem revision_deleteEvents (db : Db) (s : Scope) (i : String) (n : ℕ) (scope : Scope) (id : String) :
    revision (deleteEvents db s i n).2 scope id = revision db scope id := by
  by_cases hkey : s = scope ∧ i = id
  · obtain ⟨rfl, rfl⟩ := hkey
    unfold deleteEvents
    split
    · rfl
    · rfl
    · rename_i log hlog
      unfold revision
      rw [AList.lookup_insert]
      cases hold : db.lookup (s, i) with
      | none =>
        rw [hold] at hlog
        unfold Testkit.deleteEvents at hlog
        split at hlog <;> cases hlog
      | some old =>
        rw [hold] at hlog
        exact congrArg some (deleteEvents_ok hlog).1
  · unfold revision
    rw [lookup_deleteEvents_of_ne hkey]

theorem revision_writeEvents_of_ne (db : Db) (h : s ≠ scope) (events : List Event)
    (p : WritePrecondition) (id : String) : revision (writeEvents db s events p).2 scope id = revision db scope id := by
  unfold revision
  rw [lookup_writeEvents_of_dropped (by simp [Call.restrict, h])]

theorem unwinds_ids (scope : Scope) :
    Unwinds step (Call.ofScope scope) fun db db' => ∀ id, revision db scope id = revision db' scope id where
  dropped := by
    intro db db' call h hagree id
    cases call with
    | writeEvents s events p =>
      have hne : s ≠ scope := by
        rintro rfl
        simp [Call.ofScope] at h
      exact (revision_writeEvents_of_ne db hne events p id).trans (hagree id)
    | deleteEvents s i n => exact (revision_deleteEvents db s i n scope id).trans (hagree id)
    | replayEvents | getLatestEvent | persistenceIDs => exact hagree id
  kept := by
    intro db db' call call' h hagree
    cases call with
    | writeEvents s events p =>
      obtain ⟨rfl, rfl⟩ : s = scope ∧ .writeEvents s events p = call' := by simpa [Call.ofScope] using h
      obtain ⟨hanswer, hnext⟩ := revision_writeEvents events p hagree
      exact ⟨congrArg Answer.done hanswer, hnext⟩
    | persistenceIDs s n token =>
      obtain ⟨rfl, rfl⟩ : s = scope ∧ .persistenceIDs s n token = call' := by simpa [Call.ofScope] using h
      refine ⟨?_, hagree⟩
      simp only [step, persistenceIDs, keys_congr hagree]
    | deleteEvents | replayEvents => cases h
    | getLatestEvent s i => cases h

end EventStore

namespace SnapshotStore

def Call.scope : Call → Scope
  | .writeSnapshot scope _ | .getLatestSnapshot scope _ | .deleteSnapshots scope _ _ => scope

def Call.restrict (scope : Scope) (id : String) : Call → Option Call
  | .writeSnapshot s snapshot =>
    if s = scope ∧ snapshot.persistenceId = id then some (.writeSnapshot s snapshot) else none
  | .getLatestSnapshot s i => if s = scope ∧ i = id then some (.getLatestSnapshot s i) else none
  | .deleteSnapshots s i n => if s = scope ∧ i = id then some (.deleteSnapshots s i n) else none

def Agree (scope : Scope) (id : String) (db db' : Db) : Prop :=
  ∀ n, db.map.lookup (scope, id, n) = db'.map.lookup (scope, id, n)

theorem mem_snapshots {db : Db} {scope : Scope} {id : String} {s : Snapshot} :
    s ∈ snapshots db scope id ↔ db.map.lookup (scope, id, s.sequenceNumber) = some s := by
  rw [snapshots, List.mem_map]
  constructor
  · rintro ⟨⟨⟨scope', id', n⟩, s'⟩, hmem, rfl⟩
    obtain ⟨hentry, hkey⟩ := List.mem_filter.mp hmem
    obtain ⟨rfl, rfl⟩ : scope' = scope ∧ id' = id := of_decide_eq_true hkey
    have hlookup := AList.mem_lookup_iff.mpr hentry
    have hn := db.keyed _ _ _ _ hlookup
    rw [hn]
    exact hlookup
  · intro h
    exact ⟨⟨(scope, id, s.sequenceNumber), s⟩, List.mem_filter.mpr ⟨AList.mem_lookup_iff.mp h,
      decide_eq_true ⟨rfl, rfl⟩⟩, rfl⟩

theorem getLatestSnapshot_congr {db db' : Db} {scope : Scope} {id : String} (h : Agree scope id db db') :
    getLatestSnapshot db scope id = getLatestSnapshot db' scope id := by
  have hmem (s : Snapshot) : s ∈ snapshots db scope id ↔ s ∈ snapshots db' scope id := by
    rw [mem_snapshots, mem_snapshots, h]
  cases hs : scope.valid with
  | false => simp [getLatestSnapshot, Testkit.getLatestSnapshot, hs]
  | true =>
    obtain ⟨latest, hok⟩ := snapshotStore.latest_total scope (snapshots db scope id) hs
    obtain ⟨latest', hok'⟩ := snapshotStore.latest_total scope (snapshots db' scope id) hs
    have hfirst := getLatestSnapshot_ok hok
    have hfirst' := getLatestSnapshot_ok hok'
    refine hok.trans (Eq.trans ?_ hok'.symm)
    cases latest with
    | none =>
      have hnil : snapshots db scope id = [] := hfirst
      cases latest' with
      | none => rfl
      | some s' =>
        have hmem' := (hmem s').mpr hfirst'.1
        rw [hnil] at hmem'
        cases hmem'
    | some s =>
      cases latest' with
      | none =>
        have hnil : snapshots db' scope id = [] := hfirst'
        have hmem' := (hmem s).mp hfirst.1
        rw [hnil] at hmem'
        cases hmem'
      | some s' =>
        have hle := hfirst.2 s' ((hmem s').mpr hfirst'.1)
        have hle' := hfirst'.2 s ((hmem s).mp hfirst.1)
        have hlookup := mem_snapshots.mp ((hmem s).mp hfirst.1)
        rw [Nat.le_antisymm hle' hle, mem_snapshots.mp hfirst'.1] at hlookup
        rw [hlookup]

theorem lookup_store_of_ne {db : Db} {s scope : Scope} {id : String} {snapshot : Snapshot}
    (h : ¬ (s = scope ∧ snapshot.persistenceId = id)) (n : ℕ) :
    (store db s snapshot).map.lookup (scope, id, n) = db.map.lookup (scope, id, n) := by
  refine AList.lookup_insert_ne fun heq => h ?_
  obtain ⟨rfl, hrest⟩ := Prod.mk.inj heq
  exact ⟨rfl, (Prod.mk.inj hrest).1.symm⟩

theorem lookup_store_congr {db db' : Db} {scope : Scope} {snapshot : Snapshot}
    (h : Agree scope snapshot.persistenceId db db') : Agree scope snapshot.persistenceId (store db scope snapshot)
      (store db' scope snapshot) := by
  intro n
  unfold store
  by_cases hn : n = snapshot.sequenceNumber
  · subst hn
    rw [AList.lookup_insert, AList.lookup_insert]
  · have hne : (scope, snapshot.persistenceId, n) ≠ (scope, snapshot.persistenceId, snapshot.sequenceNumber) :=
      fun heq => hn (Prod.mk.inj (Prod.mk.inj heq).2).2
    rw [AList.lookup_insert_ne hne, AList.lookup_insert_ne hne]
    exact h n

theorem lookup_remove (db : Db) (s : Scope) (i : String) (upTo : ℕ) (scope : Scope) (id : String) (n : ℕ) :
    (remove db (doomed db s i upTo)).map.lookup (scope, id, n) =
      if scope = s ∧ id = i ∧ n ≤ upTo then none else db.map.lookup (scope, id, n) := by
  change ((doomed db s i upTo).foldl (fun map key => map.erase key) db.map).lookup (scope, id, n) = _
  rw [lookup_erase_all]
  by_cases hkey : scope = s ∧ id = i ∧ n ≤ upTo
  · rw [if_pos hkey]
    split
    · rfl
    · rename_i hmem
      rw [AList.lookup_eq_none, AList.mem_keys]
      exact fun h => hmem (List.mem_filter.mpr ⟨h, decide_eq_true hkey⟩)
  · have hmem : (scope, id, n) ∉ doomed db s i upTo := fun hmem =>
      hkey (of_decide_eq_true (List.mem_filter.mp hmem).2)
    rw [if_neg hkey, if_neg hmem]

theorem step_of_invalid {db : Db} {call : Call} (h : call.scope.valid = false) : (step db call).2 = db := by
  cases call with
  | writeSnapshot scope snapshot =>
    have hs : scope.valid = false := h
    simp [step, writeSnapshot, hs]
  | getLatestSnapshot scope id => rfl
  | deleteSnapshots scope id n =>
    have hs : scope.valid = false := h
    simp [step, deleteSnapshots, hs]

theorem unwinds (scope : Scope) (id : String) : Unwinds step (Call.restrict scope id) (Agree scope id) where
  dropped := by
    intro db db' call h hagree n
    cases call with
    | writeSnapshot s snapshot =>
      have hne : ¬ (s = scope ∧ snapshot.persistenceId = id) := fun heq => by simp [Call.restrict, heq] at h
      change (writeSnapshot db s snapshot).2.map.lookup _ = _
      unfold writeSnapshot
      split
      · exact hagree n
      · exact (lookup_store_of_ne hne n).trans (hagree n)
    | getLatestSnapshot s i => exact hagree n
    | deleteSnapshots s i upTo =>
      have hne : ¬ (s = scope ∧ i = id) := fun heq => by simp [Call.restrict, heq] at h
      change (deleteSnapshots db s i upTo).2.map.lookup _ = _
      unfold deleteSnapshots
      split
      · exact hagree n
      · dsimp only
        rw [lookup_remove, if_neg fun heq => hne ⟨heq.1.symm, heq.2.1.symm⟩]
        exact hagree n
  kept := by
    intro db db' call call' h hagree
    cases call with
    | writeSnapshot s snapshot =>
      obtain ⟨⟨rfl, rfl⟩, rfl⟩ : (s = scope ∧ snapshot.persistenceId = id) ∧
        .writeSnapshot s snapshot = call' := by
        simpa [Call.restrict] using h
      unfold step writeSnapshot
      dsimp only
      split
      · exact ⟨rfl, hagree⟩
      · exact ⟨rfl, lookup_store_congr hagree⟩
    | getLatestSnapshot s i =>
      obtain ⟨⟨rfl, rfl⟩, rfl⟩ : (s = scope ∧ i = id) ∧ .getLatestSnapshot s i = call' := by
        simpa [Call.restrict] using h
      exact ⟨congrArg Answer.latest (getLatestSnapshot_congr hagree), hagree⟩
    | deleteSnapshots s i upTo =>
      obtain ⟨⟨rfl, rfl⟩, rfl⟩ : (s = scope ∧ i = id) ∧ .deleteSnapshots s i upTo = call' := by
        simpa [Call.restrict] using h
      unfold step deleteSnapshots
      dsimp only
      split
      · exact ⟨rfl, hagree⟩
      · refine ⟨rfl, fun n => ?_⟩
        rw [lookup_remove, lookup_remove, hagree n]

end SnapshotStore

namespace DurableStore

def Call.scope : Call → Scope
  | .writeState scope _ _ | .getLatestState scope _ => scope

def Call.restrict (scope : Scope) (id : String) : Call → Option Call
  | .writeState s state p => if s = scope ∧ state.persistenceId = id then some (.writeState s state p) else none
  | .getLatestState s i => if s = scope ∧ i = id then some (.getLatestState s i) else none

theorem step_of_invalid {db : Db} {call : Call} (h : call.scope.valid = false) : (step db call).2 = db := by
  cases call with
  | writeState scope state p =>
    have hs : scope.valid = false := h
    simp [step, writeState, hs]
  | getLatestState scope id => rfl

theorem unwinds (scope : Scope) (id : String) :
    Unwinds step (Call.restrict scope id) fun db db' => db.lookup (scope, id) = db'.lookup (scope, id) where
  dropped := by
    intro db db' call h hagree
    cases call with
    | writeState s state p =>
      have hne : (scope, id) ≠ (s, state.persistenceId) := by
        intro heq
        obtain ⟨rfl, rfl⟩ := Prod.mk.inj heq
        simp [Call.restrict] at h
      unfold step
      dsimp only
      split
      · exact hagree
      · exact hagree
      · exact (AList.lookup_insert_ne hne).trans hagree
    | getLatestState s i => exact hagree
  kept := by
    intro db db' call call' h hagree
    cases call with
    | writeState s state p =>
      obtain ⟨⟨rfl, rfl⟩, rfl⟩ : (s = scope ∧ state.persistenceId = id) ∧
        .writeState s state p = call' := by
        simpa [Call.restrict] using h
      unfold step
      dsimp only
      rw [hagree]
      split
      · exact ⟨rfl, hagree⟩
      · exact ⟨rfl, hagree⟩
      · refine ⟨rfl, ?_⟩
        rw [AList.lookup_insert, AList.lookup_insert]
    | getLatestState s i =>
      obtain ⟨⟨rfl, rfl⟩, rfl⟩ : (s = scope ∧ i = id) ∧ .getLatestState s i = call' := by
        simpa [Call.restrict] using h
      refine ⟨?_, hagree⟩
      simp only [step, hagree]

end DurableStore

/-- Calls for one pair are answered as if there were no others, the ids of a scope
depend on the writes of that scope, an invalid scope changes nothing, and no two
scopes share a tenant column. -/
theorem stores_isolated : (∀ scope id db calls, observed EventStore.step
    (EventStore.Call.restrict scope id) db calls =
      alone EventStore.step (EventStore.Call.restrict scope id) db calls) ∧
    (∀ scope id db calls, observed SnapshotStore.step (SnapshotStore.Call.restrict scope id) db calls =
      alone SnapshotStore.step (SnapshotStore.Call.restrict scope id) db calls) ∧
    (∀ scope id db calls, observed DurableStore.step (DurableStore.Call.restrict scope id) db calls =
      alone DurableStore.step (DurableStore.Call.restrict scope id) db calls) ∧
    (∀ scope db calls, observed EventStore.step (EventStore.Call.ofScope scope) db calls =
      alone EventStore.step (EventStore.Call.ofScope scope) db calls) ∧
    (∀ (call : EventStore.Call) db, call.scope.valid = false → (EventStore.step db call).2 = db) ∧
    (∀ (call : SnapshotStore.Call) db, call.scope.valid = false → (SnapshotStore.step db call).2 = db) ∧
    (∀ (call : DurableStore.Call) db, call.scope.valid = false → (DurableStore.step db call).2 = db) ∧
    ∀ scope scope', Tenancy.Built scope → Tenancy.Built scope' →
      Postgres.scopeKey scope = Postgres.scopeKey scope' → scope = scope' :=
  ⟨fun scope id _ calls => (EventStore.unwinds scope id).observed_eq rfl calls,
    fun scope id _ calls => (SnapshotStore.unwinds scope id).observed_eq (fun _ => rfl) calls,
    fun scope id _ calls => (DurableStore.unwinds scope id).observed_eq rfl calls,
    fun scope _ calls => (EventStore.unwinds_ids scope).observed_eq (fun _ => rfl) calls,
    fun _ _ => EventStore.step_of_invalid, fun _ _ => SnapshotStore.step_of_invalid,
    fun _ _ => DurableStore.step_of_invalid, fun _ _ => Postgres.scopeKey_injective⟩

end Ego.Testkit

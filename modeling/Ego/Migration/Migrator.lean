import Ego.Migration.LegacyState
import Ego.Migration.TenantAdopter

/-! # The migrator of legacy events (`migration/migration.go`) -/

namespace Ego.Migration
open Persistence Tenancy
open Lib (Prog)
open Lib.Prog

structure OrderedStore extends JournalStore where
  replay_ordered : ∀ scope log fromSeq toSeq limit events, replayEvents scope log fromSeq toSeq limit = .ok events →
      ∃ all : List Event, all.Perm ((journal log).filter fun e => fromSeq ≤ e.sequenceNumber ∧
        e.sequenceNumber ≤ toSeq) ∧
        (all.Pairwise fun x y => x.sequenceNumber ≤ y.sequenceNumber) ∧ events = all.take limit

structure MigratorOptions where
  eventsStore : OrderedStore
  snapshotStore : FullSnapshotStore
  pageSize : ℕ
  scope : Scope
  unknown : Event → Bytes
  unmarshal : Bytes → Option Any

structure Migrator extends MigratorOptions where
  scope_valid : scope.valid = true

def newMigrator (o : MigratorOptions) : Except Err Migrator :=
  if h : o.scope.valid = true then .ok { o with scope_valid := h }
  else .error (errInvalidScope.wrap "migration: WithScope")

def scopeString : Scope → String
  | .unscoped => "unscoped"
  | .tenant id => "tenant:" ++ id
  | .unspecified => "unspecified"

namespace Migrator
variable (m : Migrator)

def legacyResultingState (evt : Event) : Option Any :=
  match extractLegacyResultingState m.unmarshal (m.unknown evt) with
  | .ok state => state
  | .error _ => none

/-- One turn of the loop over the events: the best snapshot so far and its event. -/
def better (id : String) (best : Option (Snapshot × Event)) (evt : Event) : Option (Snapshot × Event) :=
  match m.legacyResultingState evt with
  | none => best
  | some state =>
    let snapshot : Snapshot := ⟨id, evt.sequenceNumber, some state, evt.timestamp, "", false, []⟩
    match best with
    | none => some (snapshot, evt)
    | some (bestSnapshot, _) =>
      if bestSnapshot.sequenceNumber < evt.sequenceNumber then some (snapshot, evt) else best

def stampSnapshotTenant (snapshot : Snapshot) (source : Event) : Except Err Snapshot :=
  match m.scope with
  | .tenant id =>
    match unmarshalMetadata source.tenantMetadata with
    | .error err =>
      .error (err.wrap ("source event " ++ toString source.sequenceNumber ++
        " carries no tenant metadata for scope " ++ scopeString m.scope))
    | .ok got =>
      match verifyUnchanged (.tenant id) got with
      | .error err =>
        .error (err.wrap ("source event " ++ toString source.sequenceNumber ++
          " is stamped for another tenant than scope " ++ scopeString m.scope))
      | .ok () => .ok { snapshot with tenantMetadata := marshalMetadata (.tenant id) }
  | _ => .ok snapshot

/-- The last state that an event carries becomes a snapshot with the tenant of its event. -/
def migrateEntity (id : String) : Prog Records Err (Except Err Unit) := do
  match ← TenantAdopter.replayAll m.eventsStore.toJournalStore m.scope with
  | .error err => pure (.error err)
  | .ok events =>
    match events.foldl (m.better id) none with
    | none => pure (.ok ())
    | some (bestSnapshot, bestEvent) =>
      match m.stampSnapshotTenant bestSnapshot bestEvent with
      | .error err => pure (.error err)
      | .ok snapshot =>
        match ← TenantAdopter.writeSnapshot m.snapshotStore m.scope snapshot with
        | .error err => pure (.error (err.wrap "failed to write snapshot"))
        | .ok () => pure (.ok ())

def migrateAll : List String → Prog Contents Err (Except Err Unit)
  | [] => pure (.ok ())
  | id :: ids => do
    match ← Prog.zoom (·.records id) (fun c r => c.set id r) (m.migrateEntity id) with
    | .error err => pure (.error (err.wrap ("migration: failed to migrate entity " ++ id)))
    | .ok () => migrateAll ids

def listedIDs (c : Contents) : List String :=
  ((c.ids m.scope).filter fun id => ((c.records id).log m.scope).any m.eventsStore.lists).sort (· ≤ ·)

/-- The loop over the pages; as many are tried as there are ids, and one more. -/
def migratePages : ℕ → String → Prog Contents Err (Except Err Unit)
  | 0, _ => pure (.error (.message "migration: failed to list persistence IDs"))
  | pages + 1, pageToken => do
    match ← Prog.read fun c => .ok (m.eventsStore.persistenceIDs (m.listedIDs c) m.pageSize pageToken) with
    | .error err => pure (.error (err.wrap "migration: failed to list persistence IDs"))
    | .ok (ids, nextToken) =>
      match ← m.migrateAll ids with
      | .error err => pure (.error err)
      | .ok () => if nextToken = "" ∨ ids = [] then pure (.ok ()) else migratePages pages nextToken

def run : Prog Contents Err (Except Err Unit) := do
  match ← Prog.read fun _ => .ok () with
  | .error err => pure (.error (err.wrap "migration: events store not reachable"))
  | .ok () =>
    match ← Prog.read fun _ => .ok () with
    | .error err => pure (.error (err.wrap "migration: snapshot store not reachable"))
    | .ok () => .given fun c => m.migratePages ((m.listedIDs c).length + 1) ""

def seed (id : String) (log : Option EventLog) : Except Err (Option Snapshot) :=
  match m.eventsStore.replayEvents m.scope log 1 maxReplaySequence maxReplayLimit with
  | .error err => .error err
  | .ok events =>
    match events.foldl (m.better id) none with
    | none => .ok none
    | some (bestSnapshot, bestEvent) => (m.stampSnapshotTenant bestSnapshot bestEvent).map some

structure Touches (id : String) (r r' : Records) : Prop where
  log : r'.log = r.log
  state : r'.state = r.state
  other : ∀ scope, scope ≠ m.scope → r'.snapshots scope = r.snapshots scope
  snapshots : (∀ x, x ∈ r'.snapshots m.scope ↔ x ∈ r.snapshots m.scope) ∨
    ∃ s, m.seed id (r.log m.scope) = .ok (some s) ∧
      ∀ x, x ∈ r'.snapshots m.scope ↔ x = s ∨ x ∈ r.snapshots m.scope ∧
        x.sequenceNumber ≠ s.sequenceNumber

def Seeded (id : String) (r : Records) : Prop :=
  ∀ s, m.seed id (r.log m.scope) = .ok (some s) →
    s ∈ r.snapshots m.scope ∧ ∀ x ∈ r.snapshots m.scope, x.sequenceNumber = s.sequenceNumber → x = s

section
variable {m} {id : String} {r r' r'' : Records}

theorem Touches.refl : m.Touches id r r := ⟨rfl, rfl, fun _ _ => rfl, .inl fun _ => Iff.rfl⟩

theorem Touches.trans (h : m.Touches id r r') (h' : m.Touches id r' r'') : m.Touches id r r'' := by
  refine ⟨h'.log.trans h.log, h'.state.trans h.state,
    fun scope hs => (h'.other scope hs).trans (h.other scope hs), ?_⟩
  obtain hsame | ⟨s, hseed, hnew⟩ := h.snapshots
  · obtain hsame' | ⟨s', hseed', hnew'⟩ := h'.snapshots
    · exact .inl fun x => (hsame' x).trans (hsame x)
    · rw [h.log] at hseed'
      refine .inr ⟨s', hseed', fun x => ?_⟩
      rw [hnew', hsame]
  · refine .inr ⟨s, hseed, fun x => ?_⟩
    obtain hsame' | ⟨s', hseed', hnew'⟩ := h'.snapshots
    · rw [hsame', hnew]
    · rw [h.log, hseed] at hseed'
      obtain rfl := Option.some.inj (Except.ok.inj hseed')
      rw [hnew', hnew]
      constructor
      · rintro (rfl | ⟨rfl | hx, hne⟩)
        · exact .inl rfl
        · exact .inl rfl
        · exact .inr hx
      · rintro (rfl | hx)
        · exact .inl rfl
        · exact .inr ⟨.inr hx, hx.2⟩

theorem Touches.same (h : m.Touches id r r') (hs : m.Seeded id r) :
    ∀ x, x ∈ r'.snapshots m.scope ↔ x ∈ r.snapshots m.scope := by
  obtain hsame | ⟨s, hseed, hnew⟩ := h.snapshots
  · exact hsame
  · obtain ⟨hmem, hunique⟩ := hs s hseed
    intro x
    rw [hnew]
    constructor
    · rintro (rfl | hx)
      · exact hmem
      · exact hx.1
    · intro hx
      by_cases heq : x.sequenceNumber = s.sequenceNumber
      · exact .inl (hunique x hx heq)
      · exact .inr ⟨hx, heq⟩

theorem Seeded.touches (hs : m.Seeded id r) (h : m.Touches id r r') : m.Seeded id r' := by
  intro s hseed
  rw [h.log] at hseed
  have hsame := h.same hs
  obtain ⟨hmem, hunique⟩ := hs s hseed
  exact ⟨(hsame s).mpr hmem, fun x hx => hunique x ((hsame x).mp hx)⟩

theorem snapshots_setSnapshots (r : Records) (scope : Scope) (snapshots : List Snapshot) :
    (r.setSnapshots scope snapshots).snapshots scope = snapshots := Function.update_self _ _ _

theorem touches_of_write {snapshot : Snapshot} (hseed : m.seed id (r.log m.scope) = .ok (some snapshot))
    (h : (m.snapshotStore.writeSnapshot m.scope (r.snapshots m.scope) snapshot).map (r.setSnapshots m.scope) = .ok r') :
    m.Touches id r r' ∧ m.Seeded id r' := by
  obtain ⟨new, hnew, rfl⟩ := Lib.map_eq_ok.mp h
  have hmem := m.snapshotStore.writes _ _ _ _ hnew
  refine ⟨⟨rfl, rfl, fun scope hs => Function.update_of_ne hs _ _, .inr ⟨snapshot, hseed, ?_⟩⟩,
    fun s hs => ?_⟩
  · rw [snapshots_setSnapshots]
    exact hmem
  · obtain rfl := Option.some.inj (Except.ok.inj (hs.symm.trans hseed))
    rw [snapshots_setSnapshots]
    refine ⟨(hmem s).mpr (.inl rfl), fun x hx heq => ?_⟩
    exact ((hmem x).mp hx).resolve_right fun hold => hold.2 heq

theorem migrateEntity_wp (id : String) (r : Records) :
    wp (m.migrateEntity id) (fun result r' => m.Touches id r r' ∧ (result = .ok () → m.Seeded id r'))
      (m.Touches id r) r := by
  refine wp_read Touches.refl (fun err => ?_) fun events hevents => ?_
  · exact wp_pure ⟨Touches.refl, nofun⟩
  dsimp only at hevents ⊢
  split
  · rename_i hnone
    refine wp_pure ⟨Touches.refl, fun _ s hseed => ?_⟩
    simp only [seed, hevents, hnone] at hseed
    cases hseed
  · rename_i bestSnapshot bestEvent hbest
    split
    · exact wp_pure ⟨Touches.refl, nofun⟩
    · rename_i snapshot hstamp
      have hseed : m.seed id (r.log m.scope) = .ok (some snapshot) := by
        simp only [seed, hevents, hbest, hstamp]
        rfl
      refine wp_write Touches.refl (fun err => ?_) fun r' hr' => ?_
      · exact wp_pure ⟨Touches.refl, nofun⟩
      · obtain ⟨htouches, hseeded⟩ := touches_of_write hseed hr'
        exact ⟨wp_pure ⟨htouches, fun _ => hseeded⟩, fun err => wp_pure ⟨htouches, nofun⟩⟩

end

structure Passes (ids : List String) (c c' : Contents) : Prop where
  touches : ∀ id, m.Touches id (c.records id) (c'.records id)
  unvisited : ∀ id, id ∉ ids → c'.records id = c.records id

section
variable {m} {ids ids' : List String} {c c' c'' : Contents}

theorem Passes.refl : m.Passes ids c c := ⟨fun _ => Touches.refl, fun _ _ => rfl⟩

theorem Passes.trans (h : m.Passes ids c c') (h' : m.Passes ids' c' c'') : m.Passes (ids ++ ids') c c'' where
  touches := fun id => (h.touches id).trans (h'.touches id)
  unvisited := fun id hid => by
    rw [List.mem_append, not_or] at hid
    exact (h'.unvisited id hid.2).trans (h.unvisited id hid.1)

theorem Passes.mono (h : m.Passes ids c c') (hsub : ids ⊆ ids') : m.Passes ids' c c' :=
  ⟨h.touches, fun id hid => h.unvisited id fun hmem => hid (hsub hmem)⟩

theorem passes_set {id : String} {r : Records} (h : m.Touches id (c.records id) r) : m.Passes [id] c (c.set id r) := by
  refine ⟨fun other => ?_, fun other hne => c.set_of_ne r fun heq => hne (heq ▸ List.mem_singleton_self other)⟩
  by_cases heq : other = id
  · subst heq
    rw [c.set_self]
    exact h
  · rw [c.set_of_ne r heq]
    exact Touches.refl

theorem Passes.listedIDs (h : m.Passes ids c c') : m.listedIDs c' = m.listedIDs c := by
  have hlog (id : String) : (c'.records id).log = (c.records id).log := (h.touches id).log
  have hids : c'.ids m.scope = c.ids m.scope := by
    ext id
    rw [c'.mem_ids, c.mem_ids, hlog]
  simp only [Migrator.listedIDs, hids, hlog]

theorem migrateAll_wp (ids : List String) (c : Contents) : wp (m.migrateAll ids)
      (fun result c' => m.Passes ids c c' ∧ (result = .ok () → ∀ id ∈ ids, m.Seeded id (c'.records id)))
      (m.Passes ids c) c := by
  induction ids generalizing c with
  | nil => exact wp_pure ⟨Passes.refl, nofun⟩
  | cons id ids ih =>
    have hsub : [id] ⊆ id :: ids := List.cons_subset_cons id (List.nil_subset ids)
    refine wp_bind (wp_zoom (wp_mono (migrateEntity_wp id (c.records id)) ?_ fun r hr => (passes_set hr).mono hsub))
    rintro result r ⟨htouches, hseeded⟩
    have hpass := passes_set htouches
    cases result with
    | error err => exact wp_pure ⟨hpass.mono hsub, nofun⟩
    | ok u =>
      refine wp_mono (ih (c.set id r)) ?_ fun c' hc' => hpass.trans hc'
      rintro result c' ⟨hpass', hrest⟩
      refine ⟨hpass.trans hpass', fun hok => ?_⟩
      have hfirst : m.Seeded id ((c.set id r).records id) := by
        rw [c.set_self]
        exact hseeded rfl
      exact List.forall_mem_cons.mpr ⟨hfirst.touches (hpass'.touches id), hrest hok⟩

def visited (page : String → List String × String) : ℕ → String → List String
  | 0, _ => []
  | pages + 1, token =>
    (page token).1 ++ if (page token).2 = "" ∨ (page token).1 = [] then [] else visited page pages (page token).2

theorem migratePages_wp (pages : ℕ) (token : String) (c : Contents) : wp (m.migratePages pages token)
      (fun result c' => m.Passes (visited (m.eventsStore.persistenceIDs (m.listedIDs c) m.pageSize) pages token) c
        c' ∧
        (result = .ok () → ∀ id ∈ visited (m.eventsStore.persistenceIDs (m.listedIDs c) m.pageSize) pages token,
          m.Seeded id (c'.records id)))
      (m.Passes (visited (m.eventsStore.persistenceIDs (m.listedIDs c) m.pageSize) pages token) c) c := by
  induction pages generalizing token c with
  | zero => exact wp_pure ⟨Passes.refl, nofun⟩
  | succ pages ih =>
    unfold migratePages visited
    refine wp_read Passes.refl (fun err => wp_pure ⟨Passes.refl, nofun⟩) fun page hpage => ?_
    obtain rfl := Except.ok.inj hpage
    refine wp_bind (wp_mono (migrateAll_wp _ c) ?_ fun c' hc' => hc'.mono (List.subset_append_left _ _))
    rintro result c' ⟨hpass, hseeded⟩
    cases result with
    | error err => exact wp_pure ⟨hpass.mono (List.subset_append_left _ _), nofun⟩
    | ok u =>
      dsimp only
      split
      · rw [List.append_nil]
        exact wp_pure ⟨hpass, fun _ => hseeded rfl⟩
      · have hnext := ih (m.eventsStore.persistenceIDs (m.listedIDs c) m.pageSize token).2 c'
        rw [hpass.listedIDs] at hnext
        refine wp_mono hnext ?_ fun c'' hc'' => hpass.trans hc''
        rintro result c'' ⟨hpass', hrest⟩
        refine ⟨hpass.trans hpass', fun hok id hid => ?_⟩
        obtain hid | hid := List.mem_append.mp hid
        · exact (hseeded rfl id hid).touches (hpass'.touches id)
        · exact hrest hok id hid

def runIDs (m : Migrator) (c : Contents) : List String :=
  visited (m.eventsStore.persistenceIDs (m.listedIDs c) m.pageSize) ((m.listedIDs c).length + 1) ""

theorem run_wp (c : Contents) : wp m.run
      (fun result c' => m.Passes (m.runIDs c) c c' ∧
        (result = .ok () → ∀ id ∈ m.runIDs c, m.Seeded id (c'.records id)))
      (m.Passes (m.runIDs c) c) c := by
  refine wp_read Passes.refl (fun err => wp_pure ⟨Passes.refl, nofun⟩) fun _ _ => ?_
  refine wp_read Passes.refl (fun err => wp_pure ⟨Passes.refl, nofun⟩) fun _ _ => ?_
  exact wp_given (migratePages_wp _ _ c)

theorem run_again {fates fates' : List (Lib.Fate Err)} {w : Lib.World Contents Err}
    (h : m.run ⟨c, fates⟩ = (some (.ok ()), w))
    (id : String) : (∀ scope x, x ∈ ((m.run ⟨w.contents, fates'⟩).2.contents.records id).snapshots scope ↔
      x ∈ (w.contents.records id).snapshots scope) := by
  obtain ⟨hpass, hseeded⟩ := (run_wp c fates).1 _ _ h
  have hagain : m.Passes (m.runIDs w.contents) w.contents (m.run ⟨w.contents, fates'⟩).2.contents :=
    wp.contents (wp_mono (run_wp w.contents) (fun _ _ hq => hq.1) fun _ hc => hc) fates'
  have hids : m.runIDs w.contents = m.runIDs c := by
    rw [runIDs, hpass.listedIDs]
    rfl
  intro scope x
  by_cases hs : scope = m.scope
  · subst hs
    by_cases hid : id ∈ m.runIDs c
    · exact (hagain.touches id).same (hseeded rfl id hid) x
    · rw [hagain.unvisited id (by rwa [hids])]
  · rw [(hagain.touches id).other scope hs]

end

end Migrator

end Ego.Migration

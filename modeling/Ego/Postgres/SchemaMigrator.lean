import Mathlib.Order.Lattice.Nat
import Ego.Lib.Runs
import Ego.Postgres.SchemaFiles

/-!
# Concurrent schema migration (`persistence/postgres/schema_migrator.go:96-248`)

A statement is answered, or fails with or without having taken effect, and a node may
crash wherever it stands.
-/

namespace Ego.Postgres
open Lib (run run_append run_always)

/-- `recorded` is the versions in `ego_schema_migrations`, `applied` the files whose
statements are committed, in the order of their commits. -/
structure Db where
  recorded : Finset ℕ
  applied : List SchemaFile

inductive Pc where
  | idle
  | waiting
  | creating
  | reading
  | inspecting
  | recording (version : ℕ)
  | pending (files : List SchemaFile)
  | executing (file : SchemaFile) (rest : List SchemaFile)
  | noting (file : SchemaFile) (rest : List SchemaFile)
  | committing (file : SchemaFile) (rest : List SchemaFile)
  | unlocking (ok : Bool)
  | done

def Pc.critical : Pc → Bool
  | .idle => false
  | .waiting => false
  | .done => false
  | _ => true

def recordedVersion (recorded : Finset ℕ) : Option ℕ := if recorded = ∅ then none else some (recorded.sup id)

section
variable (files : List SchemaFile) (catalog : List SchemaFile → Catalog)

def withCurrent (current : ℕ) : Pc :=
  if files.length < current then .unlocking false else .pending (pendingSchemaFiles files current)

def answer (db : Db) : Pc → Db × Pc
  | .creating => (db, .reading)
  | .reading =>
    match recordedVersion db.recorded with
    | some current => (db, withCurrent files current)
    | none => (db, .inspecting)
  | .inspecting =>
    match inferSchemaVersion (catalog db.applied) with
    | .error () => (db, .unlocking false)
    | .ok version => if version = 0 then (db, withCurrent files 0) else (db, .recording version)
  -- one statement records all versions of the baseline
  | .recording version => ({ db with recorded := db.recorded ∪ Finset.Icc 1 version }, withCurrent files version)
  | .pending [] => (db, .unlocking true)
  | .pending (file :: rest) => (db, .executing file rest)
  | .executing file rest => (db, .noting file rest)
  -- the version is the primary key
  | .noting file rest => if file.version ∈ db.recorded then (db, .unlocking false) else (db, .committing file rest)
  | .committing file rest => (⟨insert file.version db.recorded, db.applied ++ [file]⟩, .pending rest)
  | pc => (db, pc)

end

structure Nodes (N : Type) where
  db : Db
  lock : Option N
  pc : N → Pc

inductive Happens (N : Type) where
  | call (n : N)
  | grant (n : N)
  | answered (n : N)
  | failed (n : N) (applied : Bool)
  | crash (n : N)

namespace Nodes
variable {N : Type} [DecidableEq N]

def goto (s : Nodes N) (n : N) (pc : Pc) : Nodes N := { s with pc := Function.update s.pc n pc }

def release (s : Nodes N) (n : N) (pc : Pc) : Nodes N :=
  { s with lock := if s.lock = some n then none else s.lock, pc := Function.update s.pc n pc }

end Nodes

section
variable {N : Type} [DecidableEq N] (files : List SchemaFile) (catalog : List SchemaFile → Catalog)

def migrateStep (s : Nodes N) : Happens N → Nodes N
  | .call n =>
    match s.pc n with
    | .idle => s.goto n .waiting
    | .done => s.goto n .waiting
    | _ => s
  | .grant n =>
    match s.pc n, s.lock with
    | .waiting, none => { s with lock := some n, pc := Function.update s.pc n .creating }
    | _, _ => s
  | .answered n =>
    match s.pc n with
    | .unlocking ok => s.release n (if ok then .done else .idle)
    | pc =>
      if pc.critical then
        { s with db := (answer files catalog s.db pc).1, pc := Function.update s.pc n (answer files catalog s.db pc).2 }
      else s
  | .failed n applied =>
    match s.pc n with
    | .waiting => s.goto n .idle
    -- a connection that may still hold the lock is closed
    | .unlocking _ => s.release n .idle
    | pc =>
      if pc.critical then
        { s with
          db := if applied then (answer files catalog s.db pc).1 else s.db,
          pc := Function.update s.pc n (.unlocking false) }
      else s
  | .crash n => s.release n .idle

end

def Nodes.start (N : Type) (db : Db) : Nodes N := ⟨db, none, fun _ => .idle⟩

section
variable (files : List SchemaFile) (baseline : Option ℕ)

/-- Everything up to some version is applied and recorded; nothing is recorded yet in a
database that was created by hand with the files of the baseline. -/
structure Db.Good (db : Db) : Prop where
  applied : db.applied = files.take db.applied.length
  recorded : db.recorded = Finset.Icc 1 db.applied.length ∨ db.recorded = ∅ ∧ baseline = some db.applied.length

def Db.Versioned (db : Db) : Prop := db.recorded = Finset.Icc 1 db.applied.length

def Db.Latest (db : Db) : Prop := db.recorded = Finset.Icc 1 files.length ∧ db.applied = files

def Pc.Fits (db : Db) : Pc → Prop
  | .inspecting => db.recorded = ∅
  | .recording version => db.recorded = ∅ ∧ version = db.applied.length
  | .pending rest => db.Versioned ∧ files.drop db.applied.length = rest
  | .executing file rest => db.Versioned ∧ files.drop db.applied.length = file :: rest
  | .noting file rest => db.Versioned ∧ files.drop db.applied.length = file :: rest
  | .committing file rest => db.Versioned ∧ files.drop db.applied.length = file :: rest
  | .unlocking true => db.Latest files
  | .done => db.Latest files
  | _ => True

structure Db.Later (db db' : Db) : Prop where
  recorded : db.recorded ⊆ db'.recorded
  applied : db.applied <+: db'.applied

end

section
variable {files : List SchemaFile} {baseline : Option ℕ} {catalog : List SchemaFile → Catalog} {db : Db}

theorem Db.Later.refl (db : Db) : db.Later db := ⟨Finset.Subset.refl _, List.prefix_refl _⟩

theorem Db.Good.length_le (h : db.Good files baseline) : db.applied.length ≤ files.length := by
  have hlength := congrArg List.length h.applied
  rw [List.length_take] at hlength
  omega

theorem recordedVersion_Icc {k : ℕ} (h : k ≠ 0) : recordedVersion (Finset.Icc 1 k) = some k := by
  have hk : k ∈ Finset.Icc 1 k := Finset.mem_Icc.mpr ⟨by omega, le_rfl⟩
  have hsup : (Finset.Icc 1 k).sup id = k := by
    apply le_antisymm
    · exact Finset.sup_le fun v hv => (Finset.mem_Icc.mp hv).2
    · exact Finset.le_sup (f := id) hk
  rw [recordedVersion, if_neg (Finset.ne_empty_of_mem hk), hsup]

theorem withCurrent_fits (hnumbered : Numbered files) (h : db.Good files baseline) (hv : db.Versioned) :
    (withCurrent files db.applied.length).Fits files db := by
  have hle := h.length_le
  rw [withCurrent, if_neg (by omega), pendingSchemaFiles_eq hnumbered]
  exact ⟨hv, rfl⟩

theorem insert_Icc (k : ℕ) : insert (k + 1) (Finset.Icc 1 k) = Finset.Icc 1 (k + 1) := by
  ext v
  rw [Finset.mem_insert, Finset.mem_Icc, Finset.mem_Icc]
  omega

theorem answer_good (hnumbered : Numbered files)
    (hmarkers : ∀ j ≤ files.length, inferSchemaVersion (catalog (files.take j)) = .ok j)
    (h : db.Good files baseline) {pc : Pc} (hpc : pc.Fits files db) :
    (answer files catalog db pc).1.Good files baseline ∧ db.Later (answer files catalog db pc).1 ∧
      (answer files catalog db pc).2.Fits files (answer files catalog db pc).1 := by
  cases pc with
  | idle | waiting | done | unlocking | executing => exact ⟨h, .refl db, hpc⟩
  | creating => exact ⟨h, .refl db, trivial⟩
  | reading =>
    unfold answer
    by_cases hempty : db.recorded = ∅
    · rw [hempty, recordedVersion, if_pos rfl]
      exact ⟨h, .refl db, hempty⟩
    · have hv : db.Versioned := h.recorded.resolve_right fun hnone => hempty hnone.1
      have hlength : db.applied.length ≠ 0 := by
        intro hzero
        rw [Db.Versioned, hzero] at hv
        exact hempty hv
      rw [hv, recordedVersion_Icc hlength]
      exact ⟨h, .refl db, withCurrent_fits hnumbered h hv⟩
  | inspecting =>
    have hempty : db.recorded = ∅ := hpc
    have hinfer : inferSchemaVersion (catalog db.applied) = .ok db.applied.length := by
      rw [h.applied, hmarkers _ h.length_le, ← h.applied]
    unfold answer
    rw [hinfer]
    dsimp only
    split
    · rename_i hzero
      have hv : db.Versioned := by
        rw [Db.Versioned, hempty, hzero]
        rfl
      have hfits := withCurrent_fits hnumbered h hv
      rw [hzero] at hfits
      exact ⟨h, .refl db, hfits⟩
    · exact ⟨h, .refl db, hempty, rfl⟩
  | recording version =>
    obtain ⟨hempty, rfl⟩ := hpc
    have hdb : (answer files catalog db (.recording db.applied.length)).1 =
        ⟨Finset.Icc 1 db.applied.length, db.applied⟩ := by
      change (⟨db.recorded ∪ Finset.Icc 1 db.applied.length, db.applied⟩ : Db) = _
      rw [hempty, Finset.empty_union]
    rw [hdb]
    have hgood : Db.Good files baseline ⟨Finset.Icc 1 db.applied.length, db.applied⟩ := ⟨h.applied, .inl rfl⟩
    have hfits : (withCurrent files db.applied.length).Fits files ⟨Finset.Icc 1 db.applied.length, db.applied⟩ :=
      withCurrent_fits hnumbered hgood rfl
    refine ⟨hgood, ⟨?_, List.prefix_refl _⟩, hfits⟩
    rw [hempty]
    exact Finset.empty_subset _
  | pending rest =>
    obtain ⟨hv, hrest⟩ := hpc
    cases rest with
    | nil =>
      have hle := h.length_le
      have hlength : db.applied.length = files.length := by
        have hge := List.drop_eq_nil_iff.mp hrest
        omega
      have happlied : db.applied = files := by
        rw [h.applied, hlength, List.take_length]
      refine ⟨h, .refl db, ?_, happlied⟩
      rw [← hlength]
      exact hv
    | cons file rest => exact ⟨h, .refl db, hv, hrest⟩
  | noting file rest =>
    by_cases hmem : file.version ∈ db.recorded
    · have hanswer : answer files catalog db (.noting file rest) = (db, .unlocking false) := if_pos hmem
      rw [hanswer]
      exact ⟨h, .refl db, trivial⟩
    · have hanswer : answer files catalog db (.noting file rest) = (db, .committing file rest) := if_neg hmem
      rw [hanswer]
      exact ⟨h, .refl db, hpc⟩
  | committing file rest =>
    obtain ⟨hv, hdrop⟩ := hpc
    have hversion := hnumbered.version_of_drop hdrop
    obtain ⟨htake, hrest, hlt⟩ := take_succ_of_drop hdrop
    have hlength : (db.applied ++ [file]).length = db.applied.length + 1 := List.length_append
    have hrecorded : insert file.version db.recorded = Finset.Icc 1 (db.applied ++ [file]).length := by
      rw [hversion, hv, hlength, insert_Icc]
    have happlied : db.applied ++ [file] = files.take (db.applied ++ [file]).length := by
      rw [hlength, htake, ← h.applied]
    refine ⟨⟨happlied, .inl hrecorded⟩, ⟨Finset.subset_insert _ _, ⟨[file], rfl⟩⟩, hrecorded, ?_⟩
    change files.drop (db.applied ++ [file]).length = rest
    rw [hlength, hrest]

theorem Db.Latest.later {db' : Db} (hne : files ≠ []) (h : db.Latest files) (hlater : db.Later db')
    (hgood : db'.Good files baseline) : db'.Latest files := by
  have hle := hgood.length_le
  obtain ⟨hrecorded, happlied⟩ := h
  have hlength : db'.applied.length = files.length := by
    have hge := hlater.applied.length_le
    rw [happlied] at hge
    omega
  refine ⟨?_, by rw [hgood.applied, hlength, List.take_length]⟩
  rcases hgood.recorded with hall | ⟨hempty, -⟩
  · rw [hall, hlength]
  · have hone : 1 ∈ db.recorded := by
      have hpos := List.length_pos_iff.mpr hne
      rw [hrecorded]
      exact Finset.mem_Icc.mpr ⟨le_rfl, by omega⟩
    have hsubset := hlater.recorded
    rw [hempty] at hsubset
    exact absurd (hsubset hone) (Finset.notMem_empty 1)

theorem Pc.Fits.later {db' : Db} (hne : files ≠ []) {pc : Pc} (hpc : pc.Fits files db) (hout : pc.critical = false)
    (hlater : db.Later db') (hgood : db'.Good files baseline) : pc.Fits files db' := by
  cases pc with
  | idle | waiting => trivial
  | done => exact Db.Latest.later hne hpc hlater hgood
  | creating | reading | inspecting | recording | pending | executing | noting | committing =>
    cases hout
  | unlocking ok => cases hout

end

section
variable {N : Type} [DecidableEq N]

structure Nodes.Sound (files : List SchemaFile) (baseline : Option ℕ) (s : Nodes N) : Prop where
  good : s.db.Good files baseline
  fits : ∀ n, (s.pc n).Fits files s.db
  exclusive : ∀ n, (s.pc n).critical = true → s.lock = some n

variable {files : List SchemaFile} {baseline : Option ℕ} {catalog : List SchemaFile → Catalog} {s : Nodes N}

theorem sound_of_update {s' : Nodes N} {n : N} {pc : Pc} (hpc : s'.pc = Function.update s.pc n pc)
    (hgood : s'.db.Good files baseline) (hfits : pc.Fits files s'.db)
    (hothers : ∀ m, m ≠ n → (s.pc m).Fits files s'.db) (hlock : pc.critical = true → s'.lock = some n)
    (hkept : ∀ m, m ≠ n → (s.pc m).critical = true → s'.lock = some m) : s'.Sound files baseline := by
  refine ⟨hgood, fun m => ?_, fun m => ?_⟩ <;> rw [hpc] <;> by_cases hmn : m = n
  · rw [hmn, Function.update_self]
    exact hfits
  · rw [Function.update_of_ne hmn]
    exact hothers m hmn
  · rw [hmn, Function.update_self]
    exact hlock
  · rw [Function.update_of_ne hmn]
    exact hkept m hmn

section
variable (h : s.Sound files baseline)
include h

theorem Nodes.Sound.goto {n : N} {pc : Pc} (hpc : pc.Fits files s.db)
    (hout : pc.critical = false) : (s.goto n pc).Sound files baseline :=
  sound_of_update rfl h.good hpc (fun m _ => h.fits m) (by simp [hout]) fun m _ => h.exclusive m

theorem Nodes.Sound.release {n : N} {pc : Pc} (hpc : pc.Fits files s.db)
    (hout : pc.critical = false) : (s.release n pc).Sound files baseline := by
  refine sound_of_update rfl h.good hpc (fun m _ => h.fits m) (by simp [hout]) fun m hmn hm => ?_
  change (if s.lock = some n then none else s.lock) = some m
  rw [h.exclusive m hm, if_neg fun heq => hmn (Option.some.inj heq)]

theorem Nodes.Sound.write (hne : files ≠ []) {n : N} (hn : (s.pc n).critical = true)
    {db : Db} (hgood : db.Good files baseline) (hlater : s.db.Later db) {pc : Pc} (hpc : pc.Fits files db) :
    Nodes.Sound files baseline { s with db := db, pc := Function.update s.pc n pc } := by
  have hlock := h.exclusive n hn
  refine sound_of_update rfl hgood hpc (fun m hmn => ?_) (fun _ => hlock) fun m _ => h.exclusive m
  have hout : (s.pc m).critical = false := by
    by_contra hcritical
    have hother := h.exclusive m (by simpa using hcritical)
    exact hmn (Option.some.inj (hother.symm.trans hlock))
  exact (h.fits m).later hne hout hlater hgood

theorem migrateStep_sound (hnumbered : Numbered files) (hne : files ≠ [])
    (hmarkers : ∀ j ≤ files.length, inferSchemaVersion (catalog (files.take j)) = .ok j)
    (happens : Happens N) :
    (migrateStep files catalog s happens).Sound files baseline ∧
      s.db.Later (migrateStep files catalog s happens).db := by
  cases happens with
  | call n =>
    unfold migrateStep
    dsimp only
    split
    · exact ⟨h.goto trivial rfl, .refl _⟩
    · exact ⟨h.goto trivial rfl, .refl _⟩
    · exact ⟨h, .refl _⟩
  | grant n =>
    unfold migrateStep
    dsimp only
    split
    · rename_i hpc hlock
      refine ⟨sound_of_update rfl h.good trivial (fun m _ => h.fits m) (fun _ => rfl) fun m _ hm => ?_, .refl _⟩
      rw [h.exclusive m hm] at hlock
      cases hlock
    · exact ⟨h, .refl _⟩
  | answered n =>
    have hfits := h.fits n
    unfold migrateStep
    dsimp only
    split
    · rename_i ok hpc
      rw [hpc] at hfits
      cases ok with
      | true => exact ⟨h.release hfits rfl, .refl _⟩
      | false => exact ⟨h.release trivial rfl, .refl _⟩
    · split
      · rename_i hcritical
        obtain ⟨hgood, hlater, hnext⟩ := answer_good hnumbered hmarkers h.good hfits
        exact ⟨h.write hne hcritical hgood hlater hnext, hlater⟩
      · exact ⟨h, .refl _⟩
  | failed n applied =>
    have hfits := h.fits n
    unfold migrateStep
    dsimp only
    split
    · exact ⟨h.goto trivial rfl, .refl _⟩
    · exact ⟨h.release trivial rfl, .refl _⟩
    · split
      · rename_i hcritical
        cases applied with
        | true =>
          obtain ⟨hgood, hlater, -⟩ := answer_good hnumbered hmarkers h.good hfits
          exact ⟨h.write hne hcritical hgood hlater trivial, hlater⟩
        | false => exact ⟨h.write hne hcritical h.good (.refl _) trivial, .refl _⟩
      · exact ⟨h, .refl _⟩
  | crash n => exact ⟨h.release trivial rfl, .refl _⟩

theorem run_sound (hnumbered : Numbered files) (hne : files ≠ [])
    (hmarkers : ∀ j ≤ files.length, inferSchemaVersion (catalog (files.take j)) = .ok j)
    (happenings : List (Happens N)) : (run (migrateStep files catalog) s happenings).Sound files baseline :=
  run_always _ (fun s : Nodes N => s.Sound files baseline)
    (fun _ happens h => (migrateStep_sound h hnumbered hne hmarkers happens).1)
    h happenings

theorem run_latest (hnumbered : Numbered files) (hne : files ≠ [])
    (hmarkers : ∀ j ≤ files.length, inferSchemaVersion (catalog (files.take j)) = .ok j)
    (hlatest : s.db.Latest files) (happenings : List (Happens N)) :
    (run (migrateStep files catalog) s happenings).db.Latest files := by
  have hboth : (run (migrateStep files catalog) s happenings).Sound files baseline ∧
      (run (migrateStep files catalog) s happenings).db.Latest files := by
    refine run_always _ (fun s : Nodes N => s.Sound files baseline ∧ s.db.Latest files) (fun s happens hs => ?_)
      ⟨h, hlatest⟩
      happenings
    obtain ⟨hsound, hlater⟩ := migrateStep_sound hs.1 hnumbered hne hmarkers happens
    exact ⟨hsound, hs.2.later hne hlater hsound.good⟩
  exact hboth.2

end

end

/-- From a database that has the statements of the first `j` files and records all of
these versions or none: what is committed is always the statements of the first `k`
files, each once, and exactly these versions are recorded, unless the database recorded
none and no node has written its baseline yet. Once a node has returned without an
error, it is all files. -/
theorem migrate_versions {entries : List DirEntry} {files : List SchemaFile}
    (hfiles : loadSchemaFiles entries = .ok files)
    {catalog : List SchemaFile → Catalog}
    (hmarkers : ∀ j ≤ files.length, inferSchemaVersion (catalog (files.take j)) = .ok j) {N : Type} [DecidableEq N]
    {db : Db} {j : ℕ} (hj : j ≤ files.length) (happlied : db.applied = files.take j)
    (hrecorded : db.recorded = Finset.Icc 1 j ∨ db.recorded = ∅) (happenings : List (Happens N)) :
    (∃ k ≤ files.length,
      (run (migrateStep files catalog) (Nodes.start N db) happenings).db.applied = files.take k ∧
      ((run (migrateStep files catalog) (Nodes.start N db) happenings).db.recorded = Finset.Icc 1 k ∨
        db.recorded = ∅ ∧ k = j ∧ (run (migrateStep files catalog) (Nodes.start N db)
          happenings).db.recorded = ∅)) ∧
    ∀ n, (run (migrateStep files catalog) (Nodes.start N db) happenings).pc n = .done →
      ∀ more, (run (migrateStep files catalog) (Nodes.start N db) (happenings ++ more)).db.recorded =
          Finset.Icc 1 files.length ∧
        (run (migrateStep files catalog) (Nodes.start N db) (happenings ++ more)).db.applied = files := by
  obtain ⟨hnumbered, hne⟩ := loadSchemaFiles_numbered hfiles
  have hlength : db.applied.length = j := by rw [happlied, List.length_take, Nat.min_eq_left hj]
  obtain ⟨baseline, hgood, hbaseline⟩ : ∃ baseline, db.Good files baseline ∧
      ∀ k, baseline = some k → db.recorded = ∅ ∧ k = j := by
    have htake : db.applied = files.take db.applied.length := by rw [hlength, happlied]
    rcases hrecorded with hall | hempty
    · exact ⟨none, ⟨htake, .inl (hlength.symm ▸ hall)⟩, fun k hk => by cases hk⟩
    · exact ⟨some j, ⟨htake, .inr ⟨hempty, congrArg some hlength.symm⟩⟩,
        fun k hk => ⟨hempty, (Option.some.inj hk).symm⟩⟩
  have hstart : (Nodes.start N db).Sound files baseline := ⟨hgood, fun _ => trivial, fun _ h => by cases h⟩
  have hsound := run_sound hstart hnumbered hne hmarkers happenings
  refine ⟨⟨_, hsound.good.length_le, hsound.good.applied, ?_⟩, fun n hn more => ?_⟩
  · rcases hsound.good.recorded with hall | ⟨hempty, hk⟩
    · exact .inl hall
    · obtain ⟨hunversioned, hj⟩ := hbaseline _ hk
      exact .inr ⟨hunversioned, hj, hempty⟩
  · have hlatest := hsound.fits n
    rw [hn] at hlatest
    rw [run_append]
    exact run_latest hsound hnumbered hne hmarkers hlatest more

def eventsStoreEntry : DirEntry :=
  ⟨Persistence.goString "001_events_store.sql", false, some (Persistence.goString "CREATE TABLE events_store")⟩

def indexesEntry : DirEntry :=
  ⟨Persistence.goString "002_indexes.sql", false, some (Persistence.goString "CREATE INDEX idx_events_store_shard")⟩

def eventsStoreFile : SchemaFile :=
  ⟨1, Persistence.goString "001_events_store.sql", Persistence.goString "CREATE TABLE events_store"⟩

def indexesFile : SchemaFile :=
  ⟨2, Persistence.goString "002_indexes.sql", Persistence.goString "CREATE INDEX idx_events_store_shard"⟩

def markersOf (applied : List SchemaFile) : Catalog := fun object =>
  (baselineMarkers.take applied.length).contains object || (object == "events_store" && !applied.isEmpty)

theorem loadSchemaFiles_entries :
    loadSchemaFiles [eventsStoreEntry, indexesEntry] = .ok [eventsStoreFile, indexesFile] := by
  have hblank {text : String} (h : Tenancy.isBlank text = false) :
      Tenancy.Wire.blank (Persistence.goString text) = false := by
    rw [Tenancy.Wire.blank, Tenancy.Wire.decode_goString]
    exact h
  have hfirst : addFile ∅ eventsStoreEntry = .ok (AList.insert 1 eventsStoreFile ∅) :=
    addFile_eq (by decide) (by decide) (by decide) rfl (hblank (by decide))
  have hsecond : addFile (AList.insert 1 eventsStoreFile ∅) indexesEntry =
      .ok (AList.insert 2 indexesFile (AList.insert 1 eventsStoreFile ∅)) :=
    addFile_eq (by decide) (by decide) (by decide) rfl (hblank (by decide))
  simp only [loadSchemaFiles, addFiles, hfirst, hsecond, bind, Except.bind]
  rfl

/-- One node takes the baseline over and applies what is missing, while another one waits. -/
theorem migrate_versions_unversioned :
    (run (migrateStep [eventsStoreFile, indexesFile] markersOf) (Nodes.start Bool ⟨∅, [eventsStoreFile]⟩)
      (.call true :: .call false :: .grant true :: List.replicate 10 (.answered true) ++ [.grant false])).db.applied =
      [eventsStoreFile, indexesFile] := by
  have hmarkers : ∀ j ≤ 2, inferSchemaVersion (markersOf ([eventsStoreFile, indexesFile].take j)) =
      .ok j := by decide
  exact ((migrate_versions loadSchemaFiles_entries hmarkers (j := 1) (by decide) rfl (.inr rfl)
    (.call true :: .call false :: .grant true :: List.replicate 10 (.answered true))).2 true rfl [.grant false]).2

end Ego.Postgres

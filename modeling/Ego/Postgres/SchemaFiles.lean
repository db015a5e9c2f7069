import Mathlib.Data.List.Infix
import Ego.Tenancy.Wire

/-! # Schema files (`persistence/postgres/schema.go`) -/

namespace Ego.Postgres
open Persistence (Bytes goString)
open Lib.Text (cut parseUint)
open Lib.Maps (Map)

structure SchemaFile where
  version : ℕ
  name : Bytes
  sql : Bytes
  deriving DecidableEq

structure DirEntry where
  name : Bytes
  isDir : Bool
  content : Option Bytes

inductive LoadError where
  | notNamed (name : Bytes)
  | versionZero (name : Bytes)
  | duplicateVersion (previous name : Bytes) (version : ℕ)
  | unreadable (name : Bytes)
  | emptyFile (name : Bytes)
  | noFiles
  | gap (version : ℕ)
  deriving DecidableEq

def fileVersion (name : Bytes) : Option ℕ :=
  (cut (goString "_") name).bind fun parts => (parseUint parts.1).filter fun n => n < 2 ^ 32

def addFile (byVersion : Map ℕ SchemaFile) (entry : DirEntry) : Except LoadError (Map ℕ SchemaFile) :=
  if entry.isDir ∨ ¬ goString ".sql" <:+ entry.name then .ok byVersion
  else
    match fileVersion entry.name with
    | none => .error (.notNamed entry.name)
    | some version =>
      if version = 0 then .error (.versionZero entry.name)
      else
        match byVersion.lookup version with
        | some previous => .error (.duplicateVersion previous.name entry.name version)
        | none =>
          match entry.content with
          | none => .error (.unreadable entry.name)
          | some sql =>
            if Tenancy.Wire.blank sql then .error (.emptyFile entry.name)
            else .ok (byVersion.insert version ⟨version, entry.name, sql⟩)

def addFiles (byVersion : Map ℕ SchemaFile) : List DirEntry → Except LoadError (Map ℕ SchemaFile)
  | [] => .ok byVersion
  | entry :: entries => do
    let byVersion ← addFile byVersion entry
    addFiles byVersion entries

def inOrder (byVersion : Map ℕ SchemaFile) : List ℕ → Except LoadError (List SchemaFile)
  | [] => .ok []
  | version :: versions =>
    match byVersion.lookup version with
    | none => .error (.gap version)
    | some file => (inOrder byVersion versions).map fun files => file :: files

def loadSchemaFiles (entries : List DirEntry) : Except LoadError (List SchemaFile) := do
  let byVersion ← addFiles ∅ entries
  if byVersion.entries = [] then .error .noFiles
  else inOrder byVersion (List.range' 1 byVersion.entries.length)

def pendingSchemaFiles (files : List SchemaFile) (current : ℕ) : List SchemaFile :=
  files.dropWhile fun file => file.version ≤ current

abbrev Catalog := String → Bool

def baselineMarkers : List String :=
  ["events_store.tenant_id", "index.idx_events_store_shard", "events_store_revisions", "events_store.tenant_metadata",
    "offsets_store"]

def inferSchemaVersion (found : Catalog) : Except Unit ℕ :=
  if found "events_store" ∧ ¬ found "events_store.tenant_id" then .error ()
  else .ok (baselineMarkers.takeWhile found).length

def Numbered (files : List SchemaFile) : Prop := files.map (·.version) = List.range' 1 files.length

variable {byVersion : Map ℕ SchemaFile}

theorem addFile_eq {name sql : Bytes} {version : ℕ} (hname : goString ".sql" <:+ name)
    (hversion : fileVersion name = some version) (hpos : version ≠ 0) (hnew : byVersion.lookup version = none)
    (hblank : Tenancy.Wire.blank sql = false) :
    addFile byVersion ⟨name, false, some sql⟩ = .ok (byVersion.insert version ⟨version, name, sql⟩) := by
  simp [addFile, hname, hversion, hpos, hnew, hblank]

theorem addFile_version {byVersion' : Map ℕ SchemaFile} {entry : DirEntry}
    (h : addFile byVersion entry = .ok byVersion') (hv : ∀ v, ∀ file ∈ byVersion.lookup v, file.version = v) :
    ∀ v, ∀ file ∈ byVersion'.lookup v, file.version = v := by
  unfold addFile at h
  split at h
  · rwa [← Except.ok.inj h]
  · split at h
    · cases h
    · rename_i version _
      split at h
      · cases h
      · split at h
        · cases h
        · split at h
          · cases h
          · split at h
            · cases h
            · obtain rfl := Except.ok.inj h
              intro v file hfile
              by_cases hne : v = version
              · subst hne
                rw [AList.lookup_insert] at hfile
                rw [← Option.some.inj hfile]
              · rw [AList.lookup_insert_ne hne] at hfile
                exact hv v file hfile

theorem addFiles_version {byVersion' : Map ℕ SchemaFile} {entries : List DirEntry}
    (h : addFiles byVersion entries = .ok byVersion') (hv : ∀ v, ∀ file ∈ byVersion.lookup v, file.version = v) :
    ∀ v, ∀ file ∈ byVersion'.lookup v, file.version = v := by
  induction entries generalizing byVersion with
  | nil => rwa [← Except.ok.inj h]
  | cons entry entries ih =>
    obtain ⟨next, hnext, h⟩ := Lib.bind_eq_ok.mp h
    exact ih h (addFile_version hnext hv)

variable {files : List SchemaFile}

theorem inOrder_versions (hv : ∀ v, ∀ file ∈ byVersion.lookup v, file.version = v)
    {versions : List ℕ} (h : inOrder byVersion versions = .ok files) : files.map (·.version) = versions := by
  induction versions generalizing files with
  | nil =>
    rw [← Except.ok.inj h]
    rfl
  | cons version versions ih =>
    unfold inOrder at h
    split at h
    · cases h
    · rename_i file hfile
      obtain ⟨rest, hrest, rfl⟩ := Lib.map_eq_ok.mp h
      rw [List.map_cons, ih hrest, hv version file hfile]

theorem loadSchemaFiles_numbered {entries : List DirEntry}
    (h : loadSchemaFiles entries = .ok files) : Numbered files ∧ files ≠ [] := by
  obtain ⟨byVersion, hadd, h⟩ := Lib.bind_eq_ok.mp h
  have hv := addFiles_version hadd fun v file hfile => by cases hfile
  split at h
  · cases h
  · rename_i hne
    have hversions := inOrder_versions hv h
    have hlength : files.length = byVersion.entries.length := by
      rw [← List.length_map (f := SchemaFile.version), hversions, List.length_range']
    refine ⟨?_, ?_⟩
    · rw [Numbered, hversions, hlength]
    · rintro rfl
      exact hne (List.length_eq_zero_iff.mp hlength.symm)

theorem dropWhile_version {files : List SchemaFile} {first : ℕ}
    (h : files.map (·.version) = List.range' (first + 1) files.length) (current : ℕ) :
    files.dropWhile (fun file => file.version ≤ current) = files.drop (current - first) := by
  induction files generalizing first with
  | nil => simp
  | cons file files ih =>
    rw [List.map_cons, List.length_cons, List.range'_succ] at h
    obtain ⟨hversion, hrest⟩ := List.cons.inj h
    by_cases hle : file.version ≤ current
    · have hdrop : current - first = (current - (first + 1)) + 1 := by omega
      rw [List.dropWhile_cons_of_pos (by simpa using hle), ih hrest, hdrop, List.drop_succ_cons]
    · have hdrop : current - first = 0 := by omega
      rw [List.dropWhile_cons_of_neg (by simpa using hle), hdrop, List.drop_zero]

theorem pendingSchemaFiles_eq (h : Numbered files) (current : ℕ) :
    pendingSchemaFiles files current = files.drop current := by
  have hdrop := dropWhile_version h current
  rwa [Nat.sub_zero] at hdrop

theorem Numbered.version_of_drop {rest : List SchemaFile} {file : SchemaFile} {k : ℕ} (h : Numbered files)
    (hdrop : files.drop k = file :: rest) : file.version = k + 1 := by
  have hmap : (files.drop k).map (·.version) = (List.range' 1 files.length).drop k := by
    rw [List.map_drop, h]
  rw [hdrop, List.drop_range', List.map_cons] at hmap
  have hhead := congrArg List.head? hmap
  rw [List.head?_cons, List.head?_range'] at hhead
  split at hhead
  · cases hhead
  · have hversion := Option.some.inj hhead
    omega

theorem take_succ_of_drop {α : Type} {l rest : List α} {a : α} {k : ℕ} (h : l.drop k = a :: rest) :
    l.take (k + 1) = l.take k ++ [a] ∧ l.drop (k + 1) = rest ∧ k < l.length := by
  have hlt : k < l.length := by
    by_contra hle
    rw [List.drop_eq_nil_of_le (Nat.le_of_not_lt hle)] at h
    cases h
  rw [List.drop_eq_getElem_cons hlt] at h
  obtain ⟨ha, hrest⟩ := List.cons.inj h
  exact ⟨by rw [List.take_succ_eq_append_getElem hlt, ha], hrest, hlt⟩

end Ego.Postgres

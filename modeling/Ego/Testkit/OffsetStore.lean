import Ego.Lib.Except
import Ego.Lib.Maps
import Ego.Postgres.OffsetStore

/-! # Resetting offsets (`testkit/offsetstore.go`, `persistence/postgres/offset_store.go`) -/

namespace Ego.Testkit
open Postgres (Offset OffsetTable)
open Lib.Maps (Map)

structure OffsetKey where
  projectionName : String
  shardNumber : ℕ
  deriving DecidableEq

inductive Held where
  | key (k : OffsetKey)
  | offset (o : Offset)

inductive Panic where
  | interfaceConversion (held wanted : String)
  deriving DecidableEq, Repr

def Held.asOffsetKey : Held → Except Panic OffsetKey
  | .key k => .ok k
  | .offset _ => .error (.interfaceConversion "*egopb.Offset" "testkit.OffsetKey")

def Held.asOffset : Held → Except Panic Offset
  | .key _ => .error (.interfaceConversion "testkit.OffsetKey" "*egopb.Offset")
  | .offset o => .ok o

abbrev OffsetDb := Map OffsetKey Offset

namespace OffsetDb

def writeOffset (db : OffsetDb) (offset : Offset) : OffsetDb :=
  db.insert ⟨offset.projectionName, offset.shardNumber⟩ offset

def getCurrentOffset (db : OffsetDb) (projectionName : String) (shardNumber : ℕ) : Option Offset :=
  db.lookup ⟨projectionName, shardNumber⟩

def resetEntry (projectionName : String) (value ts : ℤ) (db : OffsetDb) (_ v : Held) : Except Panic OffsetDb := do
  let key ← v.asOffsetKey
  let val ← v.asOffset
  if key.projectionName = projectionName then .ok (db.insert key { val with value := value, timestamp := ts })
  else .ok db

def resetOffset (db : OffsetDb) (projectionName : String) (value ts : ℤ) : Except Panic OffsetDb :=
  db.entries.foldlM (fun db entry => resetEntry projectionName value ts db (.key entry.1) (.offset entry.2)) db

theorem resetEntry_offset (projectionName : String) (value ts : ℤ) (db : OffsetDb) (k : Held) (offset : Offset) :
    resetEntry projectionName value ts db k (.offset offset) =
      .error (.interfaceConversion "*egopb.Offset" "testkit.OffsetKey") := rfl

theorem resetOffset_eq_ok {db after : OffsetDb} {projectionName : String} {value ts : ℤ} :
    db.resetOffset projectionName value ts = .ok after ↔ db = ∅ ∧ after = ∅ := by
  unfold resetOffset
  cases hentries : db.entries with
  | nil =>
    have hdb : db = ∅ := AList.ext hentries
    rw [List.foldlM_nil, hdb]
    constructor
    · intro h
      exact ⟨rfl, (Except.ok.inj h).symm⟩
    · rintro ⟨-, rfl⟩
      rfl
  | cons entry entries =>
    constructor
    · intro h
      cases h
    · rintro ⟨rfl, -⟩
      cases hentries

end OffsetDb

inductive OffsetStore where
  | memory (db : OffsetDb)
  | postgres (table : OffsetTable)

namespace OffsetStore

def getCurrentOffset : OffsetStore → String → ℕ → Option Offset
  | .memory db => db.getCurrentOffset
  | .postgres table => table.getCurrentOffset

def resetOffset (projectionName : String) (value ts : ℤ) : OffsetStore → Except Panic OffsetStore
  | .memory db => (db.resetOffset projectionName value ts).map .memory
  | .postgres table => .ok (.postgres (table.resetOffset projectionName value))

/-- "ResetOffset resets the offset of given projection to a given value across all
shards" (`offsetstore/offset_store.go`). -/
structure Reset (before after : OffsetStore) (projectionName : String) (value : ℤ) : Prop where
  shards : ∀ shard offset, before.getCurrentOffset projectionName shard = some offset →
    (after.getCurrentOffset projectionName shard).map Offset.value = some value
  others : ∀ name, name ≠ projectionName → ∀ shard, after.getCurrentOffset name shard =
    before.getCurrentOffset name shard

theorem memory_resets_iff {db : OffsetDb} {projectionName : String} {value ts : ℤ} :
    (∃ after, (OffsetStore.memory db).resetOffset projectionName value ts = .ok after ∧
      Reset (.memory db) after projectionName value) ↔ db = ∅ := by
  constructor
  · rintro ⟨after, hreset, -⟩
    obtain ⟨db', hdb', -⟩ := Lib.map_eq_ok.mp hreset
    exact (OffsetDb.resetOffset_eq_ok.mp hdb').1
  · rintro rfl
    refine ⟨.memory ∅, rfl, ?_, fun _ _ _ => rfl⟩
    intro shard offset hoffset
    cases hoffset

theorem postgres_resets (table : OffsetTable) (projectionName : String) (value : ℤ) :
    Reset (.postgres table) (.postgres (table.resetOffset projectionName value)) projectionName value := by
  constructor
  · intro shard offset hoffset
    simp only [getCurrentOffset, OffsetTable.getCurrentOffset] at hoffset
    simp [getCurrentOffset, OffsetTable.getCurrentOffset, OffsetTable.resetOffset, hoffset]
  · intro name hname shard
    simp [getCurrentOffset, OffsetTable.getCurrentOffset, OffsetTable.resetOffset, hname]

/-- A reset does what it is for in PostgreSQL, and in memory only if no projection
has an offset yet. -/
theorem resetOffset_resets_iff (store : OffsetStore) (projectionName : String) (value ts : ℤ) :
    (∃ after, store.resetOffset projectionName value ts = .ok after ∧ Reset store after projectionName value) ↔
      ∀ db, store = .memory db → db = ∅ := by
  cases store with
  | memory db =>
    rw [memory_resets_iff]
    constructor
    · rintro rfl db' hdb'
      cases hdb'
      rfl
    · intro h
      exact h db rfl
  | postgres table =>
    constructor
    · rintro - db hdb
      cases hdb
    · intro _
      exact ⟨_, rfl, postgres_resets table projectionName value⟩

/-- One stored offset, of whatever projection, makes the in-memory reset panic. -/
theorem resetOffset_panics :
    (OffsetStore.memory ((∅ : OffsetDb).writeOffset ⟨3, "accounts", 10, 0⟩)).resetOffset "accounts" 0 1 =
      .error (.interfaceConversion "*egopb.Offset" "testkit.OffsetKey") := rfl

end OffsetStore

end Ego.Testkit

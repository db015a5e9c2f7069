import Ego.Persistence.Event

/-! # The PostgreSQL offset store (`persistence/postgres/offset_store.go`) -/

namespace Ego.Postgres

structure Offset where
  shardNumber : ℕ
  projectionName : String
  value : ℤ
  timestamp : ℤ
  deriving DecidableEq, Repr

def OffsetTable := String → ℕ → Option Offset

namespace OffsetTable

def writeOffset (table : OffsetTable) (offset : Offset) : OffsetTable := fun name shard =>
  if name = offset.projectionName ∧ shard = offset.shardNumber then some offset else table name shard

def getCurrentOffset (table : OffsetTable) (projectionName : String) (shardNumber : ℕ) : Option Offset :=
  table projectionName shardNumber

/-- `UPDATE offsets_store SET current_offset=$1 WHERE projection_name=$2`: it makes
no row for a shard that has none. -/
def resetOffset (table : OffsetTable) (projectionName : String) (value : ℤ) : OffsetTable :=
  fun name shard =>
    (table name shard).map fun offset =>
      if name = projectionName then { offset with value := value } else offset

end OffsetTable

end Ego.Postgres

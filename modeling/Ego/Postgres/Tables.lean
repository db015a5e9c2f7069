import Ego.Postgres.EventStore
import Ego.Postgres.Records
import Ego.Postgres.Scopes
import Mathlib.Data.Finset.Sort
import Mathlib.Data.List.AList

/-!
# The tables of the PostgreSQL events store (`persistence/postgres/schema/`)

The order of `persistence_id` is that of its collation, which is written `<` here.
-/

namespace Ego.Postgres
open Persistence

structure Tables where
  events : AList fun _ : String × String × ℕ => Event
  revisions : AList fun _ : String × String => ℕ

namespace Tables

def ids (tables : Tables) (tenantID : String) : List String :=
  ((tables.events.keys.filter fun key => key.1 = tenantID).map (·.2.1)).toFinset.sort (· ≤ ·)

theorem mem_ids {tables : Tables} {tenantID id : String} :
    id ∈ tables.ids tenantID ↔ ∃ n, (tables.events.lookup (tenantID, id, n)).isSome = true := by
  rw [ids, Finset.mem_sort, List.mem_toFinset, List.mem_map]
  simp only [AList.lookup_isSome, AList.mem_keys]
  constructor
  · rintro ⟨⟨tenant, id, n⟩, hmem, rfl⟩
    obtain ⟨hkey, htenant⟩ := List.mem_filter.mp hmem
    obtain rfl : tenant = tenantID := of_decide_eq_true htenant
    exact ⟨n, hkey⟩
  · rintro ⟨n, h⟩
    exact ⟨(tenantID, id, n), List.mem_filter.mpr ⟨h, decide_eq_true rfl⟩, rfl⟩

def persistenceIDs (tables : Tables) (scope : Scope) (pageSize : ℕ) (pageToken : String) :
    Except Err (List String × String) := do
  let tenantID ← scopeKey scope
  if pageSize = 0 then return ([], "")
  bindBigint pageSize
  return Postgres.persistenceIDs (tables.ids tenantID) pageSize pageToken

end Tables

end Ego.Postgres

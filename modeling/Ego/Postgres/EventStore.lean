import Ego.Lib.Paging
import Ego.Persistence.EventLog

/-!
# Shard reads of the PostgreSQL events store (`persistence/postgres/event_store.go:525-567`)

`ORDER BY timestamp` leaves the order of rows with one timestamp open, so a read takes
the rows in some order by timestamp.
-/

namespace Ego.Postgres
open Persistence Lib

structure EventsTable where
  rows : List Event
  shard_fits : ∀ row ∈ rows, row.shard < 2 ^ 63

def Ordered (rows ordered : List Event) : Prop :=
  ordered.Perm rows ∧ ordered.Pairwise fun x y => x.timestamp ≤ y.timestamp

def bindBigint (n : ℕ) : Except Err Unit :=
  if n < 2 ^ 63 then .ok () else .error (.message "value out of range for type bigint")

def getShardEvents (ordered : List Event) (shardNumber : ℕ) (offset : ℤ) (limit : ℕ) :
    Except Err (List Event × ℤ) := do
  bindBigint shardNumber
  bindBigint limit
  let events := (ordered.filter fun row => row.shard = shardNumber ∧ row.timestamp > offset).take limit
  match events.getLast? with
  | none => return ([], 0)
  | some last => return (events, last.timestamp)

def shardOffset (rows : List Event) (shardNumber : ℕ) : Option ℤ :=
  (rows.filter fun row => row.shard = shardNumber).foldl (fun latest row =>
    match latest with
    | none => some row.timestamp
    | some t => some (max t row.timestamp)) none

theorem le_shardOffset {rows : List Event} {shardNumber : ℕ} {row : Event} (h : row ∈ rows)
    (hs : row.shard = shardNumber) : ∃ latest, shardOffset rows shardNumber = some latest ∧
      row.timestamp ≤ latest := by
  have hfold : ∀ (rows : List Event) (t : ℤ), ∃ latest, t ≤ latest ∧
      (∀ x ∈ rows, x.timestamp ≤ latest) ∧ rows.foldl (fun latest row =>
        match latest with
        | none => some row.timestamp
        | some t => some (max t row.timestamp)) (some t) = some latest := by
    intro rows
    induction rows with
    | nil => exact fun t => ⟨t, Int.le_refl t, by simp, rfl⟩
    | cons x rows ih =>
      intro t
      obtain ⟨latest, hle, hall, heq⟩ := ih (max t x.timestamp)
      refine ⟨latest, by omega, fun y hy => ?_, heq⟩
      rcases List.mem_cons.mp hy with rfl | hy
      · omega
      · exact hall y hy
  have hmem : row ∈ rows.filter fun row => row.shard = shardNumber :=
    List.mem_filter.mpr ⟨h, decide_eq_true hs⟩
  unfold shardOffset
  cases hrows : rows.filter (fun row => row.shard = shardNumber) with
  | nil => simp [hrows] at hmem
  | cons x xs =>
    obtain ⟨latest, hle, hall, heq⟩ := hfold xs x.timestamp
    refine ⟨latest, heq, ?_⟩
    rw [hrows] at hmem
    rcases List.mem_cons.mp hmem with rfl | hmem
    · exact hle
    · exact hall row hmem

theorem getShardEvents_out_of_range (ordered : List Event) {shardNumber limit : ℕ} (offset : ℤ)
    (h : ¬ (shardNumber < 2 ^ 63 ∧ limit < 2 ^ 63)) :
    ∃ err, getShardEvents ordered shardNumber offset limit = .error err := by
  unfold getShardEvents bindBigint
  by_cases hs : shardNumber < 2 ^ 63
  · have hl : ¬ limit < 2 ^ 63 := fun hl => h ⟨hs, hl⟩
    simp only [hs, hl, if_true, if_false]
    exact ⟨_, rfl⟩
  · simp only [hs, if_false]
    exact ⟨_, rfl⟩

theorem filter_query_eq_after (rows : List Event) (shardNumber : ℕ) (offset : ℤ) :
    (rows.filter fun row => row.shard = shardNumber ∧ row.timestamp > offset) =
      after Event.timestamp offset (rows.filter fun row => row.shard = shardNumber) := by
  simp only [after, List.filter_filter]
  apply List.filter_congr
  intro row _
  simp only [Bool.decide_and, gt_iff_lt]
  exact Bool.and_comm _ _

theorem getShardEvents_eq (ordered : List Event) {shardNumber limit : ℕ} (hs : shardNumber < 2 ^ 63)
    (hl : limit < 2 ^ 63) (offset : ℤ) :
    ∃ next, getShardEvents ordered shardNumber offset limit = .ok ((after Event.timestamp offset
        (ordered.filter fun row => row.shard = shardNumber)).take limit, next) ∧
      ∀ h, next = (((after Event.timestamp offset
        (ordered.filter fun row => row.shard = shardNumber)).take limit).getLast h).timestamp := by
  unfold getShardEvents bindBigint
  simp only [hs, hl, if_true, filter_query_eq_after]
  generalize (after Event.timestamp offset
    (ordered.filter fun row => row.shard = shardNumber)).take limit = page
  cases hlast : page.getLast? with
  | none => exact ⟨0, by rw [List.getLast?_eq_none_iff.mp hlast]; rfl,
      fun h => absurd (List.getLast?_eq_none_iff.mp hlast) h⟩
  | some last =>
    refine ⟨last.timestamp, rfl, fun h => ?_⟩
    rw [List.getLast?_eq_some_getLast h] at hlast
    rw [Option.some.inj hlast]

theorem getShardEvents_isPage {rows ordered : List Event} (ho : Ordered rows ordered)
    {shardNumber limit : ℕ} (hs : shardNumber < 2 ^ 63) (hl : limit < 2 ^ 63) (offset : ℤ) :
    ∃ xs next, getShardEvents ordered shardNumber offset limit = .ok (xs, next) ∧ IsPage (·.timestamp) limit
        (after (·.timestamp) offset (ordered.filter fun row => row.shard = shardNumber)) xs next := by
  obtain ⟨next, hpage, hnext⟩ := getShardEvents_eq ordered hs hl offset
  have hsorted := (((ho.2.filter fun row => row.shard = shardNumber).filter fun row =>
    offset < row.timestamp).sublist (List.take_sublist limit _))
  exact ⟨_, next, hpage, .refl _, hsorted, hnext⟩

end Ego.Postgres

import Ego.Lib.Paging
import Ego.Lib.StableSort
import Ego.Persistence.EventLog

/-!
# Shard reads of the in-memory events store (`testkit/eventstore.go:452-501`)

`logs` is the list of logs in the order in which the call ranges over them.
-/

namespace Ego.Testkit
open Persistence Lib

def shardEvents (logs : List EventLog) (shardNumber : ℕ) : List Event :=
  logs.flatMap fun log => log.events.filter fun event => event.shard = shardNumber

def toInt (limit : ℕ) : ℤ := if limit < 2 ^ 63 then limit else limit - 2 ^ 64

/-- The page grows while it has at most `limit` events. -/
def collectPage (offset : ℤ) (limit : ℕ) (events page : List Event) : List Event :=
  events.foldl (fun page event =>
    if event.timestamp > offset then
      if (page.length : ℤ) ≤ toInt limit then page ++ [event] else page
    else page) page

/-- What `GetShardEvents` does with the events of the shard once it has ranged over
the logs. The comparison given to `sort.SliceStable` is `<=`. -/
def pageOf (events : List Event) (offset : ℤ) (limit : ℕ) : List Event × ℤ :=
  let sorted := StableSort.sort (fun x y : Event => decide (x.timestamp ≤ y.timestamp))
    (collectPage offset limit events [])
  match sorted.getLast? with
  | none => ([], 0)
  | some last => (sorted, last.timestamp)

def getShardEvents (logs : List EventLog) (shardNumber : ℕ) (offset : ℤ) (limit : ℕ) : List Event × ℤ :=
  pageOf (shardEvents logs shardNumber) offset limit

def shardOffset (logs : List EventLog) (shardNumber : ℕ) : Option ℤ :=
  (shardEvents logs shardNumber).foldl (fun latest event =>
    if event.timestamp > latest.getD 0 then some event.timestamp else latest) none

theorem le_shardOffset {logs : List EventLog} {shardNumber : ℕ} {e : Event}
    (h : e ∈ shardEvents logs shardNumber) : e.timestamp ≤ (shardOffset logs shardNumber).getD 0 := by
  have hfold : ∀ (events : List Event) (latest : Option ℤ),
      latest.getD 0 ≤ (events.foldl (fun latest event =>
        if event.timestamp > latest.getD 0 then some event.timestamp else latest) latest).getD 0 ∧
      ∀ x ∈ events, x.timestamp ≤ (events.foldl (fun latest event =>
        if event.timestamp > latest.getD 0 then some event.timestamp else latest) latest).getD 0 := by
    intro events
    induction events with
    | nil => exact fun latest => ⟨Int.le_refl _, by simp⟩
    | cons event events ih =>
      intro latest
      obtain ⟨hle, hmem⟩ := ih (if event.timestamp > latest.getD 0 then some event.timestamp else latest)
      have hstep : latest.getD 0 ≤ (if event.timestamp > latest.getD 0 then some event.timestamp
            else latest).getD 0 ∧
          event.timestamp ≤ (if event.timestamp > latest.getD 0 then some event.timestamp
            else latest).getD 0 := by
        split
        · exact ⟨Int.le_of_lt ‹_›, Int.le_refl _⟩
        · exact ⟨Int.le_refl _, Int.not_lt.mp ‹_›⟩
      refine ⟨Int.le_trans hstep.1 hle, fun x hx => ?_⟩
      rcases List.mem_cons.mp hx with rfl | hx
      · exact Int.le_trans hstep.2 hle
      · exact hmem x hx
  exact (hfold (shardEvents logs shardNumber) none).2 e h

def pageSize (limit : ℕ) : ℕ := (toInt limit + 1).toNat

theorem pageSize_of_lt {limit : ℕ} (h : limit < 2 ^ 63) : pageSize limit = limit + 1 := by
  simp only [pageSize, toInt, h, if_true]
  omega

theorem pageSize_of_ge {limit : ℕ} (h : ¬ limit < 2 ^ 63) (hu : limit < 2 ^ 64) : pageSize limit = 0 := by
  simp only [pageSize, toInt, h, if_false]
  omega

theorem collectPage_eq (offset : ℤ) (limit : ℕ) (events page : List Event) : collectPage offset limit events page =
      page ++ (after (·.timestamp) offset events).take (pageSize limit - page.length) := by
  induction events generalizing page with
  | nil => simp [collectPage, after]
  | cons event events ih =>
    have hcons (p : List Event) : collectPage offset limit (event :: events) page = p ↔
        collectPage offset limit events (if event.timestamp > offset then
          if (page.length : ℤ) ≤ toInt limit then page ++ [event] else page else page) = p := Iff.rfl
    rw [hcons]
    by_cases ht : offset < event.timestamp
    · have hafter : after (·.timestamp) offset (event :: events) =
          event :: after (·.timestamp) offset events := by simp [after, ht]
      rw [if_pos ht, hafter]
      by_cases hl : (page.length : ℤ) ≤ toInt limit
      · have hsize : pageSize limit - page.length = (pageSize limit - (page ++ [event]).length) + 1 := by
          simp only [pageSize, List.length_append, List.length_singleton]
          omega
        rw [if_pos hl, ih, hsize, List.take_succ_cons, List.append_assoc, List.singleton_append]
      · have hsize : pageSize limit - page.length = 0 := by
          simp only [pageSize]
          omega
        rw [if_neg hl, ih, hsize, List.take_zero, List.take_zero]
    · have hafter : after (·.timestamp) offset (event :: events) =
          after (·.timestamp) offset events := by simp [after, ht]
      rw [if_neg ht, hafter, ih]

theorem pageOf_isPage (events : List Event) (offset : ℤ) (limit : ℕ) :
    IsPage (·.timestamp) (pageSize limit) (after (·.timestamp) offset events)
      (pageOf events offset limit).1 (pageOf events offset limit).2 := by
  have hcollect := collectPage_eq offset limit events []
  have hperm := StableSort.sort_perm (fun x y : Event => decide (x.timestamp ≤ y.timestamp))
    (collectPage offset limit events [])
  have hsorted := StableSort.sort_sorted (StableSort.le_decides Event.timestamp) (collectPage offset limit events [])
  rw [hcollect] at hperm hsorted
  unfold pageOf
  simp only [hcollect]
  split
  · rename_i hnil
    rw [List.getLast?_eq_none_iff] at hnil
    rw [hnil] at hperm
    exact ⟨hperm, .nil, fun h => absurd rfl h⟩
  · rename_i last hlast
    refine ⟨hperm, hsorted, fun h => ?_⟩
    rw [List.getLast?_eq_some_getLast h] at hlast
    rw [Option.some.inj hlast]

end Ego.Testkit

import Ego.Enginetest.Account
import Ego.Lib.Ties
import Ego.Testkit.Shards
import Ego.Postgres.EventStore

/-! # Reading a shard of a fixed journal, page by page -/

namespace Ego.Projection
open Persistence Lib

def memoryPage (orders : ℕ → List EventLog) (shard limit : ℕ) (i : ℕ) (offset : ℤ) :
    Option (List Event × ℤ) :=
  some (Testkit.getShardEvents (orders i) shard offset limit)

def sqlPage (ordered : ℕ → List Event) (shard limit : ℕ) (i : ℕ) (offset : ℤ) : Option (List Event × ℤ) :=
  (Postgres.getShardEvents (ordered i) shard offset limit).toOption

def wantedOf (shard : ℕ) (offset : ℤ) (log : EventLog) : List Event :=
  after (·.timestamp) offset (log.events.filter fun event => event.shard = shard)

def wanted (logs : List EventLog) (shard : ℕ) (offset : ℤ) : List Event :=
  after (·.timestamp) offset (Testkit.shardEvents logs shard)

def wantedRows (rows : List Event) (shard : ℕ) (offset : ℤ) : List Event :=
  after (·.timestamp) offset (rows.filter fun row => row.shard = shard)

/-- Nothing is wanted; or `limit` is not negative as an `int`, and either all of it
fits into one page of `limit + 1` events, or it lies in the log of one entity
and the pages cut it where the timestamps increase. -/
def MemoryFits (logs : List EventLog) (shard limit : ℕ) (offset : ℤ) : Prop :=
  wanted logs shard offset = [] ∨ limit < 2 ^ 63 ∧ ((wanted logs shard offset).length ≤ limit + 1 ∨
      (logs.filter fun log => !(wantedOf shard offset log).isEmpty).length ≤ 1 ∧
        Apart (limit + 1) ((wanted logs shard offset).map (·.timestamp)))

/-- The arguments fit into a `BIGINT`, and in the order of the timestamps no page
ends between two events that share one. -/
def SqlFits (rows : List Event) (shard limit : ℕ) (offset : ℤ) : Prop :=
  shard < 2 ^ 63 ∧ limit < 2 ^ 63 ∧
    Apart limit (((wantedRows rows shard offset).map (·.timestamp)).insertionSort (· ≤ ·))

theorem wanted_eq_flatMap (logs : List EventLog) (shard : ℕ) (offset : ℤ) :
    wanted logs shard offset = logs.flatMap (wantedOf shard offset) := by
  simp only [wanted, Testkit.shardEvents, after, List.filter_flatMap]
  rfl

theorem shardEvents_perm {logs logs' : List EventLog} (h : logs'.Perm logs) (shard : ℕ) :
    (Testkit.shardEvents logs' shard).Perm (Testkit.shardEvents logs shard) := h.flatMap_right _

theorem memory_reads (orders : ℕ → List EventLog) (shard limit : ℕ) :
    Reads (·.timestamp) (Testkit.pageSize limit) (fun i => Testkit.shardEvents (orders i) shard)
      (memoryPage orders shard limit) :=
  fun i offset => ⟨_, _, rfl, Testkit.pageOf_isPage (Testkit.shardEvents (orders i) shard) offset limit⟩

theorem flatMap_filter_nonempty {α β : Type} (f : α → List β) (xs : List α) :
    (xs.filter fun x => !(f x).isEmpty).flatMap f = xs.flatMap f := by
  induction xs with
  | nil => rfl
  | cons x xs ih =>
    cases hx : (f x).isEmpty with
    | true => simp [ih, List.isEmpty_iff.mp hx]
    | false => simp [hx, ih]

theorem wanted_of_single {logs logs' : List EventLog} {shard : ℕ} {offset : ℤ} (h : logs'.Perm logs)
    (hs : (logs.filter fun log => !(wantedOf shard offset log).isEmpty).length ≤ 1) :
    wanted logs' shard offset = wanted logs shard offset := by
  have hperm := h.filter fun log => !(wantedOf shard offset log).isEmpty
  rw [wanted_eq_flatMap, wanted_eq_flatMap, ← flatMap_filter_nonempty, ← flatMap_filter_nonempty _ logs]
  congr 1
  generalize logs.filter (fun log => !(wantedOf shard offset log).isEmpty) = xs at hs hperm
  match xs, hs with
  | [], _ => exact hperm.eq_nil
  | [x], _ => exact List.perm_singleton.mp hperm

theorem exists_unseparated {logs : List EventLog} {shard m : ℕ} {offset : ℤ} (hm : 0 < m)
    (hlen : m < (wanted logs shard offset).length)
    (hs : ¬ (logs.filter fun log => !(wantedOf shard offset log).isEmpty).length ≤ 1) :
    ∃ order : List EventLog, order.Perm logs ∧ ¬ Separated m ((wanted order shard offset).map (·.timestamp)) := by
  have hsplit := List.filter_append_perm (fun log => !(wantedOf shard offset log).isEmpty) logs
  have hfull : ∀ log ∈ logs.filter (fun log => !(wantedOf shard offset log).isEmpty),
      wantedOf shard offset log ≠ [] := by
    simp
  have hempty : (logs.filter fun log => !!(wantedOf shard offset log).isEmpty).flatMap
      (wantedOf shard offset) = [] := by
    simp
  generalize logs.filter (fun log => !!(wantedOf shard offset log).isEmpty) = rest at hsplit hempty
  generalize logs.filter (fun log => !(wantedOf shard offset log).isEmpty) = full at hsplit hfull hs
  obtain ⟨a, mid, b, rfl⟩ : ∃ a mid b, full = a :: (mid ++ [b]) := by
    match full, hs with
    | [], hs => exact absurd (Nat.zero_le 1) hs
    | [x], hs => exact absurd (Nat.le_refl 1) hs
    | a :: x :: xs, _ =>
      exact ⟨a, (x :: xs).dropLast, (x :: xs).getLast (by simp), by rw [List.dropLast_append_getLast]⟩
  -- the first and the last of them change places
  have hwanted (x y : EventLog) : (wanted (x :: (mid ++ [y]) ++ rest) shard offset).map (·.timestamp) =
      (wantedOf shard offset x).map (·.timestamp) ++ (mid.flatMap (wantedOf shard offset)).map (·.timestamp) ++
        (wantedOf shard offset y).map (·.timestamp) := by
    rw [wanted_eq_flatMap, List.flatMap_append, hempty, List.append_nil]
    simp
  have hswap : (b :: (mid ++ [a]) ++ rest).Perm logs := by
    refine List.Perm.trans (List.Perm.append_right rest ?_) hsplit
    have hab : (b :: (mid ++ [a])).Perm (b :: a :: mid) :=
      (List.perm_append_singleton a mid).cons b
    have hba : (a :: (mid ++ [b])).Perm (a :: b :: mid) :=
      (List.perm_append_singleton b mid).cons a
    exact hab.trans ((List.Perm.swap a b mid).trans hba.symm)
  by_contra hall
  push Not at hall
  have h₁ := hall _ hsplit
  have h₂ := hall _ hswap
  rw [hwanted] at h₁ h₂
  have hlen' : m < ((wanted (a :: (mid ++ [b]) ++ rest) shard offset).map (·.timestamp)).length := by
    rw [List.length_map]
    exact Nat.lt_of_lt_of_eq hlen (after_perm Event.timestamp (shardEvents_perm hsplit shard) offset).length_eq.symm
  rw [hwanted] at hlen'
  refine not_separated_both hm ?_ ?_ hlen' h₁ h₂
  · simpa using hfull a (by simp)
  · simpa using hfull b (by simp)

theorem memory_delivers_iff (logs : List EventLog) (shard : ℕ) (limit : UInt64) (offset : ℤ) :
    (∀ orders : ℕ → List EventLog, (∀ i, (orders i).Perm logs) →
      Delivers (·.timestamp) (memoryPage orders shard limit.toNat) 0 offset (wanted logs shard offset)) ↔
      MemoryFits logs shard limit.toNat offset := by
  have hlist {orders : ℕ → List EventLog} (ho : ∀ i, (orders i).Perm logs) (i : ℕ) :
      (Testkit.shardEvents (orders i) shard).Perm (Testkit.shardEvents logs shard) :=
    shardEvents_perm (ho i) shard
  constructor
  · intro h
    by_cases hnil : wanted logs shard offset = []
    · exact .inl hnil
    have hlimit : limit.toNat < 2 ^ 63 := by
      by_contra hlimit
      have hr := memory_reads (fun _ => logs) shard limit.toNat
      rw [Testkit.pageSize_of_ge hlimit limit.toNat_lt] at hr
      obtain ⟨xs, next, hpage, his⟩ := hr 0 offset
      have hxs := his.perm.eq_nil
      subst hxs
      exact hnil ((delivers_of_nil hpage).mp (h (fun _ => logs) fun _ => .refl _))
    refine .inr ⟨hlimit, ?_⟩
    by_cases hlen : (wanted logs shard offset).length ≤ limit.toNat + 1
    · exact .inl hlen
    have hreads (orders : ℕ → List EventLog) := memory_reads orders shard limit.toNat
    simp only [Testkit.pageSize_of_lt hlimit] at hreads
    have hsingle : (logs.filter fun log => !(wantedOf shard offset log).isEmpty).length ≤ 1 := by
      by_contra hsingle
      obtain ⟨order, horder, hsep⟩ :=
        exists_unseparated (Nat.succ_pos limit.toNat) (Nat.lt_of_not_le hlen) hsingle
      obtain ⟨xs, next, hpage, his⟩ := hreads (fun _ => order) 0 offset
      have hd := h (fun _ => order) fun _ => horder
      by_cases hne : xs = []
      · subst hne
        exact hnil ((delivers_of_nil hpage).mp hd)
      · exact hsep (((hreads fun _ => order).delivers_of_cons (hlist (fun _ => horder) 0) hne hpage
          his).mp hd).1
    refine .inr ⟨hsingle, ?_⟩
    have hd := h (fun _ => logs) fun _ => .refl _
    exact ((hreads fun _ => logs).delivers_iff_apart (Nat.succ_pos _) (fun _ => .refl _)
      (fun _ => rfl) 0).mp hd
  · rintro (hnil | ⟨hlimit, hfit⟩) orders ho
    · exact (memory_reads orders shard limit.toNat).delivers_of_empty (hlist ho 0) hnil
    · have hr := memory_reads orders shard limit.toNat
      rw [Testkit.pageSize_of_lt hlimit] at hr
      rcases hfit with hlen | ⟨hsingle, hapart⟩
      · exact hr.delivers_of_length_le (hlist ho) hlen
      · refine (hr.delivers_iff_apart (Nat.succ_pos _) (hlist ho) (fun i => ?_) 0).mpr hapart
        exact congrArg _ (wanted_of_single (ho i) hsingle)

theorem sql_reads {rows : List Event} {ordered : ℕ → List Event}
    (ho : ∀ i, Postgres.Ordered rows (ordered i)) (shard limit : ℕ) (hs : shard < 2 ^ 63) (hl : limit < 2 ^ 63) :
    Reads (·.timestamp) limit (fun i => (ordered i).filter fun row => row.shard = shard)
      (sqlPage ordered shard limit) := by
  intro i offset
  obtain ⟨xs, next, heq, his⟩ := Postgres.getShardEvents_isPage (ho i) hs hl offset
  exact ⟨xs, next, by rw [sqlPage, heq]; rfl, his⟩

theorem ordered_keys {rows ordered : List Event} (ho : Postgres.Ordered rows ordered) (shard : ℕ)
    (offset : ℤ) : (wantedRows ordered shard offset).map (·.timestamp) =
      ((wantedRows rows shard offset).map (·.timestamp)).insertionSort (· ≤ ·) := by
  have hperm : ((wantedRows ordered shard offset).map (·.timestamp)).Perm
      (((wantedRows rows shard offset).map (·.timestamp)).insertionSort (· ≤ ·)) :=
    ((after_perm Event.timestamp (ho.1.filter _) offset).map _).trans (List.perm_insertionSort _ _).symm
  refine hperm.eq_of_pairwise (fun x y _ _ hxy hyx => Int.le_antisymm hxy hyx) ?_
    (List.pairwise_insertionSort (· ≤ ·) _)
  exact List.pairwise_map.mpr ((ho.2.filter _).filter _)

theorem sql_delivers_iff (rows : List Event) (shard limit : ℕ) (hl : 0 < limit) (offset : ℤ) :
    (∀ ordered : ℕ → List Event, (∀ i, Postgres.Ordered rows (ordered i)) →
      Delivers (·.timestamp) (sqlPage ordered shard limit) 0 offset (wantedRows rows shard offset)) ↔
      SqlFits rows shard limit offset := by
  have hlist {ordered : ℕ → List Event} (ho : ∀ i, Postgres.Ordered rows (ordered i)) (i : ℕ) :
      ((ordered i).filter fun row => row.shard = shard).Perm (rows.filter fun row => row.shard = shard) :=
    (ho i).1.filter _
  obtain ⟨some_order, hsome⟩ := exists_listing Event.timestamp rows
  constructor
  · intro h
    have hd := h (fun _ => some_order) fun _ => hsome
    have hrange : shard < 2 ^ 63 ∧ limit < 2 ^ 63 := by
      by_contra hrange
      obtain ⟨err, herr⟩ := Postgres.getShardEvents_out_of_range some_order offset hrange
      obtain ⟨fuel, xs, hdrain, -⟩ := hd
      cases fuel with
      | zero => simp [drain] at hdrain
      | succ fuel => simp [drain, sqlPage, herr, Except.toOption] at hdrain
    refine ⟨hrange.1, hrange.2, ?_⟩
    exact ((sql_reads (fun _ => hsome) shard limit hrange.1 hrange.2).delivers_iff_apart hl (hlist fun _ => hsome)
      (fun _ => ordered_keys hsome shard offset) 0).mp hd
  · rintro ⟨hs, hlimit, hapart⟩ ordered ho
    exact ((sql_reads ho shard limit hs hlimit).delivers_iff_apart hl (hlist ho)
      (fun i => ordered_keys (ho i) shard offset) 0).mpr hapart

/-- A reading page by page delivers the wanted events exactly once and in the order
of their timestamps, however the calls range over the logs or order the rows,
exactly if the journal fits the store's pages. -/
theorem getShardEvents_delivers_iff (logs : List EventLog) (rows : List Event) (shard limit : UInt64)
    (hlimit : 1 ≤ limit) (offset : ℤ) : ((∀ orders : ℕ → List EventLog, (∀ i, (orders i).Perm logs) →
        Delivers (·.timestamp) (memoryPage orders shard.toNat limit.toNat) 0 offset
          (wanted logs shard.toNat offset)) ↔ MemoryFits logs shard.toNat limit.toNat offset) ∧
    ((∀ ordered : ℕ → List Event, (∀ i, Postgres.Ordered rows (ordered i)) →
        Delivers (·.timestamp) (sqlPage ordered shard.toNat limit.toNat) 0 offset
          (wantedRows rows shard.toNat offset)) ↔ SqlFits rows shard.toNat limit.toNat offset) :=
  ⟨memory_delivers_iff logs shard.toNat limit offset,
    sql_delivers_iff rows shard.toNat limit.toNat (UInt64.le_iff_toNat_le.mp hlimit) offset⟩

section
open Enginetest

def threeCredits : List EventLog :=
  [⟨1, [credited "alice" 1 3], by decide, by decide⟩,
    ⟨2, [credited "bob" 1 1, credited "bob" 2 1], by decide, by decide⟩]

/-- With a limit of two nothing is lost. -/
theorem three_credits_delivered : (1 : UInt64) ≤ 2 ∧
    (∀ orders : ℕ → List EventLog, (∀ i, (orders i).Perm threeCredits) →
      Delivers (·.timestamp) (memoryPage orders 0 2) 0 0 (wanted threeCredits 0 0)) ∧
        (∀ ordered : ℕ → List Event,
      (∀ i, Postgres.Ordered [credited "bob" 1 1, credited "bob" 2 1] (ordered i)) →
      Delivers (·.timestamp) (sqlPage ordered 0 2) 0 0 (wantedRows [credited "bob" 1 1, credited "bob" 2 1] 0 0)) := by
  have h := getShardEvents_delivers_iff threeCredits [credited "bob" 1 1, credited "bob" 2 1] 0 2
    (by decide) 0
  refine ⟨by decide, h.1.mpr (.inr ⟨by decide, .inl (by decide)⟩), h.2.mpr ⟨by decide, by decide, ?_⟩⟩
  exact apart_of_length_le (by decide)

/-- With a limit of one the in-memory store loses a credit that comes after a later
one in the range, and the PostgreSQL store the second credit of a command. -/
theorem credits_skipped :
    ¬ Delivers (·.timestamp) (memoryPage (fun _ => threeCredits) 0 1) 0 0 (wanted threeCredits 0 0) ∧
    Postgres.Ordered [credited "bob" 1 1, credited "bob" 2 1] [credited "bob" 1 1, credited "bob" 2 1] ∧
    ¬ Delivers (·.timestamp) (sqlPage (fun _ => [credited "bob" 1 1, credited "bob" 2 1]) 0 1) 0 0
      (wantedRows [credited "bob" 1 1, credited "bob" 2 1] 0 0) := by
  have hordered : Postgres.Ordered [credited "bob" 1 1, credited "bob" 2 1]
      [credited "bob" 1 1, credited "bob" 2 1] := ⟨.refl _, by decide⟩
  refine ⟨fun h => ?_, hordered, fun h => ?_⟩
  · have hr := memory_reads (fun _ => threeCredits) 0 1
    obtain ⟨xs, next, hpage, his⟩ := hr 0 0
    have hne : xs ≠ [] := by
      rintro rfl
      exact absurd his.perm.length_eq (by decide)
    exact absurd ((hr.delivers_of_cons (.refl _) hne hpage his).mp h).1 (by decide)
  · have hr := sql_reads (fun _ => hordered) 0 1 (by decide) (by decide)
    have hapart := (hr.delivers_iff_apart (by decide) (fun _ => .refl _) (fun _ => rfl) 0).mp h
    exact absurd (hapart 1) (by decide)

end

end Ego.Projection

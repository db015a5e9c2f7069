import Ego.EventSource.Actor
import Ego.Projection.Rebuild

/-! # The order in which a pass hands over the events of one entity -/

namespace Ego.Projection
open Persistence Lib

section
variable (cfg : Config) (read : ℤ → ℕ → Except Err (List Event × ℤ))

def handedIn (p : Progress) : List Event := (doProcess cfg read p).1.handed.drop p.handed.length

def pageRead (p : Progress) : List Event :=
  match read (currentOffset cfg p).1 (bufferSize cfg) with
  | .error _ => []
  | .ok (events, _) => events

variable {cfg}

theorem processEvents_handed (nextOffset : ℤ) (events : List Event) (p : Progress) :
    ∃ k, (processEvents cfg nextOffset events p).1.handed = p.handed ++ events.take k := by
  induction events generalizing p with
  | nil => exact ⟨0, by simp [processEvents, commitOffset]⟩
  | cons e events ih =>
    unfold processEvents processEnvelope
    cases decodeEnvelope cfg e with
    | error err => exact ⟨0, by simp⟩
    | ok event =>
      dsimp only
      cases cfg.handleWithPolicy e.persistenceId event e.sequenceNumber with
      | error err => exact ⟨1, by simp⟩
      | ok u =>
        obtain ⟨k, hk⟩ := ih { p with handed := p.handed ++ [e] }
        exact ⟨k + 1, by simpa using hk⟩

theorem handedIn_eq_take (p : Progress) : ∃ k, handedIn cfg read p = (pageRead cfg read p).take k := by
  unfold handedIn doProcess pageRead
  have hkeep := @currentOffset_handed cfg p
  rw [← hkeep]
  generalize currentOffset cfg p = current
  obtain ⟨offset, q⟩ := current
  dsimp only
  match read offset (bufferSize cfg) with
  | .error err => exact ⟨0, by simp⟩
  | .ok ([], next) => exact ⟨0, by simp⟩
  | .ok (e :: events, next) =>
    obtain ⟨k, hk⟩ := @processEvents_handed cfg next (e :: events) q
    exact ⟨k, by simp [hk]⟩

theorem handedIn_of_processable (h : ∀ e, Processable cfg e) (p : Progress) :
    handedIn cfg read p = pageRead cfg read p := by
  unfold handedIn doProcess pageRead
  have hkeep := @currentOffset_handed cfg p
  rw [← hkeep]
  generalize currentOffset cfg p = current
  obtain ⟨offset, q⟩ := current
  dsimp only
  match read offset (bufferSize cfg) with
  | .error err => simp
  | .ok ([], next) => simp
  | .ok (e :: events, next) =>
    dsimp only
    rw [processEvents_of_processable fun e _ => h e]
    simp

end

theorem runnerFrom_processable (maxBufferSize : Int64) (startingOffset : ℤ) (e : Event) :
    Processable (runnerFrom maxBufferSize startingOffset) e :=
  ⟨e.event, by unfold decodeEnvelope; cases e.isEncrypted <;> rfl, rfl⟩

section
variable {κ : Type} (entity : Event → κ)

def MayPrecede (x y : Event) : Prop := entity x = entity y → x.sequenceNumber < y.sequenceNumber

def InEntityOrder (events : List Event) : Prop := events.Pairwise (MayPrecede entity)

instance [DecidableEq κ] : DecidableRel (MayPrecede entity) := fun x y =>
  inferInstanceAs (Decidable (entity x = entity y → x.sequenceNumber < y.sequenceNumber))

instance [DecidableEq κ] (events : List Event) : Decidable (InEntityOrder entity events) :=
  inferInstanceAs (Decidable (events.Pairwise (MayPrecede entity)))

/-- Of two events of one entity among those that fit into the page, the one ranged
over first has the smaller number if its timestamp is smaller, and the greater
number otherwise. -/
def MemoryOrderly (order : List EventLog) (shard limit : ℕ) (offset : ℤ) : Prop :=
  ((wanted order shard offset).take (Testkit.pageSize limit)).Pairwise
    (StableSort.Settled Event.timestamp (MayPrecede entity))

/-- Timestamps of an entity increase with its numbers as far as a page can reach,
and no page reaches two that are equal. -/
def SqlOrderly (rows : List Event) (shard limit : ℕ) (offset : ℤ) : Prop :=
  shard < 2 ^ 63 → limit < 2 ^ 63 → (wantedRows rows shard offset).Pairwise
    (Compatible Event.timestamp (MayPrecede entity) limit (wantedRows rows shard offset))

instance [DecidableEq κ] (order : List EventLog) (shard limit : ℕ) (offset : ℤ) :
    Decidable (MemoryOrderly entity order shard limit offset) :=
  inferInstanceAs (Decidable (List.Pairwise _ _))

instance [DecidableEq κ] (rows : List Event) (shard limit : ℕ) (offset : ℤ) :
    Decidable (SqlOrderly entity rows shard limit offset) :=
  inferInstanceAs (Decidable (_ → _ → List.Pairwise _ _))

theorem pass_iff_page (maxBufferSize : Int64) (offset : ℤ) (read : ℤ → ℕ → Except Err (List Event × ℤ)) :
    (∀ (cfg : Config) (p : Progress), cfg.maxBufferSize = maxBufferSize →
      (currentOffset cfg p).1 = offset → InEntityOrder entity (handedIn cfg read p)) ↔
      InEntityOrder entity (match read offset maxBufferSize.toUInt64.toNat with
        | .error _ => []
        | .ok (events, _) => events) := by
  constructor
  · intro h
    have hpass := h (runnerFrom maxBufferSize zeroInstant) ⟨some offset, none, []⟩ rfl rfl
    rwa [handedIn_of_processable read (runnerFrom_processable maxBufferSize zeroInstant)] at hpass
  · intro h cfg p hbuffer hoffset
    obtain ⟨k, hk⟩ := handedIn_eq_take read p
    subst hbuffer hoffset
    rw [InEntityOrder, hk]
    exact h.sublist (List.take_sublist k _)

theorem pageOf_fst (events : List Event) (offset : ℤ) (limit : ℕ) : (Testkit.pageOf events offset limit).1 =
      StableSort.sort (fun x y : Event => decide (x.timestamp ≤ y.timestamp))
        ((after Event.timestamp offset events).take (Testkit.pageSize limit)) := by
  have hcollect := Testkit.collectPage_eq offset limit events []
  unfold Testkit.pageOf
  rw [hcollect]
  dsimp only
  split
  · rename_i hnil
    exact (List.getLast?_eq_none_iff.mp hnil).symm
  · rfl

theorem memory_pass_iff (order : List EventLog) (shard : ℕ) (maxBufferSize : Int64) (offset : ℤ) :
    (∀ (cfg : Config) (p : Progress), cfg.maxBufferSize = maxBufferSize → (currentOffset cfg p).1 = offset →
      InEntityOrder entity (handedIn cfg (fun o limit => .ok (Testkit.getShardEvents order shard o limit)) p)) ↔
      MemoryOrderly entity order shard maxBufferSize.toUInt64.toNat offset := by
  rw [pass_iff_page entity maxBufferSize offset]
  dsimp only
  rw [Testkit.getShardEvents, InEntityOrder, pageOf_fst, StableSort.sort_pairwise_iff Event.timestamp]
  exact Iff.rfl

theorem sql_pass_iff (rows : List Event) (shard : ℕ) (maxBufferSize : Int64) (offset : ℤ) :
    (∀ ordered : List Event, Postgres.Ordered rows ordered →
      ∀ (cfg : Config) (p : Progress), cfg.maxBufferSize = maxBufferSize → (currentOffset cfg p).1 = offset →
      InEntityOrder entity (handedIn cfg (Postgres.getShardEvents ordered shard) p)) ↔
      SqlOrderly entity rows shard maxBufferSize.toUInt64.toNat offset := by
  simp only [pass_iff_page entity maxBufferSize offset, SqlOrderly]
  generalize maxBufferSize.toUInt64.toNat = limit
  by_cases hrange : shard < 2 ^ 63 ∧ limit < 2 ^ 63
  · obtain ⟨hs, hl⟩ := hrange
    rw [imp_iff_right hs, imp_iff_right hl, ← listings_pairwise_iff]
    constructor
    · intro h ys hys hsorted
      -- the listing of the wanted rows is part of one of all rows
      rw [wantedRows, ← Postgres.filter_query_eq_after] at hys
      obtain ⟨ordered, hperm, hby, hfilter⟩ := exists_listing_filter _ hys hsorted
      obtain ⟨next, hpage, -⟩ := Postgres.getShardEvents_eq ordered hs hl offset
      have hordered := h ordered ⟨hperm, hby⟩
      rw [hpage, ← Postgres.filter_query_eq_after, hfilter] at hordered
      exact hordered
    · intro h ordered ho
      obtain ⟨next, hpage, -⟩ := Postgres.getShardEvents_eq ordered hs hl offset
      rw [hpage]
      exact h _ (after_perm Event.timestamp (ho.1.filter _) offset) ((ho.2.filter _).filter _)
  · constructor
    · exact fun _ hs hl => absurd ⟨hs, hl⟩ hrange
    · intro _ ordered _
      obtain ⟨err, herr⟩ := Postgres.getShardEvents_out_of_range ordered offset hrange
      rw [herr]
      exact List.Pairwise.nil

/-- Whatever the runner and its progress are, a pass that reads from `offset` hands
over the events of each entity in the order of their numbers, exactly if the
journal is orderly; for the PostgreSQL store in every order the query allows. -/
theorem pass_in_entity_order_iff (order : List EventLog) (rows : List Event) (shard : UInt64)
    (maxBufferSize : Int64) (offset : ℤ) :
    ((∀ (cfg : Config) (p : Progress), cfg.maxBufferSize = maxBufferSize → (currentOffset cfg p).1 = offset →
        InEntityOrder entity (handedIn cfg (fun o limit => .ok (Testkit.getShardEvents order shard.toNat o limit))
          p)) ↔
      MemoryOrderly entity order shard.toNat maxBufferSize.toUInt64.toNat offset) ∧
    ((∀ ordered : List Event, Postgres.Ordered rows ordered →
        ∀ (cfg : Config) (p : Progress), cfg.maxBufferSize = maxBufferSize → (currentOffset cfg p).1 = offset →
        InEntityOrder entity (handedIn cfg (Postgres.getShardEvents ordered shard.toNat) p)) ↔
      SqlOrderly entity rows shard.toNat maxBufferSize.toUInt64.toNat offset) :=
  ⟨memory_pass_iff entity order shard.toNat maxBufferSize offset,
    sql_pass_iff entity rows shard.toNat maxBufferSize offset⟩

end

section
open Enginetest EventSource

def twoOfOneCommand : List Event := [credited "account" 1 1, credited "account" 2 1]

def twoOfOneCommandLog : EventLog := ⟨2, twoOfOneCommand, by decide, by decide⟩

/-- A command handled at time 1 that credits the account twice: the in-memory store
hands over the second credit first, and the PostgreSQL store may. -/
theorem second_credit_first :
    (buildEnvelopes (accountConfig 0) .unset 1 [.accountCredited 1, .accountCredited 1] 0 0).map
      (·.1) = .ok twoOfOneCommand ∧ ¬ InEntityOrder Event.persistenceId (handedIn (runnerFrom 500 zeroInstant)
      (fun o limit => .ok (Testkit.getShardEvents [twoOfOneCommandLog] 0 o limit)) ⟨none, none, []⟩) ∧
    Postgres.Ordered twoOfOneCommand twoOfOneCommand.reverse ∧
    ¬ InEntityOrder Event.persistenceId (handedIn (runnerFrom 500 zeroInstant)
      (Postgres.getShardEvents twoOfOneCommand.reverse 0) ⟨none, none, []⟩) :=
  ⟨by decide, by decide, ⟨twoOfOneCommand.reverse_perm, by decide⟩, by decide⟩

end

end Ego.Projection

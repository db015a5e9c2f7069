import Ego.Lib.Coverage
import Ego.Postgres.OffsetStore
import Ego.Projection.Runner
import Ego.Projection.ShardPages

/-!
# Projections that start from an instant (`engine/projections.go:168-210`)

An instant is turned into milliseconds, while events carry nanoseconds.
-/

namespace Ego.Projection
open Persistence Lib

structure Runner where
  running : Bool
  shards : ℕ → Progress

section
variable (cfg : Config)

def stopsOn : Option Failure → Bool
  | some (.event _) => true
  | _ => false

def passShard (latest : Option ℤ) (read : ℤ → ℕ → Except Err (List Event × ℤ)) (p : Progress) :
    Progress × Option Failure :=
  if pending cfg p latest then doProcess cfg read p else (p, none)

def runPass (keys : List ℕ) (latest : ℕ → Option ℤ)
    (read : ℕ → ℤ → ℕ → Except Err (List Event × ℤ))
    (r : Runner) : Runner :=
  if r.running then
    { running := !keys.any fun shard => stopsOn (passShard cfg (latest shard) (read shard) (r.shards shard)).2
      shards := fun shard => (passShard cfg (latest shard) (read shard) (r.shards shard)).1 }
  else r

def sqlPass (table : Postgres.EventsTable) (ordered : ℕ → ℕ → List Event) (i : ℕ) : Runner → Runner :=
  runPass cfg (table.rows.map (·.shard)) (Postgres.shardOffset table.rows)
    fun shard => Postgres.getShardEvents (ordered i shard) shard

def preStart (name : String) (offsets : Postgres.OffsetTable) : Postgres.OffsetTable :=
  if cfg.resetOffsetTo ≠ zeroInstant then offsets.resetOffset name (unixMilli cfg.resetOffsetTo) else offsets

def startProjection (name : String) (offsets : Postgres.OffsetTable) : Runner where
  running := true
  shards := fun shard => ⟨none, ((preStart cfg name offsets).getCurrentOffset name shard).map (·.value), []⟩

def rebuildProjection (name : String) (offsets : Postgres.OffsetTable) (start : ℤ) : Runner :=
  startProjection cfg name (offsets.resetOffset name (unixMilli start))

def afterPasses (table : Postgres.EventsTable) (ordered : ℕ → ℕ → List Event) (r : Runner) (n : ℕ) : Runner :=
  steps (sqlPass cfg table ordered) n 0 r

def readsFrom (r : Runner) (shard : ℕ) : ℤ := (currentOffset cfg (r.shards shard)).1

/-- The passes hand over every event later than `start`, as often as it is stored,
and none that is earlier; and while an event after its offset has not been handed
over, a pass moves the offset on. -/
structure Reprocesses (rows : List Event) (start : ℤ) (states : ℕ → Runner) : Prop where
  later : ∀ e ∈ rows, start < e.timestamp → ∃ n, rows.count e ≤ ((states n).shards e.shard).handed.count e
  earlier : ∀ n shard, ∀ e ∈ ((states n).shards shard).handed, start ≤ e.timestamp
  advances : ∀ n shard, (∃ e ∈ rows, e.shard = shard ∧ readsFrom cfg (states n) shard < e.timestamp ∧
      ((states (n + 1)).shards shard).handed.count e < rows.count e) →
    readsFrom cfg (states n) shard < readsFrom cfg (states (n + 1)) shard

end

def shardRows (rows : List Event) (shard : ℕ) : List Event := rows.filter fun row => row.shard = shard

/-- Every event later than `start` is after the offset `o`. Either nothing is after
`o`; or no event after `o` is earlier than `start`, and the pages of `size` events
cut the later ones where the timestamps increase, the first of them after the room
that the events at `start` leave. -/
def AdvancingFits (rows : List Event) (shard size : ℕ) (o start : ℤ) : Prop :=
  (∀ e ∈ shardRows rows shard, start < e.timestamp → o < e.timestamp) ∧
  ((∀ e ∈ shardRows rows shard, e.timestamp ≤ o) ∨
      0 < size ∧ (∀ e ∈ shardRows rows shard, o < e.timestamp → start ≤ e.timestamp) ∧
        let keys := ((wantedRows rows shard (max o start)).map (·.timestamp)).insertionSort (· ≤ ·)
        let room := size - ((wantedRows rows shard o).filter fun e => e.timestamp ≤ max o start).length
        Separated room keys ∧ Apart size (keys.drop room))

/-- The events later than `start` are those after the offset `o`, except for events
at `start` itself, and all of these fit into one buffer. -/
def FixedFits (rows : List Event) (shard size : ℕ) (o start : ℤ) : Prop :=
  (∀ e ∈ shardRows rows shard, start < e.timestamp → o < e.timestamp) ∧
    (∀ e ∈ shardRows rows shard, o < e.timestamp → start ≤ e.timestamp) ∧
    (wantedRows rows shard o).length ≤ size

def rebuiltOffset (cfg : Config) (stored : Option Postgres.Offset) (start : ℤ) : ℤ :=
  match stored with
  | none => 0
  | some _ => unixMilli (if cfg.resetOffsetTo ≠ zeroInstant then cfg.resetOffsetTo else start)

def Processable (cfg : Config) (e : Event) : Prop :=
  ∃ event, decodeEnvelope cfg e = .ok event ∧ cfg.handleWithPolicy e.persistenceId event e.sequenceNumber = .ok ()

/-! ### A reader that goes on from its last page -/

section
variable {m : ℕ} {listing : ℕ → List Event} {page : ℕ → ℤ → Option (List Event × ℤ)}
    {table : List Event}

theorem count_le_iff_subperm {read : List Event} (start : ℤ) :
    (∀ e ∈ table, start < e.timestamp → table.count e ≤ read.count e) ↔
      (after (·.timestamp) start table).Subperm read := by
  have hcount {e : Event} (hlt : start < e.timestamp) :
      (after (·.timestamp) start table).count e = table.count e :=
    List.count_filter (by simpa using hlt)
  rw [List.subperm_ext_iff]
  refine forall_congr' fun e => ⟨fun h he => ?_, fun h he hlt => ?_⟩
  · obtain ⟨hmem, hlt⟩ := mem_after.mp he
    rw [hcount hlt]
    exact h hmem hlt
  · rw [← hcount hlt]
    exact h (mem_after.mpr ⟨he, hlt⟩)

section
variable (hr : Reads (·.timestamp) m listing page)
include hr

theorem handed_iff_drained (hl : ∀ i, (listing i).Perm table)
    {o start : ℤ} {fuel : ℕ} {read : List Event} (h : drain page fuel 0 o = some read) :
    (∀ e ∈ table, start < e.timestamp →
      ∃ n, table.count e ≤ (steps (readStep page) n 0 (o, [])).2.count e) ∧
      (∀ n, ∀ e ∈ (steps (readStep page) n 0 (o, [])).2, start ≤ e.timestamp) ↔
    (after (·.timestamp) start table).Subperm read ∧ ∀ e ∈ read, start ≤ e.timestamp := by
  have hall := hr.steps_of_drain_all hl h []
  rw [← count_le_iff_subperm]
  refine and_congr (forall₃_congr fun e _ _ => ?_) ?_
  · constructor
    · rintro ⟨n, hn⟩
      obtain ⟨part, hpart, hpre⟩ := hr.steps_of_drain hl h n []
      rw [hpart, List.nil_append] at hn
      exact Nat.le_trans hn (hpre.sublist.count_le e)
    · intro hcount
      exact ⟨fuel, by rwa [hall]⟩
  · constructor
    · intro hn e he
      exact hn fuel e (by rwa [hall])
    · intro hread n e he
      obtain ⟨part, hpart, hpre⟩ := hr.steps_of_drain hl h n []
      rw [hpart, List.nil_append] at he
      exact hread e (hpre.subset he)

theorem exists_earliest_read (hm : 0 < m) (hl : ∀ i, (listing i).Perm table)
    (hs : ∀ i, (listing i).Pairwise fun x y : Event => x.timestamp ≤ y.timestamp)
    {o : ℤ} {fuel : ℕ} {read : List Event} (h : drain page fuel 0 o = some read) {e : Event}
    (he : e ∈ table) (hlt : o < e.timestamp) : ∃ x ∈ read, x.timestamp ≤ e.timestamp := by
  obtain ⟨xs, next, hpage, his⟩ := hr 0 o
  have hmem : e ∈ after (·.timestamp) o (listing 0) := mem_after.mpr ⟨(hl 0).mem_iff.mpr he, hlt⟩
  obtain ⟨x, rest, hrest⟩ := List.exists_cons_of_ne_nil (List.ne_nil_of_mem hmem)
  have hsorted : (after (·.timestamp) o (listing 0)).Pairwise
      fun x y : Event => x.timestamp ≤ y.timestamp := (hs 0).filter _
  have hx : x ∈ xs := by
    refine his.perm.mem_iff.mpr ?_
    obtain ⟨k, rfl⟩ := Nat.exists_eq_succ_of_ne_zero (Nat.pos_iff_ne_zero.mp hm)
    simp [hrest]
  have hle : x.timestamp ≤ e.timestamp := by
    rw [hrest] at hmem hsorted
    rcases List.mem_cons.mp hmem with rfl | hmem
    · exact Int.le_refl _
    · exact (List.pairwise_cons.mp hsorted).1 e hmem
  cases fuel with
  | zero => simp [drain] at h
  | succ fuel =>
    rw [drain_cons (List.ne_nil_of_mem hx) hpage, Option.map_eq_some_iff] at h
    obtain ⟨later, -, rfl⟩ := h
    exact ⟨x, List.mem_append_left _ hx, hle⟩

theorem lt_readStep (hm : 0 < m)
    (hl : ∀ i, (listing i).Perm table) (i : ℕ) (r : ℤ × List Event) {e : Event} (he : e ∈ table)
    (hlt : r.1 < e.timestamp) : r.1 < (readStep page i r).1 := by
  obtain ⟨xs, next, hpage, his⟩ := hr i r.1
  have hmem : e ∈ after (·.timestamp) r.1 (listing i) := mem_after.mpr ⟨(hl i).mem_iff.mpr he, hlt⟩
  have hne : xs ≠ [] := by
    rintro rfl
    rcases List.take_eq_nil_iff.mp his.perm.symm.eq_nil with hzero | hnil
    · omega
    · simp [hnil] at hmem
  obtain ⟨y, hy, hnext⟩ := his.next_mem hne
  have hstep : readStep page i r = (next, r.2 ++ xs) := readStep_cons hne hpage
  rw [hstep]
  exact hnext ▸ (mem_after.mp hy).2

theorem handed_iff_fits (hm : 0 < m)
    {rows : List Event} {shard : ℕ} (hl : ∀ i, (listing i).Perm (shardRows rows shard))
    (hs : ∀ i, (listing i).Pairwise fun x y : Event => x.timestamp ≤ y.timestamp)
    (hk : ∀ t i, (after (·.timestamp) t (listing i)).map (·.timestamp) =
      ((wantedRows rows shard t).map (·.timestamp)).insertionSort (· ≤ ·)) (o start : ℤ) :
    (∀ e ∈ shardRows rows shard, start < e.timestamp →
        ∃ n, (shardRows rows shard).count e ≤ (steps (readStep page) n 0 (o, [])).2.count e) ∧
      (∀ n, ∀ e ∈ (steps (readStep page) n 0 (o, [])).2, start ≤ e.timestamp) ↔
        AdvancingFits rows shard m o start := by
  obtain ⟨fuel, read, hdrain⟩ := hr.exists_drain hl 0 o
  obtain ⟨hsub, -⟩ := hr.drain_subperm hl hdrain
  have hafter {e : Event} (he : e ∈ read) : o < e.timestamp := hr.drain_after hdrain e he
  rw [handed_iff_drained hr hl hdrain]
  -- later events are after the offset, or there is one that is never read
  have hfirst (h : (after (·.timestamp) start (shardRows rows shard)).Subperm read) :
      ∀ e ∈ shardRows rows shard, start < e.timestamp → o < e.timestamp :=
    fun e he hlt => hafter (h.subset (mem_after.mpr ⟨he, hlt⟩))
  have hmax (h : ∀ e ∈ shardRows rows shard, start < e.timestamp → o < e.timestamp) :
      after (·.timestamp) start (shardRows rows shard) =
        after (·.timestamp) (max o start) (shardRows rows shard) := by
    apply List.filter_congr
    intro e he
    have := h e he
    simp only [decide_eq_decide]
    omega
  have hpages (hgap : ∀ e ∈ shardRows rows shard, o < e.timestamp → start ≤ e.timestamp) :=
    hr.subperm_iff_apart hm hl hs (t := max o start) (by omega)
      (fun e he hlt => by have := hgap e he hlt; omega) (hk (max o start)) hdrain
  constructor
  · rintro ⟨hall, hread⟩
    refine ⟨hfirst hall, .inr ⟨hm, ?_, ?_⟩⟩
    · intro e he hlt
      obtain ⟨x, hx, hle⟩ := exists_earliest_read hr hm hl hs hdrain he hlt
      exact Int.le_trans (hread x hx) hle
    · rw [hmax (hfirst hall)] at hall
      refine (hpages fun e he hlt => ?_).mp hall
      obtain ⟨x, hx, hle⟩ := exists_earliest_read hr hm hl hs hdrain he hlt
      exact Int.le_trans (hread x hx) hle
  · rintro ⟨hlater, hempty | ⟨-, hgap, hfits⟩⟩
    · have hnone : after (·.timestamp) o (shardRows rows shard) = [] := by
        rw [after, List.filter_eq_nil_iff]
        intro e he
        have := hempty e he
        simpa using this
      rw [hnone, List.subperm_nil] at hsub
      subst hsub
      have hnil : after (·.timestamp) start (shardRows rows shard) = [] := by
        rw [after, List.filter_eq_nil_iff]
        intro e he
        have h1 := hempty e he
        have h2 := hlater e he
        simp only [decide_eq_true_eq]
        omega
      rw [hnil]
      exact ⟨List.nil_subperm, by simp⟩
    · refine ⟨?_, fun e he => ?_⟩
      · rw [hmax hlater]
        exact (hpages hgap).mpr hfits
      · exact hgap e (mem_after.mp (hsub.subset he)).1 (hafter he)

end

end

/-! ### The passes over one shard -/

section
variable {cfg : Config} {table : Postgres.EventsTable} {ordered : ℕ → ℕ → List Event}

theorem processEvents_of_processable {events : List Event} (h : ∀ e ∈ events, Processable cfg e)
    (nextOffset : ℤ) (p : Progress) : processEvents cfg nextOffset events p =
      (⟨some nextOffset, some nextOffset, p.handed ++ events⟩, none) := by
  induction events generalizing p with
  | nil => simp [processEvents, commitOffset]
  | cons e events ih =>
    obtain ⟨⟨event, hdecode, hhandle⟩, hrest⟩ := List.forall_mem_cons.mp h
    have hone : processEnvelope cfg e p = ({ p with handed := p.handed ++ [e] }, none) := by
      simp only [processEnvelope, hdecode, hhandle]
    simp only [processEvents, hone, ih hrest, List.append_assoc, List.singleton_append]

theorem currentOffset_handed (p : Progress) : (currentOffset cfg p).2.handed = p.handed := by
  unfold currentOffset
  split <;> rfl

theorem currentOffset_cached (p : Progress) :
    (currentOffset cfg (currentOffset cfg p).2).1 = (currentOffset cfg p).1 := by
  unfold currentOffset
  split <;> simp [*]

def shardPage (cfg : Config) (ordered : ℕ → ℕ → List Event) (shard : ℕ) : ℕ → ℤ →
    Option (List Event × ℤ) :=
  sqlPage (fun i => ordered i shard) shard (bufferSize cfg)

section
variable (ho : ∀ i shard, Postgres.Ordered table.rows (ordered i shard))
include ho

theorem mem_rows_of_read {i shard : ℕ}
    {o next : ℤ} {xs : List Event} {limit : ℕ}
    (h : Postgres.getShardEvents (ordered i shard) shard o limit = .ok (xs, next)) :
    ∀ e ∈ xs, e ∈ table.rows := by
  by_cases hrange : shard < 2 ^ 63 ∧ limit < 2 ^ 63
  · obtain ⟨ys, next', heq, his⟩ := Postgres.getShardEvents_isPage (ho i shard) hrange.1 hrange.2 o
    rw [h] at heq
    cases heq
    intro e he
    have hmem := (mem_after.mp (List.mem_of_mem_take (his.perm.mem_iff.mp he))).1
    exact (ho i shard).1.mem_iff.mp (List.mem_filter.mp hmem).1
  · obtain ⟨err, herr⟩ := Postgres.getShardEvents_out_of_range (ordered i shard) o hrange
    simp [h] at herr

theorem shardPage_of_take {i shard : ℕ} {o : ℤ}
    (h : bufferSize cfg < 2 ^ 63 → (after (·.timestamp) o ((ordered i shard).filter fun row =>
      row.shard = shard)).take (bufferSize cfg) = []) :
    shardPage cfg ordered shard i o = none ∨ ∃ next, shardPage cfg ordered shard i o = some ([], next) := by
  unfold shardPage sqlPage
  by_cases hrange : shard < 2 ^ 63 ∧ bufferSize cfg < 2 ^ 63
  · obtain ⟨xs, next, heq, his⟩ := Postgres.getShardEvents_isPage (ho i shard) hrange.1 hrange.2 o
    have hperm := his.perm
    rw [h hrange.2] at hperm
    rw [heq, hperm.eq_nil]
    exact .inr ⟨next, rfl⟩
  · obtain ⟨err, herr⟩ := Postgres.getShardEvents_out_of_range (ordered i shard) o hrange
    rw [herr]
    exact .inl rfl

theorem shardPage_nil {i shard : ℕ}
    {o : ℤ} (h : ∀ e ∈ shardRows table.rows shard, e.timestamp ≤ o) :
    shardPage cfg ordered shard i o = none ∨ ∃ next, shardPage cfg ordered shard i o = some ([], next) := by
  refine shardPage_of_take ho fun _ => ?_
  rw [after, List.filter_eq_nil_iff.mpr fun e he => ?_, List.take_nil]
  simpa using h e (((ho i shard).1.filter _).mem_iff.mp he)

end

theorem le_currentOffset_of_not_pending {p : Progress} {shard : ℕ}
    (h : pending cfg p (Postgres.shardOffset table.rows shard) = false) :
    ∀ e ∈ shardRows table.rows shard, e.timestamp ≤ (currentOffset cfg p).1 := by
  intro e he
  obtain ⟨hmem, hshard⟩ := List.mem_filter.mp he
  obtain ⟨latest, hlatest, hle⟩ := Postgres.le_shardOffset hmem (of_decide_eq_true hshard)
  refine Int.le_trans hle ?_
  unfold pending at h
  unfold currentOffset
  rw [hlatest] at h
  by_cases h0 : cfg.startingOffset = zeroInstant
  · simp only [h0, ne_eq, not_true_eq_false, if_false] at h ⊢
    cases hc : p.committed with
    | none => simp [hc] at h
    | some committed => simpa [hc] using h
  · simpa [h0] using h

theorem passShard_cases (ho : ∀ i shard, Postgres.Ordered table.rows (ordered i shard))
    (hok : ∀ e ∈ table.rows, Processable cfg e) (i shard : ℕ) (p : Progress) :
    let result := passShard cfg (Postgres.shardOffset table.rows shard)
      (Postgres.getShardEvents (ordered i shard) shard) p
    stopsOn result.2 = false ∧ (((shardPage cfg ordered shard i (currentOffset cfg p).1 = none ∨
          ∃ next, shardPage cfg ordered shard i (currentOffset cfg p).1 = some ([], next)) ∧
        result.1.handed = p.handed ∧ (currentOffset cfg result.1).1 = (currentOffset cfg p).1) ∨
      ∃ xs next, shardPage cfg ordered shard i (currentOffset cfg p).1 = some (xs, next) ∧ xs ≠ [] ∧
        result.1 = ⟨some next, some next, p.handed ++ xs⟩) := by
  intro result
  by_cases hpending : pending cfg p (Postgres.shardOffset table.rows shard) = true
  · have hresult : result = doProcess cfg (Postgres.getShardEvents (ordered i shard) shard) p :=
      if_pos hpending
    have hpage : shardPage cfg ordered shard i (currentOffset cfg p).1 =
        (Postgres.getShardEvents (ordered i shard) shard (currentOffset cfg p).1 (bufferSize cfg)).toOption :=
      rfl
    rw [hresult, hpage]
    simp only [doProcess]
    split
    · rename_i err herr
      rw [herr]
      exact ⟨rfl, .inl ⟨.inl rfl, currentOffset_handed p, currentOffset_cached p⟩⟩
    · rename_i next hnil
      rw [hnil]
      exact ⟨rfl, .inl ⟨.inr ⟨next, rfl⟩, currentOffset_handed p, currentOffset_cached p⟩⟩
    · rename_i xs next hne hxs
      rw [processEvents_of_processable fun e he => hok e (mem_rows_of_read ho hxs e he), hxs, currentOffset_handed]
      exact ⟨rfl, .inr ⟨xs, next, rfl, hne, rfl⟩⟩
  · rw [Bool.not_eq_true] at hpending
    have hresult : result = (p, none) := if_neg (by simp [hpending])
    rw [hresult]
    exact ⟨rfl, .inl ⟨shardPage_nil ho (le_currentOffset_of_not_pending hpending), rfl, rfl⟩⟩

def shardPass (cfg : Config) (table : Postgres.EventsTable) (ordered : ℕ → ℕ → List Event) (shard i : ℕ)
    (p : Progress) : Progress :=
  (passShard cfg (Postgres.shardOffset table.rows shard)
    (Postgres.getShardEvents (ordered i shard) shard) p).1

section
variable (ho : ∀ i shard, Postgres.Ordered table.rows (ordered i shard))
include ho

section
variable (hok : ∀ e ∈ table.rows, Processable cfg e)
include hok

theorem afterPasses_shards {r : Runner} (hr : r.running = true) (n : ℕ) :
    (afterPasses cfg table ordered r n).running = true ∧ ∀ shard, (afterPasses cfg table ordered r n).shards shard =
        steps (shardPass cfg table ordered shard) n 0 (r.shards shard) := by
  induction n with
  | zero => exact ⟨hr, fun _ => rfl⟩
  | succ n ih =>
    obtain ⟨hrun, hshards⟩ := ih
    have hstep : afterPasses cfg table ordered r (n + 1) =
        sqlPass cfg table ordered n (afterPasses cfg table ordered r n) := by
      rw [afterPasses, steps_succ, Nat.zero_add]
      rfl
    rw [hstep, sqlPass, runPass, if_pos hrun]
    constructor
    · have hnone : ∀ shard, stopsOn (passShard cfg (Postgres.shardOffset table.rows shard)
          (Postgres.getShardEvents (ordered n shard) shard)
          ((afterPasses cfg table ordered r n).shards shard)).2 = false :=
        fun shard => (passShard_cases ho hok n shard _).1
      simp [hnone]
    · intro shard
      rw [steps_succ, Nat.zero_add, ← hshards shard]
      rfl

theorem shardPass_readStep (h0 : cfg.startingOffset = zeroInstant)
    (shard n : ℕ) (p : Progress) : ((currentOffset cfg (steps (shardPass cfg table ordered shard) n 0 p)).1,
      (steps (shardPass cfg table ordered shard) n 0 p).handed) =
      steps (readStep (shardPage cfg ordered shard)) n 0 ((currentOffset cfg p).1, p.handed) := by
  induction n with
  | zero => rfl
  | succ n ih =>
    rw [steps_succ, steps_succ, Nat.zero_add, ← ih]
    generalize steps (shardPass cfg table ordered shard) n 0 p = q
    obtain ⟨-, ⟨hnone | ⟨next, hnil⟩, hhanded, hoffset⟩ | ⟨xs, next, hxs, hne, hresult⟩⟩ :=
      passShard_cases ho hok n shard q
    · simp only [readStep, hnone, shardPass, hhanded, hoffset]
    · rw [readStep_nil hnil, shardPass, hhanded, hoffset]
    · rw [readStep_cons hne hxs, shardPass, hresult, currentOffset_of_zero h0]
      rfl

theorem shardPass_fixed (h0 : cfg.startingOffset ≠ zeroInstant)
    (shard n : ℕ) (p : Progress) : (steps (shardPass cfg table ordered shard) (n + 1) 0 p).handed =
      (steps (shardPass cfg table ordered shard) n 0 p).handed ++
        ((shardPage cfg ordered shard n (unixMilli cfg.startingOffset)).map (·.1)).getD [] := by
  rw [steps_succ, Nat.zero_add]
  generalize steps (shardPass cfg table ordered shard) n 0 p = q
  have hoff : (currentOffset cfg q).1 = unixMilli cfg.startingOffset := by
    simp [currentOffset, h0]
  have hcases := passShard_cases ho hok n shard q
  rw [hoff] at hcases
  obtain ⟨-, ⟨hnone | ⟨next, hnil⟩, hhanded, -⟩ | ⟨xs, next, hxs, hne, hresult⟩⟩ := hcases
  · rw [hnone, shardPass, hhanded]
    simp
  · rw [hnil, shardPass, hhanded]
    simp
  · rw [hxs, shardPass, hresult]
    rfl

end

end

structure ReprocessesShard (cfg : Config) (rows : List Event) (start : ℤ) (states : ℕ → Progress) : Prop where
  later : ∀ e ∈ rows, start < e.timestamp → ∃ n, rows.count e ≤ (states n).handed.count e
  earlier : ∀ n, ∀ e ∈ (states n).handed, start ≤ e.timestamp
  advances : ∀ n, (∃ e ∈ rows, (currentOffset cfg (states n)).1 < e.timestamp ∧
      (states (n + 1)).handed.count e < rows.count e) →
    (currentOffset cfg (states n)).1 < (currentOffset cfg (states (n + 1))).1

theorem reprocesses_iff_shards {rows : List Event} {start : ℤ} {states : ℕ → Runner} :
    Reprocesses cfg rows start states ↔
      ∀ shard, ReprocessesShard cfg (shardRows rows shard) start fun n => (states n).shards shard := by
  have hcount {shard : ℕ} {e : Event} (hs : e.shard = shard) :
      (shardRows rows shard).count e = rows.count e := List.count_filter (by simpa using hs)
  have hmem {shard : ℕ} {e : Event} : e ∈ shardRows rows shard ↔ e ∈ rows ∧ e.shard = shard := by
    simp [shardRows]
  constructor
  · intro h shard
    refine ⟨fun e he hlt => ?_, fun n => h.earlier n shard, fun n hex => ?_⟩
    · obtain ⟨hrow, rfl⟩ := hmem.mp he
      rw [hcount rfl]
      exact h.later e hrow hlt
    · obtain ⟨e, he, hlt, hc⟩ := hex
      obtain ⟨hrow, hs⟩ := hmem.mp he
      rw [hcount hs] at hc
      exact h.advances n shard ⟨e, hrow, hs, hlt, hc⟩
  · intro h
    refine ⟨fun e he hlt => ?_, fun n shard => (h shard).earlier n, fun n shard hex => ?_⟩
    · have := (h e.shard).later e (hmem.mpr ⟨he, rfl⟩) hlt
      rwa [hcount rfl] at this
    · obtain ⟨e, he, hs, hlt, hc⟩ := hex
      rw [← hcount hs] at hc
      exact (h shard).advances n ⟨e, hmem.mpr ⟨he, hs⟩, hlt, hc⟩

def size (cfg : Config) : ℕ := cfg.maxBufferSize.toNatClampNeg

theorem toInt_maxBufferSize : cfg.maxBufferSize.toInt =
    if 2 * bufferSize cfg < 2 ^ 64 then (bufferSize cfg : ℤ) else bufferSize cfg - 2 ^ 64 := by
  have h := BitVec.toInt_eq_toNat_cond cfg.maxBufferSize.toBitVec
  exact_mod_cast h

theorem bufferSize_eq_size (h : bufferSize cfg < 2 ^ 63) : bufferSize cfg = size cfg := by
  have hint := @toInt_maxBufferSize cfg
  rw [if_pos (by omega)] at hint
  rw [size, Int64.toNatClampNeg, hint]
  rfl

theorem bufferSize_lt_of_pos (h : 0 < size cfg) : bufferSize cfg < 2 ^ 63 := by
  by_contra hge
  have hint := @toInt_maxBufferSize cfg
  have hlt : bufferSize cfg < 2 ^ 64 := UInt64.toNat_lt _
  have hzero : size cfg = 0 := by
    rw [size, Int64.toNatClampNeg, hint]
    omega
  omega

theorem shardPage_of_size_zero (ho : ∀ i shard, Postgres.Ordered table.rows (ordered i shard))
    (h : size cfg = 0) (shard i : ℕ) (o : ℤ) :
    shardPage cfg ordered shard i o = none ∨ ∃ next, shardPage cfg ordered shard i o = some ([], next) :=
  shardPage_of_take ho fun hlt => by rw [bufferSize_eq_size hlt, h, List.take_zero]

theorem steps_of_silent {page : ℕ → ℤ → Option (List Event × ℤ)} {o : ℤ}
    (h : ∀ i, page i o = none ∨ ∃ next, page i o = some ([], next)) (n : ℕ) (read : List Event) :
    steps (readStep page) n 0 (o, read) = (o, read) := by
  induction n with
  | zero => rfl
  | succ n ih =>
    rw [steps_succ, ih, Nat.zero_add]
    rcases h n with hnone | ⟨next, hnil⟩
    · simp only [readStep, hnone]
    · exact readStep_nil hnil

theorem shardPage_reads (ho : ∀ i shard, Postgres.Ordered table.rows (ordered i shard)) (h : 0 < size cfg)
    {shard : ℕ} (hs : shard < 2 ^ 63) :
    Reads (·.timestamp) (size cfg) (fun i => (ordered i shard).filter fun row => row.shard = shard)
      (shardPage cfg ordered shard) := by
  have hlt := bufferSize_lt_of_pos h
  rw [← bufferSize_eq_size hlt]
  exact sql_reads (fun i => ho i shard) shard (bufferSize cfg) hs hlt

theorem shard_lt {shard : ℕ} (h : shardRows table.rows shard ≠ []) : shard < 2 ^ 63 := by
  obtain ⟨e, he⟩ := List.exists_mem_of_ne_nil _ h
  obtain ⟨hmem, hs⟩ := List.mem_filter.mp he
  exact of_decide_eq_true hs ▸ table.shard_fits e hmem

section
variable (ho : ∀ i shard, Postgres.Ordered table.rows (ordered i shard))
include ho

theorem advancing_iff
    (hok : ∀ e ∈ table.rows, Processable cfg e) (h0 : cfg.startingOffset = zeroInstant) (shard : ℕ)
    {p : Progress} (hp : p.handed = []) (start : ℤ) : ReprocessesShard cfg (shardRows table.rows shard) start
        (fun n => steps (shardPass cfg table ordered shard) n 0 p) ↔
      AdvancingFits table.rows shard (size cfg) (currentOffset cfg p).1 start := by
  have hread := fun n => shardPass_readStep ho hok h0 shard n p
  rw [hp] at hread
  have hoffset := fun n => congrArg Prod.fst (hread n)
  have hhanded := fun n => congrArg Prod.snd (hread n)
  dsimp only at hoffset hhanded
  generalize (currentOffset cfg p).1 = o at hoffset hhanded ⊢
  by_cases hsilent : size cfg = 0 ∨ shardRows table.rows shard = []
  · have hnil : ∀ i, shardPage cfg ordered shard i o = none ∨
        ∃ next, shardPage cfg ordered shard i o = some ([], next) := by
      intro i
      rcases hsilent with hzero | hrows
      · exact shardPage_of_size_zero ho hzero shard i o
      · exact shardPage_nil ho (by simp [hrows])
    simp only [steps_of_silent hnil] at hoffset hhanded
    constructor
    · intro h
      have hle : ∀ e ∈ shardRows table.rows shard, e.timestamp ≤ o := by
        intro e he
        by_contra hlt
        have hadv := h.advances 0 ⟨e, he, by rw [hoffset]; omega, by
          rw [hhanded, List.count_nil]
          exact List.count_pos_iff.mpr he⟩
        rw [hoffset, hoffset] at hadv
        omega
      refine ⟨fun e he hlt => ?_, .inl hle⟩
      obtain ⟨n, hn⟩ := h.later e he hlt
      rw [hhanded, List.count_nil] at hn
      have hpos := List.count_pos_iff.mpr he
      omega
    · rintro ⟨hlater, hfits⟩
      have hle : ∀ e ∈ shardRows table.rows shard, e.timestamp ≤ o := by
        rcases hfits with hle | ⟨hpos, -⟩
        · exact hle
        · rcases hsilent with hzero | hrows
          · omega
          · simp [hrows]
      refine ⟨fun e he hlt => ?_, fun n e he => ?_, fun n hex => ?_⟩
      · have h1 := hlater e he hlt
        have h2 := hle e he
        omega
      · simp [hhanded] at he
      · obtain ⟨e, he, hlt, -⟩ := hex
        rw [hoffset] at hlt
        have := hle e he
        omega
  · obtain ⟨hsize, hrows⟩ := not_or.mp hsilent
    have hpos : 0 < size cfg := Nat.pos_of_ne_zero hsize
    have hr := shardPage_reads ho hpos (shard_lt hrows)
    have hl : ∀ i, ((ordered i shard).filter fun row => row.shard = shard).Perm
        (shardRows table.rows shard) := fun i => (ho i shard).1.filter _
    rw [← handed_iff_fits hr hpos hl (fun i => (ho i shard).2.filter _)
      (fun t i => ordered_keys (ho i shard) shard t) o start]
    constructor
    · intro h
      exact ⟨fun e he hlt => by simpa only [hhanded] using h.later e he hlt,
        fun n e he => h.earlier n e (by rwa [hhanded])⟩
    · rintro ⟨hlater, hearlier⟩
      refine ⟨fun e he hlt => by simpa only [hhanded] using hlater e he hlt,
        fun n e he => hearlier n e (by rwa [← hhanded]), fun n hex => ?_⟩
      obtain ⟨e, he, hlt, -⟩ := hex
      rw [hoffset] at hlt ⊢
      rw [hoffset, steps_succ]
      exact lt_readStep hr hpos hl _ _ he hlt

theorem shardPage_events (cfg : Config)
    (shard i : ℕ) (o : ℤ) :
    (((shardPage cfg ordered shard i o).map (·.1)).getD []).Subperm (wantedRows table.rows shard o) ∧
      (((shardPage cfg ordered shard i o).map (·.1)).getD []).length =
        min (size cfg) (wantedRows table.rows shard o).length := by
  by_cases hsilent : size cfg = 0 ∨ shardRows table.rows shard = []
  · have hnil : shardPage cfg ordered shard i o = none ∨
        ∃ next, shardPage cfg ordered shard i o = some ([], next) := by
      rcases hsilent with hzero | hrows
      · exact shardPage_of_size_zero ho hzero shard i o
      · exact shardPage_nil ho (by simp [hrows])
    have hempty : ((shardPage cfg ordered shard i o).map (·.1)).getD [] = [] := by
      rcases hnil with hnone | ⟨next, hnil⟩
      · simp [hnone]
      · simp [hnil]
    rw [hempty]
    rcases hsilent with hzero | hrows
    · simp [hzero]
    · have hwanted : wantedRows table.rows shard o = [] := by
        change after _ o (shardRows table.rows shard) = []
        rw [hrows]
        rfl
      simp [hwanted]
  · obtain ⟨hsize, hrows⟩ := not_or.mp hsilent
    obtain ⟨xs, next, hpage, his⟩ :=
      shardPage_reads ho (Nat.pos_of_ne_zero hsize) (shard_lt hrows) i o
    have hperm : (after (·.timestamp) o ((ordered i shard).filter fun row => row.shard = shard)).Perm
        (wantedRows table.rows shard o) := after_perm Event.timestamp ((ho i shard).1.filter _) o
    rw [hpage]
    refine ⟨?_, ?_⟩
    · exact (his.perm.subperm.trans (List.take_sublist _ _).subperm).trans hperm.subperm
    · rw [Option.map_some, Option.getD_some, his.perm.length_eq, List.length_take, hperm.length_eq]

theorem fixed_iff
    (hok : ∀ e ∈ table.rows, Processable cfg e) (h0 : cfg.startingOffset ≠ zeroInstant) (shard : ℕ)
    {p : Progress} (hp : p.handed = []) (start : ℤ) : ReprocessesShard cfg (shardRows table.rows shard) start
        (fun n => steps (shardPass cfg table ordered shard) n 0 p) ↔
      FixedFits table.rows shard (size cfg) (unixMilli cfg.startingOffset) start := by
  have hoff (q : Progress) : (currentOffset cfg q).1 = unixMilli cfg.startingOffset := by
    simp [currentOffset, h0]
  have hstep := fun n => shardPass_fixed ho hok h0 shard n p
  have hpage := fun i => shardPage_events ho cfg shard i (unixMilli cfg.startingOffset)
  generalize unixMilli cfg.startingOffset = o at hoff hstep hpage ⊢
  have hmem {e : Event} : e ∈ wantedRows table.rows shard o ↔
      e ∈ shardRows table.rows shard ∧ o < e.timestamp := mem_after
  -- only events after the offset are handed over
  have hafter : ∀ n, ∀ e ∈ (steps (shardPass cfg table ordered shard) n 0 p).handed,
      e ∈ wantedRows table.rows shard o := by
    intro n
    induction n with
    | zero => simp [steps, hp]
    | succ n ih =>
      intro e he
      rw [hstep] at he
      rcases List.mem_append.mp he with he | he
      · exact ih e he
      · exact (hpage n).1.subset he
  constructor
  · intro h
    -- the offset does not move, so the first pass has to hand over all of them
    have hall : (wantedRows table.rows shard o).Subperm
        (((shardPage cfg ordered shard 0 o).map (·.1)).getD []) := by
      refine (count_le_iff_subperm o).mp fun e he hlt => ?_
      by_contra hcount
      have hadv := h.advances 0 ⟨e, he, by rw [hoff]; exact hlt, by
        rw [hstep, steps, hp, List.nil_append]
        exact Nat.lt_of_not_le hcount⟩
      rw [hoff, hoff] at hadv
      omega
    have hfirst : ∀ e ∈ wantedRows table.rows shard o,
        e ∈ (steps (shardPass cfg table ordered shard) 1 0 p).handed := by
      intro e he
      rw [hstep 0]
      exact List.mem_append_right _ (hall.subset he)
    refine ⟨fun e he hlt => ?_, fun e he hlt => ?_, ?_⟩
    · obtain ⟨n, hn⟩ := h.later e he hlt
      have hpos := Nat.lt_of_lt_of_le (List.count_pos_iff.mpr he) hn
      exact (hmem.mp (hafter n e (List.count_pos_iff.mp hpos))).2
    · exact h.earlier 1 e (hfirst e (hmem.mpr ⟨he, hlt⟩))
    · have hlen := hall.length_le
      rw [(hpage 0).2] at hlen
      omega
  · rintro ⟨hlater, hgap, hfits⟩
    have hcount {e : Event} (he : e ∈ shardRows table.rows shard) (hlt : o < e.timestamp) (n : ℕ) :
        (shardRows table.rows shard).count e ≤
          (steps (shardPass cfg table ordered shard) (n + 1) 0 p).handed.count e := by
      have hperm : (wantedRows table.rows shard o).Subperm
          (((shardPage cfg ordered shard n o).map (·.1)).getD []) :=
        ((hpage n).1.perm_of_length_le (by rw [(hpage n).2]; omega)).symm.subperm
      have hle := (count_le_iff_subperm o).mpr hperm e he hlt
      rw [hstep, List.count_append]
      exact Nat.le_trans hle (Nat.le_add_left _ _)
    refine ⟨fun e he hlt => ⟨1, hcount he (hlater e he hlt) 0⟩, fun n e he => ?_, fun n hex => ?_⟩
    · obtain ⟨hrow, hlt⟩ := hmem.mp (hafter n e he)
      exact hgap e hrow hlt
    · obtain ⟨e, he, hlt, hc⟩ := hex
      rw [hoff] at hlt
      exact absurd hc (Nat.not_lt.mpr (hcount he hlt n))

end

theorem rebuiltOffset_eq (h0 : cfg.startingOffset = zeroInstant) (name : String)
    (offsets : Postgres.OffsetTable) (start : ℤ) (shard : ℕ) :
    (currentOffset cfg ((rebuildProjection cfg name offsets start).shards shard)).1 =
      rebuiltOffset cfg (offsets name shard) start := by
  rw [currentOffset_of_zero h0]
  simp only [rebuildProjection, startProjection, preStart, Postgres.OffsetTable.getCurrentOffset, rebuiltOffset]
  cases hstored : offsets name shard with
  | none => split <;> simp [Postgres.OffsetTable.resetOffset, hstored]
  | some offset =>
    by_cases hreset : cfg.resetOffsetTo = zeroInstant
    · simp [hreset, Postgres.OffsetTable.resetOffset, hstored]
    · simp [hreset, Postgres.OffsetTable.resetOffset, hstored]

/-- With handlers that succeed: after a rebuild from `start` the passes hand over what
they should, and advance, exactly if at each shard the rows fit the offset that the
rebuild leaves; with `start` as the configured start offset, exactly if they fit
one buffer from there. -/
theorem reprocesses_iff (cfg : Config) (table : Postgres.EventsTable) (ordered : ℕ → ℕ → List Event)
    (ho : ∀ i shard, Postgres.Ordered table.rows (ordered i shard))
    (hok : ∀ e ∈ table.rows, Processable cfg e) (name : String) (offsets : Postgres.OffsetTable) (start : ℤ) :
    (Reprocesses cfg table.rows start (afterPasses cfg table ordered (rebuildProjection cfg name offsets start)) ↔
      ∀ shard, if cfg.startingOffset = zeroInstant
        then AdvancingFits table.rows shard (size cfg) (rebuiltOffset cfg (offsets name shard) start) start
        else FixedFits table.rows shard (size cfg) (unixMilli cfg.startingOffset) start) ∧
    (cfg.startingOffset = start → start ≠ zeroInstant → (Reprocesses cfg table.rows start
          (afterPasses cfg table ordered (startProjection cfg name offsets)) ↔
        ∀ shard, FixedFits table.rows shard (size cfg) (unixMilli start) start)) := by
  constructor
  · rw [reprocesses_iff_shards]
    refine forall_congr' fun shard => ?_
    simp only [(afterPasses_shards ho hok (r := rebuildProjection cfg name offsets start) rfl _).2]
    by_cases h0 : cfg.startingOffset = zeroInstant
    · rw [if_pos h0, advancing_iff ho hok h0 shard rfl, rebuiltOffset_eq h0]
    · rw [if_neg h0, fixed_iff ho hok h0 shard rfl]
  · rintro rfl h0
    rw [reprocesses_iff_shards]
    refine forall_congr' fun shard => ?_
    simp only [(afterPasses_shards ho hok (r := startProjection cfg name offsets) rfl _).2]
    exact fixed_iff (p := (startProjection cfg name offsets).shards shard) ho hok h0 shard rfl _

end

/-! ### Two credits -/

section
open Enginetest

def runnerFrom (maxBufferSize : Int64) (startingOffset : ℤ) : Config where
  handleWithPolicy := fun _ _ _ => .ok ()
  encryptor := none
  unmarshalAny := unmarshal anyCode
  eventAdapters := []
  maxBufferSize := maxBufferSize
  startingOffset := startingOffset
  resetOffsetTo := zeroInstant

def twoCredits : Postgres.EventsTable :=
  ⟨[credited "alice" 1 1000000, credited "alice" 2 3000000], by decide⟩

theorem twoCredits_processable (maxBufferSize : Int64) (startingOffset : ℤ) :
    ∀ e ∈ twoCredits.rows, Processable (runnerFrom maxBufferSize startingOffset) e :=
  fun e he => ⟨e.event, by revert e; simp [twoCredits, credited]; exact ⟨rfl, rfl⟩, rfl⟩

theorem twoCredits_ordered : Postgres.Ordered twoCredits.rows twoCredits.rows := ⟨.refl _, by decide⟩

/-- From one nanosecond after the epoch, with room for both. -/
theorem two_credits_reprocessed : Reprocesses (runnerFrom 500 1) twoCredits.rows 1
      (afterPasses (runnerFrom 500 1) twoCredits (fun _ _ => twoCredits.rows)
        (startProjection (runnerFrom 500 1) "balances" fun _ _ => none)) := by
  refine ((reprocesses_iff (runnerFrom 500 1) twoCredits (fun _ _ => twoCredits.rows)
    (fun _ _ => twoCredits_ordered)
    (twoCredits_processable 500 1) "balances" (fun _ _ => none) 1).2 rfl (by decide)).mpr fun shard => ?_
  have hrows : ∀ e ∈ shardRows twoCredits.rows shard, (1 : ℤ) < e.timestamp := fun e he =>
    (by decide : ∀ e ∈ twoCredits.rows, (1 : ℤ) < e.timestamp) e (List.mem_filter.mp he).1
  refine ⟨fun e he _ => ?_, fun e he _ => Int.le_of_lt (hrows e he), ?_⟩
  · have := hrows e he
    have hzero : unixMilli 1 = 0 := by decide
    omega
  · refine Nat.le_trans (List.length_filter_le _ _) (Nat.le_trans (List.length_filter_le _ _) ?_)
    decide

/-- A rebuild from two milliseconds after the epoch hands over the credit at one, as
the offset it leaves is two nanoseconds; and with room for one event, a start
offset before both credits reads the first one again and again. -/
theorem instant_not_respected :
    (∃ e ∈ ((afterPasses (runnerFrom 500 zeroInstant) twoCredits (fun _ _ => twoCredits.rows)
        (rebuildProjection (runnerFrom 500 zeroInstant) "balances"
          (fun name shard => some ⟨shard, name, 3000000, 0⟩) 2000000) 1).shards 0).handed,
      e.timestamp < 2000000) ∧ ¬ Reprocesses (runnerFrom 1 1) twoCredits.rows 1
      (afterPasses (runnerFrom 1 1) twoCredits (fun _ _ => twoCredits.rows)
        (startProjection (runnerFrom 1 1) "balances" fun _ _ => none)) := by
  refine ⟨by decide, fun h => ?_⟩
  have hadv := h.advances 0 0 ⟨credited "alice" 2 3000000, by decide, rfl, by decide, by decide⟩
  exact absurd hadv (by decide)

end

end Ego.Projection

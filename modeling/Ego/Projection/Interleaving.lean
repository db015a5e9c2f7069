import Ego.EventSource.Relocation
import Ego.Projection.Runner
import Ego.Testkit.Shards
import Mathlib.Data.Fintype.Basic

/-! # A projection pass among the writes of the entities -/

namespace Ego.Projection
open Persistence Lib

structure Range (I : Type) where
  order : List I
  nodup : order.Nodup
  complete : ∀ i, i ∈ order
  deriving DecidableEq

inductive Stage (I : Type) where
  | idle
  | dispatched
  | ranging (offset : ℤ) (rest : List I) (events : List Event)
  | handling (rest : List Event) (nextOffset : ℤ)
  | stopped
  deriving DecidableEq

structure System {I : Type} (S C : I → Type) where
  entities : ∀ i, EventSource.Entity (S i) (C i)
  stage : Stage I
  progress : Progress

inductive Label {I : Type} (C : I → Type) where
  | entity (i : I) (l : EventSource.Label (C i))
  | poll (range : Range I)
  | fetch (range : Range I)
  | advance

section
variable {I : Type} {S C E : I → Type}

def logs (s : System S C) (range : Range I) : List EventLog :=
  range.order.filterMap fun i => (s.entities i).log

def shardEventsOf (shard : ℕ) (log : Option EventLog) : List Event :=
  (journal log).filter fun event => event.shard = shard

variable (cfgs : ∀ i, EventSource.Config (S i) (C i) (E i)) (cfg : Config) (shard : ℕ)

def advance (s : System S C) : System S C :=
  match s.stage with
  | .ranging offset (i :: rest) events =>
    { s with stage := .ranging offset rest (events ++ shardEventsOf shard (s.entities i).log) }
  | .ranging offset [] events =>
    match Testkit.pageOf events offset (bufferSize cfg) with
    | ([], _) => { s with stage := .idle }
    | (page, nextOffset) => { s with stage := .handling page nextOffset }
  | .handling (envelope :: rest) nextOffset =>
    match processEnvelope cfg envelope s.progress with
    | (p, none) => { s with stage := .handling rest nextOffset, progress := p }
    | (p, some _) => { s with stage := .stopped, progress := p }
  | .handling [] nextOffset =>
    { s with stage := .idle, progress := commitOffset nextOffset s.progress }
  | _ => s

def systemStep [DecidableEq I] (s : System S C) : Label C → System S C
  | .entity i l =>
    let entity := EventSource.step (cfgs i) Testkit.eventsStore (s.entities i) l
    { s with entities := Function.update s.entities i entity }
  -- `ShardOffsets` ranges too; as records only grow, what it reports is what an
  -- atomic read at its start or at its end would
  | .poll range =>
    if s.stage = .idle ∧ pending cfg s.progress (Testkit.shardOffset (logs s range) shard) = true then
      { s with stage := .dispatched }
    else s
  | .fetch range =>
    match s.stage with
    | .dispatched =>
      let (offset, p) := currentOffset cfg s.progress
      { s with stage := .ranging offset range.order [], progress := p }
    | _ => s
  | .advance => advance cfg shard s

def System.start : System S C where
  entities := fun i => .start (cfgs i)
  stage := .idle
  progress := ⟨none, none, []⟩

def horizon (s : System S C) : ℤ :=
  match s.stage with
  | .handling _ nextOffset => nextOffset
  | _ => (currentOffset cfg s.progress).1

def buffered (offset : ℤ) (events : List Event) : List Event :=
  (after (·.timestamp) offset events).take (Testkit.pageSize (bufferSize cfg))

/-- The stored events after the offset that the page leaves out, because the buffer
is full or because they were written behind the range, are later than those in it. -/
def LeavesLater (entities : ∀ i, EventSource.Entity (S i) (C i)) : Stage I → Prop
  | .ranging offset [] events =>
    ∀ i, ∀ e ∈ shardEventsOf shard (entities i).log, offset < e.timestamp →
      e ∈ buffered cfg offset events ∨ ∀ x ∈ buffered cfg offset events, x.timestamp < e.timestamp
  | _ => True

/-- The events a write commits are later than all the pass has read, and a page that
is cut leaves out only later events. -/
def Timely (s : System S C) : Label C → Prop
  | .entity i l =>
    ∀ e ∈ EventSource.acceptedBy (cfgs i) (s.entities i).node (s.entities i).log l,
      e.shard = shard → horizon cfg s < e.timestamp
  | .advance => LeavesLater cfg shard s.entities s.stage
  | _ => True

instance [Fintype I] (entities : ∀ i, EventSource.Entity (S i) (C i)) (stage : Stage I) :
    Decidable (LeavesLater cfg shard entities stage) :=
  match stage with
  | .ranging offset [] events => inferInstanceAs (Decidable (∀ i, ∀ e ∈ shardEventsOf shard (entities i).log,
      offset < e.timestamp → e ∈ buffered cfg offset events ∨
        ∀ x ∈ buffered cfg offset events, x.timestamp < e.timestamp))
  | .idle | .dispatched | .ranging _ (_ :: _) _ | .handling _ _ | .stopped => isTrue trivial

instance [Fintype I] (s : System S C) (l : Label C) : Decidable (Timely cfgs cfg shard s l) :=
  match l with
  | .entity i l => inferInstanceAs (Decidable (∀ e ∈ EventSource.acceptedBy (cfgs i) (s.entities i).node
      (s.entities i).log l, e.shard = shard → horizon cfg s < e.timestamp))
  | .advance => inferInstanceAs (Decidable (LeavesLater cfg shard s.entities s.stage))
  | .poll _ | .fetch _ => isTrue trivial

def FindsNothing (s : System S C) : Prop :=
  s.stage = .idle ∧ ∃ range : Range I, pending cfg s.progress (Testkit.shardOffset (logs s range) shard) = false ∨
      (Testkit.getShardEvents (logs s range) shard (currentOffset cfg s.progress).1
        (bufferSize cfg)).1 = []

def Covered (s : System S C) (t : ℤ) (rest : List Event) : Prop :=
  ∀ i, ∀ e ∈ shardEventsOf shard (s.entities i).log, e.timestamp ≤ t → e ∈ s.progress.handed ∨ e ∈ rest

structure Caught (s : System S C) : Prop where
  nonneg : 0 ≤ (currentOffset cfg s.progress).1
  passed : Covered shard s (currentOffset cfg s.progress).1 []
  ranging : ∀ offset rest events, s.stage = .ranging offset rest events → offset = (currentOffset cfg s.progress).1
  handling : ∀ rest nextOffset, s.stage = .handling rest nextOffset →
    (currentOffset cfg s.progress).1 ≤ nextOffset ∧ Covered shard s nextOffset rest

variable {cfgs cfg shard} {s : System S C}

theorem caught_start (h : cfg.startingOffset = zeroInstant) : Caught cfg shard (System.start cfgs) := by
  refine ⟨by simp [currentOffset_of_zero h, System.start], ?_, by simp [System.start], by simp [System.start]⟩
  intro i e he
  simp [System.start, EventSource.Entity.start, shardEventsOf] at he

theorem mem_page {events page : List Event} {offset nextOffset : ℤ}
    (hpage : Testkit.pageOf events offset (bufferSize cfg) = (page, nextOffset)) (e : Event) :
    e ∈ page ↔ e ∈ buffered cfg offset events := by
  have his := Testkit.pageOf_isPage events offset (bufferSize cfg)
  rw [hpage] at his
  exact his.perm.mem_iff

theorem Caught.page (h : Caught cfg shard s) {offset nextOffset : ℤ} {events page : List Event}
    (hs : s.stage = .ranging offset [] events) (ht : Timely cfgs cfg shard s .advance)
    (hpage : Testkit.pageOf events offset (bufferSize cfg) = (page, nextOffset)) (hne : page ≠ []) :
    (currentOffset cfg s.progress).1 ≤ nextOffset ∧ Covered shard s nextOffset page := by
  have hoff := h.ranging offset [] events hs
  have his := Testkit.pageOf_isPage events offset (bufferSize cfg)
  rw [hpage] at his
  dsimp only at his
  obtain ⟨y, hy, hynext⟩ := his.next_mem hne
  have hlt : offset < nextOffset := hynext ▸ (mem_after.mp hy).2
  refine ⟨by omega, fun i e he hle => ?_⟩
  by_cases hafter : offset < e.timestamp
  · simp only [Timely, LeavesLater, hs] at ht
    rcases ht i e he hafter with hbuf | hlate
    · exact .inr ((mem_page hpage e).mpr hbuf)
    · -- the last event of the page would be both before and after `e`
      have hlast := hlate _ ((mem_page hpage _).mp (List.getLast_mem hne))
      have hnext := his.next_eq hne
      omega
  · rcases h.passed i e he (by omega) with hh | hh
    · exact .inl hh
    · simp at hh

theorem Caught.advance (h0 : cfg.startingOffset = zeroInstant) (h : Caught cfg shard s)
    (ht : Timely cfgs cfg shard s .advance) : Caught cfg shard (advance cfg shard s) := by
  have hidle (hr : ∀ offset rest events, s.stage ≠ .ranging offset rest events)
      (hh : ∀ rest nextOffset, s.stage ≠ .handling rest nextOffset) :
      Projection.advance cfg shard s = s := by
    unfold Projection.advance
    split
    · exact absurd ‹_› (hr _ _ _)
    · exact absurd ‹_› (hr _ _ _)
    · exact absurd ‹_› (hh _ _)
    · exact absurd ‹_› (hh _ _)
    · rfl
  cases hs : s.stage with
  | idle | dispatched | stopped => rwa [hidle (by simp [hs]) (by simp [hs])]
  | ranging offset rest events =>
    cases rest with
    | cons i rest =>
      simp only [Projection.advance, hs]
      refine ⟨h.nonneg, h.passed, fun o r es hst => ?_, by simp⟩
      cases hst
      exact h.ranging _ _ _ hs
    | nil =>
      simp only [Projection.advance, hs]
      split
      · exact ⟨h.nonneg, h.passed, by simp, by simp⟩
      · rename_i page nextOffset hnil hpage
        refine ⟨h.nonneg, h.passed, by simp, fun rest next hst => ?_⟩
        cases hst
        exact h.page hs ht hpage fun hempty => hnil (by rw [← hempty])
  | handling rest nextOffset =>
    obtain ⟨hle, hcov⟩ := h.handling rest nextOffset hs
    cases rest with
    | nil =>
      simp only [Projection.advance, hs]
      have hnew : (currentOffset cfg (commitOffset nextOffset s.progress)).1 = nextOffset := by
        simp [currentOffset_of_zero h0, commitOffset]
      refine ⟨?_, ?_, by simp, by simp⟩
      · rw [hnew]
        exact Int.le_trans h.nonneg hle
      · rw [hnew]
        exact hcov
    | cons envelope rest =>
      simp only [Projection.advance, hs]
      obtain ⟨hc, hst, hsub⟩ := @processEnvelope_frame cfg envelope s.progress
      have hoff : (currentOffset cfg (processEnvelope cfg envelope s.progress).1).1 =
          (currentOffset cfg s.progress).1 := by
        simp [currentOffset_of_zero h0, hc, hst]
      have hpassed : ∀ i, ∀ e ∈ shardEventsOf shard (s.entities i).log,
          e.timestamp ≤ (currentOffset cfg s.progress).1 →
            e ∈ (processEnvelope cfg envelope s.progress).1.handed ∨ e ∈ ([] : List Event) :=
        fun i e he hte => (h.passed i e he hte).imp_left fun hh => hsub hh
      split
      · rename_i p hp
        rw [hp] at hoff hpassed
        refine ⟨by rw [hoff]; exact h.nonneg, by rw [hoff]; exact hpassed, by simp, fun r n hstage => ?_⟩
        cases hstage
        refine ⟨by rw [hoff]; exact hle, fun i e he hte => ?_⟩
        rw [processEnvelope_none hp]
        rcases hcov i e he hte with hh | hh
        · exact .inl (List.mem_append_left _ hh)
        · rcases List.mem_cons.mp hh with rfl | hh
          · exact .inl (List.mem_append_right _ (by simp))
          · exact .inr hh
      · rename_i p failure hp
        rw [hp] at hoff hpassed
        exact ⟨by rw [hoff]; exact h.nonneg, by rw [hoff]; exact hpassed, by simp, by simp⟩

theorem mem_shardEvents_logs {i : I} {e : Event} (range : Range I)
    (h : e ∈ shardEventsOf shard (s.entities i).log) : e ∈ Testkit.shardEvents (logs s range) shard := by
  obtain ⟨hj, hshard⟩ := List.mem_filter.mp h
  cases hlog : (s.entities i).log with
  | none => simp [hlog] at hj
  | some log =>
    rw [hlog, journal_some] at hj
    refine List.mem_flatMap.mpr ⟨log, ?_, List.mem_filter.mpr ⟨hj, hshard⟩⟩
    exact List.mem_filterMap.mpr ⟨i, range.complete i, hlog⟩

theorem FindsNothing.le_offset (h0 : cfg.startingOffset = zeroInstant) (hb : 0 ≤ cfg.maxBufferSize)
    (hnonneg : 0 ≤ (currentOffset cfg s.progress).1) (h : FindsNothing cfg shard s) {i : I} {e : Event}
    (he : e ∈ shardEventsOf shard (s.entities i).log) : e.timestamp ≤ (currentOffset cfg s.progress).1 := by
  obtain ⟨-, range, hnot | hempty⟩ := h
  · have hle := Testkit.le_shardOffset (mem_shardEvents_logs range he)
    cases hlatest : Testkit.shardOffset (logs s range) shard with
    | none =>
      rw [hlatest] at hle
      exact Int.le_trans hle hnonneg
    | some latest =>
      rw [hlatest, Option.getD_some] at hle
      simp only [pending, hlatest, h0, ne_eq, not_true_eq_false, if_false] at hnot
      rw [currentOffset_of_zero h0]
      cases hc : s.progress.committed with
      | none => simp [hc] at hnot
      | some committed =>
        simp only [hc, gt_iff_lt, decide_eq_false_iff_not, Int.not_lt] at hnot
        exact Int.le_trans hle hnot
  · have hsize : 0 < Testkit.pageSize (bufferSize cfg) := by
      have hlt : bufferSize cfg < 2 ^ 63 := by
        rw [bufferSize, Int64.toNat_toUInt64_of_le hb]
        exact Int64.toNatClampNeg_lt cfg.maxBufferSize
      rw [Testkit.pageSize_of_lt hlt]
      exact Nat.succ_pos _
    have his := Testkit.pageOf_isPage (Testkit.shardEvents (logs s range) shard)
      (currentOffset cfg s.progress).1 (bufferSize cfg)
    rw [Testkit.getShardEvents] at hempty
    rw [hempty] at his
    have hnil := his.perm.symm.eq_nil
    rw [List.take_eq_nil_iff] at hnil
    by_contra hlt
    have hmem := mem_after.mpr ⟨mem_shardEvents_logs range he, Int.not_le.mp hlt⟩
    rcases hnil with hzero | hnil
    · omega
    · simp [hnil] at hmem

variable [DecidableEq I]

theorem Caught.entity (h : Caught cfg shard s) {i : I} {l : EventSource.Label (C i)}
    (ht : Timely cfgs cfg shard s (.entity i l)) : Caught cfg shard (systemStep cfgs cfg shard s (.entity i l)) := by
  -- an event that the step adds is after the horizon
  have hnew : ∀ j, ∀ e ∈ shardEventsOf shard ((systemStep cfgs cfg shard s (.entity i l)).entities j).log,
      e ∈ shardEventsOf shard (s.entities j).log ∨ horizon cfg s < e.timestamp := by
    intro j e he
    by_cases hj : j = i
    · subst hj
      simp only [systemStep, Function.update_self, EventSource.step, shardEventsOf, List.mem_filter,
        decide_eq_true_eq] at he ⊢
      rcases EventSource.mem_journal_nodeStep he.1 with hold | hacc
      · exact .inl ⟨hold, he.2⟩
      · exact .inr (ht e hacc he.2)
    · left
      simpa only [systemStep, Function.update_of_ne hj] using he
  have hcov : ∀ t rest, t ≤ horizon cfg s → Covered shard s t rest →
      Covered shard (systemStep cfgs cfg shard s (.entity i l)) t rest := by
    intro t rest hle hc j e he hte
    rcases hnew j e he with hold | hlate
    · exact hc j e hold hte
    · omega
  have hoff : (currentOffset cfg s.progress).1 ≤ horizon cfg s := by
    unfold horizon
    split
    · rename_i hs
      exact (h.handling _ _ hs).1
    · exact Int.le_refl _
  refine ⟨h.nonneg, hcov _ _ hoff h.passed, h.ranging, fun rest nextOffset hs => ?_⟩
  obtain ⟨hle, hc⟩ := h.handling rest nextOffset hs
  refine ⟨hle, hcov _ _ ?_ hc⟩
  have hstage : s.stage = .handling rest nextOffset := hs
  simp [horizon, hstage]

theorem Caught.systemStep (h0 : cfg.startingOffset = zeroInstant) (h : Caught cfg shard s)
    {l : Label C} (ht : Timely cfgs cfg shard s l) : Caught cfg shard (systemStep cfgs cfg shard s l) := by
  cases l with
  | entity i l => exact h.entity ht
  | advance => exact h.advance h0 ht
  | poll range =>
    simp only [Projection.systemStep]
    split
    · exact ⟨h.nonneg, h.passed, by simp, by simp⟩
    · exact h
  | fetch range =>
    simp only [Projection.systemStep]
    split
    · have hoff : (currentOffset cfg (currentOffset cfg s.progress).2).1 =
          (currentOffset cfg s.progress).1 := by
        simp [currentOffset_of_zero h0]
      refine ⟨by rw [hoff]; exact h.nonneg, ?_, fun o r es hst => ?_, by simp⟩
      · rw [hoff]
        have hhanded : (currentOffset cfg s.progress).2.handed = s.progress.handed := by
          simp [currentOffset_of_zero h0]
        intro i e he hte
        rw [hhanded]
        exact h.passed i e he hte
      · cases hst
        exact hoff.symm
    · exact h

/-- In every run in which a write commits only events later than what the pass has
read, and a page leaves out only events later than those in it, every stored
event of the shard has been handed to the handler whenever a pass finds nothing
more. -/
theorem projection_complete (cfgs : ∀ i, EventSource.Config (S i) (C i) (E i)) (cfg : Config)
    (shard : ℕ) (labels : List (Label C)) (hstart : cfg.startingOffset = zeroInstant)
    (hbuffer : 0 ≤ cfg.maxBufferSize)
    (htimely : Along (systemStep cfgs cfg shard) (Timely cfgs cfg shard) (System.start cfgs) labels) :
    let s := run (systemStep cfgs cfg shard) (System.start cfgs) labels
    FindsNothing cfg shard s → ∀ i, ∀ e ∈ journal (s.entities i).log, e.shard = shard →
      e ∈ s.progress.handed := by
  intro s hnothing i e he hshard
  have hcaught : Caught cfg shard s :=
    run_invariant (systemStep cfgs cfg shard) (Caught cfg shard)
      (fun _ _ h ht => h.systemStep hstart ht) (caught_start hstart) htimely
  have hmem : e ∈ shardEventsOf shard (s.entities i).log :=
    List.mem_filter.mpr ⟨he, decide_eq_true hshard⟩
  rcases hcaught.passed i e hmem
    (hnothing.le_offset hstart hbuffer hcaught.nonneg hmem) with hh | hh
  · exact hh
  · simp at hh

end

section
open Enginetest

instance : Fintype Side := ⟨{.first, .second}, fun side => by cases side <;> decide⟩

def accountNamed (id : String) : EventSource.Config ℕ Command AccountEvent :=
  { accountConfig 0 with persistenceID := id, behavior := accountBehavior id }

def accounts : Side → EventSource.Config ℕ Command AccountEvent
  | .first => accountNamed "alice"
  | .second => accountNamed "bob"

def plainRunner : Config where
  handleWithPolicy := fun _ _ _ => .ok ()
  encryptor := none
  unmarshalAny := unmarshal anyCode
  eventAdapters := []
  maxBufferSize := 500
  startingOffset := zeroInstant
  resetOffsetTo := zeroInstant

def bothAccounts : Range Side := ⟨[.first, .second], by decide, by decide⟩

def creation (side : Side) (now : ℤ) : List (Label fun _ : Side => Command) :=
  [.entity side (.command background (.createAccount 5)), .entity side (.deliver (turnAt now) [])]

def passOver (found : ℕ) : List (Label fun _ : Side => Command) :=
  [.poll bothAccounts, .fetch bothAccounts] ++ List.replicate (found + 4) .advance

def orderlyRun : List (Label fun _ : Side => Command) :=
  creation .first 1 ++ creation .second 2 ++
    [.entity .second (.write .store), .entity .first (.write .store)] ++ passOver 2

theorem orderly_pass_complete :
    let s := run (systemStep accounts plainRunner 0) (System.start accounts) orderlyRun
    FindsNothing plainRunner 0 s ∧ s.progress.handed.length = 2 ∧
      ∀ i, ∀ e ∈ journal (s.entities i).log, e.shard = 0 → e ∈ s.progress.handed := by
  have hnothing : FindsNothing plainRunner 0
      (run (systemStep accounts plainRunner 0) (System.start accounts) orderlyRun) :=
    ⟨by decide, bothAccounts, .inl (by decide)⟩
  exact ⟨hnothing, by decide,
    projection_complete accounts plainRunner 0 orderlyRun rfl (by decide) (by decide) hnothing⟩

def lateRun : List (Label fun _ : Side => Command) :=
  creation .first 1 ++ creation .second 2 ++ [.entity .second (.write .store)] ++ passOver 1 ++
    [.entity .first (.write .store)]

/-- All writes have committed and a pass finds nothing, but the creation of the
first account was never handed over. -/
theorem late_write_never_handed :
    let s := run (systemStep accounts plainRunner 0) (System.start accounts) lateRun
    (∀ i, (s.entities i).node.writer = []) ∧ FindsNothing plainRunner 0 s ∧
      ∃ e ∈ journal (s.entities .first).log, e.shard = 0 ∧ e ∉ s.progress.handed :=
  ⟨by decide, ⟨by decide, bothAccounts, .inl (by decide)⟩, by decide⟩

end

end Ego.Projection

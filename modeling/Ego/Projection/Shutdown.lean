import Ego.Projection.Pool
import Mathlib.Data.List.Count

/-! # A pass and its shutdown -/

namespace Ego.Projection
open Lib

def Worker.shard? : Worker → Option ℕ
  | .idle | .exited => none
  | .took shard | .resolving shard | .reading shard _ | .handling shard _ _ _ | .committing shard _ _ |
    .ending shard _ | .reported shard => some shard

def Worker.holds (shard : ℕ) (w : Worker) : Bool := w.shard? == some shard

def Worker.busy (w : Worker) : Bool := w.shard?.isSome

structure PassInv (p : Pool) : Prop where
  counted : p.undone = p.loop.todo.length + p.workCh.length + p.workers.countP Worker.busy
  outside : p.loop.inPass = false → p.undone = 0
  unique : ∀ shard, p.loop.todo.count shard + p.workCh.count shard + p.workers.countP (Worker.holds shard) +
    p.done.count shard ≤ 1

section
variable {cfg : PoolConfig} {p : Pool}

theorem countP_set_add {α : Type} (q : α → Bool) {l : List α} {i : ℕ} {a : α} (h : l[i]? = some a) (b : α) :
    (l.set i b).countP q + (if q a then 1 else 0) = l.countP q + (if q b then 1 else 0) := by
  obtain ⟨hi, rfl⟩ := List.getElem?_eq_some_iff.mp h
  rw [List.countP_set hi]
  have hpos : (if q l[i] then 1 else 0) ≤ l.countP q := by
    split
    · exact List.countP_pos_iff.mpr ⟨l[i], List.getElem_mem hi, ‹_›⟩
    · exact Nat.zero_le _
  omega

theorem holds_idle (s : ℕ) : Worker.holds s .idle = false := rfl
theorem holds_took (s shard : ℕ) : Worker.holds s (.took shard) = (shard == s) := rfl
theorem holds_reported (s shard : ℕ) : Worker.holds s (.reported shard) = (shard == s) := rfl

theorem holds_le_busy (shard : ℕ) (workers : List Worker) :
    workers.countP (Worker.holds shard) ≤ workers.countP Worker.busy := by
  refine List.countP_mono_left fun w _ hw => ?_
  unfold Worker.busy
  rw [beq_iff_eq.mp hw]
  rfl

theorem PassInv.setWorker (h : PassInv p) {i : ℕ} {w w' : Worker} (hw : p.workers[i]? = some w)
    (hs : w'.shard? = w.shard?) : PassInv (p.setWorker i w') := by
  have hkeep (q : Worker → Bool) (hq : q w' = q w) : (p.workers.set i w').countP q = p.workers.countP q := by
    have hcount := countP_set_add q hw w'
    rw [hq] at hcount
    omega
  refine ⟨?_, h.outside, fun shard => ?_⟩
  · have hbusy := hkeep Worker.busy (by unfold Worker.busy; rw [hs])
    have hcounted := h.counted
    simp only [Pool.setWorker, hbusy]
    exact hcounted
  · have hholds := hkeep (Worker.holds shard) (by unfold Worker.holds; rw [hs])
    simp only [Pool.setWorker, hholds]
    exact h.unique shard

theorem PassInv.onShard (h : PassInv p) (shard : ℕ) (f : Ledger → Ledger) : PassInv (p.onShard shard f) :=
  ⟨h.counted, h.outside, h.unique⟩

theorem pendingShards_nodup (offsets : ShardOffsets) : (pendingShards cfg p offsets).Nodup := by
  unfold pendingShards
  split <;> exact offsets.nodup.sublist (List.filter_sublist.map _)

theorem PassInv.empty (h : PassInv p) (h0 : p.undone = 0) :
    p.loop.todo = [] ∧ p.workCh = [] ∧ p.workers.countP Worker.busy = 0 := by
  have hcounted := h.counted
  refine ⟨List.eq_nil_of_length_eq_zero (by omega), List.eq_nil_of_length_eq_zero (by omega), by omega⟩

theorem PassInv.reportError (h : PassInv p) (err : Option Failure) : PassInv (p.reportError cfg err) := by
  unfold Pool.reportError
  split
  · split
    · exact ⟨h.counted, h.outside, h.unique⟩
    · exact h
  · exact h

theorem reportError_workers (err : Option Failure) : (p.reportError cfg err).workers = p.workers := by
  unfold Pool.reportError
  split
  · split <;> rfl
  · rfl

theorem PassInv.loop_of_outside (h : PassInv p) (h0 : p.undone = 0) {loop' : Loop} (hl' : loop'.inPass = false) :
    PassInv { p with loop := loop' } := by
  have htodo : loop'.todo = [] := by
    cases loop' with
    | dispatching todo => simp [Loop.inPass] at hl'
    | _ => rfl
  obtain ⟨hempty, -, -⟩ := h.empty h0
  have hcounted := h.counted
  have hunique := h.unique
  rw [hempty] at hcounted hunique
  refine ⟨?_, fun _ => h0, ?_⟩
  · dsimp only
    rwa [htodo]
  · dsimp only
    rwa [htodo]

theorem PoolMove.passInv {l : PoolLabel} {p' : Pool} (hmove : PoolMove cfg p l p') (h : PassInv p) : PassInv p' := by
  cases hmove with
  | rest => exact h
  | take hw hq =>
    rename_i i shard rest
    have hcounted := h.counted
    have hunique := h.unique
    rw [hq] at hcounted hunique
    refine ⟨?_, h.outside, fun s => ?_⟩
    · have hbusy := countP_set_add Worker.busy hw (.took shard)
      simp [Worker.busy, Worker.shard?] at hbusy
      simp [Pool.setWorker] at hcounted ⊢
      omega
    · have hholds := countP_set_add (Worker.holds s) hw (.took shard)
      have hs := hunique s
      simp only [holds_idle, holds_took] at hholds
      dsimp only [Pool.setWorker]
      by_cases heq : shard = s
      · simp [heq] at hholds hs ⊢
        omega
      · simp [heq] at hholds hs ⊢
        omega
  | exit hw | resolve hw | cached hw => exact h.setWorker hw rfl
  | leave hw hs he =>
    refine h.setWorker hw ?_
    rcases hs with rfl | rfl | ⟨o, rfl⟩ | ⟨o, v, rfl⟩ <;> rfl
  | resolved hw | page hw | unprocessable hw | committed hw => exact (h.onShard _ _).setWorker hw rfl
  | processed hw hv =>
    refine (h.onShard _ _).setWorker hw ?_
    unfold Worker.next
    split <;> rfl
  | report hw =>
    rename_i i shard err
    have hw' : (p.reportError cfg err).workers[i]? = some (.ending shard err) := by
      rw [reportError_workers]
      exact hw
    exact (h.reportError err).setWorker hw' rfl
  | finish hw =>
    rename_i i shard
    have hbusy := countP_set_add Worker.busy hw .idle
    simp [Worker.busy, Worker.shard?] at hbusy
    have hcounted := h.counted
    refine ⟨?_, fun hl => ?_, fun s => ?_⟩
    · simp only [Pool.setWorker]
      omega
    · have h0 := h.outside hl
      omega
    · have hholds := countP_set_add (Worker.holds s) hw .idle
      have hs := h.unique s
      simp only [holds_idle, holds_reported] at hholds
      dsimp only [Pool.setWorker]
      by_cases heq : shard = s
      · simp [heq] at hholds ⊢
        omega
      · simp [heq] at hholds ⊢
        omega
  | between hl hl' ho hr hp hli =>
    have hloop := h.loop_of_outside (h.outside hl) hl'
    exact ⟨hloop.counted, hloop.outside, hloop.unique⟩
  | pass hl hs =>
    rename_i offsets
    have h0 := h.outside (by rw [hl]; rfl)
    obtain ⟨-, hq, hbusy⟩ := h.empty h0
    refine ⟨?_, by simp [Loop.inPass], fun s => ?_⟩
    · simp [Loop.todo, hq, hbusy, h0]
    · have hnodup : (pendingShards cfg p offsets).Nodup := pendingShards_nodup offsets
      have hcount := List.nodup_iff_count.mp hnodup s
      have hholds := holds_le_busy s p.workers
      simp only [Loop.todo, hq, List.count_nil]
      omega
  | send hl =>
    rename_i shard todo
    have hcounted := h.counted
    have hunique := h.unique
    have htodo : (Loop.dispatch todo).todo = todo := by
      cases todo <;> rfl
    have hpass : (Loop.dispatch todo).inPass = true := by
      cases todo <;> rfl
    simp only [hl, Loop.todo, List.length_cons] at hcounted
    refine ⟨?_, fun hout => ?_, fun s => ?_⟩
    · simp only [htodo, List.length_append, List.length_singleton]
      omega
    · rw [hpass] at hout
      cases hout
    · have hs := hunique s
      simp only [hl, Loop.todo, List.count_cons] at hs
      simp only [htodo, List.count_append, List.count_singleton]
      omega
  | abandon hl hc =>
    have hcounted := h.counted
    simp only [hl, Loop.todo] at hcounted
    refine ⟨?_, by simp [Loop.inPass], fun s => ?_⟩
    · simp only [Loop.todo, List.length_nil]
      omega
    · have hs := h.unique s
      simp only [Loop.todo, List.count_nil]
      omega
  | awake hl h0 hl' he hp hli =>
    have hloop := h.loop_of_outside h0 hl'
    exact ⟨hloop.counted, hloop.outside, hloop.unique⟩
  | stop | signal => exact ⟨h.counted, h.outside, h.unique⟩
  | cancel hl => exact ⟨h.counted, h.outside, h.unique⟩

theorem passInv_start (cfg : PoolConfig) : PassInv (Pool.start cfg) := by
  have hidle (q : Worker → Bool) (hq : q .idle = false) : (List.replicate cfg.numWorkers Worker.idle).countP q =
      0 := by
    rw [List.countP_replicate, hq]
    rfl
  refine ⟨?_, fun _ => rfl, fun shard => ?_⟩
  · simp [Pool.start, Loop.todo, hidle Worker.busy rfl]
  · simp [Pool.start, Loop.todo, hidle (Worker.holds shard) rfl]

def Stuck (p : Pool) : Prop :=
  (p.loop = .waiting ∨ p.loop = .abandoned) ∧ 0 < p.undone ∧ ∀ w ∈ p.workers, w = .exited

instance (p : Pool) : Decidable (Stuck p) := by
  unfold Stuck
  infer_instance

def Loop.starts (running : Bool) : Loop → Bool
  | .pulled => running
  | .listing | .dispatching _ => true
  | _ => false

def Pool.hasWork (p : Pool) : Bool := p.workCh != [] || p.loop.starts p.running

/-- The context is cancelled, by `Stop` or from outside, while every shard of the pass
that is not done is with a worker, and no pass starts afterwards. -/
def Orderly (p : Pool) : PoolLabel → Prop
  | .stopCancels | .cancel => p.hasWork = false
  | .pull => p.cancelled = false ∨ p.running = false
  | _ => True

instance (p : Pool) (l : PoolLabel) : Decidable (Orderly p l) := by
  cases l <;> unfold Orderly <;> infer_instance

theorem hasWork_eq_false : p.hasWork = false ↔ p.workCh = [] ∧ p.loop.starts p.running = false := by
  simp [Pool.hasWork]

structure ShutdownInv (cfg : PoolConfig) (p : Pool) : Prop where
  pass : PassInv p
  size : p.workers.length = cfg.numWorkers
  stays : p.cancelled = false → ∀ w ∈ p.workers, w ≠ .exited
  closed : p.cancelled = true → p.workCh = [] ∧ p.loop.starts p.running = false

theorem shutdownInv_start (cfg : PoolConfig) : ShutdownInv cfg (Pool.start cfg) where
  pass := passInv_start cfg
  size := List.length_replicate
  stays := by
    intro _ w hw
    rw [List.eq_of_mem_replicate hw]
    simp
  closed := by simp [Pool.start]

theorem ShutdownInv.stays_set (h : ShutdownInv cfg p) {i : ℕ} {w' : Worker} (hw' : w' ≠ .exited)
    (hc : p.cancelled = false) : ∀ w ∈ p.workers.set i w', w ≠ .exited := by
  intro w hw
  rcases List.mem_or_eq_of_mem_set hw with hw | rfl
  · exact h.stays hc w hw
  · exact hw'

theorem reportError_frame (err : Option Failure) : (p.reportError cfg err).cancelled = p.cancelled ∧
    (p.reportError cfg err).workCh = p.workCh ∧ (p.reportError cfg err).loop = p.loop ∧
    (p.reportError cfg err).running = p.running := by
  unfold Pool.reportError
  split
  · split <;> exact ⟨rfl, rfl, rfl, rfl⟩
  · exact ⟨rfl, rfl, rfl, rfl⟩

theorem PoolMove.shutdownInv {l : PoolLabel} {p' : Pool} (hmove : PoolMove cfg p l p') (h : ShutdownInv cfg p)
    (ho : Orderly p l) : ShutdownInv cfg p' := by
  have hpass := hmove.passInv h.pass
  have hsize {i : ℕ} {w : Worker} : (p.workers.set i w).length = cfg.numWorkers := by
    rw [List.length_set, h.size]
  -- a pass to come contradicts the cancellation
  have hstarts (hs : p.loop.starts p.running = true) : p.cancelled = false := by
    by_contra hc
    rw [(h.closed (by simpa using hc)).2] at hs
    cases hs
  cases hmove with
  | rest => exact h
  | take hw hq =>
    have hc : p.cancelled = false := by
      by_contra hc
      rw [(h.closed (by simpa using hc)).1] at hq
      cases hq
    exact ⟨hpass, hsize, fun _ => h.stays_set (by simp) hc, fun hc' => absurd (hc.symm.trans hc') (by simp)⟩
  | exit hw hc => exact ⟨hpass, hsize, fun hc' => absurd (hc.symm.trans hc') (by simp), h.closed⟩
  | resolve | leave | cached | resolved | page | unprocessable | committed | finish =>
    exact ⟨hpass, hsize, h.stays_set (by simp), h.closed⟩
  | processed hw hv =>
    refine ⟨hpass, hsize, h.stays_set ?_, h.closed⟩
    unfold Worker.next
    split <;> simp
  | report hw =>
    rename_i i shard err
    obtain ⟨hc, hq, hl, hr⟩ : (p.reportError cfg err).cancelled = p.cancelled ∧ _ := reportError_frame err
    refine ⟨hpass, ?_, ?_, ?_⟩
    · dsimp only [Pool.setWorker]
      rw [reportError_workers]
      exact hsize
    · dsimp only [Pool.setWorker]
      rw [reportError_workers, hc]
      exact h.stays_set (by simp)
    · dsimp only [Pool.setWorker]
      rw [hc, hq, hl, hr]
      exact h.closed
  | between hl hl' hover hr hpulled hlisting =>
    rename_i loop' storeFailures' running' stopSignal' stopper'
    refine ⟨hpass, h.size, h.stays, fun hc => ⟨(h.closed hc).1, ?_⟩⟩
    cases loop' with
    | pulled =>
      obtain rfl := hpulled rfl
      obtain hnot | hstop := ho
      · exact absurd (hnot.symm.trans hc) (by simp)
      · by_contra hrun
        rw [hr (by simpa [Loop.starts] using hrun)] at hstop
        cases hstop
    | listing =>
      obtain ⟨hpulled, hrun⟩ := hlisting rfl
      have hnot := hstarts (by rw [hpulled, hrun]; rfl)
      exact absurd (hnot.symm.trans hc) (by simp)
    | dispatching todo => simp [Loop.inPass] at hl'
    | _ => rfl
  | pass hl | send hl =>
    have hnot := hstarts (by rw [hl]; rfl)
    exact ⟨hpass, h.size, h.stays, fun hc => absurd (hnot.symm.trans hc) (by simp)⟩
  | abandon hl hc =>
    have hnot := hstarts (by rw [hl]; rfl)
    exact absurd (hnot.symm.trans hc) (by simp)
  | awake hl h0 hl' he hpulled hlisting =>
    rename_i loop' workerErrCh' storeFailures'
    refine ⟨hpass, h.size, h.stays, fun hc => ⟨(h.closed hc).1, ?_⟩⟩
    cases loop' with
    | pulled => exact absurd rfl hpulled
    | listing => exact absurd rfl hlisting
    | dispatching todo => simp [Loop.inPass] at hl'
    | _ => rfl
  | stop =>
    refine ⟨hpass, h.size, h.stays, fun hc => ⟨(h.closed hc).1, ?_⟩⟩
    have hclosed := (h.closed hc).2
    cases hl : p.loop with
    | pulled => rfl
    | _ =>
      rw [hl] at hclosed
      exact hclosed
  | signal => exact ⟨hpass, h.size, h.stays, h.closed⟩
  | cancel hl =>
    have hclosed : p.hasWork = false := by
      rcases hl with rfl | rfl <;> exact ho
    exact ⟨hpass, h.size, fun hc => absurd hc (by simp), fun _ => hasWork_eq_false.mp hclosed⟩

theorem ShutdownInv.not_stuck (h : ShutdownInv cfg p) (hn : 0 < cfg.numWorkers) : ¬ Stuck p := by
  rintro ⟨hl, hpos, hexited⟩
  have htodo : p.loop.todo = [] := by
    rcases hl with hl | hl <;> rw [hl] <;> rfl
  have hbusy : p.workers.countP Worker.busy = 0 := by
    rw [List.countP_eq_zero]
    intro w hw
    rw [hexited w hw]
    simp [Worker.busy, Worker.shard?]
  by_cases hc : p.cancelled = true
  · have hcounted := h.pass.counted
    rw [htodo, (h.closed hc).1, hbusy] at hcounted
    simp at hcounted
    omega
  · -- without a cancellation every worker is still there
    obtain ⟨w, hw⟩ := List.exists_mem_of_length_pos (h.size ▸ hn)
    exact h.stays (by simpa using hc) w hw (hexited w hw)

end

/-- If the context is only cancelled while no shard waits for a worker, and no pass
starts afterwards, the loop never waits for workers that have left. -/
theorem pool_never_stuck (cfg : PoolConfig) (hn : 0 < cfg.numWorkers) (labels : List PoolLabel)
    (ho : Along (poolStep cfg) Orderly (Pool.start cfg) labels) :
    ∀ before, before <+: labels → ¬ Stuck (run (poolStep cfg) (Pool.start cfg) before) := by
  rintro before ⟨later, rfl⟩
  have hinv := run_invariant (poolStep cfg) (ShutdownInv cfg)
    (fun p l h hl => (poolStep_move p l).shutdownInv h hl) (shutdownInv_start cfg) ((along_append _).mp ho).1
  exact hinv.not_stuck hn

def defaultPool : PoolConfig where
  recoveryPolicy := .fail
  retries := 5
  deadLetterHandler := false
  encryptor := false
  eventAdapters := false
  startingOffset := zeroInstant
  numWorkers := 5

def dispatched (n : ℕ) : List PoolLabel :=
  [.pull, .checkRunning, .shardOffsets (.ok ⟨(List.range n).map fun shard => (shard, 1), by
      simpa [Function.comp_def] using List.nodup_range⟩)] ++
    List.replicate n .send

def leaveAll : List PoolLabel := (List.range 5).map fun i => .work i .exit

/-- The channel holds the one shard of a pass when `Stop` cancels the context. All
workers take the cancellation and none the shard. -/
theorem pool_stuck_on_stop : Stuck (run (poolStep defaultPool) (Pool.start defaultPool)
    (dispatched 1 ++ [.stop, .stopSends, .stopCancels] ++ leaveAll)) := by
  decide

def orderlyStop : List PoolLabel :=
  dispatched 1 ++ [.work 0 .take, .stop, .stopSends, .stopCancels] ++ leaveAll ++
    [.work 0 .checkRunning, .work 0 .report, .work 0 .done, .awake, .work 0 .exit]

theorem pool_never_stuck_orderly :
    let p := run (poolStep defaultPool) (Pool.start defaultPool) orderlyStop
    (∀ w ∈ p.workers, w = .exited) ∧ p.undone = 0 ∧ ¬ Stuck p :=
  ⟨by decide, by decide,
    pool_never_stuck defaultPool (by decide) orderlyStop (by decide) orderlyStop (List.prefix_refl _)⟩

end Ego.Projection

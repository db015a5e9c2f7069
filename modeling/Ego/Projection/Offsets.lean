import Ego.Projection.Shutdown

/-! # Offsets and the events below them -/

namespace Ego.Projection
open Persistence Lib

def RecoveryPolicy.skips : RecoveryPolicy → Bool
  | .skip | .retryAndSkip => true
  | _ => false

def PoolConfig.attempts (cfg : PoolConfig) : ℕ :=
  match cfg.recoveryPolicy with
  | .retryAndFail | .retryAndSkip => maxTries cfg.retries.toInt64
  | _ => 1

/-- The event was handled, or given up by a skipping policy after all its attempts and
passed to the dead letter handler, if there is one. -/
def Settled (cfg : PoolConfig) (l : Ledger) (e : Event) : Prop :=
  (e, .handled) ∈ l.outcomes ∨ ∃ causes, (e, .skipped causes) ∈ l.outcomes ∧
    cfg.recoveryPolicy.skips = true ∧
      causes.length = cfg.attempts ∧ (cfg.deadLetterHandler = true → e ∈ l.deadLetters)

def Poisoned (l : Ledger) : Prop := ∃ e err, (e, .failed err) ∈ l.outcomes

def pageAfter (currOffset : ℤ) (events : List Event) (nextOffset : ℤ) : Bool :=
  events.all (fun e => currOffset < e.timestamp && e.timestamp ≤ nextOffset) &&
    (events.isEmpty || events.any fun e => e.timestamp == nextOffset)

def pageOk (p : Pool) : PoolLabel → Bool
  | .work i (.getShardEvents (.ok (events, nextOffset))) =>
    match p.workers[i]? with
    | some (.reading _ currOffset) => pageAfter currOffset events nextOffset
    | _ => true
  | _ => true

/-- A worker that comes back with an event it cannot process finds the runner stopped,
or its error reaches the loop: the context is not cancelled and `workerErrCh` has a
free slot. -/
def heard (cfg : PoolConfig) (p : Pool) : PoolLabel → Bool
  | .work i .report =>
    match p.workers[i]? with
    | some (.ending _ (some (.event _))) =>
      !p.running || !p.cancelled && p.workerErrCh.length < cfg.numWorkers
    | _ => true
  | _ => true

def Writes (p : Pool) (l : PoolLabel) (shard : ℕ) (nextOffset : ℤ) : Prop :=
  ∃ i currOffset r, p.workers[i]? = some (.committing shard currOffset nextOffset) ∧ l = .work i (.writeOffset r)

/-! ### The recovery policy -/

theorem maxTries_pos (tries : Int64) : 0 < maxTries tries := by
  unfold maxTries
  split
  · decide
  · rename_i h
    have hpos : 0 < tries.toInt := by
      have hlt : (0 : Int64) < tries := Int64.not_le.mp h
      simpa using Int64.lt_iff_toInt_lt.mp hlt
    unfold Int64.toNatClampNeg
    omega

theorem retryFrom_length (fn : ℕ → Except Err Unit) (attempt left : ℕ) {errs : List Err}
    (h : retryFrom fn attempt left = .error errs) : errs.length = left + 1 := by
  induction left generalizing attempt errs with
  | zero =>
    unfold retryFrom at h
    cases hf : fn attempt with
    | ok u => simp [hf, Except.mapError] at h
    | error err =>
      simp only [hf, Except.mapError, Except.error.injEq] at h
      rw [← h]
      rfl
  | succ left ih =>
    unfold retryFrom at h
    cases hf : fn attempt with
    | ok u => simp [hf] at h
    | error err =>
      cases hr : retryFrom fn (attempt + 1) left with
      | ok u => simp [hf, hr, Except.mapError] at h
      | error errs' =>
        simp only [hf, hr, Except.mapError, Except.error.injEq] at h
        rw [← h, List.length_cons, ih (attempt + 1) hr]

theorem retryOn_length {tries : Int64} {fn : ℕ → Except Err Unit} {errs : List Err}
    (h : retryOn tries fn = .error errs) : errs.length = maxTries tries := by
  have hlen := retryFrom_length fn 1 _ h
  have hpos := maxTries_pos tries
  omega

theorem verdictOn_skipped {cfg : PoolConfig} {calls : Calls} {e : Event} {causes : List Err}
    (h : verdictOn cfg calls e = .skipped causes) : cfg.recoveryPolicy.skips = true ∧
      causes.length = cfg.attempts := by
  unfold verdictOn at h
  split at h
  · cases h
  · unfold handleWithPolicy at h
    unfold PoolConfig.attempts
    split at h
    · split at h <;> cases h
    · split at h <;> cases h
    · split at h <;> cases h
    · rename_i hp
      split at h
      · cases h
      · rename_i errs hr
        cases h
        rw [hp]
        exact ⟨rfl, retryOn_length hr⟩
    · rename_i hp
      split at h
      · cases h
      · cases h
        rw [hp]
        exact ⟨rfl, rfl⟩

/-! ### Ledgers -/

structure LedgerOk (l : Ledger) : Prop where
  increasing : l.written.Pairwise (· < ·)
  bounded : ∀ v ∈ l.written, ∃ committed, l.committed = some committed ∧ v ≤ committed
  passed : ∀ v ∈ l.written, ∀ e err, (e, .failed err) ∈ l.outcomes → v < e.timestamp

section
variable {cfg : PoolConfig} {l : Ledger} {event : Event} {verdict : Verdict}

theorem record_frame : (l.record cfg event verdict).committed = l.committed ∧
    (l.record cfg event verdict).written = l.written ∧ (l.record cfg event verdict).read = l.read ∧
    (l.record cfg event verdict).outcomes = l.outcomes ++ [(event, verdict)] ∧
    l.deadLetters ⊆ (l.record cfg event verdict).deadLetters := by
  unfold Ledger.record
  split
  · refine ⟨rfl, rfl, rfl, rfl, ?_⟩
    split
    · exact List.subset_append_left _ _
    · exact fun _ h => h
  · exact ⟨rfl, rfl, rfl, rfl, fun _ h => h⟩

theorem Settled.record {e : Event} (h : Settled cfg l e) (event : Event) (verdict : Verdict) :
    Settled cfg (l.record cfg event verdict) e := by
  obtain ⟨-, -, -, houtcomes, hdead⟩ : (l.record cfg event verdict).committed = l.committed ∧ _ := record_frame
  unfold Settled
  rw [houtcomes]
  rcases h with h | ⟨causes, h, hskips, hlen, hdl⟩
  · exact .inl (List.mem_append_left _ h)
  · exact .inr ⟨causes, List.mem_append_left _ h, hskips, hlen, fun hd => hdead (hdl hd)⟩

theorem settled_record {calls : Calls} (l : Ledger) (hv : ∀ err, verdictOn cfg calls event ≠ .failed err) :
    Settled cfg (l.record cfg event (verdictOn cfg calls event)) event := by
  cases hverdict : verdictOn cfg calls event with
  | failed err => exact absurd hverdict (hv err)
  | handled =>
    left
    simp [Ledger.record]
  | skipped causes =>
    obtain ⟨hskips, hlen⟩ := verdictOn_skipped hverdict
    refine .inr ⟨causes, by simp [Ledger.record], hskips, hlen, fun hd => ?_⟩
    simp [Ledger.record, hd]

theorem poisoned_record (hv : ∀ err, verdict ≠ .failed err) : Poisoned (l.record cfg event verdict) ↔
    Poisoned l := by
  obtain ⟨-, -, -, houtcomes, -⟩ : (l.record cfg event verdict).committed = l.committed ∧ _ := record_frame
  unfold Poisoned
  rw [houtcomes]
  constructor
  · rintro ⟨e, err, h⟩
    rcases List.mem_append.mp h with h | h
    · exact ⟨e, err, h⟩
    · obtain ⟨-, heq⟩ := Prod.mk.inj (List.mem_singleton.mp h)
      exact absurd heq.symm (hv err)
  · rintro ⟨e, err, h⟩
    exact ⟨e, err, List.mem_append_left _ h⟩

end

/-! ### Workers -/

def Worker.remaining : Worker → List Event
  | .handling _ _ events _ => events
  | _ => []

/-- A worker between its check of `running` and the commit works on a shard without
a failed event, from the shard's committed offset on. -/
def WorkerOk (l : Ledger) : Worker → Prop
  | .resolving _ => ¬ Poisoned l
  | .reading _ currOffset => ¬ Poisoned l ∧ l.committed = some currOffset
  | .handling _ currOffset events nextOffset => ¬ Poisoned l ∧ l.committed = some currOffset ∧
      (∀ e ∈ events, currOffset < e.timestamp) ∧ currOffset < nextOffset
  | .committing _ currOffset nextOffset => ¬ Poisoned l ∧ l.committed = some currOffset ∧ currOffset < nextOffset
  | _ => True

/-- The shard will not be processed again: the runner is stopped, or the failure is
with a worker or with the loop of this pass, in which the shard does not come again. -/
def Halted (p : Pool) (shard : ℕ) : Prop :=
  p.running = false ∨ p.loop.over = true ∨ p.loop.inPass = true ∧
    ((∃ err, .ending shard (some (.event err)) ∈ p.workers) ∨
      (∃ f ∈ p.workerErrCh, f.isEvent = true) ∧ (shard ∈ p.done ∨ .reported shard ∈ p.workers))

structure OffsetInv (cfg : PoolConfig) (p : Pool) : Prop where
  pass : PassInv p
  workers : ∀ w ∈ p.workers, ∀ shard, w.shard? = some shard → WorkerOk (p.shards shard) w
  ledgers : ∀ shard, LedgerOk (p.shards shard)
  reads : ∀ shard, ∀ e ∈ (p.shards shard).read, Settled cfg (p.shards shard) e ∨ Poisoned (p.shards shard) ∨
    ∃ w ∈ p.workers, w.shard? = some shard ∧ e ∈ w.remaining
  halted : ∀ shard, Poisoned (p.shards shard) → Halted p shard

section
variable {cfg : PoolConfig} {p : Pool} {i : ℕ} {w w' : Worker} {shard : ℕ}

theorem mem_set_of_ne {α : Type} {l : List α} {i : ℕ} {a b x : α} (h : l[i]? = some a) (hx : x ∈ l)
    (hne : x ≠ a) :
    x ∈ l.set i b := by
  obtain ⟨j, hj⟩ := List.mem_iff_getElem?.mp hx
  have hij : i ≠ j := by
    rintro rfl
    exact hne (Option.some.inj (hj.symm.trans h))
  exact List.mem_iff_getElem?.mpr ⟨j, by rw [List.getElem?_set_ne hij, hj]⟩

theorem mem_set_self {α : Type} {l : List α} {i : ℕ} {a : α} (h : l[i]? = some a) (b : α) : b ∈ l.set i b := by
  obtain ⟨hi, -⟩ := List.getElem?_eq_some_iff.mp h
  exact List.mem_set hi b

theorem PassInv.held (h : PassInv p) (hi : p.workers[i]? = some w) (hs : w.shard? = some shard) (w' : Worker) :
    (∀ x ∈ p.workers.set i w', x.shard? = some shard → x = w') ∧ shard ∉ p.loop.todo ∧
      shard ∉ p.workCh ∧
      shard ∉ p.done := by
  have hholds : w.holds shard = true := beq_iff_eq.mpr hs
  have hcount := countP_set_add (Worker.holds shard) hi .idle
  rw [if_pos hholds, holds_idle, if_neg (by simp)] at hcount
  have hunique := h.unique shard
  refine ⟨fun x hx hxs => ?_, ?_, ?_, ?_⟩
  · obtain ⟨j, hj⟩ := List.mem_iff_getElem?.mp hx
    by_cases hij : i = j
    · subst hij
      obtain ⟨hlt, rfl⟩ := List.getElem?_eq_some_iff.mp hj
      exact List.getElem_set_self hlt
    · -- a second worker would survive the removal of the first
      rw [List.getElem?_set_ne hij] at hj
      have hmem : x ∈ p.workers.set i .idle :=
        List.mem_iff_getElem?.mpr ⟨j, by rw [List.getElem?_set_ne hij, hj]⟩
      have hpos : 0 < (p.workers.set i .idle).countP (Worker.holds shard) :=
        List.countP_pos_iff.mpr ⟨x, hmem, beq_iff_eq.mpr hxs⟩
      omega
  · exact List.count_eq_zero.mp (by omega)
  · exact List.count_eq_zero.mp (by omega)
  · exact List.count_eq_zero.mp (by omega)

theorem PassInv.sole (h : PassInv p) (hi : p.workers[i]? = some w) (hs : w.shard? = some shard) :
    ∀ x ∈ p.workers, x.shard? = some shard → x = w := by
  have hset : p.workers.set i w = p.workers := by
    obtain ⟨hlt, rfl⟩ := List.getElem?_eq_some_iff.mp hi
    exact List.set_getElem_self hlt
  have hsole := (h.held hi hs w).1
  rwa [hset] at hsole

theorem PassInv.inPass_of_held (h : PassInv p) (hi : p.workers[i]? = some w) (hs : w.shard? = some shard) :
    p.loop.inPass = true := by
  by_contra hout
  have h0 := h.outside (by simpa using hout)
  have hcounted := h.counted
  have hpos : 0 < p.workers.countP Worker.busy :=
    List.countP_pos_iff.mpr ⟨w, List.mem_of_getElem? hi, by simp [Worker.busy, hs]⟩
  omega

theorem Loop.inPass_of_over {loop : Loop} (h : loop.over = true) : loop.inPass = false := by
  cases loop with
  | failing | stopping | returned => rfl
  | _ => cases h

theorem OffsetInv.reads_held (h : OffsetInv cfg p) (hi : p.workers[i]? = some w) (hs : w.shard? = some shard) :
    ∀ e ∈ (p.shards shard).read, Settled cfg (p.shards shard) e ∨ Poisoned (p.shards shard) ∨
      e ∈ w.remaining := by
  intro e he
  rcases h.reads shard e he with hsettled | hpoisoned | ⟨x, hx, hxs, hrem⟩
  · exact .inl hsettled
  · exact .inr (.inl hpoisoned)
  · obtain rfl := h.pass.sole hi hs x hx hxs
    exact .inr (.inr hrem)

theorem OffsetInv.stopped_of_poisoned (h : OffsetInv cfg p) (hi : p.workers[i]? = some w)
    (hs : w.shard? = some shard) (hp : Poisoned (p.shards shard))
    (hending : ∀ err, w ≠ .ending shard (some (.event err))) (hreported : w ≠ .reported shard) :
    p.running = false := by
  have hpass := h.pass.inPass_of_held hi hs
  obtain ⟨-, -, -, hdone⟩ := h.pass.held hi hs w
  rcases h.halted shard hp with hstopped | hover | ⟨-, ⟨err, hmem⟩ | ⟨-, hmem | hmem⟩⟩
  · exact hstopped
  · rw [Loop.inPass_of_over hover] at hpass
    cases hpass
  · exact absurd (h.pass.sole hi hs _ hmem rfl).symm (hending err)
  · exact absurd hmem hdone
  · exact absurd (h.pass.sole hi hs _ hmem rfl).symm hreported

theorem Halted.of_workers {p' : Pool} {t : ℕ} (h : Halted p t) (hr : p'.running = p.running) (hl : p'.loop = p.loop)
    (hd : p.done ⊆ p'.done) (he : p.workerErrCh ⊆ p'.workerErrCh)
    (hw : ∀ x ∈ p.workers, x.shard? = some t → x ∈ p'.workers) : Halted p' t := by
  unfold Halted
  rw [hr, hl]
  rcases h with hstopped | hover | ⟨hpass, ⟨err, hmem⟩ | ⟨⟨f, hf, hevent⟩, hplace⟩⟩
  · exact .inl hstopped
  · exact .inr (.inl hover)
  · exact .inr (.inr ⟨hpass, .inl ⟨err, hw _ hmem rfl⟩⟩)
  · refine .inr (.inr ⟨hpass, .inr ⟨⟨f, he hf, hevent⟩, ?_⟩⟩)
    exact hplace.imp (fun h => hd h) fun hmem => hw _ hmem rfl

theorem OffsetInv.advance (h : OffsetInv cfg p) (hi : p.workers[i]? = some w) (hs : w.shard? = some shard)
    (hs' : w'.shard? = some shard) (f : Ledger → Ledger) (hw' : WorkerOk (f (p.shards shard)) w')
    (hl : LedgerOk (f (p.shards shard)))
    (hr : ∀ e ∈ (f (p.shards shard)).read, Settled cfg (f (p.shards shard)) e ∨ Poisoned (f (p.shards shard)) ∨
      e ∈ w'.remaining) (hp : Poisoned (f (p.shards shard)) → Halted ((p.onShard shard f).setWorker i w') shard) :
    OffsetInv cfg ((p.onShard shard f).setWorker i w') := by
  have hself : ((p.onShard shard f).setWorker i w').shards shard = f (p.shards shard) := Function.update_self ..
  have hother (t : ℕ) (ht : t ≠ shard) : ((p.onShard shard f).setWorker i w').shards t = p.shards t :=
    Function.update_of_ne ht ..
  have hkept (t : ℕ) (ht : t ≠ shard) (x : Worker) (hx : x ∈ p.workers) (hxt : x.shard? = some t) :
      x ∈ p.workers.set i w' := by
    refine mem_set_of_ne hi hx ?_
    rintro rfl
    exact ht (Option.some.inj (hxt.symm.trans hs))
  refine ⟨(h.pass.onShard shard f).setWorker hi (hs'.trans hs.symm), ?_, ?_, ?_, ?_⟩
  · intro x hx t hxt
    by_cases ht : t = shard
    · subst ht
      obtain rfl := (h.pass.held hi hs w').1 x hx hxt
      rw [hself]
      exact hw'
    · rw [hother t ht]
      rcases List.mem_or_eq_of_mem_set hx with hx | rfl
      · exact h.workers x hx t hxt
      · exact absurd (Option.some.inj (hxt.symm.trans hs')) ht
  · intro t
    by_cases ht : t = shard
    · subst ht
      rw [hself]
      exact hl
    · rw [hother t ht]
      exact h.ledgers t
  · intro t e he
    by_cases ht : t = shard
    · subst ht
      rw [hself] at he ⊢
      exact (hr e he).imp_right (Or.imp_right fun hrem => ⟨w', mem_set_self hi w', hs', hrem⟩)
    · rw [hother t ht] at he ⊢
      exact (h.reads t e he).imp_right (Or.imp_right fun ⟨x, hx, hxt, hrem⟩ =>
        ⟨x, hkept t ht x hx hxt, hxt, hrem⟩)
  · intro t hpt
    by_cases ht : t = shard
    · subst ht
      rw [hself] at hpt
      exact hp hpt
    · rw [hother t ht] at hpt
      exact (h.halted t hpt).of_workers rfl rfl (fun _ h => h) (fun _ h => h) (hkept t ht)

theorem OffsetInv.moveOn (h : OffsetInv cfg p) (hi : p.workers[i]? = some w) (hs : w.shard? = some shard)
    (hs' : w'.shard? = some shard) (hw' : WorkerOk (p.shards shard) w') (hrem : w.remaining = [])
    (hp : Poisoned (p.shards shard) → Halted (p.setWorker i w') shard) : OffsetInv cfg (p.setWorker i w') := by
  have hid : p.onShard shard id = p := by
    unfold Pool.onShard
    rw [id_eq, Function.update_eq_self]
  have hadv := h.advance hi hs hs' id hw' (h.ledgers shard) (fun e he => ?_) (by rwa [hid])
  · rwa [hid] at hadv
  · rcases h.reads_held hi hs e he with hsettled | hpoisoned | hmem
    · exact .inl hsettled
    · exact .inr (.inl hpoisoned)
    · rw [hrem] at hmem
      cases hmem

theorem OffsetInv.frame (h : OffsetInv cfg p) {p' : Pool} (hpass : PassInv p') (hshards : p'.shards = p.shards)
    (hold : ∀ x ∈ p'.workers, x ∈ p.workers ∨ ∀ l, WorkerOk l x)
    (hkept : ∀ x ∈ p.workers, x.remaining ≠ [] → x ∈ p'.workers)
    (hh : ∀ t, Poisoned (p.shards t) → Halted p t → Halted p' t) : OffsetInv cfg p' := by
  refine ⟨hpass, ?_, ?_, ?_, ?_⟩
  · intro x hx t hxt
    rw [hshards]
    rcases hold x hx with hx | hok
    · exact h.workers x hx t hxt
    · exact hok _
  · rw [hshards]
    exact h.ledgers
  · intro t e he
    rw [hshards] at he ⊢
    exact (h.reads t e he).imp_right (Or.imp_right fun ⟨x, hx, hxt, hrem⟩ =>
      ⟨x, hkept x hx (List.ne_nil_of_mem hrem), hxt, hrem⟩)
  · intro t hpt
    rw [hshards] at hpt
    exact hh t hpt (h.halted t hpt)

/-! ### The steps of a worker -/

section
variable {currOffset nextOffset : ℤ} {event : Event} {events : List Event}

section
variable (h : OffsetInv cfg p)
include h

theorem OffsetInv.readsPage (hi : p.workers[i]? = some (.reading shard currOffset))
    (hpage : pageAfter currOffset (event :: events) nextOffset = true) :
    OffsetInv cfg ((p.onShard shard fun l => { l with read := l.read ++ event :: events }).setWorker i
      (.handling shard currOffset (event :: events) nextOffset)) := by
  obtain ⟨hclean, hcommitted⟩ := h.workers _ (List.mem_of_getElem? hi) shard rfl
  have hok := h.ledgers shard
  have hall : ∀ e ∈ event :: events, currOffset < e.timestamp ∧ e.timestamp ≤ nextOffset := by
    intro e he
    have hbetween := List.all_eq_true.mp ((Bool.and_eq_true _ _).mp hpage).1 e he
    simpa using hbetween
  refine h.advance hi rfl rfl _ ⟨hclean, hcommitted, fun e he => (hall e he).1, ?_⟩
    ⟨hok.increasing, hok.bounded, hok.passed⟩ (fun e he => ?_) (fun hp => absurd hp hclean)
  · obtain ⟨hlt, hle⟩ := hall event List.mem_cons_self
    omega
  · rcases List.mem_append.mp he with he | he
    · rcases h.reads_held hi rfl e he with hsettled | hpoisoned | hmem
      · exact .inl hsettled
      · exact absurd hpoisoned hclean
      · cases hmem
    · exact .inr (.inr he)

section
variable (hi : p.workers[i]? = some (.handling shard currOffset (event :: events) nextOffset))
include hi

theorem OffsetInv.processes {calls : Calls}
    (hv : ∀ err, verdictOn cfg calls event ≠ .failed err) :
    OffsetInv cfg ((p.onShard shard fun l => l.record cfg event (verdictOn cfg calls event)).setWorker i
      (.next shard currOffset events nextOffset)) := by
  obtain ⟨hclean, hcommitted, hafter, hlt⟩ := h.workers _ (List.mem_of_getElem? hi) shard rfl
  obtain ⟨hc, hw, hr, ho, -⟩ : ((p.shards shard).record cfg event (verdictOn cfg calls event)).committed =
    (p.shards shard).committed ∧ _ := record_frame
  have hclean' : ¬ Poisoned ((p.shards shard).record cfg event (verdictOn cfg calls event)) := by
    rwa [poisoned_record hv]
  have hok := h.ledgers shard
  have hshard : (Worker.next shard currOffset events nextOffset).shard? = some shard := by
    cases events <;> rfl
  refine h.advance hi rfl hshard _ ?_ ⟨?_, ?_, ?_⟩ (fun e he => ?_) (fun hp => absurd hp hclean')
  · cases events with
    | nil => exact ⟨hclean', hc.trans hcommitted, hlt⟩
    | cons event' events =>
      exact ⟨hclean', hc.trans hcommitted, fun e he => hafter e (List.mem_cons_of_mem _ he), hlt⟩
  · rw [hw]
    exact hok.increasing
  · rw [hw, hc]
    exact hok.bounded
  · intro v hv' e err hf
    exact absurd ⟨e, err, hf⟩ hclean'
  · rw [hr] at he
    rcases h.reads_held hi rfl e he with hsettled | hpoisoned | hmem
    · exact .inl (hsettled.record event _)
    · exact absurd hpoisoned hclean
    · rcases List.mem_cons.mp hmem with rfl | hmem
      · exact .inl (settled_record _ hv)
      · right
        right
        cases events with
        | nil => cases hmem
        | cons event' events => exact hmem

theorem OffsetInv.fails {err : Err} :
    OffsetInv cfg ((p.onShard shard fun l => l.record cfg event (.failed err)).setWorker i
      (.ending shard (some (.event err)))) := by
  obtain ⟨hclean, hcommitted, hafter, hlt⟩ := h.workers _ (List.mem_of_getElem? hi) shard rfl
  obtain ⟨hc, hw, -, ho, -⟩ : ((p.shards shard).record cfg event (.failed err)).committed =
    (p.shards shard).committed ∧ _ := record_frame
  have hpoisoned : Poisoned ((p.shards shard).record cfg event (.failed err)) := by
    refine ⟨event, err, ?_⟩
    exact List.mem_append_right _ (List.mem_singleton.mpr rfl)
  have hok := h.ledgers shard
  refine h.advance hi rfl rfl _ trivial ⟨?_, ?_, ?_⟩ (fun e he => .inr (.inl hpoisoned)) fun _ => ?_
  · rw [hw]
    exact hok.increasing
  · rw [hw, hc]
    exact hok.bounded
  · -- the event is after the offset the page was read from
    intro v hv e err' hf
    rcases List.mem_append.mp hf with hf | hf
    · exact hok.passed v hv e err' hf
    · obtain ⟨rfl, -⟩ := Prod.mk.inj (List.mem_singleton.mp hf)
      obtain ⟨c, hcommitted', hle⟩ := hok.bounded v hv
      obtain rfl := Option.some.inj (hcommitted'.symm.trans hcommitted)
      exact Int.lt_of_le_of_lt hle (hafter e List.mem_cons_self)
  · exact .inr (.inr ⟨h.pass.inPass_of_held hi rfl, .inl ⟨err, mem_set_self hi _⟩⟩)

end

theorem OffsetInv.commits (hi : p.workers[i]? = some (.committing shard currOffset nextOffset)) :
    OffsetInv cfg ((p.onShard shard fun l =>
      { l with written := l.written ++ [nextOffset], committed := some nextOffset }).setWorker i
        (.ending shard none)) := by
  obtain ⟨hclean, hcommitted, hlt⟩ := h.workers _ (List.mem_of_getElem? hi) shard rfl
  have hok := h.ledgers shard
  have hbelow : ∀ v ∈ (p.shards shard).written, v < nextOffset := by
    intro v hv
    obtain ⟨c, hcommitted', hle⟩ := hok.bounded v hv
    obtain rfl := Option.some.inj (hcommitted'.symm.trans hcommitted)
    exact Int.lt_of_le_of_lt hle hlt
  refine h.advance hi rfl rfl _ trivial ⟨?_, ?_, ?_⟩ (fun e he => ?_) (fun hp => absurd hp hclean)
  · refine List.pairwise_append.mpr ⟨hok.increasing, List.pairwise_singleton _ _, fun v hv x hx => ?_⟩
    rw [List.mem_singleton.mp hx]
    exact hbelow v hv
  · intro v hv
    refine ⟨nextOffset, rfl, ?_⟩
    rcases List.mem_append.mp hv with hv | hv
    · exact Int.le_of_lt (hbelow v hv)
    · exact Int.le_of_eq (List.mem_singleton.mp hv)
  · intro v hv e err hf
    exact absurd ⟨e, err, hf⟩ hclean
  · rcases h.reads_held hi rfl e he with hsettled | hpoisoned | hmem
    · exact .inl hsettled
    · exact absurd hpoisoned hclean
    · cases hmem

theorem OffsetInv.reports {err : Option Failure} (hi : p.workers[i]? = some (.ending shard err))
    (hh : ∀ e, err = some (.event e) →
      p.running = false ∨ p.cancelled = false ∧ p.workerErrCh.length < cfg.numWorkers) :
    OffsetInv cfg ((p.reportError cfg err).setWorker i (.reported shard)) := by
  have hsub : p.workerErrCh ⊆ (p.reportError cfg err).workerErrCh := by
    unfold Pool.reportError
    split
    · split
      · exact List.subset_append_left _ _
      · exact fun _ h => h
    · exact fun _ h => h
  obtain ⟨-, -, hl, hr⟩ : (p.reportError cfg err).cancelled = p.cancelled ∧ _ := reportError_frame err
  have hworkers : (p.reportError cfg err).workers = p.workers := reportError_workers err
  have hdone : (p.reportError cfg err).done = p.done := by
    unfold Pool.reportError
    split
    · split <;> rfl
    · rfl
  have hshards : (p.reportError cfg err).shards = p.shards := by
    unfold Pool.reportError
    split
    · split <;> rfl
    · rfl
  have h' : OffsetInv cfg (p.reportError cfg err) := by
    refine h.frame (h.pass.reportError err) hshards (by rw [hworkers]; exact fun x hx => .inl hx)
      (by rw [hworkers]; exact fun x hx _ => hx) fun t _ hhalt => ?_
    exact hhalt.of_workers hr hl (by rw [hdone]; exact fun _ h => h) hsub (by rw [hworkers]; exact fun x hx _ => hx)
  have hi' : (p.reportError cfg err).workers[i]? = some (.ending shard err) := by
    rw [hworkers]
    exact hi
  refine h'.moveOn hi' rfl rfl trivial rfl fun hp => ?_
  rw [hshards] at hp
  have hpass := h.pass.inPass_of_held hi rfl
  have hmem : Worker.reported shard ∈ (p.reportError cfg err).workers.set i (.reported shard) := mem_set_self hi' _
  by_cases hevent : ∃ e, err = some (.event e)
  · obtain ⟨e, rfl⟩ := hevent
    rcases hh e rfl with hstop | ⟨hc, hroom⟩
    · exact .inl (hr.trans hstop)
    · refine .inr (.inr ⟨?_, .inr ⟨⟨.event e, ?_, rfl⟩, .inr hmem⟩⟩)
      · exact (congrArg Loop.inPass hl).trans hpass
      · simp [Pool.setWorker, Pool.reportError, hc, hroom]
  · left
    refine hr.trans (h.stopped_of_poisoned hi rfl hp (fun e heq => ?_) (by simp))
    exact hevent ⟨e, (Worker.ending.inj heq).2⟩

end

end

theorem PoolMove.offsetInv {l : PoolLabel} {p' : Pool} (hstart : cfg.startingOffset = zeroInstant)
    (hmove : PoolMove cfg p l p') (h : OffsetInv cfg p) (hpage : pageOk p l = true) (hheard : heard cfg p l = true) :
    OffsetInv cfg p' := by
  have hpass := hmove.passInv h.pass
  have hfrom (o : ℤ) : startFrom cfg o = o := by simp [startFrom, hstart]
  cases hmove with
  | rest => exact h
  | take hw | exit hw =>
    refine h.frame hpass rfl (fun x hx => ?_) (fun x hx hrem => ?_) fun t _ hhalt => ?_
    · rcases List.mem_or_eq_of_mem_set hx with hx | rfl
      · exact .inl hx
      · exact .inr fun _ => trivial
    · exact mem_set_of_ne hw hx (by rintro rfl; exact hrem rfl)
    · exact hhalt.of_workers rfl rfl (fun _ h => h) (fun _ h => h)
        fun x hx hxt => mem_set_of_ne hw hx (by rintro rfl; cases hxt)
  | resolve hw hr =>
    have hclean : ¬ Poisoned (p.shards _) := fun hp => by
      rw [h.stopped_of_poisoned hw rfl hp (by simp) (by simp)] at hr
      cases hr
    exact h.moveOn hw rfl rfl hclean rfl fun hp => absurd hp hclean
  | leave hw hs he =>
    rename_i i w act shard err
    have hrem : w.remaining = [] ∧ w.shard? = some shard := by
      rcases hs with rfl | rfl | ⟨o, rfl⟩ | ⟨o, v, rfl⟩ <;> exact ⟨rfl, rfl⟩
    refine h.moveOn hw hrem.2 rfl trivial hrem.1 fun hp => .inl ?_
    refine h.stopped_of_poisoned hw hrem.2 hp (fun e => ?_) ?_
    · rcases hs with rfl | rfl | ⟨o, rfl⟩ | ⟨o, v, rfl⟩ <;> simp
    · rcases hs with rfl | rfl | ⟨o, rfl⟩ | ⟨o, v, rfl⟩ <;> simp
  | cached hw hc =>
    have hclean : ¬ Poisoned (p.shards _) := h.workers _ (List.mem_of_getElem? hw) _ rfl
    rw [hfrom]
    exact h.moveOn hw rfl rfl ⟨hclean, hc⟩ rfl fun hp => absurd hp hclean
  | resolved hw hc =>
    rename_i i shard offset
    have hclean : ¬ Poisoned (p.shards shard) := h.workers _ (List.mem_of_getElem? hw) _ rfl
    have hok := h.ledgers shard
    -- without a cached offset nothing has been written
    have hnone : (p.shards shard).written = [] := by
      refine List.eq_nil_iff_forall_not_mem.mpr fun v hv => ?_
      obtain ⟨c, hcommitted, -⟩ := hok.bounded v hv
      rw [hc] at hcommitted
      cases hcommitted
    rw [hfrom]
    refine h.advance hw rfl rfl _ ⟨hclean, rfl⟩ ⟨hok.increasing, ?_, hok.passed⟩ (fun e he => ?_)
      (fun hp => absurd hp hclean)
    · dsimp only
      rw [hnone]
      simp
    · rcases h.reads_held hw rfl e he with hsettled | hpoisoned | hmem
      · exact .inl hsettled
      · exact absurd hpoisoned hclean
      · cases hmem
  | page hw =>
    simp only [pageOk, hw] at hpage
    exact h.readsPage hw hpage
  | processed hw hv => exact h.processes hw hv
  | unprocessable hw hv => exact h.fails hw
  | committed hw => exact h.commits hw
  | report hw =>
    refine h.reports hw fun e heq => ?_
    subst heq
    simpa [heard, hw] using hheard
  | finish hw =>
    rename_i i shard
    refine h.frame hpass rfl (fun x hx => ?_) (fun x hx hrem => ?_) fun t hp hhalt => ?_
    · rcases List.mem_or_eq_of_mem_set hx with hx | rfl
      · exact .inl hx
      · exact .inr fun _ => trivial
    · exact mem_set_of_ne hw hx (by rintro rfl; exact hrem rfl)
    · rcases hhalt with hstop | hover | ⟨hin, ⟨err, hmem⟩ | ⟨hevent, hdone | hmem⟩⟩
      · exact .inl hstop
      · exact .inr (.inl hover)
      · exact .inr (.inr ⟨hin, .inl ⟨err, mem_set_of_ne hw hmem (by simp)⟩⟩)
      · exact .inr (.inr ⟨hin, .inr ⟨hevent, .inl (List.mem_append_left _ hdone)⟩⟩)
      · refine .inr (.inr ⟨hin, .inr ⟨hevent, ?_⟩⟩)
        by_cases ht : t = shard
        · subst ht
          exact .inl (List.mem_append_right _ (List.mem_singleton.mpr rfl))
        · exact .inr (mem_set_of_ne hw hmem (by simpa using ht))
  | between hl hl' hover hr hpulled hlisting =>
    refine h.frame hpass rfl (fun x hx => .inl hx) (fun x hx _ => hx) fun t _ hhalt => ?_
    rcases hhalt with hstop | hov | ⟨hin, -⟩
    · left
      by_contra hrun
      rw [hr (by simpa using hrun)] at hstop
      cases hstop
    · exact .inr (.inl (hover hov))
    · rw [hl] at hin
      cases hin
  | pass hl hs =>
    refine h.frame hpass rfl (fun x hx => .inl hx) (fun x hx _ => hx) fun t _ hhalt => ?_
    rcases hhalt with hstop | hov | ⟨hin, -⟩
    · exact .inl hstop
    · rw [hl] at hov
      cases hov
    · rw [hl] at hin
      cases hin
  | send hl =>
    rename_i shard todo
    have hin' : (Loop.dispatch todo).inPass = true := by
      cases todo <;> rfl
    refine h.frame hpass rfl (fun x hx => .inl hx) (fun x hx _ => hx) fun t _ hhalt => ?_
    rcases hhalt with hstop | hov | ⟨-, hrest⟩
    · exact .inl hstop
    · rw [hl] at hov
      cases hov
    · exact .inr (.inr ⟨hin', hrest⟩)
  | abandon hl hc =>
    refine h.frame hpass rfl (fun x hx => .inl hx) (fun x hx _ => hx) fun t _ hhalt => ?_
    rcases hhalt with hstop | hov | ⟨-, hrest⟩
    · exact .inl hstop
    · rw [hl] at hov
      cases hov
    · exact .inr (.inr ⟨rfl, hrest⟩)
  | awake hl h0 hl' he hpulled hlisting =>
    refine h.frame hpass rfl (fun x hx => .inl hx) (fun x hx _ => hx) fun t _ hhalt => ?_
    rcases hhalt with hstop | hov | ⟨hin, ⟨err, hmem⟩ | ⟨⟨f, hf, hevent⟩, -⟩⟩
    · exact .inl hstop
    · rcases hl with hl | hl <;> rw [hl] at hov <;> cases hov
    · -- all workers are through
      have hbusy := (h.pass.empty h0).2.2
      have hpos : 0 < p.workers.countP Worker.busy := List.countP_pos_iff.mpr ⟨_, hmem, rfl⟩
      omega
    · rcases he with hover | hstore
      · exact .inr (.inl hover)
      · rw [hstore f hf] at hevent
        cases hevent
  | stop => exact h.frame hpass rfl (fun x hx => .inl hx) (fun x hx _ => hx) fun t _ _ => .inl rfl
  | signal => exact h.frame hpass rfl (fun x hx => .inl hx) (fun x hx _ => hx) fun t _ hhalt => hhalt
  | cancel hl => exact h.frame hpass rfl (fun x hx => .inl hx) (fun x hx _ => hx) fun t _ hhalt => hhalt

theorem offsetInv_start (cfg : PoolConfig) : OffsetInv cfg (Pool.start cfg) := by
  refine ⟨passInv_start cfg, fun w hw shard hs => ?_, fun shard => ⟨.nil, ?_, ?_⟩, ?_, ?_⟩
  · rw [List.eq_of_mem_replicate hw] at hs
    cases hs
  · simp [Pool.start]
  · simp [Pool.start]
  · simp [Pool.start]
  · simp [Pool.start, Poisoned]

theorem OffsetInv.settled_of_writes (h : OffsetInv cfg p) {l : PoolLabel} {v : ℤ} (hw : Writes p l shard v) :
    ∀ e ∈ (p.shards shard).read, Settled cfg (p.shards shard) e := by
  obtain ⟨i, currOffset, r, hi, -⟩ := hw
  intro e he
  obtain ⟨hclean, -⟩ := h.workers _ (List.mem_of_getElem? hi) shard rfl
  rcases h.reads_held hi rfl e he with hsettled | hpoisoned | hmem
  · exact hsettled
  · exact absurd hpoisoned hclean
  · cases hmem

theorem PassInv.index_eq (h : PassInv p) {j : ℕ} (hi : p.workers[i]? = some w) (hj : p.workers[j]? = some w')
    (hs : w.shard? = some shard) (hs' : w'.shard? = some shard) : i = j := by
  by_contra hij
  have hmem : w' ∈ p.workers.set i .idle :=
    List.mem_iff_getElem?.mpr ⟨j, by rw [List.getElem?_set_ne hij, hj]⟩
  obtain rfl := (h.held hi hs .idle).1 w' hmem hs'
  cases hs'

end

/-- If every failed event is heard of, then whenever an offset is written, every event
read of the shard up to it has been handled, or given up by a skipping policy and
passed on. Offsets that were stored pass no failed event and are strictly increasing,
and no shard is with two workers. -/
theorem offsets_written_safely (cfg : PoolConfig) (hstart : cfg.startingOffset = zeroInstant) (labels : List PoolLabel)
    (h : Along (poolStep cfg) (fun p l => pageOk p l = true ∧ heard cfg p l = true) (Pool.start cfg) labels) :
    (∀ before l, before ++ [l] <+: labels →
      let p := run (poolStep cfg) (Pool.start cfg) before
      ∀ shard v, Writes p l shard v → ∀ e ∈ (p.shards shard).read, e.timestamp ≤ v →
        Settled cfg (p.shards shard) e) ∧
    ∀ before, before <+: labels →
      let p := run (poolStep cfg) (Pool.start cfg) before
      ∀ shard,
        (∀ v ∈ (p.shards shard).written, ∀ e err, (e, .failed err) ∈ (p.shards shard).outcomes →
          v < e.timestamp) ∧
        (p.shards shard).written.Pairwise (· < ·) ∧
        ∀ (i j : ℕ) (w w' : Worker), p.workers[i]? = some w → p.workers[j]? = some w' →
          w.shard? = some shard →
          w'.shard? = some shard → i = j := by
  have hinv (before : List PoolLabel) (hpre : before <+: labels) :
      OffsetInv cfg (run (poolStep cfg) (Pool.start cfg) before) := by
    obtain ⟨later, rfl⟩ := hpre
    exact run_invariant (poolStep cfg) (OffsetInv cfg)
      (fun p l hp hl => (poolStep_move p l).offsetInv hstart hp hl.1 hl.2) (offsetInv_start cfg)
      ((along_append _).mp h).1
  constructor
  · intro before l hpre p shard v hw e he _
    exact (hinv before ((List.prefix_append before [l]).trans hpre)).settled_of_writes hw e he
  · intro before hpre p shard
    have hp := hinv before hpre
    refine ⟨(hp.ledgers shard).passed, (hp.ledgers shard).increasing, fun i j w w' hi hj hs hs' => ?_⟩
    exact hp.pass.index_eq hi hj hs hs'

/-! ### A failure that is not heard of -/

def eventAt (timestamp : ℤ) : Event :=
  ⟨"account", 1, false, ⟨"", []⟩, timestamp, 5, "", false, []⟩

def handlerSays (r : Except Err Unit) : Calls where
  decrypt := .ok []
  unmarshal := .ok ⟨"", []⟩
  adapt := .ok ⟨"", []⟩
  handle := fun _ => .returned r

def offsetFails (i : ℕ) : List PoolLabel :=
  [.work i .take, .work i .checkRunning, .work i (.currentOffset (.error (.message "store"))), .work i .report,
    .work i .done]

def handlesOne (timestamp : ℤ) (r : Except Err Unit) : List PoolLabel :=
  [.work 0 .take, .work 0 .checkRunning, .work 0 (.currentOffset (.ok 0)),
    .work 0 (.getShardEvents (.ok ([eventAt timestamp], timestamp))),
    .work 0 (.processEnvelope (handlerSays r))]

def unheard : List PoolLabel :=
  dispatched 6 ++ (List.range 5).flatMap offsetFails ++ handlesOne 1 (.error (.message "handler")) ++
    [.work 0 .report, .work 0 .done, .awake, .backoffEnds, .pull, .checkRunning,
      .shardOffsets (.ok ⟨[(5, 2)], by simp⟩), .send] ++
    handlesOne 2 (.ok ()) ++ [.work 0 (.writeOffset (.ok ()))]

theorem offset_passes_failed_event :
    let p := run (poolStep defaultPool) (Pool.start defaultPool) unheard
    Along (poolStep defaultPool) (fun p l => pageOk p l = true) (Pool.start defaultPool) unheard ∧
      eventAt 1 ∈ (p.shards 5).read ∧ (p.shards 5).written = [2] ∧
      (p.shards 5).outcomes = [(eventAt 1, .failed (.message "handler")), (eventAt 2, .handled)] :=
  ⟨by decide +kernel, by decide +kernel, by decide +kernel, by decide +kernel⟩

def skippingPool : PoolConfig := { defaultPool with recoveryPolicy := .retryAndSkip, deadLetterHandler := true }

def givesUp : List PoolLabel :=
  dispatched 1 ++ handlesOne 1 (.error (.message "handler"))

theorem offsets_written_safely_skipped :
    let p := run (poolStep skippingPool) (Pool.start skippingPool) givesUp
    (p.shards 0).deadLetters = [eventAt 1] ∧ Settled skippingPool (p.shards 0) (eventAt 1) := by
  obtain ⟨hsettled, -⟩ := offsets_written_safely skippingPool rfl (givesUp ++ [.work 0 (.writeOffset (.ok ()))])
    (by decide +kernel)
  refine ⟨by decide +kernel, ?_⟩
  exact hsettled givesUp (.work 0 (.writeOffset (.ok ()))) (List.prefix_refl _) 0 1
    ⟨0, 0, .ok (), by decide +kernel, rfl⟩ (eventAt 1) (by decide +kernel) (by decide)

end Ego.Projection

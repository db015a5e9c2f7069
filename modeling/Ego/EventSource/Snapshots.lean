import Ego.Lib.Multiples
import Ego.EventSource.SoleWriter

/-!
# When a snapshot is asked for

Batched mode asks if the numbers of a write contain a multiple of the interval, direct
mode if the last of them is one.
-/

namespace Ego.EventSource
open Persistence Lib
open Enginetest (Command AccountEvent accountConfig background turnAt)

section
variable {S C E : Type} (cfg : Config S C E)

def lastRequested (n : Node S C) : ℕ :=
  (n.snapshots.getLast?.map (·.snapshot.sequenceNumber)).getD 0

def Triggers (interval : ℕ) (n n' : Node S C) : Prop :=
  n'.snapshots ≠ n.snapshots ↔ Passes interval n.actor.eventsCounter n'.actor.eventsCounter

def confirmsDirect (n : Node S C) : Bool :=
  n.actor.phase == .persisting &&
    match n.mailbox with
    | .persistEventsResponse none :: _ => true
    | _ => false

/-- A write of direct mode that is about to be confirmed stays below the next
multiple or ends on a multiple. -/
def Aligned (e : Entity S C) : Label C → Prop
  | .deliver _ _ => confirmsDirect e.node = true →
      e.node.actor.eventsCounter % cfg.snapshotInterval + (envelopesOf e.node.awaited).length < cfg.snapshotInterval ∨
        (e.node.actor.eventsCounter + (envelopesOf e.node.awaited).length) % cfg.snapshotInterval = 0
  | _ => True

instance (e : Entity S C) (l : Label C) : Decidable (Aligned cfg e l) := by
  cases l <;> unfold Aligned <;> infer_instance

def Advances (a : Actor S) : Prop := a.phase = .persisting → a.eventsCounter < a.directPendingCounter

inductive Confirmation (n : Node S C) (l : Label C) (n' : Node S C) : Prop
  | none (hd : ∀ turn place, l = .deliver turn place → confirmsDirect n = false)
      (hc : n'.actor.eventsCounter = n.actor.eventsCounter) (hs : n'.snapshots = n.snapshots)
  | direct {turn place rest a'} (hl : l = .deliver turn place) (hp : n.actor.phase = .persisting)
      (hm : n.mailbox = .persistEventsResponse none :: rest)
      (ha : a'.eventsCounter = n.actor.directPendingCounter)
      (hc : n'.actor.eventsCounter = n.actor.directPendingCounter)
      (hs : n'.snapshots = n.snapshots ++ triggerSnapshotAndRetention cfg a')
  | batch {rest a'} (hp : n.actor.phase = .flushing) (hm : n.mailbox = .persistEventsResponse none :: rest)
      (ha : a'.eventsCounter = n.actor.batchCounter) (hc : n'.actor.eventsCounter = n.actor.batchCounter)
      (hs : n'.snapshots = n.snapshots ++
        if crossedSnapshotBoundary cfg a' n.actor.eventsCounter then [snapshotAndRetain cfg a'] else [])

variable {cfg} {n : Node S C} {log : Option EventLog}

theorem performAll_untold (msg : Message C) (place : List Bool) (n : Node S C) (effects : List Effect)
    (h : ∀ req, .tellSnapshot req ∉ effects) : (performAll msg place n effects).snapshots = n.snapshots := by
  induction effects generalizing n with
  | nil => rfl
  | cons e effects ih =>
    have hrest := ih (perform msg place n e) fun req hr => h req (List.mem_cons_of_mem e hr)
    cases e with
    | tellSnapshot req => exact absurd List.mem_cons_self (h req)
    | _ => exact hrest

theorem stopped_tells (a : Actor S) (req : PersistSnapshotRequest) : .tellSnapshot req ∉ stopped a := by
  unfold stopped
  split <;> simp

variable {msg : Message C}

theorem Reaction.counts {a a' : Actor S} {turn : Turn} {effects : List Effect}
    (h : Reaction cfg a msg turn a' effects) :
    (a.phase = .persisting → msg ≠ .persistEventsResponse none) ∧ a'.eventsCounter = a.eventsCounter ∧
      (∀ req, .tellSnapshot req ∉ effects) ∨
      (∃ b : Actor S, a.phase = .persisting ∧ msg = .persistEventsResponse none ∧
      b.eventsCounter = a.directPendingCounter ∧ a'.eventsCounter = a.directPendingCounter ∧
      effects = (triggerSnapshotAndRetention cfg b).map .tellSnapshot ++ [.unstashAll]) ∨
    ∃ b : Actor S, a.phase = .flushing ∧ msg = .persistEventsResponse none ∧
      b.eventsCounter = a.batchCounter ∧ a'.eventsCounter = a.batchCounter ∧
      effects = (if crossedSnapshotBoundary cfg b a.eventsCounter then [snapshotAndRetain cfg b] else []).map
        .tellSnapshot ++ [.unstashAll] := by
  cases h
  case directConfirmed hp hs => exact .inr (.inl ⟨_, hp, rfl, rfl, rfl, by rw [hs]⟩)
  case batchConfirmed hp hs => exact .inr (.inr ⟨_, hp, rfl, rfl, rfl, by rw [hs]⟩)
  case fold ht =>
    left
    rcases ht with ⟨-, rfl⟩ | ⟨-, -, rfl⟩ <;> exact ⟨by simp, rfl, by simp⟩
  case gateFlush | foldFlush => exact .inl ⟨by simp, rfl, by simp [stopped_tells]⟩
  case ignored hp => exact .inl ⟨fun h => absurd h hp.1, rfl, by simp⟩
  all_goals exact .inl ⟨by simp, rfl, by simp⟩

theorem confirmsDirect_iff : confirmsDirect n = true ↔
    n.actor.phase = .persisting ∧ ∃ rest, n.mailbox = .persistEventsResponse none :: rest := by
  unfold confirmsDirect
  rw [Bool.and_eq_true, beq_iff_eq]
  refine and_congr_right fun _ => ?_
  split
  · rename_i rest hm
    exact ⟨fun _ => ⟨rest, hm⟩, fun _ => rfl⟩
  · rename_i hm
    exact ⟨fun h => absurd h Bool.false_ne_true, fun ⟨rest, h⟩ => absurd h (hm rest)⟩

variable {l : Label C}

theorem nodeStep_rests (store : EventsStore) (hl : l.faithful = true)
    (h : ∀ turn place, l = .deliver turn place → n.mailbox = []) :
    (nodeStep cfg store n log l).1.actor = n.actor ∧ (nodeStep cfg store n log l).1.snapshots = n.snapshots := by
  have hanswer (w : Write) (err : Option Err) (n' : Node S C) (hc : n'.actor = n.actor)
      (hs : n'.snapshots = n.snapshots) :
      (answerAsk w err n').actor = n.actor ∧ (answerAsk w err n').snapshots = n.snapshots := by
    unfold answerAsk
    split <;> exact ⟨hc, hs⟩
  cases l with
  | command | getState | flushTick => exact ⟨rfl, rfl⟩
  | timeout | restart => simp [Label.faithful] at hl
  | fire timer =>
    change (fireTimer timer n).actor = _ ∧ (fireTimer timer n).snapshots = _
    unfold fireTimer
    split <;> exact ⟨rfl, rfl⟩
  | write outcome =>
    change (writeNext cfg store outcome n log).1.actor = _ ∧ (writeNext cfg store outcome n log).1.snapshots = _
    cases hw : n.writer with
    | nil =>
      rw [writeNext_nil store outcome log hw]
      exact ⟨rfl, rfl⟩
    | cons w rest =>
      rcases writeNext_cases store outcome log hw with ⟨log', -, h | ⟨-, h⟩⟩ | ⟨err, h⟩ |
        ⟨-, h⟩ <;> rw [h]
      · exact hanswer _ _ _ rfl rfl
      · exact ⟨rfl, rfl⟩
      · exact hanswer _ _ _ rfl rfl
      · exact ⟨rfl, rfl⟩
  | deliver turn place =>
    change (deliver cfg turn place n).actor = _ ∧ (deliver cfg turn place n).snapshots = _
    rw [deliver_nil turn place (h turn place rfl)]
    exact ⟨rfl, rfl⟩

theorem deliver_confirmation (turn : Turn) (place : List Bool) (hok : PhaseOk cfg n.actor)
    {rest : List (Message C)} (hm : n.mailbox = msg :: rest) :
    Confirmation cfg n (.deliver turn place) (deliver cfg turn place n) := by
  obtain ⟨a', effects, hre, hdel⟩ := deliver_reaction turn place hok hm
  rw [hdel]
  rcases hre.counts with ⟨hd, hc, hnone⟩ | ⟨b, hp, rfl, hb, hc, rfl⟩ | ⟨b, hp, rfl, hb, hc, rfl⟩
  · refine .none (fun _ _ _ => ?_) ?_ ?_
    · rw [← Bool.not_eq_true, confirmsDirect_iff]
      rintro ⟨hp, rest', hm'⟩
      rw [hm] at hm'
      exact hd hp (List.cons.inj hm').1
    · rw [performAll_actor, hc]
    · rw [performAll_untold _ _ _ _ hnone]
  · refine .direct rfl hp hm hb ?_ ?_
    · rw [performAll_actor, hc]
    · simp [performAll_append, perform]
  · refine .batch hp hm hb ?_ ?_
    · rw [performAll_actor, hc]
    · rw [performAll_append, performAll_tellSnapshot]
      rfl

theorem Reaction.advances {a a' : Actor S} {turn : Turn} {effects : List Effect}
    (h : Reaction cfg a msg turn a' effects) (ha : Advances a) : Advances a' := by
  cases h
  case persist h =>
    intro _
    obtain ⟨henv, hne⟩ := h.envelopes
    have hlen := henv.counter_eq
    have hpos := List.length_pos_iff.mpr hne
    dsimp only
    omega
  case ignored | stashedCommand | stashedRead | readDenied | idleTick | read | denied | failed | unchanged |
      unchangedInBatch | fold | drain => exact ha
  all_goals
    -- the actor leaves the phase
    intro hp
    simp at hp

theorem nodeStep_confirmation (store : EventsStore) (hok : PhaseOk cfg n.actor)
    (hl : l.faithful = true) (ha : Advances n.actor) :
    Confirmation cfg n l (nodeStep cfg store n log l).1 ∧ Advances (nodeStep cfg store n log l).1.actor := by
  by_cases hd : ∃ turn place msg rest, l = .deliver turn place ∧ n.mailbox = msg :: rest
  · obtain ⟨turn, place, msg, rest, rfl, hm⟩ := hd
    refine ⟨deliver_confirmation turn place hok hm, ?_⟩
    change Advances (deliver cfg turn place n).actor
    obtain ⟨a', effects, hre, hdel⟩ := deliver_reaction turn place hok hm
    rw [hdel, performAll_actor]
    exact hre.advances ha
  · have hempty : ∀ turn place, l = .deliver turn place → n.mailbox = [] := by
      intro turn place hl
      cases hm : n.mailbox with
      | nil => rfl
      | cons msg rest => exact absurd ⟨turn, place, msg, rest, hl, hm⟩ hd
    obtain ⟨hactor, hsnaps⟩ : (nodeStep cfg store n log l).1.actor = n.actor ∧
      (nodeStep cfg store n log l).1.snapshots = n.snapshots := nodeStep_rests store hl hempty
    rw [hactor]
    refine ⟨.none (fun turn place h => ?_) (by rw [hactor]) hsnaps, ha⟩
    simp [confirmsDirect, hempty turn place h]

section
variable (hw : cfg.snapshotsWriter = true) (hi : 1 ≤ cfg.snapshotInterval)
include hw hi

theorem triggerSnapshotAndRetention_eq (a : Actor S) : triggerSnapshotAndRetention cfg a =
    if a.eventsCounter % cfg.snapshotInterval = 0 then [snapshotAndRetain cfg a] else [] := by
  have hne : cfg.snapshotInterval ≠ 0 := Nat.ne_of_gt hi
  by_cases h : a.eventsCounter % cfg.snapshotInterval = 0 <;>
    simp [triggerSnapshotAndRetention, hw, hne, h]

theorem crossedSnapshotBoundary_iff (a : Actor S) (previousCounter : ℕ) :
    crossedSnapshotBoundary cfg a previousCounter = true ↔
      Passes cfg.snapshotInterval previousCounter a.eventsCounter := by
  have hne : cfg.snapshotInterval ≠ 0 := Nat.ne_of_gt hi
  rw [passes_iff_div hi]
  simp [crossedSnapshotBoundary, hw, hne]

theorem Confirmation.triggers_iff {n' : Node S C} (h : Confirmation cfg n l n')
    (hj : JournalInv cfg False (Folds cfg) n log) (ha : Advances n.actor) :
    Triggers cfg.snapshotInterval n n' ↔ Aligned cfg ⟨n, log⟩ l := by
  unfold Triggers
  cases h with
  | none hd hc hs =>
    have htrig : n'.snapshots ≠ n.snapshots ↔
        Passes cfg.snapshotInterval n.actor.eventsCounter n'.actor.eventsCounter := by
      rw [hc, hs]
      exact ⟨fun h => absurd rfl h, fun h => absurd h not_passes_self⟩
    refine iff_of_true htrig ?_
    cases l with
    | deliver turn place =>
      intro hdirect
      rw [hd turn place rfl] at hdirect
      exact absurd hdirect Bool.false_ne_true
    | _ => trivial
  | direct hl hp hm hb hc hs =>
    subst hl
    obtain ⟨-, -, -, -, ⟨state, -, hext⟩, -⟩ := hj.stage.of_success hm
    have hpending : n.actor.directPendingCounter = n.actor.eventsCounter + (envelopesOf n.awaited).length := by
      simpa [Node.view, hp] using hext.counter_eq
    have hends : n.actor.directPendingCounter % cfg.snapshotInterval = 0 →
        Passes cfg.snapshotInterval n.actor.eventsCounter n.actor.directPendingCounter :=
      fun hmul => passes_of_dvd (ha hp) (Nat.dvd_of_mod_eq_zero hmul)
    have hconfirms : confirmsDirect n = true := confirmsDirect_iff.mpr ⟨hp, _, hm⟩
    rw [hs, triggerSnapshotAndRetention_eq hw hi, hb, hc]
    simp only [Aligned, hconfirms, true_implies]
    rw [← not_passes_add_iff hi, ← hpending]
    by_cases hmul : n.actor.directPendingCounter % cfg.snapshotInterval = 0
    · simp [hmul, hends hmul]
    · simp [hmul]
  | batch hp hm hb hc hs =>
    have htrig : n'.snapshots ≠ n.snapshots ↔
        Passes cfg.snapshotInterval n.actor.eventsCounter n'.actor.eventsCounter := by
      rw [hs, hc, ← hb, ← crossedSnapshotBoundary_iff hw hi]
      simp
    refine iff_of_true htrig ?_
    cases l with
    | deliver turn place =>
      intro hdirect
      have hphase := (confirmsDirect_iff.mp hdirect).1
      rw [hp] at hphase
      cases hphase
    | _ => trivial

omit hw hi

theorem Confirmation.lastRequested_eq {n' : Node S C} (h : Confirmation cfg n l n')
    (hne : n'.snapshots ≠ n.snapshots) : lastRequested n' = n'.actor.eventsCounter := by
  cases h with
  | none hd hc hs => exact absurd hs hne
  | direct hl hp hm hb hc hs =>
    unfold triggerSnapshotAndRetention at hs
    split at hs
    · exact absurd (by simpa using hs) hne
    · simp [lastRequested, hs, snapshotAndRetain, newSnapshotEnvelope, hb, hc]
  | batch hp hm hb hc hs =>
    split at hs
    · simp [lastRequested, hs, snapshotAndRetain, newSnapshotEnvelope, hb, hc]
    · exact absurd (by simpa using hs) hne

theorem JournalInv.length_le (h : JournalInv cfg False (Folds cfg) n log) :
    (journal log).length ≤ n.actor.eventsCounter + (envelopesOf n.awaited).length := by
  cases h.stage with
  | ready hp ha hr hj hb =>
    have hlen := hj.2.length
    exact hlen.le.trans (Nat.le_add_right _ _)
  | doomed hamb | lost hamb => exact hamb.elim
  | waiting hp hg hw ha hr hs => exact hs.length.le.trans (Nat.le_add_right _ _)
  | confirmed hp hg hw ha hr hpend hs hj =>
    have hlen := hs.length
    rw [hj, List.length_append, hlen]
    rfl
  | rejected err hp hg ha hr hj =>
    obtain hj | ⟨hamb, -⟩ := hj
    · exact hj.2.length.le.trans (Nat.le_add_right _ _)
    · exact hamb.elim
  | draining hp hg ha hr hj =>
    obtain hj | ⟨hamb, -⟩ := hj
    · exact hj.2.length.le.trans (Nat.le_add_right _ _)
    · exact hamb.elim

end

structure SnapshotInv (cfg : Config S C E) (e : Entity S C) : Prop where
  journal : JournalInv cfg False (Folds cfg) e.node e.log
  advances : Advances e.node.actor

theorem step_snapshotInv (store : EventsStore) {e : Entity S C} (h : SnapshotInv cfg e)
    (hl : l.faithful = true) : SnapshotInv cfg (step cfg store e l) where
  journal := nodeStep_journalInv store folds_append h.journal l (labelOk_of_faithful store _ hl)
  advances := (nodeStep_confirmation store h.journal.phaseOk hl h.advances).2

theorem snapshotInv_start : SnapshotInv cfg (Entity.start cfg : Entity S C) where
  journal := journalInv_start rfl
  advances := by simp [Advances, Entity.start, Node.start, Actor.new]

theorem step_lastRequested (store : EventsStore) {e : Entity S C} (h : SnapshotInv cfg e)
    (hl : l.faithful = true) (ht : Triggers cfg.snapshotInterval e.node (step cfg store e l).node)
    (hlast : ¬ Passes cfg.snapshotInterval (lastRequested e.node) e.node.actor.eventsCounter) :
    ¬ Passes cfg.snapshotInterval (lastRequested (step cfg store e l).node)
      (step cfg store e l).node.actor.eventsCounter := by
  have hconf : Confirmation cfg e.node l (step cfg store e l).node :=
    (nodeStep_confirmation store h.journal.phaseOk hl h.advances).1
  by_cases hs : (step cfg store e l).node.snapshots = e.node.snapshots
  · have hsame : lastRequested (step cfg store e l).node = lastRequested e.node := by
      unfold lastRequested
      rw [hs]
    rw [hsame]
    exact not_passes_trans hlast fun hpass => ht.mpr hpass hs
  · rw [hconf.lastRequested_eq hs]
    exact not_passes_self

end

/-- An actor with a snapshot store asks for a snapshot exactly when a confirmed write
contains a multiple of the interval, and so leaves fewer events than the interval and
one write holds after the last one, if and only if every write of direct mode stays
below the next multiple or ends on one. -/
theorem snapshot_requests_iff {S C E : Type} (cfg : Config S C E) (store : EventsStore) (labels : List (Label C))
    (hf : ∀ l ∈ labels, l.faithful = true) (hw : cfg.snapshotsWriter = true) (hi : 1 ≤ cfg.snapshotInterval) :
    ((∀ before l, before ++ [l] <+: labels →
        let e := run (step cfg store) (Entity.start cfg) before
        Triggers cfg.snapshotInterval e.node (step cfg store e l).node) ∧
      ∀ before, before <+: labels →
        let e := run (step cfg store) (Entity.start cfg) before
        (journal e.log).length ≤
          lastRequested e.node + (cfg.snapshotInterval - 1) + (envelopesOf e.node.awaited).length) ↔
      Along (step cfg store) (Aligned cfg) (Entity.start cfg) labels := by
  have htriggers : Along (step cfg store)
      (fun e l => Triggers cfg.snapshotInterval e.node (step cfg store e l).node) (Entity.start cfg) labels ↔
      Along (step cfg store) (Aligned cfg) (Entity.start cfg) labels := by
    refine along_iff _ (SnapshotInv cfg) (fun e l hl h => ?_) (fun e l hl h _ => ?_) snapshotInv_start
    · have hconf : Confirmation cfg e.node l (step cfg store e l).node :=
        (nodeStep_confirmation store h.journal.phaseOk (hf l hl) h.advances).1
      exact hconf.triggers_iff hw hi h.journal h.advances
    · exact step_snapshotInv store h (hf l hl)
  constructor
  · rintro ⟨hall, -⟩
    exact htriggers.mp (along_of_prefixes _ hall)
  · intro ha
    have hall := htriggers.mpr ha
    refine ⟨fun before l hpre => hall.at_prefix _ hpre, ?_⟩
    rintro before ⟨later, rfl⟩
    intro e
    -- the triggers of the run so far keep every multiple at or below the last snapshot
    have hboth := (along_of_forall (step cfg store) (s := Entity.start cfg) fun l hl =>
      hf l (List.mem_append_left later hl)).and _ ((along_append _).mp hall).1
    obtain ⟨hinv, hlast⟩ := run_invariant (step cfg store)
      (fun e => SnapshotInv cfg e ∧ ¬ Passes cfg.snapshotInterval (lastRequested e.node) e.node.actor.eventsCounter)
      (fun e l h hl => ⟨step_snapshotInv store h.1 hl.1, step_lastRequested store h.1 hl.1 hl.2 h.2⟩)
      ⟨snapshotInv_start, not_passes_self⟩ hboth
    have hcounter : e.node.actor.eventsCounter < lastRequested e.node + cfg.snapshotInterval :=
      lt_of_not_passes hi hlast
    have hjournal : (journal e.log).length ≤ e.node.actor.eventsCounter + (envelopesOf e.node.awaited).length :=
      hinv.journal.length_le
    omega

def bonusConfig (batchThreshold : ℤ) : Config ℕ Command AccountEvent :=
  { accountConfig batchThreshold with
    behavior := { Enginetest.accountBehavior "account" with
      handleCommand := fun _ cmd _ => do
        let events ← Enginetest.handleCommand "account" cmd
        return events ++ [.accountCredited 1] }
    snapshotInterval := 3
    snapshotsWriter := true }

def directTurn (now : ℤ) (cmd : Command) : List (Label Command) :=
  [.command background cmd, .deliver (turnAt now) [], .write .store, .deliver (turnAt now) [], .deliver (turnAt now) []]

/-- The second command takes the account from two events to four and asks for no
snapshot. Once the third write is stored, six events lie after the last snapshot. -/
theorem snapshot_requests_step_over :
    let turns := directTurn 1 (.createAccount 5) ++ directTurn 2 (.creditAccount "account" 1)
    let e := run (step (bonusConfig 0) Testkit.eventsStore) (Entity.start (bonusConfig 0)) (turns.take 8)
    let e' := run (step (bonusConfig 0) Testkit.eventsStore) (Entity.start (bonusConfig 0))
      (turns ++ (directTurn 3 (.creditAccount "account" 1)).take 3)
    ¬ Triggers 3 e.node (step (bonusConfig 0) Testkit.eventsStore e (.deliver (turnAt 2) [])).node ∧
      lastRequested e'.node = 0 ∧ (journal e'.log).length = 6 ∧ (envelopesOf e'.node.awaited).length = 2 := by
  intro turns e e'
  refine ⟨?_, by decide, by decide, by decide⟩
  intro h
  have hpass : Passes 3 e.node.actor.eventsCounter
      (step (bonusConfig 0) Testkit.eventsStore e (.deliver (turnAt 2) [])).node.actor.eventsCounter :=
    ⟨1, by decide, by decide⟩
  exact h.mpr hpass (by decide)

def batchedTurns : List (Label Command) :=
  [.command background (.createAccount 5), .deliver (turnAt 1) [],
    .command background (.creditAccount "account" 1), .deliver (turnAt 2) [], .write .store,
    .deliver (turnAt 2) []]

theorem snapshot_requests_batched :
    let e := run (step (bonusConfig 3) Testkit.eventsStore) (Entity.start (bonusConfig 3)) batchedTurns
    e.node.actor.eventsCounter = 4 ∧ lastRequested e.node = 4 ∧
      Triggers 3 (run (step (bonusConfig 3) Testkit.eventsStore) (Entity.start (bonusConfig 3))
        (batchedTurns.take 5)).node e.node := by
  obtain ⟨htriggers, -⟩ := (snapshot_requests_iff (bonusConfig 3) Testkit.eventsStore batchedTurns (by decide) rfl
    (by decide)).mpr (by decide)
  exact ⟨by decide, by decide, htriggers (batchedTurns.take 5) (.deliver (turnAt 2) []) (List.prefix_refl _)⟩

end Ego.EventSource

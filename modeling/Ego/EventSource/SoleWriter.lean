import Ego.EventSource.Journal
import Ego.EventSource.Ledger
import Ego.Testkit.EventStore
import Ego.Enginetest.Account

/-! # Runs of one actor that is the sole writer of its entity -/

namespace Ego.EventSource
open Persistence Protocol Lib
open Enginetest (Command accountConfig background turnAt)

section
variable {S C E : Type}

def Label.faithful : Label C → Bool
  | .write .lost => false
  | .timeout _ => false
  | .restart _ => false
  | _ => true

/-- `UnstashAll` puts the stash in front of the waiting messages, as GoAkt
documents it (`event_sourced_actor.go:1056-1077`). -/
def Label.prepends : Label C → Bool
  | .deliver _ place => place.isEmpty
  | _ => true

variable {cfg : Config S C E} {n : Node S C} {ambiguous : Prop}

theorem Custody.owed_le (h : Custody cfg n) : owed n.actor ≤ (commandIds n.stash).length := by
  have hlen : ∀ {ids : List ℕ}, ids <+: commandIds n.stash → Promised (desk cfg n.actor) n.awaited →
      ids = idsOf n.awaited → (n.actor.phase = .persisting ∨ n.actor.phase = .flushing) →
      owed n.actor ≤ (commandIds n.stash).length := by
    intro ids hs hd hids hp
    have hle := hs.length_le
    rw [hids, idsOf, List.length_map] at hle
    rcases hp with hp | hp
    · obtain ⟨b, hb, -⟩ := hd.direct hp
      simpa [owed, hp, hb] using hle
    · have he : n.actor.batchEntries = n.awaited.map (·.reply) := hd.batched hp
      simpa [owed, hp, he] using hle
  cases h with
  | waiting hp _ hs _ _ _ hd | told _ hp _ hs _ _ _ hd => exact hlen hs hd rfl hp
  | working hp | draining _ hp | answering hp => simp [owed, hp]

theorem RepliesInv.pendingFirst (h : RepliesInv cfg ambiguous n) {turn : Turn} {place : List Bool}
    (hl : (Label.deliver turn place : Label C).prepends = true) : pendingFirst n place = true := by
  rw [List.isEmpty_iff.mp hl]
  exact pendingFirst_nil n h.custody.owed_le

structure JournalMatches (cfg : Config S C E) (a : Actor S) (journal : List Event) : Prop where
  numbered : Numbered (·.sequenceNumber) 0 journal
  length : journal.length = a.eventsCounter
  state : stateOf cfg journal = .ok a.currentState

structure BatchMatches (cfg : Config S C E) (a : Actor S) : Prop where
  numbered : Numbered (·.sequenceNumber) a.eventsCounter a.batchBuffer
  counter : a.batchCounter = a.eventsCounter + a.batchBuffer.length
  state : ∃ state, a.batchState = some state ∧ replay cfg a.currentState a.batchBuffer = .ok state

def Folds (cfg : Config S C E) (journal : List Event) (state : S) : Prop :=
  stateOf cfg journal = .ok state

theorem folds_append (J : List Event) (s : S) (es : List Event) (s' : S) (h : Folds cfg J s)
    (hr : replay cfg s es = .ok s') : Folds cfg (J ++ es) s' := (stateOf_append h es).trans hr

theorem journalInv_start {track : List Event → S → Prop} (h : track [] cfg.behavior.initialState) :
    JournalInv cfg ambiguous track (Entity.start cfg : Entity S C).node none where
  phaseOk := phaseOk_new _ _ _
  stashOk := rfl
  stage := .ready rfl rfl rfl ⟨rfl, numbered_nil _, rfl, h⟩ (batchOk_closed rfl rfl rfl)
  ledger := rfl
  taken := fun _ hr => absurd hr List.not_mem_nil

theorem labelOk_of_faithful {track : List Event → S → Prop} (store : EventsStore)
    (log : Option EventLog) {l : Label C} (h : l.faithful = true) : LabelOk cfg False track store n log l := by
  cases l with
  | write outcome =>
    rintro rfl
    simp [Label.faithful] at h
  | timeout | restart => simp [Label.faithful] at h
  | deliver => exact fun hamb => hamb.elim
  | command | getState | flushTick | fire => trivial

theorem replyLabelOk_of_faithful {l : Label C} (hinv : RepliesInv cfg False n)
    (h : l.faithful = true) (hp : l.prepends = true) : ReplyLabelOk False n l := by
  cases l with
  | write outcome =>
    rintro rfl
    simp [Label.faithful] at h
  | timeout | restart => simp [Label.faithful] at h
  | deliver => exact hinv.pendingFirst hp
  | command | getState | flushTick | fire => trivial

theorem run_journalInv (cfg : Config S C E) (store : EventsStore) {labels : List (Label C)}
    (hf : ∀ l ∈ labels, l.faithful = true) :
    JournalInv cfg False (Folds cfg) (run (step cfg store) (Entity.start cfg) labels).node
      (run (step cfg store) (Entity.start cfg) labels).log :=
  run_invariant (step cfg store) (fun e => JournalInv cfg False (Folds cfg) e.node e.log)
    (fun _ l h hl => nodeStep_journalInv store folds_append h l (labelOk_of_faithful store _ hl))
    (journalInv_start rfl) (along_of_forall _ hf)

theorem run_repliesInv (cfg : Config S C E) (store : EventsStore) {labels : List (Label C)}
    (hf : ∀ l ∈ labels, l.faithful = true) (hp : ∀ l ∈ labels, l.prepends = true) :
    RepliesInv cfg False (run (step cfg store) (Entity.start cfg) labels).node := by
  have hall : Along (step cfg store) (fun _ l => l.faithful = true ∧ l.prepends = true)
      (Entity.start cfg) labels := along_of_forall _ fun l hl => ⟨hf l hl, hp l hl⟩
  exact run_invariant (step cfg store) (fun e => RepliesInv cfg False e.node)
    (fun e _ h hl => nodeStep_repliesInv store e.log h (replyLabelOk_of_faithful h hl.1 hl.2))
    (repliesInv_start _ _ _) hall

theorem RepliesInv.error_contributes_nothing {id : ℕ} {err : Err} {b : Block}
    (h : RepliesInv cfg False n) (hr : (id, .errorReply err) ∈ n.replies)
    (hb : b ∈ n.committed ++ n.staging) : b.id ≠ id := by
  rintro rfl
  have hstaged : b ∈ n.staged := by
    refine h.blocks.refers ?_
    simp only [referred, List.mem_append] at hb ⊢
    grind
  rcases h.replies.right _ hr with hc | ⟨b', err', ho, heq⟩
  · exact h.replies.apart _ hc (List.mem_map_of_mem hstaged)
  · -- the reply is the answer to the command's own block, which is `b`
    obtain ⟨hid, hans⟩ := Prod.mk.inj heq
    have hstaged' : b' ∈ n.staged := h.blocks.settled_staged ho
    obtain rfl : b = b' := List.inj_on_of_nodup_map h.blocks.nodup hstaged hstaged' hid
    cases err' with
    | none =>
      obtain ⟨r, hr, -⟩ := h.blocks.promises b hstaged
      simp [Block.answer, hr] at hans
    | some err' =>
      have honce := h.blocks.once
      rcases List.mem_append.mp hb with hb | hb
      · have hconf := (h.faithful (by simp)).confirmed b hb
        have hsame : ((b, none) : Block × Option Err) = (b, some err') :=
          List.inj_on_of_nodup_map (List.nodup_append.mp honce).1 hconf ho rfl
        simp at hsame
      · refine (List.nodup_append.mp honce).2.2 b.id (List.mem_map_of_mem ho) b.id ?_ rfl
        exact List.mem_append_right _ (List.mem_map_of_mem hb)

/-- Whatever arrives and however the writes end: at work, the actor's counter
and state are those of the journal, and the batch's continue them; no command
that was answered with an error has a part in either. -/
theorem journal_in_step (cfg : Config S C E) (store : EventsStore) (labels : List (Label C))
    (hf : ∀ l ∈ labels, l.faithful = true) :
    let e := run (step cfg store) (Entity.start cfg) labels
    (e.node.actor.phase = .processing → JournalMatches cfg e.node.actor (journal e.log) ∧
        (e.node.actor.batchEntries ≠ [] → BatchMatches cfg e.node.actor)) ∧
    ((∀ l ∈ labels, l.prepends = true) → journal e.log = envelopesOf e.node.committed ∧
      (e.node.actor.phase = .processing → e.node.actor.batchBuffer = envelopesOf e.node.staging) ∧
      ∀ id err, (id, .errorReply err) ∈ e.node.replies →
        ∀ b ∈ e.node.committed ++ e.node.staging, b.id ≠ id) := by
  intro e
  have hj : JournalInv cfg False (Folds cfg) e.node e.log := run_journalInv cfg store hf
  have hready := fun hp => hj.stage.exact_of_yields hp fun _ hamb => hamb.elim
  refine ⟨fun hp => ?_, fun hprep => ⟨hj.ledger, fun hp => (hready hp).2.1.buffer, ?_⟩⟩
  · obtain ⟨⟨-, hsync⟩, hb, -⟩ := hready hp
    refine ⟨⟨hsync.numbered, hsync.length, hsync.tracks⟩, fun he => ?_⟩
    obtain ⟨state, hstate, hext⟩ := hb.of_open hp he
    have hbuf : e.node.actor.batchBuffer = envelopesOf e.node.staging := hb.buffer
    rw [← hbuf] at hext
    exact ⟨hext.numbered, hext.counter_eq, state, hstate, hext.replays⟩
  · intro id err hr b hb
    exact (run_repliesInv cfg store hf hprep).error_contributes_nothing hr hb

def batchedAccount : List (Label Command) :=
  [.command background (.createAccount 5), .deliver (turnAt 1) [],
    .command background (.creditAccount "account" 2), .deliver (turnAt 2) [], .write .store,
    .deliver (turnAt 3) [], .deliver (turnAt 3) [], .deliver (turnAt 3) [],
    .command background (.creditAccount "other" 2), .deliver (turnAt 4) [],
    .command background (.creditAccount "account" 1), .deliver (turnAt 5) []]

theorem journal_in_step_account :
    let e := run (step (accountConfig 2) Testkit.eventsStore) (Entity.start (accountConfig 2))
      batchedAccount
    e.node.actor.eventsCounter = 2 ∧ e.node.actor.batchCounter = 3 ∧
      JournalMatches (accountConfig 2) e.node.actor (journal e.log) ∧
      BatchMatches (accountConfig 2) e.node.actor ∧ ∀ b ∈ e.node.committed ++ e.node.staging, b.id ≠ 2 := by
  obtain ⟨hmatch, herr⟩ := journal_in_step (accountConfig 2) Testkit.eventsStore batchedAccount
    (by decide)
  obtain ⟨hj, hb⟩ := hmatch (by decide)
  exact ⟨by decide, by decide, hj, hb (by decide),
    (herr (by decide)).2.2 2 (.message "command sent to the wrong entity") (by decide)⟩

/-- A stopping actor takes up a command that leads to events although it has
missed a commit, or may yet miss one. -/
def takesUpBehind (cfg : Config S C E) (e : Entity S C) : Label C → Bool
  | .deliver _ _ =>
    e.node.stopping &&
      (match e.node.mailbox with
        | .command _ ctx cmd :: _ => yieldsEvents cfg e.node.actor ctx cmd
        | _ => false) &&
      !(e.node.writer.isEmpty && (journal e.log).length == e.node.actor.eventsCounter)
  | _ => false

/-- A new incarnation recovers after the writes of the last one have ended, from
a snapshot that was stored, if from any. -/
def RecoversLate (cfg : Config S C E) (e : Entity S C) : Label C → Prop
  | .restart snapshot => e.node.writer = [] ∧ StoredSnapshot cfg e.node snapshot
  | _ => True

theorem quietStop_of_takesUpBehind {e : Entity S C} {turn : Turn} {place : List Bool}
    (h : takesUpBehind cfg e (.deliver turn place) = false) : QuietStop cfg e.node e.log := by
  intro hstop id ctx cmd rest hm hy
  simp only [takesUpBehind, hstop, hm, hy, Bool.and_self, Bool.true_and] at h
  simpa [CaughtUp] using h

theorem labelOk_of_quiet (store : EventsStore) {e : Entity S C} {l : Label C}
    (hq : takesUpBehind cfg e l = false) (hr : RecoversLate cfg e l) :
    LabelOk cfg True (fun _ _ => True) store e.node e.log l := by
  cases l with
  | deliver => exact fun _ => quietStop_of_takesUpBehind hq
  | write => exact fun _ => trivial
  | restart => exact ⟨hr.1, hr.2, fun _ _ => trivial⟩
  | timeout | command | getState | flushTick | fire => trivial

theorem replyLabelOk_of_late {e : Entity S C} {l : Label C} (hinv : RepliesInv cfg True e.node)
    (hp : l.prepends = true) (hr : RecoversLate cfg e l) : ReplyLabelOk True e.node l := by
  cases l with
  | deliver => exact hinv.pendingFirst hp
  | write => exact fun _ => trivial
  | restart => exact hr.1
  | timeout | command | getState | flushTick | fire => trivial

theorem nodeStep_committed (store : EventsStore) (log : Option EventLog) (l : Label C) :
    n.committed <+: (nodeStep cfg store n log l).1.committed := by
  have hask := fun (w : Write) (err : Option Err) (n : Node S C) =>
    (answerAsk_frame w err n).2.2.2.2
  cases l with
  | command | getState | flushTick => exact List.prefix_refl _
  | deliver turn place =>
    cases hm : n.mailbox with
    | nil => simp [nodeStep, deliver_nil turn place hm]
    | cons msg rest =>
      simp only [nodeStep, deliver, hm, (performAll_frame _ _ _ _).1]
      exact List.prefix_refl _
  | write outcome =>
    cases hw : n.writer with
    | nil => simp [nodeStep, writeNext_nil store outcome log hw]
    | cons w later =>
      rcases @writeNext_cases S C E cfg n w later store outcome log hw with
        ⟨log', -, heq | ⟨-, heq⟩⟩ | ⟨err, heq⟩ | ⟨-, heq⟩ <;> simp [nodeStep, heq, hask]
  | timeout text =>
    simp only [nodeStep, timeoutAsk]
    split
    · exact List.prefix_refl _
    · simp [hask]
  | fire timer =>
    simp only [nodeStep, fireTimer]
    split <;> exact List.prefix_refl _
  | restart snapshot =>
    simp only [nodeStep, restartNode]
    split <;> exact List.prefix_refl _

theorem RepliesInv.success_committed {id : ℕ} {r : StateReply} {b : Block}
    (h : RepliesInv cfg ambiguous n) (hr : (id, .stateReply r) ∈ n.replies) (hb : b ∈ n.staged)
    (hid : b.id = id) : b ∈ n.committed := by
  subst hid
  rcases h.replies.right _ hr with hc | ⟨b', err, ho, heq⟩
  · exact absurd (List.mem_map_of_mem hb) (h.replies.apart _ hc)
  · obtain ⟨hid, hans⟩ := Prod.mk.inj heq
    have hb' : b' ∈ n.staged := h.blocks.settled_staged ho
    obtain rfl : b = b' := List.inj_on_of_nodup_map h.blocks.nodup hb hb' hid
    cases err with
    | none => exact h.blocks.stored b ho
    | some err => simp [Block.answer] at hans

/-- Commits may be reported as failures, asks may time out, and a new incarnation
may take over: as long as no stopping actor that has missed a commit takes up
new work, the journal is exactly what was committed, in order, it only grows,
and no command was answered with success whose events are not in it. -/
theorem committed_events_stay (cfg : Config S C E) (store : EventsStore) (labels : List (Label C))
    (hp : ∀ l ∈ labels, l.prepends = true)
    (hr : Along (step cfg store) (RecoversLate cfg) (Entity.start cfg) labels)
    (hq : Along (step cfg store) (fun e l => takesUpBehind cfg e l = false) (Entity.start cfg) labels) :
    let e := run (step cfg store) (Entity.start cfg) labels
    journal e.log = envelopesOf e.node.committed ∧ Numbered (·.sequenceNumber) 0 (journal e.log) ∧
      (∀ before, before <+: labels →
        journal (run (step cfg store) (Entity.start cfg) before).log <+: journal e.log) ∧
      ∀ id r, (id, .stateReply r) ∈ e.node.replies → ∀ b ∈ e.node.staged, b.id = id →
        b ∈ e.node.committed := by
  intro e
  have hall : Along (step cfg store) (fun e l => l.prepends = true ∧
      (RecoversLate cfg e l ∧ takesUpBehind cfg e l = false)) (Entity.start cfg) labels :=
    (along_of_forall _ hp).and _ (hr.and _ hq)
  have hj : ∀ ls, ls <+: labels → JournalInv cfg True (fun _ _ => True)
      (run (step cfg store) (Entity.start cfg) ls).node
      (run (step cfg store) (Entity.start cfg) ls).log := by
    rintro ls ⟨later, rfl⟩
    exact run_invariant (step cfg store)
      (fun e => JournalInv cfg True (fun _ _ => True) e.node e.log)
      (fun _ l h hl => nodeStep_journalInv store (fun _ _ _ _ _ _ => trivial) h l
        (labelOk_of_quiet store hl.2.2 hl.2.1))
      (journalInv_start trivial) ((along_append _).mp hall).1
  have hrep : RepliesInv cfg True e.node :=
    run_invariant (step cfg store) (fun e => RepliesInv cfg True e.node)
      (fun e _ h hl => nodeStep_repliesInv store e.log h (replyLabelOk_of_late h hl.1 hl.2.1))
      (repliesInv_start _ _ _) hall
  have hlast := hj labels (List.prefix_refl _)
  refine ⟨hlast.ledger, hlast.stage.numbered, ?_, fun id r hr b hb hid =>
    hrep.success_committed hr hb hid⟩
  rintro before ⟨later, rfl⟩
  have hgrow : (run (step cfg store) (Entity.start cfg) before).node.committed <+:
      e.node.committed := by
    have hany : Along (step cfg store) (fun _ _ => True)
      (run (step cfg store) (Entity.start cfg) before) later := along_of_forall _ fun _ _ => trivial
    have h := run_relates (step cfg store) (fun _ => True)
      (fun e e' => e.node.committed <+: e'.node.committed) (fun _ => List.prefix_refl _)
      (fun _ _ _ => List.IsPrefix.trans) (fun _ _ _ _ => trivial)
      (fun e l _ _ => nodeStep_committed store e.log l) trivial hany
    rwa [← run_append] at h
  obtain ⟨extra, hextra⟩ := hgrow
  rw [(hj before (List.prefix_append _ _)).ledger, hlast.ledger]
  exact ⟨envelopesOf extra, by rw [← envelopesOf_append, hextra]⟩

def recoveredAccount : List (Label Command) :=
  [.command background (.createAccount 5), .deliver (turnAt 1) [], .timeout "request timed out",
    .deliver (turnAt 2) [], .deliver (turnAt 2) [], .write .store, .restart none,
    .command background (.creditAccount "account" 7), .deliver (turnAt 3) [], .write .store,
    .deliver (turnAt 4) [], .deliver (turnAt 4) []]

theorem committed_events_stay_account :
    let e := run (step (accountConfig 0) Testkit.eventsStore) (Entity.start (accountConfig 0))
      recoveredAccount
    (journal e.log).length = 2 ∧ journal e.log = envelopesOf e.node.committed ∧
      ∀ b ∈ e.node.staged, b.id = 1 → b ∈ e.node.committed := by
  have hrestart : Along (step (accountConfig 0) Testkit.eventsStore) (RecoversLate (accountConfig 0))
      (Entity.start (accountConfig 0)) recoveredAccount := by
    refine ⟨trivial, trivial, trivial, trivial, trivial, trivial, ⟨by decide, ?_⟩, trivial, trivial,
      trivial, trivial, trivial, trivial⟩
    exact fun s hs => by simp at hs
  obtain ⟨hj, -, -, hs⟩ := committed_events_stay (accountConfig 0) Testkit.eventsStore
    recoveredAccount (by decide) hrestart (by decide)
  exact ⟨by decide, hj, hs 1 ⟨"account", ⟨"testpb.Account", Enginetest.encodeNat 12⟩, 2, 3⟩ (by decide)⟩

def overtakenAccount : List (Label Command) :=
  [.command background (.createAccount 5), .deliver (turnAt 1) [],
    .command background (.createAccount 7), .deliver (turnAt 2) [], .timeout "request timed out",
    .deliver (turnAt 3) [], .deliver (turnAt 3) [], .write .store, .deliver (turnAt 4) [],
    .write .store, .deliver (turnAt 5) [], .deliver (turnAt 5) []]

/-- The event that was committed under number one is gone from the journal. -/
theorem committed_event_overwritten :
    let at_commit := run (step (accountConfig 0) Testkit.eventsStore)
      (Entity.start (accountConfig 0)) (overtakenAccount.take 8)
    let at_end := run (step (accountConfig 0) Testkit.eventsStore)
      (Entity.start (accountConfig 0)) overtakenAccount
    (∀ l ∈ overtakenAccount, l.prepends = true) ∧
      (∃ e ∈ journal at_commit.log, e ∉ journal at_end.log) ∧ (journal at_end.log).length = 1 ∧
      at_end.node.committed.length = 2 := by
  decide

end

end Ego.EventSource

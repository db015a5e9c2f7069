import Ego.Lib.Shared
import Ego.DurableState.Pairing

/-! # Two incarnations over one state record -/

namespace Ego.DurableState
open Persistence Protocol Lib
open Enginetest (Command durableConfig durableTurn expecting)

/-- A write that the store takes over an existing record, with the version and the
state its handler was given. A flush has no handler. -/
structure Replacement (S : Type) where
  old : DurableState
  new : DurableState
  basis : Option (UInt64 × S)

def Label.declares {C : Type} : Label C → Bool
  | .command ctx _ _ _ => ctx.expectedRevision.isSome
  | _ => true

section
variable {S C : Type} (cfg : Config S C)

def replacement (n : Node S) (record : Option DurableState) (l : Label C) : Option (Replacement S) :=
  match record, n.actor, n.recovering, l with
  | some old, some a, none, .command ctx cmd turn outcome =>
    match processCommand cfg a ctx cmd turn with
    | .error _ => none
    | .ok c =>
      if accepts cfg outcome record c.precondition then
        some ⟨old, c.durableState cfg, some (a.currentVersion, a.currentState)⟩
      else none
  | some old, some a, none, .stop outcome =>
    if flushesOnStop cfg a && accepts cfg outcome record .unconditional then
      some ⟨old, flushedState cfg a, none⟩
    else none
  | _, _, _, _ => none

/-- The version does not decrease, and the new state was computed from the
committed version and state, or is that state. -/
def Replacement.Sound (x : Replacement S) : Prop :=
  x.old.versionNumber ≤ x.new.versionNumber ∧ match x.basis with
    | some (v, s) => v = x.old.versionNumber ∧ recoverState cfg x.old = .ok s
    | none => x.new.resultingState = x.old.resultingState

/-- Whoever replaces a record is up to date: a command declares the version of the
actor it reaches, which is not the last one there is; an actor that stops is at
the stored version, and its cache does not differ from its state. -/
def writesCurrent (n : Node S) (record : Option DurableState) (l : Label C) : Bool :=
  match replacement cfg n record l, n.actor, l with
  | some _, some a, .command ctx _ _ _ =>
    ctx.expectedRevision = some a.currentVersion.toNat && a.currentVersion != UInt64.ofNat (2 ^ 64 - 1)
  | some x, some a, .stop _ =>
    a.currentVersion == x.old.versionNumber &&
      (a.cachedStateAny == none || a.cachedStateAny == some (cfg.codec.newState a.currentState))
  | _, _, _ => true

/-- What an actor holds of the record: nothing was written, or its version is one
that was stored, with the stored state if it is the current one. -/
def Known (a : Actor S) : Option DurableState → Prop
  | none => a.currentVersion = 0 ∧ a.currentState = cfg.behavior.initialState ∧
      Caches cfg a cfg.behavior.initialState
  | some ds => a.currentVersion ≤ ds.versionNumber ∧ (a.currentVersion = ds.versionNumber →
        ds.resultingState = some (cfg.codec.newState a.currentState))

def NodeKnown (n : Node S) (record : Option DurableState) : Prop :=
  ∀ a, n.actor = some a → Known cfg a record

def Written (record : Option DurableState) : Prop :=
  ∀ ds, record = some ds → (∃ s, ds.resultingState = some (cfg.codec.newState s)) ∧
    (cfg.tenantAware = true → ds.versionNumber ≠ 0)

variable {cfg} {store : StateStore} {a : Actor S} {n : Node S} {record : Option DurableState}

theorem succ_version {v w : UInt64} (h : w - v = 1) : w = v + 1 := by
  grind

theorem lt_succ_version {v : UInt64} (h : v ≠ UInt64.ofNat (2 ^ 64 - 1)) : v < v + 1 := by
  have hv : v.toNat ≠ 2 ^ 64 - 1 := by
    intro hv
    refine h (UInt64.toNat_inj.mp ?_)
    rw [hv]
    rfl
  have hlt := v.toNat_lt
  rw [UInt64.lt_iff_toNat_lt, UInt64.toNat_add]
  simp only [UInt64.reduceToNat]
  omega

variable {ctx : Ctx} {cmd : C} {turn : Turn} {c : Commit S}

theorem processCommand_ok (h : processCommand cfg a ctx cmd turn = .ok c) :
    c.newVersion = a.currentVersion + 1 ∧ c.precondition = preconditionFromRevision ctx.expectedRevision := by
  simp only [processCommand, bind_eq_ok] at h
  obtain ⟨tenant, -, -, -, ⟨newState, newVersion⟩, -, _, hpre, -, -, -, -, h⟩ := h
  cases h
  refine ⟨succ_version ?_, rfl⟩
  simp only [checkPreconditions] at hpre
  split at hpre
  · cases hpre
  split at hpre
  · assumption
  · cases hpre

variable {outcome : Outcome}

theorem declared_of_accepts {r : ℕ} (hr : ctx.expectedRevision = some r)
    (h : accepts cfg outcome record (preconditionFromRevision ctx.expectedRevision) = true) :
    r = (storedVersion record).getD 0 ∧ (r = 0 → record = none) := by
  simp only [accepts, Bool.and_eq_true, decide_eq_true_iff, hr] at h
  cases r with
  | zero =>
    have hnone : record = none := Option.map_eq_none_iff.mp h.2
    exact ⟨by simp [hnone, storedVersion], fun _ => hnone⟩
  | succ r =>
    have hsome : storedVersion record = some (r + 1) := h.2
    exact ⟨by simp [hsome], fun h0 => by simp at h0⟩

theorem Known.of_fields {a' : Actor S} (h : Known cfg a record)
    (hv : a'.currentVersion = a.currentVersion) (hs : a'.currentState = a.currentState)
    (hc : Caches cfg a a.currentState → Caches cfg a' a.currentState) : Known cfg a' record := by
  cases record with
  | none =>
    obtain ⟨h0, hinit, hcache⟩ := h
    exact ⟨hv.trans h0, hs.trans hinit, hinit ▸ hc (hinit.symm ▸ hcache)⟩
  | some ds =>
    rw [Known, hv, hs]
    exact h

theorem recover_known {a' : Actor S} (hw : Written cfg record) (h0 : record = none → Known cfg a none)
    (hr : recoverFromStore cfg a (.ok record) = (a', .ok ())) : Known cfg a' record := by
  rcases recoverFromStore_cases cfg a record with
    ⟨_, _, heq, -⟩ | ⟨heq, hnone | ⟨ds, hds, hleg⟩, -⟩ | ⟨ds, _, s, hds, hs, heq, -⟩ <;>
    rw [heq] at hr
  · simp at hr
  · obtain rfl := (Prod.mk.inj hr).1
    subst hnone
    exact ⟨(h0 rfl).1, rfl, (h0 rfl).2.2⟩
  · simp only [legacyGenesis, Bool.and_eq_true, beq_iff_eq] at hleg
    exact absurd hleg.2 ((hw ds hds).2 hleg.1)
  · obtain rfl := (Prod.mk.inj hr).1
    obtain ⟨⟨s', hs'⟩, -⟩ := hw ds hds
    rw [recoverState_newState hs'] at hs
    cases hs
    subst hds
    exact ⟨UInt64.le_refl _, fun _ => hs'⟩

theorem known_spawned : Known cfg (spawned cfg) none := ⟨rfl, rfl, .inl rfl⟩

theorem replacement_command {old : DurableState} (ha : n.actor = some a) (hi : n.recovering = none)
    (hc : processCommand cfg a ctx cmd turn = .ok c) (hw : accepts cfg outcome (some old) c.precondition = true) :
    replacement cfg n (some old) (.command ctx cmd turn outcome) =
      some ⟨old, c.durableState cfg, some (a.currentVersion, a.currentState)⟩ := by
  simp only [replacement, ha, hi, hc, hw, if_true]

theorem replacement_stop {old : DurableState} (ha : n.actor = some a)
    (hi : n.recovering = none) (hf : flushesOnStop cfg a = true)
    (hw : accepts cfg outcome (some old) .unconditional = true) :
    replacement cfg n (some old) (.stop outcome : Label C) = some ⟨old, flushedState cfg a, none⟩ := by
  simp only [replacement, ha, hi, hf, hw, Bool.and_self, if_true]

variable {l : Label C}

theorem replacement_cases {x : Replacement S} (h : replacement cfg n record l = some x) :
    record = some x.old ∧ ∃ a, n.actor = some a ∧ n.recovering = none ∧
      ((∃ ctx cmd turn outcome c, l = .command ctx cmd turn outcome ∧ processCommand cfg a ctx cmd turn = .ok c ∧
          accepts cfg outcome record c.precondition = true ∧ x.new = c.durableState cfg ∧
          x.basis = some (a.currentVersion, a.currentState)) ∨
        (∃ outcome, l = .stop outcome ∧ flushesOnStop cfg a = true ∧ x.new = flushedState cfg a ∧
          x.basis = none)) := by
  unfold replacement at h
  split at h
  · rename_i old a ctx cmd turn outcome ha hi
    split at h
    · cases h
    · rename_i c hc
      split at h
      · rename_i hw
        cases h
        exact ⟨rfl, a, ha, hi, .inl ⟨ctx, cmd, turn, outcome, c, rfl, hc, hw, rfl, rfl⟩⟩
      · cases h
  · rename_i old a outcome ha hi
    split at h
    · rename_i hf
      cases h
      exact ⟨rfl, a, ha, hi, .inr ⟨outcome, rfl, (Bool.and_eq_true _ _ ▸ hf).1, rfl, rfl⟩⟩
    · cases h
  · cases h

variable {n' : Node S} {record' : Option DurableState}

theorem Move.replaces (hm : Move cfg store n record l n' record') :
    record' = record ∨ record = none ∨ ∃ x, replacement cfg n record l = some x ∧
      record = some x.old ∧ record' = some x.new := by
  cases hr : record with
  | none => exact .inr (.inl rfl)
  | some old =>
    subst hr
    cases hm with
    | lost ha hi hc hw | committed ha hi hc hw =>
      exact .inr (.inr ⟨_, replacement_command ha hi hc hw, rfl, rfl⟩)
    | flushed ha hi hf hw => exact .inr (.inr ⟨_, replacement_stop ha hi hf hw, rfl, rfl⟩)
    | _ => exact .inl rfl

theorem sound_iff_current (hk : NodeKnown cfg n record) (hl : l.declares = true) :
    (∀ x, replacement cfg n record l = some x → x.Sound cfg) ↔ writesCurrent cfg n record l = true := by
  cases hx : replacement cfg n record l with
  | none => simp [writesCurrent, hx]
  | some x =>
    rw [show (∀ y, some x = some y → y.Sound cfg) ↔ x.Sound cfg from
      ⟨fun h => h x rfl, fun h y hy => Option.some.inj hy ▸ h⟩]
    obtain ⟨hrec, a, ha, hi, hcase⟩ := replacement_cases hx
    have hknown := hk a ha
    rw [hrec] at hknown
    rcases hcase with ⟨ctx, cmd, turn, outcome, c, rfl, hc, hw, hnew, hbasis⟩ |
      ⟨outcome, rfl, hf, hnew, hbasis⟩
    · obtain ⟨hver, hpre⟩ := processCommand_ok hc
      obtain ⟨r, hr⟩ := Option.isSome_iff_exists.mp hl
      rw [hpre] at hw
      have hdecl : r = x.old.versionNumber.toNat := by
        simpa [hrec, storedVersion] using (declared_of_accepts hr hw).1
      simp only [Replacement.Sound, hnew, hbasis, Commit.durableState, hver, writesCurrent, hx, ha, hr,
        hdecl, Option.some.injEq, Bool.and_eq_true, decide_eq_true_iff, bne_iff_ne, UInt64.toNat_inj]
      constructor
      · rintro ⟨hle, hv, -⟩
        refine ⟨hv.symm, fun hmax => ?_⟩
        rw [← hv, hmax] at hle
        exact absurd hle (by decide)
      · rintro ⟨hv, hmax⟩
        rw [hv]
        exact ⟨UInt64.le_of_lt (lt_succ_version hmax), rfl, recoverState_newState (hknown.2 hv.symm)⟩
    · simp only [Replacement.Sound, hnew, hbasis, flushedState, writesCurrent, hx, ha, Bool.and_eq_true,
        Bool.or_eq_true, beq_iff_eq]
      constructor
      · rintro ⟨hle, hstate⟩
        have hv : a.currentVersion = x.old.versionNumber := UInt64.le_antisymm hknown.1 hle
        rw [hknown.2 hv] at hstate
        refine ⟨hv, ?_⟩
        cases hcache : a.cachedStateAny with
        | none => exact .inl rfl
        | some any => simpa [currentStateAny, hcache] using hstate
      · rintro ⟨hv, hcache⟩
        rw [hknown.2 hv, currentStateAny_of_caches hcache]
        exact ⟨UInt64.le_of_eq hv.symm, rfl⟩

structure Continues (cfg : Config S C) (record record' : Option DurableState) : Prop where
  written : Written cfg record'
  known : ∀ b : Actor S, Known cfg b record → Known cfg b record'

theorem Continues.refl (hw : Written cfg record) : Continues cfg record record := ⟨hw, fun _ h => h⟩

theorem commit_continues (hk : Known cfg a record) (ha : n.actor = some a) (hi : n.recovering = none)
    (hc : processCommand cfg a ctx cmd turn = .ok c) (hw : accepts cfg outcome record c.precondition = true)
    (hcur : writesCurrent cfg n record (.command ctx cmd turn outcome) = true)
    (hl : ctx.expectedRevision.isSome = true) : Continues cfg record (some (c.durableState cfg)) := by
  obtain ⟨hver, hpre⟩ := processCommand_ok hc
  have hpay : (c.durableState cfg).resultingState = some (cfg.codec.newState c.newState) := rfl
  cases record with
  | none =>
    have hone : c.newVersion = 1 := by
      rw [hver, hk.1]
      rfl
    refine ⟨fun ds hds => ?_, fun b hb => ?_⟩
    · cases hds
      exact ⟨⟨_, hpay⟩, fun _ h => absurd (hone.symm.trans h) (by decide)⟩
    · change b.currentVersion ≤ c.newVersion ∧ (b.currentVersion = c.newVersion → _)
      rw [hb.1, hone]
      exact ⟨by decide, fun h => absurd h (by decide)⟩
  | some old =>
    obtain ⟨r, hr⟩ := Option.isSome_iff_exists.mp hl
    have hdecl : r = old.versionNumber.toNat := by
      rw [hpre] at hw
      simpa [storedVersion] using (declared_of_accepts hr hw).1
    simp only [writesCurrent, replacement_command ha hi hc hw, ha, hr, hdecl, Option.some.injEq,
      Bool.and_eq_true, decide_eq_true_iff, bne_iff_ne, UInt64.toNat_inj] at hcur
    have hlt : old.versionNumber < c.newVersion := by
      rw [hver, hcur.1]
      exact lt_succ_version hcur.2
    refine ⟨fun ds hds => ?_, fun b hb => ?_⟩
    · cases hds
      exact ⟨⟨_, hpay⟩, fun _ (h : c.newVersion = 0) => absurd (h ▸ hlt) UInt64.not_lt_zero⟩
    · have hb' := UInt64.lt_of_le_of_lt hb.1 hlt
      exact ⟨UInt64.le_of_lt hb', fun h => absurd (h ▸ hb') (UInt64.lt_irrefl _)⟩

theorem flush_continues (hk : Known cfg a record) (hwr : Written cfg record)
    (ha : n.actor = some a) (hi : n.recovering = none) (hf : flushesOnStop cfg a = true)
    (hw : accepts cfg outcome record .unconditional = true)
    (hcur : writesCurrent cfg n record (.stop outcome : Label C) = true) :
    Continues cfg record (some (flushedState cfg a)) := by
  cases record with
  | none =>
    obtain ⟨hzero, hinit, hcache⟩ := hk
    have hpay : (flushedState cfg a).resultingState = some (cfg.codec.newState cfg.behavior.initialState) := by
      rw [← hinit] at hcache ⊢
      exact congrArg some (currentStateAny_of_caches hcache)
    refine ⟨fun ds hds => ?_, fun b hb => ?_⟩
    · cases hds
      refine ⟨⟨_, hpay⟩, fun hta => ?_⟩
      simp [flushesOnStop, hta, hzero] at hf
    · change b.currentVersion ≤ a.currentVersion ∧ (b.currentVersion = a.currentVersion → _)
      rw [hb.1, hzero, hb.2.1]
      exact ⟨UInt64.le_refl _, fun _ => hpay⟩
  | some old =>
    simp only [writesCurrent, replacement_stop ha hi hf hw, ha, Bool.and_eq_true, Bool.or_eq_true, beq_iff_eq] at hcur
    obtain ⟨hv, hcache⟩ := hcur
    have hpay : (flushedState cfg a).resultingState = old.resultingState := by
      rw [hk.2 hv]
      exact congrArg some (currentStateAny_of_caches hcache)
    have hver : (flushedState cfg a).versionNumber = old.versionNumber := hv
    refine ⟨fun ds hds => ?_, fun b hb => ?_⟩
    · cases hds
      rw [hpay, hver]
      exact hwr old rfl
    · rw [Known, hpay, hver]
      exact hb

theorem recover_in_place_known {readErr : Option Err} (hw : Written cfg record) (hk : Known cfg a record) :
    Known cfg (recoverFromStore cfg a (readRecord cfg store readErr record)).1 record := by
  cases hread : readRecord cfg store readErr record with
  | error err => exact hk
  | ok latest =>
    obtain rfl := readRecord_ok hread
    cases hr : recoverFromStore cfg a (.ok latest) with
    | mk a' result =>
      cases result with
      | ok => exact recover_known hw (fun h => h ▸ hk) hr
      | error err =>
        rcases recoverFromStore_cases cfg a latest with
          ⟨_, _, heq, -⟩ | ⟨heq, -, -⟩ | ⟨_, _, _, -, -, heq, -⟩ <;> rw [heq] at hr
        · obtain rfl := (Prod.mk.inj hr).1
          exact hk.of_fields rfl rfl fun h => h
        · simp at hr
        · simp at hr

theorem Move.known (hm : Move cfg store n record l n' record') (hl : l.declares = true) (hk : NodeKnown cfg n record)
    (hw : Written cfg record) (hcur : writesCurrent cfg n record l = true) :
    NodeKnown cfg n' record' ∧ Continues cfg record record' := by
  cases hm with
  | idle | refused => exact ⟨hk, .refl hw⟩
  | started hn hr =>
    refine ⟨fun b hb => ?_, .refl hw⟩
    cases hb
    rw [readRecord_of_recovered hr] at hr
    exact recover_known hw (fun _ => known_spawned) hr
  | rejected => exact ⟨fun b hb => hk b (failCommand_actor _ _ n ▸ hb), .refl hw⟩
  | lost ha hi hc hacc =>
    have hcont := commit_continues (hk _ ha) ha hi hc hacc hcur hl
    exact ⟨fun b hb => hcont.known b (hk b (failCommand_actor _ _ n ▸ hb)), hcont⟩
  | committed ha hi hc hacc =>
    refine ⟨fun b hb => ?_, commit_continues (hk _ ha) ha hi hc hacc hcur hl⟩
    cases hb
    exact ⟨UInt64.le_refl _, fun _ => rfl⟩
  | recovered ha hi =>
    refine ⟨fun b hb => ?_, .refl hw⟩
    cases hb
    exact recover_in_place_known hw (hk _ ha)
  | read ha hi =>
    refine ⟨fun b hb => ?_, .refl hw⟩
    cases hb
    exact (hk _ ha).of_fields rfl rfl fun h => (sendStateReply_caches h).1
  | unflushed | flushRejected => exact ⟨fun b hb => (by cases hb), .refl hw⟩
  | flushed ha hi hf hacc =>
    exact ⟨fun b hb => (by cases hb), flush_continues (hk _ ha) hw ha hi hf hacc hcur⟩

variable (cfg store) in
def pairStep : Shared (Node S) (Option DurableState) → Side × Label C → Shared (Node S) (Option DurableState) :=
  Shared.step (nodeStep cfg store)

def Pair.start : Shared (Node S) (Option DurableState) := ⟨.idle, .idle, none⟩

def VersionKept (record record' : Option DurableState) : Prop :=
  ∀ old, record = some old → ∃ new, record' = some new ∧ old.versionNumber ≤ new.versionNumber

theorem Move.versionKept (hm : Move cfg store n record l n' record')
    (hs : ∀ x, replacement cfg n record l = some x → x.Sound cfg) : VersionKept record record' := by
  intro old hold
  rcases hm.replaces with rfl | hnone | ⟨x, hx, hxold, rfl⟩
  · exact ⟨old, hold, UInt64.le_refl _⟩
  · rw [hnone] at hold
    cases hold
  · rw [hxold] at hold
    cases hold
    exact ⟨x.new, rfl, (hs x hx).1⟩

/-- Two incarnations whose commands all declare a version, with any interleaving of
their commands, recoveries, starts and stops: the stored version never decreases
and every write that replaces a record is sound, exactly if every such write is
made by somebody who is up to date. -/
theorem takeover_sound_iff (cfg : Config S C) (store : StateStore) (labels : List (Side × Label C))
    (hd : ∀ l ∈ labels, l.2.declares = true) : Along (pairStep cfg store)
        (fun p l => VersionKept p.common (pairStep cfg store p l).common ∧
          ∀ x, replacement cfg (p.part l.1) p.common l.2 = some x → x.Sound cfg) Pair.start labels ↔
      Along (pairStep cfg store) (fun p l => writesCurrent cfg (p.part l.1) p.common l.2 = true) Pair.start labels := by
  refine along_iff (pairStep cfg store)
    (fun p => Shared.Both (NodeKnown cfg) p ∧ Written cfg p.common) ?_ ?_ ?_
  · rintro p l hl ⟨hk, -⟩
    rw [← sound_iff_current (hk.part l.1) (hd l hl)]
    refine and_iff_right_of_imp fun hs => ?_
    rw [pairStep, Shared.step_common]
    exact (nodeStep_move _ _ _ _).versionKept hs
  · rintro p l hl ⟨hk, hw⟩ hcur
    obtain ⟨hown, hcont⟩ :=
      (nodeStep_move store (p.part l.1) p.common l.2).known (hd l hl) (hk.part l.1) hw hcur
    refine ⟨hk.step hown fun m hm b hb => hcont.known b (hm b hb), ?_⟩
    rw [pairStep, Shared.step_common]
    exact hcont.written
  · refine ⟨⟨fun a ha => ?_, fun a ha => ?_⟩, fun ds hds => ?_⟩
    · simp [Pair.start, Node.idle] at ha
    · simp [Pair.start, Node.idle] at ha
    · simp [Pair.start] at hds

def handedOverAccount : List (Side × Label Command) :=
  [(.first, .start none), (.first, .command (expecting 0) (.createAccount 5) (durableTurn 1) .store),
    (.second, .start none), (.first, .stop .store),
    (.second, .command (expecting 1) (.creditAccount "account" 7) (durableTurn 2) .store),
    (.second, .stop .store)]

theorem takeover_sound_account : storedVersion (run (pairStep durableConfig Testkit.DurableStore.stateStore) Pair.start
        handedOverAccount).common = some 2 ∧ Along (pairStep durableConfig Testkit.DurableStore.stateStore)
        (fun p l => VersionKept p.common (pairStep durableConfig Testkit.DurableStore.stateStore p l).common ∧
          ∀ x, replacement durableConfig (p.part l.1) p.common l.2 = some x → x.Sound durableConfig)
        Pair.start handedOverAccount :=
  ⟨by decide, (takeover_sound_iff durableConfig Testkit.DurableStore.stateStore handedOverAccount
    (by decide)).mpr (by decide)⟩

def staleStopAccount : List (Side × Label Command) :=
  [(.first, .start none), (.second, .start none),
    (.first, .command (expecting 0) (.createAccount 5) (durableTurn 1) .store), (.second, .stop .store)]

/-- The flush puts the initial state back, under version zero. -/
theorem committed_state_flushed_away :
    let at_commit := run (pairStep durableConfig Testkit.DurableStore.stateStore) Pair.start
      (staleStopAccount.take 3)
    let at_end := run (pairStep durableConfig Testkit.DurableStore.stateStore) Pair.start
      staleStopAccount
    (∀ l ∈ staleStopAccount, l.2.declares = true) ∧
      at_commit.common.map (fun ds => (ds.versionNumber, ds.resultingState)) =
        some (1, some (durableConfig.codec.newState 5)) ∧
      at_end.common.map (fun ds => (ds.versionNumber, ds.resultingState)) =
        some (0, some (durableConfig.codec.newState 0)) := by
  decide

end

end Ego.DurableState

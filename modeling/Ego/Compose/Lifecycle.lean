import Ego.Lib.Except
import Ego.Lib.Runs
import Mathlib.Algebra.Group.Int.Defs
import Mathlib.Data.List.Range

/-! # Starting and stopping in order (`compose/internal/lifecycle/lifecycle.go`) -/

namespace Ego.Compose
open Lib

inductive State where
  | new
  | starting
  | running
  | stopping
  | stopped
  | failed
  deriving DecidableEq, Repr

structure Step where
  name : String
  hasStart : Bool
  hasStop : Bool

structure Config where
  steps : List Step
  hasRelease : Bool
  shutdownTimeout : ℤ

inductive ConfigError where
  | noName (i : ℕ)
  | noStart (name : String)
  | negativeTimeout (timeout : ℤ)
  deriving DecidableEq, Repr

section
variable {ε : Type}

inductive StartOutcome (ε : Type) where
  | ok
  | error (err : ε)
  | panic

/-- What happens during one call: `ctx.Err()` before each step, the outcomes of the functions. -/
structure Env (ε : Type) where
  ctxErr : ℕ → Option ε
  start : ℕ → StartOutcome ε
  stop : ℕ → Option ε
  release : Option ε

inductive Call (ε : Type) where
  | start (i : ℕ) (outcome : StartOutcome ε)
  | stop (i : ℕ) (err : Option ε)
  | release (err : Option ε)

structure Sequence (ε : Type) where
  state : State
  steps : List Step
  hasRelease : Bool
  timeout : ℤ
  started : ℕ
  -- the calls of the steps' functions and of `Release` so far
  calls : List (Call ε)

inductive CleanupError (ε : Type) where
  | stop (name : String) (err : ε)
  | release (err : ε)

def join : List (CleanupError ε) → Option (List (CleanupError ε))
  | [] => none
  | errs => some errs

structure StartError (ε : Type) where
  step : String
  err : ε
  rollback : Option (List (CleanupError ε))

inductive StartResult (ε : Type) where
  | started
  | notStartable (state : State)
  | failed (err : StartError ε)
  | panicked

def defaultShutdownTimeout : ℤ := 30 * 10 ^ 9

def checkSteps : ℕ → List Step → Except ConfigError Unit
  | _, [] => .ok ()
  | i, step :: steps =>
    if step.name = "" then .error (.noName i)
    else if !step.hasStart then .error (.noStart step.name)
    else checkSteps (i + 1) steps

def newSequence (cfg : Config) : Except ConfigError (Sequence ε) := do
  checkSteps 0 cfg.steps
  if cfg.shutdownTimeout < 0 then .error (.negativeTimeout cfg.shutdownTimeout)
  else
    .ok ⟨.new, cfg.steps, cfg.hasRelease,
      if cfg.shutdownTimeout = 0 then defaultShutdownTimeout else cfg.shutdownTimeout, 0, []⟩

/-- The calls of `Stop` for the first `n` steps, the last one first, and their errors. -/
def stopSteps (env : Env ε) (steps : List Step) : ℕ → List (Call ε) × List (CleanupError ε)
  | 0 => ([], [])
  | n + 1 =>
    match steps[n]? with
    | some step =>
      if step.hasStop then
        (.stop n (env.stop n) :: (stopSteps env steps n).1,
          ((env.stop n).map (.stop step.name)).toList ++ (stopSteps env steps n).2)
      else stopSteps env steps n
    | none => stopSteps env steps n

def cleanup (env : Env ε) (release : Bool) (s : Sequence ε) : Option (List (CleanupError ε)) × Sequence ε :=
  let stops := stopSteps env s.steps s.started
  let s' := { s with started := 0, calls := s.calls ++ stops.1 }
  if release && s.hasRelease then
    (join (stops.2 ++ (env.release.map .release).toList), { s' with calls := s'.calls ++ [.release env.release] })
  else (join stops.2, s')

inductive LoopEnd (ε : Type) where
  | done
  | failed (name : String) (err : ε)
  | panicked

def startSteps (env : Env ε) : List Step → ℕ → Sequence ε → LoopEnd ε × Sequence ε
  | [], _, s => (.done, s)
  | step :: steps, i, s =>
    match env.ctxErr i with
    | some err => (.failed step.name err, s)
    | none =>
      let s' := { s with calls := s.calls ++ [.start i (env.start i)] }
      match env.start i with
      | .error err => (.failed step.name err, s')
      | .panic => (.panicked, s')
      | .ok => startSteps env steps (i + 1) { s' with started := s'.started + 1 }

/-- A panic runs the deferred cleanup, whose errors are dropped, and goes on. -/
def start (env : Env ε) (s : Sequence ε) : StartResult ε × Sequence ε :=
  if s.state ≠ .new then (.notStartable s.state, s)
  else
    match startSteps env s.steps 0 { s with state := .starting } with
    | (.done, s) => (.started, { s with state := .running })
    | (.failed name err, s) =>
      let (rollback, s) := cleanup env true s
      (.failed ⟨name, err, rollback⟩, { s with state := .failed })
    | (.panicked, s) => (.panicked, { (cleanup env true s).2 with state := .failed })

/-- `Release` is for a sequence that never ran. -/
def stop (env : Env ε) (s : Sequence ε) : Option (List (CleanupError ε)) × Sequence ε :=
  match s.state with
  | .stopped | .failed => (none, s)
  | .new =>
    let (err, s) := cleanup env true { s with state := .stopping }
    (err, { s with state := .stopped })
  | _ =>
    let (err, s) := cleanup env false { s with state := .stopping }
    (err, { s with state := .stopped })

inductive Label (ε : Type) where
  | start (env : Env ε)
  | stop (env : Env ε)

def step (s : Sequence ε) : Label ε → Sequence ε
  | .start env => (start env s).2
  | .stop env => (stop env s).2

def succeeded (calls : List (Call ε)) : List ℕ :=
  calls.filterMap fun
    | .start i .ok => some i
    | _ => none

def undone (calls : List (Call ε)) : List ℕ :=
  calls.filterMap fun
    | .stop i _ => some i
    | _ => none

def releases (calls : List (Call ε)) : ℕ :=
  calls.countP fun
    | .release _ => true
    | _ => false

def cleanupErrors (steps : List Step) (calls : List (Call ε)) : List (CleanupError ε) :=
  calls.flatMap fun
    | .start _ _ => []
    | .stop i err => (err.map (.stop ((steps[i]?.map Step.name).getD ""))).toList
    | .release err => (err.map .release).toList

def hasStop (steps : List Step) (i : ℕ) : Bool := (steps[i]?.map Step.hasStop).getD false

section
variable {env : Env ε} {steps : List Step} {s : Sequence ε} {calls calls' : List (Call ε)}

@[simp] theorem succeeded_append : succeeded (calls ++ calls') = succeeded calls ++ succeeded calls' :=
  List.filterMap_append

@[simp] theorem undone_append : undone (calls ++ calls') = undone calls ++ undone calls' := List.filterMap_append

@[simp] theorem releases_append : releases (calls ++ calls') = releases calls + releases calls' := List.countP_append

@[simp] theorem cleanupErrors_append :
    cleanupErrors steps (calls ++ calls') = cleanupErrors steps calls ++ cleanupErrors steps calls' :=
  List.flatMap_append

def okStarts (k : ℕ) : List (Call ε) := (List.range k).map fun i => .start i .ok

theorem okStarts_succ (k : ℕ) : (okStarts (k + 1) : List (Call ε)) = okStarts k ++ [.start k .ok] := by
  simp [okStarts, List.range_succ]

def Unsuccessful (calls : List (Call ε)) : Prop :=
  ∀ c ∈ calls, ∃ i outcome, c = .start i outcome ∧ outcome ≠ .ok

def cleanupCalls (env : Env ε) (steps : List Step) (n : ℕ) (release : Bool) : List (Call ε) :=
  (stopSteps env steps n).1 ++ if release then [.release env.release] else []

theorem cleanup_eq (env : Env ε) (release : Bool) (s : Sequence ε) : cleanup env release s =
      (join ((stopSteps env s.steps s.started).2 ++
        if release && s.hasRelease then (env.release.map .release).toList else []),
        { s with started := 0, calls := s.calls ++ cleanupCalls env s.steps s.started (release && s.hasRelease) }) := by
  unfold cleanup cleanupCalls
  cases release && s.hasRelease with
  | true => simp
  | false => simp

theorem startSteps_spec (env : Env ε) (steps : List Step) (i : ℕ) (s : Sequence ε) (hs : s.started = i)
    (hcalls : s.calls = okStarts i) :
    ∃ k last, Unsuccessful last ∧ (startSteps env steps i s).2 =
      { s with started := k, calls := okStarts k ++ last } ∧
      ((startSteps env steps i s).1 = .done → k = i + steps.length ∧ last = []) := by
  induction steps generalizing i s with
  | nil =>
    refine ⟨i, [], nofun, ?_, fun _ => ⟨rfl, rfl⟩⟩
    rw [List.append_nil, ← hcalls, ← hs]
    rfl
  | cons st steps ih =>
    unfold startSteps
    cases hctx : env.ctxErr i with
    | some err =>
      refine ⟨i, [], nofun, ?_, nofun⟩
      rw [List.append_nil, ← hcalls, ← hs]
    | none =>
      cases hstart : env.start i with
      | error err =>
        refine ⟨i, [.start i (.error err)], ?_, ?_, nofun⟩
        · intro c hc
          exact ⟨i, .error err, List.mem_singleton.mp hc, nofun⟩
        · dsimp only
          rw [hcalls, hs]
      | panic =>
        refine ⟨i, [.start i .panic], ?_, ?_, nofun⟩
        · intro c hc
          exact ⟨i, .panic, List.mem_singleton.mp hc, nofun⟩
        · dsimp only
          rw [hcalls, hs]
      | ok =>
        obtain ⟨k, last, hlast, hend, hdone⟩ := ih (i + 1)
          { s with calls := s.calls ++ [.start i .ok], started := s.started + 1 } (by rw [hs])
          (by rw [hcalls, okStarts_succ])
        refine ⟨k, last, hlast, hend, fun h => ?_⟩
        obtain ⟨hk, hnil⟩ := hdone h
        exact ⟨by rw [hk, List.length_cons]; omega, hnil⟩

inductive Life (s : Sequence ε) : Prop
  | fresh (hstate : s.state = .new) (hstarted : s.started = 0) (hcalls : s.calls = [])
  | running (hstate : s.state = .running) (hstarted : s.started = s.steps.length)
      (hcalls : s.calls = okStarts s.steps.length)
  | failed (env : Env ε) (k : ℕ) (last : List (Call ε)) (hlast : Unsuccessful last) (hstate : s.state = .failed)
      (hcalls : s.calls = okStarts k ++ last ++ cleanupCalls env s.steps k s.hasRelease)
  | stopped (env : Env ε) (hstate : s.state = .stopped)
      (hcalls : s.calls = okStarts s.steps.length ++ cleanupCalls env s.steps s.steps.length false)
  | released (env : Env ε) (hstate : s.state = .stopped) (hcalls : s.calls = cleanupCalls env s.steps 0 s.hasRelease)

theorem life_newSequence {cfg : Config} (h : newSequence cfg = .ok s) : Life s := by
  obtain ⟨-, h⟩ := check_eq_ok.mp h
  split at h
  · cases h
  · obtain rfl := Except.ok.inj h
    exact .fresh rfl rfl rfl

theorem start_of_not_new (h : s.state ≠ .new) : start env s = (.notStartable s.state, s) := by
  rw [start, if_pos h]

theorem Life.start (h : Life s) (env : Env ε) : Life (start env s).2 := by
  cases h with
  | fresh hstate hstarted hcalls =>
    obtain ⟨k, last, hlast, hend, hdone⟩ :=
      startSteps_spec env s.steps 0 { s with state := .starting } hstarted hcalls
    unfold Compose.start
    rw [if_neg (by simp [hstate])]
    rcases hloop : startSteps env s.steps 0 { s with state := .starting } with ⟨loopEnd, s'⟩
    rw [hloop] at hend hdone
    subst hend
    cases loopEnd with
    | done =>
      obtain ⟨rfl, rfl⟩ := hdone rfl
      refine .running rfl ?_ ?_ <;> simp
    | failed | panicked =>
      simp only [cleanup_eq, Bool.true_and]
      exact .failed env k last hlast rfl rfl
  | running hstate hstarted hcalls =>
    rw [start_of_not_new (by simp [hstate])]
    exact .running hstate hstarted hcalls
  | failed env' k last hlast hstate hcalls =>
    rw [start_of_not_new (by simp [hstate])]
    exact .failed env' k last hlast hstate hcalls
  | stopped env' hstate hcalls =>
    rw [start_of_not_new (by simp [hstate])]
    exact .stopped env' hstate hcalls
  | released env' hstate hcalls =>
    rw [start_of_not_new (by simp [hstate])]
    exact .released env' hstate hcalls

theorem Life.stop (h : Life s) (env : Env ε) : Life (stop env s).2 := by
  cases h with
  | fresh hstate hstarted hcalls =>
    simp only [Compose.stop, hstate, cleanup_eq, Bool.true_and]
    refine .released env rfl ?_
    simp [hcalls, hstarted]
  | running hstate hstarted hcalls =>
    simp only [Compose.stop, hstate, cleanup_eq, Bool.false_and]
    refine .stopped env rfl ?_
    simp [hcalls, hstarted]
  | failed env' k last hlast hstate hcalls =>
    simp only [Compose.stop, hstate]
    exact .failed env' k last hlast hstate hcalls
  | stopped env' hstate hcalls =>
    simp only [Compose.stop, hstate]
    exact .stopped env' hstate hcalls
  | released env' hstate hcalls =>
    simp only [Compose.stop, hstate]
    exact .released env' hstate hcalls

theorem Life.step (h : Life s) (l : Label ε) : Life (step s l) := by
  cases l with
  | start env => exact h.start env
  | stop env => exact h.stop env

theorem succeeded_okStarts (k : ℕ) : succeeded (okStarts k : List (Call ε)) = List.range k := by
  simp [succeeded, okStarts, List.filterMap_map]

theorem undone_okStarts (k : ℕ) : undone (okStarts k : List (Call ε)) = [] := by
  simp [undone, okStarts]

theorem releases_okStarts (k : ℕ) : releases (okStarts k : List (Call ε)) = 0 := by
  simp [releases, okStarts, List.countP_eq_zero]

theorem cleanupErrors_okStarts (steps : List Step) (k : ℕ) : cleanupErrors steps
    (okStarts k : List (Call ε)) = [] := by
  simp [cleanupErrors, okStarts]

theorem Unsuccessful.facts {last : List (Call ε)} (h : Unsuccessful last) (steps : List Step) :
    succeeded last = [] ∧ undone last = [] ∧ releases last = 0 ∧ cleanupErrors steps last = [] := by
  induction last with
  | nil => exact ⟨rfl, rfl, rfl, rfl⟩
  | cons c last ih =>
    obtain ⟨hc, hlast⟩ := List.forall_mem_cons.mp h
    obtain ⟨i, outcome, rfl, hne⟩ := hc
    obtain ⟨hsucceeded, hundone, hreleases, herrors⟩ := ih hlast
    refine ⟨?_, ?_, ?_, ?_⟩
    · cases outcome with
      | ok => exact absurd rfl hne
      | error | panic => exact hsucceeded
    · exact hundone
    · exact (List.countP_cons_of_neg (by simp)).trans hreleases
    · exact herrors

theorem stopSteps_skip {n : ℕ} (h : hasStop steps n = false) :
    stopSteps env steps (n + 1) = stopSteps env steps n := by
  rw [stopSteps]
  cases hst : steps[n]? with
  | none => rfl
  | some st =>
    have hstop : st.hasStop = false := by simpa [hasStop, hst] using h
    simp [hstop]

theorem stopSteps_call (env : Env ε) {n : ℕ} (h : hasStop steps n = true) : ∃ st, steps[n]? = some st ∧
    stopSteps env steps (n + 1) = (.stop n (env.stop n) :: (stopSteps env steps n).1,
      ((env.stop n).map (.stop st.name)).toList ++ (stopSteps env steps n).2) := by
  rw [stopSteps]
  cases hst : steps[n]? with
  | none => simp [hasStop, hst] at h
  | some st =>
    have hstop : st.hasStop = true := by simpa [hasStop, hst] using h
    exact ⟨st, rfl, by simp [hstop]⟩

theorem undone_stopSteps (env : Env ε) (steps : List Step) (n : ℕ) :
    undone (stopSteps env steps n).1 = ((List.range n).filter (hasStop steps)).reverse := by
  induction n with
  | zero => rfl
  | succ n ih =>
    rw [List.range_succ, List.filter_append, List.reverse_append, ← ih]
    cases h : hasStop steps n with
    | false => simp [stopSteps_skip h, h]
    | true =>
      obtain ⟨st, -, hcall⟩ := stopSteps_call env h
      rw [hcall, List.filter_singleton, h]
      rfl

theorem stopSteps_only_stops (env : Env ε) (steps : List Step) (n : ℕ) :
    succeeded (stopSteps env steps n).1 = [] ∧ releases (stopSteps env steps n).1 = 0 := by
  induction n with
  | zero => exact ⟨rfl, rfl⟩
  | succ n ih =>
    cases h : hasStop steps n with
    | false =>
      rw [stopSteps_skip h]
      exact ih
    | true =>
      obtain ⟨st, -, hcall⟩ := stopSteps_call env h
      rw [hcall]
      exact ⟨ih.1, (List.countP_cons_of_neg (by simp)).trans ih.2⟩

theorem cleanupErrors_stopSteps (env : Env ε) (steps : List Step) (n : ℕ) :
    cleanupErrors steps (stopSteps env steps n).1 = (stopSteps env steps n).2 := by
  induction n with
  | zero => rfl
  | succ n ih =>
    cases h : hasStop steps n with
    | false =>
      rw [stopSteps_skip h]
      exact ih
    | true =>
      obtain ⟨st, hst, hcall⟩ := stopSteps_call env h
      rw [hcall, ← ih]
      simp [cleanupErrors, hst]

theorem succeeded_cleanupCalls (env : Env ε) (steps : List Step) (n : ℕ) (release : Bool) :
    succeeded (cleanupCalls env steps n release) = [] := by
  rw [cleanupCalls, succeeded_append, (stopSteps_only_stops env steps n).1]
  cases release <;> rfl

theorem undone_cleanupCalls (env : Env ε) (steps : List Step) (n : ℕ) (release : Bool) :
    undone (cleanupCalls env steps n release) = ((List.range n).filter (hasStop steps)).reverse := by
  rw [cleanupCalls, undone_append, undone_stopSteps]
  cases release <;> exact List.append_nil _

theorem releases_cleanupCalls (env : Env ε) (steps : List Step) (n : ℕ) (release : Bool) :
    releases (cleanupCalls env steps n release) = if release then 1 else 0 := by
  rw [cleanupCalls, releases_append, (stopSteps_only_stops env steps n).2]
  cases release <;> rfl

theorem cleanupErrors_cleanupCalls (env : Env ε) (steps : List Step) (n : ℕ) (release : Bool) :
    cleanupErrors steps (cleanupCalls env steps n release) =
      (stopSteps env steps n).2 ++ if release then (env.release.map .release).toList else [] := by
  rw [cleanupCalls, cleanupErrors_append, cleanupErrors_stopSteps]
  cases release with
  | true => simp [cleanupErrors]
  | false => rfl

theorem Life.undone (h : Life s) : undone s.calls =
    if s.state = .failed ∨ s.state = .stopped then ((succeeded s.calls).filter (hasStop s.steps)).reverse
      else [] := by
  cases h with
  | fresh hstate _ hcalls => simp [hstate, hcalls, Compose.undone]
  | running hstate _ hcalls => simp [hstate, hcalls, undone_okStarts]
  | failed env k last hlast hstate hcalls =>
    obtain ⟨hsucceeded, hundone, -, -⟩ := hlast.facts s.steps
    simp [hstate, hcalls, hsucceeded, hundone, undone_okStarts, succeeded_okStarts, undone_cleanupCalls,
      succeeded_cleanupCalls]
  | stopped env hstate hcalls =>
    simp [hstate, hcalls, undone_okStarts, succeeded_okStarts, undone_cleanupCalls, succeeded_cleanupCalls]
  | released env hstate hcalls => simp [hstate, hcalls, undone_cleanupCalls, succeeded_cleanupCalls]

theorem Life.succeeded (h : Life s) : ∃ k, succeeded s.calls = List.range k := by
  cases h with
  | fresh _ _ hcalls => exact ⟨0, by rw [hcalls]; rfl⟩
  | running _ _ hcalls => exact ⟨_, by rw [hcalls, succeeded_okStarts]⟩
  | failed env k last hlast _ hcalls =>
    exact ⟨k, by simp [hcalls, succeeded_okStarts, (hlast.facts s.steps).1, succeeded_cleanupCalls]⟩
  | stopped env _ hcalls => exact ⟨_, by rw [hcalls, succeeded_append, succeeded_okStarts,
      succeeded_cleanupCalls, List.append_nil]⟩
  | released env _ hcalls => exact ⟨0, by rw [hcalls, succeeded_cleanupCalls]; rfl⟩

theorem Life.releases (h : Life s) : releases s.calls ≤ 1 := by
  have hone (b : Bool) : (if b then 1 else 0) ≤ 1 := by cases b <;> simp
  cases h with
  | fresh _ _ hcalls => simp [hcalls, Compose.releases]
  | running _ _ hcalls => simp [hcalls, releases_okStarts]
  | failed env k last hlast _ hcalls =>
    rw [hcalls, releases_append, releases_append, releases_okStarts, (hlast.facts s.steps).2.2.1, releases_cleanupCalls,
      Nat.zero_add]
    exact hone _
  | stopped env _ hcalls => simp [hcalls, releases_okStarts, releases_cleanupCalls]
  | released env _ hcalls =>
    rw [hcalls, releases_cleanupCalls]
    exact hone _

def Ran (s : Sequence ε) : Prop := (s.state = .running ∨ s.state = .stopped) ∧ releases s.calls = 0

theorem Ran.step (h : Ran s) (l : Label ε) : Ran (step s l) := by
  obtain ⟨hstate, hreleases⟩ := h
  cases l with
  | start env =>
    have hne : s.state ≠ .new := by rcases hstate with hstate | hstate <;> simp [hstate]
    simp only [Compose.step, start_of_not_new hne]
    exact ⟨hstate, hreleases⟩
  | stop env =>
    rcases hstate with hstate | hstate
    · simp only [Compose.step, Compose.stop, hstate, cleanup_eq, Bool.false_and]
      refine ⟨.inr rfl, ?_⟩
      rw [releases_append, hreleases, releases_cleanupCalls]
      rfl
    · simp only [Compose.step, Compose.stop, hstate]
      exact ⟨.inr hstate, hreleases⟩

theorem Life.ran (h : Life s) (hstate : s.state = .running) : Ran s := by
  cases h with
  | running _ _ hcalls => exact ⟨.inl hstate, by rw [hcalls, releases_okStarts]⟩
  | fresh hother | failed _ _ _ _ hother | stopped _ hother => simp [hother] at hstate
  | released _ hother => simp [hother] at hstate

theorem Life.start_failed (h : Life s) {err : StartError ε} (hfailed : (Compose.start env s).1 = .failed err) :
    err.rollback = join (cleanupErrors s.steps (Compose.start env s).2.calls) := by
  by_cases hnew : s.state = .new
  · cases h with
    | fresh hstate hstarted hcalls =>
      obtain ⟨k, last, hlast, hend, hdone⟩ :=
        startSteps_spec env s.steps 0 { s with state := .starting } hstarted hcalls
      unfold Compose.start at hfailed ⊢
      rw [if_neg (by simp [hstate])] at hfailed ⊢
      rcases hloop : startSteps env s.steps 0 { s with state := .starting } with ⟨loopEnd, s'⟩
      rw [hloop] at hend hfailed
      subst hend
      cases loopEnd with
      | done | panicked => cases hfailed
      | failed name err' =>
        simp only [cleanup_eq, Bool.true_and] at hfailed ⊢
        cases hfailed
        simp [cleanupErrors_okStarts, (hlast.facts s.steps).2.2.2, cleanupErrors_cleanupCalls]
    | running hstate | failed _ _ _ _ hstate | stopped _ hstate | released _ hstate =>
      simp [hstate] at hnew
  · rw [start_of_not_new hnew] at hfailed
    cases hfailed

theorem startSteps_steps (env : Env ε) (steps : List Step) (i : ℕ) (s : Sequence ε) :
    (startSteps env steps i s).2.steps = s.steps := by
  induction steps generalizing i s with
  | nil => rfl
  | cons st steps ih =>
    unfold startSteps
    cases env.ctxErr i with
    | some err => rfl
    | none =>
      cases env.start i with
      | error | panic => rfl
      | ok => exact ih _ _

theorem step_steps (s : Sequence ε) (l : Label ε) : (step s l).steps = s.steps := by
  cases l with
  | start env =>
    have hloop := startSteps_steps env s.steps 0 { s with state := .starting }
    simp only [step, start]
    split
    · rfl
    · split
      · rename_i heq
        rwa [heq] at hloop
      · rename_i heq
        rw [heq] at hloop
        rw [cleanup_eq]
        exact hloop
      · rename_i heq
        rw [heq] at hloop
        rw [cleanup_eq]
        exact hloop
  | stop env =>
    simp only [step, stop]
    split
    · rfl
    · rfl
    · rw [cleanup_eq]
    · rw [cleanup_eq]

theorem run_life {s₀ : Sequence ε} (h : Life s₀) (labels : List (Label ε)) :
    Life (run step s₀ labels) ∧ (run step s₀ labels).steps = s₀.steps :=
  run_always step (fun s => Life s ∧ s.steps = s₀.steps)
    (fun s l hs => ⟨hs.1.step l, (step_steps s l).trans hs.2⟩) ⟨h, rfl⟩ labels

theorem Life.stop_state (h : Life s) (env : Env ε) :
    (Compose.stop env s).2.state = if s.state = .failed then .failed else .stopped := by
  cases h with
  | fresh hstate | running hstate | failed _ _ _ _ hstate | stopped _ hstate | released _ hstate =>
    simp [Compose.stop, hstate]

theorem start_state (hnew : s.state = .new) (env : Env ε) :
    (start env s).2.state = .running ∨ (start env s).2.state = .failed := by
  unfold start
  rw [if_neg (not_not_intro hnew)]
  split
  · exact .inl rfl
  · exact .inr rfl
  · exact .inr rfl

theorem Life.all_succeeded (h : Life s) (hstate : s.state = .running) :
    Compose.succeeded s.calls = List.range s.steps.length := by
  cases h with
  | running _ _ hcalls => rw [hcalls, succeeded_okStarts]
  | fresh hother | failed _ _ _ _ hother | stopped _ hother | released _ hother =>
    simp [hother] at hstate

/-- Whatever the steps and the contexts do, in every sequence of calls: the steps start
in order, each at most once. Once the sequence failed or was stopped, those that
started and have a `Stop` were undone once each, in reverse, and until then none was.
`Start` of a new sequence ends with every step started and the sequence running, or
with the sequence failed; `Stop` ends with it stopped, unless it had failed.
`Release` is called at most once, and never if the sequence was running. The error of a
failed start has every error of its cleanup. -/
theorem sequence_undone_once {cfg : Config} {s₀ : Sequence ε} (h : newSequence cfg = .ok s₀)
    (labels : List (Label ε)) : (∃ k, succeeded (run step s₀ labels).calls = List.range k) ∧
    (undone (run step s₀ labels).calls =
      if (run step s₀ labels).state = .failed ∨ (run step s₀ labels).state = .stopped then
        ((succeeded (run step s₀ labels).calls).filter (hasStop cfg.steps)).reverse else []) ∧
    (∀ env, (run step s₀ labels).state = .new →
      (run step s₀ (labels ++ [.start env])).state = .failed ∨
      (run step s₀ (labels ++ [.start env])).state = .running ∧
        succeeded (run step s₀ (labels ++ [.start env])).calls = List.range cfg.steps.length) ∧
    (∀ env, (run step s₀ (labels ++ [.stop env])).state =
      if (run step s₀ labels).state = .failed then .failed else .stopped) ∧
    releases (run step s₀ labels).calls ≤ 1 ∧
    (0 < releases (run step s₀ labels).calls →
      ∀ before, before <+: labels → (run step s₀ before).state ≠ .running) ∧
    ∀ before env after err, labels = before ++ .start env :: after →
      (start env (run step s₀ before)).1 = .failed err →
      err.rollback = join (cleanupErrors cfg.steps (start env (run step s₀ before)).2.calls) := by
  have hsteps : s₀.steps = cfg.steps := by
    obtain ⟨-, h⟩ := check_eq_ok.mp h
    split at h
    · cases h
    · obtain rfl := Except.ok.inj h
      rfl
  obtain ⟨hlife, hsame⟩ := run_life (life_newSequence h) labels
  have hundone := hlife.undone
  rw [hsame, hsteps] at hundone
  refine ⟨hlife.succeeded, hundone, fun env hnew => ?_, fun env => ?_, hlife.releases, ?_, ?_⟩
  · rw [run_append]
    refine (start_state hnew env).symm.imp_right fun hrunning => ⟨hrunning, ?_⟩
    have hall := (hlife.step (.start env)).all_succeeded hrunning
    rwa [step_steps, hsame, hsteps] at hall
  · rw [run_append]
    exact hlife.stop_state env
  · -- from a running state on, nothing is released
    rintro hreleases before ⟨after, rfl⟩ hrunning
    have hran : Ran (run step s₀ (before ++ after)) := by
      rw [run_append]
      exact run_always step Ran (fun s l hs => hs.step l)
        ((run_life (life_newSequence h) before).1.ran hrunning) after
    rw [hran.2] at hreleases
    cases hreleases
  · rintro before env after err rfl hfailed
    obtain ⟨hbefore, hkept⟩ := run_life (life_newSequence h) before
    have herrors := hbefore.start_failed hfailed
    rwa [hkept, hsteps] at herrors

end

def threeSteps : Config :=
  ⟨[⟨"stores", true, true⟩, ⟨"probe", true, false⟩, ⟨"engine", true, true⟩], true, 0⟩

def engineBusy : Env String := ⟨fun _ => none, fun _ => .ok, fun _ => some "busy", none⟩

/-- The three steps run and are stopped, twice. The probe has no `Stop`. -/
theorem sequence_undone_once_stopped : ∃ s₀, newSequence threeSteps = .ok s₀ ∧
    (run step s₀ [.start engineBusy]).state = .running ∧
    (run step s₀ [.start engineBusy, .stop engineBusy]).state = .stopped ∧
    undone (run step s₀ [.start engineBusy, .stop engineBusy, .stop engineBusy]).calls = [2, 0] := by
  obtain ⟨s₀, hs₀⟩ : ∃ s₀, newSequence threeSteps = .ok (s₀ : Sequence String) := ⟨_, rfl⟩
  have hundone :=
    (sequence_undone_once hs₀ [.start engineBusy, .stop engineBusy, .stop engineBusy]).2.1
  have hstopped := (sequence_undone_once hs₀ [.start engineBusy]).2.2.2.1 engineBusy
  refine ⟨s₀, hs₀, ?_, hstopped.trans ?_, hundone.trans ?_⟩ <;>
    obtain rfl := Except.ok.inj hs₀ <;> rfl

end

end Ego.Compose

import Ego.Migration.TenantAdopter

/-! # What an aggregate's adoption amounts to -/

namespace Ego.Migration
open Persistence
open Lib (Prog)
open Lib.Prog (read wp wp_pure wp_mono wp_bind wp_call Returns Meets returns_pure)

/-- `occupied` is the target record that shows nothing but is in the way of a first
write; `removes` says whether the kind can be deleted at all. -/
structure View where
  source : Bool
  target : Bool
  occupied : Bool
  verdict : Except Err Unit
  create : Records → Records
  removes : Bool
  remove : Records → Records

namespace View
variable (v : View) (write deleteSource : Bool)

def outcome : RecordOutcome :=
  if v.target then
    match v.verdict with
    | .error err => failedWith err
    | .ok () =>
      if v.source && write && deleteSource && v.removes then { status := .sourceDeleted }
      else { status := .alreadyPresent }
  else if !v.source then { status := .none }
  else if !write then copiedOutcome
  else if v.occupied then classifyExisting v.verdict
  else if deleteSource && v.removes then { status := .sourceDeleted, wroteTarget := true }
  else copiedOutcome

def effect (r : Records) : Records :=
  if v.target then
    match v.verdict with
    | .error _ => r
    | .ok () => if v.source && write && deleteSource && v.removes then v.remove r else r
  else if !v.source || !write || v.occupied then r
  else if deleteSource && v.removes then v.remove (v.create r)
  else v.create r

variable {v write deleteSource}

theorem rejected {err : Err} (ht : v.target = true) (hv : v.verdict = .error err) :
    v.outcome write deleteSource = failedWith err ∧ ∀ r, v.effect write deleteSource r = r := by
  simp [outcome, effect, ht, hv]

theorem present (ht : v.target = true) (hv : v.verdict = .ok ())
    (hkeep : ¬ (v.source && write && deleteSource && v.removes) = true) :
    v.outcome write deleteSource = { status := .alreadyPresent } ∧ ∀ r, v.effect write deleteSource r = r := by
  simp only [outcome, effect, ht, hv, if_true, if_neg hkeep, implies_true, and_self]

theorem classified (ht : v.target = true)
    (hkeep : v.verdict = .ok () → ¬ (v.source && write && deleteSource && v.removes) = true) :
    v.outcome write deleteSource = classifyExisting v.verdict ∧ ∀ r, v.effect write deleteSource r = r := by
  cases hv : v.verdict with
  | error err => exact rejected ht hv
  | ok u => exact present ht hv (hkeep hv)

theorem removed (ht : v.target = true) (hv : v.verdict = .ok ())
    (hdelete : (v.source && write && deleteSource && v.removes) = true) :
    v.outcome write deleteSource = { status := .sourceDeleted } ∧
      ∀ r, v.effect write deleteSource r = v.remove r := by
  simp only [outcome, effect, ht, hv, if_true, hdelete, implies_true, and_self]

theorem nothing (ht : v.target = false) (hs : v.source = false) :
    v.outcome write deleteSource = { status := .none } ∧ ∀ r, v.effect write deleteSource r = r := by
  simp [outcome, effect, ht, hs]

theorem planned (ht : v.target = false) (hs : v.source = true) :
    v.outcome false deleteSource = copiedOutcome ∧ ∀ r, v.effect false deleteSource r = r := by
  simp [outcome, effect, ht, hs]

theorem blocked {err : Err} (ht : v.target = false) (hs : v.source = true) (ho : v.occupied = true)
    (hv : v.verdict = .error err) :
    v.outcome true deleteSource = failedWith err ∧ ∀ r, v.effect true deleteSource r = r := by
  simp [outcome, effect, ht, hs, ho, hv, classifyExisting]

theorem copied (ht : v.target = false) (hs : v.source = true) (ho : v.occupied = false) :
    v.outcome true deleteSource = (if deleteSource && v.removes then { status := .sourceDeleted, wroteTarget := true }
      else copiedOutcome) ∧
    ∀ r, v.effect true deleteSource r = if deleteSource && v.removes then v.remove (v.create r) else v.create r := by
  simp [outcome, effect, ht, hs, ho]

variable (v write deleteSource)

inductive Stage (r : Records) : Records → Prop
  | start : Stage r r
  | created : v.source = true → v.target = false → v.occupied = false → write = true → Stage r (v.create r)
  | createdRemoved : v.source = true → v.target = false → v.occupied = false → write = true →
      deleteSource = true →
      v.removes = true → Stage r (v.remove (v.create r))
  | removed : v.source = true → v.target = true → v.verdict = .ok () → write = true → deleteSource = true →
      v.removes = true → Stage r (v.remove r)

structure Realizes (p : Prog Records Err RecordOutcome) (r : Records) : Prop where
  returns : Returns p r (v.outcome write deleteSource) (v.effect write deleteSource r)
  stages : wp p (fun _ => v.Stage write deleteSource r) (v.Stage write deleteSource r) r

variable {v write deleteSource} {p : Prog Records Err RecordOutcome} {r : Records}

theorem realizes_pure {out : RecordOutcome}
    (h : v.outcome write deleteSource = out ∧ ∀ r, v.effect write deleteSource r = r) :
    v.Realizes write deleteSource (pure out) r := by
  refine ⟨?_, wp_pure .start⟩
  rw [h.1, h.2]
  exact returns_pure

theorem realizes_meets {out : RecordOutcome} {r' : Records} (hout : v.outcome write deleteSource = out)
    (heff : v.effect write deleteSource r = r') (h : Meets p r out r' (v.Stage write deleteSource r)) :
    v.Realizes write deleteSource p r := by
  subst hout heff
  exact ⟨h.returns, h.stays⟩

theorem realizes_bind {α : Type} {q : Prog Records Err α} {k : α → Prog Records Err RecordOutcome} {x : α}
    (hq : Returns q r x r) (hwp : wp q (fun y r' => r' = r ∧ (y = x ∨ ∃ out, k y = pure out))
      (fun r' => r' = r) r)
    (h : v.Realizes write deleteSource (k x) r) : v.Realizes write deleteSource (q >>= k) r := by
  refine ⟨hq.bind h.returns, wp_bind (wp_mono hwp ?_ ?_)⟩
  · rintro y r' ⟨rfl, rfl | ⟨out, hout⟩⟩
    · exact h.stages
    · rw [hout]
      exact wp_pure .start
  · rintro r' rfl
    exact .start

theorem realizes_read {α : Type} {f : Records → Except Err α}
    {k : Except Err α → Prog Records Err RecordOutcome} {x : α}
    (hf : f r = .ok x) (herr : ∀ err, ∃ out, k (.error err) = pure out)
    (h : v.Realizes write deleteSource (k (.ok x)) r) : v.Realizes write deleteSource (read f >>= k) r := by
  have hread : Returns (read f : Prog Records Err _) r (.ok x) r := by
    rw [← hf]
    rfl
  exact realizes_bind hread (wp_call rfl ⟨rfl, .inl hf⟩ (fun err => ⟨rfl, .inr (herr err)⟩)
    fun err => ⟨rfl, .inr (herr err)⟩) h

end View

@[simp] theorem intentFor_target (tenantID : TenantID) : (intentFor tenantID).target = .tenant tenantID := rfl
@[simp] theorem intentFor_tenant (tenantID : TenantID) : (intentFor tenantID).tenant = .tenant tenantID := rfl

def okOr {α : Type} (default : α) : Except Err α → α
  | .ok x => x
  | .error _ => default

@[simp] theorem okOr_ok {α : Type} (default x : α) : okOr default (.ok x) = x := rfl

end Ego.Migration

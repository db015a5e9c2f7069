import Ego.Enginetest.Adopter
import Ego.Lib.LockOrder
import Ego.Lib.Runs

/-! # The fences of concurrent runs (`tenant_adoption.go:586-718, 1022-1058`) -/

namespace Ego.Migration.Fences
open Persistence Lib

/-- `left` are the fences to be released, in the order of `releaseAll`. -/
inductive Phase where
  | idle
  | acquiring (id : String) (taken : List Scope) (want : Scope) (rest : List Scope)
  | working (id : String) (taken : List Scope)
  | releasing (id : String) (acquired left released : List Scope) (panics : Bool)
  | over
  deriving DecidableEq

structure Exit where
  run : ℕ
  id : String
  acquired : List Scope
  released : List Scope
  deriving DecidableEq

structure State where
  holder : Scope × String → Option ℕ
  phase : ℕ → Phase
  exits : List Exit

def start : State := ⟨fun _ => none, fun _ => .idle, []⟩

inductive Label where
  | begin (r : ℕ) (id : String)
  /-- What becomes of a call of `Acquire`. -/
  | grant (r : ℕ)
  | refuse (r : ℕ)
  | panic (r : ℕ)
  | finish (r : ℕ) (panics : Bool)
  | release (r : ℕ)
  deriving DecidableEq

namespace State

def goto (st : State) (r : ℕ) (phase : Phase) : State := { st with phase := Function.update st.phase r phase }

def exit (st : State) (r : ℕ) (phase : Phase) (x : Exit) : State := { st with exits := st.exits ++ [x] }.goto r phase

def acquireNext (id : String) (taken : List Scope) : List Scope → Phase
  | [] => .working id taken
  | want :: rest => .acquiring id taken want rest

def begin (a : TenantAdopter) (st : State) (r : ℕ) (id : String) : State :=
  match st.phase r with
  | .idle =>
    match a.assign id with
    | .ok (some tenantID) =>
      match TenantAdopter.newTenantScope tenantID with
      | .ok target =>
        if target = a.sourceScope then st.exit r .idle ⟨r, id, [], []⟩
        else if a.write then st.goto r (acquireNext id [] (a.fenceOrder target))
        else st.goto r (.working id [])
      | .error _ => st.exit r .idle ⟨r, id, [], []⟩
    | _ => st.exit r .idle ⟨r, id, [], []⟩
  | _ => st

/-- A call of `Acquire` returns when the fence is free. -/
def grant (st : State) (r : ℕ) : State :=
  match st.phase r with
  | .acquiring id taken want rest =>
    if st.holder (want, id) = none then
      { st with holder := Function.update st.holder (want, id) (some r) }.goto r (acquireNext id (taken ++ [want]) rest)
    else st
  | _ => st

def refuse (st : State) (r : ℕ) : State :=
  match st.phase r with
  | .acquiring id taken _ _ => st.goto r (.releasing id taken taken.reverse [] false)
  | _ => st

/-- It panics. `acquireFences` has no deferred call, and the one of its caller is not yet made. -/
def panic (st : State) (r : ℕ) : State :=
  match st.phase r with
  | .acquiring id taken _ _ => st.exit r .over ⟨r, id, taken, []⟩
  | _ => st

def finish (st : State) (r : ℕ) (panics : Bool) : State :=
  match st.phase r with
  | .working id taken => st.goto r (.releasing id taken taken.reverse [] panics)
  | _ => st

def release (st : State) (r : ℕ) : State :=
  match st.phase r with
  | .releasing id acquired (scope :: left) released panics =>
    { st with holder := Function.update st.holder (scope, id) none }.goto r
      (.releasing id acquired left (released ++ [scope]) panics)
  | .releasing id acquired [] released panics =>
      st.exit r (if panics then .over else .idle) ⟨r, id, acquired, released⟩
  | _ => st

end State

section
variable (adopters : ℕ → TenantAdopter)

def step (st : State) : Label → State
  | .begin r id => st.begin (adopters r) r id
  | .grant r => st.grant r
  | .refuse r => st.refuse r
  | .panic r => st.panic r
  | .finish r panics => st.finish r panics
  | .release r => st.release r

def Wants (st : State) (r : ℕ) (fence : Scope × String) : Prop :=
  ∃ taken rest, st.phase r = .acquiring fence.2 taken fence.1 rest

def Holds (st : State) (r : ℕ) (fence : Scope × String) : Prop := st.holder fence = some r

inductive Move (crash : List Scope → Prop) (st : State) : State → Prop
  | nothing : Move crash st st
  | skip {r id} (hp : st.phase r = .idle) : Move crash st (st.exit r .idle ⟨r, id, [], []⟩)
  | unfenced {r id} (hp : st.phase r = .idle) : Move crash st (st.goto r (.working id []))
  | begin {r id target} (hp : st.phase r = .idle) (hvalid : target.valid = true)
      (hne : target ≠ (adopters r).sourceScope) :
      Move crash st (st.goto r (State.acquireNext id [] ((adopters r).fenceOrder target)))
  | grant {r id taken want rest} (hp : st.phase r = .acquiring id taken want rest)
      (hfree : st.holder (want, id) = none) :
      Move crash st ({ st with holder := Function.update st.holder (want, id) (some r) }.goto r
        (State.acquireNext id (taken ++ [want]) rest))
  | refuse {r id taken want rest} (hp : st.phase r = .acquiring id taken want rest) :
      Move crash st (st.goto r (.releasing id taken taken.reverse [] false))
  | panic {r id taken want rest} (hp : st.phase r = .acquiring id taken want rest) (hcrash : crash taken) :
      Move crash st (st.exit r .over ⟨r, id, taken, []⟩)
  | finish {r id taken} (panics : Bool) (hp : st.phase r = .working id taken) :
      Move crash st (st.goto r (.releasing id taken taken.reverse [] panics))
  | release {r id acquired scope left released panics}
      (hp : st.phase r = .releasing id acquired (scope :: left) released panics) :
      Move crash st ({ st with holder := Function.update st.holder (scope, id) none }.goto r
        (.releasing id acquired left (released ++ [scope]) panics))
  | leave {r id acquired released panics} (hp : st.phase r = .releasing id acquired [] released panics) :
      Move crash st (st.exit r (if panics then .over else .idle) ⟨r, id, acquired, released⟩)

theorem newTenantScope_valid {tenantID : TenantID} {target : Scope}
    (h : TenantAdopter.newTenantScope tenantID = .ok target) :
    target.valid = true := by
  unfold TenantAdopter.newTenantScope at h
  split at h
  · obtain rfl := Except.ok.inj h
    rfl
  · cases h
  · cases h

theorem step_move {crash : List Scope → Prop} (st : State) (l : Label)
    (hcrash : ∀ r id taken want rest, l = .panic r → st.phase r = .acquiring id taken want rest → crash taken) :
    Move adopters crash st (step adopters st l) := by
  cases l with
  | begin r id =>
    unfold step State.begin
    dsimp only
    split
    · rename_i hp
      split
      · split
        · rename_i target htarget
          split
          · exact .skip hp
          · rename_i hne
            split
            · exact .begin hp (newTenantScope_valid htarget) hne
            · exact .unfenced hp
        · exact .skip hp
      · exact .skip hp
    · exact .nothing
  | grant r =>
    unfold step State.grant
    dsimp only
    split
    · rename_i hp
      split
      · rename_i hfree
        exact .grant hp hfree
      · exact .nothing
    · exact .nothing
  | refuse r =>
    unfold step State.refuse
    dsimp only
    split
    · rename_i hp
      exact .refuse hp
    · exact .nothing
  | panic r =>
    unfold step State.panic
    dsimp only
    split
    · rename_i hp
      exact .panic hp (hcrash r _ _ _ _ rfl hp)
    · exact .nothing
  | finish r panics =>
    unfold step State.finish
    dsimp only
    split
    · rename_i hp
      exact .finish panics hp
    · exact .nothing
  | release r =>
    unfold step State.release
    dsimp only
    split
    · rename_i hp
      exact .release hp
    · rename_i hp
      exact .leave hp
    · exact .nothing

end

theorem fenceOrderKey_injective {s t : Scope} (hs : s.valid = true) (ht : t.valid = true)
    (h : TenantAdopter.fenceOrderKey s = TenantAdopter.fenceOrderKey t) : s = t := by
  have hchars := congrArg String.toList h
  cases s with
  | unspecified => cases hs
  | unscoped =>
    cases t with
    | unspecified => cases ht
    | unscoped => rfl
    | tenant id => simp [TenantAdopter.fenceOrderKey] at hchars
  | tenant id =>
    cases t with
    | unspecified => cases ht
    | unscoped => simp [TenantAdopter.fenceOrderKey] at hchars
    | tenant id' =>
      simp only [TenantAdopter.fenceOrderKey, String.toList_append] at hchars
      exact congrArg Scope.tenant (String.toList_inj.mp (List.append_cancel_left hchars))

def Increasing (scopes : List Scope) : Prop :=
  scopes.Pairwise fun s t => TenantAdopter.fenceOrderKey s < TenantAdopter.fenceOrderKey t

theorem Increasing.nodup {scopes : List Scope} (h : Increasing scopes) : scopes.Nodup := by
  refine List.nodup_iff_pairwise_ne.mpr (h.imp ?_)
  rintro s t hlt rfl
  exact lt_irrefl _ hlt

theorem fenceOrder_increasing {a : TenantAdopter} {target : Scope} (hvalid : target.valid = true)
    (hne : target ≠ a.sourceScope) : Increasing (a.fenceOrder target) := by
  unfold TenantAdopter.fenceOrder
  split
  · rename_i hlt
    exact List.pairwise_pair.mpr hlt
  · rename_i hle
    have hkey : TenantAdopter.fenceOrderKey a.sourceScope ≠ TenantAdopter.fenceOrderKey target :=
      fun heq => hne (fenceOrderKey_injective a.source_valid hvalid heq).symm
    exact List.pairwise_pair.mpr (lt_of_le_of_ne (le_of_not_gt hle) hkey)

def Phase.Has : Phase → Scope × String → Prop
  | .acquiring id taken _ _, fence | .working id taken, fence => fence.2 = id ∧ fence.1 ∈ taken
  | .releasing id _ left _ _, fence => fence.2 = id ∧ fence.1 ∈ left
  | .idle, _ | .over, _ => False

def Phase.Ordered : Phase → Prop
  | .acquiring _ taken want rest => Increasing (taken ++ want :: rest)
  | .working _ taken => Increasing taken
  | .releasing _ acquired left released _ => Increasing acquired ∧ acquired.reverse = released ++ left
  | .idle | .over => True

theorem has_acquireNext {id : String} {taken rest : List Scope} {fence : Scope × String} :
    (State.acquireNext id taken rest).Has fence ↔ fence.2 = id ∧ fence.1 ∈ taken := by
  cases rest <;> rfl

theorem ordered_acquireNext {id : String} {taken rest : List Scope} (h : Increasing (taken ++ rest)) :
    (State.acquireNext id taken rest).Ordered := by
  cases rest with
  | nil =>
    rw [List.append_nil] at h
    exact h
  | cons want rest => exact h

section
variable {adopters : ℕ → TenantAdopter} {st st' : State} {crash : List Scope → Prop}

theorem goto_forall (P : ℕ → Phase → Prop) {r : ℕ} {phase : Phase} (hr : P r phase)
    (hother : ∀ r', r' ≠ r → P r' (st.phase r')) (r' : ℕ) : P r' ((st.goto r phase).phase r') :=
  (Function.forall_update_iff st.phase P).mpr ⟨hr, hother⟩ r'

theorem Move.ordered (h : ∀ r, (st.phase r).Ordered) (hmove : Move adopters crash st st') :
    ∀ r, (st'.phase r).Ordered := by
  cases hmove with
  | nothing => exact h
  | skip | panic => exact goto_forall (fun _ phase => phase.Ordered) trivial fun r' _ => h r'
  | unfenced hp => exact goto_forall (fun _ phase => phase.Ordered) List.Pairwise.nil fun r' _ => h r'
  | begin hp hvalid hne =>
    exact goto_forall (fun _ phase => phase.Ordered) (ordered_acquireNext (fenceOrder_increasing hvalid hne))
      fun r' _ => h r'
  | @grant r id taken want rest hp hfree =>
    have hold := h r
    rw [hp, Phase.Ordered, List.append_cons] at hold
    exact goto_forall (fun _ phase => phase.Ordered) (ordered_acquireNext hold) fun r' _ => h r'
  | @refuse r id taken want rest hp =>
    have hold := h r
    rw [hp] at hold
    have htaken : Increasing taken := (List.pairwise_append.mp hold).1
    exact goto_forall (fun _ phase => phase.Ordered) ⟨htaken, rfl⟩ fun r' _ => h r'
  | @finish r id taken panics hp =>
    have hold := h r
    rw [hp] at hold
    exact goto_forall (fun _ phase => phase.Ordered) ⟨hold, rfl⟩ fun r' _ => h r'
  | @release r id acquired scope left released panics hp =>
    have hold := h r
    rw [hp, Phase.Ordered, List.append_cons] at hold
    exact goto_forall (fun _ phase => phase.Ordered) hold fun r' _ => h r'
  | @leave r id acquired released panics hp =>
    refine goto_forall (fun _ phase => phase.Ordered) ?_ fun r' _ => h r'
    cases panics <;> trivial

def Accounted (holder : Scope × String → Option ℕ) (r : ℕ) (phase : Phase) : Prop :=
  ∀ fence, holder fence = some r → phase = .over ∨ phase.Has fence

theorem Accounted.of_none {holder : Scope × String → Option ℕ} {r : ℕ} {phase : Phase}
    (h : Accounted holder r phase)
    (hphase : phase ≠ .over) (hnone : ∀ fence, ¬ phase.Has fence) (phase' : Phase) :
    Accounted holder r phase' := by
  intro fence hfence
  obtain hover | hhas := h fence hfence
  · exact absurd hover hphase
  · exact absurd hhas (hnone fence)

theorem Accounted.mono {holder : Scope × String → Option ℕ} {r : ℕ} {phase phase' : Phase}
    (h : Accounted holder r phase)
    (hphase : phase ≠ .over) (hmono : ∀ fence, phase.Has fence → phase'.Has fence) :
    Accounted holder r phase' := by
  intro fence hfence
  obtain hover | hhas := h fence hfence
  · exact absurd hover hphase
  · exact .inr (hmono fence hhas)

theorem Move.accounted (h : ∀ r, Accounted st.holder r (st.phase r)) (hmove : Move adopters crash st st') :
    ∀ r, Accounted st'.holder r (st'.phase r) := by
  cases hmove with
  | nothing => exact h
  | @skip r id hp =>
    have hold := h r
    rw [hp] at hold
    exact goto_forall (Accounted st.holder) hold fun r' _ => h r'
  | @unfenced r _ hp | @begin r _ _ hp _ _ =>
    have hold := h r
    rw [hp] at hold
    exact goto_forall (Accounted st.holder) (hold.of_none nofun (fun _ hhas => hhas) _) fun r' _ => h r'
  | @grant r id taken want rest hp hfree =>
    have hold := h r
    rw [hp] at hold
    refine goto_forall (Accounted (Function.update st.holder (want, id) (some r))) (fun fence hfence => .inr ?_)
      fun r' hne fence hfence => ?_
    · rw [has_acquireNext, List.mem_append, List.mem_singleton]
      by_cases heq : fence = (want, id)
      · exact ⟨congrArg Prod.snd heq, .inr (congrArg Prod.fst heq)⟩
      · rw [Function.update_of_ne heq] at hfence
        obtain hover | hhas := hold fence hfence
        · cases hover
        · exact ⟨hhas.1, .inl hhas.2⟩
    · by_cases heq : fence = (want, id)
      · rw [heq, Function.update_self] at hfence
        exact absurd (Option.some.inj hfence).symm hne
      · rw [Function.update_of_ne heq] at hfence
        exact h r' fence hfence
  | @refuse r _ _ _ _ hp | @finish r _ _ _ hp =>
    have hold := h r
    rw [hp] at hold
    refine goto_forall (Accounted st.holder) (hold.mono nofun fun fence hhas => ?_) fun r' _ => h r'
    exact ⟨hhas.1, List.mem_reverse.mpr hhas.2⟩
  | panic hp hcrash => exact goto_forall (Accounted st.holder) (fun _ _ => .inl rfl) fun r' _ => h r'
  | @release r id acquired scope left released panics hp =>
    have hold := h r
    rw [hp] at hold
    have hother {r' : ℕ} {fence : Scope × String} (hfence : Function.update st.holder (scope, id) none fence =
        some r') :
        fence ≠ (scope, id) ∧ st.holder fence = some r' := by
      by_cases heq : fence = (scope, id)
      · rw [heq, Function.update_self] at hfence
        cases hfence
      · exact ⟨heq, (Function.update_of_ne heq none st.holder).symm.trans hfence⟩
    refine goto_forall (Accounted (Function.update st.holder (scope, id) none)) (fun fence hfence => .inr ?_)
      fun r' _ fence hfence => h r' fence (hother hfence).2
    obtain ⟨hne, hfence⟩ := hother hfence
    obtain hover | ⟨hid, hmem⟩ := hold fence hfence
    · cases hover
    · refine ⟨hid, (List.mem_cons.mp hmem).resolve_left fun hscope => hne ?_⟩
      exact Prod.ext hscope hid
  | @leave r id acquired released panics hp =>
    have hold := h r
    rw [hp] at hold
    exact goto_forall (Accounted st.holder) (hold.of_none nofun (fun _ hhas => List.not_mem_nil hhas.2) _) fun r'
      _ => h r'

theorem no_deadlock (labels : List Label) (r : ℕ) :
    ¬ Relation.TransGen (WaitsFor (Wants (run (step adopters) start labels))
      (Holds (run (step adopters) start labels))) r r := by
  have hinv : (∀ r, ((run (step adopters) start labels).phase r).Ordered) ∧
      ∀ r, Accounted (run (step adopters) start labels).holder r ((run (step adopters) start labels).phase r) := by
    have hstart : (∀ r, (start.phase r).Ordered) ∧ ∀ r, Accounted start.holder r (start.phase r) :=
      ⟨fun _ => trivial, fun _ _ hfence => nomatch hfence⟩
    refine run_always (step adopters) (fun st => (∀ r, (st.phase r).Ordered) ∧
      ∀ r, Accounted st.holder r (st.phase r)) ?_
      hstart labels
    rintro st l ⟨hordered, haccounted⟩
    have hmove : Move adopters (fun _ => True) st (step adopters st l) :=
        step_move adopters st l fun _ _ _ _ _ _ _ => trivial
    exact ⟨hmove.ordered hordered, hmove.accounted haccounted⟩
  obtain ⟨hordered, haccounted⟩ := hinv
  refine no_circular_wait (fun fence => TenantAdopter.fenceOrderKey fence.1) ?_ r
  rintro r held wanted hholds ⟨taken, rest, hp⟩
  have hold := hordered r
  rw [hp, Phase.Ordered] at hold
  obtain hover | hhas := haccounted r held hholds
  · rw [hp] at hover
    cases hover
  · rw [hp] at hhas
    exact (List.pairwise_append.mp hold).2.2 held.1 hhas.2 wanted.1 List.mem_cons_self

def Calm (st : State) : Label → Prop
  | .panic r =>
    match st.phase r with
    | .acquiring _ taken _ _ => taken = []
    | _ => True
  | _ => True

def Exact (holder : Scope × String → Option ℕ) (r : ℕ) (phase : Phase) : Prop :=
  ∀ fence, holder fence = some r ↔ phase.Has fence

theorem Move.exact (h : ∀ r, Exact st.holder r (st.phase r)) (hordered : ∀ r, (st.phase r).Ordered)
    (hmove : Move adopters (· = []) st st') : ∀ r, Exact st'.holder r (st'.phase r) := by
  cases hmove with
  | nothing => exact h
  | @skip r id hp =>
    have hold := h r
    rw [hp] at hold
    exact goto_forall (Exact st.holder) hold fun r' _ => h r'
  | @unfenced r id hp =>
    have hold := h r
    rw [hp] at hold
    refine goto_forall (Exact st.holder) (fun fence => (hold fence).trans ?_) fun r' _ => h r'
    exact ⟨False.elim, fun hhas => List.not_mem_nil hhas.2⟩
  | @begin r id target hp hvalid hne =>
    have hold := h r
    rw [hp] at hold
    refine goto_forall (Exact st.holder) (fun fence => (hold fence).trans ?_) fun r' _ => h r'
    rw [has_acquireNext]
    exact ⟨False.elim, fun hhas => List.not_mem_nil hhas.2⟩
  | @grant r id taken want rest hp hfree =>
    have hold := h r
    rw [hp] at hold
    refine goto_forall (Exact (Function.update st.holder (want, id) (some r))) (fun fence => ?_) fun r' hne fence => ?_
    · rw [has_acquireNext, List.mem_append, List.mem_singleton]
      by_cases heq : fence = (want, id)
      · rw [heq, Function.update_self]
        exact ⟨fun _ => ⟨rfl, .inr rfl⟩, fun _ => rfl⟩
      · rw [Function.update_of_ne heq, hold fence]
        constructor
        · exact fun hhas => ⟨hhas.1, .inl hhas.2⟩
        · rintro ⟨hid, hmem | hscope⟩
          · exact ⟨hid, hmem⟩
          · exact absurd (Prod.ext hscope hid) heq
    · by_cases heq : fence = (want, id)
      · -- the fence was free, so nobody else has it
        rw [heq, Function.update_self, ← h r' (want, id), hfree]
        exact ⟨fun hr => absurd (Option.some.inj hr).symm hne, nofun⟩
      · rw [Function.update_of_ne heq]
        exact h r' fence
  | @refuse r _ _ _ _ hp | @finish r _ _ _ hp =>
    have hold := h r
    rw [hp] at hold
    refine goto_forall (Exact st.holder) (fun fence => (hold fence).trans ?_) fun r' _ => h r'
    exact and_congr_right fun _ => List.mem_reverse.symm
  | @panic r id taken want rest hp hcrash =>
    have hold := h r
    rw [hp, hcrash] at hold
    refine goto_forall (Exact st.holder) (fun fence => (hold fence).trans ?_) fun r' _ => h r'
    exact ⟨fun hhas => List.not_mem_nil hhas.2, False.elim⟩
  | @release r id acquired scope left released panics hp =>
    have hold := h r
    have horder := hordered r
    rw [hp] at hold horder
    have hout : scope ∉ left := by
      have hnodup := List.nodup_reverse.mpr horder.1.nodup
      rw [horder.2] at hnodup
      exact (List.nodup_cons.mp (List.nodup_append.mp hnodup).2.1).1
    have hheld : st.holder (scope, id) = some r := (hold (scope, id)).mpr ⟨rfl, List.mem_cons_self⟩
    refine goto_forall (Exact (Function.update st.holder (scope, id) none)) (fun fence => ?_) fun r' hne fence => ?_
    · by_cases heq : fence = (scope, id)
      · rw [heq, Function.update_self]
        exact ⟨nofun, fun hhas => absurd hhas.2 hout⟩
      · rw [Function.update_of_ne heq, hold fence]
        refine and_congr_right fun hid => ?_
        rw [List.mem_cons, or_iff_right fun hscope => heq (Prod.ext hscope hid)]
    · by_cases heq : fence = (scope, id)
      · rw [heq, Function.update_self, ← h r' (scope, id), hheld]
        exact ⟨nofun, fun hr => absurd (Option.some.inj hr).symm hne⟩
      · rw [Function.update_of_ne heq]
        exact h r' fence
  | @leave r id acquired released panics hp =>
    have hold := h r
    rw [hp] at hold
    refine goto_forall (Exact st.holder) (fun fence => (hold fence).trans ?_) fun r' _ => h r'
    cases panics
    all_goals exact ⟨fun hhas => List.not_mem_nil hhas.2, False.elim⟩

def Balanced (x : Exit) : Prop := x.acquired.Nodup ∧ x.released.Perm x.acquired

theorem Move.balanced (h : ∀ x ∈ st.exits, Balanced x) (hordered : ∀ r, (st.phase r).Ordered)
    (hmove : Move adopters (· = []) st st') : ∀ x ∈ st'.exits, Balanced x := by
  have hexit {x : Exit} (hx : Balanced x) : ∀ y ∈ st.exits ++ [x], Balanced y := by
    intro y hy
    obtain hy | hy := List.mem_append.mp hy
    · exact h y hy
    · rw [List.mem_singleton.mp hy]
      exact hx
  cases hmove with
  | nothing | unfenced | begin | grant | refuse | finish | release => exact h
  | skip hp => exact hexit ⟨List.nodup_nil, .refl _⟩
  | panic hp hcrash =>
    subst hcrash
    exact hexit ⟨List.nodup_nil, .refl _⟩
  | @leave r id acquired released panics hp =>
    have horder := hordered r
    rw [hp, Phase.Ordered, List.append_nil] at horder
    exact hexit ⟨horder.1.nodup, horder.2 ▸ List.reverse_perm acquired⟩

end

/-- Runs that share a fence never wait in a circle, and if `Acquire` does not panic while an
aggregate has a fence, each fence an aggregate acquires is released once and none is kept. -/
theorem fences_released (adopters : ℕ → TenantAdopter) {labels : List Label}
    (h : Along (step adopters) Calm start labels) : (∀ r, ¬ Relation.TransGen
      (WaitsFor (Wants (run (step adopters) start labels)) (Holds (run (step adopters) start labels))) r r) ∧
    (∀ x ∈ (run (step adopters) start labels).exits, x.acquired.Nodup ∧ x.released.Perm x.acquired) ∧
    ∀ fence r, (run (step adopters) start labels).holder fence = some r ↔
      ((run (step adopters) start labels).phase r).Has fence := by
  have hinv : (∀ r, ((run (step adopters) start labels).phase r).Ordered) ∧
      (∀ r, Exact (run (step adopters) start labels).holder r ((run (step adopters) start labels).phase r)) ∧
      ∀ x ∈ (run (step adopters) start labels).exits, Balanced x := by
    have hstart : (∀ r, (start.phase r).Ordered) ∧ (∀ r, Exact start.holder r (start.phase r)) ∧
        ∀ x ∈ start.exits, Balanced x :=
      ⟨fun _ => trivial, fun _ _ => ⟨nofun, False.elim⟩, nofun⟩
    refine run_invariant (step adopters) (fun st => (∀ r, (st.phase r).Ordered) ∧
      (∀ r, Exact st.holder r (st.phase r)) ∧ ∀ x ∈ st.exits, Balanced x) ?_ hstart h
    rintro st l ⟨hordered, hexact, hbalanced⟩ hcalm
    have hmove : Move adopters (· = []) st (step adopters st l) := by
      refine step_move adopters st l fun r id taken want rest hl hp => ?_
      subst hl
      simpa only [Calm, hp] using hcalm
    exact ⟨hmove.ordered hordered, hmove.exact hexact hordered, hmove.balanced hbalanced hordered⟩
  exact ⟨no_deadlock labels, hinv.2.2, fun fence r => hinv.2.1 r fence⟩

open Enginetest

noncomputable def acmeRuns (_ : ℕ) : TenantAdopter := acmeAdopter Testkit.journalStore true true

/-- The second `Acquire` panics: the fence of the source is never released. -/
theorem panic_keeps_fence :
    (run (step acmeRuns) start [.begin 0 "account", .grant 0, .panic 0]).exits = [⟨0,
      "account", [.unscoped], []⟩] ∧
    (run (step acmeRuns) start [.begin 0 "account", .grant 0, .panic 0]).holder (.unscoped, "account") = some 0 ∧
    (run (step acmeRuns) start [.begin 0 "account", .grant 0, .panic 0]).phase 0 = .over :=
  ⟨rfl, rfl, rfl⟩

def contended : List Label :=
  [.begin 0 "account", .grant 0, .begin 1 "account", .grant 1, .grant 0, .finish 0 false, .release 0, .release 0,
    .release 0,
    .grant 1, .refuse 1, .release 1, .release 1]

theorem fences_released_contended : (run (step acmeRuns) start contended).exits =
      [⟨0, "account", [.unscoped, .tenant "acme"], [.tenant "acme", .unscoped]⟩,
        ⟨1, "account", [.unscoped], [.unscoped]⟩] ∧
    ∀ x ∈ (run (step acmeRuns) start contended).exits, x.acquired.Nodup ∧ x.released.Perm x.acquired := by
  refine ⟨?_, (fences_released acmeRuns ?_).2.1⟩
  · rfl
  · exact ⟨trivial, trivial, trivial, trivial, trivial, trivial, trivial, trivial, trivial, trivial, trivial,
      trivial, trivial, trivial⟩

end Ego.Migration.Fences

import Ego.Lib.Distinct
import Ego.Migration.Answered

/-! # A plan and the run that follows it -/

namespace Ego.Migration
open Persistence Tenancy
open Lib.Prog (Returns)

@[ext] structure Counts where
  scanned : ℕ := 0
  assigned : ℕ := 0
  skippedByAssignment : ℕ := 0
  copied : ℕ := 0
  alreadyPresent : ℕ := 0
  failed : ℕ := 0
  deriving DecidableEq, Repr

namespace Counts

instance : Add Counts where
  add x y := ⟨x.scanned + y.scanned, x.assigned + y.assigned, x.skippedByAssignment + y.skippedByAssignment,
    x.copied + y.copied, x.alreadyPresent + y.alreadyPresent, x.failed + y.failed⟩

@[simp] theorem add_scanned (x y : Counts) : (x + y).scanned = x.scanned + y.scanned := rfl
@[simp] theorem add_assigned (x y : Counts) : (x + y).assigned = x.assigned + y.assigned := rfl
@[simp] theorem add_skippedByAssignment (x y : Counts) :
    (x + y).skippedByAssignment = x.skippedByAssignment + y.skippedByAssignment := rfl
@[simp] theorem add_copied (x y : Counts) : (x + y).copied = x.copied + y.copied := rfl
@[simp] theorem add_alreadyPresent (x y : Counts) : (x + y).alreadyPresent = x.alreadyPresent + y.alreadyPresent := rfl
@[simp] theorem add_failed (x y : Counts) : (x + y).failed = x.failed + y.failed := rfl

theorem add_assoc (x y z : Counts) : x + y + z = x + (y + z) := by
  ext <;> simp <;> omega

theorem add_left_cancel {x y z : Counts} (h : x + y = x + z) : y = z := by
  rw [Counts.ext_iff] at h ⊢
  simpa using h

end Counts

def AdoptionReport.counts (r : AdoptionReport) : Counts :=
  ⟨r.scanned, r.assigned, r.skippedByAssignment, r.copied, r.alreadyPresent, r.failed⟩

namespace TenantAdopter

def tally (failed found copied : Bool) : Counts :=
  if failed then { failed := 1, copied := copied.toNat }
  else if !found then { failed := 1 }
  else if copied then { copied := 1 }
  else { alreadyPresent := 1 }

structure Agree (s t : Progress) : Prop where
  failed : s.aggFailure.isSome = t.aggFailure.isSome
  found : s.found = t.found
  copied : s.copied = t.copied

structure Alike (x y : RecordOutcome) : Prop where
  failed : x.status = .failed ↔ y.status = .failed
  none : x.status = .none ↔ y.status = .none
  wroteTarget : x.wroteTarget = y.wroteTarget

theorem Alike.refl (x : RecordOutcome) : Alike x x := ⟨Iff.rfl, Iff.rfl, rfl⟩

theorem aggFailure_record {s : Progress} {id : String} {kind : RecordKind} {outcome : RecordOutcome} :
    (s.record id kind outcome).aggFailure.isSome = decide (outcome.status = .failed) := by
  unfold Progress.record
  split
  · rename_i h
    simp [h]
  · rename_i h
    simp [h]

theorem Agree.record {s t : Progress} (h : Agree s t) {x y : RecordOutcome} (hxy : Alike x y) {id : String}
    {kind : RecordKind} : Agree (s.record id kind x) (t.record id kind y) := by
  refine ⟨?_, ?_, ?_⟩
  · rw [aggFailure_record, aggFailure_record, decide_eq_decide]
    exact hxy.failed
  · simp only [Progress.record, h.found, ne_eq, hxy.none]
  · simp only [Progress.record, h.copied, hxy.wroteTarget]

theorem settle_agree {d write write' : Bool} {id : String} {views : List (RecordKind × View)}
    (hviews : ∀ view ∈ views, Alike (view.2.outcome write d) (view.2.outcome write' d)) {s t : Progress}
    (h : Agree s t) (r r' : Records) :
    Agree (settle write d id views (s, r)).1 (settle write' d id views (t, r')).1 := by
  induction views generalizing s t r r' with
  | nil => exact h
  | cons view views ih =>
    obtain ⟨hview, hrest⟩ := List.forall_mem_cons.mp hviews
    cases hs : s.aggFailure with
    | some f =>
      have ht : t.aggFailure ≠ none := fun hn => by
        have := h.failed
        rw [hs, hn] at this
        cases this
      rw [settle_of_failed (by simp [hs]), settle_of_failed ht]
      exact h
    | none =>
      have ht : t.aggFailure = none := by
        have := h.failed
        rw [hs] at this
        exact Option.isNone_iff_eq_none.mp (by simpa using this.symm)
      unfold settle
      rw [hs, ht]
      exact ih hrest (h.record hview) _ _

theorem settle_counts {write d : Bool} {id : String} {views : List (RecordKind × View)} (state : Progress × Records) :
    (settle write d id views state).1.report.counts = state.1.report.counts := by
  induction views generalizing state with
  | nil => rfl
  | cons view views ih =>
    unfold settle
    split
    · rw [ih]
      rfl
    · rfl

variable (a : TenantAdopter)

theorem conclude_counts (id : String) (s : Progress) :
    (a.conclude id s).report.counts = s.report.counts + tally s.aggFailure.isSome s.found s.copied := by
  unfold conclude tally
  cases s.aggFailure with
  | some f => rfl
  | none =>
    cases s.found with
    | false => rfl
    | true =>
      cases s.copied with
      | false => rfl
      | true => cases a.write <;> rfl

theorem conclude_failure (id : String) (s : Progress) :
    ((a.conclude id s).failure.isSome = true ↔ (tally s.aggFailure.isSome s.found s.copied).failed ≠ 0) ∧
      ((a.conclude id s).failure.isSome = true → (a.conclude id s).stop = a.failFast) := by
  unfold conclude tally
  cases s.aggFailure with
  | some f => simp
  | none =>
    cases s.found with
    | false => simp [reject]
    | true =>
      cases s.copied with
      | false => simp
      | true => cases a.write <;> simp

def contribution (write : Bool) (id : String) (r : Records) : Counts :=
  match a.assign id with
  | .error _ => { failed := 1 }
  | .ok none => { skippedByAssignment := 1 }
  | .ok (some tenantID) => { assigned := 1 } +
    match newTenantScope tenantID with
    | .error _ => { failed := 1 }
    | .ok target =>
      if target = a.sourceScope then { failed := 1 }
      else
        let s := (settle write a.deleteSource id (a.views id tenantID r)
          ({ outcome := { persistenceID := id, tenant := tenantID }, report := { dryRun := !write } }, r)).1
        tally s.aggFailure.isSome s.found s.copied

theorem processed_counts (id : String) (report : AdoptionReport) (r : Records) :
    let handled := (a.processed id report r).1
    handled.report.counts = report.counts + a.contribution a.write id r ∧
      (handled.failure.isSome = true ↔ (a.contribution a.write id r).failed ≠ 0) ∧
        (handled.failure.isSome = true → handled.stop = a.failFast) := by
  unfold processed contribution
  cases hassign : a.assign id with
  | error err => exact ⟨rfl, by simp [reject], fun _ => rfl⟩
  | ok assigned =>
    cases assigned with
    | none => exact ⟨rfl, by simp, by simp⟩
    | some tenantID =>
      dsimp only
      cases newTenantScope tenantID with
      | error err => exact ⟨rfl, by simp [reject], fun _ => rfl⟩
      | ok target =>
        dsimp only
        split
        · exact ⟨rfl, by simp [reject], fun _ => rfl⟩
        · -- the report an aggregate starts with does not matter
          have hagree := @settle_agree a.deleteSource a.write a.write id (a.views id tenantID r)
            (fun view _ => Alike.refl _)
            { outcome := { persistenceID := id, tenant := tenantID },
              report := { report with assigned := report.assigned + 1 } }
            { outcome := { persistenceID := id, tenant := tenantID }, report := { dryRun := !a.write } }
            ⟨rfl, rfl, rfl⟩ r r
          have hcounts := @settle_counts a.write a.deleteSource id (a.views id tenantID r)
            ({ outcome := { persistenceID := id, tenant := tenantID },
               report := { report with assigned := report.assigned + 1 } }, r)
          generalize (settle a.write a.deleteSource id (a.views id tenantID r)
            ({ outcome := { persistenceID := id, tenant := tenantID },
               report := { report with assigned := report.assigned + 1 } }, r)).1 = s at hagree hcounts ⊢
          rw [← hagree.failed, ← hagree.found, ← hagree.copied]
          obtain ⟨hfailure, hstop⟩ := a.conclude_failure id s
          refine ⟨?_, ?_, hstop⟩
          · rw [conclude_counts, hcounts, ← Counts.add_assoc]
            rfl
          · rw [hfailure, Counts.add_failed, Nat.zero_add]

def total (write : Bool) (c : Contents) : List String → Counts
  | [] => {}
  | id :: ids => { scanned := 1 } + (a.contribution write id (c.records id) +
      if a.failFast = true ∧ (a.contribution write id (c.records id)).failed ≠ 0 then {} else total write c ids)

theorem total_cons (write : Bool) (c : Contents) (id : String) (ids : List String) :
    a.total write c (id :: ids) = { scanned := 1 } + (a.contribution write id (c.records id) +
      if a.failFast = true ∧ (a.contribution write id (c.records id)).failed ≠
        0 then {} else a.total write c ids) :=
  rfl

theorem counts_add_zero (x : Counts) : x + {} = x := rfl

theorem adopted_counts (c₀ : Contents) {ids : List String} (hnodup : ids.Nodup) {c : Contents}
    (hc : ∀ id ∈ ids, c.records id = c₀.records id) (report : AdoptionReport) :
    ∃ final err, (a.adopted ids report c).1 = (some final, err) ∧
      final.counts = report.counts + a.total a.write c₀ ids := by
  induction ids generalizing c report with
  | nil => exact ⟨report, none, rfl, rfl⟩
  | cons id ids ih =>
    obtain ⟨hhead, htail⟩ := List.forall_mem_cons.mp hc
    obtain ⟨hnew, hnodup⟩ := List.nodup_cons.mp hnodup
    rw [total_cons]
    unfold adopted
    dsimp only
    rw [hhead]
    generalize hreport : ({ report with scanned := report.scanned + 1 } : AdoptionReport) = next
    have hnext : next.counts = report.counts + { scanned := 1 } := by
      rw [← hreport]
      rfl
    obtain ⟨hcounts, hfailure, hstop⟩ := a.processed_counts id next (c₀.records id)
    generalize a.processed id next (c₀.records id) = handled at hcounts hfailure hstop ⊢
    have hrest (c' : Contents) (hc' : ∀ x ∈ ids, c'.records x = c.records x) : ∃ final err,
        (a.adopted ids handled.1.report c').1 = (some final, err) ∧
          final.counts = report.counts +
            ({ scanned := 1 } + (a.contribution a.write id (c₀.records id) + a.total a.write c₀ ids)) := by
      obtain ⟨final, err, hfinal, hsum⟩ := ih hnodup (fun x hx => (hc' x hx).trans (htail x hx)) handled.1.report
      refine ⟨final, err, hfinal, ?_⟩
      rw [hsum, hcounts, hnext, Counts.add_assoc, Counts.add_assoc]
    have hothers : ∀ x ∈ ids, (c.set id handled.2).records x = c.records x := fun x hx =>
      c.set_of_ne handled.2 fun heq => hnew (heq ▸ hx)
    cases hf : handled.1.failure with
    | none =>
      have hzero : ¬ (a.failFast = true ∧ (a.contribution a.write id (c₀.records id)).failed ≠ 0) := fun h => by
        have := hfailure.mpr h.2
        rw [hf] at this
        cases this
      rw [if_neg hzero]
      exact hrest _ hothers
    | some f =>
      have hsome : handled.1.failure.isSome = true := by rw [hf]; rfl
      rw [hstop hsome]
      cases hfast : a.failFast with
      | true =>
        rw [if_pos ⟨rfl, hfailure.mp hsome⟩]
        refine ⟨_, _, rfl, ?_⟩
        rw [hcounts, hnext, counts_add_zero, Counts.add_assoc]
      | false =>
        exact hrest _ hothers

end TenantAdopter

def View.Blocked (v : View) : Prop := v.source = true ∧ v.target = false ∧ v.occupied = true

open TenantAdopter in
theorem View.plan_alike {v : View} (h : ¬ v.Blocked) (d : Bool) : Alike (v.outcome false d) (v.outcome true d) := by
  cases ht : v.target with
  | true =>
    cases hv : v.verdict with
    | error err =>
      rw [(View.rejected ht hv).1, (View.rejected ht hv).1]
      exact Alike.refl _
    | ok u =>
      rw [(View.present ht hv (by simp)).1]
      by_cases hdelete : (v.source && true && d && v.removes) = true
      · rw [(View.removed ht hv hdelete).1]
        exact ⟨by simp, by simp, rfl⟩
      · rw [(View.present ht hv hdelete).1]
        exact Alike.refl _
  | false =>
    cases hs : v.source with
    | false =>
      rw [(View.nothing ht hs).1, (View.nothing ht hs).1]
      exact Alike.refl _
    | true =>
      have ho : v.occupied = false := Bool.eq_false_of_not_eq_true fun ho => h ⟨hs, ht, ho⟩
      rw [(View.planned ht hs).1, (View.copied ht hs ho).1]
      split
      · exact ⟨by simp [copiedOutcome], by simp [copiedOutcome], rfl⟩
      · exact Alike.refl _

namespace TenantAdopter
variable (a : TenantAdopter)

def withWrite (write : Bool) : TenantAdopter := { a with write := write, hasFence := true, fenced := fun _ => rfl }

/-- The source has events and the target has a record without any: retention has
deleted all of them, and what is left of the record is its revision. -/
def Blocked (id : String) (r : Records) : Prop :=
  ∃ tenantID, a.assign id = .ok (some tenantID) ∧ newTenantID tenantID = .ok tenantID ∧
    .tenant tenantID ≠ a.sourceScope ∧ a.eventsStore ≠ none ∧ journal (r.log a.sourceScope) ≠ [] ∧
    r.log (.tenant tenantID) ≠ none ∧ journal (r.log (.tenant tenantID)) = []

variable {a} {id : String} {tenantID : TenantID} {r : Records}

theorem eventsView_blocked {store : JournalStore} (h : r.WellFormed id) :
    (a.eventsView store id tenantID r).Blocked ↔ journal (r.log a.sourceScope) ≠ [] ∧
      r.log (.tenant tenantID) ≠ none ∧ journal (r.log (.tenant tenantID)) = [] := by
  have hempty {scope : Scope} (hs : scope.valid = true) :
      replayed store r scope = [] ↔ journal (r.log scope) = [] := by
    rw [← List.length_eq_zero_iff, (replayed_perm h hs).length_eq, List.length_eq_zero_iff]
  have hsource := hempty a.source_valid
  have htarget := @hempty (.tenant tenantID) rfl
  unfold View.Blocked
  simp only [eventsView, Bool.not_eq_true', Bool.not_eq_false', List.isEmpty_iff, List.isEmpty_eq_false_iff, ne_eq,
    hsource, htarget, Option.isSome_iff_ne_none]
  tauto

theorem views_blocked (h : r.WellFormed id) (hassign : a.assign id = .ok (some tenantID))
    (hid : newTenantID tenantID = .ok tenantID) (hne : Scope.tenant tenantID ≠ a.sourceScope)
    (hb : ¬ a.Blocked id r) :
    ∀ view ∈ a.views id tenantID r, ¬ view.2.Blocked := by
  intro view hview
  rcases List.mem_append.mp hview with hview | hview
  · obtain ⟨store, hstore, rfl⟩ := Option.map_eq_some_iff.mp (Option.mem_toList.mp hview)
    intro hv
    exact hb ⟨tenantID, hassign, hid, hne, by simp [hstore], (eventsView_blocked h).mp hv⟩
  · rcases List.mem_append.mp hview with hview | hview
    · obtain ⟨store, -, rfl⟩ := Option.map_eq_some_iff.mp (Option.mem_toList.mp hview)
      rintro ⟨-, -, ho⟩
      cases ho
    · obtain ⟨store, -, rfl⟩ := Option.map_eq_some_iff.mp (Option.mem_toList.mp hview)
      rintro ⟨-, -, ho⟩
      cases ho

theorem contribution_unblocked (h : r.WellFormed id) (hb : ¬ a.Blocked id r) :
    a.contribution false id r = a.contribution true id r := by
  unfold contribution
  cases hassign : a.assign id with
  | error err => rfl
  | ok assigned =>
    cases assigned with
    | none => rfl
    | some tenantID =>
      dsimp only
      cases hscope : newTenantScope tenantID with
      | error err => rfl
      | ok target =>
        obtain ⟨rfl, hid⟩ := newTenantScope_ok hscope
        dsimp only
        by_cases hsame : Scope.tenant tenantID = a.sourceScope
        · rw [if_pos hsame, if_pos hsame]
        · have hviews := views_blocked h hassign hid hsame hb
          have hagree := @settle_agree a.deleteSource false true id (a.views id tenantID r)
            (fun view hview => View.plan_alike (hviews view hview) a.deleteSource)
            { outcome := { persistenceID := id, tenant := tenantID }, report := { dryRun := !false } }
            { outcome := { persistenceID := id, tenant := tenantID }, report := { dryRun := !true } }
            ⟨rfl, rfl, rfl⟩ r r
          rw [if_neg hsame, if_neg hsame, hagree.failed, hagree.found, hagree.copied]

theorem settle_keeps {write d : Bool} {views : List (RecordKind × View)} {s : Progress} (hfound : s.found = true)
    (hcopied : s.copied = true) :
    (settle write d id views (s, r)).1.found = true ∧ (settle write d id views (s, r)).1.copied = true := by
  induction views generalizing s r with
  | nil => exact ⟨hfound, hcopied⟩
  | cons view views ih =>
    unfold settle
    split
    · exact ih (by simp [Progress.record, hfound]) (by simp [Progress.record, hcopied])
    · exact ⟨hfound, hcopied⟩

theorem contribution_blocked (h : r.WellFormed id) (hb : a.Blocked id r) :
    (a.contribution false id r).copied = 1 ∧ (a.contribution true id r).copied = 0 ∧
      (a.contribution true id r).failed = 1 := by
  obtain ⟨tenantID, hassign, hid, hne, hstore, hrecords⟩ := hb
  obtain ⟨store, hstore⟩ := Option.ne_none_iff_exists'.mp hstore
  have hscope : newTenantScope tenantID = .ok (.tenant tenantID) := by simp only [newTenantScope, hid]
  obtain ⟨hs, ht, ho⟩ := (eventsView_blocked h).mpr hrecords
  -- the events come first
  obtain ⟨rest, hviews⟩ : ∃ rest, a.views id tenantID r = (.events, a.eventsView store id tenantID r) ::
    rest := by
    unfold views
    rw [hstore]
    exact ⟨_, rfl⟩
  have hstamped : a.stamped store tenantID r ≠ [] := by
    unfold stamped stampEvents
    simpa [eventsView] using hs
  have hnil : replayed store r (.tenant tenantID) = [] := by simpa [eventsView] using ht
  obtain ⟨err, herr⟩ := verdict_nil hstamped
  rw [← hnil] at herr
  have hplan := (@View.planned _ a.deleteSource ht hs).1
  have hreal := (@View.blocked _ a.deleteSource err ht hs ho herr).1
  unfold contribution
  rw [hassign]
  dsimp only
  rw [hscope]
  dsimp only
  rw [if_neg hne, if_neg hne, hviews, settle, settle, hplan, hreal]
  refine ⟨?_, ?_⟩
  · obtain ⟨hfound, hcopied⟩ := @settle_keeps id
      ((a.eventsView store id tenantID r).effect false a.deleteSource r) false
      a.deleteSource rest
      (Progress.record { outcome := { persistenceID := id, tenant := tenantID }, report := { dryRun := !false } } id
        .events copiedOutcome) rfl rfl
    rw [hfound, hcopied]
    cases Option.isSome _ <;> rfl
  · rw [settle_of_failed (by simp [Progress.record, failedWith])]
    exact ⟨rfl, rfl⟩

theorem total_copied_le (hfast : a.failFast = false) {c : Contents} (hc : ∀ id, (c.records id).WellFormed id)
    (ids : List String) : (a.total true c ids).copied ≤ (a.total false c ids).copied := by
  induction ids with
  | nil => exact Nat.le_refl _
  | cons id ids ih =>
    rw [total_cons, total_cons, if_neg (by simp [hfast]), if_neg (by simp [hfast])]
    simp only [Counts.add_copied]
    by_cases hb : a.Blocked id (c.records id)
    · obtain ⟨hplan, hreal, -⟩ := contribution_blocked (hc id) hb
      omega
    · rw [contribution_unblocked (hc id) hb]
      omega

def Reached (a : TenantAdopter) (c : Contents) (ids : List String) (id : String) : Prop :=
  ∃ before after, ids = before ++ id :: after ∧
    (a.failFast = true → ∀ x ∈ before, (a.contribution false x (c.records x)).failed = 0)

theorem total_eq_iff {c : Contents} (hc : ∀ id, (c.records id).WellFormed id) (ids : List String) :
    a.total false c ids = a.total true c ids ↔ ¬ ∃ id, a.Reached c ids id ∧ a.Blocked id (c.records id) := by
  induction ids with
  | nil =>
    refine ⟨fun _ => ?_, fun _ => rfl⟩
    rintro ⟨id, ⟨before, after, h, -⟩, -⟩
    simp at h
  | cons id ids ih =>
    by_cases hb : a.Blocked id (c.records id)
    · -- the plan is ahead by one, and stays so
      refine ⟨fun heq => ?_, fun h => absurd ⟨id, ⟨[], ids, rfl, by simp⟩, hb⟩ h⟩
      obtain ⟨hplan, hreal, hfailed⟩ := contribution_blocked (hc id) hb
      have hcopied := congrArg Counts.copied heq
      rw [total_cons, total_cons] at hcopied
      simp only [Counts.add_copied, hplan, hreal] at hcopied
      cases hfast : a.failFast with
      | true =>
        rw [if_pos (⟨hfast, by omega⟩ : a.failFast = true ∧
          (a.contribution true id (c.records id)).failed ≠ 0)] at hcopied
        change 0 + (1 + _) = 0 + (0 + 0) at hcopied
        omega
      | false =>
        have hle := total_copied_le hfast hc ids
        rw [if_neg (by simp [hfast]), if_neg (by simp [hfast])] at hcopied
        omega
    · have hsame := contribution_unblocked (hc id) hb
      have hstep : a.total false c (id :: ids) = a.total true c (id :: ids) ↔
          ((a.failFast = true → (a.contribution false id (c.records id)).failed = 0) →
            a.total false c ids = a.total true c ids) := by
        rw [total_cons, total_cons, ← hsame]
        by_cases hstop : a.failFast = true ∧ (a.contribution false id (c.records id)).failed ≠ 0
        · rw [if_pos hstop, if_pos hstop]
          exact ⟨fun _ h => absurd (h hstop.1) hstop.2, fun _ => rfl⟩
        · rw [if_neg hstop, if_neg hstop]
          have hgo : a.failFast = true → (a.contribution false id (c.records id)).failed = 0 := fun hf => by
            by_contra hne
            exact hstop ⟨hf, hne⟩
          refine ⟨fun h _ => Counts.add_left_cancel (Counts.add_left_cancel h), fun h => ?_⟩
          rw [h hgo]
      rw [hstep, ih]
      constructor
      · rintro h ⟨x, ⟨before, after, hsplit, hbefore⟩, hx⟩
        cases before with
        | nil =>
          obtain ⟨rfl, -⟩ := List.cons.inj hsplit
          exact hb hx
        | cons y before =>
          obtain ⟨rfl, rfl⟩ := List.cons.inj hsplit
          exact h (fun hf => hbefore hf id List.mem_cons_self)
            ⟨x, ⟨before, after, rfl, fun hf z hz => hbefore hf z (List.mem_cons_of_mem _ hz)⟩, hx⟩
      · rintro h hgo ⟨x, ⟨before, after, rfl, hbefore⟩, hx⟩
        exact h ⟨x, ⟨id :: before, after, rfl, fun hf =>
          List.forall_mem_cons.mpr ⟨hgo hf, hbefore hf⟩⟩, hx⟩

theorem scannedIDs_nodup (c : Contents) : (a.scannedIDs c).Nodup := by
  unfold scannedIDs
  split
  · exact Lib.distinct_nodup _
  · exact Lib.distinct_nodup _

theorem settle_reads {d : Bool} {views : List (RecordKind × View)} {s : Progress} :
    (settle false d id views (s, r)).2 = r := by
  induction views generalizing s with
  | nil => rfl
  | cons view views ih =>
    unfold settle
    split
    · have heffect : view.2.effect false d r = r := by
        unfold View.effect
        split
        · split
          · rfl
          · simp
        · simp
      rw [heffect]
      exact ih
    · rfl

theorem processed_reads {report : AdoptionReport} : ((a.withWrite false).processed id report r).2 = r := by
  unfold processed
  split
  · rfl
  · rfl
  · dsimp only
    split
    · rfl
    · split
      · rfl
      · exact settle_reads

theorem adopted_reads {ids : List String} {report : AdoptionReport} {c : Contents} :
    ((a.withWrite false).adopted ids report c).2 = c := by
  induction ids generalizing report with
  | nil => rfl
  | cons id ids ih =>
    unfold adopted
    dsimp only
    rw [processed_reads, Contents.set_eq_self]
    split
    · split
      · rfl
      · exact ih
    · exact ih

theorem total_withWrite (write : Bool) (c : Contents) (ids : List String) :
    (a.withWrite write).total write c ids = a.total write c ids := by
  induction ids with
  | nil => rfl
  | cons id ids ih =>
    rw [total_cons, total_cons, ih]
    rfl

theorem run_counts (a : TenantAdopter) (write : Bool) {c : Contents} (hc : c.WellFormed) : ∃ report err,
    Returns (a.withWrite write).run c (some report, err)
      ((a.withWrite write).adopted (a.scannedIDs c) { dryRun := !write } c).2 ∧
        report.counts = a.total write c (a.scannedIDs c) := by
  obtain ⟨report, err, hreport, hcounts⟩ := (a.withWrite write).adopted_counts c (@scannedIDs_nodup a c)
    (fun _ _ => rfl) { dryRun := !write }
  have hrun := @run_returns (a.withWrite write) c hc
  refine ⟨report, err, ?_, ?_⟩
  · rw [← hreport]
    exact hrun
  · rw [hcounts, show (a.withWrite write).write = write from rfl, total_withWrite]
    ext <;> simp [AdoptionReport.counts]

/-- A dry run changes nothing. Its counts are those of the run that follows exactly if
no aggregate that is reached has its first write blocked. -/
theorem plan_matches_iff (a : TenantAdopter) (c : Contents) (hc : c.WellFormed) :
    ∃ plan planErr real realErr c', Returns (a.withWrite false).run c (some plan, planErr) c ∧
      Returns (a.withWrite true).run c (some real, realErr) c' ∧
      (plan.counts = real.counts ↔ ¬ ∃ id, a.Reached c (a.scannedIDs c) id ∧ a.Blocked id (c.records id)) := by
  obtain ⟨plan, planErr, hplan, hplanned⟩ := a.run_counts false hc
  obtain ⟨real, realErr, hreal, hcounted⟩ := a.run_counts true hc
  rw [adopted_reads] at hplan
  refine ⟨plan, planErr, real, realErr, _, hplan, hreal, ?_⟩
  rw [hplanned, hcounted]
  exact total_eq_iff hc.records (a.scannedIDs c)

end TenantAdopter

section
open Enginetest TenantAdopter

theorem wellFormedContents {r : Records} (h : r.WellFormed "account") : (accountContents r).WellFormed := by
  refine ⟨wellFormed_account h, fun scope hmem => ?_⟩
  rw [(accountContents r).mem_ids, accountContents, Contents.set_of_ne _ _ (by decide)] at hmem
  cases hmem

/-- The target is free, and the plan of one copy is carried out. -/
theorem plan_matches_credit :
    let a := acmeAdopter Testkit.journalStore false true
    let c := accountContents (noRecords.setLog .unscoped (some (creditLog 1 (by decide))))
    ∃ plan planErr real realErr c', Returns (a.withWrite false).run c (some plan, planErr) c ∧
      Returns (a.withWrite true).run c (some real, realErr) c' ∧ plan.counts = real.counts := by
  intro a c
  obtain ⟨plan, planErr, real, realErr, c', hplan, hreal, hiff⟩ :=
    plan_matches_iff a c (wellFormedContents wellFormed_credit)
  refine ⟨plan, planErr, real, realErr, c', hplan, hreal, hiff.mpr ?_⟩
  rintro ⟨id, -, tenantID, -, -, -, -, -, hrecord, -⟩
  apply hrecord
  by_cases hid : id = "account"
  · subst hid
    simp [c, accountContents, Records.setLog, noRecords]
  · simp [c, accountContents, Contents.set_of_ne _ _ hid, noContents, noRecords]

theorem scanned_account {store : JournalStore} {write deleteSource : Bool} {r : Records} {log : EventLog}
    (hlog : r.log .unscoped = some log) (hevents : log.events ≠ []) :
    (acmeAdopter store write deleteSource).scannedIDs (accountContents r) = ["account"] :=
  congrArg (fun ids => distinct (ids ++ [])) (listed_account hlog hevents)

def emptiedLog : EventLog := ⟨1, [], by simp, by simp⟩

/-- The tenant's own account has lost its only event to retention. The plan says that
the source will be copied there; the run reports a failure. -/
theorem plan_counts_differ :
    let a := acmeAdopter Testkit.journalStore false false
    let c := accountContents ((noRecords.setLog .unscoped (some (creditLog 1 (by decide)))).setLog (.tenant "acme")
      (some emptiedLog))
    Testkit.journalStore.deleteEvents (.tenant "acme") (some (creditLog 1 (by decide))) 1 = .ok (some emptiedLog) ∧
    ∃ plan planErr real realErr c', Returns (a.withWrite false).run c (some plan, planErr) c ∧
      Returns (a.withWrite true).run c (some real, realErr) c' ∧ plan.copied = 1 ∧ real.copied = 0 ∧
        real.failed = 1 := by
  intro a c
  refine ⟨rfl, ?_⟩
  have hr : ((noRecords.setLog .unscoped (some (creditLog 1 (by decide)))).setLog (.tenant "acme")
      (some emptiedLog)).WellFormed "account" :=
    wellFormed_credit.setLog (by simp [emptiedLog]) (by simp [emptiedLog]) (by simp [emptiedLog])
  have hc : c.WellFormed := wellFormedContents hr
  have hids : a.scannedIDs c = ["account"] := scanned_account rfl (by simp [creditLog])
  have hblocked : a.Blocked "account" (c.records "account") := by
    rw [show c.records "account" = _ from Contents.set_self _ _ _]
    exact ⟨"acme", rfl, by decide, by decide, by simp [a, acmeAdopter], by simp [a, acmeAdopter, Records.setLog,
      creditLog],
      by simp [Records.setLog], by simp [Records.setLog, emptiedLog]⟩
  obtain ⟨hplan, hreal, hfailed⟩ := contribution_blocked (hc.records "account") hblocked
  obtain ⟨plan, planErr, hplanRun, hplanCounts⟩ := a.run_counts false hc
  obtain ⟨real, realErr, hrealRun, hrealCounts⟩ := a.run_counts true hc
  rw [adopted_reads] at hplanRun
  rw [hids, total_cons, if_neg (by simp [a, acmeAdopter])] at hplanCounts hrealCounts
  refine ⟨plan, planErr, real, realErr, _, hplanRun, hrealRun, ?_, ?_, ?_⟩
  · have hcopied : plan.copied = 0 + (_ + 0) := congrArg Counts.copied hplanCounts
    rw [hcopied, hplan]
  · have hcopied : real.copied = 0 + (_ + 0) := congrArg Counts.copied hrealCounts
    rw [hcopied, hreal]
  · have hfail : real.failed = 0 + (_ + 0) := congrArg Counts.failed hrealCounts
    rw [hfail, hfailed]

end

end Ego.Migration

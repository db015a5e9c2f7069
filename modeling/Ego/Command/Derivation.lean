import Ego.Command.Carrier
import Mathlib.Data.List.Chain

/-!
# Chains of derived metadata (`command/metadata.go:247-294`)

`Derive` sets the inherited fields first and applies the options then.
-/

namespace Ego.Command
open Persistence (Bytes goString)

section
variable {T : Type}

def MetadataOption.correlation? : MetadataOption T → Option Bytes
  | .withCorrelationID id => some id
  | _ => none

def lastCorrelation : List (MetadataOption T) → Option Bytes
  | [] => none
  | opt :: opts => (lastCorrelation opts).or opt.correlation?

theorem MetadataOption.apply_ids {m m' : Metadata T} {opt : MetadataOption T} (h : opt.apply m = .ok m') :
    m'.operationID = m.operationID ∧ m'.causationID = m.causationID ∧
      m'.correlationID = opt.correlation?.getD m.correlationID := by
  cases opt with
  | withCustom key value =>
    obtain ⟨-, h⟩ := Lib.check_eq_ok.mp h
    obtain ⟨-, h⟩ := Lib.check_eq_ok.mp h
    obtain rfl := Except.ok.inj h
    exact ⟨rfl, rfl, rfl⟩
  | _ =>
    obtain rfl := Except.ok.inj h
    exact ⟨rfl, rfl, rfl⟩

theorem MetadataOption.apply_present {m m' : Metadata T} {opt : MetadataOption T} (h : opt.apply m = .ok m') :
    (m.tenant.isSome → m'.tenant.isSome) ∧ (m.deadline.isSome → m'.deadline.isSome) := by
  cases opt with
  | withCustom key value =>
    obtain ⟨-, h⟩ := Lib.check_eq_ok.mp h
    obtain ⟨-, h⟩ := Lib.check_eq_ok.mp h
    obtain rfl := Except.ok.inj h
    exact ⟨fun h => h, fun h => h⟩
  | withTenant tc =>
    obtain rfl := Except.ok.inj h
    exact ⟨fun _ => rfl, fun h => h⟩
  | withDeadline t =>
    obtain rfl := Except.ok.inj h
    exact ⟨fun h => h, fun _ => rfl⟩
  | _ =>
    obtain rfl := Except.ok.inj h
    exact ⟨fun h => h, fun h => h⟩

theorem applyAll_ids {m m' : Metadata T} {opts : List (MetadataOption T)} (h : applyAll m opts = .ok m') :
    m'.operationID = m.operationID ∧ m'.causationID = m.causationID ∧
      m'.correlationID = (lastCorrelation opts).getD m.correlationID := by
  induction opts generalizing m with
  | nil =>
    obtain rfl := Except.ok.inj h
    exact ⟨rfl, rfl, rfl⟩
  | cons opt opts ih =>
    obtain ⟨m₁, hm₁, h⟩ := Lib.bind_eq_ok.mp h
    obtain ⟨hop₁, hcause₁, hcorr₁⟩ := opt.apply_ids hm₁
    obtain ⟨hop, hcause, hcorr⟩ := ih h
    refine ⟨hop.trans hop₁, hcause.trans hcause₁, ?_⟩
    rw [hcorr, hcorr₁, lastCorrelation]
    cases lastCorrelation opts with
    | none => rfl
    | some id => rfl

theorem applyAll_present {m m' : Metadata T} {opts : List (MetadataOption T)} (h : applyAll m opts = .ok m') :
    (m.tenant.isSome → m'.tenant.isSome) ∧ (m.deadline.isSome → m'.deadline.isSome) := by
  constructor
  · intro htenant
    exact applyAll_preserves (P := fun m => m.tenant.isSome) (fun _ _ _ _ hm h => (MetadataOption.apply_present h).1 hm)
      htenant h
  · intro hdeadline
    exact applyAll_preserves (P := fun m => m.deadline.isSome)
      (fun _ _ _ _ hm h => (MetadataOption.apply_present h).2 hm) hdeadline h

end

section
variable {tp : TimePackage} {m c : Metadata tp.Time}

def KeepsTenant (ancestor m : Metadata tp.Time) : Prop := ∀ tc, ancestor.tenant = some tc → m.tenant = some tc

def KeepsDeadline (ancestor m : Metadata tp.Time) : Prop :=
  ∀ t, ancestor.deadline = some t → ∃ t', m.deadline = some t' ∧ tp.instant t' ≤ tp.instant t

instance : Trans (@KeepsTenant tp) KeepsTenant KeepsTenant where
  trans hab hbc := fun tc htc => hbc tc (hab tc htc)

instance : Trans (@KeepsDeadline tp) KeepsDeadline KeepsDeadline where
  trans hab hbc := fun t ht => by
    obtain ⟨t', ht', hle⟩ := hab t ht
    obtain ⟨t'', ht'', hle'⟩ := hbc t' ht'
    exact ⟨t'', ht'', Int.le_trans hle' hle⟩

theorem checkTenant_eq_ok (h : checkTenant tp m c = .ok ()) (hsome : m.tenant.isSome → c.tenant.isSome) :
    KeepsTenant m c := by
  intro tc htc
  obtain ⟨tc', htc'⟩ := Option.isSome_iff_exists.mp (hsome (by rw [htc]; rfl))
  simp only [checkTenant, htc, htc', Tenancy.Wire.verifyUnchanged] at h
  split at h
  · rename_i heq
    rw [htc', heq]
  · cases h

theorem checkDeadline_eq_ok (h : checkDeadline tp m c = .ok ()) (hsome : m.deadline.isSome → c.deadline.isSome) :
    KeepsDeadline m c := by
  intro t ht
  obtain ⟨t', ht'⟩ := Option.isSome_iff_exists.mp (hsome (by rw [ht]; rfl))
  simp only [checkDeadline, ht, ht'] at h
  split at h
  · cases h
  · rename_i hle
    exact ⟨t', ht', Int.not_lt.mp hle⟩

structure Inherits (parent child : Metadata tp.Time) : Prop where
  causation : child.causationID = some parent.operationID
  tenant : KeepsTenant parent child
  deadline : KeepsDeadline parent child

theorem Metadata.derive_eq_ok {now : tp.Time} {op : Bytes} {opts : List (MetadataOption tp.Time)}
    (h : m.derive tp now op opts = .ok c) :
    Inherits m c ∧ c.correlationID = (lastCorrelation opts).getD m.correlationID := by
  unfold Metadata.derive at h
  split at h
  · cases h
  · obtain ⟨c', hc', h⟩ := Lib.bind_eq_ok.mp h
    obtain ⟨htenant, h⟩ := Lib.check_eq_ok.mp h
    obtain ⟨hdeadline, h⟩ := Lib.check_eq_ok.mp h
    obtain rfl := Except.ok.inj h
    obtain ⟨-, hcause, hcorr⟩ := applyAll_ids hc'
    obtain ⟨hsomeTenant, hsomeDeadline⟩ := applyAll_present hc'
    exact ⟨⟨hcause, checkTenant_eq_ok htenant hsomeTenant, checkDeadline_eq_ok hdeadline hsomeDeadline⟩, hcorr⟩

structure Derivation (T : Type) where
  now : T
  op : Bytes
  opts : List (MetadataOption T)

def descendants (tp : TimePackage) (m : Metadata tp.Time) :
    List (Derivation tp.Time) → Except Error (List (Metadata tp.Time))
  | [] => .ok []
  | d :: ds => do
    let c ← m.derive tp d.now d.op d.opts
    let rest ← descendants tp c ds
    .ok (c :: rest)

structure Lineage (root : Metadata tp.Time) (ms : List (Metadata tp.Time)) : Prop where
  correlation : ∀ m ∈ ms, m.correlationID = root.correlationID
  causation : (root :: ms).IsChain fun parent child => child.causationID = some parent.operationID
  tenant : (root :: ms).Pairwise KeepsTenant
  deadline : (root :: ms).Pairwise KeepsDeadline

variable {ms : List (Metadata tp.Time)} {ds : List (Derivation tp.Time)}

theorem descendants_inherit (h : descendants tp m ds = .ok ms) : (m :: ms).IsChain Inherits := by
  induction ds generalizing m ms with
  | nil =>
    obtain rfl := Except.ok.inj h
    exact List.isChain_singleton m
  | cons d ds ih =>
    obtain ⟨c, hc, h⟩ := Lib.bind_eq_ok.mp h
    obtain ⟨rest, hrest, h⟩ := Lib.bind_eq_ok.mp h
    obtain rfl := Except.ok.inj h
    exact List.isChain_cons_cons.mpr ⟨(Metadata.derive_eq_ok hc).1, ih hrest⟩

theorem descendants_correlation {id : Bytes} (h : descendants tp m ds = .ok ms) (hm : m.correlationID = id) :
    (∀ c ∈ ms, c.correlationID = id) ↔ ∀ d ∈ ds, ∀ id' ∈ lastCorrelation d.opts, id' = id := by
  induction ds generalizing m ms with
  | nil =>
    obtain rfl := Except.ok.inj h
    simp
  | cons d ds ih =>
    obtain ⟨c, hc, h⟩ := Lib.bind_eq_ok.mp h
    obtain ⟨rest, hrest, h⟩ := Lib.bind_eq_ok.mp h
    obtain rfl := Except.ok.inj h
    have hfirst : c.correlationID = id ↔ ∀ id' ∈ lastCorrelation d.opts, id' = id := by
      rw [(Metadata.derive_eq_ok hc).2, hm]
      cases lastCorrelation d.opts with
      | none | some => simp
    rw [List.forall_mem_cons, List.forall_mem_cons, hfirst]
    constructor
    · rintro ⟨hd, hall⟩
      exact ⟨hd, (ih hrest (hfirst.mpr hd)).mp hall⟩
    · rintro ⟨hd, hall⟩
      exact ⟨hd, (ih hrest (hfirst.mpr hd)).mpr hall⟩

/-- A chain of successful calls keeps what `Derive` promises exactly if no call
replaces the correlation by another one. -/
theorem lineage_iff {root : Metadata tp.Time} (h : descendants tp root ds = .ok ms) :
    Lineage root ms ↔ ∀ d ∈ ds, ∀ id ∈ lastCorrelation d.opts, id = root.correlationID := by
  have hchain := descendants_inherit h
  rw [← descendants_correlation h rfl]
  constructor
  · intro hlineage
    exact hlineage.correlation
  · intro hcorrelation
    exact ⟨hcorrelation, hchain.imp fun _ _ hinherit => hinherit.causation,
      (hchain.imp fun _ _ hinherit => hinherit.tenant).pairwise,
      (hchain.imp fun _ _ hinherit => hinherit.deadline).pairwise⟩

end

open Enginetest

def notifications : List (Derivation rfc3339.Time) :=
  [⟨noon 6, goString "notify-1", [.withTenant (.tenant (goString "acme")), .withDeadline (noon 8)]⟩,
    ⟨noon 7, goString "notify-2", [.withCorrelationID (goString "flow-1")]⟩]

theorem lineage_notifications :
    ∃ ms, descendants rfc3339 transfer notifications = .ok ms ∧ ms.length = 2 ∧ Lineage transfer ms := by
  obtain ⟨ms, hms⟩ : ∃ ms, descendants rfc3339 transfer notifications = .ok ms := ⟨_, rfl⟩
  refine ⟨ms, hms, ?_, (lineage_iff hms).mpr ?_⟩
  · obtain rfl := Except.ok.inj hms
    rfl
  intro d hd id hid
  rcases List.mem_cons.mp hd with rfl | hd
  · cases hid
  · obtain rfl := List.mem_singleton.mp hd
    exact (Option.some.inj hid).symm

/-- A derived command that is given a correlation of its own. -/
theorem derive_replaces_correlation : ∃ ms, descendants rfc3339 transfer
        [⟨noon 6, goString "notify-1", [.withCorrelationID (goString "flow-2")]⟩] = .ok ms ∧
      (∃ m ∈ ms, m.correlationID = goString "flow-2") ∧ transfer.correlationID = goString "flow-1" ∧
      ¬ Lineage transfer ms := by
  refine ⟨_, rfl, ⟨_, List.mem_singleton.mpr rfl, rfl⟩, rfl, fun hlineage => ?_⟩
  have hsame := hlineage.correlation _ (List.mem_singleton.mpr rfl)
  exact absurd hsame (by decide)

end Ego.Command

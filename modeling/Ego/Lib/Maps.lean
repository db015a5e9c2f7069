import Mathlib.Data.List.AList

/-!
# Maps that are ranged over

A Go map as an `AList`: a statement about every `AList` with given lookups is one about
every order of a range.
-/

namespace Ego.Lib.Maps

variable {κ ν : Type} [DecidableEq κ]

abbrev Map (κ ν : Type) := AList fun _ : κ => ν

theorem lookup_union (s t : Map κ ν) (k : κ) : (s ∪ t).lookup k = (s.lookup k).or (t.lookup k) := by
  by_cases hk : k ∈ s
  · obtain ⟨v, hv⟩ := Option.isSome_iff_exists.mp (AList.lookup_isSome.mpr hk)
    rw [AList.lookup_union_left hk, hv]
    rfl
  · rw [AList.lookup_union_right hk, AList.lookup_eq_none.mpr hk]
    rfl

def filter (p : κ → Bool) (m : Map κ ν) : Map κ ν :=
  ⟨m.entries.filter fun e => p e.1, m.nodupKeys.sublist List.filter_sublist⟩

theorem lookup_filter (p : κ → Bool) (m : Map κ ν) (k : κ) :
    (filter p m).lookup k = if p k then m.lookup k else none := by
  ext v
  change v ∈ (filter p m).lookup k ↔ _
  rw [AList.mem_lookup_iff, filter, List.mem_filter, ← AList.mem_lookup_iff]
  cases hp : p k with
  | true => simp
  | false => simp

theorem eq_empty_of_lookup {m : Map κ ν} (h : ∀ k, m.lookup k = none) : m = ∅ := by
  apply AList.ext
  apply List.eq_nil_iff_forall_not_mem.mpr
  rintro ⟨k, v⟩ he
  have hv : v ∈ m.lookup k := AList.mem_lookup_iff.mpr he
  rw [h k] at hv
  cases hv

def insertAll (entries : List (Sigma fun _ : κ => ν)) (m : Map κ ν) : Map κ ν :=
  entries.foldl (fun m e => m.insert e.1 e.2) m

theorem lookup_insertAll {entries : List (Sigma fun _ : κ => ν)} (h : entries.NodupKeys) (m : Map κ ν) (k : κ) :
    (insertAll entries m).lookup k = (entries.dlookup k).or (m.lookup k) := by
  induction entries generalizing m with
  | nil => rfl
  | cons e entries ih =>
    obtain ⟨hnotMem, hrest⟩ := List.nodupKeys_cons.mp h
    change (insertAll entries (m.insert e.1 e.2)).lookup k = _
    rw [ih hrest]
    by_cases hk : k = e.1
    · subst hk
      rw [List.dlookup_eq_none.mpr hnotMem, AList.lookup_insert, List.dlookup_cons_eq]
      rfl
    · rw [AList.lookup_insert_ne hk, List.dlookup_cons_ne _ _ hk]

def putAll (fields : List (κ × Option ν)) (m : Map κ ν) : Map κ ν :=
  fields.foldl (fun m field => field.2.elim m (m.insert field.1)) m

theorem lookup_putAll_of_notMem {fields : List (κ × Option ν)} {k : κ} (h : k ∉ fields.map Prod.fst)
    (m : Map κ ν) :
    (putAll fields m).lookup k = m.lookup k := by
  induction fields generalizing m with
  | nil => rfl
  | cons field fields ih =>
    obtain ⟨hk, hrest⟩ := not_or.mp (List.mem_cons.not.mp h)
    change (putAll fields (field.2.elim m (m.insert field.1))).lookup k = _
    rw [ih hrest]
    cases field.2 with
    | none => rfl
    | some v => exact AList.lookup_insert_ne hk

theorem lookup_putAll {fields : List (κ × Option ν)} (hnodup : (fields.map Prod.fst).Nodup) {k : κ}
    {value : Option ν}
    (h : (k, value) ∈ fields) {m : Map κ ν} (hm : m.lookup k = none) : (putAll fields m).lookup k = value := by
  induction fields generalizing m with
  | nil => cases h
  | cons field fields ih =>
    obtain ⟨hnotMem, hrest⟩ := List.nodup_cons.mp hnodup
    change (putAll fields (field.2.elim m (m.insert field.1))).lookup k = _
    rcases List.mem_cons.mp h with rfl | hmem
    · rw [lookup_putAll_of_notMem hnotMem]
      cases value with
      | none => exact hm
      | some v => exact AList.lookup_insert m
    · have hk : k ≠ field.1 := by
        rintro rfl
        exact hnotMem (List.mem_map.mpr ⟨_, hmem, rfl⟩)
      refine ih hrest hmem ?_
      cases field.2 with
      | none => exact hm
      | some v => exact (AList.lookup_insert_ne hk).trans hm

end Ego.Lib.Maps

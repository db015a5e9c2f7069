import Ego.Enginetest.Account
import Ego.Persistence.Enumeration
import Ego.Postgres.Tables
import Ego.Testkit.Noninterference

/-!
# Page sizes

Both stores make an `int` of the page size, which fails from 2^63 on.
-/

namespace Ego.Testkit
open Persistence

namespace EventStore

theorem keys_sorted (db : Db) (scope : Scope) : (keys db scope).Pairwise (· < ·) := (Finset.sortedLT_sort _).pairwise

theorem keys_length_le (db : Db) (scope : Scope) : (keys db scope).length ≤ db.keys.length := by
  rw [keys, Finset.length_sort]
  refine Nat.le_trans (List.toFinset_card_le _) ?_
  rw [List.length_map]
  exact List.length_filter_le _ _

theorem startIndex_le (keys : List String) (token : String) : startIndex keys token ≤ keys.length := by
  unfold startIndex
  split
  · exact Nat.zero_le _
  · split
    · rename_i i hfind
      exact Nat.le_of_lt (List.findIdx?_eq_some_iff_findIdx_eq.mp hfind).1
    · exact Nat.zero_le _

theorem toInt_of_lt {n : ℕ} (h : n < 2 ^ 63) : toInt n = n := if_pos h

theorem bmod_of_fits {x : ℤ} (h : -2 ^ 63 ≤ x) (h' : x < 2 ^ 63) : Int.bmod x (2 ^ 64) = x :=
  Int.bmod_eq_of_le (by omega) (by omega)

theorem pageOfKeys_of_fits {keys : List String} {n : ℕ} {token : String} (hn : n < 2 ^ 63)
    (h : startIndex keys token + n < 2 ^ 63) : pageOfKeys keys n token = .ok (Testkit.persistenceIDs keys n token) := by
  have hsum : Int.bmod (startIndex keys token + toInt n) (2 ^ 64) = ((startIndex keys token + n : ℕ) : ℤ) := by
    rw [toInt_of_lt hn, bmod_of_fits (by omega) (by omega)]
    omega
  have hle := startIndex_le keys token
  have hend : (if (keys.length : ℤ) < ((startIndex keys token + n : ℕ) : ℤ) then (keys.length : ℤ)
      else ((startIndex keys token + n : ℕ) : ℤ)) =
        ((min (startIndex keys token + n) keys.length : ℕ) : ℤ) := by
    split <;> omega
  unfold pageOfKeys Testkit.persistenceIDs
  dsimp only
  rw [hsum, hend, if_neg (by omega), Int.toNat_natCast]
  simp only [Int.ofNat_lt]

theorem pageOfKeys_of_large {keys : List String} {n : ℕ} (hn : ¬ n < 2 ^ 63) (hu : n < 2 ^ 64) :
    pageOfKeys keys n "" = .error outOfRange := by
  have hstart : startIndex keys "" = 0 := if_pos rfl
  have hint : toInt n = n - 2 ^ 64 := if_neg hn
  have hsum : Int.bmod ((startIndex keys "" : ℕ) + toInt n) (2 ^ 64) = n - 2 ^ 64 := by
    rw [hstart, hint, bmod_of_fits (by omega) (by omega)]
    omega
  unfold pageOfKeys
  dsimp only
  have hend : (if (keys.length : ℤ) < n - 2 ^ 64 then (keys.length : ℤ) else n - 2 ^ 64) = n - 2 ^ 64 :=
    if_neg (by omega)
  rw [hsum, hend, if_pos (by omega)]

theorem persistenceIDs_all {keys : List String} {n : ℕ} (h : keys.length ≤ n) :
    Testkit.persistenceIDs keys n "" = (keys, "") := by
  have hstart : startIndex keys "" = 0 := if_pos rfl
  unfold Testkit.persistenceIDs
  dsimp only
  rw [hstart, Nat.zero_add, Nat.min_eq_right h, List.take_length, List.drop_zero, if_neg fun hlt => lt_irrefl _ hlt.1]

theorem persistenceIDs_end {keys : List String} {n : ℕ} {token : String}
    (h : (Testkit.persistenceIDs keys n token).1 = []) : (Testkit.persistenceIDs keys n token).2 = "" :=
  if_neg fun hmore => hmore.2 h

theorem enumerates_iff {db : Db} {scope : Scope} (hs : scope.valid = true) (hne : db.lookup (scope, "") = none)
    (hfits : (keys db scope).length < 2 ^ 59) (pageSize : UInt64) (hpos : pageSize ≠ 0) :
    Enumerates (persistenceIDs db scope pageSize.toNat) (fun id => (db.lookup (scope, id)).isSome = true) ↔
      pageSize.toNat < 2 ^ 63 := by
  have hu : pageSize.toNat < 2 ^ 64 := pageSize.toNat_lt
  have hn : 0 < pageSize.toNat := Nat.pos_of_ne_zero fun h => hpos (UInt64.toNat_inj.mp h)
  have hpage (token : String) : persistenceIDs db scope pageSize.toNat token =
      pageOfKeys (keys db scope) pageSize.toNat token := by
    unfold persistenceIDs
    rw [hs]
    rfl
  have hmem (id : String) : id ∈ keys db scope ↔ (db.lookup (scope, id)).isSome = true := by
    rw [mem_keys, revision, Option.isSome_map]
  have hempty : "" ∉ keys db scope := by simp [hmem, hne]
  constructor
  · intro h
    by_contra hlarge
    exact not_enumerates ((hpage "").trans (pageOfKeys_of_large hlarge hu)) _ h
  · intro hlt
    by_cases hall : (keys db scope).length ≤ pageSize.toNat
    · refine ⟨1, keys db scope, listAll_of_last ?_ 0, (keys_sorted db scope).imp ne_of_lt, hmem⟩
      rw [hpage, pageOfKeys_of_fits hlt (by simpa [startIndex] using hlt), persistenceIDs_all hall]
    · have hfit (token : String) : persistenceIDs db scope pageSize.toNat token =
          .ok (Testkit.persistenceIDs (keys db scope) pageSize.toNat token) := by
        have hle := startIndex_le (keys db scope) token
        rw [hpage, pageOfKeys_of_fits hlt (by omega)]
      obtain ⟨calls, listed, hlisted, hnodup, hids⟩ :=
        (persistenceIDs_listing (keys db scope) pageSize.toNat hn (keys_sorted db scope) hempty).enumerates hn
          (keys_sorted db scope) hempty hfit fun token => persistenceIDs_end
      exact ⟨calls, listed, hlisted, hnodup, fun id => (hids id).trans (hmem id)⟩

end EventStore

end Ego.Testkit

namespace Ego.Postgres.Tables
open Persistence

theorem persistenceIDs_end {ids : List String} {n : ℕ} {token : String} (hn : 0 < n)
    (h : (Postgres.persistenceIDs ids n token).1 = []) : (Postgres.persistenceIDs ids n token).2 = "" := by
  unfold Postgres.persistenceIDs at h ⊢
  rw [if_neg (Nat.ne_of_gt hn)] at h ⊢
  dsimp only at h ⊢
  rw [h, List.length_nil, if_neg (Nat.ne_of_lt hn)]

theorem enumerates_iff {tables : Tables} {scope : Scope} {tenantID : String} (hs : scopeKey scope = .ok tenantID)
    (hne : ∀ n, tables.events.lookup (tenantID, "", n) = none) (pageSize : UInt64) (hpos : pageSize ≠ 0) :
    Enumerates (tables.persistenceIDs scope pageSize.toNat)
        (fun id => ∃ n, (tables.events.lookup (tenantID, id, n)).isSome = true) ↔ pageSize.toNat < 2 ^ 63 := by
  have hn : 0 < pageSize.toNat := Nat.pos_of_ne_zero fun h => hpos (UInt64.toNat_inj.mp h)
  have hpage (token : String) : tables.persistenceIDs scope pageSize.toNat token =
      (bindBigint pageSize.toNat).map fun _ => Postgres.persistenceIDs (tables.ids tenantID) pageSize.toNat token := by
    unfold persistenceIDs
    rw [hs]
    change (if pageSize.toNat = 0 then _ else _) = _
    rw [if_neg (Nat.ne_of_gt hn)]
    cases bindBigint pageSize.toNat <;> rfl
  constructor
  · intro h
    by_contra hlarge
    have hfail : tables.persistenceIDs scope pageSize.toNat "" =
        .error (.message "value out of range for type bigint") := by
      rw [hpage, bindBigint, if_neg hlarge]
      rfl
    exact not_enumerates hfail _ h
  · intro hlt
    have hfit (token : String) : tables.persistenceIDs scope pageSize.toNat token =
        .ok (Postgres.persistenceIDs (tables.ids tenantID) pageSize.toNat token) := by
      rw [hpage, bindBigint, if_pos hlt]
      rfl
    have hempty : "" ∉ tables.ids tenantID := by simp [mem_ids, hne]
    have hsorted : (tables.ids tenantID).Pairwise (· < ·) := (Finset.sortedLT_sort _).pairwise
    obtain ⟨calls, listed, hlisted, hnodup, hids⟩ :=
      (persistenceIDs_listing (tables.ids tenantID) pageSize.toNat hn hempty).enumerates hn hsorted hempty hfit
        fun token => persistenceIDs_end hn
    exact ⟨calls, listed, hlisted, hnodup, fun id => (hids id).trans mem_ids⟩

end Ego.Postgres.Tables

namespace Ego.Testkit
open Persistence

/-- Both stores list every id once exactly if the page size is an `int`. -/
theorem enumeration_iff (pageSize : UInt64) (hpos : pageSize ≠ 0) :
    (∀ (db : EventStore.Db) (scope : Scope), scope.valid = true → db.lookup (scope, "") = none →
      (EventStore.keys db scope).length < 2 ^ 59 → (Enumerates (EventStore.persistenceIDs db scope pageSize.toNat)
          (fun id => (db.lookup (scope, id)).isSome = true) ↔ pageSize.toNat < 2 ^ 63)) ∧
    ∀ (tables : Postgres.Tables) (scope : Scope) (tenantID : String), Postgres.scopeKey scope = .ok tenantID →
      (∀ n, tables.events.lookup (tenantID, "", n) = none) →
      (Enumerates (tables.persistenceIDs scope pageSize.toNat)
          (fun id => ∃ n, (tables.events.lookup (tenantID, id, n)).isSome = true) ↔ pageSize.toNat < 2 ^ 63) :=
  ⟨fun _ _ hs hne hfits => EventStore.enumerates_iff hs hne hfits pageSize hpos,
    fun _ _ _ hs hne => Postgres.Tables.enumerates_iff hs hne pageSize hpos⟩

/-- An id is listed with pages of one id. -/
theorem enumeration_account :
    let db : EventStore.Db := AList.singleton (.unscoped, "account")
      ⟨0, [], List.nodup_nil, fun _ h => absurd h List.not_mem_nil⟩
    let tables : Postgres.Tables := ⟨AList.singleton ("", "account", 1) (Enginetest.credited "account" 1 0), ∅⟩
    Enumerates (EventStore.persistenceIDs db .unscoped (1 : UInt64).toNat)
      (fun id => (db.lookup (.unscoped, id)).isSome = true) ∧
    Enumerates (tables.persistenceIDs .unscoped (1 : UInt64).toNat)
      (fun id => ∃ n, (tables.events.lookup ("", id, n)).isSome = true) := by
  intro db tables
  have hlists := enumeration_iff 1 (by decide)
  have hfits : (EventStore.keys db .unscoped).length < 2 ^ 59 :=
    Nat.lt_of_le_of_lt (EventStore.keys_length_le db .unscoped) (by decide)
  refine ⟨(hlists.1 db .unscoped rfl (by decide) hfits).mpr (by decide),
    (hlists.2 tables .unscoped "" rfl fun n => ?_).mpr (by decide)⟩
  rw [AList.lookup_eq_none]
  simp [tables, AList.mem_keys]

/-- With the largest page size neither store lists anything. -/
theorem enumeration_fails : ¬ Enumerates
    (EventStore.persistenceIDs ∅ .unscoped (18446744073709551615 : UInt64).toNat)
      (fun id => ((∅ : EventStore.Db).lookup (.unscoped, id)).isSome = true) ∧
    EventStore.persistenceIDs ∅ .unscoped (18446744073709551615 : UInt64).toNat "" = .error EventStore.outOfRange ∧
    Postgres.Tables.persistenceIDs ⟨∅, ∅⟩ .unscoped (18446744073709551615 : UInt64).toNat "" =
      .error (.message "value out of range for type bigint") := by
  have hpanic : EventStore.persistenceIDs ∅ .unscoped (18446744073709551615 : UInt64).toNat "" =
      .error EventStore.outOfRange :=
    @EventStore.pageOfKeys_of_large (EventStore.keys ∅ .unscoped) (18446744073709551615 : UInt64).toNat (by decide)
      (by decide)
  exact ⟨not_enumerates hpanic _, hpanic, rfl⟩

end Ego.Testkit

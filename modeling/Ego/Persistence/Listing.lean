import Ego.Persistence.Retention
import Mathlib.Data.String.Basic
import Mathlib.Data.List.Sort

/-! # Listing a scope (`persistence/events_store.go`, `PersistenceIDs`) -/

namespace Ego.Persistence

instance string_le_trans : IsTrans String (· ≤ ·) := ⟨fun _ _ _ => le_trans⟩
instance string_le_antisymm : Std.Antisymm fun a b : String => a ≤ b := ⟨fun _ _ => le_antisymm⟩
instance string_le_total : Std.Total fun a b : String => a ≤ b := ⟨le_total⟩

def enumerate (page : String → List String × String) : ℕ → String → Option (List String)
  | 0, _ => none
  | pages + 1, token =>
    if (page token).2 = "" ∨ (page token).1 = [] then some (page token).1
    else (enumerate page pages (page token).2).map ((page token).1 ++ ·)

def afterToken (ids : List String) (token : String) : List String :=
  if token = "" then ids else ids.filter (token < ·)

/-- What the page for a token is, as long as something is left to list. A token
is for more ids, or the page for it is empty. -/
structure IsListing (ids : List String) (n : ℕ) (page : String → List String × String) : Prop where
  ids_of : ∀ token, token = "" ∨ afterToken ids token ≠ [] → (page token).1 = (afterToken ids token).take n
  last_of : ∀ token, token = "" ∨ afterToken ids token ≠ [] → (page token).2 = "" →
    (afterToken ids token).length ≤ n
  token_of : ∀ token, token = "" ∨ afterToken ids token ≠ [] → (page token).2 ≠ "" →
    ((afterToken ids token).take n).getLast? = some (page token).2
  beyond : ∀ token, token = "" ∨ afterToken ids token ≠ [] → (page token).2 ≠ "" →
    afterToken ids (page token).2 = [] → (page (page token).2).1 = []

variable {ids : List String} {token : String}

theorem mem_of_mem_afterToken {id : String} (h : id ∈ afterToken ids token) : id ∈ ids := by
  unfold afterToken at h
  split at h
  · exact h
  · exact (List.mem_filter.mp h).1

variable {n : ℕ}

theorem exists_last_of_page (hn : 0 < n) (h : n ≤ (afterToken ids token).length) :
    ∃ id ∈ ids, ((afterToken ids token).take n).getLast? = some id := by
  cases hlast : ((afterToken ids token).take n).getLast? with
  | none =>
    have hlen := congrArg List.length (List.getLast?_eq_none_iff.mp hlast)
    rw [List.length_take, List.length_nil] at hlen
    omega
  | some id => exact ⟨id, mem_of_mem_afterToken (List.mem_of_mem_take (List.mem_of_getLast? hlast)), rfl⟩

theorem afterToken_getLast (hsorted : ids.Pairwise (· < ·)) (hne : "" ∉ ids)
    {next : String} (h : ((afterToken ids token).take n).getLast? = some next) :
    afterToken ids next = (afterToken ids token).drop n := by
  have hrest : ∃ seen, ids = seen ++ afterToken ids token := by
    unfold afterToken
    split
    · exact ⟨[], rfl⟩
    · refine ⟨ids.filter fun x => !decide (token < x), ?_⟩
      -- the ids up to the token come first
      have hperm : ids.Perm (ids.filter (fun x => !decide (token < x)) ++ ids.filter (token < ·)) :=
        ((List.filter_append_perm (fun x => decide (token < x)) ids).symm).trans List.perm_append_comm
      refine hperm.eq_of_pairwise (fun a b _ _ hab hba => (lt_asymm hab hba).elim) hsorted
        (List.pairwise_append.mpr ⟨hsorted.filter _, hsorted.filter _, fun a ha b hb => ?_⟩)
      have hle : ¬ token < a := fun hlt => by
        have hfalse := (List.mem_filter.mp ha).2
        rw [decide_eq_true hlt] at hfalse
        cases hfalse
      exact lt_of_le_of_lt (not_lt.mp hle) (of_decide_eq_true (List.mem_filter.mp hb).2)
  obtain ⟨seen, hseen⟩ := hrest
  generalize afterToken ids token = rest at h hseen
  obtain ⟨init, hinit⟩ := List.getLast?_eq_some_iff.mp h
  have hids : ids = seen ++ init ++ next :: rest.drop n := by
    rw [hseen]
    conv_lhs => rw [← List.take_append_drop n rest, hinit]
    simp
  have hmem : next ∈ ids := by
    rw [hids]
    simp
  have htoken : next ≠ "" := fun he => hne (he ▸ hmem)
  rw [hids] at hsorted
  obtain ⟨-, htail, hbefore⟩ := List.pairwise_append.mp hsorted
  rw [afterToken, if_neg htoken, hids, List.filter_append, List.filter_cons_of_neg (by simp)]
  have hnone : (seen ++ init).filter (next < ·) = [] := by
    refine List.filter_eq_nil_iff.mpr fun a ha hlt => ?_
    exact lt_asymm (of_decide_eq_true hlt) (hbefore a ha next List.mem_cons_self)
  have hall : (rest.drop n).filter (next < ·) = rest.drop n :=
    List.filter_eq_self.mpr fun a ha => decide_eq_true ((List.pairwise_cons.mp htail).1 a ha)
  rw [hnone, hall, List.nil_append]

theorem IsListing.enumerate {page : String → List String × String}
    (h : IsListing ids n page) (hn : 0 < n) (hsorted : ids.Pairwise (· < ·)) (hne : "" ∉ ids) (pages : ℕ)
    (token : String) (hlive : token = "" ∨ afterToken ids token ≠ [])
    (hpages : (afterToken ids token).length < pages) :
    enumerate page pages token = some (afterToken ids token) := by
  induction pages generalizing token with
  | zero => omega
  | succ pages ih =>
    have hids := h.ids_of token hlive
    unfold Persistence.enumerate
    by_cases hempty : (page token).1 = []
    · rw [if_pos (.inr hempty), hempty]
      rw [hempty] at hids
      have hnil : afterToken ids token = [] := by
        rcases List.take_eq_nil_iff.mp hids.symm with h0 | h0
        · omega
        · exact h0
      rw [hnil]
    by_cases hnext : (page token).2 = ""
    · rw [if_pos (.inl hnext), hids, List.take_of_length_le (h.last_of token hlive hnext)]
    · rw [if_neg (not_or.mpr ⟨hnext, hempty⟩), hids]
      have htoken := h.token_of token hlive hnext
      have hafter := afterToken_getLast hsorted hne htoken
      have hlen : 0 < (afterToken ids token).length := by
        rw [hids] at hempty
        exact List.length_pos_iff.mpr fun hnil => hempty (by rw [hnil, List.take_nil])
      by_cases hrest : afterToken ids (page token).2 = []
      · -- the page under the last token is empty
        have hbeyond := h.beyond token hlive hnext hrest
        cases pages with
        | zero => omega
        | succ pages =>
          rw [Persistence.enumerate, if_pos (.inr hbeyond), hbeyond]
          rw [hrest] at hafter
          rw [Option.map_some, List.append_nil, ← List.append_nil (List.take n _), hafter, List.take_append_drop]
      · rw [ih (page token).2 (.inr hrest) (by rw [hafter, List.length_drop]; omega), Option.map_some, hafter,
          List.take_append_drop]

/-- `persistence.EventsStore` with all of its operations. `lists` says which records
`PersistenceIDs` still knows; it is called on their ids in increasing order. -/
structure JournalStore extends RetainingStore where
  lists : EventLog → Bool
  persistenceIDs : List String → ℕ → String → List String × String
  lists_events : ∀ log, log.events ≠ [] → lists log = true
  listing : ∀ ids n, 0 < n → ids.Pairwise (· < ·) → "" ∉ ids → IsListing ids n (persistenceIDs ids n)
  replay_all : ∀ scope log fromSeq toSeq limit, scope.valid = true → (journal log).length ≤ limit →
    ∃ events, replayEvents scope log fromSeq toSeq limit = .ok events ∧
      events.Perm ((journal log).filter fun e => fromSeq ≤ e.sequenceNumber ∧ e.sequenceNumber ≤ toSeq)
  genesis_ok : ∀ scope id events, scope.valid = true → events ≠ [] → (events.map (·.sequenceNumber)).Nodup →
      ∃ log, writeEvents scope id none events .genesis = .ok (some log)
  genesis_conflict : ∀ scope id log events, scope.valid = true → events ≠ [] →
    ∃ e, writeEvents scope id (some log) events .genesis = .error (.conflict e)
  delete_none : ∀ scope upTo, scope.valid = true → deleteEvents scope none upTo = .ok none
  delete_some : ∀ scope log upTo, scope.valid = true → ∃ log', deleteEvents scope (some log) upTo =
    .ok (some log')

structure FullSnapshotStore extends SnapshotStore where
  write_total : ∀ scope old s, scope.valid = true → ∃ new, writeSnapshot scope old s = .ok new
  delete_total : ∀ scope old upTo, scope.valid = true → ∃ new, deleteSnapshots scope old upTo = .ok new

end Ego.Persistence

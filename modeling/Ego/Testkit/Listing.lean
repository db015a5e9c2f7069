import Ego.Persistence.Listing
import Ego.Testkit.SnapshotStore

/-! # Listing the in-memory store (`testkit/eventstore.go`, `PersistenceIDs`) -/

namespace Ego.Testkit
open Persistence

def startIndex (keys : List String) (pageToken : String) : ℕ :=
  if pageToken = "" then 0
  else
    match keys.findIdx? (pageToken < ·) with
    | some i => i
    | none => 0

def persistenceIDs (keys : List String) (pageSize : ℕ) (pageToken : String) : List String × String :=
  let start := startIndex keys pageToken
  let endIndex := min (start + pageSize) keys.length
  let page := (keys.take endIndex).drop start
  (page, if endIndex < keys.length ∧ page ≠ [] then page.getLast?.getD "" else "")

theorem drop_startIndex {keys : List String} (hsorted : keys.Pairwise (· < ·)) {token : String}
    (h : token = "" ∨ afterToken keys token ≠ []) : keys.drop (startIndex keys token) = afterToken keys token := by
  unfold startIndex afterToken at *
  split
  · rfl
  · rename_i hne
    rw [if_neg hne] at h
    replace h := h.resolve_left hne
    induction keys with
    | nil => exact absurd rfl h
    | cons key keys ih =>
      rw [List.findIdx?_cons]
      by_cases hlt : token < key
      · rw [if_pos (decide_eq_true hlt), List.drop_zero]
        refine (List.filter_eq_self.mpr fun x hx => decide_eq_true ?_).symm
        rcases List.mem_cons.mp hx with rfl | hx
        · exact hlt
        · exact hlt.trans ((List.pairwise_cons.mp hsorted).1 x hx)
      · have hfilter : (key :: keys).filter (token < ·) = keys.filter (token < ·) :=
          List.filter_cons_of_neg fun hd => hlt (of_decide_eq_true hd)
        rw [hfilter] at h ⊢
        have hrest := ih (List.pairwise_cons.mp hsorted).2 h
        rw [if_neg fun hd => hlt (of_decide_eq_true hd)]
        cases hfind : keys.findIdx? (token < ·) with
        | none =>
          refine absurd (List.filter_eq_nil_iff.mpr fun x hx hd => ?_) h
          rw [List.findIdx?_eq_none_iff.mp hfind x hx] at hd
          cases hd
        | some i =>
          rw [hfind] at hrest
          exact hrest

theorem persistenceIDs_eq {keys : List String} (hsorted : keys.Pairwise (· < ·)) {n : ℕ} (hn : 0 < n)
    {token : String} (h : token = "" ∨ afterToken keys token ≠ []) :
    persistenceIDs keys n token = ((afterToken keys token).take n,
      if n < (afterToken keys token).length then ((afterToken keys token).take n).getLast?.getD "" else "") := by
  have hdrop := drop_startIndex hsorted h
  have hlen := congrArg List.length hdrop
  rw [List.length_drop] at hlen
  have hpage : (keys.take (min (startIndex keys token + n) keys.length)).drop (startIndex keys token) =
      (afterToken keys token).take n := by
    rw [List.drop_take, hdrop, List.take_eq_take_iff]
    omega
  unfold persistenceIDs
  dsimp only
  rw [hpage]
  by_cases hmore : n < (afterToken keys token).length
  · have hnil : (afterToken keys token).take n ≠ [] := by
      intro hnil
      have := congrArg List.length hnil
      rw [List.length_take, List.length_nil] at this
      omega
    rw [if_pos hmore, if_pos ⟨by omega, hnil⟩]
  · rw [if_neg hmore, if_neg fun hend => hmore (by omega)]

theorem persistenceIDs_listing (keys : List String) (n : ℕ) (hn : 0 < n) (hsorted : keys.Pairwise (· < ·))
    (hne : "" ∉ keys) : IsListing keys n (persistenceIDs keys n) := by
  refine ⟨fun token h => ?_, fun token h hnext => ?_, fun token h hnext => ?_, fun token h hnext hrest => ?_⟩
  · rw [persistenceIDs_eq hsorted hn h]
  · rw [persistenceIDs_eq hsorted hn h] at hnext
    by_contra hmore
    obtain ⟨id, hmem, hid⟩ := exists_last_of_page hn (show n ≤ (afterToken keys token).length by omega)
    rw [if_pos (by omega), hid] at hnext
    exact hne (hnext ▸ hmem)
  · rw [persistenceIDs_eq hsorted hn h] at hnext ⊢
    split at hnext
    · rename_i hmore
      obtain ⟨id, -, hid⟩ := exists_last_of_page hn (Nat.le_of_lt hmore)
      rw [if_pos hmore, hid]
      rfl
    · exact absurd rfl hnext
  · -- a token is only handed out when there is more
    rw [persistenceIDs_eq hsorted hn h] at hnext hrest
    split at hnext
    · rename_i hmore
      obtain ⟨id, -, hid⟩ := exists_last_of_page hn (Nat.le_of_lt hmore)
      rw [if_pos hmore, hid, Option.getD_some, afterToken_getLast hsorted hne hid] at hrest
      have := congrArg List.length hrest
      rw [List.length_drop, List.length_nil] at this
      omega
    · exact absurd rfl hnext

theorem replayEvents_all {scope : Scope} {log : Option EventLog} {a b limit : ℕ} (hs : scope.valid = true)
    (hl : (journal log).length ≤ limit) : ∃ events, replayEvents scope log a b limit = .ok events ∧
      events.Perm ((journal log).filter fun e => a ≤ e.sequenceNumber ∧ e.sequenceNumber ≤ b) := by
  refine ⟨_, by simp only [replayEvents, hs]; rfl, ?_⟩
  have hperm := Lib.StableSort.sort_perm (fun x y : Event => decide (x.sequenceNumber < y.sequenceNumber))
    ((journal log).filter fun e => a ≤ e.sequenceNumber ∧ e.sequenceNumber ≤ b)
  rwa [List.take_of_length_le]
  rw [hperm.length_eq]
  exact Nat.le_trans (List.length_filter_le _ _) hl

def journalStore : JournalStore where
  toRetainingStore := retainingStore
  lists := fun _ => true
  persistenceIDs := persistenceIDs
  lists_events := fun _ _ => rfl
  listing := persistenceIDs_listing
  replay_all := fun _ _ _ _ _ hs hl => replayEvents_all hs hl
  genesis_ok := fun _ _ _ hs he _ => ⟨_, (writeRecord_conditional rfl he _).mpr ⟨hs, rfl, rfl⟩⟩
  genesis_conflict := by
    intro scope id log events hs he
    refine ⟨⟨scope, id, .genesis, some log.revision⟩, ?_⟩
    change writeRecord scope id (some log) events .genesis = _
    simp [writeRecord, conditionalLog, hs, he, WritePrecondition.valid, WritePrecondition.isUnconditional,
      WritePrecondition.isGenesis, Except.map]
  delete_none := by
    intro scope upTo hs
    change deleteEvents scope none upTo = _
    simp [deleteEvents, hs]
  delete_some := by
    intro scope log upTo hs
    change ∃ log', deleteEvents scope (some log) upTo = _
    simp only [deleteEvents, hs, Bool.not_true, Bool.false_eq_true, if_false]
    split
    · exact ⟨_, rfl⟩
    · exact ⟨_, rfl⟩

def fullSnapshotStore : FullSnapshotStore where
  toSnapshotStore := snapshotStore
  write_total := fun _ _ _ hs => ⟨_, by simp only [snapshotStore, writeSnapshot, hs]; rfl⟩
  delete_total := fun _ _ _ hs => ⟨_, by simp only [snapshotStore, deleteSnapshots, hs]; rfl⟩

end Ego.Testkit

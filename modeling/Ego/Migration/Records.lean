import Ego.Migration.TenantAdopter

/-! # Records as the stores keep them -/

namespace Ego.Migration
open Persistence

/-- The records of an id carry it. Sequence numbers start at 1 and fit in 64 bits,
as the number of events fits in an `int`, and no two snapshots share a number. -/
structure Records.WellFormed (id : String) (r : Records) : Prop where
  own_events : ∀ scope, ∀ e ∈ journal (r.log scope), e.persistenceId = id
  own_snapshots : ∀ scope, ∀ s ∈ r.snapshots scope, s.persistenceId = id
  own_state : ∀ scope, ∀ s ∈ r.state scope, s.persistenceId = id
  numbered : ∀ scope, ∀ e ∈ journal (r.log scope), 1 ≤ e.sequenceNumber ∧
    e.sequenceNumber ≤ maxReplaySequence
  counted : ∀ scope, (journal (r.log scope)).length ≤ maxReplayLimit
  distinct : ∀ scope, ∀ x ∈ r.snapshots scope, ∀ y ∈ r.snapshots scope, x.sequenceNumber =
    y.sequenceNumber → x = y

section
variable {id : String} {r : Records}

theorem Records.WellFormed.setLog (h : r.WellFormed id) {scope : Scope} {log : Option EventLog}
    (hown : ∀ e ∈ journal log, e.persistenceId = id)
    (hnumbered : ∀ e ∈ journal log, 1 ≤ e.sequenceNumber ∧ e.sequenceNumber ≤ maxReplaySequence)
    (hcounted : (journal log).length ≤ maxReplayLimit) : (r.setLog scope log).WellFormed id := by
  have hcases (p : Option EventLog → Prop) (hnew : p log) (hold : ∀ s, p (r.log s)) (s : Scope) :
      p ((r.setLog scope log).log s) := by
    by_cases hs : s = scope
    · subst hs
      simpa [Records.setLog] using hnew
    · simpa [Records.setLog, Function.update_of_ne hs] using hold s
  exact ⟨hcases (fun l => ∀ e ∈ journal l, e.persistenceId = id) hown h.own_events, h.own_snapshots, h.own_state,
    hcases (fun l => ∀ e ∈ journal l, 1 ≤ e.sequenceNumber ∧ e.sequenceNumber ≤ maxReplaySequence) hnumbered
      h.numbered,
    hcases (fun l => (journal l).length ≤ maxReplayLimit) hcounted h.counted, h.distinct⟩

theorem Records.WellFormed.setSnapshots (h : r.WellFormed id) {scope : Scope} {snapshots : List Snapshot}
    (hown : ∀ s ∈ snapshots, s.persistenceId = id)
    (hdistinct : ∀ x ∈ snapshots, ∀ y ∈ snapshots, x.sequenceNumber = y.sequenceNumber → x = y) :
    (r.setSnapshots scope snapshots).WellFormed id := by
  have hcases (p : List Snapshot → Prop) (hnew : p snapshots) (hold : ∀ s, p (r.snapshots s)) (s : Scope) :
      p ((r.setSnapshots scope snapshots).snapshots s) := by
    by_cases hs : s = scope
    · subst hs
      simpa [Records.setSnapshots] using hnew
    · simpa [Records.setSnapshots, Function.update_of_ne hs] using hold s
  exact ⟨h.own_events, hcases (fun l => ∀ s ∈ l, s.persistenceId = id) hown h.own_snapshots, h.own_state,
    h.numbered,
    h.counted, hcases (fun l => ∀ x ∈ l, ∀ y ∈ l, x.sequenceNumber = y.sequenceNumber → x = y) hdistinct
      h.distinct⟩

theorem Records.WellFormed.setState (h : r.WellFormed id) {scope : Scope} {state : DurableState}
    (hown : state.persistenceId = id) : (r.setState scope (some state)).WellFormed id := by
  refine ⟨h.own_events, h.own_snapshots, fun s x hx => ?_, h.numbered, h.counted, h.distinct⟩
  by_cases hs : s = scope
  · subst hs
    obtain rfl : state = x := by simpa [Records.setState] using hx
    exact hown
  · exact h.own_state s x (by simpa [Records.setState, Function.update_of_ne hs] using hx)

theorem Records.WellFormed.replay (h : r.WellFormed id) (store : JournalStore) {scope : Scope}
    (hs : scope.valid = true) : ∃ events,
      store.replayEvents scope (r.log scope) 1 maxReplaySequence maxReplayLimit = .ok events ∧
        events.Perm (journal (r.log scope)) := by
  obtain ⟨events, hreplay, hperm⟩ := store.replay_all scope (r.log scope) 1 maxReplaySequence maxReplayLimit hs
    (h.counted scope)
  refine ⟨events, hreplay, ?_⟩
  have hall : (journal (r.log scope)).filter
      (fun e => 1 ≤ e.sequenceNumber ∧ e.sequenceNumber ≤ maxReplaySequence) = journal (r.log scope) :=
    List.filter_eq_self.mpr fun e he => decide_eq_true (h.numbered scope e he)
  rwa [hall] at hperm

end

structure Contents.WellFormed (c : Contents) : Prop where
  records : ∀ id, (c.records id).WellFormed id
  named : ∀ scope, "" ∉ c.ids scope

end Ego.Migration

import Ego.Lib.Numbered
import Ego.Persistence.Event

/-!
# The record of one entity and the store contract (`persistence/events_store.go`)

`EventsStore` is the write contract the entity actor relies on, for one record.
-/

namespace Ego.Persistence

structure EventLog where
  revision : ℕ
  events : List Event
  unique : (events.map (·.sequenceNumber)).Nodup
  le_revision : ∀ e ∈ events, e.sequenceNumber ≤ revision
  deriving DecidableEq

def journal (log : Option EventLog) : List Event := (log.map (·.events)).getD []

def storageRevision (log : Option EventLog) : ℕ := (log.map (·.revision)).getD 0

@[simp] theorem journal_none : journal none = [] := rfl
@[simp] theorem journal_some (log : EventLog) : journal (some log) = log.events := rfl
@[simp] theorem storageRevision_none : storageRevision none = 0 := rfl
@[simp] theorem storageRevision_some (log : EventLog) : storageRevision (some log) = log.revision := rfl

theorem journal_unique (log : Option EventLog) : ((journal log).map (·.sequenceNumber)).Nodup := by
  cases log with
  | none => exact List.nodup_nil
  | some log => exact log.unique

theorem le_storageRevision {log : Option EventLog} {e : Event} (h : e ∈ journal log) :
    e.sequenceNumber ≤ storageRevision log := by
  cases log with
  | none => simp at h
  | some log => exact log.le_revision e h

def Fresh (log : Option EventLog) (events : List Event) : Prop :=
  ((journal log ++ events).map (·.sequenceNumber)).Nodup

instance (log : Option EventLog) (events : List Event) : Decidable (Fresh log events) :=
  inferInstanceAs (Decidable (List.Nodup _))

theorem fresh_of_numbered {log : Option EventLog} {events : List Event}
    (h : Lib.Numbered (·.sequenceNumber) 0 (journal log ++ events)) : Fresh log events :=
  List.nodup_iff_pairwise_ne.mpr (List.pairwise_map.mpr (h.pairwise.imp Nat.ne_of_lt))

def IsLatest (events : List Event) : Option Event → Prop
  | none => events = []
  | some e => e ∈ events ∧ ∀ x ∈ events, x.sequenceNumber ≤ e.sequenceNumber

theorem IsLatest.number {events : List Event} {latest : Option Event}
    (hl : IsLatest events latest) (hn : Lib.Numbered (·.sequenceNumber) 0 events) :
    (latest.map (·.sequenceNumber)).getD 0 = events.length := by
  cases latest with
  | none => simp [show events = [] from hl]
  | some e =>
    obtain ⟨hmem, hmax⟩ := hl
    have hle := (hn.bounds e hmem).2
    obtain ⟨init, last, rfl⟩ := (List.eq_nil_or_concat' events).resolve_left (List.ne_nil_of_mem hmem)
    have hlast := hmax last (by simp)
    have hnum : last.sequenceNumber = 0 + init.length + 1 := (Lib.numbered_append.mp hn).2.1
    simp only [Option.map_some, Option.getD_some, List.length_append, List.length_singleton]
      at hle ⊢
    omega

/-- `persistence.EventsStore` on the record of one persistence id. `writeEvents`
gives the record after the write, or the reason for which nothing was written. -/
structure EventsStore where
  writeEvents : Scope → String → Option EventLog → List Event → WritePrecondition →
    Except Err (Option EventLog)
  getLatestEvent : Scope → Option EventLog → Except Err (Option Event)
  replayEvents : Scope → Option EventLog → ℕ → ℕ → ℕ → Except Err (List Event)
  precondition_holds : ∀ scope id old events p new,
    writeEvents scope id old events p = .ok new → p.Holds (old.map (·.revision))
  appends : ∀ scope id old events p new, writeEvents scope id old events p = .ok new → Fresh old events →
      journal new = journal old ++ events
  latest_of_ok : ∀ scope log latest, getLatestEvent scope log = .ok latest → IsLatest (journal log) latest
  replay_of_ok : ∀ scope log fromSeq toSeq limit events, replayEvents scope log fromSeq toSeq limit = .ok events →
    ((journal log).Pairwise fun x y => x.sequenceNumber < y.sequenceNumber) → events = ((journal log).filter fun e =>
        fromSeq ≤ e.sequenceNumber ∧ e.sequenceNumber ≤ toSeq).take limit

end Ego.Persistence

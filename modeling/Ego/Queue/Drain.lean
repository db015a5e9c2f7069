import Ego.Queue.Queue

/-! # The consumer alone -/

namespace Ego.Queue
open Lib

variable {V : Type} {st : State V} {l : List ℕ}

def Consumer.node : Consumer V → Option ℕ
  | .read head _ | .clear head _ | .reset head _ | .put head _ => some head
  | .idle | .again | .loadNext _ | .swap _ _ | .count _ => none

def Consumer.unreset : Consumer V → Option ℕ
  | .read head _ | .clear head _ | .reset head _ => some head
  | .idle | .again | .loadNext _ | .swap _ _ | .put _ _ | .count _ => none

def Consumer.Ok (next : ℕ → Option ℕ) (first : ℕ) : Consumer V → Prop
  | .loadNext head => head = first
  | .swap head node => head = first ∧ next head = some node
  | .read head node => node = first ∧ next head ≠ none
  | .clear head _ | .reset head _ => next head ≠ none
  | .put head _ => next head = none
  | .idle | .again | .count _ => True

def Consumer.pending (value : ℕ → Option V) : Consumer V → List (Option V)
  | .read _ node => [value node]
  | .clear _ v | .reset _ v | .put _ v | .count v => [v]
  | .idle | .again | .loadNext _ | .swap _ _ => []

structure Heap (st : State V) (l : List ℕ) : Prop where
  chained : Chained st.next st.head l
  nodup : (st.head :: l).Nodup
  locals : st.consumer.Ok st.next st.head
  away : ∀ node, st.consumer.node = some node → node ∉ st.head :: l

theorem Consumer.node_of_unreset {c : Consumer V} {node : ℕ} (h : c.unreset = some node) : c.node = some node := by
  cases c with
  | read | clear | reset => exact h
  | idle | again | loadNext | swap | put | count => cases h

theorem Heap.next_of_unreset (h : Heap st l) {node : ℕ} (hnode : st.consumer.unreset = some node) :
    st.next node ≠ none := by
  have hlocals := h.locals
  cases hc : st.consumer with
  | read =>
    rw [hc] at hlocals hnode
    obtain rfl := Option.some.inj hnode
    exact hlocals.2
  | clear | reset =>
    rw [hc] at hlocals hnode
    obtain rfl := Option.some.inj hnode
    exact hlocals
  | idle | again | loadNext | swap | put | count =>
    rw [hc] at hnode
    cases hnode

def State.owed (st : State V) (l : List ℕ) : List (Option V) :=
  st.taken ++ st.consumer.pending st.value ++ l.map st.value

theorem map_update_of_notMem {f : ℕ → Option V} {node : ℕ} (h : node ∉ l) (x : Option V) :
    l.map (Function.update f node x) = l.map f := by
  refine List.map_congr_left fun n hn => ?_
  have hne : n ≠ node := fun heq => h (heq ▸ hn)
  exact Function.update_of_ne hne x f

theorem Heap.owed_update (h : Heap st l) {node : ℕ} (hn : node ∉ st.head :: l) (x : Option V) :
    { st with value := Function.update st.value node x }.owed l = st.owed l := by
  have hl : node ∉ l := fun hmem => hn (List.mem_cons_of_mem _ hmem)
  have hpending : st.consumer.pending (Function.update st.value node x) = st.consumer.pending st.value := by
    have hvars := h.locals
    cases hc : st.consumer with
    | read head next =>
      rw [hc] at hvars
      have hne : next ≠ node := fun heq => hn (by simp [← heq, hvars.1])
      rw [Consumer.pending, Consumer.pending, Function.update_of_ne hne]
    | idle | again | loadNext | swap | clear | reset | put | count => rfl
  simp only [State.owed, hpending, map_update_of_notMem hl]

def State.remaining (st : State V) (l : List ℕ) : List ℕ :=
  match st.consumer with
  | .swap _ _ => l.tail
  | _ => l

def State.distance (st : State V) (l : List ℕ) : ℕ :=
  8 * l.length + match st.consumer with
    | .read _ _ => 7
    | .clear _ _ => 6
    | .reset _ _ => 5
    | .put _ _ => 4
    | .count _ => 3
    | .idle | .again => 2
    | .loadNext _ => 1
    | .swap _ _ => 0

structure Drained (st : State V) : Prop where
  empty : st.next st.head = none
  waits : st.consumer = .idle ∨ st.consumer = .again ∨ st.consumer = .loadNext st.head

theorem Heap.swap_cons (h : Heap st l) {head next : ℕ} (hc : st.consumer = .swap head next) :
    head = st.head ∧ ∃ rest, l = next :: rest := by
  have hvars := h.locals
  rw [hc] at hvars
  obtain ⟨rfl, hnext⟩ := hvars
  cases l with
  | nil =>
    have hnone : st.next st.head = none := h.chained
    rw [hnone] at hnext
    cases hnext
  | cons b rest =>
    obtain rfl := Option.some.inj (hnext.symm.trans h.chained.1)
    exact ⟨rfl, rest, rfl⟩

theorem Consumes.heap {st' : State V} (h : Heap st l) (hstep : Consumes st st') :
    Heap st' (st.remaining l) ∧ st'.owed (st.remaining l) = st.owed l := by
  have hlocals := h.locals
  have haway := h.away
  cases hstep with
  | start hc =>
    obtain hc | hc := hc
    all_goals
      simp only [State.remaining, State.owed, hc]
      exact ⟨⟨h.chained, h.nodup, rfl, nofun⟩, rfl⟩
  | empty hc | put hc =>
    simp only [State.remaining, State.owed, hc]
    exact ⟨⟨h.chained, h.nodup, trivial, nofun⟩, rfl⟩
  | found hc hnext =>
    rw [hc] at hlocals
    simp only [State.remaining, State.owed, hc]
    exact ⟨⟨h.chained, h.nodup, ⟨hlocals, hnext⟩, nofun⟩, rfl⟩
  | @swap head next hc hhead =>
    obtain ⟨-, rest, rfl⟩ := h.swap_cons hc
    obtain ⟨hout, hrest⟩ := List.nodup_cons.mp h.nodup
    subst hhead
    simp only [State.remaining, State.owed, hc, List.tail_cons]
    refine ⟨⟨h.chained.2, hrest, ⟨rfl, ?_⟩, ?_⟩, ?_⟩
    · rw [h.chained.1]
      exact Option.some_ne_none next
    · intro node hnode
      obtain rfl := Option.some.inj hnode
      exact hout
    · simp [Consumer.pending]
  | lost hc hhead => exact absurd (h.swap_cons hc).1.symm hhead
  | read hc =>
    rw [hc] at hlocals haway
    simp only [State.remaining, State.owed, hc]
    exact ⟨⟨h.chained, h.nodup, hlocals.2, haway⟩, rfl⟩
  | @clear head v hc =>
    rw [hc] at hlocals haway
    simp only [State.remaining, State.owed, hc]
    refine ⟨⟨h.chained, h.nodup, hlocals, haway⟩, ?_⟩
    rw [map_update_of_notMem fun hmem => haway head rfl (List.mem_cons_of_mem _ hmem)]
    rfl
  | @reset head v hc =>
    rw [hc] at haway
    simp only [State.remaining, State.owed, hc]
    have hself : Function.update st.next head none head = none := Function.update_self head none st.next
    exact ⟨⟨h.chained.update (haway head rfl) none, h.nodup, hself, haway⟩, rfl⟩
  | count hc =>
    simp only [State.remaining, State.owed, hc]
    exact ⟨⟨h.chained, h.nodup, trivial, nofun⟩, by simp [Consumer.pending]⟩

theorem Consumes.nearer {st' : State V} (h : Heap st l) (hstep : Consumes st st') (hleft : ¬ Drained st) :
    st'.distance (st.remaining l) < st.distance l := by
  have hlocals := h.locals
  cases hstep with
  | start hc =>
    obtain hc | hc := hc
    all_goals
      simp only [State.remaining, State.distance, hc]
      omega
  | empty hc hnext =>
    rw [hc] at hlocals
    obtain rfl := hlocals
    exact absurd ⟨hnext, .inr (.inr hc)⟩ hleft
  | found hc hnext =>
    simp only [State.remaining, State.distance, hc]
    omega
  | swap hc hhead =>
    obtain ⟨-, rest, rfl⟩ := h.swap_cons hc
    simp only [State.remaining, State.distance, hc, List.tail_cons, List.length_cons]
    omega
  | lost hc hhead => exact absurd (h.swap_cons hc).1.symm hhead
  | read hc | clear hc | reset hc | put hc | count hc =>
    simp only [State.remaining, State.distance, hc]
    omega

theorem Drained.owed (h : Drained st) (hheap : Heap st l) : st.owed l = st.taken := by
  have hl : l = [] := by
    have hfirst := hheap.chained.next_head
    rw [h.empty] at hfirst
    exact List.head?_eq_none_iff.mp hfirst.symm
  obtain hc | hc | hc := h.waits
  all_goals simp [State.owed, hl, hc, Consumer.pending]

theorem Drained.consume (h : Drained st) : Drained st.consume ∧ st.consume.taken = st.taken := by
  unfold State.consume
  obtain hc | hc | hc := h.waits
  · rw [hc]
    exact ⟨⟨h.empty, .inr (.inr rfl)⟩, rfl⟩
  · rw [hc]
    exact ⟨⟨h.empty, .inr (.inr rfl)⟩, rfl⟩
  · rw [hc]
    simp only [h.empty]
    exact ⟨⟨h.empty, .inl rfl⟩, trivial⟩

theorem Drained.stays (h : Drained st) (k : ℕ) : (run step st (List.replicate k .consume)).taken = st.taken := by
  induction k generalizing st with
  | zero => rfl
  | succ k ih =>
    obtain ⟨hnext, htaken⟩ := h.consume
    exact (ih hnext).trans htaken

theorem Heap.drains (h : Heap st l) :
    ∃ k, ∀ m, k ≤ m → (run step st (List.replicate m .consume)).taken = st.owed l := by
  induction hd : st.distance l using Nat.strongRecOn generalizing st l with
  | _ d ih =>
    by_cases hdrained : Drained st
    · exact ⟨0, fun m _ => (hdrained.stays m).trans (hdrained.owed h).symm⟩
    · have hstep := consumes_consume st
      obtain ⟨hheap, howed⟩ := hstep.heap h
      obtain ⟨k, hk⟩ := ih _ (hd ▸ hstep.nearer h hdrained) hheap rfl
      refine ⟨k + 1, fun m hm => ?_⟩
      obtain ⟨m, rfl⟩ : ∃ m', m = m' + 1 := ⟨m - 1, by omega⟩
      rw [List.replicate_succ, run_cons, ← howed]
      exact hk m (by omega)

end Ego.Queue

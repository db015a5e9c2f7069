import Ego.Lib.Links
import Ego.Lib.Runs

/-!
# The lock-free queue (`internal/queue/queue.go`)

Every load, store and compare-and-swap is a step, and so are the plain accesses to the
value of a node and the calls of the pool.
-/

namespace Ego.Queue

inductive Producer (V : Type) where
  | idle
  | item (node : ℕ) (v : Option V)
  | start (node : ℕ) (v : Option V)
  | loadNext (node : ℕ) (v : Option V) (tail : ℕ)
  | help (node : ℕ) (v : Option V) (tail next : ℕ)
  | link (node : ℕ) (v : Option V) (tail : ℕ)
  | advance (node : ℕ) (v : Option V) (tail : ℕ)
  | count (v : Option V)
  deriving DecidableEq

inductive Consumer (V : Type) where
  | idle
  | again
  | loadNext (head : ℕ)
  | swap (head next : ℕ)
  | read (head next : ℕ)
  | clear (head : ℕ) (value : Option V)
  | reset (head : ℕ) (value : Option V)
  | put (head : ℕ) (value : Option V)
  | count (value : Option V)
  deriving DecidableEq

structure State (V : Type) where
  next : ℕ → Option ℕ
  value : ℕ → Option V
  head : ℕ
  tail : ℕ
  len : Int
  pool : List ℕ
  /-- The nodes that were never allocated start here. -/
  fresh : ℕ
  producers : ℕ → Producer V
  consumer : Consumer V
  called : List (ℕ × Option V)
  linked : List (ℕ × Option V)
  returned : List (ℕ × Option V)
  taken : List (Option V)

def newQueue (V : Type) : State V where
  next _ := none
  value _ := none
  head := 0
  tail := 0
  len := 0
  pool := []
  fresh := 1
  producers _ := .idle
  consumer := .idle
  called := []
  linked := []
  returned := []
  taken := []

inductive Label (V : Type) where
  /-- A producer calls `Enqueue` and gets the node named, if the pool has it, or a new one. -/
  | enqueue (p : ℕ) (v : Option V) (node : Option ℕ)
  | produce (p : ℕ)
  /-- The consumer calls `Dequeue` if it is in none, and goes on. -/
  | consume

section
variable {V : Type}

def State.goto (st : State V) (p : ℕ) (pc : Producer V) : State V :=
  { st with producers := Function.update st.producers p pc }

@[simp] theorem goto_self (st : State V) (p : ℕ) (pc : Producer V) : (st.goto p pc).producers p = pc := by
  simp [State.goto]

theorem goto_of_ne (st : State V) {p p' : ℕ} (h : p' ≠ p) (pc : Producer V) :
    (st.goto p pc).producers p' = st.producers p' := by
  simp [State.goto, h]

def State.reuse (st : State V) (p : ℕ) (v : Option V) (node : ℕ) : State V :=
  { st with pool := st.pool.erase node, called := st.called ++ [(p, v)] }.goto p (.item node v)

def State.allocate (st : State V) (p : ℕ) (v : Option V) : State V :=
  { st with
    next := Function.update st.next st.fresh none
    value := Function.update st.value st.fresh none
    fresh := st.fresh + 1
    called := st.called ++ [(p, v)] }.goto p (.item st.fresh v)

def State.enqueue (st : State V) (p : ℕ) (v : Option V) (node : Option ℕ) : State V :=
  match st.producers p with
  | .idle =>
    match node with
    | some node => if node ∈ st.pool then st.reuse p v node else st.allocate p v
    | none => st.allocate p v
  | _ => st

def State.swapTail (st : State V) (tail next : ℕ) : State V := if st.tail = tail then { st with tail := next } else st

/-- `CompareAndSwapPointer(&tail.next, nil, newNodePtr)` when it succeeds. -/
def State.linkNode (st : State V) (p node : ℕ) (v : Option V) (tail : ℕ) : State V :=
  { st with next := Function.update st.next tail (some node), linked := st.linked ++ [(p, v)] }.goto p
    (.advance node v tail)

def State.produce (st : State V) (p : ℕ) : State V :=
  match st.producers p with
  | .idle => st
  | .item node v => { st with value := Function.update st.value node v }.goto p (.start node v)
  | .start node v => st.goto p (.loadNext node v st.tail)
  | .loadNext node v tail =>
    match st.next tail with
    | some next => st.goto p (.help node v tail next)
    | none => st.goto p (.link node v tail)
  | .help node v tail next => (st.swapTail tail next).goto p (.start node v)
  | .link node v tail =>
    if st.next tail = none then st.linkNode p node v tail else st.goto p (.start node v)
  | .advance node v tail => (st.swapTail tail node).goto p (.count v)
  | .count v => { st with len := st.len + 1, returned := st.returned ++ [(p, v)] }.goto p .idle

def State.consume (st : State V) : State V :=
  match st.consumer with
  | .idle | .again => { st with consumer := .loadNext st.head }
  | .loadNext head =>
    match st.next head with
    | none => { st with consumer := .idle }
    | some next => { st with consumer := .swap head next }
  | .swap head next =>
    if st.head = head then { st with head := next, consumer := .read head next } else { st with consumer := .again }
  | .read head next => { st with consumer := .clear head (st.value next) }
  | .clear head v => { st with value := Function.update st.value head none, consumer := .reset head v }
  | .reset head v => { st with next := Function.update st.next head none, consumer := .put head v }
  | .put head v => { st with pool := head :: st.pool, consumer := .count v }
  | .count v => { st with len := st.len - 1, taken := st.taken ++ [v], consumer := .idle }

def step (st : State V) : Label V → State V
  | .enqueue p v node => st.enqueue p v node
  | .produce p => st.produce p
  | .consume => st.consume

inductive Produces (st : State V) : State V → Prop
  | nothing : Produces st st
  | reuse {p v node} (hp : st.producers p = .idle) (hnode : node ∈ st.pool) : Produces st (st.reuse p v node)
  | allocate {p v} (hp : st.producers p = .idle) : Produces st (st.allocate p v)
  | item {p node v} (hp : st.producers p = .item node v) :
      Produces st ({ st with value := Function.update st.value node v }.goto p (.start node v))
  | start {p node v} (hp : st.producers p = .start node v) : Produces st (st.goto p (.loadNext node v st.tail))
  | behind {p node v tail next} (hp : st.producers p = .loadNext node v tail) (hnext : st.next tail = some next) :
      Produces st (st.goto p (.help node v tail next))
  | atEnd {p node v tail} (hp : st.producers p = .loadNext node v tail) (hnext : st.next tail = none) :
      Produces st (st.goto p (.link node v tail))
  | help {p node v tail next} (hp : st.producers p = .help node v tail next) :
      Produces st ((st.swapTail tail next).goto p (.start node v))
  | link {p node v tail} (hp : st.producers p = .link node v tail) (hnext : st.next tail = none) :
      Produces st (st.linkNode p node v tail)
  | late {p node v tail} (hp : st.producers p = .link node v tail) (hnext : st.next tail ≠ none) :
      Produces st (st.goto p (.start node v))
  | advance {p node v tail} (hp : st.producers p = .advance node v tail) :
      Produces st ((st.swapTail tail node).goto p (.count v))
  | count {p v} (hp : st.producers p = .count v) :
      Produces st ({ st with len := st.len + 1, returned := st.returned ++ [(p, v)] }.goto p .idle)

theorem produces_enqueue (st : State V) (p : ℕ) (v : Option V) (node : Option ℕ) :
    Produces st (st.enqueue p v node) := by
  unfold State.enqueue
  split
  · rename_i hp
    split
    · split
      · rename_i hnode
        exact .reuse hp hnode
      · exact .allocate hp
    · exact .allocate hp
  · exact .nothing

theorem produces_produce (st : State V) (p : ℕ) : Produces st (st.produce p) := by
  unfold State.produce
  cases hp : st.producers p with
  | idle => exact .nothing
  | item node v => exact .item hp
  | start node v => exact .start hp
  | loadNext node v tail =>
    dsimp only
    split
    · rename_i next hnext
      exact .behind hp hnext
    · rename_i hnext
      exact .atEnd hp hnext
  | help node v tail next => exact .help hp
  | link node v tail =>
    dsimp only
    split
    · rename_i hnext
      exact .link hp hnext
    · rename_i hnext
      exact .late hp hnext
  | advance node v tail => exact .advance hp
  | count v => exact .count hp

inductive Consumes (st : State V) : State V → Prop
  | start (hc : st.consumer = .idle ∨ st.consumer = .again) : Consumes st { st with consumer := .loadNext st.head }
  | empty {head} (hc : st.consumer = .loadNext head) (hnext : st.next head = none) : Consumes st
      { st with consumer := .idle }
  | found {head next} (hc : st.consumer = .loadNext head) (hnext : st.next head = some next) :
      Consumes st { st with consumer := .swap head next }
  | swap {head next} (hc : st.consumer = .swap head next) (hhead : st.head = head) :
      Consumes st { st with head := next, consumer := .read head next }
  | lost {head next} (hc : st.consumer = .swap head next) (hhead : st.head ≠ head) :
      Consumes st { st with consumer := .again }
  | read {head next} (hc : st.consumer = .read head next) :
      Consumes st { st with consumer := .clear head (st.value next) }
  | clear {head v} (hc : st.consumer = .clear head v) :
      Consumes st { st with value := Function.update st.value head none, consumer := .reset head v }
  | reset {head v} (hc : st.consumer = .reset head v) :
      Consumes st { st with next := Function.update st.next head none, consumer := .put head v }
  | put {head v} (hc : st.consumer = .put head v) :
      Consumes st { st with pool := head :: st.pool, consumer := .count v }
  | count {v} (hc : st.consumer = .count v) :
      Consumes st { st with len := st.len - 1, taken := st.taken ++ [v], consumer := .idle }

theorem consumes_consume (st : State V) : Consumes st st.consume := by
  unfold State.consume
  cases hc : st.consumer with
  | idle => exact .start (.inl hc)
  | again => exact .start (.inr hc)
  | loadNext head =>
    dsimp only
    split
    · rename_i hnext
      exact .empty hc hnext
    · rename_i next hnext
      exact .found hc hnext
  | swap head next =>
    dsimp only
    split
    · rename_i hhead
      exact .swap hc hhead
    · rename_i hhead
      exact .lost hc hhead
  | read head next => exact .read hc
  | clear head v => exact .clear hc
  | reset head v => exact .reset hc
  | put head v => exact .put hc
  | count v => exact .count hc

end

end Ego.Queue

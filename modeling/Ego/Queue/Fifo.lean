import Ego.Queue.Drain

/-!
# Producers and consumer together

A producer works with the tail it loaded some steps ago.
-/

namespace Ego.Queue
open Lib

variable {V : Type} {st : State V} {l : List ℕ}

def Producer.node : Producer V → Option ℕ
  | .item node _ | .start node _ | .loadNext node _ _ | .help node _ _ _ | .link node _ _ => some node
  | .idle | .advance _ _ _ | .count _ => none

def Producer.held : Producer V → Option ℕ
  | .loadNext _ _ tail | .help _ _ tail _ | .link _ _ tail | .advance _ _ tail => some tail
  | .idle | .item _ _ | .start _ _ | .count _ => none

def Producer.follows : Producer V → Option (ℕ × ℕ)
  | .help _ _ tail next => some (tail, next)
  | .advance node _ tail => some (tail, node)
  | .idle | .item _ _ | .start _ _ | .loadNext _ _ _ | .link _ _ _ | .count _ => none

def Producer.written : Producer V → Option (ℕ × Option V)
  | .start node v | .loadNext node v _ | .help node v _ _ | .link node v _ => some (node, v)
  | .idle | .item _ _ | .advance _ _ _ | .count _ => none

variable {pc : Producer V} {tail : ℕ}

theorem Producer.held_of_follows {next : ℕ} (h : pc.follows = some (tail, next)) : pc.held = some tail := by
  cases pc with
  | help | advance => exact congrArg (Option.map Prod.fst) h
  | idle | item | start | loadNext | link | count => cases h

variable {node : ℕ} {v : Option V}

theorem Producer.node_of_written (h : pc.written = some (node, v)) : pc.node = some node := by
  cases pc with
  | start | loadNext | help | link => exact congrArg (Option.map Prod.fst) h
  | idle | item | advance | count => cases h

def Producer.calling : Producer V → Option (Option V)
  | .item _ v | .start _ v | .loadNext _ v _ | .help _ v _ _ | .link _ v _ => some v
  | .idle | .advance _ _ _ | .count _ => none

def Producer.leaving : Producer V → Option (Option V)
  | .advance _ v _ | .count v => some v
  | .idle | .item _ _ | .start _ _ | .loadNext _ _ _ | .help _ _ _ _ | .link _ _ _ => none

/-- The head moves off a node only when the tail has, and a node loses its link only when
no producer holds it as the tail. -/
def Settled (st : State V) : Label V → Prop
  | .enqueue _ _ _ | .produce _ => True
  | .consume =>
    match st.consumer with
    | .swap head _ => st.tail ≠ head
    | .reset head _ => ∀ p, (st.producers p).held ≠ some head
    | _ => True

inductive Owner where
  | chain
  | pool
  | consumer
  | producer (p : ℕ)
  deriving DecidableEq

def Owns (st : State V) (l : List ℕ) : Owner → ℕ → Prop
  | .chain, node => node ∈ st.head :: l
  | .pool, node => node ∈ st.pool
  | .consumer, node => st.consumer.node = some node
  | .producer p, node => (st.producers p).node = some node

structure Inv (st : State V) (l : List ℕ) : Prop where
  heap : Heap st l
  tail : st.tail ∈ st.head :: l
  owners : Exclusive (Owns st l)
  below : ∀ o node, Owns st l o node → node < st.fresh
  pool : st.pool.Nodup
  pooled : ∀ node ∈ st.pool, st.next node = none
  spare : ∀ p node, (st.producers p).node = some node → st.next node = none
  held : ∀ p node, (st.producers p).held = some node → node ∈ st.head :: l ∨ st.consumer.unreset = some node
  follows : ∀ p tail next, (st.producers p).follows = some (tail, next) → st.next tail = some next
  written : ∀ p node v, (st.producers p).written = some (node, v) → st.value node = v
  owed : st.owed l = st.linked.map Prod.snd

variable {p : ℕ}

theorem goto_forall (P : ℕ → Producer V → Prop) (hpc : P p pc)
    (hother : ∀ p', p' ≠ p → P p' (st.producers p')) (p' : ℕ) : P p' ((st.goto p pc).producers p') :=
  (Function.forall_update_iff st.producers P).mpr ⟨hpc, hother⟩ p'

theorem Inv.goto (h : Inv st l) (hnode : ∀ node, pc.node = some node → (st.producers p).node = some node)
    (hheld : ∀ node, pc.held = some node → node ∈ st.head :: l ∨ st.consumer.unreset = some node)
    (hfollows : ∀ tail next, pc.follows = some (tail, next) → st.next tail = some next)
    (hwritten : ∀ node v, pc.written = some (node, v) → st.value node = v) : Inv (st.goto p pc) l := by
  have howns : ∀ o node, Owns (st.goto p pc) l o node → Owns st l o node := by
    intro o node ho
    cases o with
    | chain | pool | consumer => exact ho
    | producer p' =>
      exact goto_forall (fun p' pc => pc.node = some node → (st.producers p').node = some node) (hnode node)
        (fun _ _ => id) p' ho
  exact {
    heap := { h.heap with }
    tail := h.tail
    owners := fun o o' node ho ho' => h.owners o o' node (howns o node ho) (howns o' node ho')
    below := fun o node ho => h.below o node (howns o node ho)
    pool := h.pool
    pooled := h.pooled
    spare := fun p' node hn => h.spare p' node (howns (.producer p') node hn)
    held := goto_forall (fun _ pc => ∀ node, pc.held = some node →
      node ∈ st.head :: l ∨ st.consumer.unreset = some node) hheld fun p' _ => h.held p'
    follows := goto_forall (fun _ pc => ∀ tail next, pc.follows = some (tail, next) →
      st.next tail = some next) hfollows fun p' _ => h.follows p'
    written := goto_forall (fun _ pc => ∀ node v, pc.written = some (node, v) → st.value node = v) hwritten
      fun p' _ => h.written p'
    owed := h.owed }

theorem Inv.setValue (h : Inv st l) (node : ℕ) (x : Option V) (hchain : node ∉ st.head :: l)
    (hwritten : ∀ p v, (st.producers p).written ≠ some (node, v)) :
    Inv { st with value := Function.update st.value node x } l :=
  { h with
    heap := { h.heap with }
    written := fun p n v hn => by
      have hne : n ≠ node := fun heq => hwritten p v (heq ▸ hn)
      exact (Function.update_of_ne hne x st.value).trans (h.written p n v hn)
    owed := (h.heap.owed_update hchain x).trans h.owed }

theorem Inv.swapTail (h : Inv st l) {next : ℕ} (hnext : st.next tail = some next) :
    Inv (st.swapTail tail next) l := by
  unfold State.swapTail
  split
  · rename_i htail
    have hmem := h.heap.chained.mem_of_next (htail ▸ h.tail) hnext
    exact { h with
      heap := { h.heap with }
      tail := List.mem_cons_of_mem _ hmem }
  · exact h

@[simp] theorem swapTail_producers (st : State V) (tail next : ℕ) : (st.swapTail tail next).producers =
    st.producers := by
  unfold State.swapTail
  split <;> rfl

@[simp] theorem swapTail_value (st : State V) (tail next : ℕ) : (st.swapTail tail next).value = st.value := by
  unfold State.swapTail
  split <;> rfl

theorem Consumer.Ok.update {c : Consumer V} {next : ℕ → Option ℕ} {first : ℕ} (h : c.Ok next first)
    (hfirst : node = first → next node = none) (haway : c.node ≠ some node) (x : Option ℕ) :
    c.Ok (Function.update next node x) first := by
  cases c with
  | idle | again | count => trivial
  | loadNext head => exact h
  | swap head n =>
    obtain ⟨rfl, hnext⟩ := h
    have hne : head ≠ node := by
      rintro rfl
      rw [hfirst rfl] at hnext
      cases hnext
    exact ⟨rfl, (Function.update_of_ne hne x next).trans hnext⟩
  | read head n =>
    have hne : head ≠ node := fun heq => haway (congrArg some heq)
    refine ⟨h.1, ?_⟩
    rw [Function.update_of_ne hne]
    exact h.2
  | clear head | reset head | put head =>
    have hne : head ≠ node := fun heq => haway (congrArg some heq)
    rw [Consumer.Ok, Function.update_of_ne hne]
    exact h

variable {n : ℕ}

theorem Inv.ne_of_owners (h : Inv st l) (o o' : Owner) {m : ℕ} (ho : Owns st l o n) (ho' : Owns st l o' m)
    (hne : o ≠ o') : n ≠ m := by
  rintro rfl
  exact hne (h.owners o o' n ho ho')

theorem owns_goto {o : Owner} (ho : Owns (st.goto p pc) l o n) :
    Owns st l o n ∧ o ≠ .producer p ∨ o = .producer p ∧ pc.node = some n := by
  cases o with
  | chain | pool | consumer => exact .inl ⟨ho, nofun⟩
  | producer p' =>
    by_cases heq : p' = p
    · subst heq
      rw [Owns, goto_self] at ho
      exact .inr ⟨rfl, ho⟩
    · rw [Owns, goto_of_ne st heq] at ho
      exact .inl ⟨ho, fun h => heq (Owner.producer.inj h)⟩

section
variable (h : Inv st l)
include h

theorem Inv.reuse (hnode : node ∈ st.pool) : Inv (st.reuse p v node) l := by
  have hmove : ∀ o n, Owns (st.reuse p v node) l o n → n ≠ node ∧ Owns st l o n ∨ n = node ∧
      o = .producer p := by
    intro o n ho
    obtain ⟨ho, -⟩ | ⟨rfl, hn⟩ := owns_goto ho
    · refine .inl ?_
      cases o with
      | pool =>
        obtain ⟨hne, hmem⟩ := h.pool.mem_erase_iff.mp ho
        exact ⟨hne, hmem⟩
      | chain => exact ⟨h.ne_of_owners .chain .pool ho hnode nofun, ho⟩
      | consumer => exact ⟨h.ne_of_owners .consumer .pool ho hnode nofun, ho⟩
      | producer p' => exact ⟨h.ne_of_owners (.producer p') .pool ho hnode nofun, ho⟩
    · exact .inr ⟨(Option.some.inj hn).symm, rfl⟩
  have hkept (p' n : ℕ) (hn : ((st.reuse p v node).producers p').node = some n) : st.next n = none := by
    obtain ⟨-, ho⟩ | ⟨rfl, -⟩ := hmove (.producer p') n hn
    · exact h.spare p' n ho
    · exact h.pooled n hnode
  exact {
    heap := { h.heap with }
    tail := h.tail
    owners := h.owners.transfer hmove
    below := fun o n ho => by
      obtain ⟨-, ho⟩ | ⟨rfl, -⟩ := hmove o n ho
      · exact h.below o n ho
      · exact h.below .pool n hnode
    pool := h.pool.erase node
    pooled := fun n hn => h.pooled n (List.mem_of_mem_erase hn)
    spare := hkept
    held := goto_forall (fun _ pc => ∀ n, pc.held = some n → n ∈ st.head :: l ∨
      st.consumer.unreset = some n) nofun fun p' _ => h.held p'
    follows := goto_forall (fun _ pc => ∀ t n, pc.follows = some (t, n) → st.next t = some n) nofun fun p'
      _ => h.follows p'
    written := goto_forall (fun _ pc => ∀ n x, pc.written = some (n, x) → st.value n = x) nofun fun p' _ =>
      h.written p'
    owed := h.owed }

theorem Inv.fresh_ne (o : Owner) (ho : Owns st l o n) : n ≠ st.fresh :=
  Nat.ne_of_lt (h.below o n ho)

theorem Inv.owner_of_held (hheld : (st.producers p).held = some tail) :
    ∃ o, Owns st l o tail ∧ (o = .chain ∨ o = .consumer) := by
  obtain hmem | hremoved := h.held p tail hheld
  · exact ⟨.chain, hmem, .inl rfl⟩
  · exact ⟨.consumer, Consumer.node_of_unreset hremoved, .inr rfl⟩

theorem Inv.held_ne_fresh (hheld : (st.producers p).held = some tail) : tail ≠ st.fresh := by
  obtain ⟨o, ho, -⟩ := h.owner_of_held hheld
  exact h.fresh_ne o ho

theorem Inv.allocate : Inv (st.allocate p v) l := by
  have hmove : ∀ o n, Owns (st.allocate p v) l o n → n ≠ st.fresh ∧ Owns st l o n ∨ n = st.fresh ∧
      o = .producer p := by
    intro o n ho
    obtain ⟨ho, -⟩ | ⟨rfl, hn⟩ := owns_goto ho
    · cases o with
      | chain => exact .inl ⟨h.fresh_ne .chain ho, ho⟩
      | pool => exact .inl ⟨h.fresh_ne .pool ho, ho⟩
      | consumer => exact .inl ⟨h.fresh_ne .consumer ho, ho⟩
      | producer p' => exact .inl ⟨h.fresh_ne (.producer p') ho, ho⟩
    · exact .inr ⟨(Option.some.inj hn).symm, rfl⟩
  have hchain : st.fresh ∉ st.head :: l := fun hmem => h.fresh_ne .chain hmem rfl
  have haway : st.consumer.node ≠ some st.fresh := fun hn => h.fresh_ne .consumer hn rfl
  have hnext {n : ℕ} (hne : n ≠ st.fresh) : (st.allocate p v).next n = st.next n := by
    simp [State.allocate, State.goto, hne]
  have hself : (st.allocate p v).next st.fresh = none := by simp [State.allocate, State.goto]
  have hvalue {n : ℕ} (hne : n ≠ st.fresh) : (st.allocate p v).value n = st.value n := by
    simp [State.allocate, State.goto, hne]
  exact {
    heap := {
      chained := h.heap.chained.update hchain none
      nodup := h.heap.nodup
      locals := h.heap.locals.update (fun heq => absurd (heq ▸ List.mem_cons_self) hchain) haway none
      away := h.heap.away }
    tail := h.tail
    owners := h.owners.transfer hmove
    below := fun o n ho => by
      obtain ⟨-, ho⟩ | ⟨rfl, -⟩ := hmove o n ho
      · exact Nat.lt_succ_of_lt (h.below o n ho)
      · exact Nat.lt_succ_self _
    pool := h.pool
    pooled := fun n hn => (hnext (h.fresh_ne .pool hn)).trans (h.pooled n hn)
    spare := fun p' n hn => by
      obtain ⟨hne, ho⟩ | ⟨rfl, -⟩ := hmove (.producer p') n hn
      · exact (hnext hne).trans (h.spare p' n ho)
      · exact hself
    held := goto_forall (fun _ pc => ∀ n, pc.held = some n → n ∈ st.head :: l ∨
      st.consumer.unreset = some n) (by simp [Producer.held]) fun p' _ => h.held p'
    follows := goto_forall (fun _ pc => ∀ t n, pc.follows = some (t, n) → (st.allocate p v).next t = some n)
      (by simp [Producer.follows])
      fun p' _ t n hf => (hnext (h.held_ne_fresh (Producer.held_of_follows hf))).trans (h.follows p' t n hf)
    written := goto_forall (fun _ pc => ∀ n x, pc.written = some (n, x) → (st.allocate p v).value n = x)
      (by simp [Producer.written])
      fun p' _ n x hw =>
        (hvalue (h.fresh_ne (.producer p') (Producer.node_of_written hw))).trans (h.written p' n x hw)
    owed := (h.heap.owed_update hchain none).trans h.owed }

theorem Inv.mem_of_held (hheld : (st.producers p).held = some tail)
    (hnext : st.next tail = none) : tail ∈ st.head :: l := by
  obtain hmem | hremoved := h.held p tail hheld
  · exact hmem
  · exact absurd hnext (h.heap.next_of_unreset hremoved)

theorem Inv.link {p node tail : ℕ} {v : Option V} (hp : st.producers p = .link node v tail)
    (hnext : st.next tail = none) : Inv (st.linkNode p node v tail) (l ++ [node]) := by
  have hown : Owns st l (.producer p) node := by
    rw [Owns, hp]
    rfl
  have htail : tail ∈ st.head :: l := by
    refine h.mem_of_held (p := p) ?_ hnext
    rw [hp]
    rfl
  have hchain : node ∉ st.head :: l := fun hmem => h.ne_of_owners .chain (.producer p) hmem hown nofun rfl
  have hvalue : st.value node = v := by
    refine h.written p node v ?_
    rw [hp]
    rfl
  have hlonger {n : ℕ} : n ∈ st.head :: (l ++ [node]) ↔ n ∈ st.head :: l ∨ n = node := by
    rw [← List.cons_append, List.mem_append, List.mem_singleton]
  have helse {n : ℕ} (hne : n ≠ tail) : Function.update st.next tail (some node) n = st.next n :=
    Function.update_of_ne hne _ _
  have hmove : ∀ o n, Owns (st.linkNode p node v tail) (l ++ [node]) o n →
      n ≠ node ∧ Owns st l o n ∨ n = node ∧ o = .chain := by
    intro o n ho
    obtain ⟨ho, hother⟩ | ⟨-, hn⟩ := owns_goto ho
    · cases o with
      | chain =>
        obtain hmem | rfl := hlonger.mp ho
        · exact .inl ⟨fun heq => hchain (heq ▸ hmem), hmem⟩
        · exact .inr ⟨rfl, rfl⟩
      | pool => exact .inl ⟨h.ne_of_owners .pool (.producer p) ho hown nofun, ho⟩
      | consumer => exact .inl ⟨h.ne_of_owners .consumer (.producer p) ho hown nofun, ho⟩
      | producer p' => exact .inl ⟨h.ne_of_owners (.producer p') (.producer p) ho hown hother, ho⟩
    · cases hn
  exact {
    heap := {
      chained := h.heap.chained.link h.heap.nodup htail hnext hchain (h.spare p node hown)
      nodup := by
        exact h.heap.nodup.append (List.nodup_singleton node) (List.disjoint_singleton.mpr hchain)
      locals := h.heap.locals.update (fun _ => hnext) (fun hn => h.heap.away tail hn htail) _
      away := fun n hn hmem => by
        obtain hmem | rfl := hlonger.mp hmem
        · exact h.heap.away n hn hmem
        · exact h.ne_of_owners .consumer (.producer p) hn hown nofun rfl }
    tail := hlonger.mpr (.inl h.tail)
    owners := h.owners.transfer hmove
    below := fun o n ho => by
      obtain ⟨-, ho⟩ | ⟨rfl, -⟩ := hmove o n ho
      · exact h.below o n ho
      · exact h.below (.producer p) n hown
    pool := h.pool
    pooled := fun n hn => (helse (h.ne_of_owners .pool .chain hn htail nofun)).trans (h.pooled n hn)
    spare := fun p' n hn => by
      obtain ⟨-, ho⟩ | ⟨-, ho⟩ := hmove (.producer p') n hn
      · exact (helse (h.ne_of_owners (.producer p') .chain ho htail nofun)).trans (h.spare p' n ho)
      · cases ho
    held := goto_forall (fun _ pc => ∀ n, pc.held = some n → n ∈ st.head :: (l ++ [node]) ∨
      st.consumer.unreset = some n)
      (fun n hn => .inl (hlonger.mpr (.inl (Option.some.inj hn ▸ htail))))
      fun p' _ n hn => (h.held p' n hn).imp_left fun hmem => hlonger.mpr (.inl hmem)
    follows := goto_forall (fun _ pc => ∀ t n, pc.follows = some (t, n) →
      Function.update st.next tail (some node) t = some n)
      (fun t n hf => by
        obtain ⟨rfl, rfl⟩ := Prod.mk.inj (Option.some.inj hf)
        exact Function.update_self _ _ _)
      fun p' _ t n hf => by
        have hold := h.follows p' t n hf
        have hne : t ≠ tail := by
          rintro rfl
          rw [hnext] at hold
          cases hold
        exact (helse hne).trans hold
    written := goto_forall (fun _ pc => ∀ n x, pc.written = some (n, x) → st.value n = x) nofun fun p' _ =>
      h.written p'
    owed := by
      have howed := h.owed
      simp only [State.owed] at howed
      simp only [State.owed, State.linkNode, State.goto, List.map_append, ← List.append_assoc, howed, List.map_cons,
        List.map_nil, hvalue] }

end

variable {st' : State V}

theorem Produces.inv (h : Inv st l) (hstep : Produces st st') : ∃ l', Inv st' l' := by
  cases hstep with
  | nothing => exact ⟨l, h⟩
  | reuse hp hnode => exact ⟨l, h.reuse hnode⟩
  | allocate hp => exact ⟨l, h.allocate⟩
  | @item p node v hp =>
    have hown : Owns st l (.producer p) node := by
      rw [Owns, hp]
      rfl
    -- another producer that wrote its value there would own the node too
    have hwritten : ∀ p' v', (st.producers p').written ≠ some (node, v') := by
      intro p' v' hw
      obtain rfl := Owner.producer.inj (h.owners (.producer p') (.producer p) node (Producer.node_of_written hw) hown)
      rw [hp] at hw
      cases hw
    refine ⟨l, (h.setValue node v (fun hmem => h.ne_of_owners .chain (.producer p) hmem hown nofun rfl)
      hwritten).goto ?_ nofun nofun fun n v' hw => ?_⟩
    · rw [hp]
      exact fun _ => id
    · obtain ⟨rfl, rfl⟩ := Prod.mk.inj (Option.some.inj hw)
      exact Function.update_self _ _ _
  | @start p node v hp =>
    have hold := h.written p
    rw [hp] at hold
    refine ⟨l, h.goto ?_ (fun t ht => ?_) nofun hold⟩
    · rw [hp]
      exact fun _ => id
    · obtain rfl := Option.some.inj ht
      exact .inl h.tail
  | @behind p node v tail next hp hnext =>
    have hold := h.written p
    have hheld := h.held p
    rw [hp] at hold hheld
    refine ⟨l, h.goto ?_ hheld (fun t n hf => ?_) hold⟩
    · rw [hp]
      exact fun _ => id
    · obtain ⟨rfl, rfl⟩ := Prod.mk.inj (Option.some.inj hf)
      exact hnext
  | @atEnd p node v tail hp hnext =>
    have hold := h.written p
    have hheld := h.held p
    rw [hp] at hold hheld
    refine ⟨l, h.goto ?_ hheld nofun hold⟩
    rw [hp]
    exact fun _ => id
  | @help p node v tail next hp =>
    have hold := h.written p
    have hfollows := h.follows p tail next
    rw [hp] at hold hfollows
    refine ⟨l, (h.swapTail (hfollows rfl)).goto ?_ nofun nofun ?_⟩
    · rw [swapTail_producers, hp]
      exact fun _ => id
    · rw [swapTail_value]
      exact hold
  | link hp hnext => exact ⟨_, h.link hp hnext⟩
  | @late p node v tail hp hnext =>
    have hold := h.written p
    rw [hp] at hold
    refine ⟨l, h.goto ?_ nofun nofun hold⟩
    rw [hp]
    exact fun _ => id
  | @advance p node v tail hp =>
    have hfollows := h.follows p tail node
    rw [hp] at hfollows
    exact ⟨l, (h.swapTail (hfollows rfl)).goto nofun nofun nofun nofun⟩
  | @count p v hp =>
    have hcounted : Inv { st with len := st.len + 1, returned := st.returned ++ [(p, v)] } l :=
      { h with heap := { h.heap with } }
    exact ⟨l, hcounted.goto nofun nofun nofun nofun⟩

theorem Inv.consumer (h : Inv st l) {c : Consumer V} (len : Int) (taken : List (Option V))
    (hnode : c.node = st.consumer.node) (hunreset : c.unreset = st.consumer.unreset)
    (hheap : Heap { st with len := len, taken := taken, consumer := c } l)
    (howed : { st with len := len, taken := taken, consumer := c }.owed l = st.linked.map Prod.snd) :
    Inv { st with len := len, taken := taken, consumer := c } l := by
  have howns : ∀ o n, Owns { st with len := len, taken := taken, consumer := c } l o n → Owns st l o n := by
    intro o n ho
    cases o with
    | chain | pool | producer => exact ho
    | consumer => exact hnode.symm.trans ho
  exact { h with
    heap := hheap
    owed := howed
    owners := fun o o' n ho ho' => h.owners o o' n (howns o n ho) (howns o' n ho')
    below := fun o n ho => h.below o n (howns o n ho)
    held := fun p n hn => (h.held p n hn).imp_right hunreset.trans }

theorem Inv.reset (h : Inv st l) {head : ℕ} {v : Option V} (hc : st.consumer = .reset head v)
    (hfree : ∀ p, (st.producers p).held ≠ some head)
    (hheap : Heap { st with next := Function.update st.next head none, consumer := .put head v } l)
    (howed : { st with next := Function.update st.next head none, consumer := .put head v }.owed l =
      st.linked.map Prod.snd) :
    Inv { st with next := Function.update st.next head none, consumer := .put head v } l := by
  have hcleared {n : ℕ} (hn : st.next n = none) : Function.update st.next head none n = none := by
    by_cases heq : n = head
    · rw [heq, Function.update_self]
    · rw [Function.update_of_ne heq, hn]
  have howns : ∀ o n, Owns { st with next := Function.update st.next head none, consumer := .put head v } l o n →
      Owns st l o n := by
    intro o n ho
    cases o with
    | chain | pool | producer => exact ho
    | consumer =>
      rw [Owns, hc]
      exact ho
  have hheld := h.held
  rw [hc] at hheld
  exact { h with
    heap := hheap
    owed := howed
    owners := fun o o' n ho ho' => h.owners o o' n (howns o n ho) (howns o' n ho')
    below := fun o n ho => h.below o n (howns o n ho)
    pooled := fun n hn => hcleared (h.pooled n hn)
    spare := fun p n hn => hcleared (h.spare p n hn)
    held := fun p n hn => by
      obtain hmem | hremoved := hheld p n hn
      · exact .inl hmem
      · obtain rfl := Option.some.inj hremoved
        exact absurd hn (hfree p)
    follows := fun p t n hf => by
      have hne : t ≠ head := fun heq => hfree p (heq ▸ Producer.held_of_follows hf)
      exact (Function.update_of_ne hne none st.next).trans (h.follows p t n hf) }

theorem Consumes.inv (h : Inv st l) (hok : Settled st .consume) (hstep : Consumes st st') :
    Inv st' (st.remaining l) := by
  obtain ⟨hheap, howed⟩ := hstep.heap h.heap
  replace howed := howed.trans h.owed
  have hheld := h.held
  cases hstep with
  | start hc =>
    obtain hc | hc := hc
    all_goals
      simp only [State.remaining, hc] at hheap howed ⊢
      exact h.consumer st.len st.taken (by rw [hc]; rfl) (by rw [hc]; rfl) hheap howed
  | empty hc | found hc | read hc =>
    simp only [State.remaining, hc] at hheap howed ⊢
    exact h.consumer st.len st.taken (by rw [hc]; rfl) (by rw [hc]; rfl) hheap howed
  | @swap head next hc hhead =>
    obtain ⟨-, rest, rfl⟩ := h.heap.swap_cons hc
    simp only [State.remaining, hc, List.tail_cons, Settled] at hheap howed hok ⊢
    subst hhead
    have hmove : ∀ o n, Owns { st with head := next, consumer := .read st.head next } rest o n →
        n ≠ st.head ∧ Owns st (next :: rest) o n ∨ n = st.head ∧ o = .consumer := by
      intro o n ho
      have hhead : Owns st (next :: rest) .chain st.head := List.mem_cons_self
      cases o with
      | chain =>
        refine .inl ⟨fun heq => ?_, List.mem_cons_of_mem _ ho⟩
        exact hheap.away st.head rfl (heq ▸ ho)
      | pool => exact .inl ⟨h.ne_of_owners .pool .chain ho hhead (by simp), ho⟩
      | consumer => exact .inr ⟨(Option.some.inj ho).symm, rfl⟩
      | producer p => exact .inl ⟨h.ne_of_owners (.producer p) .chain ho hhead (by simp), ho⟩
    rw [hc] at hheld
    exact { h with
      heap := hheap
      owed := howed
      tail := (List.mem_cons.mp h.tail).resolve_left hok
      owners := h.owners.transfer hmove
      below := fun o n ho => by
        obtain ⟨-, ho⟩ | ⟨rfl, -⟩ := hmove o n ho
        · exact h.below o n ho
        · exact h.below .chain _ List.mem_cons_self
      held := fun p n hn => by
        obtain hmem | hremoved := hheld p n hn
        · obtain rfl | hmem := List.mem_cons.mp hmem
          · exact .inr rfl
          · exact .inl hmem
        · cases hremoved }
  | lost hc hhead => exact absurd (h.heap.swap_cons hc).1.symm hhead
  | @clear head v hc =>
    have hown : Owns st l .consumer head := by
      rw [Owns, hc]
      rfl
    have hset := h.setValue head none (fun hmem => h.ne_of_owners .chain .consumer hmem hown (by simp) rfl)
      fun p v' hw => h.ne_of_owners (.producer p) .consumer (Producer.node_of_written hw) hown (by simp) rfl
    simp only [State.remaining, hc] at hheap howed ⊢
    exact hset.consumer st.len st.taken (by rw [hc]; rfl) (by rw [hc]; rfl) hheap howed
  | reset hc =>
    simp only [State.remaining, hc, Settled] at hheap howed hok ⊢
    exact h.reset hc hok hheap howed
  | @put head v hc =>
    simp only [State.remaining, hc] at hheap howed ⊢
    have hown : Owns st l .consumer head := by
      rw [Owns, hc]
      rfl
    have hmove : ∀ o n, Owns { st with pool := head :: st.pool, consumer := .count v } l o n →
        n ≠ head ∧ Owns st l o n ∨ n = head ∧ o = .pool := by
      intro o n ho
      cases o with
      | chain => exact .inl ⟨h.ne_of_owners .chain .consumer ho hown (by simp), ho⟩
      | pool =>
        obtain rfl | hmem := List.mem_cons.mp ho
        · exact .inr ⟨rfl, rfl⟩
        · exact .inl ⟨h.ne_of_owners .pool .consumer hmem hown (by simp), hmem⟩
      | consumer => cases ho
      | producer p => exact .inl ⟨h.ne_of_owners (.producer p) .consumer ho hown (by simp), ho⟩
    have hlocals := h.heap.locals
    rw [hc] at hheld hlocals
    exact { h with
      heap := hheap
      owed := howed
      owners := h.owners.transfer hmove
      below := fun o n ho => by
        obtain ⟨-, ho⟩ | ⟨rfl, -⟩ := hmove o n ho
        · exact h.below o n ho
        · exact h.below .consumer n hown
      pool := List.nodup_cons.mpr ⟨fun hmem => h.ne_of_owners .pool .consumer hmem hown (by simp) rfl, h.pool⟩
      pooled := List.forall_mem_cons.mpr ⟨hlocals, h.pooled⟩
      held := hheld }
  | count hc =>
    simp only [State.remaining, hc] at hheap howed ⊢
    exact h.consumer _ _ (by rw [hc]; rfl) (by rw [hc]; rfl) hheap howed

/-! ### The calls -/

def valuesOf (p : ℕ) (calls : List (ℕ × Option V)) : List (Option V) := (calls.filter (·.1 = p)).map Prod.snd

theorem valuesOf_append_self (p : ℕ) (calls : List (ℕ × Option V)) (v : Option V) :
    valuesOf p (calls ++ [(p, v)]) = valuesOf p calls ++ [v] := by
  simp [valuesOf]

theorem valuesOf_append_of_ne {p' : ℕ} (h : p' ≠ p) (calls : List (ℕ × Option V)) (v : Option V) :
    valuesOf p' (calls ++ [(p, v)]) = valuesOf p' calls := by
  simp [valuesOf, h.symm]

def Calls (st : State V) : Prop :=
  ∀ p, valuesOf p st.called = valuesOf p st.linked ++ (st.producers p).calling.toList ∧
    valuesOf p st.linked = valuesOf p st.returned ++ (st.producers p).leaving.toList

theorem Calls.goto (hpc : valuesOf p st.called = valuesOf p st.linked ++ pc.calling.toList ∧
      valuesOf p st.linked = valuesOf p st.returned ++ pc.leaving.toList)
    (hother : ∀ p', p' ≠ p → valuesOf p' st.called = valuesOf p' st.linked ++ (st.producers p').calling.toList ∧
      valuesOf p' st.linked = valuesOf p' st.returned ++ (st.producers p').leaving.toList) : Calls (st.goto p pc) :=
  goto_forall (fun p pc => valuesOf p st.called = valuesOf p st.linked ++ pc.calling.toList ∧
    valuesOf p st.linked = valuesOf p st.returned ++ pc.leaving.toList) hpc hother

theorem Calls.swapTail (h : Calls st) (tail next : ℕ) : Calls (st.swapTail tail next) := by
  unfold State.swapTail
  split <;> exact h

theorem Calls.begin (h : Calls st) {p : ℕ} {v : Option V} (hp : st.producers p = .idle) {st' : State V}
    (hcalled : st'.called = st.called ++ [(p, v)]) (hlinked : st'.linked = st.linked)
    (hreturned : st'.returned = st.returned)
    (hproducers : st'.producers = st.producers) (node : ℕ) : Calls (st'.goto p (.item node v)) := by
  have hold := h p
  rw [hp] at hold
  refine Calls.goto ?_ fun p' hne => ?_
  · rw [hcalled, hlinked, hreturned, valuesOf_append_self, hold.1]
    exact ⟨by simp [Producer.calling], hold.2⟩
  · rw [hcalled, hlinked, hreturned, hproducers, valuesOf_append_of_ne hne]
    exact h p'

theorem Produces.calls (h : Calls st) (hstep : Produces st st') : Calls st' := by
  cases hstep with
  | nothing => exact h
  | reuse hp | allocate hp =>
    refine h.begin hp ?_ ?_ ?_ ?_ _
    all_goals rfl
  | @item p _ _ hp | @start p _ _ hp | @behind p _ _ _ _ hp _ | @atEnd p _ _ _ hp _
  | @late p _ _ _ hp _ =>
    have hold := h p
    rw [hp] at hold
    exact Calls.goto hold fun p' _ => h p'
  | @help p node v tail next hp =>
    have hkept := h.swapTail tail next
    have hold := hkept p
    rw [swapTail_producers, hp] at hold
    exact Calls.goto hold fun p' _ => hkept p'
  | @advance p node v tail hp =>
    have hkept := h.swapTail tail node
    have hold := hkept p
    rw [swapTail_producers, hp] at hold
    exact Calls.goto hold fun p' _ => hkept p'
  | @link p _ _ _ hp _ | @count p _ hp =>
    have hold := h p
    rw [hp] at hold
    refine Calls.goto ?_ fun p' hne => ?_
    · rw [valuesOf_append_self, hold.1, hold.2]
      simp [Producer.calling, Producer.leaving]
    · rw [valuesOf_append_of_ne hne]
      exact h p'

theorem Consumes.calls (h : Calls st) (hstep : Consumes st st') : Calls st' := by
  cases hstep <;> exact h

/-- The tail is reachable from the head, and there is an order of calls of `Enqueue` in
which their values come out: those that came out already are the first, all the others are
obtained by the consumer alone, and then nothing more. Of each producer the order has, as
it made them, all calls that returned and none twice. -/
structure Fifo (st : State V) : Prop where
  reachable : Relation.ReflTransGen (fun a b => st.next a = some b) st.head st.tail
  obtainable : ∃ order : List (ℕ × Option V), st.taken <+: order.map Prod.snd ∧
    (∃ k, ∀ m, k ≤ m → (run step st (List.replicate m .consume)).taken = order.map Prod.snd) ∧
    ∀ p, valuesOf p st.returned <+: valuesOf p order ∧ valuesOf p order <+: valuesOf p st.called

theorem Inv.fifo (h : Inv st l) (hcalls : Calls st) : Fifo st := by
  obtain ⟨k, hk⟩ := h.heap.drains
  refine ⟨h.heap.chained.reaches h.tail, st.linked, ?_, ⟨k, fun m hm => (hk m hm).trans h.owed⟩, fun p => ?_⟩
  · rw [← h.owed, State.owed, List.append_assoc]
    exact List.prefix_append _ _
  · obtain ⟨hbegun, hended⟩ := hcalls p
    rw [hbegun, hended]
    exact ⟨List.prefix_append _ _, List.prefix_append _ _⟩

theorem owns_newQueue {o : Owner} (h : Owns (newQueue V) [] o node) : o = .chain ∧ node = 0 := by
  cases o with
  | chain => exact ⟨rfl, List.mem_singleton.mp h⟩
  | pool | consumer | producer => cases h

theorem inv_newQueue : Inv (newQueue V) [] where
  heap := ⟨rfl, List.nodup_singleton 0, trivial, nofun⟩
  tail := List.mem_singleton_self 0
  owners := fun o o' n ho ho' => (owns_newQueue ho).1.trans (owns_newQueue ho').1.symm
  below := fun o n ho => by
    rw [(owns_newQueue ho).2]
    exact Nat.one_pos
  pool := List.nodup_nil
  pooled := nofun
  spare := nofun
  held := nofun
  follows := nofun
  written := nofun
  owed := rfl

/-- A run in which the head and the resets never overtake the tail and its holders. -/
theorem queue_fifo {labels : List (Label V)} (h : Along step Settled (newQueue V) labels) :
    Fifo (run step (newQueue V) labels) := by
  have hinv : (∃ l, Inv (run step (newQueue V) labels) l) ∧ Calls (run step (newQueue V) labels) := by
    refine run_invariant step (fun st => (∃ l, Inv st l) ∧ Calls st) ?_
      ⟨⟨[], inv_newQueue⟩, fun _ => ⟨rfl, rfl⟩⟩ h
    rintro st label ⟨⟨l, hinv⟩, hcalls⟩ hok
    cases label with
    | enqueue p v node => exact ⟨(produces_enqueue st p v node).inv hinv,
        (produces_enqueue st p v node).calls hcalls⟩
    | produce p => exact ⟨(produces_produce st p).inv hinv, (produces_produce st p).calls hcalls⟩
    | consume => exact ⟨⟨_, (consumes_consume st).inv hinv hok⟩, (consumes_consume st).calls hcalls⟩
  obtain ⟨⟨l, hinv⟩, hcalls⟩ := hinv
  exact hinv.fifo hcalls

def overtaking : List (Label ℕ) :=
  .enqueue 1 (some 10) none :: List.replicate 4 (.produce 1) ++ List.replicate 8 .consume ++
    .enqueue 2 (some 20) none :: List.replicate 6 (.produce 2)

theorem overtaking_loses : (2, some 20) ∈ (run step (newQueue ℕ) overtaking).returned ∧
    (∀ m, some 20 ∉ (run step (run step (newQueue ℕ) overtaking) (List.replicate m .consume)).taken) ∧
    ¬ Relation.ReflTransGen (fun a b => (run step (newQueue ℕ) overtaking).next a = some b)
      (run step (newQueue ℕ) overtaking).head (run step (newQueue ℕ) overtaking).tail := by
  have hdrained : Drained (run step (newQueue ℕ) overtaking) := ⟨by decide, by decide⟩
  refine ⟨by decide, fun m => ?_, fun hreach => ?_⟩
  · rw [hdrained.stays m]
    decide
  · obtain heq | ⟨b, hb, -⟩ := Relation.ReflTransGen.cases_head hreach
    · exact absurd heq (by decide)
    · rw [hdrained.empty] at hb
      cases hb

def orderly : List (Label ℕ) :=
  .enqueue 1 (some 10) none :: List.replicate 6 (.produce 1) ++ .enqueue 1 (some 20) none :: List.replicate 6
    (.produce 1) ++
    List.replicate 8 .consume

theorem queue_fifo_orderly : Fifo (run step (newQueue ℕ) orderly) := by
  refine queue_fifo ?_
  refine ⟨trivial, trivial, trivial, trivial, trivial, trivial, trivial, trivial, trivial, trivial, trivial,
    trivial, trivial,
    trivial, trivial, trivial, ?_, trivial, trivial, ?_, trivial, trivial, trivial⟩
  · exact (by decide : (2 : ℕ) ≠ 0)
  · intro p
    simp [step, State.produce, State.enqueue, State.consume, State.allocate, State.linkNode, State.swapTail, State.goto,
      newQueue, Producer.held]

end Ego.Queue

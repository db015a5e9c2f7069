import Ego.Lib.Runs
import Mathlib.Data.List.Basic

/-! # The event stream (`eventstream/stream.go`, `eventstream/subscriber.go`) -/

namespace Ego.Eventstream
open Lib

structure Message (P : Type) where
  topic : String
  payload : P
  publisher : ℕ
  number : ℕ

/-- The loop of a consumer: blocked on `Ready`, or in `Iterator` before the load of
`active` or before the dequeue. -/
inductive Consumer where
  | waiting
  | checking
  | dequeuing
  deriving DecidableEq

structure Subscriber (P : Type) where
  active : Bool
  topics : List String
  messages : List (Message P)
  -- the slot of the wake-up channel
  notify : Bool
  consumer : Consumer
  -- what the consumer got out of `Iterator` so far
  drained : List (Message P)

def Subscriber.log {P : Type} (x : Subscriber P) : List (Message P) := x.drained ++ x.messages

/-- Where a goroutine is in its call. The maps of the stream are numbered. -/
inductive Pc (P : Type) where
  | idle
  -- `Subscribe`
  | subscribing (sub : ℕ) (topic : String)
  | joining (sub : ℕ) (topic : String)
  | lookingUp (sub : ℕ) (topic : String)
  | found (sub : ℕ) (topic : String) (m : ℕ)
  | inserting (sub : ℕ) (topic : String) (m : ℕ)
  | creating (sub : ℕ) (topic : String)
  -- `Unsubscribe`
  | unsubscribing (sub : ℕ) (topic : String)
  | leavingLookup (sub : ℕ) (topic : String)
  | leavingFound (sub : ℕ) (topic : String) (m : ℕ)
  | deleting (sub : ℕ) (topic : String) (m : ℕ)
  -- `Publish`, with the subscribers its `Range` has still to visit
  | publishing (msg : Message P)
  | matched (msg : Message P) (m : ℕ)
  | ranging (msg : Message P) (m : ℕ) (rest : List ℕ)
  | visiting (msg : Message P) (m : ℕ) (rest : List ℕ) (sub : ℕ)
  | signalling (msg : Message P) (m : ℕ) (rest : List ℕ) (sub : ℕ)
  | enqueuing (msg : Message P) (m : ℕ) (rest : List ℕ) (sub : ℕ)
  | notifying (msg : Message P) (m : ℕ) (rest : List ℕ) (sub : ℕ)
  -- `Shutdown`
  | shuttingDown (sub : ℕ)
  | waking (sub : ℕ)

structure Stream (P : Type) where
  topics : String → Option ℕ
  maps : ℕ → List ℕ
  -- the `Range` calls that hold the read lock of a map
  readers : ℕ → ℕ
  fresh : ℕ
  subs : ℕ → Subscriber P
  threads : ℕ → Pc P
  -- the messages a goroutine has published
  published : ℕ → ℕ
  -- a `Subscribe` has returned, and no `Unsubscribe` has started or ended since
  member : ℕ → String → Bool

inductive Op (P : Type) where
  | subscribe (sub : ℕ) (topic : String)
  | unsubscribe (sub : ℕ) (topic : String)
  | publish (topic : String) (payload : P)
  | shutdown (sub : ℕ)

/-- `visit` is the choice of the next subscriber in a `Range`. The last three are the
steps of a subscriber's consumer. -/
inductive Label (P : Type) where
  | call (th : ℕ) (op : Op P)
  | step (th : ℕ)
  | visit (th : ℕ) (sub : ℕ)
  | wake (sub : ℕ)
  | check (sub : ℕ)
  | dequeue (sub : ℕ)

section
variable {P : Type}

def Stream.start : Stream P where
  topics := fun _ => none
  maps := fun _ => []
  readers := fun _ => 0
  fresh := 0
  subs := fun _ => ⟨true, [], [], false, .waiting, []⟩
  threads := fun _ => .idle
  published := fun _ => 0
  member := fun _ _ => false

variable (st : Stream P)

def Stream.goto (th : ℕ) (pc : Pc P) : Stream P := { st with threads := Function.update st.threads th pc }

def Stream.onSub (sub : ℕ) (f : Subscriber P → Subscriber P) : Stream P :=
  { st with subs := Function.update st.subs sub (f (st.subs sub)) }

def Stream.setMember (sub : ℕ) (topic : String) (b : Bool) : Stream P :=
  { st with member := Function.update st.member sub (Function.update (st.member sub) topic b) }

def Stream.setMap (m : ℕ) (subs : List ℕ) : Stream P := { st with maps := Function.update st.maps m subs }

def Stream.setReaders (m n : ℕ) : Stream P := { st with readers := Function.update st.readers m n }

def callStep (th : ℕ) (op : Op P) : Stream P :=
  match st.threads th with
  | .idle =>
    match op with
    | .subscribe sub topic => st.goto th (.subscribing sub topic)
    | .unsubscribe sub topic => (st.setMember sub topic false).goto th (.unsubscribing sub topic)
    | .publish topic payload =>
      { st.goto th (.publishing ⟨topic, payload, th, st.published th⟩) with
        published := Function.update st.published th (st.published th + 1) }
    | .shutdown sub => st.goto th (.shuttingDown sub)
  | _ => st

/-- Writes to a map wait for the `Range` calls on it. -/
def threadStep (th : ℕ) : Stream P :=
  match st.threads th with
  | .idle => st
  | .subscribing sub topic =>
    if (st.subs sub).active then st.goto th (.joining sub topic) else st.goto th .idle
  | .joining sub topic =>
    (st.onSub sub fun x => { x with topics := x.topics.insert topic }).goto th (.lookingUp sub topic)
  | .lookingUp sub topic =>
    match st.topics topic with
    | some m => st.goto th (.found sub topic m)
    | none => st.goto th (.creating sub topic)
  | .found sub topic m =>
    if st.maps m ≠ [] then st.goto th (.inserting sub topic m) else st.goto th (.creating sub topic)
  | .inserting sub topic m =>
    if st.readers m = 0 then
      ((st.setMap m ((st.maps m).insert sub)).setMember sub topic true).goto th .idle
    else st
  | .creating sub topic =>
    { ((st.setMap st.fresh [sub]).setMember sub topic true).goto th .idle with
      topics := Function.update st.topics topic (some st.fresh), fresh := st.fresh + 1 }
  | .unsubscribing sub topic =>
    (st.onSub sub fun x => { x with topics := x.topics.erase topic }).goto th (.leavingLookup sub topic)
  | .leavingLookup sub topic =>
    match st.topics topic with
    | some m => st.goto th (.leavingFound sub topic m)
    | none => (st.setMember sub topic false).goto th .idle
  | .leavingFound sub topic m =>
    if st.maps m ≠ [] then st.goto th (.deleting sub topic m)
    else (st.setMember sub topic false).goto th .idle
  | .deleting sub topic m =>
    if st.readers m = 0 then
      ((st.setMap m ((st.maps m).erase sub)).setMember sub topic false).goto th .idle
    else st
  | .publishing msg =>
    match st.topics msg.topic with
    | some m => st.goto th (.matched msg m)
    | none => st.goto th .idle
  | .matched msg m =>
    if st.maps m ≠ [] then (st.setReaders m (st.readers m + 1)).goto th (.ranging msg m (st.maps m))
    else st.goto th .idle
  | .ranging _ m rest =>
    match rest with
    | [] => (st.setReaders m (st.readers m - 1)).goto th .idle
    | _ => st
  | .visiting msg m rest sub =>
    if (st.subs sub).active then st.goto th (.signalling msg m rest sub) else st.goto th (.ranging msg m rest)
  | .signalling msg m rest sub =>
    if (st.subs sub).active then st.goto th (.enqueuing msg m rest sub) else st.goto th (.ranging msg m rest)
  | .enqueuing msg m rest sub =>
    (st.onSub sub fun x => { x with messages := x.messages ++ [msg] }).goto th (.notifying msg m rest sub)
  | .notifying msg m rest sub =>
    (st.onSub sub fun x => { x with notify := true }).goto th (.ranging msg m rest)
  | .shuttingDown sub => (st.onSub sub fun x => { x with active := false }).goto th (.waking sub)
  | .waking sub => (st.onSub sub fun x => { x with notify := true }).goto th .idle

def step : Label P → Stream P
  | .call th op => callStep st th op
  | .step th => threadStep st th
  | .visit th sub =>
    match st.threads th with
    | .ranging msg m rest => if sub ∈ rest then st.goto th (.visiting msg m (rest.erase sub) sub) else st
    | _ => st
  | .wake sub =>
    if (st.subs sub).consumer = .waiting ∧ (st.subs sub).notify = true then
      st.onSub sub fun x => { x with notify := false, consumer := .checking }
    else st
  | .check sub =>
    if (st.subs sub).consumer = .checking then
      st.onSub sub fun x => { x with consumer := if x.active then .dequeuing else .waiting }
    else st
  | .dequeue sub =>
    if (st.subs sub).consumer = .dequeuing then
      match (st.subs sub).messages with
      | [] => st.onSub sub fun x => { x with consumer := .waiting }
      | msg :: rest =>
        st.onSub sub fun x => { x with messages := rest, drained := x.drained ++ [msg], consumer := .checking }
    else st

inductive Move : Label P → Stream P → Prop
  | rest {l} : Move l st
  | callSubscribe {th sub topic} (h : st.threads th = .idle) :
      Move (.call th (.subscribe sub topic)) (st.goto th (.subscribing sub topic))
  | callUnsubscribe {th sub topic} (h : st.threads th = .idle) :
      Move (.call th (.unsubscribe sub topic)) ((st.setMember sub topic false).goto th (.unsubscribing sub topic))
  | callPublish {th topic payload} (h : st.threads th = .idle) :
      Move (.call th (.publish topic payload))
        { st.goto th (.publishing ⟨topic, payload, th, st.published th⟩) with
          published := Function.update st.published th (st.published th + 1) }
  | callShutdown {th sub} (h : st.threads th = .idle) :
      Move (.call th (.shutdown sub)) (st.goto th (.shuttingDown sub))
  -- only an active subscriber is subscribed
  | subscribing {th sub topic} (h : st.threads th = .subscribing sub topic) (ha : (st.subs sub).active = true) :
      Move (.step th) (st.goto th (.joining sub topic))
  | inactive {th sub topic} (h : st.threads th = .subscribing sub topic) : Move (.step th) (st.goto th .idle)
  | joining {th sub topic} (h : st.threads th = .joining sub topic) :
      Move (.step th)
        ((st.onSub sub fun x => { x with topics := x.topics.insert topic }).goto th (.lookingUp sub topic))
  | found {th sub topic m} (h : st.threads th = .lookingUp sub topic) (hm : st.topics topic = some m) :
      Move (.step th) (st.goto th (.found sub topic m))
  | absent {th sub topic} (h : st.threads th = .lookingUp sub topic) (hm : st.topics topic = none) :
      Move (.step th) (st.goto th (.creating sub topic))
  | nonempty {th sub topic m} (h : st.threads th = .found sub topic m) :
      Move (.step th) (st.goto th (.inserting sub topic m))
  | empty {th sub topic m} (h : st.threads th = .found sub topic m) (hm : st.maps m = []) :
      Move (.step th) (st.goto th (.creating sub topic))
  | insert {th sub topic m} (h : st.threads th = .inserting sub topic m) :
      Move (.step th) (((st.setMap m ((st.maps m).insert sub)).setMember sub topic true).goto th .idle)
  | create {th sub topic} (h : st.threads th = .creating sub topic) :
      Move (.step th) { ((st.setMap st.fresh [sub]).setMember sub topic true).goto th .idle with
        topics := Function.update st.topics topic (some st.fresh), fresh := st.fresh + 1 }
  | unsubscribing {th sub topic} (h : st.threads th = .unsubscribing sub topic) :
      Move (.step th)
        ((st.onSub sub fun x => { x with topics := x.topics.erase topic }).goto th (.leavingLookup sub topic))
  | leavingFound {th sub topic m} (h : st.threads th = .leavingLookup sub topic) (hm : st.topics topic = some m) :
      Move (.step th) (st.goto th (.leavingFound sub topic m))
  | notThere {th sub topic} (h : st.threads th = .leavingLookup sub topic ∨
      ∃ m, st.threads th = .leavingFound sub topic m) :
      Move (.step th) ((st.setMember sub topic false).goto th .idle)
  | deleting {th sub topic m} (h : st.threads th = .leavingFound sub topic m) :
      Move (.step th) (st.goto th (.deleting sub topic m))
  | delete {th sub topic m} (h : st.threads th = .deleting sub topic m) :
      Move (.step th) (((st.setMap m ((st.maps m).erase sub)).setMember sub topic false).goto th .idle)
  | matched {th msg m} (h : st.threads th = .publishing msg) (hm : st.topics msg.topic = some m) :
      Move (.step th) (st.goto th (.matched msg m))
  -- nobody is subscribed to the topic
  | unheard {th msg} (h : st.threads th = .publishing msg ∧ st.topics msg.topic = none ∨
        ∃ m, st.threads th = .matched msg m ∧ st.maps m = []) :
      Move (.step th) (st.goto th .idle)
  | range {th msg m} (h : st.threads th = .matched msg m) :
      Move (.step th) ((st.setReaders m (st.readers m + 1)).goto th (.ranging msg m (st.maps m)))
  | rangeEnds {th msg m} (h : st.threads th = .ranging msg m []) :
      Move (.step th) ((st.setReaders m (st.readers m - 1)).goto th .idle)
  | visit {th msg m rest sub} (h : st.threads th = .ranging msg m rest) (hs : sub ∈ rest) :
      Move (.visit th sub) (st.goto th (.visiting msg m (rest.erase sub) sub))
  | signalling {th msg m rest sub} (h : st.threads th = .visiting msg m rest sub) :
      Move (.step th) (st.goto th (.signalling msg m rest sub))
  | enqueuing {th msg m rest sub} (h : st.threads th = .signalling msg m rest sub) :
      Move (.step th) (st.goto th (.enqueuing msg m rest sub))
  -- a subscriber that was shut down is passed over
  | passOver {th msg m rest sub} (h : st.threads th = .visiting msg m rest sub ∨
        st.threads th = .signalling msg m rest sub) (ha : (st.subs sub).active = false) :
      Move (.step th) (st.goto th (.ranging msg m rest))
  | enqueue {th msg m rest sub} (h : st.threads th = .enqueuing msg m rest sub) :
      Move (.step th)
        ((st.onSub sub fun x => { x with messages := x.messages ++ [msg] }).goto th (.notifying msg m rest sub))
  | notify {th msg m rest sub} (h : st.threads th = .notifying msg m rest sub) :
      Move (.step th) ((st.onSub sub fun x => { x with notify := true }).goto th (.ranging msg m rest))
  | shutdown {th sub} (h : st.threads th = .shuttingDown sub) :
      Move (.step th) ((st.onSub sub fun x => { x with active := false }).goto th (.waking sub))
  | waking {th sub} (h : st.threads th = .waking sub) :
      Move (.step th) ((st.onSub sub fun x => { x with notify := true }).goto th .idle)
  | wake {sub} (hc : (st.subs sub).consumer = .waiting) :
      Move (.wake sub) (st.onSub sub fun x => { x with notify := false, consumer := .checking })
  | checkActive {sub} (hc : (st.subs sub).consumer = .checking) (ha : (st.subs sub).active = true) :
      Move (.check sub) (st.onSub sub fun x => { x with consumer := .dequeuing })
  | checkInactive {sub} (ha : (st.subs sub).active = false) :
      Move (.check sub) (st.onSub sub fun x => { x with consumer := .waiting })
  | drained {sub} (hm : (st.subs sub).messages = []) :
      Move (.dequeue sub) (st.onSub sub fun x => { x with consumer := .waiting })
  | dequeue {sub msg rest} (hc : (st.subs sub).consumer = .dequeuing) (hm : (st.subs sub).messages = msg :: rest) :
      Move (.dequeue sub) (st.onSub sub fun x =>
        { x with messages := rest, drained := x.drained ++ [msg], consumer := .checking })

variable {st}

theorem callStep_move (th : ℕ) (op : Op P) : Move st (.call th op) (callStep st th op) := by
  unfold callStep
  split
  · rename_i h
    cases op with
    | subscribe sub topic => exact .callSubscribe h
    | unsubscribe sub topic => exact .callUnsubscribe h
    | publish topic payload => exact .callPublish h
    | shutdown sub => exact .callShutdown h
  · exact .rest

theorem threadStep_move (th : ℕ) : Move st (.step th) (threadStep st th) := by
  unfold threadStep
  split
  · exact .rest
  · rename_i h
    split
    · exact .subscribing h ‹_›
    · exact .inactive h
  · exact .joining ‹_›
  · rename_i h
    split
    · exact .found h ‹_›
    · exact .absent h ‹_›
  · rename_i h
    split
    · exact .nonempty h
    · rename_i hm
      exact .empty h (by simpa using hm)
  · rename_i h
    split
    · exact .insert h
    · exact .rest
  · exact .create ‹_›
  · exact .unsubscribing ‹_›
  · rename_i h
    split
    · exact .leavingFound h ‹_›
    · exact .notThere (.inl h)
  · rename_i h
    split
    · exact .deleting h
    · exact .notThere (.inr ⟨_, h⟩)
  · rename_i h
    split
    · exact .delete h
    · exact .rest
  · rename_i h
    split
    · exact .matched h ‹_›
    · exact .unheard (.inl ⟨h, ‹_›⟩)
  · rename_i h
    split
    · exact .range h
    · rename_i hm
      exact .unheard (.inr ⟨_, h, by simpa using hm⟩)
  · rename_i h
    split
    · exact .rangeEnds h
    · exact .rest
  · rename_i h
    split
    · exact .signalling h
    · rename_i ha
      exact .passOver (.inl h) (by simpa using ha)
  · rename_i h
    split
    · exact .enqueuing h
    · rename_i ha
      exact .passOver (.inr h) (by simpa using ha)
  · exact .enqueue ‹_›
  · exact .notify ‹_›
  · exact .shutdown ‹_›
  · exact .waking ‹_›

theorem step_move (st : Stream P) (l : Label P) : Move st l (step st l) := by
  cases l with
  | call th op => exact callStep_move th op
  | step th => exact threadStep_move th
  | visit th sub =>
    simp only [step]
    split
    · split
      · exact .visit ‹_› ‹_›
      · exact .rest
    · exact .rest
  | wake sub =>
    simp only [step]
    split
    · rename_i h
      exact .wake h.1
    · exact .rest
  | check sub =>
    simp only [step]
    split
    · rename_i hc
      cases ha : (st.subs sub).active with
      | true =>
        have hmove := Move.checkActive hc ha
        simpa [Stream.onSub, ha] using hmove
      | false =>
        have hmove : Move st (.check sub) (st.onSub sub fun x => { x with consumer := .waiting }) :=
          .checkInactive ha
        simpa [Stream.onSub, ha] using hmove
    · exact .rest
  | dequeue sub =>
    simp only [step]
    split
    · split
      · exact .drained ‹_›
      · exact .dequeue ‹_› ‹_›
    · exact .rest

end

end Ego.Eventstream

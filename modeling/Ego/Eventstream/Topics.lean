import Ego.Eventstream.Stream
import Mathlib.Data.List.Nodup

/-!
# The maps of the topics

`Subscribe` looks the topic's map up, and replaces it if there is none or it is empty.
-/

namespace Ego.Eventstream

section
variable {P : Type}

def Pc.leaving? : Pc P → Option (ℕ × String)
  | .unsubscribing sub topic | .leavingLookup sub topic | .leavingFound sub topic _ | .deleting sub topic _ =>
    some (sub, topic)
  | _ => none

def Pc.holds? : Pc P → Option (String × ℕ)
  | .found _ topic m | .inserting _ topic m | .leavingFound _ topic m | .deleting _ topic m => some (topic, m)
  | _ => none

/-- `Subscribe` has returned, the subscriber is active, and it is not being
unsubscribed. -/
def Subscribed (st : Stream P) (sub : ℕ) (topic : String) : Prop :=
  st.member sub topic = true ∧ (st.subs sub).active = true ∧ ∀ th, (st.threads th).leaving? ≠ some (sub, topic)

/-- A `Subscribe` of a watched topic that writes finds the topic as it looked it up: the map
it adds to is still the topic's, and the one it replaces is still missing or empty. -/
def undisturbed (watched : String → Bool) (st : Stream P) : Label P → Bool
  | .step th =>
    match st.threads th with
    | .inserting _ topic m => !watched topic || st.topics topic == some m
    | .creating _ topic => !watched topic || (st.topics topic).all fun m => (st.maps m).isEmpty
    | _ => true
  | _ => true

structure TopicInv (watched : String → Bool) (st : Stream P) : Prop where
  nodup : ∀ m, (st.maps m).Nodup
  bounded : ∀ t m, st.topics t = some m → m < st.fresh
  injective : ∀ t t' m, st.topics t = some m → st.topics t' = some m → t = t'
  held : ∀ th t m, (st.threads th).holds? = some (t, m) → m < st.fresh ∧ ∀ t', st.topics t' = some m → t' = t
  mapped : ∀ s t, watched t = true → Subscribed st s t → ∃ m, st.topics t = some m ∧ s ∈ st.maps m

variable {watched : String → Bool} {st st' : Stream P} {th : ℕ} {pc : Pc P}

@[simp] theorem goto_self : (st.goto th pc).threads th = pc := Function.update_self ..

@[simp] theorem goto_subs : (st.goto th pc).subs = st.subs := rfl

theorem goto_of_ne {x : ℕ} (h : x ≠ th) : (st.goto th pc).threads x = st.threads x := Function.update_of_ne h ..

structure Turn (st : Stream P) (th : ℕ) (pc : Pc P) (st' : Stream P) : Prop where
  topics : st'.topics = st.topics
  maps : st'.maps = st.maps
  fresh : st'.fresh = st.fresh
  threads : st'.threads = Function.update st.threads th pc
  active : ∀ s, (st'.subs s).active = true → (st.subs s).active = true
  member : ∀ s t, st'.member s t = true → st.member s t = true

theorem Turn.goto (st : Stream P) (th : ℕ) (pc : Pc P) : Turn st th pc (st.goto th pc) :=
  ⟨rfl, rfl, rfl, rfl, fun _ h => h, fun _ _ h => h⟩

theorem onSub_self (st : Stream P) (sub : ℕ) (f : Subscriber P → Subscriber P) :
    (st.onSub sub f).subs sub = f (st.subs sub) := Function.update_self ..

variable {sub s : ℕ}

theorem onSub_of_ne (st : Stream P) (f : Subscriber P → Subscriber P) (h : s ≠ sub) :
    (st.onSub sub f).subs s = st.subs s := Function.update_of_ne h ..

variable {f : Subscriber P → Subscriber P}

theorem onSub_active (st : Stream P)
    (hf : ∀ x, (f x).active = true → x.active = true) (h : ((st.onSub sub f).subs s).active = true) :
    (st.subs s).active = true := by
  by_cases hs : s = sub
  · subst hs
    refine hf _ ?_
    rw [← onSub_self st s f]
    exact h
  · rw [← onSub_of_ne st f hs]
    exact h

theorem Turn.onSub (st : Stream P) (th : ℕ) (pc : Pc P) (sub : ℕ)
    (hf : ∀ x, (f x).active = true → x.active = true) : Turn st th pc ((st.onSub sub f).goto th pc) :=
  ⟨rfl, rfl, rfl, rfl, fun _ h => onSub_active st hf h, fun _ _ h => h⟩

theorem setMember_self (st : Stream P) (sub : ℕ) (topic : String) (b : Bool) :
    (st.setMember sub topic b).member sub topic = b := by
  simp [Stream.setMember]

variable {topic t : String}

theorem setMember_of_ne (st : Stream P) (b : Bool) (h : (s, t) ≠ (sub, topic)) :
    (st.setMember sub topic b).member s t = st.member s t := by
  by_cases hs : s = sub
  · subst hs
    have ht : t ≠ topic := fun ht => h (by rw [ht])
    simp [Stream.setMember, Function.update_of_ne ht]
  · simp [Stream.setMember, Function.update_of_ne hs]

theorem Turn.setMember (st : Stream P) (th : ℕ) (pc : Pc P) (sub : ℕ) (topic : String) :
    Turn st th pc ((st.setMember sub topic false).goto th pc) := by
  refine ⟨rfl, rfl, rfl, rfl, fun _ h => h, fun s t h => ?_⟩
  by_cases hst : (s, t) = (sub, topic)
  · obtain ⟨rfl, rfl⟩ := Prod.mk.inj hst
    exact absurd ((setMember_self st s t false).symm.trans h) (by simp)
  · exact (setMember_of_ne st false hst).symm.trans h

theorem Turn.subscribed (h : Turn st th pc st')
    (hleave : (st.threads th).leaving? = some (s, t) → pc.leaving? = some (s, t) ∨ st'.member s t = false)
    (hs : Subscribed st' s t) : Subscribed st s t := by
  obtain ⟨hmember, hactive, hnone⟩ := hs
  refine ⟨h.member s t hmember, h.active s hactive, fun x hx => ?_⟩
  by_cases hxt : x = th
  · subst hxt
    rcases hleave hx with hpc | hfalse
    · exact hnone x (by rw [h.threads, Function.update_self, hpc])
    · rw [hfalse] at hmember
      cases hmember
  · exact hnone x (by rw [h.threads, Function.update_of_ne hxt, hx])

section
variable (h : TopicInv watched st)
include h

theorem TopicInv.turn (hturn : Turn st th pc st')
    (hleave : ∀ s t, (st.threads th).leaving? = some (s, t) → pc.leaving? = some (s, t) ∨ st'.member s t = false)
    (hheld : ∀ t m, pc.holds? = some (t, m) → (st.threads th).holds? = some (t, m) ∨ st.topics t = some m) :
    TopicInv watched st' := by
  refine ⟨?_, ?_, ?_, ?_, ?_⟩
  · rw [hturn.maps]
    exact h.nodup
  · rw [hturn.topics, hturn.fresh]
    exact h.bounded
  · rw [hturn.topics]
    exact h.injective
  · intro x t m hx
    rw [hturn.topics, hturn.fresh]
    rw [hturn.threads] at hx
    by_cases hxt : x = th
    · subst hxt
      rw [Function.update_self] at hx
      rcases hheld t m hx with hold | hnow
      · exact h.held x t m hold
      · exact ⟨h.bounded t m hnow, fun t' ht' => h.injective t' t m ht' hnow⟩
    · rw [Function.update_of_ne hxt] at hx
      exact h.held x t m hx
  · intro s t hw hs
    rw [hturn.topics, hturn.maps]
    exact h.mapped s t hw (hturn.subscribed (hleave s t) hs)

theorem TopicInv.neutral (hturn : Turn st th pc st') (hold : (st.threads th).leaving? = none)
    (hnew : pc.holds? = none) : TopicInv watched st' :=
  h.turn hturn (by simp [hold]) (by simp [hnew])

theorem TopicInv.onSub (sub : ℕ)
    (hf : ∀ x, (f x).active = true → x.active = true) : TopicInv watched (st.onSub sub f) := by
  have hsub (s : ℕ) (t : String) (hs : Subscribed (st.onSub sub f) s t) : Subscribed st s t :=
    ⟨hs.1, onSub_active st hf hs.2.1, hs.2.2⟩
  exact ⟨h.nodup, h.bounded, h.injective, h.held, fun s t hw hs => h.mapped s t hw (hsub s t hs)⟩

theorem TopicInv.finish (hthreads : st'.threads = Function.update st.threads th .idle)
    (hnodup : ∀ m, (st'.maps m).Nodup) (hbounded : ∀ t m, st'.topics t = some m → m < st'.fresh)
    (hinjective : ∀ t t' m, st'.topics t = some m → st'.topics t' = some m → t = t')
    (hheld : ∀ t m, (m < st.fresh ∧ ∀ t', st.topics t' = some m → t' = t) →
      m < st'.fresh ∧ ∀ t', st'.topics t' = some m → t' = t)
    (hmapped : ∀ s t, watched t = true → Subscribed st' s t → ∃ m, st'.topics t = some m ∧ s ∈ st'.maps m) :
    TopicInv watched st' := by
  refine ⟨hnodup, hbounded, hinjective, fun x t m hx => hheld t m ?_, hmapped⟩
  rw [hthreads] at hx
  by_cases hxt : x = th
  · subst hxt
    rw [Function.update_self] at hx
    cases hx
  · rw [Function.update_of_ne hxt] at hx
    exact h.held x t m hx

end

theorem subscribed_of_idle (hs : Subscribed st' s t)
    (hthreads : st'.threads = Function.update st.threads th .idle) (hsubs : st'.subs = st.subs)
    (hmember : (s, t) ≠ (sub, topic) → st'.member s t = st.member s t)
    (hleave : (st.threads th).leaving? = some (s, t) → (s, t) = (sub, topic)) :
    (s, t) = (sub, topic) ∨ Subscribed st s t := by
  obtain ⟨hm, hactive, hnone⟩ := hs
  by_cases hst : (s, t) = (sub, topic)
  · exact .inl hst
  · refine .inr ⟨(hmember hst).symm.trans hm, by rwa [hsubs] at hactive, fun x hx => ?_⟩
    by_cases hxt : x = th
    · subst hxt
      exact hst (hleave hx)
    · exact hnone x (by rw [hthreads, Function.update_of_ne hxt, hx])

section
variable (h : TopicInv watched st)
include h

theorem TopicInv.insert {m : ℕ} (hpc : st.threads th = .inserting sub topic m)
    (hcurrent : watched topic = true → st.topics topic = some m) :
    TopicInv watched (((st.setMap m ((st.maps m).insert sub)).setMember sub topic true).goto th .idle) := by
  refine h.finish rfl (fun k => ?_) h.bounded h.injective (fun _ _ hx => hx) fun s t hw hs => ?_
  · change (Function.update st.maps m ((st.maps m).insert sub) k).Nodup
    by_cases hk : k = m
    · subst hk
      rw [Function.update_self]
      exact List.Nodup.insert (h.nodup k)
    · rw [Function.update_of_ne hk]
      exact h.nodup k
  · have hold : (s, t) = (sub, topic) ∨ Subscribed st s t :=
      subscribed_of_idle hs rfl rfl (fun hne => setMember_of_ne _ true hne) (by rw [hpc]; intro hl; cases hl)
    rcases hold with heq | hs
    · obtain ⟨rfl, rfl⟩ := Prod.mk.inj heq
      refine ⟨m, hcurrent hw, ?_⟩
      change s ∈ Function.update st.maps m ((st.maps m).insert s) m
      rw [Function.update_self]
      exact List.mem_insert_self
    · obtain ⟨k, hk, hmem⟩ := h.mapped s t hw hs
      refine ⟨k, hk, ?_⟩
      change s ∈ Function.update st.maps m ((st.maps m).insert sub) k
      by_cases hkm : k = m
      · subst hkm
        rw [Function.update_self]
        exact List.mem_insert_of_mem hmem
      · rwa [Function.update_of_ne hkm]

theorem TopicInv.create (hpc : st.threads th = .creating sub topic)
    (hempty : watched topic = true → ∀ m, st.topics topic = some m → st.maps m = []) :
    TopicInv watched { ((st.setMap st.fresh [sub]).setMember sub topic true).goto th .idle with
      topics := Function.update st.topics topic (some st.fresh), fresh := st.fresh + 1 } := by
  have htopics (t : String) (m : ℕ) (ht : Function.update st.topics topic (some st.fresh) t = some m) :
      t = topic ∧ m = st.fresh ∨ t ≠ topic ∧ st.topics t = some m := by
    by_cases heq : t = topic
    · subst heq
      rw [Function.update_self] at ht
      exact .inl ⟨rfl, (Option.some.inj ht).symm⟩
    · rw [Function.update_of_ne heq] at ht
      exact .inr ⟨heq, ht⟩
  refine h.finish rfl (fun k => ?_) (fun t m ht => ?_) (fun t t' m ht ht' => ?_) (fun t m ⟨hlt, huniq⟩ => ?_)
    fun s t hw hs => ?_
  · change (Function.update st.maps st.fresh [sub] k).Nodup
    by_cases hk : k = st.fresh
    · subst hk
      rw [Function.update_self]
      exact List.nodup_singleton sub
    · rw [Function.update_of_ne hk]
      exact h.nodup k
  · dsimp only
    rcases htopics t m ht with ⟨-, rfl⟩ | ⟨-, ht⟩
    · exact Nat.lt_succ_self _
    · exact Nat.lt_succ_of_lt (h.bounded t m ht)
  · rcases htopics t m ht with ⟨rfl, rfl⟩ | ⟨-, ht⟩
    · rcases htopics t' _ ht' with ⟨rfl, -⟩ | ⟨-, ht'⟩
      · rfl
      · exact absurd (h.bounded t' _ ht') (Nat.lt_irrefl _)
    · rcases htopics t' m ht' with ⟨-, rfl⟩ | ⟨-, ht'⟩
      · exact absurd (h.bounded t _ ht) (Nat.lt_irrefl _)
      · exact h.injective t t' m ht ht'
  · refine ⟨Nat.lt_succ_of_lt hlt, fun t' ht' => ?_⟩
    rcases htopics t' m ht' with ⟨-, rfl⟩ | ⟨-, ht'⟩
    · exact absurd hlt (Nat.lt_irrefl _)
    · exact huniq t' ht'
  · have hold : (s, t) = (sub, topic) ∨ Subscribed st s t :=
      subscribed_of_idle hs rfl rfl (fun hne => setMember_of_ne _ true hne) (by rw [hpc]; intro hl; cases hl)
    rcases hold with heq | hbefore
    · obtain ⟨rfl, rfl⟩ := Prod.mk.inj heq
      refine ⟨st.fresh, Function.update_self .., ?_⟩
      change s ∈ Function.update st.maps st.fresh [s] st.fresh
      rw [Function.update_self]
      exact List.mem_singleton.mpr rfl
    · obtain ⟨k, hk, hmem⟩ := h.mapped s t hw hbefore
      -- nobody is in the map that is replaced
      have hnt : t ≠ topic := by
        rintro rfl
        rw [hempty hw k hk] at hmem
        cases hmem
      refine ⟨k, (Function.update_of_ne hnt ..).trans hk, ?_⟩
      change s ∈ Function.update st.maps st.fresh [sub] k
      rwa [Function.update_of_ne (Nat.ne_of_lt (h.bounded t k hk))]

theorem TopicInv.delete {m : ℕ} (hpc : st.threads th = .deleting sub topic m) :
    TopicInv watched (((st.setMap m ((st.maps m).erase sub)).setMember sub topic false).goto th .idle) := by
  have hold (s : ℕ) (t : String)
      (hs : Subscribed (((st.setMap m ((st.maps m).erase sub)).setMember sub topic false).goto th .idle) s t) :
      (s, t) ≠ (sub, topic) ∧ Subscribed st s t := by
    have hne : (s, t) ≠ (sub, topic) := by
      intro heq
      obtain ⟨rfl, rfl⟩ := Prod.mk.inj heq
      exact absurd ((setMember_self _ s t false).symm.trans hs.1) (by simp)
    have hcases : (s, t) = (sub, topic) ∨ Subscribed st s t :=
      subscribed_of_idle hs rfl rfl (fun hne => setMember_of_ne _ false hne)
        (by rw [hpc]; intro hl; exact (Option.some.inj hl).symm)
    exact ⟨hne, hcases.resolve_left hne⟩
  refine h.finish rfl (fun k => ?_) h.bounded h.injective (fun _ _ hx => hx) fun s t hw hs => ?_
  · change (Function.update st.maps m ((st.maps m).erase sub) k).Nodup
    by_cases hk : k = m
    · subst hk
      rw [Function.update_self]
      exact (h.nodup k).erase sub
    · rw [Function.update_of_ne hk]
      exact h.nodup k
  · obtain ⟨hne, hs⟩ := hold s t hs
    obtain ⟨k, hk, hmem⟩ := h.mapped s t hw hs
    refine ⟨k, hk, ?_⟩
    change s ∈ Function.update st.maps m ((st.maps m).erase sub) k
    by_cases hkm : k = m
    · -- the map is the topic's, so it is another subscriber that leaves
      subst hkm
      rw [Function.update_self]
      have ht : t = topic := (h.held th topic k (by rw [hpc]; rfl)).2 t hk
      refine (List.mem_erase_of_ne ?_).mpr hmem
      rintro rfl
      exact hne (by rw [ht])
    · rwa [Function.update_of_ne hkm]

theorem Move.topicInv {l : Label P} (hmove : Move st l st')
    (hok : undisturbed watched st l = true) : TopicInv watched st' := by
  cases hmove with
  | rest => exact h
  | callSubscribe hp | callShutdown hp | subscribing hp | inactive hp | absent hp | empty hp
  | matched hp | visit hp | signalling hp | enqueuing hp =>
    exact h.neutral (.goto ..) (by rw [hp]; rfl) rfl
  | callUnsubscribe hp => exact h.neutral (.setMember ..) (by rw [hp]; rfl) rfl
  | callPublish hp | range hp | rangeEnds hp =>
    exact h.neutral ⟨rfl, rfl, rfl, rfl, fun _ h => h, fun _ _ h => h⟩ (by rw [hp]; rfl) rfl
  | joining hp | enqueue hp | notify hp | waking hp =>
    exact h.neutral (.onSub _ _ _ _ fun _ h => h) (by rw [hp]; rfl) rfl
  | found hp hm | leavingFound hp hm =>
    refine h.turn (.goto ..) (by simp [hp, Pc.leaving?]) ?_
    rintro t k ⟨⟩
    exact .inr hm
  | nonempty hp | deleting hp =>
    exact h.turn (.goto ..) (by simp [hp, Pc.leaving?]) (by simp [hp, Pc.holds?])
  | insert hp => exact h.insert hp fun hw => by simpa [undisturbed, hp, hw] using hok
  | create hp => exact h.create hp fun hw => by simpa [undisturbed, hp, hw, Option.all_eq_true] using hok
  | unsubscribing hp =>
    exact h.turn (.onSub _ _ _ _ fun _ h => h) (by simp [hp, Pc.leaving?]) (by simp [Pc.holds?])
  | notThere hp =>
    refine h.turn (.setMember ..) ?_ (by simp [Pc.holds?])
    intro s t hl
    rcases hp with hp | ⟨m, hp⟩ <;> rw [hp] at hl <;> cases hl <;> exact .inr (setMember_self ..)
  | delete hp => exact h.delete hp
  | unheard hp =>
    refine h.neutral (.goto ..) ?_ rfl
    rcases hp with ⟨hp, -⟩ | ⟨m, hp, -⟩ <;> rw [hp] <;> rfl
  | passOver hp ha =>
    refine h.neutral (.goto ..) ?_ rfl
    rcases hp with hp | hp <;> rw [hp] <;> rfl
  | shutdown hp => exact h.neutral (.onSub _ _ _ _ (by simp)) (by rw [hp]; rfl) rfl
  | wake | checkActive | checkInactive | drained => exact h.onSub _ fun _ h => h
  | dequeue hc hm => exact h.onSub _ fun _ h => h

end

theorem topicInv_start : TopicInv watched (Stream.start : Stream P) := by
  refine ⟨fun m => List.nodup_nil, ?_, ?_, ?_, ?_⟩
  · simp [Stream.start]
  · simp [Stream.start]
  · simp [Stream.start, Pc.holds?]
  · simp [Stream.start, Subscribed]

theorem Move.subscribed {l : Label P} (hmove : Move st l st') (h : Subscribed st s t)
    (hactive : (st'.subs s).active = true) (hcall : ∀ x, l ≠ .call x (.unsubscribe s t)) : Subscribed st' s t := by
  obtain ⟨hmember, -, hnone⟩ := h
  have hgo {x : ℕ} {pc : Pc P} (hth : st'.threads = Function.update st.threads x pc)
      (hpc : pc.leaving? = none ∨ pc.leaving? = (st.threads x).leaving?) (y : ℕ) :
      (st'.threads y).leaving? ≠ some (s, t) := by
    rw [hth]
    by_cases hy : y = x
    · subst hy
      rw [Function.update_self]
      rcases hpc with hpc | hpc
      · simp [hpc]
      · rw [hpc]
        exact hnone y
    · rw [Function.update_of_ne hy]
      exact hnone y
  have hset {sub : ℕ} {topic : String} (hne : (sub, topic) ≠ (s, t)) :
      (st.setMember sub topic false).member s t = true :=
    (setMember_of_ne st false fun heq => hne heq.symm).trans hmember
  have hjoin (st₁ : Stream P) (sub : ℕ) (topic : String) (hmember : st₁.member s t = true) :
      (st₁.setMember sub topic true).member s t = true := by
    by_cases heq : (s, t) = (sub, topic)
    · obtain ⟨rfl, rfl⟩ := Prod.mk.inj heq
      exact setMember_self st₁ s t true
    · exact (setMember_of_ne st₁ true heq).trans hmember
  cases hmove with
  | rest | wake | checkActive | checkInactive | drained | dequeue => exact ⟨hmember, hactive, hnone⟩
  | callUnsubscribe hp =>
    rename_i x sub topic
    have hne : (sub, topic) ≠ (s, t) := by
      intro heq
      obtain ⟨rfl, rfl⟩ := Prod.mk.inj heq
      exact hcall x rfl
    refine ⟨hset hne, hactive, fun y hy => ?_⟩
    by_cases hyx : y = x
    · subst hyx
      rw [goto_self] at hy
      exact hne (Option.some.inj hy)
    · rw [goto_of_ne hyx] at hy
      exact hnone y hy
  | insert | create => exact ⟨hjoin _ _ _ hmember, hactive, hgo rfl (.inl rfl)⟩
  | unsubscribing hp | leavingFound hp | deleting hp =>
    exact ⟨hmember, hactive, hgo rfl (.inr (by rw [hp]; rfl))⟩
  | notThere hp =>
    rename_i x sub topic
    have hne : (sub, topic) ≠ (s, t) := by
      intro heq
      refine hnone x ?_
      rcases hp with hp | ⟨m, hp⟩ <;> rw [hp, ← heq] <;> rfl
    exact ⟨hset hne, hactive, hgo rfl (.inl rfl)⟩
  | delete hp =>
    rename_i x sub topic m
    have hne : (sub, topic) ≠ (s, t) := by
      intro heq
      refine hnone x ?_
      rw [hp, ← heq]
      rfl
    exact ⟨hset hne, hactive, hgo rfl (.inl rfl)⟩
  | _ => exact ⟨hmember, hactive, hgo rfl (.inl rfl)⟩

end

end Ego.Eventstream

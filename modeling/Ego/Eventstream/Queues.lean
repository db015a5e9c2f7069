import Ego.Eventstream.Topics

/-! # The queues of the subscribers -/

namespace Ego.Eventstream

section
variable {P : Type}

def Pc.message? : Pc P → Option (Message P)
  | .publishing msg | .matched msg _ | .ranging msg _ _ | .visiting msg _ _ _ | .signalling msg _ _ _ |
    .enqueuing msg _ _ _ | .notifying msg _ _ _ => some msg
  | _ => none

def Pc.pending : Pc P → List ℕ
  | .ranging _ _ rest | .notifying _ _ rest _ => rest
  | .visiting _ _ rest sub | .signalling _ _ rest sub | .enqueuing _ _ rest sub => sub :: rest
  | _ => []

def Pc.owes (s : ℕ) : Pc P → Prop
  | .publishing _ | .matched _ _ => True
  | pc => s ∈ pc.pending

def Pc.notifies? : Pc P → Option ℕ
  | .notifying _ _ _ sub => some sub
  | _ => none

def InOrder (log : List (Message P)) : Prop :=
  log.Pairwise fun a b => a.publisher = b.publisher → a.number < b.number

structure LogInv (st : Stream P) : Prop where
  numbered : ∀ th msg, (st.threads th).message? = some msg → msg.publisher = th ∧ msg.number < st.published th
  visits : ∀ th, (st.threads th).pending.Nodup
  logged : ∀ s, ∀ a ∈ (st.subs s).log, a.number < st.published a.publisher
  order : ∀ s, InOrder (st.subs s).log
  below : ∀ th msg s, (st.threads th).message? = some msg → (st.threads th).owes s →
    ∀ a ∈ (st.subs s).log, a.publisher = th → a.number < msg.number

variable {st st' : Stream P} {th : ℕ} {pc : Pc P}

theorem LogInv.turn (h : LogInv st) (hthreads : st'.threads = Function.update st.threads th pc)
    (hpub : st'.published = st.published) (hlog : ∀ s, (st'.subs s).log = (st.subs s).log)
    (hmsg : ∀ msg, pc.message? = some msg → (st.threads th).message? = some msg)
    (hvisits : pc.pending.Nodup) (howes : ∀ msg, pc.message? = some msg → ∀ s, pc.owes s →
      (st.threads th).owes s) :
    LogInv st' := by
  have hself : st'.threads th = pc := by rw [hthreads, Function.update_self]
  have hother (x : ℕ) (hx : x ≠ th) : st'.threads x = st.threads x := by rw [hthreads, Function.update_of_ne hx]
  refine ⟨fun x msg hx => ?_, fun x => ?_, fun s a ha => ?_, fun s => ?_, fun x msg s hx ho a ha hp => ?_⟩
  · rw [hpub]
    by_cases hxt : x = th
    · subst hxt
      rw [hself] at hx
      exact h.numbered x msg (hmsg msg hx)
    · rw [hother x hxt] at hx
      exact h.numbered x msg hx
  · by_cases hxt : x = th
    · subst hxt
      rwa [hself]
    · rw [hother x hxt]
      exact h.visits x
  · rw [hpub]
    rw [hlog] at ha
    exact h.logged s a ha
  · rw [hlog]
    exact h.order s
  · rw [hlog] at ha
    by_cases hxt : x = th
    · subst hxt
      rw [hself] at hx ho
      exact h.below x msg s (hmsg msg hx) (howes msg hx s ho) a ha hp
    · rw [hother x hxt] at hx ho
      exact h.below x msg s hx ho a ha hp

variable {f : Subscriber P → Subscriber P}

theorem LogInv.onSub (h : LogInv st) (sub : ℕ)
    (hf : (f (st.subs sub)).log = (st.subs sub).log) : LogInv (st.onSub sub f) := by
  have hlog (s : ℕ) : ((st.onSub sub f).subs s).log = (st.subs s).log := by
    by_cases hs : s = sub
    · subst hs
      rw [onSub_self, hf]
    · rw [onSub_of_ne st f hs]
  refine ⟨h.numbered, h.visits, fun s a ha => ?_, fun s => ?_, fun x msg s hx ho a ha hp => ?_⟩
  · rw [hlog] at ha
    exact h.logged s a ha
  · rw [hlog]
    exact h.order s
  · rw [hlog] at ha
    exact h.below x msg s hx ho a ha hp

theorem LogInv.publish (h : LogInv st) (hp : st.threads th = .idle) (topic : String) (payload : P) :
    LogInv { st.goto th (.publishing ⟨topic, payload, th, st.published th⟩) with
      published := Function.update st.published th (st.published th + 1) } := by
  have hle (x : ℕ) : st.published x ≤ Function.update st.published th (st.published th + 1) x := by
    by_cases hx : x = th
    · subst hx
      rw [Function.update_self]
      exact Nat.le_succ _
    · exact Nat.le_of_eq (Function.update_of_ne hx _ _).symm
  refine ⟨fun x msg hx => ?_, fun x => ?_, fun s a ha => ?_, h.order, fun x msg s hx ho a ha hpx => ?_⟩
  · change ((st.goto th _).threads x).message? = some msg at hx
    by_cases hxt : x = th
    · subst hxt
      rw [goto_self] at hx
      obtain rfl := Option.some.inj hx
      refine ⟨rfl, ?_⟩
      dsimp only
      rw [Function.update_self]
      exact Nat.lt_succ_self _
    · rw [goto_of_ne hxt] at hx
      obtain ⟨hpub, hlt⟩ := h.numbered x msg hx
      exact ⟨hpub, Nat.lt_of_lt_of_le hlt (hle x)⟩
  · change ((st.goto th _).threads x).pending.Nodup
    by_cases hxt : x = th
    · subst hxt
      rw [goto_self]
      exact List.nodup_nil
    · rw [goto_of_ne hxt]
      exact h.visits x
  · exact Nat.lt_of_lt_of_le (h.logged s a ha) (hle _)
  · change ((st.goto th _).threads x).message? = some msg at hx
    by_cases hxt : x = th
    · subst hxt
      rw [goto_self] at hx
      obtain rfl := Option.some.inj hx
      have hlt := h.logged s a ha
      rwa [hpx] at hlt
    · rw [goto_of_ne hxt] at hx ho
      exact h.below x msg s hx ho a ha hpx

variable {sub : ℕ}

theorem LogInv.enqueue (h : LogInv st) {msg : Message P} {m : ℕ} {rest : List ℕ}
    (hp : st.threads th = .enqueuing msg m rest sub) :
    LogInv ((st.onSub sub fun x => { x with messages := x.messages ++ [msg] }).goto th
      (.notifying msg m rest sub)) := by
  have hmsg : (st.threads th).message? = some msg := by
    rw [hp]
    rfl
  obtain ⟨hpub, hlt⟩ := h.numbered th msg hmsg
  have hnodup : (sub :: rest).Nodup := by
    have hv := h.visits th
    rwa [hp] at hv
  have hself : (((st.onSub sub fun x => { x with messages := x.messages ++ [msg] }).goto th
      (.notifying msg m rest sub)).subs sub).log = (st.subs sub).log ++ [msg] := by
    rw [goto_subs, onSub_self]
    simp [Subscriber.log]
  have hother (s : ℕ) (hs : s ≠ sub) : ((st.onSub sub fun x => { x with messages := x.messages ++ [msg] }).goto th
      (.notifying msg m rest sub)).subs s = st.subs s := by
    rw [goto_subs, onSub_of_ne st _ hs]
  have howes (s : ℕ) (hs : s = sub ∨ s ∈ rest) : (st.threads th).owes s := by
    rw [hp]
    exact List.mem_cons.mpr hs
  refine ⟨fun x msg' hx => ?_, fun x => ?_, fun s a ha => ?_, fun s => ?_, fun x msg' s hx ho a ha hpx => ?_⟩
  · by_cases hxt : x = th
    · subst hxt
      rw [goto_self] at hx
      obtain rfl := Option.some.inj hx
      exact ⟨hpub, hlt⟩
    · rw [goto_of_ne hxt] at hx
      exact h.numbered x msg' hx
  · by_cases hxt : x = th
    · subst hxt
      rw [goto_self]
      exact (List.nodup_cons.mp hnodup).2
    · rw [goto_of_ne hxt]
      exact h.visits x
  · by_cases hs : s = sub
    · subst hs
      rw [hself] at ha
      rcases List.mem_append.mp ha with ha | ha
      · exact h.logged s a ha
      · rw [List.mem_singleton.mp ha, hpub]
        exact hlt
    · rw [hother s hs] at ha
      exact h.logged s a ha
  · by_cases hs : s = sub
    · subst hs
      rw [hself]
      refine List.pairwise_append.mpr ⟨h.order s, List.pairwise_singleton _ _, fun a ha b hb heq => ?_⟩
      obtain rfl := List.mem_singleton.mp hb
      exact h.below th b s hmsg (howes s (.inl rfl)) a ha (heq.trans hpub)
    · rw [hother s hs]
      exact h.order s
  · by_cases hxt : x = th
    · -- the subscriber just served is not among the rest
      subst hxt
      rw [goto_self] at hx ho
      obtain rfl := Option.some.inj hx
      have hmem : s ∈ rest := ho
      have hs : s ≠ sub := by
        rintro rfl
        exact (List.nodup_cons.mp hnodup).1 hmem
      rw [hother s hs] at ha
      exact h.below x msg s hmsg (howes s (.inr hmem)) a ha hpx
    · rw [goto_of_ne hxt] at hx ho
      by_cases hs : s = sub
      · subst hs
        rw [hself] at ha
        rcases List.mem_append.mp ha with ha | ha
        · exact h.below x msg' s hx ho a ha hpx
        · rw [List.mem_singleton.mp ha, hpub] at hpx
          exact absurd hpx.symm hxt
      · rw [hother s hs] at ha
        exact h.below x msg' s hx ho a ha hpx

theorem LogInv.quiet (h : LogInv st) (hthreads : st'.threads = Function.update st.threads th pc)
    (hpub : st'.published = st.published) (hlog : ∀ s, (st'.subs s).log = (st.subs s).log)
    (hmsg : pc.message? = none) (hpending : pc.pending = []) : LogInv st' :=
  h.turn hthreads hpub hlog (by simp [hmsg]) (by rw [hpending]; exact List.nodup_nil) (by simp [hmsg])

theorem onSub_log (st : Stream P) (th : ℕ) (pc : Pc P) (sub : ℕ)
    (hf : ∀ x, (f x).log = x.log) (s : ℕ) : (((st.onSub sub f).goto th pc).subs s).log = (st.subs s).log := by
  rw [goto_subs]
  by_cases hs : s = sub
  · subst hs
    rw [onSub_self, hf]
  · rw [onSub_of_ne st f hs]

theorem Move.logInv {l : Label P} (hmove : Move st l st') (hmaps : ∀ m, (st.maps m).Nodup) (h : LogInv st) :
    LogInv st' := by
  cases hmove with
  | rest => exact h
  | callSubscribe | callUnsubscribe | callShutdown | subscribing | inactive | found | absent
  | nonempty | empty | insert | create | leavingFound | notThere | deleting | delete | unheard
  | rangeEnds => exact h.quiet rfl rfl (fun _ => rfl) rfl rfl
  | callPublish hp => exact h.publish hp _ _
  | joining | unsubscribing | shutdown | waking =>
    exact h.quiet rfl rfl (onSub_log st _ _ _ fun _ => rfl) rfl rfl
  | matched hp hm =>
    exact h.turn rfl rfl (fun _ => rfl) (by simp [hp, Pc.message?]) List.nodup_nil (by simp [hp, Pc.owes])
  | range hp =>
    exact h.turn rfl rfl (fun _ => rfl) (by simp [hp, Pc.message?]) (hmaps _) (by simp [hp, Pc.owes])
  | visit hp hs =>
    rename_i x msg m rest sub
    have hnodup : rest.Nodup := by
      have hv := h.visits x
      rwa [hp] at hv
    refine h.turn rfl rfl (fun _ => rfl) (by simp [hp, Pc.message?]) ?_ fun _ _ s hs' => ?_
    · exact List.nodup_cons.mpr ⟨fun hmem => ((List.Nodup.mem_erase_iff hnodup).mp hmem).1 rfl, hnodup.erase sub⟩
    · rw [hp]
      rcases List.mem_cons.mp hs' with rfl | hmem
      · exact hs
      · exact List.mem_of_mem_erase hmem
  | signalling hp | enqueuing hp =>
    rename_i x msg m rest sub
    have hv := h.visits x
    rw [hp] at hv
    exact h.turn rfl rfl (fun _ => rfl) (by simp [hp, Pc.message?]) hv (by simp [hp, Pc.owes, Pc.pending])
  | passOver hp ha =>
    rename_i x msg m rest sub
    have hv := h.visits x
    rcases hp with hp | hp <;> rw [hp] at hv
    · exact h.turn rfl rfl (fun _ => rfl) (by simp [hp, Pc.message?]) (List.nodup_cons.mp hv).2
        fun _ _ s hs => by rw [hp]; exact List.mem_cons_of_mem _ hs
    · exact h.turn rfl rfl (fun _ => rfl) (by simp [hp, Pc.message?]) (List.nodup_cons.mp hv).2
        fun _ _ s hs => by rw [hp]; exact List.mem_cons_of_mem _ hs
  | enqueue hp => exact h.enqueue hp
  | notify hp =>
    rename_i x msg m rest sub
    have hv := h.visits x
    rw [hp] at hv
    exact h.turn rfl rfl (onSub_log st _ _ _ fun _ => rfl) (by simp [hp, Pc.message?]) hv
      (by simp [hp, Pc.owes, Pc.pending])
  | wake | checkActive | checkInactive | drained => exact h.onSub _ rfl
  | dequeue hc hm => exact h.onSub _ (by simp [Subscriber.log, hm])

theorem logInv_start : LogInv (Stream.start : Stream P) := by
  refine ⟨?_, fun _ => List.nodup_nil, ?_, fun _ => .nil, ?_⟩ <;> simp [Stream.start, Subscriber.log, Pc.message?]

def Forgotten (st : Stream P) (s : ℕ) : Prop :=
  (st.subs s).active = true ∧ (st.subs s).messages ≠ [] ∧ (st.subs s).notify = false ∧
    (st.subs s).consumer = .waiting ∧ ∀ th, (st.threads th).notifies? ≠ some s

variable {s : ℕ}

theorem forgotten_of_goto (h : Forgotten (st.goto th pc) s) (hpc : (st.threads th).notifies? ≠ some s) :
    Forgotten st s := by
  obtain ⟨ha, hm, hn, hc, hnone⟩ := h
  refine ⟨ha, hm, hn, hc, fun x hx => ?_⟩
  by_cases hxt : x = th
  · subst hxt
    exact hpc hx
  · exact hnone x (by rw [goto_of_ne hxt, hx])

theorem forgotten_of_onSub (h : Forgotten (st.onSub sub f) s)
    (hf : (f (st.subs sub)).active = true → (f (st.subs sub)).messages ≠ [] → (f (st.subs sub)).notify = false →
      (f (st.subs sub)).consumer ≠ .waiting) : Forgotten st s := by
  obtain ⟨ha, hm, hn, hc, hnone⟩ := h
  by_cases hs : s = sub
  · subst hs
    rw [onSub_self] at ha hm hn hc
    exact absurd hc (hf ha hm hn)
  · rw [onSub_of_ne st f hs] at ha hm hn hc
    exact ⟨ha, hm, hn, hc, hnone⟩

theorem forgotten_of_topics {f : Subscriber P → List String}
    (h : Forgotten (st.onSub sub fun x => { x with topics := f x }) s) : Forgotten st s := by
  obtain ⟨ha, hm, hn, hc, hnone⟩ := h
  by_cases hs : s = sub
  · subst hs
    rw [onSub_self] at ha hm hn hc
    exact ⟨ha, hm, hn, hc, hnone⟩
  · rw [onSub_of_ne st _ hs] at ha hm hn hc
    exact ⟨ha, hm, hn, hc, hnone⟩

theorem Move.forgotten {l : Label P} (hmove : Move st l st') (h : Forgotten st' s) : Forgotten st s := by
  have hgo {st₁ : Stream P} {x : ℕ} {pc : Pc P} (hf : Forgotten (st₁.goto x pc) s)
      (hpc : (st₁.threads x).notifies? = none) : Forgotten st₁ s := forgotten_of_goto hf (by simp [hpc])
  cases hmove with
  | rest => exact h
  | callUnsubscribe hp | callPublish hp | insert hp | create hp | delete hp | range hp | rangeEnds hp =>
    have hpc : (st.threads _).notifies? = none := congrArg Pc.notifies? hp
    exact hgo h hpc
  | joining hp | unsubscribing hp =>
    have hpc : (st.threads _).notifies? = none := congrArg Pc.notifies? hp
    exact forgotten_of_topics (hgo h hpc)
  | notThere hp =>
    rename_i x sub topic
    have hpc : (st.threads x).notifies? = none := by rcases hp with hp | ⟨m, hp⟩ <;> rw [hp] <;> rfl
    exact hgo h hpc
  | unheard hp =>
    refine hgo h ?_
    rcases hp with ⟨hp, -⟩ | ⟨m, hp, -⟩ <;> rw [hp] <;> rfl
  | passOver hp ha =>
    refine hgo h ?_
    rcases hp with hp | hp <;> rw [hp] <;> rfl
  | enqueue hp =>
    rename_i x msg m rest sub
    have hne : s ≠ sub := by
      rintro rfl
      exact h.2.2.2.2 x (by rw [goto_self]; rfl)
    have hpc : (st.threads x).notifies? = none := congrArg Pc.notifies? hp
    obtain ⟨ha, hm, hn, hc, hnone⟩ := hgo h hpc
    rw [onSub_of_ne st _ hne] at ha hm hn hc
    exact ⟨ha, hm, hn, hc, hnone⟩
  | notify hp =>
    rename_i x msg m rest sub
    have hpc : (st.threads x).notifies? = some sub := congrArg Pc.notifies? hp
    by_cases hs : s = sub
    · subst hs
      have hn := h.2.2.1
      rw [goto_subs, onSub_self] at hn
      cases hn
    · refine forgotten_of_onSub (forgotten_of_goto h ?_) (by simp)
      intro heq
      exact hs (Option.some.inj (heq.symm.trans hpc))
  | shutdown hp | waking hp =>
    have hpc : (st.threads _).notifies? = none := congrArg Pc.notifies? hp
    exact forgotten_of_onSub (hgo h hpc) (by simp)
  | wake | checkActive | dequeue => exact forgotten_of_onSub h (by simp)
  | checkInactive ha => exact forgotten_of_onSub h (by simp [ha])
  | drained hm => exact forgotten_of_onSub h (by simp [hm])
  | _ hp => exact hgo h (congrArg Pc.notifies? hp)

end

end Ego.Eventstream

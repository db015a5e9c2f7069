import Ego.Eventstream.Queues

/-! # Delivery -/

namespace Ego.Eventstream
open Lib

section
variable {P : Type}

inductive SubMove (x : Subscriber P) : Subscriber P → Prop
  | same : SubMove x x
  | topics (topics : List String) : SubMove x { x with topics := topics }
  | enqueue (msg : Message P) : SubMove x { x with messages := x.messages ++ [msg] }
  | notify : SubMove x { x with notify := true }
  | shutdown : SubMove x { x with active := false }
  | wake (hc : x.consumer = .waiting) : SubMove x { x with notify := false, consumer := .checking }
  | checkActive (hc : x.consumer = .checking) : SubMove x { x with consumer := .dequeuing }
  | checkInactive (ha : x.active = false) : SubMove x { x with consumer := .waiting }
  | drained (hm : x.messages = []) : SubMove x { x with consumer := .waiting }
  | dequeue {msg : Message P} {rest : List (Message P)} (hc : x.consumer = .dequeuing) (hm : x.messages = msg :: rest) :
      SubMove x { x with messages := rest, drained := x.drained ++ [msg], consumer := .checking }

variable {watched : String → Bool} {st st' : Stream P} {l : Label P} {s th : ℕ} {msg : Message P}
  {x y : Subscriber P}

theorem SubMove.update {sub : ℕ} (h : SubMove (st.subs sub) y) (s : ℕ) :
    SubMove (st.subs s) (Function.update st.subs sub y s) := by
  by_cases hs : s = sub
  · subst hs
    rwa [Function.update_self]
  · rw [Function.update_of_ne hs]
    exact .same

theorem Move.subMove (hmove : Move st l st') (s : ℕ) : SubMove (st.subs s) (st'.subs s) := by
  cases hmove with
  | joining | unsubscribing =>
    apply SubMove.update
    exact .topics _
  | enqueue =>
    apply SubMove.update
    exact .enqueue _
  | notify | waking =>
    apply SubMove.update
    exact .notify
  | shutdown =>
    apply SubMove.update
    exact .shutdown
  | wake hc => exact (SubMove.wake hc).update s
  | checkActive hc ha => exact (SubMove.checkActive hc).update s
  | checkInactive ha => exact (SubMove.checkInactive ha).update s
  | drained hm => exact (SubMove.drained hm).update s
  | dequeue hc hm => exact (SubMove.dequeue hc hm).update s
  | _ => exact .same

theorem SubMove.active (h : SubMove x y) (hy : y.active = true) : x.active = true := by
  cases h with
  | shutdown => cases hy
  | _ => exact hy

theorem SubMove.log_grows (h : SubMove x y) : x.log <+: y.log := by
  cases h with
  | enqueue msg => exact ⟨[msg], by simp [Subscriber.log]⟩
  | dequeue hc hm => exact ⟨[], by simp [Subscriber.log, hm]⟩
  | _ => exact List.prefix_rfl

theorem SubMove.drained_grows (h : SubMove x y) : x.drained <+: y.drained := by
  cases h with
  | dequeue hc hm => exact ⟨_, rfl⟩
  | _ => exact List.prefix_rfl

variable {labels : List (Label P)}

theorem run_active (h : ((run step st labels).subs s).active = true) : (st.subs s).active = true := by
  induction labels generalizing st with
  | nil => exact h
  | cons l labels ih => exact ((step_move st l).subMove s).active (ih h)

theorem run_log_grows (st : Stream P) (s : ℕ) (labels : List (Label P)) :
    (st.subs s).log <+: ((run step st labels).subs s).log := by
  induction labels generalizing st with
  | nil => exact List.prefix_rfl
  | cons l labels ih => exact ((step_move st l).subMove s).log_grows.trans (ih (step st l))

theorem run_drained_grows (st : Stream P) (s : ℕ) (labels : List (Label P)) :
    (st.subs s).drained <+: ((run step st labels).subs s).drained := by
  induction labels generalizing st with
  | nil => exact List.prefix_rfl
  | cons l labels ih => exact ((step_move st l).subMove s).drained_grows.trans (ih (step st l))

def consumerSteps (s : ℕ) : Stream P → List (Label P) → ℕ
  | _, [] => 0
  | st, l :: labels =>
    (if ((step st l).subs s).consumer = (st.subs s).consumer then 0 else 1) + consumerSteps s (step st l) labels

def Subscriber.remaining (n : ℕ) (x : Subscriber P) : ℕ :=
  match x.consumer with
  | .waiting => 2 * (n - x.drained.length) + 1
  | .checking => 2 * (n - x.drained.length)
  | .dequeuing => 2 * (n - x.drained.length) - 1

theorem SubMove.remaining {n : ℕ} (h : SubMove x y) (hactive : y.active = true) (hn : n ≤ x.log.length)
    (hd : x.drained.length < n) : y.remaining n + (if y.consumer = x.consumer then 0 else 1) ≤ x.remaining n := by
  have hlen : n ≤ x.drained.length + x.messages.length := by simpa [Subscriber.log] using hn
  cases h with
  | same | topics | enqueue | notify | shutdown => simp [Subscriber.remaining]
  | wake hc => simp [Subscriber.remaining, hc]
  | checkActive hc =>
    simp only [Subscriber.remaining, hc]
    simp
    omega
  | checkInactive ha =>
    rw [ha] at hactive
    cases hactive
  | drained hm =>
    rw [hm] at hlen
    simp at hlen
    omega
  | dequeue hc hm =>
    simp only [Subscriber.remaining, hc]
    simp
    omega

theorem drained_of_consumerSteps {n : ℕ} (hn : n ≤ (st.subs s).log.length)
    (hactive : ((run step st labels).subs s).active = true)
    (hsteps : (st.subs s).remaining n ≤ consumerSteps s st labels) :
    n ≤ ((run step st labels).subs s).drained.length := by
  induction labels generalizing st with
  | nil =>
    simp only [consumerSteps, Subscriber.remaining] at hsteps
    simp only [run_nil]
    split at hsteps <;> omega
  | cons l labels ih =>
    by_cases hd : n ≤ (st.subs s).drained.length
    · exact Nat.le_trans hd (run_drained_grows st s (l :: labels)).length_le
    · have hmove := (step_move st l).subMove s
      have hless := hmove.remaining (run_active hactive) hn (Nat.lt_of_not_le hd)
      refine ih (Nat.le_trans hn hmove.log_grows.length_le) hactive ?_
      simp only [consumerSteps] at hsteps
      omega

theorem drained_of_queued (hmem : msg ∈ (st.subs s).log) (hactive : ((run step st labels).subs s).active = true)
    (hsteps : 2 * (st.subs s).messages.length + 1 ≤ consumerSteps s st labels) :
    msg ∈ ((run step st labels).subs s).drained := by
  have hremaining : (st.subs s).remaining (st.subs s).log.length ≤ 2 * (st.subs s).messages.length + 1 := by
    have hlen : (st.subs s).log.length - (st.subs s).drained.length = (st.subs s).messages.length := by
      simp [Subscriber.log]
    simp only [Subscriber.remaining, hlen]
    split <;> omega
  have hlength := drained_of_consumerSteps (Nat.le_refl _) hactive (Nat.le_trans hremaining hsteps)
  have hdrained := List.prefix_append ((run step st labels).subs s).drained ((run step st labels).subs s).messages
  exact (List.prefix_of_prefix_length_le (run_log_grows st s labels) hdrained hlength).subset hmem

def Pc.reaches (topics : String → Option ℕ) (s : ℕ) : Pc P → Prop
  | .publishing _ => True
  | .matched msg m => topics msg.topic = some m
  | pc => s ∈ pc.pending

theorem Pc.reaches.of_topic {pc : Pc P} {topics topics' : String → Option ℕ} (h : pc.reaches topics s)
    (hmsg : pc.message? = some msg) (htopic : topics' msg.topic = topics msg.topic) : pc.reaches topics' s := by
  cases pc with
  | matched msg' m =>
    obtain rfl := Option.some.inj hmsg
    exact htopic.trans h
  | _ => exact h

def Owed (st : Stream P) (th s : ℕ) (msg : Message P) : Prop :=
  msg ∈ (st.subs s).log ∨ (st.threads th).message? = some msg ∧ (st.threads th).reaches st.topics s

theorem Move.owed (hmove : Move st l st') (htopics : TopicInv watched st) (hok : undisturbed watched st l = true)
    (hw : watched msg.topic = true) (hs : Subscribed st s msg.topic) (h : Owed st th s msg) : Owed st' th s msg := by
  rcases h with hlog | ⟨hmsg, hreach⟩
  · exact .inl ((hmove.subMove s).log_grows.subset hlog)
  obtain ⟨k, hk, hmem⟩ := htopics.mapped s msg.topic hw hs
  -- another goroutine moves
  have hother {x : ℕ} {pc : Pc P} (hth : st'.threads = Function.update st.threads x pc)
      (htop : st'.topics = st.topics) (hne : th ≠ x) : Owed st' th s msg := by
    refine .inr ?_
    rw [hth, htop, Function.update_of_ne hne]
    exact ⟨hmsg, hreach⟩
  have hquiet {x : ℕ} {pc : Pc P} (hth : st'.threads = Function.update st.threads x pc)
      (htop : st'.topics = st.topics) (hx : (st.threads x).message? = none) : Owed st' th s msg := by
    refine hother hth htop ?_
    rintro rfl
    rw [hx] at hmsg
    cases hmsg
  -- the `Publish` itself goes on
  have hgo {x : ℕ} {pc : Pc P} {msg' : Message P} (hth : st'.threads = Function.update st.threads x pc)
      (htop : st'.topics = st.topics) (hx : (st.threads x).message? = some msg') (hpc : pc.message? = some msg')
      (hnext : (st.threads x).reaches st.topics s → msg' = msg → pc.reaches st.topics s) : Owed st' th s msg := by
    by_cases hne : th = x
    · subst hne
      obtain rfl := Option.some.inj (hx.symm.trans hmsg)
      refine .inr ?_
      rw [hth, htop, Function.update_self]
      exact ⟨hpc, hnext hreach rfl⟩
    · exact hother hth htop hne
  cases hmove with
  | rest | wake | checkActive | checkInactive | drained | dequeue => exact .inr ⟨hmsg, hreach⟩
  | create hp =>
    rename_i x sub topic
    have hne : th ≠ x := by
      rintro rfl
      rw [hp] at hmsg
      cases hmsg
    have hnt : msg.topic ≠ topic := by
      rintro rfl
      have hempty : st.maps k = [] := by
        have hall := hok
        simp only [undisturbed, hp, hw, hk, Option.all_some, Bool.not_true, Bool.false_or, List.isEmpty_iff] at hall
        exact hall
      rw [hempty] at hmem
      cases hmem
    refine .inr ?_
    rw [goto_of_ne hne]
    exact ⟨hmsg, hreach.of_topic hmsg (Function.update_of_ne hnt ..)⟩
  | matched hp hm =>
    refine hgo rfl rfl (by rw [hp]; rfl) rfl fun _ _ => ?_
    exact hm
  | unheard hp =>
    refine hother rfl rfl ?_
    rintro rfl
    rcases hp with ⟨hp, hnone⟩ | ⟨m, hp, hempty⟩ <;> rw [hp] at hmsg hreach <;> obtain rfl :=
      Option.some.inj hmsg
    · rw [hnone] at hk
      cases hk
    · obtain rfl := Option.some.inj (hk.symm.trans hreach)
      rw [hempty] at hmem
      cases hmem
  | range hp =>
    refine hgo rfl rfl (by rw [hp]; rfl) rfl fun hreach heq => ?_
    rw [hp] at hreach
    subst heq
    obtain rfl := Option.some.inj (hk.symm.trans hreach)
    exact hmem
  | rangeEnds hp =>
    refine hother rfl rfl ?_
    rintro rfl
    rw [hp] at hreach
    cases hreach
  | visit hp hv =>
    rename_i x msg' m rest sub
    refine hgo rfl rfl (by rw [hp]; rfl) rfl fun hreach _ => ?_
    rw [hp] at hreach
    by_cases hsub : s = sub
    · exact List.mem_cons.mpr (.inl hsub)
    · exact List.mem_cons_of_mem _ ((List.mem_erase_of_ne hsub).mpr hreach)
  | signalling hp | enqueuing hp | notify hp =>
    exact hgo rfl rfl (by rw [hp]; rfl) rfl fun hreach _ => by rwa [hp] at hreach
  | passOver hp ha =>
    rename_i x msg' m rest sub
    have hsub : s ≠ sub := by
      rintro rfl
      rw [hs.2.1] at ha
      cases ha
    rcases hp with hp | hp
    · refine hgo rfl rfl (by rw [hp]; rfl) rfl fun hreach _ => ?_
      rw [hp] at hreach
      exact List.mem_of_ne_of_mem hsub hreach
    · refine hgo rfl rfl (by rw [hp]; rfl) rfl fun hreach _ => ?_
      rw [hp] at hreach
      exact List.mem_of_ne_of_mem hsub hreach
  | enqueue hp =>
    rename_i x msg' m rest sub
    by_cases hx : th = x
    · subst hx
      rw [hp] at hmsg hreach
      obtain rfl := Option.some.inj hmsg
      rcases List.mem_cons.mp hreach with rfl | hrest
      · refine .inl ?_
        rw [goto_subs, onSub_self]
        simp [Subscriber.log]
      · refine .inr ?_
        rw [goto_self]
        exact ⟨rfl, hrest⟩
    · exact hother rfl rfl hx
  | notThere hp =>
    refine hquiet rfl rfl ?_
    rcases hp with hp | ⟨m, hp⟩ <;> rw [hp] <;> rfl
  | _ hp => exact hquiet rfl rfl (by rw [hp]; rfl)

structure StreamInv (watched : String → Bool) (st : Stream P) : Prop where
  topics : TopicInv watched st
  logs : LogInv st
  seen : ∀ s, ¬ Forgotten st s

theorem StreamInv.next (h : StreamInv watched st) (hok : undisturbed watched st l = true) :
    StreamInv watched (step st l) :=
  ⟨(step_move st l).topicInv h.topics hok, (step_move st l).logInv h.topics.nodup h.logs,
    fun s hs => h.seen s ((step_move st l).forgotten hs)⟩

def Undisturbed (watched : String → Bool) (st : Stream P) (labels : List (Label P)) : Prop :=
  Along step (fun st l => undisturbed watched st l = true) st labels

instance (labels : List (Label P)) : Decidable (Undisturbed watched st labels) :=
  inferInstanceAs (Decidable (Along ..))

theorem undisturbed_nothing (st : Stream P) (labels : List (Label P)) : Undisturbed (fun _ => false) st labels := by
  refine along_of_prefixes step fun before l _ => ?_
  cases l with
  | step th =>
    simp only [undisturbed]
    split <;> rfl
  | _ => rfl

theorem Undisturbed.streamInv (h : Undisturbed watched Stream.start labels) :
    StreamInv watched (run step Stream.start labels) :=
  run_invariant _ (StreamInv watched) (fun _ _ hinv hl => hinv.next hl)
    ⟨topicInv_start, logInv_start, fun _ hs => hs.2.1 rfl⟩ h

theorem StreamInv.owed (h : StreamInv watched st) (hok : Undisturbed watched st labels)
    (hw : watched msg.topic = true) (hs : Subscribed st s msg.topic)
    (hcall : ∀ x, .call x (.unsubscribe s msg.topic) ∉ labels)
    (hactive : ((run step st labels).subs s).active = true) (howed : Owed st th s msg) :
    Owed (run step st labels) th s msg := by
  induction labels generalizing st with
  | nil => exact howed
  | cons l labels ih =>
    have hmove := step_move st l
    have hcall' (x : ℕ) : l ≠ .call x (.unsubscribe s msg.topic) := fun heq => hcall x (by simp [heq])
    exact ih (h.next hok.1) hok.2 (hmove.subscribed hs (run_active hactive) hcall')
      (fun x hx => hcall x (List.mem_cons_of_mem l hx)) hactive (hmove.owed h.topics hok.1 hw hs howed)

theorem StreamInv.queued {topic : String} {payload : P} {during : List (Label P)} (h : StreamInv watched st)
    (hok : Undisturbed watched st (.call th (.publish topic payload) :: during)) (hw : watched topic = true)
    (hidle : st.threads th = .idle) (hs : Subscribed st s topic)
    (hcall : ∀ x, .call x (.unsubscribe s topic) ∉ during)
    (hmsg : msg = ⟨topic, payload, th, st.published th⟩) {ended : Stream P}
    (hended : ended = run step st (.call th (.publish topic payload) :: during))
    (hdone : (ended.threads th).message? ≠ some msg) (hactive : (ended.subs s).active = true) :
    msg ∈ (ended.subs s).log := by
  have hnext : step st (.call th (.publish topic payload)) =
      { st.goto th (.publishing msg) with published := Function.update st.published th (st.published th + 1) } := by
    simp only [step, callStep, hidle, hmsg]
  have htopic : msg.topic = topic := by rw [hmsg]
  have hs' : Subscribed (step st (.call th (.publish topic payload))) s msg.topic := by
    rw [htopic]
    refine (step_move st _).subscribed hs ?_ (by simp)
    rw [hnext]
    exact hs.2.1
  have hstart : Owed (step st (.call th (.publish topic payload))) th s msg := by
    refine .inr ?_
    rw [hnext]
    rw [goto_self]
    exact ⟨rfl, trivial⟩
  rw [run_cons] at hended
  have howed : Owed ended th s msg := by
    rw [hended]
    exact (h.next hok.1).owed hok.2 (by rwa [htopic]) hs' (by rwa [htopic]) (by rwa [← hended]) hstart
  exact howed.resolve_right fun hpub => hdone hpub.1

def Once (msg : Message P) (log : List (Message P)) : Prop :=
  log.filter (fun a => a.publisher = msg.publisher ∧ a.number = msg.number) = [msg]

theorem InOrder.once {log : List (Message P)} (h : InOrder log) (hmem : msg ∈ log) : Once msg log := by
  unfold Once
  induction log with
  | nil => cases hmem
  | cons a log ih =>
    obtain ⟨hlt, hlog⟩ := List.pairwise_cons.mp h
    rcases List.mem_cons.mp hmem with rfl | hmem
    · have hnone : log.filter (fun a => a.publisher = msg.publisher ∧ a.number = msg.number) = [] := by
        refine List.filter_eq_nil_iff.mpr fun b hb heq => ?_
        obtain ⟨hpub, hnum⟩ := of_decide_eq_true heq
        have hb := hlt b hb hpub.symm
        omega
      rw [List.filter_cons_of_pos (by simp), hnone]
    · have ha : ¬ (a.publisher = msg.publisher ∧ a.number = msg.number) := by
        rintro ⟨hpub, hnum⟩
        have hb := hlt msg hmem hpub
        omega
      rw [List.filter_cons_of_neg (by simpa using ha)]
      exact ih hlog hmem

/-- However the calls and the consumers interleave: messages of one publisher arrive in
order, and no message of an active subscriber is forgotten. As long as every `Subscribe`
of its topic writes undisturbed up to the end of its `Publish`, a message is queued once
for a subscriber that is subscribed when the `Publish` starts and neither unsubscribed
nor shut down when it ends, and a consumer that goes on drains it while the subscriber is
active. -/
theorem stream_delivers (labels : List (Label P)) :
    (∀ s, InOrder ((run step .start labels).subs s).drained) ∧ (∀ s, ¬ Forgotten (run step .start labels) s) ∧
    ∀ before th topic payload during after s,
      labels = before ++ (.call th (.publish topic payload) :: during) ++ after →
      Undisturbed (· == topic) .start (before ++ .call th (.publish topic payload) :: during) →
      (run step .start before).threads th = .idle → Subscribed (run step .start before) s topic →
      (∀ x, .call x (.unsubscribe s topic) ∉ during) →
      ∀ msg ended, msg = ⟨topic, payload, th, (run step .start before).published th⟩ →
      ended = run step .start (before ++ .call th (.publish topic payload) :: during) →
      (ended.threads th).message? ≠ some msg → (ended.subs s).active = true →
      Once msg ((run step .start labels).subs s).log ∧ (((run step .start labels).subs s).active = true →
          2 * (ended.subs s).messages.length + 1 ≤ consumerSteps s ended after →
          Once msg ((run step .start labels).subs s).drained) := by
  have hinv := (undisturbed_nothing .start labels).streamInv
  have horder (s : ℕ) : InOrder ((run step .start labels).subs s).drained :=
    (List.pairwise_append.mp (hinv.logs.order s)).1
  refine ⟨horder, hinv.seen, ?_⟩
  rintro before th topic payload during after s rfl hok hidle hs hcall msg ended hmsg hended hdone hactive
  have hsplit := (along_append _).mp hok
  have hstart : StreamInv (· == topic) (run step .start before) := Undisturbed.streamInv hsplit.1
  have hqueued : msg ∈ (ended.subs s).log :=
    hstart.queued hsplit.2 (beq_self_eq_true topic) hidle hs hcall hmsg (by rw [hended, run_append]) hdone hactive
  rw [run_append, ← hended] at hinv horder ⊢
  exact ⟨(hinv.logs.order s).once ((run_log_grows ended s after).subset hqueued),
    fun hlive hsteps => (horder s).once (drained_of_queued hqueued hlive hsteps)⟩

def subscribed : List (Label ℕ) := [.call 0 (.subscribe 0 "t"), .step 0, .step 0, .step 0, .step 0]

def delivery : List (Label ℕ) :=
  [.step 1, .step 1, .visit 1 0, .step 1, .step 1, .step 1, .step 1, .step 1]

theorem subscribed_zero : Subscribed (run step Stream.start subscribed) 0 "t" := by
  refine ⟨by decide, by decide, fun th => ?_⟩
  rcases th with _ | th
  · decide
  · exact nofun

theorem stream_delivers_first : Once ⟨"t", 7, 1, 0⟩ ((run step .start
      (subscribed ++ (.call 1 (.publish "t" 7) :: delivery) ++ [.wake 0, .check 0, .dequeue 0])).subs 0).drained :=
  ((stream_delivers _).2.2 subscribed 1 "t" 7 delivery [.wake 0, .check 0, .dequeue 0] 0 rfl (by decide) rfl
    subscribed_zero (by simp [delivery]) ⟨"t", 7, 1, 0⟩ _ rfl rfl nofun (by decide)).2 (by decide) (by decide)

def racing : List (Label ℕ) :=
  [.call 0 (.subscribe 0 "t"), .step 0, .step 0, .step 0, .call 1 (.subscribe 1 "t"), .step 1, .step 1, .step 1,
    .step 0, .step 1]

theorem subscribed_racing : Subscribed (run step Stream.start racing) 0 "t" := by
  refine ⟨by decide, by decide, fun th => ?_⟩
  rcases th with _ | _ | th
  · decide
  · decide
  · exact nofun

/-- The message is queued when its `Publish` ends, the subscriber is shut down, and the
consumer that is woken up leaves it there. And a subscriber that lost the race for the
first map of a topic does not get a message published afterwards. -/
theorem stream_loses_messages : (Subscribed (run step Stream.start subscribed) 0 "t" ∧
    ∃ st, st = run step Stream.start
        (subscribed ++ (.call 1 (.publish "t" 7) :: delivery) ++ [.call 2 (.shutdown 0), .step 2, .step 2,
          .wake 0, .check 0]) ∧
      ((run step Stream.start (subscribed ++ (.call 1 (.publish "t" 7) :: delivery))).threads 1 = .idle) ∧
      (st.subs 0).messages = [⟨"t", 7, 1, 0⟩] ∧ (st.subs 0).drained = [] ∧ (st.subs 0).notify = false ∧
      (st.subs 0).consumer = .waiting ∧ ∀ th, st.threads th = .idle) ∧
    (Subscribed (run step Stream.start racing) 0 "t" ∧ ∃ st, st = run step Stream.start
        (racing ++ [.call 2 (.publish "t" 7), .step 2, .step 2, .visit 2 1, .step 2, .step 2, .step 2, .step 2,
          .step 2]) ∧
      st.threads 2 = .idle ∧ st.published 2 = 1 ∧ (st.subs 0).active = true ∧ (st.subs 0).log = []) := by
  refine ⟨⟨subscribed_zero, _, rfl, rfl, rfl, rfl, rfl, rfl, fun th => ?_⟩, subscribed_racing, _, rfl, rfl,
    rfl, rfl, rfl⟩
  rcases th with _ | _ | _ | th <;> rfl

end

end Ego.Eventstream

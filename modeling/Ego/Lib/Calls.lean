import Mathlib.Tactic.Common

/-!
# Programs that call a store

`wp` is the precondition that covers every fate of the calls; `Returns` is the run in
which every call is answered.
-/

namespace Ego.Lib

inductive Fate (ε : Type) where
  | answered
  | fails (err : ε) (applied : Bool)
  | cut

structure World (σ ε : Type) where
  contents : σ
  fates : List (Fate ε)

def Prog (σ ε α : Type) : Type := World σ ε → Option α × World σ ε

namespace Prog

variable {σ ε α β : Type}

instance : Monad (Prog σ ε) where
  pure a := fun w => (some a, w)
  bind p f := fun w =>
    match p w with
    | (some a, w') => f a w'
    | (none, w') => (none, w')

def call (f : σ → Except ε α × σ) : Prog σ ε (Except ε α) := fun w =>
  match w.fates with
  | [] => (some (f w.contents).1, ⟨(f w.contents).2, []⟩)
  | .answered :: fates => (some (f w.contents).1, ⟨(f w.contents).2, fates⟩)
  | .fails err applied :: fates =>
    (some (.error err), ⟨if applied then (f w.contents).2 else w.contents, fates⟩)
  | .cut :: fates => (none, ⟨w.contents, .cut :: fates⟩)

def read (f : σ → Except ε α) : Prog σ ε (Except ε α) := call fun c => (f c, c)

def write (f : σ → Except ε σ) : Prog σ ε (Except ε Unit) := call fun c =>
  match f c with
  | .ok c' => (.ok (), c')
  | .error err => (.error err, c)

def given (f : σ → Prog σ ε α) : Prog σ ε α := fun w => f w.contents w

def zoom {τ : Type} (get : σ → τ) (put : σ → τ → σ) (p : Prog τ ε α) : Prog σ ε α := fun w =>
  ((p ⟨get w.contents, w.fates⟩).1,
    ⟨put w.contents (p ⟨get w.contents, w.fates⟩).2.contents, (p ⟨get w.contents, w.fates⟩).2.fates⟩)

/-- Started in `c`, the program returns in `Q`, or is cut off in `C`. -/
def wp (p : Prog σ ε α) (Q : α → σ → Prop) (C : σ → Prop) (c : σ) : Prop :=
  ∀ fates, (∀ a w, p ⟨c, fates⟩ = (some a, w) → Q a w.contents) ∧
    ∀ w, p ⟨c, fates⟩ = (none, w) → C w.contents

variable {Q : α → σ → Prop} {C : σ → Prop} {c : σ}

variable {p : Prog σ ε α}

theorem wp.contents (h : wp p (fun _ => C) C c) (fates : List (Fate ε)) : C (p ⟨c, fates⟩).2.contents := by
  obtain ⟨hsome, hnone⟩ := h fates
  rcases hp : p ⟨c, fates⟩ with ⟨_ | a, w⟩
  · exact hnone w hp
  · exact hsome a w hp

theorem wp_pure {a : α} (h : Q a c) : wp (pure a : Prog σ ε α) Q C c := by
  intro fates
  refine ⟨fun b w hw => ?_, fun w hw => ?_⟩
  · obtain ⟨hb, rfl⟩ := Prod.mk.inj hw
    rwa [← Option.some.inj hb]
  · cases (Prod.mk.inj hw).1

theorem wp_mono {Q' : α → σ → Prop} {C' : σ → Prop} (h : wp p Q C c)
    (hq : ∀ a c, Q a c → Q' a c) (hc : ∀ c, C c → C' c) : wp p Q' C' c :=
  fun fates => ⟨fun a w hw => hq _ _ ((h fates).1 a w hw), fun w hw => hc _ ((h fates).2 w hw)⟩

theorem wp_bind {p : Prog σ ε β} {f : β → Prog σ ε α} (h : wp p (fun b => wp (f b) Q C) C c) :
    wp (p >>= f) Q C c := by
  intro fates
  obtain ⟨hsome, hnone⟩ := h fates
  change (∀ a w, (match p ⟨c, fates⟩ with
      | (some b, w') => f b w'
      | (none, w') => (none, w')) = (some a, w) → Q a w.contents) ∧ ∀ w, (match p ⟨c, fates⟩ with
      | (some b, w') => f b w'
      | (none, w') => (none, w')) = (none, w) → C w.contents
  rcases hp : p ⟨c, fates⟩ with ⟨_ | b, w'⟩
  · refine ⟨fun a w hw => ?_, fun w hw => ?_⟩
    · cases (Prod.mk.inj hw).1
    · rw [← (Prod.mk.inj hw).2]
      exact hnone w' hp
  · exact hsome b w' hp w'.fates

theorem wp_given {f : σ → Prog σ ε α} (h : wp (f c) Q C c) : wp (given f) Q C c := h

theorem wp_zoom {τ : Type} {get : σ → τ} {put : σ → τ → σ} {p : Prog τ ε α}
    (h : wp p (fun a t => Q a (put c t)) (fun t => C (put c t)) (get c)) : wp (zoom get put p) Q C c := by
  intro fates
  obtain ⟨hsome, hnone⟩ := h fates
  refine ⟨fun a w hw => ?_, fun w hw => ?_⟩
  · obtain ⟨ha, rfl⟩ := Prod.mk.inj hw
    exact hsome a _ (Prod.ext ha rfl)
  · obtain ⟨ha, rfl⟩ := Prod.mk.inj hw
    exact hnone _ (Prod.ext ha rfl)

theorem wp_call {f : σ → Except ε α × σ} {Q : Except ε α → σ → Prop} (hcut : C c)
    (hanswer : Q (f c).1 (f c).2) (hfail : ∀ err, Q (.error err) c) (happlied : ∀ err, Q (.error err) (f c).2) :
    wp (call f) Q C c := by
  intro fates
  refine ⟨fun a w hw => ?_, fun w hw => ?_⟩
  · unfold call at hw
    split at hw
    · obtain ⟨ha, rfl⟩ := Prod.mk.inj hw
      rwa [← Option.some.inj ha]
    · obtain ⟨ha, rfl⟩ := Prod.mk.inj hw
      rwa [← Option.some.inj ha]
    · obtain ⟨ha, rfl⟩ := Prod.mk.inj hw
      rw [← Option.some.inj ha]
      split
      · exact happlied _
      · exact hfail _
    · cases (Prod.mk.inj hw).1
  · unfold call at hw
    split at hw
    · cases (Prod.mk.inj hw).1
    · cases (Prod.mk.inj hw).1
    · cases (Prod.mk.inj hw).1
    · rw [← (Prod.mk.inj hw).2]
      exact hcut

theorem wp_read {f : σ → Except ε β} {k : Except ε β → Prog σ ε α} (hcut : C c)
    (herr : ∀ err, wp (k (.error err)) Q C c) (hok : ∀ b, f c = .ok b → wp (k (.ok b)) Q C c) :
    wp (read f >>= k) Q C c := by
  refine wp_bind (wp_call hcut ?_ herr herr)
  cases hf : f c with
  | error err => exact herr err
  | ok b => exact hok b hf

variable {f : σ → Except ε σ} {k : Except ε Unit → Prog σ ε α}

theorem wp_write (hcut : C c) (herr : ∀ err, wp (k (.error err)) Q C c)
    (hok : ∀ c', f c = .ok c' → wp (k (.ok ())) Q C c' ∧ ∀ err, wp (k (.error err)) Q C c') :
    wp (write f >>= k) Q C c := by
  refine wp_bind (wp_call hcut ?_ herr fun err => ?_)
  · cases hf : f c with
    | error err => exact herr err
    | ok c' => exact (hok c' hf).1
  · cases hf : f c with
    | error err' => exact herr err
    | ok c' => exact (hok c' hf).2 err

/-- With all calls answered, the program takes `c` to `c'` and returns `a`. -/
def Returns (p : Prog σ ε α) (c : σ) (a : α) (c' : σ) : Prop := p ⟨c, []⟩ = (some a, ⟨c', []⟩)

variable {c' c'' : σ} {a : α}

theorem returns_pure : Returns (pure a : Prog σ ε α) c a c := rfl

theorem Returns.bind {p : Prog σ ε β} {f : β → Prog σ ε α} {b : β} (hp : Returns p c b c')
    (hf : Returns (f b) c' a c'') : Returns (p >>= f) c a c'' := by
  change (match p ⟨c, []⟩ with
    | (some b, w') => f b w'
    | (none, w') => (none, w')) = _
  rw [hp]
  exact hf

theorem returns_given {f : σ → Prog σ ε α} (h : Returns (f c) c a c') : Returns (given f) c a c' := h

theorem returns_zoom {τ : Type} {get : σ → τ} {put : σ → τ → σ} {p : Prog τ ε α} {t : τ}
    (h : Returns p (get c) a t) : Returns (zoom get put p) c a (put c t) := by
  unfold Returns zoom
  rw [h]

theorem returns_read {f : σ → Except ε β} {k : Except ε β → Prog σ ε α} {r : Except ε β} (hf : f c = r)
    (hk : Returns (k r) c a c') : Returns (read f >>= k) c a c' := by
  have hr : Returns (read f) c r c := by
    rw [← hf]
    rfl
  exact hr.bind hk

theorem returns_write {d : σ} (hf : f c = .ok d)
    (hk : Returns (k (.ok ())) d a c') : Returns (write f >>= k) c a c' := by
  have hw : Returns (write f) c (.ok ()) d := by simp only [Returns, write, call, hf]
  exact hw.bind hk

theorem returns_write_error {err : ε}
    (hf : f c = .error err) (hk : Returns (k (.error err)) c a c') : Returns (write f >>= k) c a c' := by
  have hw : Returns (write f) c (.error err) c := by simp only [Returns, write, call, hf]
  exact hw.bind hk

theorem wp.returns (h : wp p Q C c) (hp : Returns p c a c') : Q a c' :=
  (h []).1 a _ hp

/-- With all calls answered the program returns `a` in `c'`, and whatever becomes of them it leaves `C`. -/
structure Meets (p : Prog σ ε α) (c : σ) (a : α) (c' : σ) (C : σ → Prop) : Prop where
  returns : Returns p c a c'
  stays : wp p (fun _ => C) C c

theorem meets_pure (h : C c) : Meets (pure a : Prog σ ε α) c a c C := ⟨returns_pure, wp_pure h⟩

theorem meets_read {f : σ → Except ε β} {k : Except ε β → Prog σ ε α} {b : β} (hf : f c = .ok b) (h : C c)
    (herr : ∀ err, wp (k (.error err)) (fun _ => C) C c) (hk : Meets (k (.ok b)) c a c' C) :
    Meets (read f >>= k) c a c' C := by
  refine ⟨returns_read hf hk.returns, wp_read h herr fun b' hb' => ?_⟩
  obtain rfl := Except.ok.inj (hf.symm.trans hb')
  exact hk.stays

theorem meets_write {d : σ} (hf : f c = .ok d) (h : C c)
    (herr : ∀ err, wp (k (.error err)) (fun _ => C) C c ∧ wp (k (.error err)) (fun _ => C) C d)
    (hk : Meets (k (.ok ())) d a c' C) : Meets (write f >>= k) c a c' C := by
  refine ⟨returns_write hf hk.returns, wp_write h (fun err => (herr err).1) fun d' hd' => ?_⟩
  obtain rfl := Except.ok.inj (hf.symm.trans hd')
  exact ⟨hk.stays, fun err => (herr err).2⟩

theorem meets_write_error {err : ε} (hf : f c = .error err)
    (h : C c) (herr : ∀ err, wp (k (.error err)) (fun _ => C) C c) (hk : Returns (k (.error err)) c a c') :
    Meets (write f >>= k) c a c' C := by
  refine ⟨returns_write_error hf hk, wp_write h herr fun d' hd' => ?_⟩
  cases hf.symm.trans hd'

end Prog

end Ego.Lib

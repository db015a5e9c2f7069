import Ego.Lib.Paging
import Mathlib.Data.List.Perm.Subperm

/-!
# What a reader of pages has seen

A reader may be interested only in the elements after some key at or above the offset
it starts from; then a cut through elements of that very key is harmless.
-/

namespace Ego.Lib

section
variable {σ : Type*} (step : ℕ → σ → σ)

def steps : ℕ → ℕ → σ → σ
  | 0, _, s => s
  | n + 1, i, s => steps n (i + 1) (step i s)

theorem steps_succ (n i : ℕ) (s : σ) : steps step (n + 1) i s = step (i + n) (steps step n i s) := by
  induction n generalizing i s with
  | zero => rfl
  | succ n ih =>
    have h := ih (i + 1) (step i s)
    rw [Nat.add_right_comm, Nat.add_assoc] at h
    exact h

end

variable {α : Type*} {key : α → ℤ} {m : ℕ} {listing : ℕ → List α}
  {page : ℕ → ℤ → Option (List α × ℤ)} {i : ℕ} {offset next : ℤ} {xs table : List α}

def readStep (page : ℕ → ℤ → Option (List α × ℤ)) (i : ℕ) (r : ℤ × List α) : ℤ × List α :=
  match page i r.1 with
  | some (x :: xs, next) => (next, r.2 ++ x :: xs)
  | _ => r

variable {read : List α}

theorem readStep_nil (h : page i offset = some ([], next)) : readStep page i (offset, read) = (offset, read) := by
  simp only [readStep, h]

theorem readStep_cons (hne : xs ≠ []) (h : page i offset = some (xs, next)) :
    readStep page i (offset, read) = (next, read ++ xs) := by
  obtain ⟨x, xs', rfl⟩ := List.exists_cons_of_ne_nil hne
  simp only [readStep, h]

variable {fuel : ℕ}

theorem drain_unique {fuel' : ℕ} {read' : List α} (h : drain page fuel i offset = some read)
    (h' : drain page fuel' i offset = some read') : read = read' := by
  induction fuel generalizing fuel' i offset read read' with
  | zero => simp [drain] at h
  | succ fuel ih =>
    cases fuel' with
    | zero => simp [drain] at h'
    | succ fuel' =>
      simp only [drain] at h h'
      split at h
      · simp at h
      · rename_i heq
        simp only [heq] at h'
        exact (Option.some.inj h).symm.trans (Option.some.inj h')
      · rename_i heq
        simp only [heq, Option.map_eq_some_iff] at h h'
        obtain ⟨later, hl, rfl⟩ := h
        obtain ⟨later', hl', rfl⟩ := h'
        rw [ih hl hl']

section
variable (hl : ∀ i, (listing i).Perm table)
include hl

section
variable (hr : Reads key m listing page)
include hr

theorem Reads.page_nil
    (h : page i offset = some ([], next)) (j : ℕ) : ∃ next', page j offset = some ([], next') := by
  obtain ⟨xs, next₁, hpage, his⟩ := hr i offset
  rw [h] at hpage
  cases hpage
  obtain ⟨ys, next₂, hpage', his'⟩ := hr j offset
  have hlen := his.perm.length_eq
  have hlen' := his'.perm.length_eq
  have hi := (after_perm key (hl i) offset).length_eq
  have hj := (after_perm key (hl j) offset).length_eq
  simp only [List.length_take, List.length_nil, hi] at hlen
  simp only [List.length_take, hj, ← hlen] at hlen'
  exact ⟨next₂, by rw [hpage', List.eq_nil_of_length_eq_zero hlen']⟩

theorem Reads.steps_of_nil (h : page i offset = some ([], next)) (n j : ℕ) (read : List α) :
    steps (readStep page) n j (offset, read) = (offset, read) := by
  induction n generalizing j with
  | zero => rfl
  | succ n ih =>
    obtain ⟨next', hj⟩ := hr.page_nil hl h j
    rw [steps, readStep_nil hj, ih]

theorem Reads.steps_of_drain (h : drain page fuel i offset = some read) (n : ℕ) (before : List α) :
    ∃ part, (steps (readStep page) n i (offset, before)).2 = before ++ part ∧ part <+: read := by
  induction fuel generalizing i offset read n before with
  | zero => simp [drain] at h
  | succ fuel ih =>
    cases n with
    | zero => exact ⟨[], by simp [steps], List.nil_prefix⟩
    | succ n =>
      obtain ⟨xs, next, hpage, -⟩ := hr i offset
      by_cases hne : xs = []
      · subst hne
        exact ⟨[], by rw [hr.steps_of_nil hl hpage, List.append_nil], List.nil_prefix⟩
      · rw [drain_cons hne hpage, Option.map_eq_some_iff] at h
        obtain ⟨later, hlater, rfl⟩ := h
        obtain ⟨part, hpart, hpre⟩ := ih hlater n (before ++ xs)
        refine ⟨xs ++ part, ?_, (List.prefix_append_right_inj xs).mpr hpre⟩
        rw [steps, readStep_cons hne hpage, hpart, List.append_assoc]

theorem Reads.steps_of_drain_all (h : drain page fuel i offset = some read) (before : List α) :
    (steps (readStep page) fuel i (offset, before)).2 = before ++ read := by
  induction fuel generalizing i offset read before with
  | zero => simp [drain] at h
  | succ fuel ih =>
    obtain ⟨xs, next, hpage, -⟩ := hr i offset
    by_cases hne : xs = []
    · subst hne
      simp only [drain, hpage, Option.some.injEq] at h
      rw [hr.steps_of_nil hl hpage, ← h, List.append_nil]
    · rw [drain_cons hne hpage, Option.map_eq_some_iff] at h
      obtain ⟨later, hlater, rfl⟩ := h
      rw [steps, readStep_cons hne hpage, ih hlater, List.append_assoc]

theorem Reads.exists_drain (i : ℕ) (offset : ℤ) :
    ∃ fuel read, drain page fuel i offset = some read := by
  induction hn : (after key offset table).length using Nat.strongRecOn generalizing i offset with
  | ind n ih =>
    obtain ⟨xs, next, hpage, his⟩ := hr i offset
    by_cases hne : xs = []
    · subst hne
      exact ⟨1, [], by simp [drain, hpage]⟩
    · obtain ⟨y, hy, hnext⟩ := his.next_mem hne
      have hy' : y ∈ after key offset table := (after_perm key (hl i) offset).mem_iff.mp hy
      have hlt : (after key next table).length < n := by
        rw [← hn, ← after_after table (Int.le_of_lt (hnext ▸ (mem_after.mp hy').2))]
        refine List.length_filter_lt_length_iff_exists.mpr ⟨y, hy', ?_⟩
        simp [hnext]
      obtain ⟨fuel, later, hlater⟩ := ih _ hlt (i + 1) next rfl
      exact ⟨fuel + 1, xs ++ later, by rw [drain_cons hne hpage, hlater]; rfl⟩

theorem Reads.drain_subperm (h : drain page fuel i offset = some read) :
    read.Subperm (after key offset table) ∧ read.Pairwise fun x y => key x ≤ key y := by
  induction fuel generalizing i offset read with
  | zero => simp [drain] at h
  | succ fuel ih =>
    obtain ⟨xs, next, hpage, his⟩ := hr i offset
    by_cases hne : xs = []
    · subst hne
      simp only [drain, hpage, Option.some.injEq] at h
      subst h
      exact ⟨List.nil_subperm, .nil⟩
    · rw [drain_cons hne hpage, Option.map_eq_some_iff] at h
      obtain ⟨later, hlater, rfl⟩ := h
      obtain ⟨hsub, hsorted⟩ := ih hlater
      obtain ⟨y, hy, hnext⟩ := his.next_mem hne
      have hle : offset ≤ next := hnext ▸ Int.le_of_lt (mem_after.mp hy).2
      have hkeys : ∀ x ∈ xs, key x ≤ next := fun x hx => his.le_next x (his.perm.mem_iff.mp hx)
      constructor
      · -- the page lies at or below the next offset, the rest above it
        have hpage_sub : xs.Subperm (after key offset table) :=
          (his.perm.subperm.trans (List.take_sublist m _).subperm).trans
            (after_perm key (hl i) offset).subperm
        have hlow := hpage_sub.filter fun x => !decide (next < key x)
        have hself : (xs.filter fun x => !decide (next < key x)) = xs := by
          rw [List.filter_eq_self]
          intro x hx
          have := hkeys x hx
          simpa using this
        rw [hself] at hlow
        rw [← after_after table hle] at hsub
        refine (hlow.append hsub).trans (List.Perm.subperm ?_)
        exact List.perm_append_comm.trans (List.filter_append_perm _ _)
      · refine List.pairwise_append.mpr ⟨his.sorted, hsorted, fun x hx y hy => ?_⟩
        have hx' := hkeys x hx
        have hy' := hr.drain_after hlater y hy
        omega

theorem Reads.delivers_iff_subperm (h : drain page fuel i offset = some read) :
    Delivers key page i offset (after key offset table) ↔ (after key offset table).Subperm read := by
  obtain ⟨hsub, hsorted⟩ := hr.drain_subperm hl h
  constructor
  · rintro ⟨fuel', read', hread', hperm, -⟩
    rw [drain_unique h hread']
    exact hperm.symm.subperm
  · intro hall
    exact ⟨fuel, read, h, hsub.antisymm hall, hsorted⟩

end

end

theorem filter_append_after {ys : List α} (hs : ys.Pairwise fun x y => key x ≤ key y) (t : ℤ) :
    (ys.filter fun x => decide (key x ≤ t)) ++ after key t ys = ys := by
  induction ys with
  | nil => rfl
  | cons y ys ih =>
    obtain ⟨hy, hs⟩ := List.pairwise_cons.mp hs
    by_cases hyt : key y ≤ t
    · have hnot : ¬ t < key y := by omega
      simp only [after, List.filter_cons, hyt, hnot, decide_true, decide_false, if_true] at ih ⊢
      simpa using ih hs
    · have hlt : t < key y := by omega
      have hall : ys.filter (fun x => decide (key x ≤ t)) = [] := by
        rw [List.filter_eq_nil_iff]
        intro x hx
        have := hy x hx
        simp only [decide_eq_true_eq]
        omega
      have hafter := ih hs
      simp only [after, List.filter_cons, hyt, hlt, decide_true, decide_false, if_true] at hafter ⊢
      simpa [hall] using hafter

section
variable {t : ℤ} {rest : List α}

theorem IsPage.perm_append (his : IsPage key m rest xs next) (hs : rest.Pairwise fun x y => key x ≤ key y) (t : ℤ) :
    xs.Perm ((rest.filter fun x => decide (key x ≤ t)).take m ++
      (after key t rest).take (m - (rest.filter fun x => decide (key x ≤ t)).length)) := by
  rw [← List.take_append, filter_append_after hs]
  exact his.perm

theorem IsPage.after_next_drop (his : IsPage key m rest xs next) (hne : xs ≠ [])
    (hs : rest.Pairwise fun x y => key x ≤ key y)
    (hsep : Separated (m - (rest.filter fun x => decide (key x ≤ t)).length) ((after key t rest).map key)) :
    after key next (after key t rest) =
      (after key t rest).drop (m - (rest.filter fun x => decide (key x ≤ t)).length) := by
  have hperm := his.perm_append hs t
  generalize m - (rest.filter fun x => decide (key x ≤ t)).length = k at hperm hsep ⊢
  have htake : ∀ x ∈ (after key t rest).take k, key x ≤ next := fun x hx =>
    his.le_next x (his.perm.mem_iff.mp (hperm.mem_iff.mpr (List.mem_append_right _ hx)))
  have hdrop : ∀ y ∈ (after key t rest).drop k, next < key y := by
    intro y hy
    have hty : t < key y := (mem_after.mp (List.mem_of_mem_drop hy)).2
    have hlast := his.next_eq hne
    rcases List.mem_append.mp (hperm.mem_iff.mp (List.getLast_mem hne)) with hlow | hhigh
    · have hle := of_decide_eq_true (List.mem_filter.mp (List.mem_of_mem_take hlow)).2
      omega
    · rw [hlast]
      refine hsep _ ?_ _ ?_
      · rw [← List.map_take]
        exact List.mem_map_of_mem hhigh
      · rw [← List.map_drop]
        exact List.mem_map_of_mem hy
  conv_lhs => rw [← List.take_append_drop k (after key t rest)]
  rw [after, List.filter_append, List.filter_eq_nil_iff.mpr, List.filter_eq_self.mpr, List.nil_append]
  · exact fun y hy => decide_eq_true (hdrop y hy)
  · intro x hx
    have := htake x hx
    simpa using this

theorem Reads.subperm_cons_iff (hr : Reads key m listing page) (hl : ∀ i, (listing i).Perm table)
    (hs : (listing i).Pairwise fun x y => key x ≤ key y) (ht : offset ≤ t) (hne : xs ≠ [])
    (his : IsPage key m (after key offset (listing i)) xs next) (htn : t ≤ next) {later : List α}
    (hlater : drain page fuel (i + 1) next = some later) : (after key t table).Subperm (xs ++ later) ↔
      Separated (m - ((after key offset (listing i)).filter fun x => decide (key x ≤ t)).length)
          ((after key t (listing i)).map key) ∧ (after key next table).Subperm later := by
  have hs' : (after key offset (listing i)).Pairwise fun x y => key x ≤ key y := hs.filter _
  have hperm := his.perm_append hs' t
  have hdropped := fun hsep => his.after_next_drop (t := t) hne hs' hsep
  rw [after_after _ ht] at hperm hdropped
  generalize m - ((after key offset (listing i)).filter fun x => decide (key x ≤ t)).length = k
    at hperm hdropped ⊢
  have htable : (after key t (listing i)).Perm (after key t table) := after_perm key (hl i) t
  have hle : ∀ x ∈ (after key t (listing i)).take k, key x ≤ next := fun x hx =>
    his.le_next x (his.perm.mem_iff.mp (hperm.mem_iff.mpr (List.mem_append_right _ hx)))
  have hrest (hsep : Separated k ((after key t (listing i)).map key)) :
      ((after key t (listing i)).drop k).Perm (after key next table) := by
    rw [← hdropped hsep, after_after _ htn]
    exact after_perm key (hl i) next
  constructor
  · intro hall
    -- what lies up to `t` does not count, and the page's share cancels
    have hsub := (htable.subperm.trans hall).filter fun x => decide (t < key x)
    have hself : (after key t (listing i)).filter (fun x => decide (t < key x)) =
        after key t (listing i) := after_after (listing i) (Int.le_refl t)
    have hlow : (((after key offset (listing i)).filter fun x => decide (key x ≤ t)).take m).filter
        (fun x => decide (t < key x)) = [] := by
      rw [List.filter_eq_nil_iff]
      intro x hx
      have := of_decide_eq_true (List.mem_filter.mp (List.mem_of_mem_take hx)).2
      simp only [decide_eq_true_eq]
      omega
    have hhigh : ((after key t (listing i)).take k).filter (fun x => decide (t < key x)) =
        (after key t (listing i)).take k := by
      rw [List.filter_eq_self]
      exact fun x hx => decide_eq_true (mem_after.mp (List.mem_of_mem_take hx)).2
    have hxs : (xs.filter fun x => decide (t < key x)).Perm ((after key t (listing i)).take k) := by
      have h := hperm.filter fun x => decide (t < key x)
      rwa [List.filter_append, hlow, hhigh, List.nil_append] at h
    rw [hself, List.filter_append] at hsub
    have hcancel : ((after key t (listing i)).drop k).Subperm later := by
      have h := hsub.trans ((hxs.append_right _).subperm)
      conv at h => lhs; rw [← List.take_append_drop k (after key t (listing i))]
      exact ((List.subperm_append_left _).mp h).trans (List.filter_sublist).subperm
    have hsep : Separated k ((after key t (listing i)).map key) := by
      intro x hx y hy
      rw [← List.map_take] at hx
      rw [← List.map_drop] at hy
      obtain ⟨x, hxm, rfl⟩ := List.mem_map.mp hx
      obtain ⟨y, hym, rfl⟩ := List.mem_map.mp hy
      have hxle := hle x hxm
      have hylt := hr.drain_after hlater y (hcancel.subset hym)
      omega
    exact ⟨hsep, (hrest hsep).symm.subperm.trans hcancel⟩
  · rintro ⟨hsep, hall⟩
    refine htable.symm.subperm.trans ?_
    conv_lhs => rw [← List.take_append_drop k (after key t (listing i))]
    refine List.Subperm.append ?_ ((hrest hsep).subperm.trans hall)
    exact (List.sublist_append_right _ _).subperm.trans hperm.symm.subperm

end

theorem Reads.subperm_iff_apart (hr : Reads key m listing page) (hm : 0 < m)
    (hl : ∀ i, (listing i).Perm table) (hs : ∀ i, (listing i).Pairwise fun x y => key x ≤ key y)
    {t : ℤ} (ht : offset ≤ t) (hgap : ∀ x ∈ table, offset < key x → t ≤ key x) {keys : List ℤ}
    (hk : ∀ i, (after key t (listing i)).map key = keys) (h : drain page fuel i offset = some read) :
    (after key t table).Subperm read ↔
      Separated (m - ((after key offset table).filter fun x => decide (key x ≤ t)).length) keys ∧
        Apart m (keys.drop (m - ((after key offset table).filter fun x => decide (key x ≤ t)).length)) := by
  have hcount : ((after key offset (listing i)).filter fun x => decide (key x ≤ t)).length =
      ((after key offset table).filter fun x => decide (key x ≤ t)).length :=
    ((after_perm key (hl i) offset).filter _).length_eq
  obtain ⟨xs, next, hpage, his⟩ := hr i offset
  by_cases hne : xs = []
  · subst hne
    have hrest : after key offset (listing i) = [] := by
      rcases List.take_eq_nil_iff.mp his.perm.symm.eq_nil with hzero | hnil
      · omega
      · exact hnil
    have hkeys : keys = [] := by
      rw [← hk i, ← after_after _ ht, hrest]
      rfl
    have hempty : after key t table = [] := by
      apply List.eq_nil_of_length_eq_zero
      rw [← (after_perm key (hl i) t).length_eq, ← List.length_map key, hk i, hkeys, List.length_nil]
    rw [hempty, hkeys]
    refine iff_of_true List.nil_subperm ⟨separated_of_length_le (Nat.zero_le _), ?_⟩
    exact apart_of_length_le (by simp)
  · cases fuel with
    | zero => simp [drain] at h
    | succ fuel =>
      rw [drain_cons hne hpage, Option.map_eq_some_iff] at h
      obtain ⟨later, hlater, rfl⟩ := h
      have htn : t ≤ next := by
        obtain ⟨y, hy, rfl⟩ := his.next_mem hne
        have hy := (after_perm key (hl i) offset).mem_iff.mp hy
        exact hgap y (mem_after.mp hy).1 (mem_after.mp hy).2
      rw [hr.subperm_cons_iff hl (hs i) ht hne his htn hlater, hk i, hcount]
      refine and_congr_right fun hsep => ?_
      have hdrop (j : ℕ) : (after key next (listing j)).map key = keys.drop
          (m - ((after key offset table).filter fun x => decide (key x ≤ t)).length) := by
        -- the keys after the next offset are the same in all listings
        have hall (j : ℕ) : (after key next (listing j)).map key =
            keys.filter fun k => decide (next < k) := by
          rw [← hk j, ← map_after, after_after _ htn]
        have hnext := his.after_next_drop (t := t) hne ((hs i).filter _)
          (by rwa [after_after _ ht, hk i, hcount])
        rw [hall j, ← hall i, ← after_after _ htn, ← after_after (listing i) ht, hnext, hcount,
          after_after _ ht, List.map_drop, hk i]
      rw [← hr.delivers_iff_subperm hl hlater]
      exact hr.delivers_iff_apart hm hl hdrop (i + 1)

end Ego.Lib

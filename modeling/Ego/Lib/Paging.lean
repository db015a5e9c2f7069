import Mathlib.Data.List.Perm.Basic
import Mathlib.Data.Int.Order.Basic

/-!
# Reading a table page by page

Whatever the cut leaves behind at or below the last key of a page is never seen again.
-/

namespace Ego.Lib

variable {α : Type*} (key : α → ℤ)

def after (offset : ℤ) (xs : List α) : List α := xs.filter fun x => offset < key x

def Separated (m : ℕ) (keys : List ℤ) : Prop := ∀ x ∈ keys.take m, ∀ y ∈ keys.drop m, x < y

def Apart (m : ℕ) (keys : List ℤ) : Prop := ∀ k, Separated (k * m) keys

instance (m : ℕ) (keys : List ℤ) : Decidable (Separated m keys) :=
  inferInstanceAs (Decidable (∀ x ∈ keys.take m, ∀ y ∈ keys.drop m, x < y))

structure IsPage (m : ℕ) (rest xs : List α) (next : ℤ) : Prop where
  perm : xs.Perm (rest.take m)
  sorted : xs.Pairwise fun x y => key x ≤ key y
  next_eq : ∀ h : xs ≠ [], next = key (xs.getLast h)

def drain (page : ℕ → ℤ → Option (List α × ℤ)) : ℕ → ℕ → ℤ → Option (List α)
  | 0, _, _ => none
  | fuel + 1, i, offset =>
    match page i offset with
    | none => none
    | some ([], _) => some []
    | some (xs, next) => (drain page fuel (i + 1) next).map (xs ++ ·)

def Delivers (page : ℕ → ℤ → Option (List α × ℤ)) (i : ℕ) (offset : ℤ) (wanted : List α) : Prop :=
  ∃ fuel xs, drain page fuel i offset = some xs ∧ xs.Perm wanted ∧ xs.Pairwise fun x y => key x ≤ key y

variable {key} {m : ℕ}

theorem separated_zero (keys : List ℤ) : Separated 0 keys := by simp [Separated]

variable {keys : List ℤ}

theorem separated_of_length_le (h : keys.length ≤ m) : Separated m keys := by
  simp [Separated, List.drop_eq_nil_of_le h]

theorem apart_iff : Apart m keys ↔ Separated m keys ∧ Apart m (keys.drop m) := by
  constructor
  · intro h
    refine ⟨by simpa using h 1, fun k x hx y hy => ?_⟩
    have hk : (k + 1) * m = m + k * m := by
      rw [Nat.add_mul, Nat.one_mul, Nat.add_comm]
    refine h (k + 1) x ?_ y ?_
    · rw [hk, List.take_add]
      exact List.mem_append_right _ hx
    · rwa [hk, ← List.drop_drop]
  · rintro ⟨h1, h2⟩ k
    cases k with
    | zero => simpa using separated_zero keys
    | succ k =>
      have hk : (k + 1) * m = m + k * m := by
        rw [Nat.add_mul, Nat.one_mul, Nat.add_comm]
      intro x hx y hy
      rw [hk, List.take_add] at hx
      rw [hk, ← List.drop_drop] at hy
      rcases List.mem_append.mp hx with hx | hx
      · exact h1 x hx y (List.mem_of_mem_drop hy)
      · exact h2 k x hx y hy

theorem apart_of_length_le (h : keys.length ≤ m) : Apart m keys := by
  intro k
  cases k with
  | zero => simpa using separated_zero keys
  | succ k =>
    apply separated_of_length_le
    exact Nat.le_trans h (Nat.le_mul_of_pos_left m (Nat.succ_pos k))

theorem getElem_mem_take {xs : List ℤ} (ys : List ℤ) {i : ℕ} (hi : i < xs.length) (him : i < m) :
    xs[i] ∈ (xs ++ ys).take m := by
  have hlen : i < ((xs ++ ys).take m).length := by
    simp only [List.length_take, List.length_append]
    omega
  have h : ((xs ++ ys).take m)[i] = xs[i] := by
    rw [List.getElem_take, List.getElem_append_left hi]
  exact h ▸ List.getElem_mem hlen

theorem getElem_mem_drop {ys : List ℤ} (xs : List ℤ) {i : ℕ} (hi : i < ys.length)
    (him : m ≤ xs.length + i) : ys[i] ∈ (xs ++ ys).drop m := by
  have hlen : xs.length + i - m < ((xs ++ ys).drop m).length := by
    simp only [List.length_drop, List.length_append]
    omega
  have h : ((xs ++ ys).drop m)[xs.length + i - m] = ys[i] := by
    rw [List.getElem_drop, List.getElem_append_right (by omega)]
    congr 1
    omega
  exact h ▸ List.getElem_mem hlen

theorem not_separated_both {xs ys zs : List ℤ} (hm : 0 < m) (hx : xs ≠ []) (hz : zs ≠ [])
    (hlen : m < (xs ++ ys ++ zs).length) (h₁ : Separated m (xs ++ ys ++ zs)) : ¬ Separated m (zs ++ ys ++ xs) := by
  intro h₂
  have hx := List.length_pos_of_ne_nil hx
  have hz := List.length_pos_of_ne_nil hz
  simp only [List.length_append] at hlen
  have hi : min m xs.length - 1 < xs.length := by omega
  have hj : min m zs.length - 1 < zs.length := by omega
  have hlt := h₁ _ (List.append_assoc xs ys zs ▸ getElem_mem_take (ys ++ zs) hi (by omega)) _
    (getElem_mem_drop (xs ++ ys) hj (by simp only [List.length_append]; omega))
  have hgt := h₂ _ (List.append_assoc zs ys xs ▸ getElem_mem_take (ys ++ xs) hj (by omega)) _
    (getElem_mem_drop (zs ++ ys) hi (by simp only [List.length_append]; omega))
  omega

variable {xs : List α}

variable (key) in
theorem after_perm {ys : List α} (h : xs.Perm ys) (offset : ℤ) :
    (after key offset xs).Perm (after key offset ys) := h.filter _

theorem after_after (xs : List α) {o o' : ℤ} (h : o ≤ o') : after key o' (after key o xs) = after key o' xs := by
  simp only [after, List.filter_filter]
  apply List.filter_congr
  simp only [Bool.and_eq_decide, decide_eq_true_eq, decide_eq_decide]
  omega

theorem map_after (xs : List α) (o : ℤ) :
    (after key o xs).map key = (xs.map key).filter fun k => decide (o < k) := by
  rw [after, List.filter_map]
  rfl

theorem mem_after {o : ℤ} {x : α} : x ∈ after key o xs ↔ x ∈ xs ∧ o < key x := by
  simp [after]

variable {rest : List α} {next : ℤ}

theorem IsPage.le_next (h : IsPage key m rest xs next) : ∀ x ∈ rest.take m, key x ≤ next := by
  intro x hx
  have hmem : x ∈ xs := h.perm.mem_iff.mpr hx
  have hne : xs ≠ [] := List.ne_nil_of_mem hmem
  rw [h.next_eq hne]
  have hs := h.sorted
  rw [← List.dropLast_append_getLast hne, List.pairwise_append] at hs
  rw [← List.dropLast_append_getLast hne] at hmem
  rcases List.mem_append.mp hmem with hmem | hmem
  · exact hs.2.2 x hmem _ (by simp)
  · rw [List.mem_singleton.mp hmem]

theorem IsPage.next_mem (h : IsPage key m rest xs next) (hne : xs ≠ []) : ∃ x ∈ rest, key x = next := by
  refine ⟨xs.getLast hne, ?_, (h.next_eq hne).symm⟩
  exact List.mem_of_mem_take (h.perm.mem_iff.mp (List.getLast_mem hne))

theorem IsPage.after_next (h : IsPage key m rest xs next) (hne : xs ≠ [])
    (hs : Separated m (rest.map key)) : after key next rest = rest.drop m := by
  conv_lhs => rw [← List.take_append_drop m rest]
  rw [after, List.filter_append]
  have htake : (rest.take m).filter (fun x => decide (next < key x)) = [] := by
    rw [List.filter_eq_nil_iff]
    intro x hx
    have := h.le_next x hx
    simpa using this
  have hdrop : (rest.drop m).filter (fun x => decide (next < key x)) = rest.drop m := by
    rw [List.filter_eq_self]
    intro y hy
    have hmem : xs.getLast hne ∈ rest.take m := h.perm.mem_iff.mp (List.getLast_mem hne)
    rw [h.next_eq hne]
    refine decide_eq_true (hs _ ?_ _ ?_)
    · rw [← List.map_take]
      exact List.mem_map_of_mem hmem
    · rw [← List.map_drop]
      exact List.mem_map_of_mem hy
  rw [htake, hdrop, List.nil_append]

variable (key) in
def Reads (m : ℕ) (listing : ℕ → List α) (page : ℕ → ℤ → Option (List α × ℤ)) : Prop :=
  ∀ i offset, ∃ xs next, page i offset = some (xs, next) ∧ IsPage key m (after key offset (listing i)) xs next

section
variable {listing : ℕ → List α} {page : ℕ → ℤ → Option (List α × ℤ)} {i : ℕ} {offset next : ℤ}
  {xs table : List α}

theorem drain_cons (hne : xs ≠ []) (hpage : page i offset = some (xs, next)) (fuel : ℕ) :
    drain page (fuel + 1) i offset = (drain page fuel (i + 1) next).map (xs ++ ·) := by
  simp only [drain, hpage]

theorem Reads.drain_after (hr : Reads key m listing page) {fuel : ℕ} {read : List α}
    (h : drain page fuel i offset = some read) : ∀ x ∈ read, offset < key x := by
  induction fuel generalizing i offset read with
  | zero => simp [drain] at h
  | succ fuel ih =>
    obtain ⟨xs, next, hpage, his⟩ := hr i offset
    by_cases hne : xs = []
    · subst hne
      simp only [drain, hpage, Option.some.injEq] at h
      simp [← h]
    · rw [drain_cons hne hpage, Option.map_eq_some_iff] at h
      obtain ⟨rest, hrest, rfl⟩ := h
      obtain ⟨y, hy, hnext⟩ := his.next_mem hne
      intro x hx
      rcases List.mem_append.mp hx with hx | hx
      · exact (mem_after.mp (List.mem_of_mem_take (his.perm.mem_iff.mp hx))).2
      · have hlt := ih hrest x hx
        have hy := (mem_after.mp hy).2
        omega

theorem delivers_of_nil (hpage : page i offset = some ([], next)) {wanted : List α} :
    Delivers key page i offset wanted ↔ wanted = [] := by
  constructor
  · rintro ⟨fuel, read, hread, hperm, -⟩
    cases fuel with
    | zero => simp [drain] at hread
    | succ fuel =>
      simp only [drain, hpage, Option.some.injEq] at hread
      subst hread
      exact hperm.symm.eq_nil
  · rintro rfl
    exact ⟨1, [], by simp [drain, hpage], .refl _, .nil⟩

section
variable (hr : Reads key m listing page)
include hr

theorem Reads.delivers_of_cons (hl : (listing i).Perm table)
    (hne : xs ≠ []) (hpage : page i offset = some (xs, next))
    (his : IsPage key m (after key offset (listing i)) xs next) : Delivers key page i offset
    (after key offset table) ↔
      Separated m ((after key offset (listing i)).map key) ∧
        Delivers key page (i + 1) next (after key next table) := by
  have hrest := after_perm key hl offset
  generalize after key offset (listing i) = rest at his hrest
  have hsplit : (xs ++ rest.drop m).Perm (after key offset table) := by
    refine List.Perm.trans ?_ hrest
    conv_rhs => rw [← List.take_append_drop m rest]
    exact his.perm.append_right _
  have hle : offset ≤ next := by
    obtain ⟨y, hy, rfl⟩ := his.next_mem hne
    exact Int.le_of_lt (mem_after.mp (hrest.mem_iff.mp hy)).2
  have hafter (hs : Separated m (rest.map key)) : (rest.drop m).Perm (after key next table) := by
    rw [← his.after_next hne hs, ← after_after table hle]
    exact after_perm key hrest next
  constructor
  · rintro ⟨fuel, read, hread, hperm, hsorted⟩
    cases fuel with
    | zero => simp [drain] at hread
    | succ fuel =>
      rw [drain_cons hne hpage, Option.map_eq_some_iff] at hread
      obtain ⟨later, hlater, rfl⟩ := hread
      have hdrop : later.Perm (rest.drop m) :=
        (List.perm_append_left_iff xs).mp (hperm.trans hsplit.symm)
      have hsep : Separated m (rest.map key) := by
        intro x hx y hy
        rw [← List.map_take] at hx
        rw [← List.map_drop] at hy
        obtain ⟨x, hxm, rfl⟩ := List.mem_map.mp hx
        obtain ⟨y, hym, rfl⟩ := List.mem_map.mp hy
        have hxle := his.le_next x hxm
        have hylt := hr.drain_after hlater y (hdrop.mem_iff.mpr hym)
        omega
      exact ⟨hsep, fuel, later, hlater, hdrop.trans (hafter hsep), (List.pairwise_append.mp hsorted).2.1⟩
  · rintro ⟨hsep, fuel, later, hlater, hperm, hsorted⟩
    refine ⟨fuel + 1, xs ++ later, by rw [drain_cons hne hpage, hlater]; rfl, ?_, ?_⟩
    · exact ((List.perm_append_left_iff xs).mpr (hperm.trans (hafter hsep).symm)).trans hsplit
    · refine List.pairwise_append.mpr ⟨his.sorted, hsorted, fun x hx y hy => ?_⟩
      have hxle := his.le_next x (his.perm.mem_iff.mp hx)
      have hylt := hr.drain_after hlater y hy
      omega

theorem Reads.delivers_of_empty (hl : (listing i).Perm table)
    (h : after key offset table = []) : Delivers key page i offset (after key offset table) := by
  obtain ⟨xs, next, hpage, his⟩ := hr i offset
  have hrest : after key offset (listing i) = [] := (h ▸ after_perm key hl offset).eq_nil
  have hxs : xs = [] := by
    have hperm := his.perm
    rw [hrest, List.take_nil] at hperm
    exact hperm.eq_nil
  subst hxs
  exact (delivers_of_nil hpage).mpr h

theorem Reads.delivers_of_length_le (hl : ∀ i, (listing i).Perm table)
    (h : (after key offset table).length ≤ m) : Delivers key page i offset (after key offset table) := by
  obtain ⟨xs, next, hpage, his⟩ := hr i offset
  have hperm := after_perm key (hl i) offset
  have htake : (after key offset (listing i)).take m = after key offset (listing i) :=
    List.take_of_length_le (hperm.length_eq ▸ h)
  by_cases hne : xs = []
  · subst hne
    have hempty := his.perm.symm.eq_nil
    rw [htake] at hempty
    exact (delivers_of_nil hpage).mpr (hempty ▸ hperm).symm.eq_nil
  · rw [hr.delivers_of_cons (hl i) hne hpage his]
    refine ⟨separated_of_length_le (by rw [List.length_map, hperm.length_eq]; exact h), ?_⟩
    apply hr.delivers_of_empty (hl (i + 1))
    have hdone : after key next (after key offset (listing i)) = [] := by
      rw [after, List.filter_eq_nil_iff]
      intro x hx
      have := his.le_next x (htake.symm ▸ hx)
      simpa using this
    obtain ⟨y, hy, rfl⟩ := his.next_mem hne
    rw [after_after _ (Int.le_of_lt (mem_after.mp hy).2)] at hdone
    exact (hdone ▸ after_perm key (hl i) _).symm.eq_nil

theorem Reads.delivers_iff_apart (hm : 0 < m)
    (hl : ∀ i, (listing i).Perm table) (hk : ∀ i, (after key offset (listing i)).map key = keys) (i : ℕ) :
    Delivers key page i offset (after key offset table) ↔ Apart m keys := by
  -- on the number of elements that are still to be read
  induction hn : keys.length using Nat.strongRecOn generalizing i offset keys with
  | ind n ih =>
    obtain ⟨xs, next, hpage, his⟩ := hr i offset
    have hlen : xs.length = min m (after key offset (listing i)).length := by
      rw [his.perm.length_eq, List.length_take]
    have hkeys : (after key offset (listing i)).length = keys.length := by
      rw [← hk i, List.length_map]
    by_cases hne : xs = []
    · subst hne
      have hnil : keys = [] := by
        apply List.eq_nil_of_length_eq_zero
        rw [List.length_nil] at hlen
        omega
      rw [delivers_of_nil hpage]
      refine iff_of_true ?_ (apart_of_length_le (by simp [hnil]))
      have hempty : after key offset (listing i) = [] := by
        apply List.eq_nil_of_length_eq_zero
        rw [hkeys, hnil, List.length_nil]
      exact ((hempty ▸ after_perm key (hl i) offset).symm).eq_nil
    · rw [hr.delivers_of_cons (hl i) hne hpage his, hk i, apart_iff]
      refine and_congr_right fun hsep => ?_
      have hpos := List.length_pos_of_ne_nil hne
      obtain ⟨y, hy, hyn⟩ := his.next_mem hne
      have hle : offset ≤ next := hyn ▸ Int.le_of_lt (mem_after.mp hy).2
      have hnext (j : ℕ) : (after key next (listing j)).map key = keys.drop m := by
        -- the keys after the next offset are the same in all listings
        have hall (j : ℕ) : (after key next (listing j)).map key =
            keys.filter (fun k => decide (next < k)) := by
          rw [← hk j, ← map_after, after_after _ hle]
        rw [hall j, ← hall i, ← after_after _ hle, his.after_next hne (by rwa [hk i]), List.map_drop, hk i]
      exact ih (keys.drop m).length (by rw [List.length_drop]; omega) hnext (i + 1) rfl

end

end

end Ego.Lib

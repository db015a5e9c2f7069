import Mathlib.Data.List.Sort
import Mathlib.Data.List.Count

/-!
# The first elements of a listing by key

A listing of `xs` by `key` may put elements of one key in any order.
-/

namespace Ego.Lib

variable {α β : Type*} [LinearOrder β] (key : α → β)

/-- `x` comes before `y` among the first `m` in some listing: the elements with
smaller keys leave room for `y`, and for `x` if it is not one of them. -/
def Reaches (m : ℕ) (xs : List α) (x y : α) : Prop :=
  key x ≤ key y ∧ xs.countP (fun z => key z < key y) + (if key x = key y then 1 else 0) < m

def Compatible (R : α → α → Prop) (m : ℕ) (xs : List α) (x y : α) : Prop :=
  (Reaches key m xs x y → R x y) ∧ (Reaches key m xs y x → R y x)

instance (m : ℕ) (xs : List α) : DecidableRel (Reaches key m xs) := fun x y =>
  inferInstanceAs (Decidable (key x ≤ key y ∧
    xs.countP (fun z => key z < key y) + (if key x = key y then 1 else 0) < m))

instance (R : α → α → Prop) [DecidableRel R] (m : ℕ) (xs : List α) : DecidableRel
    (Compatible key R m xs) := fun x y =>
  inferInstanceAs (Decidable ((Reaches key m xs x y → R x y) ∧ (Reaches key m xs y x → R y x)))

variable {key} {R : α → α → Prop} {m : ℕ}

theorem exists_listing (key : α → β) (xs : List α) : ∃ ys : List α, ys.Perm xs ∧
    ys.Pairwise fun x y => key x ≤ key y :=
  haveI : Std.Total fun x y : α => key x ≤ key y := ⟨fun x y => le_total (key x) (key y)⟩
  haveI : IsTrans α fun x y => key x ≤ key y := ⟨fun _ _ _ => le_trans⟩
  ⟨xs.insertionSort fun x y => key x ≤ key y, List.perm_insertionSort _ _, List.pairwise_insertionSort _ _⟩

theorem exists_listing_filter (p : α → Bool) {xs ys : List α} (h : ys.Perm (xs.filter p))
    (hs : ys.Pairwise fun x y => key x ≤ key y) :
    ∃ zs : List α, zs.Perm xs ∧ (zs.Pairwise fun x y => key x ≤ key y) ∧ zs.filter p = ys := by
  have hall : (ys ++ xs.filter fun x => !p x).Perm xs :=
    (h.append_right _).trans (List.filter_append_perm p xs)
  have hsort := List.perm_insertionSort (fun x y => key x ≤ key y) (ys ++ xs.filter fun x => !p x)
  refine ⟨(ys ++ xs.filter fun x => !p x).insertionSort fun x y => key x ≤ key y, hsort.trans hall,
    List.pairwise_insertionSort _ _, ?_⟩
  have hsub : ys.Sublist ((ys ++ xs.filter fun x => !p x).insertionSort fun x y => key x ≤ key y) :=
    List.sublist_insertionSort hs (List.sublist_append_left _ _)
  have hkept : ys.filter p = ys :=
    List.filter_eq_self.mpr fun x hx => (List.mem_filter.mp (h.mem_iff.mp hx)).2
  have hlen := ((hsort.trans hall).filter p).trans h.symm
  have hfilter := hsub.filter p
  rw [hkept] at hfilter
  exact (hfilter.eq_of_length hlen.length_eq.symm).symm

theorem reaches_of_listing {xs pre post : List α} {x y : α} (h : (pre ++ y :: post).Perm xs)
    (hs : (pre ++ y :: post).Pairwise fun x y => key x ≤ key y) (hx : x ∈ pre) (hm : pre.length < m) :
    Reaches key m xs x y := by
  obtain ⟨-, hpost, hcross⟩ := List.pairwise_append.mp hs
  have hxy : key x ≤ key y := hcross x hx y (by simp)
  refine ⟨hxy, ?_⟩
  have hrest : (y :: post).countP (fun z => key z < key y) = 0 := by
    rw [List.countP_eq_zero]
    intro z hz
    rcases List.mem_cons.mp hz with rfl | hz
    · simp
    · simpa using (List.pairwise_cons.mp hpost).1 z hz
  rw [← h.countP_eq, List.countP_append, hrest, Nat.add_zero]
  have hle : pre.countP (fun z => key z < key y) ≤ pre.length := List.countP_le_length
  split
  · rename_i htie
    have hlt : pre.countP (fun z => key z < key y) < pre.length :=
      List.countP_lt_length_iff.mpr ⟨x, hx, by simp [htie]⟩
    omega
  · omega

theorem pairwise_of_splits {l : List α} (h : ∀ pre y post, l = pre ++ y :: post → ∀ x ∈ pre, R x y) :
    l.Pairwise R := by
  rw [List.pairwise_iff_getElem]
  intro i j hi hj hij
  have hsplit : l = l.take j ++ l[j] :: l.drop (j + 1) := by
    rw [← List.drop_eq_getElem_cons hj, List.take_append_drop]
  have hmem : l[i] ∈ l.take j := by
    rw [List.mem_take_iff_getElem]
    exact ⟨i, by omega, rfl⟩
  exact h _ _ _ hsplit _ hmem

theorem exists_listing_of_reaches {xs rest : List α} {x y : α} (h : xs.Perm (x :: y :: rest))
    (hr : Reaches key m xs x y) : ∃ ys : List α, ys.Perm xs ∧
      (ys.Pairwise fun x y => key x ≤ key y) ∧ ((ys.take m).Pairwise R → R x y) := by
  obtain ⟨pre, hpre, hpres⟩ := exists_listing key (x :: rest.filter fun z => key z < key y)
  obtain ⟨post, hpost, hposts⟩ := exists_listing key (rest.filter fun z => !decide (key z < key y))
  have hprele : ∀ z ∈ pre, key z ≤ key y := by
    intro z hz
    rcases List.mem_cons.mp (hpre.mem_iff.mp hz) with rfl | hz
    · exact hr.1
    · exact le_of_lt (by simpa using (List.mem_filter.mp hz).2)
  have hlepost : ∀ z ∈ post, key y ≤ key z := by
    intro z hz
    simpa using (List.mem_filter.mp (hpost.mem_iff.mp hz)).2
  have hlen : pre.length < m := by
    have hcount := hr.2
    rw [h.countP_eq, List.countP_cons, List.countP_cons, List.countP_eq_length_filter] at hcount
    rw [hpre.length_eq, List.length_cons]
    by_cases htie : key x = key y
    · simpa [htie] using hcount
    · simpa [htie, lt_of_le_of_ne hr.1 htie] using hcount
  refine ⟨pre ++ y :: post, ?_, ?_, ?_⟩
  · have hsplit := List.filter_append_perm (fun z => decide (key z < key y)) rest
    calc pre ++ y :: post
        |>.Perm (y :: (pre ++ post)) := List.perm_middle
      _ |>.Perm (y :: x :: rest) := ((hpre.append hpost).trans (hsplit.cons x)).cons y
      _ |>.Perm xs := (List.Perm.swap x y rest).trans h.symm
  · rw [List.pairwise_append, List.pairwise_cons]
    refine ⟨hpres, ⟨hlepost, hposts⟩, ?_⟩
    intro a ha b hb
    rcases List.mem_cons.mp hb with rfl | hb
    · exact hprele a ha
    · exact (hprele a ha).trans (hlepost b hb)
  · intro hR
    have htake : (pre ++ y :: post).take m = pre ++ (y :: post).take (m - pre.length) := by
      rw [List.take_append, List.take_of_length_le (Nat.le_of_lt hlen)]
    obtain ⟨k, hk⟩ := Nat.exists_eq_succ_of_ne_zero (Nat.sub_ne_zero_of_lt hlen)
    rw [htake, hk, List.take_succ_cons, List.pairwise_append] at hR
    exact hR.2.2 x (hpre.mem_iff.mpr (by simp)) y (by simp)

theorem listings_pairwise_iff (key : α → β) (R : α → α → Prop) (m : ℕ) (xs : List α) :
    (∀ ys : List α, ys.Perm xs → (ys.Pairwise fun x y => key x ≤ key y) → (ys.take m).Pairwise R) ↔
      xs.Pairwise (Compatible key R m xs) := by
  constructor
  · intro h
    rw [List.pairwise_iff_forall_sublist]
    intro x y hxy
    obtain ⟨rest, hrest⟩ := hxy.exists_perm_append
    constructor
    · intro hr
      obtain ⟨ys, hys, hs, hR⟩ := exists_listing_of_reaches hrest hr
      exact hR (h ys hys hs)
    · intro hr
      obtain ⟨ys, hys, hs, hR⟩ := exists_listing_of_reaches (hrest.trans (List.Perm.swap y x rest)) hr
      exact hR (h ys hys hs)
  · intro h ys hys hs
    have hall := hys.symm.pairwise h fun hxy => ⟨hxy.2, hxy.1⟩
    apply pairwise_of_splits
    intro pre y post hsplit x hx
    have hys' : ys = pre ++ y :: (post ++ ys.drop m) := by
      rw [← List.cons_append, ← List.append_assoc, ← hsplit, List.take_append_drop]
    have hlen : pre.length < m := by
      have htake := List.length_take_le m ys
      rw [hsplit, List.length_append, List.length_cons] at htake
      omega
    rw [hys'] at hys hs hall
    exact ((List.pairwise_append.mp hall).2.2 x hx y (by simp)).1 (reaches_of_listing hys hs hx hlen)

end Ego.Lib

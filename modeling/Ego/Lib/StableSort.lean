import Mathlib.Data.List.Sort

/-!
# A stable sort by blocks and merges

The sort of Go's `sort.SliceStable`: insertion sort on blocks of twenty, then rounds that
merge neighbouring blocks. Nothing here assumes that `less` is strict.
-/

namespace Ego.Lib.StableSort

variable {α : Type*} (less : α → α → Bool)

/- `acc` is the sorted part of the block, last element first: the new element
moves left over the elements it is less than. -/
def insertBack (x : α) : List α → List α
  | [] => [x]
  | p :: ps => if less x p then p :: insertBack x ps else x :: p :: ps

def insertionSort (xs : List α) : List α :=
  (xs.foldl (fun acc x => insertBack less x acc) []).reverse

def merge : List α → List α → List α
  | [], ys => ys
  | x :: xs, [] => x :: xs
  | x :: xs, y :: ys =>
    if less y x then y :: merge (x :: xs) ys else x :: merge xs (y :: ys)
termination_by xs ys => xs.length + ys.length

def mergePairs : List (List α) → List (List α)
  | x :: y :: rest => merge less x y :: mergePairs rest
  | l => l

def mergeRounds : ℕ → List (List α) → List (List α)
  | 0, bs => bs
  | n + 1, bs => mergeRounds n (mergePairs less bs)

def blockSize : ℕ := 20

/- `fuel` bounds the number of blocks. -/
def blocks : ℕ → List α → List (List α)
  | _, [] => []
  | 0, _ => []
  | fuel + 1, xs => xs.take blockSize :: blocks fuel (xs.drop blockSize)

def sort (xs : List α) : List α :=
  let bs := (blocks xs.length xs).map (insertionSort less)
  (mergeRounds less bs.length bs).flatten

theorem insertBack_perm (x : α) (ps : List α) : (insertBack less x ps).Perm (x :: ps) := by
  induction ps with
  | nil => exact .refl _
  | cons p ps ih =>
    simp only [insertBack]
    split
    · exact (ih.cons p).trans (.swap x p ps)
    · exact .refl _

theorem foldl_insertBack_perm (xs acc : List α) :
    (xs.foldl (fun acc x => insertBack less x acc) acc).Perm (xs ++ acc) := by
  induction xs generalizing acc with
  | nil => exact .refl _
  | cons x xs ih =>
    have h := (ih (insertBack less x acc)).trans
      ((List.Perm.refl xs).append (insertBack_perm less x acc))
    exact h.trans List.perm_middle

theorem insertionSort_perm (xs : List α) : (insertionSort less xs).Perm xs := by
  have h := foldl_insertBack_perm less xs []
  rw [List.append_nil] at h
  exact (List.reverse_perm _).trans h

theorem merge_perm (xs ys : List α) : (merge less xs ys).Perm (xs ++ ys) := by
  induction xs, ys using merge.induct less with
  | case1 | case2 => simp [merge]
  | case3 x xs y ys h ih =>
    rw [merge, if_pos h]
    exact (ih.cons y).trans List.perm_middle.symm
  | case4 x xs y ys h ih =>
    rw [merge, if_neg h]
    exact ih.cons x

theorem mergePairs_flatten_perm (bs : List (List α)) : (mergePairs less bs).flatten.Perm bs.flatten := by
  induction bs using mergePairs.induct with
  | case1 x y rest ih =>
    simp only [mergePairs, List.flatten_cons, ← List.append_assoc]
    exact (merge_perm less x y).append ih
  | case2 l h =>
    have hl : mergePairs less l = l := by
      unfold mergePairs
      split
      · exact absurd rfl (h _ _ _)
      · rfl
    rw [hl]

theorem mergeRounds_flatten_perm (n : ℕ) (bs : List (List α)) : (mergeRounds less n bs).flatten.Perm bs.flatten := by
  induction n generalizing bs with
  | zero => exact .refl _
  | succ n ih => exact (ih _).trans (mergePairs_flatten_perm less bs)

theorem blocks_flatten (fuel : ℕ) (xs : List α) (h : xs.length ≤ fuel) : (blocks fuel xs).flatten = xs := by
  induction fuel generalizing xs with
  | zero =>
    have : xs = [] := List.length_eq_zero_iff.mp (by omega)
    subst this
    rfl
  | succ fuel ih =>
    cases xs with
    | nil => rfl
    | cons x xs =>
      have hd : ((x :: xs).drop blockSize).length ≤ fuel := by
        simp only [List.length_drop, List.length_cons, blockSize] at h ⊢
        omega
      rw [blocks, List.flatten_cons, ih _ hd, List.take_append_drop]
      exact List.cons_ne_nil x xs

theorem map_insertionSort_flatten_perm (bs : List (List α)) :
    (bs.map (insertionSort less)).flatten.Perm bs.flatten := by
  induction bs with
  | nil => exact .refl _
  | cons b bs ih => exact (insertionSort_perm less b).append ih

theorem sort_perm (xs : List α) : (sort less xs).Perm xs := by
  have h := map_insertionSort_flatten_perm less (blocks xs.length xs)
  rw [blocks_flatten _ _ le_rfl] at h
  exact (mergeRounds_flatten_perm less _ _).trans h

/-! ### The result is sorted

`r` is what the comparison decides, in either direction; `<` and `≤` both
decide `≤`. -/

variable {less} {r : α → α → Prop}

structure Decides (less : α → α → Bool) (r : α → α → Prop) : Prop where
  of_less : ∀ a b, less a b = true → r a b
  of_not_less : ∀ a b, less a b = false → r b a
  trans : ∀ a b c, r a b → r b c → r a c

theorem insertBack_sorted (hd : Decides less r) (x : α) (ps : List α)
    (h : ps.Pairwise fun a b => r b a) : (insertBack less x ps).Pairwise fun a b => r b a := by
  induction ps with
  | nil => simp [insertBack]
  | cons p ps ih =>
    obtain ⟨hp, hps⟩ := List.pairwise_cons.mp h
    simp only [insertBack]
    split
    · rename_i hlt
      refine List.pairwise_cons.mpr ⟨?_, ih hps⟩
      intro b hb
      rcases List.mem_cons.mp ((insertBack_perm less x ps).mem_iff.mp hb) with rfl | hb
      · exact hd.of_less _ _ hlt
      · exact hp b hb
    · rename_i hge
      have hxp : r p x := hd.of_not_less x p (by simpa using hge)
      refine List.pairwise_cons.mpr ⟨?_, h⟩
      intro b hb
      rcases List.mem_cons.mp hb with rfl | hb
      · exact hxp
      · exact hd.trans _ _ _ (hp b hb) hxp

theorem insertionSort_sorted (hd : Decides less r) (xs : List α) : (insertionSort less xs).Pairwise r := by
  have h : ∀ acc : List α, (acc.Pairwise fun a b => r b a) →
      (xs.foldl (fun acc x => insertBack less x acc) acc).Pairwise fun a b => r b a := by
    induction xs with
    | nil => exact fun acc ha => ha
    | cons x xs ih => exact fun acc ha => ih _ (insertBack_sorted hd x acc ha)
  exact List.pairwise_reverse.mpr (h [] List.Pairwise.nil)

theorem merge_sorted (hd : Decides less r) (xs ys : List α) (hx : xs.Pairwise r)
    (hy : ys.Pairwise r) : (merge less xs ys).Pairwise r := by
  induction xs, ys using merge.induct less with
  | case1 ys => simpa [merge] using hy
  | case2 x xs => simpa [merge] using hx
  | case3 x xs y ys h ih =>
    obtain ⟨hyb, hys⟩ := List.pairwise_cons.mp hy
    rw [merge, if_pos h]
    refine List.pairwise_cons.mpr ⟨?_, ih hx hys⟩
    intro b hb
    rcases List.mem_append.mp ((merge_perm less _ _).mem_iff.mp hb) with hb | hb
    · have hyx := hd.of_less _ _ h
      rcases List.mem_cons.mp hb with rfl | hb
      · exact hyx
      · exact hd.trans _ _ _ hyx ((List.pairwise_cons.mp hx).1 b hb)
    · exact hyb b hb
  | case4 x xs y ys h ih =>
    obtain ⟨hxb, hxs⟩ := List.pairwise_cons.mp hx
    rw [merge, if_neg h]
    refine List.pairwise_cons.mpr ⟨?_, ih hxs hy⟩
    intro b hb
    rcases List.mem_append.mp ((merge_perm less _ _).mem_iff.mp hb) with hb | hb
    · exact hxb b hb
    · have hxy := hd.of_not_less _ _ (by simpa using h)
      rcases List.mem_cons.mp hb with rfl | hb
      · exact hxy
      · exact hd.trans _ _ _ hxy ((List.pairwise_cons.mp hy).1 b hb)

theorem mergePairs_sorted (hd : Decides less r) (bs : List (List α))
    (h : ∀ b ∈ bs, b.Pairwise r) : ∀ b ∈ mergePairs less bs, b.Pairwise r := by
  induction bs using mergePairs.induct with
  | case1 x y rest ih =>
    intro b hb
    rcases List.mem_cons.mp hb with rfl | hb
    · exact merge_sorted hd x y (h x (by simp)) (h y (by simp))
    · exact ih (fun z hz => h z (by simp [hz])) b hb
  | case2 l hl =>
    intro b hb
    refine h b ?_
    unfold mergePairs at hb
    split at hb
    · exact absurd rfl (hl _ _ _)
    · exact hb

theorem mergePairs_length (bs : List (List α)) : (mergePairs less bs).length = (bs.length + 1) / 2 := by
  induction bs using mergePairs.induct with
  | case1 x y rest ih =>
    simp only [mergePairs, List.length_cons, ih]
    omega
  | case2 l hl =>
    match l, hl with
    | [], _ => simp [mergePairs]
    | [_], _ => simp [mergePairs]
    | x :: y :: rest, hl => exact absurd rfl (hl x y rest)

theorem mergeRounds_sorted (hd : Decides less r) (n : ℕ) (bs : List (List α))
    (h : ∀ b ∈ bs, b.Pairwise r) : ∀ b ∈ mergeRounds less n bs, b.Pairwise r := by
  induction n generalizing bs with
  | zero => exact h
  | succ n ih => exact ih _ (mergePairs_sorted hd bs h)

/- Each round at least halves the number of blocks, so as many rounds as there
are blocks leave at most one. -/
theorem mergeRounds_length_le (less : α → α → Bool) (n : ℕ) (bs : List (List α)) (h : bs.length ≤ n + 1) :
    (mergeRounds less n bs).length ≤ 1 := by
  induction n generalizing bs with
  | zero => exact h
  | succ n ih =>
    refine ih _ ?_
    rw [mergePairs_length]
    omega

theorem sort_sorted (hd : Decides less r) (xs : List α) : (sort less xs).Pairwise r := by
  have hb : ∀ b ∈ (blocks xs.length xs).map (insertionSort less), b.Pairwise r := by
    intro b hb
    obtain ⟨c, -, rfl⟩ := List.mem_map.mp hb
    exact insertionSort_sorted hd c
  generalize hbs : (blocks xs.length xs).map (insertionSort less) = bs at hb
  have hl := mergeRounds_length_le less bs.length bs (by omega)
  have hs := mergeRounds_sorted hd bs.length bs hb
  simp only [sort, hbs]
  generalize mergeRounds less bs.length bs = out at hl hs
  match out, hl with
  | [], _ => simp
  | [b], _ => simpa using hs b (by simp)

/-! ### The order of equal keys

For a comparison by `≤` an element also moves before an earlier one of the same
key, so that equal keys come out in reverse. `R` is what is asked of the result:
it holds there exactly if it holds in the input of every two elements in the
order in which the sort leaves them. -/

section
variable {β : Type*} [LinearOrder β] (key : α → β) (R : α → α → Prop)

def Settled (x y : α) : Prop := if key y ≤ key x then R y x else R x y

instance [DecidableRel R] : DecidableRel (Settled key R) := fun x y =>
  inferInstanceAs (Decidable (if key y ≤ key x then R y x else R x y))

def Across (xs ys : List α) : Prop := ∀ x ∈ xs, ∀ y ∈ ys, Settled key R x y

def Arranged (bs : List (List α)) : Prop :=
  (∀ b ∈ bs, b.Pairwise R) ∧ bs.Pairwise (Across key R)

variable {key R}

theorem le_decides (key : α → β) : Decides (fun x y => decide (key x ≤ key y)) fun x y => key x ≤ key y where
  of_less := fun _ _ h => of_decide_eq_true h
  of_not_less := fun _ _ h => le_of_lt (not_le.mp (of_decide_eq_false h))
  trans := fun _ _ _ => le_trans

theorem insertBack_pairwise_iff (x : α) (ps : List α) (hs : ps.Pairwise fun a b => key b ≤ key a) :
    ((insertBack (fun x y => decide (key x ≤ key y)) x ps).Pairwise fun a b => R b a) ↔
      (ps.Pairwise fun a b => R b a) ∧ ∀ p ∈ ps, Settled key R p x := by
  induction ps with
  | nil => simp [insertBack]
  | cons p ps ih =>
    obtain ⟨hp, hps⟩ := List.pairwise_cons.mp hs
    have hmem : ∀ b, b ∈ insertBack (fun x y => decide (key x ≤ key y)) x ps ↔ b ∈ x :: ps :=
      fun b => (insertBack_perm _ x ps).mem_iff
    by_cases hlt : key x ≤ key p
    · simp only [insertBack, hlt, decide_true, if_true, List.pairwise_cons, hmem, ih hps, List.forall_mem_cons,
        Settled]
      tauto
    · -- the elements before `p` have smaller keys still
      have hall : ∀ b ∈ ps, ¬ key x ≤ key b := fun b hb h => hlt (h.trans (hp b hb))
      have hset : (∀ b ∈ ps, Settled key R b x) ↔ ∀ b ∈ ps, R b x :=
        forall₂_congr fun b hb => by simp only [Settled, hall b hb, if_false]
      simp only [insertBack, hlt, decide_false, Bool.false_eq_true, if_false, List.pairwise_cons,
        List.forall_mem_cons, hset]
      simp only [Settled, hlt, if_false]
      tauto

theorem insertionSort_pairwise_iff (xs : List α) :
    (insertionSort (fun x y => decide (key x ≤ key y)) xs).Pairwise R ↔ xs.Pairwise (Settled key R) := by
  have hfold : ∀ acc : List α, (acc.Pairwise fun a b => key b ≤ key a) →
      (((xs.foldl (fun acc x => insertBack (fun x y => decide (key x ≤ key y)) x acc) acc).Pairwise
        fun a b => R b a) ↔
        (acc.Pairwise fun a b => R b a) ∧ xs.Pairwise (Settled key R) ∧ Across key R acc xs) := by
    induction xs with
    | nil => simp [Across]
    | cons x xs ih =>
      intro acc hacc
      have hmem : ∀ b, b ∈ insertBack (fun x y => decide (key x ≤ key y)) x acc ↔ b ∈ x :: acc :=
        fun b => (insertBack_perm _ x acc).mem_iff
      rw [List.foldl_cons, ih _ (insertBack_sorted (le_decides key) x acc hacc), insertBack_pairwise_iff x acc hacc]
      simp only [Across, hmem, List.forall_mem_cons, List.pairwise_cons, forall_and]
      tauto
  have h := hfold [] List.Pairwise.nil
  simp only [Across, List.Pairwise.nil, true_and, List.not_mem_nil, false_imp_iff, implies_true, and_true] at h
  rw [insertionSort, List.pairwise_reverse, h]

theorem merge_pairwise_iff (xs ys : List α) (hx : xs.Pairwise fun a b => key a ≤ key b)
    (hy : ys.Pairwise fun a b => key a ≤ key b) : (merge (fun x y => decide (key x ≤ key y)) xs ys).Pairwise R ↔
      xs.Pairwise R ∧ ys.Pairwise R ∧ Across key R xs ys := by
  induction xs, ys using merge.induct fun x y => decide (key x ≤ key y) with
  | case1 | case2 => simp [merge, Across]
  | case3 x xs y ys h ih =>
    have hle : key y ≤ key x := of_decide_eq_true h
    have hmem : ∀ b, b ∈ merge (fun x y => decide (key x ≤ key y)) (x :: xs) ys ↔ b ∈ x :: xs ++ ys :=
      fun b => (merge_perm _ _ _).mem_iff
    have hset : (∀ b ∈ x :: xs, Settled key R b y) ↔ ∀ b ∈ x :: xs, R y b := by
      refine forall₂_congr fun b hb => ?_
      have hyb : key y ≤ key b := by
        rcases List.mem_cons.mp hb with rfl | hb
        · exact hle
        · exact hle.trans ((List.pairwise_cons.mp hx).1 b hb)
      simp only [Settled, hyb, if_true]
    have hacross : Across key R (x :: xs) (y :: ys) ↔
        (∀ b ∈ x :: xs, R y b) ∧ Across key R (x :: xs) ys := by
      rw [← hset]
      simp only [Across, List.forall_mem_cons (p := fun y => Settled key R _ y), forall_and]
    rw [merge, if_pos h, List.pairwise_cons, ih hx (List.pairwise_cons.mp hy).2, hacross, List.pairwise_cons (a := y)]
    simp only [hmem, List.mem_append, or_imp, forall_and]
    tauto
  | case4 x xs y ys h ih =>
    have hlt : ¬ key y ≤ key x := by simpa using h
    have hmem : ∀ b, b ∈ merge (fun x y => decide (key x ≤ key y)) xs (y :: ys) ↔ b ∈ xs ++ y :: ys :=
      fun b => (merge_perm _ _ _).mem_iff
    have hset : (∀ b ∈ y :: ys, Settled key R x b) ↔ ∀ b ∈ y :: ys, R x b := by
      refine forall₂_congr fun b hb => ?_
      have hxb : ¬ key b ≤ key x := by
        rcases List.mem_cons.mp hb with rfl | hb
        · exact hlt
        · exact fun hbx => hlt (((List.pairwise_cons.mp hy).1 b hb).trans hbx)
      simp only [Settled, hxb, if_false]
    have hacross : Across key R (x :: xs) (y :: ys) ↔
        (∀ b ∈ y :: ys, R x b) ∧ Across key R xs (y :: ys) := by
      rw [← hset]
      exact List.forall_mem_cons
    rw [merge, if_neg h, List.pairwise_cons, ih (List.pairwise_cons.mp hx).2 hy, hacross, List.pairwise_cons (a := x)]
    simp only [hmem, List.mem_append, or_imp, forall_and]
    tauto

theorem across_iff_flatten {xs : List α} {bs : List (List α)} :
    (∀ b ∈ bs, Across key R xs b) ↔ Across key R xs bs.flatten := by
  constructor
  · intro h x hx y hy
    obtain ⟨b, hb, hyb⟩ := List.mem_flatten.mp hy
    exact h b hb x hx y hyb
  · intro h b hb x hx y hy
    exact h x hx y (List.mem_flatten.mpr ⟨b, hb, hy⟩)

theorem arranged_cons {b : List α} {bs : List (List α)} :
    Arranged key R (b :: bs) ↔ b.Pairwise R ∧ Across key R b bs.flatten ∧ Arranged key R bs := by
  simp only [Arranged, List.forall_mem_cons, List.pairwise_cons, across_iff_flatten]
  tauto

theorem mergePairs_arranged (bs : List (List α)) (hs : ∀ b ∈ bs, b.Pairwise fun x y => key x ≤ key y) :
    Arranged key R (mergePairs (fun x y => decide (key x ≤ key y)) bs) ↔ Arranged key R bs := by
  induction bs using mergePairs.induct with
  | case1 x y rest ih =>
    have hmerged (b : α) : b ∈ merge (fun x y => decide (key x ≤ key y)) x y ↔ b ∈ x ++ y :=
      (merge_perm _ _ _).mem_iff
    have hrest (b : α) : b ∈ (mergePairs (fun x y => decide (key x ≤ key y)) rest).flatten ↔
        b ∈ rest.flatten := (mergePairs_flatten_perm _ _).mem_iff
    rw [mergePairs, arranged_cons, arranged_cons, arranged_cons,
      merge_pairwise_iff x y (hs x (by simp)) (hs y (by simp)), ih fun b hb => hs b (by simp [hb])]
    simp only [Across, hmerged, hrest, List.flatten_cons, List.mem_append, or_imp, forall_and]
    tauto
  | case2 l h =>
    match l, h with
    | [], _ => exact Iff.rfl
    | [b], _ => exact Iff.rfl
    | x :: y :: rest, h => exact absurd rfl (h x y rest)

theorem mergeRounds_arranged (n : ℕ) (bs : List (List α))
    (hs : ∀ b ∈ bs, b.Pairwise fun x y => key x ≤ key y) :
    Arranged key R (mergeRounds (fun x y => decide (key x ≤ key y)) n bs) ↔ Arranged key R bs := by
  induction n generalizing bs with
  | zero => exact Iff.rfl
  | succ n ih =>
    rw [mergeRounds, ih _ (mergePairs_sorted (le_decides key) bs hs), mergePairs_arranged bs hs]

theorem map_insertionSort_arranged (bs : List (List α)) :
    Arranged key R (bs.map (insertionSort fun x y => decide (key x ≤ key y))) ↔
      bs.flatten.Pairwise (Settled key R) := by
  induction bs with
  | nil => simp [Arranged]
  | cons b bs ih =>
    have hb (x : α) : x ∈ insertionSort (fun x y => decide (key x ≤ key y)) b ↔ x ∈ b :=
      (insertionSort_perm _ b).mem_iff
    have hbs (x : α) : x ∈ (bs.map (insertionSort fun x y => decide (key x ≤ key y))).flatten ↔
        x ∈ bs.flatten := (map_insertionSort_flatten_perm _ bs).mem_iff
    rw [List.map_cons, arranged_cons, insertionSort_pairwise_iff, ih, List.flatten_cons, List.pairwise_append]
    simp only [Across, hb, hbs]
    tauto

theorem sort_pairwise_iff (key : α → β) (R : α → α → Prop) (xs : List α) :
    (sort (fun x y => decide (key x ≤ key y)) xs).Pairwise R ↔ xs.Pairwise (Settled key R) := by
  have hs : ∀ b ∈ (blocks xs.length xs).map (insertionSort fun x y => decide (key x ≤ key y)),
      b.Pairwise fun x y => key x ≤ key y := by
    intro b hb
    obtain ⟨c, -, rfl⟩ := List.mem_map.mp hb
    exact insertionSort_sorted (le_decides key) c
  have harranged := @map_insertionSort_arranged _ _ _ key R (blocks xs.length xs)
  rw [blocks_flatten _ _ le_rfl] at harranged
  unfold sort
  generalize (blocks xs.length xs).map (insertionSort fun x y => decide (key x ≤ key y)) = bs at hs harranged
  have hrounds := @mergeRounds_arranged _ _ _ key R bs.length bs hs
  have hl := mergeRounds_length_le (fun x y => decide (key x ≤ key y)) bs.length bs (by omega)
  rw [← harranged, ← hrounds]
  dsimp only
  -- at most one block is left, and it is the result
  generalize mergeRounds (fun x y => decide (key x ≤ key y)) bs.length bs = out at hl
  match out, hl with
  | [], _ => simp [Arranged]
  | [b], _ => simp [Arranged]

end

end Ego.Lib.StableSort

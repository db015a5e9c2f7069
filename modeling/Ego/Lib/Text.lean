import Mathlib.Data.Nat.Digits.Defs

/-!
# Reading a text from the front

`strings.CutPrefix`, `strings.Cut` and decimal numbers, on lists.
-/

namespace Ego.Lib.Text

section Cut
variable {α : Type} [DecidableEq α]

def cutPrefix (p text : List α) : Option (List α) := if p <+: text then some (text.drop p.length) else none

@[simp] theorem cutPrefix_append (p rest : List α) : cutPrefix p (p ++ rest) = some rest := by
  simp [cutPrefix]

theorem cutPrefix_eq_some {p text rest : List α} (h : cutPrefix p text = some rest) : text = p ++ rest := by
  unfold cutPrefix at h
  split at h
  · rename_i hp
    obtain ⟨tail, rfl⟩ := hp
    rw [← Option.some.inj h, List.drop_left]
  · cases h

theorem cutPrefix_of_head_ne {a b : α} {p text : List α} (h : a ≠ b) : cutPrefix (a :: p) (b :: text) = none :=
  if_neg fun hp => h (List.cons_prefix_cons.mp hp).1

def cut (sep : List α) : List α → Option (List α × List α)
  | [] => if sep = [] then some ([], []) else none
  | c :: cs =>
    if sep <+: c :: cs then some ([], (c :: cs).drop sep.length)
    else (cut sep cs).map fun parts => (c :: parts.1, parts.2)

theorem cut_eq_some {sep text before after : List α} (h : cut sep text = some (before, after)) :
    text = before ++ sep ++ after := by
  induction text generalizing before with
  | nil =>
    unfold cut at h
    split at h
    · rename_i hsep
      obtain ⟨rfl, rfl⟩ := Prod.mk.inj (Option.some.inj h)
      simp [hsep]
    · cases h
  | cons c cs ih =>
    unfold cut at h
    split at h
    · rename_i hp
      obtain ⟨rfl, rfl⟩ := Prod.mk.inj (Option.some.inj h)
      obtain ⟨tail, htail⟩ := hp
      rw [← htail, List.drop_left, List.nil_append]
    · obtain ⟨⟨before', after'⟩, hcut, hparts⟩ := Option.map_eq_some_iff.mp h
      obtain ⟨rfl, rfl⟩ := Prod.mk.inj hparts
      rw [ih hcut]
      rfl

theorem cut_append {a : α} {sep : List α} {before : List α} (h : a ∉ before) (after : List α) :
    cut (a :: sep) (before ++ (a :: sep) ++ after) = some (before, after) := by
  induction before with
  | nil =>
    change cut (a :: sep) (a :: (sep ++ after)) = _
    rw [cut, if_pos ⟨after, rfl⟩]
    simp
  | cons c cs ih =>
    obtain ⟨hc, hcs⟩ := not_or.mp (List.mem_cons.not.mp h)
    change cut (a :: sep) (c :: (cs ++ (a :: sep) ++ after)) = _
    rw [cut, if_neg fun hp => hc (List.cons_prefix_cons.mp hp).1, ih hcs]
    rfl

end Cut

def digit (d : ℕ) : UInt8 := 48 + UInt8.ofNat d

def value (b : UInt8) : ℕ := b.toNat - 48

def formatUint (n : ℕ) : List UInt8 := if n = 0 then [48] else ((Nat.digits 10 n).map digit).reverse

def parseUint (text : List UInt8) : Option ℕ :=
  if text = [] ∨ text.any (fun b => b < 48 || 57 < b) then none
  else
    let n := text.foldl (fun n b => 10 * n + value b) 0
    if n < 2 ^ 64 then some n else none

theorem digit_spec {d : ℕ} (h : d < 10) : value (digit d) = d ∧ ¬ (digit d < 48 ∨ 57 < digit d) := by
  have hall : ∀ d < 10, value (digit d) = d ∧ ¬ (digit d < 48 ∨ 57 < digit d) := by decide
  exact hall d h

theorem foldl_digits (ds : List ℕ) (h : ∀ d ∈ ds, d < 10) :
    ((ds.map digit).reverse).foldl (fun n b => 10 * n + value b) 0 = Nat.ofDigits 10 ds := by
  rw [List.foldl_reverse]
  induction ds with
  | nil => rfl
  | cons d ds ih =>
    obtain ⟨hd, hds⟩ := List.forall_mem_cons.mp h
    rw [List.map_cons, List.foldr_cons, ih hds, (digit_spec hd).1, Nat.ofDigits_cons]
    omega

theorem formatUint_ne_nil (n : ℕ) : formatUint n ≠ [] := by
  unfold formatUint
  split
  · simp
  · rename_i hn
    simpa [Nat.digits_eq_nil_iff_eq_zero] using hn

theorem mem_formatUint {n : ℕ} {b : UInt8} (h : b ∈ formatUint n) : ¬ (b < 48 ∨ 57 < b) := by
  unfold formatUint at h
  split at h
  · rw [List.mem_singleton.mp h]
    decide
  · rw [List.mem_reverse] at h
    obtain ⟨d, hd, rfl⟩ := List.mem_map.mp h
    exact (digit_spec (Nat.digits_lt_base (by decide) hd)).2

theorem parseUint_formatUint {n : ℕ} (h : n < 2 ^ 64) : parseUint (formatUint n) = some n := by
  have hfold : (formatUint n).foldl (fun n b => 10 * n + value b) 0 = n := by
    unfold formatUint
    split
    · rename_i hn
      rw [hn]
      rfl
    · rw [foldl_digits _ fun d hd => Nat.digits_lt_base (by decide) hd, Nat.ofDigits_digits]
  unfold parseUint
  rw [if_neg, hfold]
  · exact if_pos h
  · rintro (hnil | hany)
    · exact formatUint_ne_nil n hnil
    · obtain ⟨b, hb, hbad⟩ := List.any_eq_true.mp hany
      exact mem_formatUint hb (by simpa using hbad)

theorem parseUint_lt {text : List UInt8} {n : ℕ} (h : parseUint text = some n) : n < 2 ^ 64 := by
  unfold parseUint at h
  split at h
  · cases h
  · dsimp only at h
    split at h
    · rename_i hn
      rwa [← Option.some.inj h]
    · cases h

def parseUint64 (text : List UInt8) : Option (Fin (2 ^ 64)) :=
  match h : parseUint text with
  | some n => some ⟨n, parseUint_lt h⟩
  | none => none

theorem parseUint64_formatUint (n : Fin (2 ^ 64)) : parseUint64 (formatUint n.val) = some n := by
  unfold parseUint64
  split
  · rename_i m hm
    rw [parseUint_formatUint n.isLt] at hm
    obtain rfl := Option.some.inj hm
    rfl
  · rename_i hm
    rw [parseUint_formatUint n.isLt] at hm
    cases hm

end Ego.Lib.Text

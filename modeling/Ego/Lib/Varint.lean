import Mathlib.Algebra.Group.Nat.Defs
import Mathlib.Tactic.Common

/-!
# Base 128 varints

A varint may be padded with zero groups.
-/

namespace Ego.Lib.Varint

inductive IsVarint : ℕ → List UInt8 → Prop
  | last {b : UInt8} (h : b.toNat < 128) : IsVarint b.toNat [b]
  | more {b : UInt8} {n : ℕ} {bs : List UInt8} (h : 128 ≤ b.toNat) (hn : IsVarint n bs) :
      IsVarint (b.toNat % 128 + 128 * n) (b :: bs)

theorem IsVarint.ne_nil {n : ℕ} {bs : List UInt8} (h : IsVarint n bs) : bs ≠ [] := by
  cases h <;> simp

def collect (v : UInt64) (i : ℕ) (c : UInt8) : UInt64 := v ||| (c &&& 0x7f).toUInt64 <<< UInt64.ofNat (i * 7)

theorem low_bits (c : UInt8) : (c &&& 0x7f).toUInt64.toNat = c.toNat % 128 := by
  exact Nat.and_two_pow_sub_one_eq_mod c.toNat 7

theorem toNat_collect {v : UInt64} {i : ℕ} (c : UInt8) (hi : i < 10) (hv : v.toNat < 2 ^ (i * 7)) :
    (collect v i c).toNat = (v.toNat + 2 ^ (i * 7) * (c.toNat % 128)) % 2 ^ 64 := by
  have hshift : (UInt64.ofNat (i * 7)).toNat % 64 = i * 7 := by
    rw [UInt64.toNat_ofNat']
    omega
  have hpow : 2 ^ 64 = 2 ^ (i * 7) * 2 ^ (64 - i * 7) := by
    rw [← Nat.pow_add]
    congr 1
    omega
  have hword : (c.toNat % 128) <<< (i * 7) % 2 ^ 64 = 2 ^ (i * 7) * (c.toNat % 128 % 2 ^ (64 - i * 7)) := by
    rw [Nat.shiftLeft_eq, Nat.mul_comm, hpow, Nat.mul_mod_mul_left]
  have hor := Nat.two_pow_add_eq_or_of_lt hv (c.toNat % 128 % 2 ^ (64 - i * 7))
  rw [collect, UInt64.toNat_or, UInt64.toNat_shiftLeft, low_bits, hshift, hword, Nat.or_comm, ← hor, hpow,
    Nat.mod_mul,
    Nat.add_mul_mod_self_left, Nat.mod_eq_of_lt hv, Nat.add_mul_div_left _ _ (Nat.two_pow_pos _),
    Nat.div_eq_of_lt hv, Nat.zero_add]
  exact Nat.add_comm _ _

theorem collect_lt {v : UInt64} {i : ℕ} (c : UInt8) (hi : i < 10) (hv : v.toNat < 2 ^ (i * 7)) :
    (collect v i c).toNat < 2 ^ ((i + 1) * 7) := by
  rw [toNat_collect c hi hv]
  have hpow : 2 ^ ((i + 1) * 7) = 2 ^ (i * 7) * 128 := by
    rw [Nat.add_mul, Nat.pow_add]
  have hc : c.toNat % 128 ≤ 127 := by omega
  have hmul := Nat.mul_le_mul_left (2 ^ (i * 7)) hc
  omega

end Ego.Lib.Varint

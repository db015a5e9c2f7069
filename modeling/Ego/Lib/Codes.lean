import Ego.Lib.Text
import Mathlib.Logic.Equiv.Fin.Basic

/-!
# Self-delimiting codes

A code reads a value back from the front of the bytes and says what is left over, so that
codes can be put one behind the other.
-/

namespace Ego.Lib

structure Code (α : Type) where
  encode : α → List UInt8
  decode : List UInt8 → Option (α × List UInt8)
  decode_encode : ∀ a rest, decode (encode a ++ rest) = some (a, rest)

namespace Code
variable {α β : Type}

/-- The value that the bytes are the code of, all of them. -/
def read (c : Code α) (bytes : List UInt8) : Option α :=
  match c.decode bytes with
  | some (a, []) => some a
  | _ => none

theorem read_encode (c : Code α) (a : α) : c.read (c.encode a) = some a := by
  have h := c.decode_encode a []
  rw [List.append_nil] at h
  rw [read, h]

theorem encode_injective (c : Code α) : Function.Injective c.encode := by
  intro a b h
  have hread := c.read_encode a
  rw [h, c.read_encode] at hread
  exact (Option.some.inj hread).symm

def byte : Code UInt8 where
  encode := fun b => [b]
  decode := fun
    | [] => none
    | b :: rest => some (b, rest)
  decode_encode := fun _ _ => rfl

def decodeNat : List UInt8 → Option (ℕ × List UInt8)
  | [] => none
  | b :: rest => if b = 1 then (decodeNat rest).map fun x => (x.1 + 1, x.2) else some (0, rest)

/-- In unary. -/
def nat : Code ℕ where
  encode := fun n => List.replicate n 1 ++ [0]
  decode := decodeNat
  decode_encode := by
    intro n rest
    induction n with
    | zero => rfl
    | succ n ih =>
      rw [List.replicate_succ, List.cons_append, List.cons_append, decodeNat, if_pos rfl, ih]
      rfl

def prod (c : Code α) (d : Code β) : Code (α × β) where
  encode := fun x => c.encode x.1 ++ d.encode x.2
  decode := fun bytes => do
    let (a, bytes) ← c.decode bytes
    let (b, bytes) ← d.decode bytes
    some ((a, b), bytes)
  decode_encode := by
    intro x rest
    rw [List.append_assoc, c.decode_encode]
    simp only [Option.bind_eq_bind, Option.bind_some, d.decode_encode]

def decodeList (c : Code α) : ℕ → List UInt8 → Option (List α × List UInt8)
  | 0, bytes => some ([], bytes)
  | n + 1, bytes => do
    let (a, bytes) ← c.decode bytes
    let (as, bytes) ← c.decodeList n bytes
    some (a :: as, bytes)

theorem decodeList_encode (c : Code α) (as : List α) (rest : List UInt8) :
    c.decodeList as.length (as.flatMap c.encode ++ rest) = some (as, rest) := by
  induction as with
  | nil => rfl
  | cons a as ih =>
    rw [List.length_cons, decodeList, List.flatMap_cons, List.append_assoc, c.decode_encode]
    simp only [Option.bind_eq_bind, Option.bind_some, ih]

/-- The length, and the elements. -/
def list (c : Code α) : Code (List α) where
  encode := fun as => nat.encode as.length ++ as.flatMap c.encode
  decode := fun bytes => do
    let (n, bytes) ← nat.decode bytes
    c.decodeList n bytes
  decode_encode := by
    intro as rest
    rw [List.append_assoc, nat.decode_encode]
    exact c.decodeList_encode as rest

/-- The code of `α` that a code of `β` gives, `α` being a part of `β`. -/
def via (c : Code β) (f : α → β) (g : β → α) (h : Function.LeftInverse g f) : Code α where
  encode := fun a => c.encode (f a)
  decode := fun bytes => (c.decode bytes).map fun x => (g x.1, x.2)
  decode_encode := fun a rest => by rw [c.decode_encode, Option.map_some, h a]

def char : Code Char :=
  (byte.prod (byte.prod byte)).via
    (fun c => (UInt8.ofNat (c.toNat / 65536), UInt8.ofNat (c.toNat / 256), UInt8.ofNat c.toNat))
    (fun x => Char.ofNat (x.1.toNat * 65536 + x.2.1.toNat * 256 + x.2.2.toNat)) fun c => by
      have hlt : c.toNat < 1114112 := by
        rcases c.valid with h | ⟨-, h⟩
        · exact Nat.lt_trans h (by decide)
        · exact h
      simp only [UInt8.toNat_ofNat']
      rw [show c.toNat / 65536 % 256 * 65536 + c.toNat / 256 % 256 * 256 + c.toNat % 256 = c.toNat by
        omega, Char.ofNat_toNat]

def flag (yes no : UInt8) (h : no ≠ yes) : Code Bool where
  encode := fun b => [if b then yes else no]
  decode := fun
    | [] => none
    | b :: rest => if b = yes then some (true, rest) else if b = no then some (false, rest) else none
  decode_encode := fun b rest => by cases b <;> simp [h]

def bool : Code Bool := flag 1 0 (by decide)

def digit : Code (Fin 10) where
  encode := fun d => [Text.digit d]
  decode := fun
    | [] => none
    | b :: rest => if h : Text.value b < 10 ∧ ¬ b < 48 then some (⟨Text.value b, h.1⟩, rest) else none
  decode_encode := fun d rest => by
    obtain ⟨hvalue, hdigit⟩ := Text.digit_spec d.isLt
    simp [hvalue, (not_or.mp hdigit).1]

/-- Decimal, with as many digits as the width says. -/
def decimal : (width : ℕ) → Code (Fin (10 ^ width))
  | 0 => ⟨fun _ => [], fun bytes => some ((0 : Fin 1), bytes), fun n _ => by rw [Fin.fin_one_eq_zero n]; rfl⟩
  | width + 1 => ((decimal width).prod digit).via finProdFinEquiv.symm finProdFinEquiv finProdFinEquiv.right_inv

/-- A fixed text, and the code behind it. -/
def behind (mark : List UInt8) (c : Code α) : Code α where
  encode := fun a => mark ++ c.encode a
  decode := fun bytes => (Text.cutPrefix mark bytes).bind c.decode
  decode_encode := fun a rest => by
    rw [List.append_assoc, Text.cutPrefix_append, Option.bind_some, c.decode_encode]

def int : Code ℤ :=
  (nat.prod nat).via (fun z => (z.toNat, (-z).toNat)) (fun x => (x.1 : ℤ) - x.2) fun z => by
    dsimp only
    omega

def option (c : Code α) : Code (Option α) := c.list.via Option.toList List.head? fun a => by cases a <;> rfl

def text : Code String := char.list.via String.toList String.ofList fun _ => String.ofList_toList

end Code

end Ego.Lib

import Mathlib

/-! # Numbers as bytes

Little-endian bytes of a fixed width (`leBytes`) and the number that bytes stand for (`leValue`);
below `256 ^ w` the two are inverse.  `reverseBytes` is what comes out when a number is written in
one byte order and read in the other. -/

namespace Enclave.Bytes

/-- The number a little-endian byte string stands for. -/
def leValue : List UInt8 → ℕ
  | [] => 0
  | b :: rest => b.toNat + 256 * leValue rest

/-- The last `n` bytes of a number, little endian. -/
def leBytes : ℕ → ℕ → List UInt8
  | 0, _ => []
  | n + 1, x => UInt8.ofNat x :: leBytes n (x / 256)

theorem length_leBytes : ∀ n x : ℕ, (leBytes n x).length = n
  | 0, _ => rfl
  | n + 1, x => by rw [leBytes, List.length_cons, length_leBytes n]

theorem leValue_leBytes_mod : ∀ n x : ℕ, leValue (leBytes n x) = x % 256 ^ n
  | 0, x => by
      rw [leBytes, leValue, pow_zero, Nat.mod_one]
  | n + 1, x => by
      have hmod : x % 256 ^ (n + 1) = x % 256 + 256 * (x / 256 % 256 ^ n) := by
        rw [Nat.pow_succ', Nat.mod_mul]
      rw [leBytes, leValue, leValue_leBytes_mod n, UInt8.toNat_ofNat', hmod]

theorem leValue_leBytes {n x : ℕ} (h : x < 256 ^ n) : leValue (leBytes n x) = x := by
  rw [leValue_leBytes_mod, Nat.mod_eq_of_lt h]

theorem leValue_lt : ∀ bytes : List UInt8, leValue bytes < 256 ^ bytes.length
  | [] => Nat.one_pos
  | b :: rest => by
      have hb := b.toNat_lt
      have hrest := leValue_lt rest
      rw [leValue, List.length_cons, pow_succ]
      omega

theorem leValue_concat (bytes : List UInt8) (b : UInt8) :
    leValue (bytes ++ [b]) = leValue bytes + 256 ^ bytes.length * b.toNat := by
  induction bytes with
  | nil => simp [leValue]
  | cons x rest ih =>
      rw [List.cons_append, leValue, leValue, ih, List.length_cons, pow_succ]
      ring

theorem leValue_append (a b : List UInt8) :
    leValue (a ++ b) = leValue a + 256 ^ a.length * leValue b := by
  induction a with
  | nil => simp [leValue]
  | cons x rest ih =>
      rw [List.cons_append, leValue, leValue, ih, List.length_cons, pow_succ]
      ring

theorem leBytes_leValue : ∀ bytes : List UInt8, leBytes bytes.length (leValue bytes) = bytes
  | [] => rfl
  | b :: rest => by
      have hb := b.toNat_lt
      have hdiv : (b.toNat + 256 * leValue rest) / 256 = leValue rest := by omega
      rw [List.length_cons, leBytes, leValue, hdiv, leBytes_leValue rest]
      congr 1
      apply UInt8.toNat_inj.mp
      rw [UInt8.toNat_ofNat']
      omega

theorem leBytes_of_length {n : ℕ} {bytes : List UInt8} (h : bytes.length = n) :
    leBytes n (leValue bytes) = bytes := by
  subst h
  exact leBytes_leValue bytes

theorem foldr_shiftLeft (bytes : List UInt8) :
    bytes.foldr (fun b v => v <<< 8 ||| b.toNat) 0 = leValue bytes := by
  induction bytes with
  | nil => rfl
  | cons b rest ih =>
      rw [List.foldr_cons, ih, ← Nat.shiftLeft_add_eq_or_of_lt b.toNat_lt, Nat.shiftLeft_eq, leValue]
      omega

/-! ### The other byte order -/

/-- A number's bytes, read in the other order. -/
def reverseBytes (n x : ℕ) : ℕ := leValue (leBytes n x).reverse

theorem reverseBytes_lt (n x : ℕ) : reverseBytes n x < 256 ^ n := by
  have h := leValue_lt (leBytes n x).reverse
  rwa [List.length_reverse, length_leBytes] at h

theorem leBytes_reverseBytes (n x : ℕ) : leBytes n (reverseBytes n x) = (leBytes n x).reverse := by
  unfold reverseBytes
  apply leBytes_of_length
  rw [List.length_reverse, length_leBytes]

end Enclave.Bytes

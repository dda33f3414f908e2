import Enclave.Lib.Bytes
import Enclave.Lib.JsText

/-! # Hexadecimal text

Two digits for a byte, lower case (`byteToHex`).  Reading digits in pairs (`fromHex`) undoes
writing them (`fromHex_toHex`); `BigInt` of prefixed text reads the last byte as the lowest
(`bigInt_prefixed_toHex`). -/

namespace Enclave.Hex

open Js

/-- Two by two; a last one alone is dropped. -/
def pairs {α : Type*} : List α → List (α × α)
  | a :: b :: rest => (a, b) :: pairs rest
  | _ => []

/-- `toString(16).padStart(2, "0")`. -/
def byteToHex (b : UInt8) : List Char := (Nat.toDigits 16 b.toNat).leftpad 2 '0'

/-- The digits of bytes. -/
def toHex (bytes : List UInt8) : List Char := bytes.flatMap byteToHex

/-- The byte that two characters stand for, as `parseInt` reads them. -/
def byteOfPair (p : Char × Char) : UInt8 := toUint8 (parseInt16 [p.1, p.2])

/-- Bytes from pairs of characters. -/
def fromHex (cs : List Char) : List UInt8 := (pairs cs).map byteOfPair

/-- A hexadecimal digit, either case. -/
def isHexDigit (c : Char) : Bool := (digitIn 16 c).isSome

theorem exists_digits (b : UInt8) : ∃ n m : Fin 16, b = UInt8.ofNat (16 * n.val + m.val) := by
  have hb := b.toNat_lt
  refine ⟨⟨b.toNat / 16, by omega⟩, ⟨b.toNat % 16, by omega⟩, ?_⟩
  rw [Nat.div_add_mod, UInt8.ofNat_toNat]

theorem byteToHex_ofNat (n m : Fin 16) :
    byteToHex (UInt8.ofNat (16 * n.val + m.val)) = [Nat.digitChar n, Nat.digitChar m] := by
  revert n m
  decide +kernel

theorem byteOfPair_digitChar (n m : Fin 16) :
    byteOfPair (Nat.digitChar n, Nat.digitChar m) = UInt8.ofNat (16 * n.val + m.val) := by
  have hparse : parseInt16 [Nat.digitChar n, Nat.digitChar m] =
      some ((16 * n.val + m.val : ℕ) : ℤ) := by
    revert n m
    decide +kernel
  have hbyte : toUint8 (some ((16 * n.val + m.val : ℕ) : ℤ)) =
      UInt8.ofNat (16 * n.val + m.val) := by
    revert n m
    decide +kernel
  rw [byteOfPair, hparse, hbyte]

theorem isHexDigit_digitChar (n : Fin 16) : isHexDigit (Nat.digitChar n) = true := by
  revert n
  decide

theorem pairs_append {α : Type*} {a b : α} (rest : List α) :
    pairs ([a, b] ++ rest) = (a, b) :: pairs rest := rfl

/-- **What is written is read back.** -/
theorem fromHex_toHex (bytes : List UInt8) : fromHex (toHex bytes) = bytes := by
  induction bytes with
  | nil => rfl
  | cons b rest ih =>
      obtain ⟨n, m, rfl⟩ := exists_digits b
      rw [fromHex] at ih ⊢
      rw [toHex, List.flatMap_cons, byteToHex_ofNat, pairs_append, List.map_cons,
        byteOfPair_digitChar, ← toHex, ih]

theorem length_toHex (bytes : List UInt8) : (toHex bytes).length = 2 * bytes.length := by
  induction bytes with
  | nil => rfl
  | cons b rest ih =>
      obtain ⟨n, m, rfl⟩ := exists_digits b
      rw [toHex, List.flatMap_cons, byteToHex_ofNat, List.length_append, ← toHex, ih,
        List.length_cons, List.length_cons, List.length_cons, List.length_nil]
      omega

theorem drop_toHex : ∀ (n : ℕ) (bytes : List UInt8),
    (toHex bytes).drop (2 * n) = toHex (bytes.drop n)
  | 0, _ => rfl
  | n + 1, [] => List.drop_nil
  | n + 1, b :: rest => by
      obtain ⟨i, j, rfl⟩ := exists_digits b
      rw [toHex, List.flatMap_cons, byteToHex_ofNat, ← toHex, Nat.mul_succ, List.drop_succ_cons,
        ← drop_toHex n rest]
      rfl

theorem take_toHex : ∀ (n : ℕ) (bytes : List UInt8),
    (toHex bytes).take (2 * n) = toHex (bytes.take n)
  | 0, _ => rfl
  | n + 1, [] => List.take_nil
  | n + 1, b :: rest => by
      obtain ⟨i, j, rfl⟩ := exists_digits b
      have htail : toHex (UInt8.ofNat (16 * i.val + j.val) :: rest.take n) =
          Nat.digitChar i :: Nat.digitChar j :: (toHex rest).take (2 * n) := by
        rw [toHex, List.flatMap_cons, byteToHex_ofNat, ← toHex, take_toHex n rest]
        rfl
      rw [List.take_succ_cons, htail, toHex, List.flatMap_cons, byteToHex_ofNat, ← toHex]
      rfl

theorem isHexDigit_of_mem_toHex {bytes : List UInt8} {c : Char} (h : c ∈ toHex bytes) :
    isHexDigit c = true := by
  obtain ⟨b, -, hc⟩ := List.mem_flatMap.mp h
  obtain ⟨n, m, rfl⟩ := exists_digits b
  rw [byteToHex_ofNat, List.mem_pair] at hc
  obtain rfl | rfl := hc
  · exact isHexDigit_digitChar n
  · exact isHexDigit_digitChar m

/-! ### Hexadecimal strings -/

theorem toNat_lt_of_isHexDigit {c : Char} (h : isHexDigit c = true) : c.toNat < 128 := by
  unfold isHexDigit digitIn digitValue at h
  by_contra hge
  have hnot : ∀ d : Char, d.toNat < 128 → ¬ c ≤ d := by
    intro d hd hle
    have : c.toNat ≤ d.toNat := hle
    omega
  rw [if_neg, if_neg fun hc => hnot 'f' (by decide) hc.2,
    if_neg fun hc => hnot 'F' (by decide) hc.2] at h
  · cases h
  · intro hdigit
    rw [Char.isDigit, Bool.and_eq_true, decide_eq_true_eq, decide_eq_true_eq] at hdigit
    exact hnot '9' (by decide) hdigit.2

theorem codeUnits_of_isHexDigit {cs : List Char} (h : ∀ c ∈ cs, isHexDigit c = true) :
    codeUnits (String.ofList cs) = cs := by
  rw [codeUnits, String.toList_ofList]
  induction cs with
  | nil => rfl
  | cons c rest ih =>
      have hc := toNat_lt_of_isHexDigit (h c List.mem_cons_self)
      rw [List.flatMap_cons, if_pos (by omega), ih fun d hd => h d (List.mem_cons_of_mem _ hd)]
      rfl

/-- Hexadecimal digits carry no prefix. -/
theorem take_two_ne {cs : List Char} (h : ∀ c ∈ cs, isHexDigit c = true) {x : Char}
    (hx : isHexDigit x = false) : cs.take 2 ≠ ['0', x] := by
  intro heq
  have hmem : x ∈ cs := List.mem_of_mem_take (heq ▸ List.mem_cons_of_mem _ List.mem_cons_self)
  rw [h x hmem] at hx
  cases hx

theorem strip0x_of_isHexDigit {cs : List Char} (h : ∀ c ∈ cs, isHexDigit c = true) :
    strip0x cs = cs := if_neg (take_two_ne h (by decide))

/-! ### Prefixed text as a number -/

theorem not_isWhiteSpace_of_isHexDigit {c : Char} (h : isHexDigit c = true) :
    isWhiteSpace c = false := by
  have hlt := toNat_lt_of_isHexDigit h
  by_contra hwhite
  have hmem : c.toNat ∈ [0x9, 0xA, 0xB, 0xC, 0xD, 0x20] := by
    rw [Bool.not_eq_false, isWhiteSpace, Bool.or_eq_true, decide_eq_true_iff] at hwhite
    simp only [List.mem_cons, List.not_mem_nil, or_false, Bool.and_eq_true,
      decide_eq_true_iff] at hwhite ⊢
    omega
  have hnot : ∀ n ∈ [0x9, 0xA, 0xB, 0xC, 0xD, 0x20], isHexDigit (Char.ofNat n) = false := by
    decide
  have hfalse := hnot _ hmem
  rw [Char.ofNat_toNat, h] at hfalse
  cases hfalse

theorem trim_of_isHexDigit {cs : List Char} (h : ∀ c ∈ cs, isHexDigit c = true) :
    trim ('0' :: 'x' :: cs) = '0' :: 'x' :: cs := by
  have hwhite : ∀ c ∈ '0' :: 'x' :: cs, isWhiteSpace c = false := by
    intro c hc
    rw [List.mem_cons, List.mem_cons] at hc
    obtain rfl | rfl | hc := hc
    · rfl
    · rfl
    · exact not_isWhiteSpace_of_isHexDigit (h c hc)
  have hdrop : ∀ ds : List Char, (∀ c ∈ ds, isWhiteSpace c = false) →
      ds.dropWhile isWhiteSpace = ds := by
    intro ds hds
    apply List.dropWhile_eq_self_iff.mpr
    intro hlen hhead
    rw [hds _ (List.getElem_mem hlen)] at hhead
    cases hhead
  rw [trim, hdrop _ hwhite, hdrop _ fun c hc => hwhite c (List.mem_reverse.mp hc),
    List.reverse_reverse]

theorem digitIn_digitChar (n : Fin 16) : digitIn 16 (Nat.digitChar n) = some n.val := by
  revert n
  decide

theorem digitsValue_toHex (bytes : List UInt8) (acc : ℕ) :
    digitsValue 16 acc (toHex bytes) =
      some (acc * 256 ^ bytes.length + Bytes.leValue bytes.reverse) := by
  induction bytes generalizing acc with
  | nil => simp [toHex, digitsValue, Bytes.leValue]
  | cons b rest ih =>
      obtain ⟨n, m, hb⟩ := exists_digits b
      have hbyte : b.toNat = 16 * n.val + m.val := by
        rw [hb, UInt8.toNat_ofNat']
        omega
      rw [toHex, List.flatMap_cons, hb, byteToHex_ofNat, ← toHex, List.cons_append,
        List.cons_append, List.nil_append, digitsValue, digitIn_digitChar, Option.bind_some,
        digitsValue, digitIn_digitChar, Option.bind_some, ih, ← hb, List.reverse_cons,
        Bytes.leValue_concat, List.length_cons, List.length_reverse, hbyte, pow_succ]
      congr 1
      ring

/-- **`BigInt` reads prefixed bytes** with the first byte as the highest. -/
theorem bigInt_prefixed_toHex {bytes : List UInt8} (h : bytes ≠ []) :
    bigInt (String.ofList ('0' :: 'x' :: toHex bytes)) =
      some (Bytes.leValue bytes.reverse : ℤ) := by
  have hne : toHex bytes ≠ [] := by
    rw [← List.length_pos_iff, length_toHex]
    have := List.length_pos_iff.mpr h
    omega
  unfold bigInt stringToBigInt
  rw [String.toList_ofList, trim_of_isHexDigit fun c hc => isHexDigit_of_mem_toHex hc]
  simp only [List.take_succ_cons, List.take_zero, List.drop_succ_cons, List.drop_zero, parseInteger,
    parseDigits, hne, digitsValue_toHex, if_false, if_true, true_or, reduceCtorEq]
  simp

end Enclave.Hex

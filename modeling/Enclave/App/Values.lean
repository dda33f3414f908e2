import Enclave.Rpc

/-! # Values of the browser app

What `scValToNative` makes of a Soroban value, and `app/js/state/utils.js`: 256-bit integers are
kept as hexadecimal text, 64 digits and a prefix, and go into the Merkle tree as bytes, little
endian.  `hexToBytesForTree_hex64` says that the text keeps the integer. -/

namespace Enclave.App

open Stellar Js

/-! ### Native values -/

/-- JavaScript values. -/
inductive Native where
  | undefined
  | string (s : String)
  | bigint (n : ℤ)
  | number (n : ℕ)
  | bytes (b : List UInt8)
  | array (items : List Native)
  | object (fields : List (String × Native))

/-- A property; of anything but an object it is `undefined`. -/
def Native.prop (v : Native) (name : String) : Native :=
  match v with
  | .object fields => ((fields.find? fun e => e.1 = name).map Prod.snd).getD .undefined
  | _ => .undefined

/-- Whether a value counts as true. -/
def Native.truthy : Native → Bool
  | .undefined => false
  | .string s => s ≠ ""
  | .bigint n => n ≠ 0
  | .number n => n ≠ 0
  | _ => true

variable (addressText : Address → String)

mutual

/-- `scValToNative`. -/
def scValToNative : ScVal → Native
  | .symbol s => .string s
  | .u32 n => .number n
  | .bytes b => .bytes b
  | .u256 n => .bigint n
  | .i256 n => .bigint n.val
  | .address a => .string (addressText a)
  | .vec items => .array (nativeItems items)
  | .map entries => .object (nativeFields entries)

def nativeItems : List ScVal → List Native
  | [] => []
  | v :: rest => scValToNative v :: nativeItems rest

def nativeFields : List (String × ScVal) → List (String × Native)
  | [] => []
  | (name, v) :: rest => (name, scValToNative v) :: nativeFields rest

end

mutual

/-- `String(value)`. -/
def Native.toText : Native → String
  | .undefined => "undefined"
  | .string s => s
  | .bigint n => bigIntToString n
  | .number n => n.repr
  | .bytes b => ",".intercalate (b.map fun x => x.toNat.repr)
  | .array items => ",".intercalate (itemTexts items)
  | .object _ => "[object Object]"

def itemTexts : List Native → List String
  | [] => []
  | v :: rest => v.toText :: itemTexts rest

end

/-- `BigInt(value)`. -/
def Native.toBigInt : Native → Except String ℤ
  | .bigint n => .ok n
  | .number n => .ok n
  | v => (bigInt v.toText).elim (.error "Cannot convert to a BigInt") .ok

/-- An event as the app handles it. -/
structure NativeEvent where
  topic : List Native
  value : Native
  ledger : ℕ

/-- The decoding of `fetchAllContractEvents`. -/
def decodeEvent (event : Rpc.RpcEvent) : NativeEvent :=
  ⟨event.topics.map (scValToNative addressText), scValToNative addressText event.value,
    event.ledger⟩

/-- `event.topic?.[i]`. -/
def NativeEvent.topicAt (event : NativeEvent) (i : ℕ) : Native := event.topic[i]?.getD .undefined

/-! ### Hexadecimal text -/

/-- `TREE_DEPTH`. -/
def treeDepth : ℕ := 10

/-- `hexToBytes`. -/
def hexToBytes (hex : String) : Except String (List UInt8) :=
  let cleanHex := strip0x (codeUnits hex)
  if cleanHex.length % 2 ≠ 0 then .error "Hex string must have even length"
  else if cleanHex.all Hex.isHexDigit then .ok (Hex.fromHex cleanHex)
  else .error "Invalid hex characters"

/-- `bytesToHex`. -/
def bytesToHex (bytes : List UInt8) : String := String.ofList ('0' :: 'x' :: Hex.toHex bytes)

/-- `normalizeHex`. -/
def normalizeHex (hex : String) : String :=
  if (codeUnits hex).take 2 = ['0', 'x'] then hex else "0x" ++ hex

/-- `'0x' + value.toString(16).padStart(64, '0')`. -/
def hex64 (value : ℤ) : String :=
  let digits := Nat.toDigits 16 value.natAbs
  String.ofList ('0' :: 'x' :: (if value < 0 then '-' :: digits else digits).leftpad 64 '0')

/-- `normalizeU256ToHex`. -/
def normalizeU256ToHex : Native → Except String String
  | .undefined => .error "Cannot normalize null/undefined U256 value"
  | .string s => .ok (normalizeHex s)
  | .bigint n => .ok (hex64 n)
  | .bytes b => .ok (bytesToHex b)
  | .object fields =>
      if fields.any (fun e => e.1 = "hi") ∧ fields.any (fun e => e.1 = "lo") then do
        let hi ← ((Native.object fields).prop "hi").toBigInt
        let lo ← ((Native.object fields).prop "lo").toBigInt
        return hex64 (Int.lor (hi * 2 ^ 128) lo)
      else .ok (Native.object fields).toText
  | v => .ok v.toText

/-- `hexToBytesForTree`. -/
def hexToBytesForTree (hex : String) : Except String (List UInt8) := do
  return (← hexToBytes hex).reverse

/-! ### The text of an integer -/

/-- The last `w` digits of a number. -/
def fixedDigits : ℕ → ℕ → List Char
  | 0, _ => []
  | w + 1, n => fixedDigits w (n / 16) ++ [Nat.digitChar (n % 16)]

theorem fixedDigits_zero (w : ℕ) : fixedDigits w 0 = List.replicate w '0' := by
  induction w with
  | zero => rfl
  | succ w ih =>
      rw [fixedDigits, Nat.zero_div, ih, List.replicate_succ']
      rfl

theorem leftpad_toDigits : ∀ {w n : ℕ}, n < 16 ^ (w + 1) →
    (Nat.toDigits 16 n).leftpad (w + 1) '0' = fixedDigits (w + 1) n
  | w, n, h => by
      rcases Nat.lt_or_ge n 16 with hlt | hge
      · rw [Nat.toDigits_of_lt_base hlt, fixedDigits, Nat.div_eq_of_lt hlt, fixedDigits_zero,
          Nat.mod_eq_of_lt hlt]
        rfl
      · cases w with
        | zero => omega
        | succ w =>
            have hdiv : n / 16 < 16 ^ (w + 1) := by
              rw [pow_succ] at h
              exact Nat.div_lt_of_lt_mul (by omega)
            rw [fixedDigits, ← leftpad_toDigits hdiv, Nat.toDigits_of_base_le (by decide) hge,
              List.leftpad, List.leftpad, List.length_append, List.length_singleton,
              Nat.add_sub_add_right, List.append_assoc]

theorem toHex_leBytes : ∀ w n : ℕ,
    Hex.toHex (Prover.leBytes w n).reverse = fixedDigits (2 * w) n
  | 0, _ => rfl
  | w + 1, n => by
      have hbyte : Hex.byteToHex (UInt8.ofNat n) =
          [Nat.digitChar (n / 16 % 16), Nat.digitChar (n % 16)] := by
        have hsplit : UInt8.ofNat n = UInt8.ofNat (16 * (n / 16 % 16) + n % 16) := by
          apply UInt8.toNat_inj.mp
          rw [UInt8.toNat_ofNat', UInt8.toNat_ofNat']
          omega
        rw [hsplit]
        exact Hex.byteToHex_ofNat ⟨n / 16 % 16, Nat.mod_lt _ (by decide)⟩
          ⟨n % 16, Nat.mod_lt _ (by decide)⟩
      rw [Prover.leBytes, List.reverse_cons, Hex.toHex, List.flatMap_append, ← Hex.toHex,
        toHex_leBytes w, List.flatMap_singleton, hbyte, show 2 * (w + 1) = 2 * w + 1 + 1 by omega,
        fixedDigits, fixedDigits, Nat.div_div_eq_div_mul, List.append_assoc]
      rfl

theorem hex64_natCast {n : ℕ} (h : n < 2 ^ 256) :
    hex64 n = bytesToHex (Prover.leBytes 32 n).reverse := by
  have hlt : n < 16 ^ (63 + 1) := by
    rw [show (16 : ℕ) ^ (63 + 1) = 2 ^ 256 by norm_num]
    exact h
  have hneg : ¬ (n : ℤ) < 0 := by omega
  rw [hex64, bytesToHex, if_neg hneg, Int.natAbs_natCast, leftpad_toDigits hlt, toHex_leBytes]

theorem codeUnits_bytesToHex (bytes : List UInt8) :
    codeUnits (bytesToHex bytes) = '0' :: 'x' :: Hex.toHex bytes := by
  have htoHex := @Hex.codeUnits_of_isHexDigit (Hex.toHex bytes) fun _ =>
    Hex.isHexDigit_of_mem_toHex
  rw [codeUnits, String.toList_ofList] at htoHex
  rw [codeUnits, bytesToHex, String.toList_ofList, List.flatMap_cons, List.flatMap_cons, htoHex]
  rfl

theorem strip0x_codeUnits_bytesToHex (bytes : List UInt8) :
    strip0x (codeUnits (bytesToHex bytes)) = Hex.toHex bytes := by
  rw [codeUnits_bytesToHex]
  exact if_pos rfl

theorem hexToBytes_bytesToHex (bytes : List UInt8) : hexToBytes (bytesToHex bytes) = .ok bytes := by
  have hdigit : ∀ c ∈ Hex.toHex bytes, Hex.isHexDigit c = true := fun _ =>
    Hex.isHexDigit_of_mem_toHex
  rw [hexToBytes, strip0x_codeUnits_bytesToHex, Hex.length_toHex]
  simp only [Nat.mul_mod_right, ne_eq, not_true_eq_false, if_false]
  rw [if_pos (List.all_eq_true.mpr hdigit), Hex.fromHex_toHex]

theorem hex64_injective {n m : ℕ} (hn : n < 2 ^ 256) (hm : m < 2 ^ 256) (h : hex64 n = hex64 m) :
    n = m := by
  have hbytes : (Prover.leBytes 32 n).reverse = (Prover.leBytes 32 m).reverse := by
    have hread := congrArg hexToBytes h
    rw [hex64_natCast hn, hex64_natCast hm, hexToBytes_bytesToHex, hexToBytes_bytesToHex] at hread
    exact Except.ok.inj hread
  have hlt : ∀ {x : ℕ}, x < 2 ^ 256 → x < 256 ^ 32 := fun hx => by
    rwa [show (256 : ℕ) ^ 32 = 2 ^ 256 by norm_num]
  rw [← Prover.leValue_leBytes (hlt hn), List.reverse_injective hbytes,
    Prover.leValue_leBytes (hlt hm)]

theorem normalizeU256ToHex_bigint (n : ℤ) : normalizeU256ToHex (.bigint n) = .ok (hex64 n) := by
  rw [normalizeU256ToHex]

/-- **The tree gets the integer of the event.** -/
theorem hexToBytesForTree_hex64 {n : ℕ} (h : n < 2 ^ 256) :
    hexToBytesForTree (hex64 n) = .ok (Prover.leBytes 32 n) := by
  rw [hexToBytesForTree, hex64_natCast h, hexToBytes_bytesToHex]
  exact congrArg Except.ok (List.reverse_reverse _)

end Enclave.App

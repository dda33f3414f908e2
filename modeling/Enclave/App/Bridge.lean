import Enclave.App.Values
import Enclave.Prover.Crypto
import Enclave.Prover.Encryption

/-! # The bridge to the prover

What `app/js/bridge.js` adds to the wasm prover crate: big integers become field elements by way of
their hexadecimal text (`bigintToField`), and a note is encrypted as 8 bytes of amount and 32 bytes
of blinding. -/

namespace Enclave.App

open Prover Bytes

/-- `value.toString(16)`. -/
def toString16 (value : ℤ) : List Char :=
  let digits := Nat.toDigits 16 value.natAbs
  if value < 0 then '-' :: digits else digits

/-- `bigintToField`. -/
def bigintToField (value : ℤ) : Result (List UInt8) :=
  hexToFieldBytes (String.ofList ('0' :: 'x' :: toString16 value))

/-- `field_bytes_to_hex`. -/
def fieldToHex (bytes : List UInt8) : Result String := do
  let scalar ← bytesToScalar bytes
  return bytesToHex (scalarToBytes scalar).reverse

/-- `bytesToBigIntLE`. -/
def bytesToBigIntLE (bytes : List UInt8) : ℕ := bytes.foldr (fun b v => v <<< 8 ||| b.toNat) 0

/-- `bigintToLittleEndian`. -/
def bigintToLittleEndian (value : ℤ) : ℕ → List UInt8
  | 0 => []
  | length + 1 =>
      UInt8.ofNat (value % 256).toNat :: bigintToLittleEndian (value / 256) length

/-- `amount` and `blinding` of a note. -/
structure NoteData where
  amount : ℤ
  blinding : List UInt8
deriving DecidableEq

variable (c : Cipher)

/-- `encryptNoteData`. -/
def encryptNoteData (ephemeral nonce recipientPubKey : List UInt8) (noteData : NoteData) :
    Result (List UInt8) :=
  if recipientPubKey.length ≠ 32 then .error (.error "Recipient public key must be 32 bytes")
  else if noteData.blinding.length > 32 then .error (.error "RangeError")
  else
    let plaintext := bigintToLittleEndian noteData.amount 8 ++ noteData.blinding ++
      List.replicate (32 - noteData.blinding.length) 0
    Prover.encryptNoteData c ephemeral nonce recipientPubKey plaintext

/-- `decryptNoteData`; `none` is `null`. -/
def decryptNoteData (privateKey encryptedData : List UInt8) : Option NoteData :=
  if privateKey.length ≠ 32 then none
  else
    match Prover.decryptNoteData c privateKey encryptedData with
    | .error _ => none
    | .ok plaintext =>
        if plaintext.length ≠ 40 then none
        else some ⟨bytesToBigIntLE (plaintext.take 8), (plaintext.drop 8).take 32⟩

variable {c}

theorem bytesToBigIntLE_eq (bytes : List UInt8) : bytesToBigIntLE bytes = leValue bytes :=
  foldr_shiftLeft bytes

theorem bytesToBigIntLE_scalarToBytes (x : F) : bytesToBigIntLE (scalarToBytes x) = x.val := by
  rw [bytesToBigIntLE_eq, leValue_scalarToBytes]

theorem bigintToLittleEndian_natCast (value length : ℕ) :
    bigintToLittleEndian value length = leBytes length value := by
  induction length generalizing value with
  | zero => rfl
  | succ length ih =>
      have hmod : ((value : ℤ) % 256).toNat = value % 256 := by omega
      have hbyte : UInt8.ofNat (value % 256) = UInt8.ofNat value := by
        apply UInt8.toNat_inj.mp
        rw [UInt8.toNat_ofNat', UInt8.toNat_ofNat', Nat.mod_mod]
      have hdiv : (value : ℤ) / 256 = ((value / 256 : ℕ) : ℤ) := by omega
      rw [bigintToLittleEndian, leBytes, hmod, hbyte, hdiv, ih]

theorem hexToScalar_toDigits {n : ℕ} (h : n < 2 ^ 256) {cs : List Char}
    (hcs : cs.length ≤ 64) (hpad : cs.leftpad 64 '0' = (Nat.toDigits 16 n).leftpad 64 '0') :
    hexToScalar (String.ofList ('0' :: 'x' :: cs)) = .ok (n : F) := by
  have hlt : n < 16 ^ (63 + 1) := by
    rw [show (16 : ℕ) ^ (63 + 1) = 2 ^ 256 by norm_num]
    exact h
  have hbytes : cs.leftpad 64 '0' = Hex.toHex (leBytes 32 n).reverse := by
    rw [hpad, leftpad_toDigits hlt, toHex_leBytes]
  rw [hexToScalar_ofList hcs hbytes, List.reverse_reverse, leValue_leBytes]
  rwa [show (256 : ℕ) ^ 32 = 2 ^ 256 by norm_num]

theorem length_toDigits_le {n : ℕ} (h : n < 2 ^ 256) : (Nat.toDigits 16 n).length ≤ 64 := by
  apply Nat.toDigits_length 16 n 64 (by decide)
  rwa [show (16 : ℕ) ^ 64 = 2 ^ 256 by norm_num]

theorem bigintToField_natCast {n : ℕ} (h : n < 2 ^ 256) :
    bigintToField n = .ok (scalarToBytes (n : F)) := by
  have hdigits : toString16 n = Nat.toDigits 16 n := by
    rw [toString16, if_neg (by omega), Int.natAbs_natCast]
  rw [bigintToField, hdigits, hexToFieldBytes, hexToScalar_toDigits h (length_toDigits_le h) rfl]
  rfl

theorem bigintToField_val (x : F) : bigintToField x.val = .ok (scalarToBytes x) := by
  rw [bigintToField_natCast ((F.val_lt x).trans (bn256Modulus_lt.trans (by decide))),
    F.natCast_val]

theorem F.val_lt_word (x : F) : x.val < 2 ^ 256 :=
  (F.val_lt x).trans (bn256Modulus_lt.trans (by decide))

theorem fieldToHex_scalarToBytes (x : F) : fieldToHex (scalarToBytes x) = .ok (hex64 x.val) := by
  rw [fieldToHex, bytesToScalar_scalarToBytes, Result.ok_bind, hex64_natCast (F.val_lt_word x)]
  rfl

theorem hexToScalar_hex64 {n : ℕ} (h : n < 2 ^ 256) : hexToScalar (hex64 n) = .ok (n : F) := by
  have hneg : ¬ (n : ℤ) < 0 := by omega
  rw [hex64, if_neg hneg, Int.natAbs_natCast]
  have hlen := length_toDigits_le h
  apply hexToScalar_toDigits h
  · rw [List.length_leftpad]
    omega
  · rw [List.leftpad, List.length_leftpad, Nat.max_eq_left hlen, Nat.sub_self]
    rfl

/-- Bytes that were kept as text, in the order they have, are read in the other order. -/
theorem hexToFieldBytes_bytesToHex {bytes : List UInt8} (h : bytes.length = 32) :
    hexToFieldBytes (bytesToHex bytes) =
      .ok (scalarToBytes ((leValue bytes.reverse : ℕ) : F)) := by
  have hlen : (Hex.toHex bytes).length = 64 := by rw [Hex.length_toHex, h]
  have hpad : (Hex.toHex bytes).leftpad 64 '0' = Hex.toHex bytes := by
    rw [List.leftpad, hlen]
    rfl
  rw [hexToFieldBytes, bytesToHex, hexToScalar_ofList hlen.le hpad]
  rfl

/-! ### Encrypted notes -/

/-- **What the recipient decrypts**: the blinding, and the last 64 bits of the amount. -/
theorem decryptNoteData_encryptNoteData (hc : c.Sound) {ephemeral nonce privateKey : List UInt8}
    (hephemeral : ephemeral.length = 32) (hnonce : nonce.length = 24)
    (hprivate : privateKey.length = 32) (amount : ℕ) (blinding : F) :
    ∃ encrypted, encryptNoteData c ephemeral nonce (c.publicKey privateKey)
        ⟨amount, scalarToBytes blinding⟩ = .ok encrypted ∧ encrypted.length = 112 ∧
      decryptNoteData c privateKey encrypted =
        some ⟨(amount % 2 ^ 64 : ℕ), scalarToBytes blinding⟩ := by
  have hblinding : (scalarToBytes blinding).length = 32 := length_scalarToBytes blinding
  have hamount : (leBytes 8 amount).length = 8 := length_leBytes 8 amount
  have hplain : bigintToLittleEndian amount 8 ++ scalarToBytes blinding ++
      List.replicate (32 - (scalarToBytes blinding).length) 0 =
        leBytes 8 amount ++ scalarToBytes blinding := by
    rw [hblinding, bigintToLittleEndian_natCast, Nat.sub_self, List.replicate_zero, List.append_nil]
  have hlen : (leBytes 8 amount ++ scalarToBytes blinding).length = 40 := by
    rw [List.length_append, hamount, hblinding]
  obtain ⟨encrypted, hencrypt, hlength, hdecrypt⟩ :=
    Prover.decryptNoteData_encryptNoteData hc hephemeral hnonce hprivate hlen
  refine ⟨encrypted, ?_, hlength, ?_⟩
  · unfold encryptNoteData
    rw [if_neg (not_not.mpr (hc.length_publicKey _ hprivate)), if_neg (by simp only [hblinding]; omega)]
    simp only [hplain, hencrypt]
  · have htake : (leBytes 8 amount ++ scalarToBytes blinding).take 8 = leBytes 8 amount :=
      List.take_left' hamount
    have hdrop : ((leBytes 8 amount ++ scalarToBytes blinding).drop 8).take 32 =
        scalarToBytes blinding := by
      rw [List.drop_left' hamount, List.take_of_length_le hblinding.le]
    unfold decryptNoteData
    rw [if_neg (not_not.mpr hprivate), hdecrypt]
    simp only [hlen, htake, hdrop, bytesToBigIntLE_eq, leValue_leBytes_mod]
    rfl

end Enclave.App

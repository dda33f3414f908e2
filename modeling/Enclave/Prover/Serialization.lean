import Enclave.Lib.Bytes
import Enclave.Lib.Hex
import Enclave.Poseidon2

/-! # Field elements as bytes

`serialization.rs` of the wasm prover crate: field elements cross the JavaScript boundary as 32
bytes, little endian, or as hexadecimal text, big endian.  Reading reduces modulo the field's order. -/

namespace Enclave.Prover

/-- Results of the crate: an error message or a panic. -/
abbrev Result (α : Type) := Except (Fault String) α

theorem Result.ok_bind {α β : Type} (a : α) (f : α → Result β) : (.ok a >>= f) = f a := rfl

theorem Result.bind_eq_ok {α β : Type} {m : Result α} {f : α → Result β} {b : β} :
    (m >>= f) = .ok b ↔ ∃ a, m = .ok a ∧ f a = .ok b := by
  constructor
  · intro h
    cases m with
    | error e => cases h
    | ok a => exact ⟨a, rfl, h⟩
  · rintro ⟨a, rfl, h⟩
    exact h

/-- `FIELD_SIZE`. -/
def fieldSize : ℕ := 32

export Bytes (leValue leBytes length_leBytes leValue_leBytes leValue_lt leBytes_leValue)

/-- `bytes_to_scalar`, `bytes_to_fr`. -/
def bytesToScalar (bytes : List UInt8) : Result F :=
  if bytes.length ≠ fieldSize then
    .error (.error s!"Expected {fieldSize} bytes, got {bytes.length}")
  else .ok (leValue bytes : F)

/-- `scalar_to_bytes`, `fr_to_bytes`. -/
def scalarToBytes (scalar : F) : List UInt8 := leBytes fieldSize scalar.val

/-- `u8::from_str_radix(byte_str, 16)` of two characters; a plus sign may stand first. -/
def byteFromRadix (p : Char × Char) : Option UInt8 :=
  if p.1 = '+' then (Js.digitIn 16 p.2).map UInt8.ofNat
  else do
    let high ← Js.digitIn 16 p.1
    let low ← Js.digitIn 16 p.2
    return UInt8.ofNat (16 * high + low)

/-- `hex_to_scalar`. -/
def hexToScalar (hex : String) : Result F :=
  let hex := Js.strip0x hex.toList
  if (hex.map Char.utf8Size).sum > 64 then .error (.error "Hex string too long")
  else
    match (Hex.pairs (hex.leftpad 64 '0')).mapM byteFromRadix with
    | some bytes => .ok (leValue bytes.reverse : F)
    | none => .error (.error "Invalid hex character")

/-- `hex_to_field_bytes`. -/
def hexToFieldBytes (hex : String) : Result (List UInt8) := (hexToScalar hex).map scalarToBytes

theorem F.val_lt_width (x : F) : x.val < 256 ^ fieldSize := by
  refine lt_trans (F.val_lt x) (lt_of_lt_of_le bn256Modulus_lt ?_)
  decide

@[simp] theorem length_scalarToBytes (x : F) : (scalarToBytes x).length = fieldSize := by
  rw [scalarToBytes, length_leBytes]

@[simp] theorem leValue_scalarToBytes (x : F) : leValue (scalarToBytes x) = x.val := by
  rw [scalarToBytes, leValue_leBytes (F.val_lt_width x)]

theorem bytesToScalar_scalarToBytes (x : F) : bytesToScalar (scalarToBytes x) = .ok x := by
  rw [bytesToScalar, length_scalarToBytes, if_neg (not_not.mpr rfl), leValue_scalarToBytes,
    F.natCast_val]

theorem bytesToScalar_of_length {bytes : List UInt8} (h : bytes.length = fieldSize) :
    bytesToScalar bytes = .ok (leValue bytes : F) := by
  rw [bytesToScalar, if_neg (not_not.mpr h)]

/-! ### Hexadecimal text -/

theorem byteFromRadix_digitChar (n m : Fin 16) :
    byteFromRadix (Nat.digitChar n, Nat.digitChar m) = some (UInt8.ofNat (16 * n.val + m.val)) := by
  revert n m
  decide +kernel

theorem mapM_byteFromRadix (bytes : List UInt8) :
    (Hex.pairs (Hex.toHex bytes)).mapM byteFromRadix = some bytes := by
  induction bytes with
  | nil => rfl
  | cons b rest ih =>
      obtain ⟨n, m, rfl⟩ := Hex.exists_digits b
      rw [Hex.toHex, List.flatMap_cons, Hex.byteToHex_ofNat, Hex.pairs_append, ← Hex.toHex,
        List.mapM_cons, byteFromRadix_digitChar, ih]
      rfl

theorem utf8Size_of_isHexDigit {c : Char} (h : Hex.isHexDigit c = true) : c.utf8Size = 1 := by
  have hlt := Hex.toNat_lt_of_isHexDigit h
  apply Char.utf8Size_eq_one_iff.mpr
  rw [UInt32.le_iff_toNat_le]
  exact Nat.lt_succ_iff.mp hlt

/-- **Text of at most 64 digits** is read as the bytes it stands for when padded. -/
theorem hexToScalar_ofList {cs : List Char} {bytes : List UInt8} (hlen : cs.length ≤ 64)
    (h : cs.leftpad 64 '0' = Hex.toHex bytes) :
    hexToScalar (String.ofList ('0' :: 'x' :: cs)) = .ok (leValue bytes.reverse : F) := by
  have hdigit : ∀ c ∈ cs, Hex.isHexDigit c = true := fun c hc => by
    have hmem : c ∈ Hex.toHex bytes := by
      rw [← h]
      exact List.mem_append_right _ hc
    exact Hex.isHexDigit_of_mem_toHex hmem
  have hsize : (cs.map Char.utf8Size).sum = cs.length := by
    rw [List.map_congr_left fun c hc => utf8Size_of_isHexDigit (hdigit c hc), List.map_const',
      List.sum_replicate, smul_eq_mul, Nat.mul_one]
  have hstrip : Js.strip0x (String.ofList ('0' :: 'x' :: cs)).toList = cs := by
    rw [String.toList_ofList]
    exact if_pos rfl
  unfold hexToScalar
  simp only [hstrip, hsize, h, mapM_byteFromRadix]
  exact if_neg (by omega)

end Enclave.Prover

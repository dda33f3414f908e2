import Enclave.App.Values
import Enclave.Facilitator.PoolTransaction

/-! # The digest of the external data

Four functions hash the external data of a transaction: the contract's `hash_ext_data` and the
`hashExtData` of the browser, the facilitator and the agent.  The contract hashes the XDR value of
its struct, the other three build that value themselves and read and write the digest with loops
of their own.  `hashExtData_agreement` says that they compute the same bytes. -/

namespace Enclave

open Hex Js Stellar
open Facilitator (ExtDataLike beValue hashedExtDataMap orThrow)
open Prover (leBytes leValue)

/-- The XDR encoding of values, and Keccak256 of bytes. -/
structure Keccak where
  toXdr : ScVal → List UInt8
  keccak256 : List UInt8 → List UInt8
  length_keccak256 : ∀ message, (keccak256 message).length = 32

/-! ### The contract -/

namespace Pool

/-- The value of a `#[contracttype]` struct: the map of its fields, sorted by symbol. -/
def contractStruct (fields : List (String × ScVal)) : ScVal :=
  .map (fields.insertionSort fun a b => a.1 ≤ b.1)

/-- The value of `ExtData`. -/
def ExtData.toScVal (ext : ExtData) : ScVal :=
  contractStruct [("recipient", .address ext.recipient), ("ext_amount", .i256 ext.extAmount),
    ("encrypted_output0", .bytes ext.encryptedOutput0),
    ("encrypted_output1", .bytes ext.encryptedOutput1)]

/-- `U256::to_be_bytes`. -/
def toBeBytes (n : U256) : List UInt8 := (leBytes 32 n).reverse

/-- `hash_ext_data`. -/
def hashExtDataBytes (k : Keccak) (ext : ExtData) : List UInt8 :=
  let payload := k.toXdr ext.toScVal
  let digest := k.keccak256 payload
  let digestU256 := beValue digest
  let reduced := digestU256 % bn256Modulus
  toBeBytes reduced

end Pool

/-! ### The browser -/

namespace App

/-- `bytesToBigIntBE`. -/
def bytesToBigIntBE (bytes : List UInt8) : ℕ :=
  bytes.foldl (fun result b => result <<< 8 ||| b.toNat) 0

/-- `bigIntToBytesBE`. -/
def bigIntToBytesBE (value length : ℕ) : Except String (List UInt8) :=
  let hex := Nat.toDigits 16 value
  if hex.length > length * 2 then .error "Value exceeds byte length"
  else .ok (fromHex (hex.leftpad (length * 2) '0'))

/-- What `hashExtData` returns. -/
structure ExtDataHash where
  bigInt : ℕ
  bytes : List UInt8
deriving DecidableEq

/-- `hashExtData` of the transaction builder. -/
def hashExtData (k : Keccak) (sdk : Sdk) (extData : ExtDataLike) : Except String ExtDataHash := do
  let scVal ← orThrow "hashExtData" (hashedExtDataMap sdk extData)
  let digest := k.keccak256 (k.toXdr scVal)
  let digestBig := bytesToBigIntBE digest
  let reduced := digestBig % bn256Modulus
  return ⟨reduced, ← bigIntToBytesBE reduced 32⟩

end App

/-! ### The facilitator and the agent -/

namespace Facilitator

/-- `bytesToBigIntBE`. -/
def bytesToBigIntBE (b : List UInt8) : ℕ := b.foldl (fun x v => x <<< 8 ||| v.toNat) 0

/-- The loop of `bigIntToBytesBE`, from the last byte to the first. -/
def bytesBE : ℕ → ℕ → List UInt8
  | 0, _ => []
  | len + 1, rem => bytesBE len (rem >>> 8) ++ [UInt8.ofNat (rem &&& 0xff)]

/-- `HashExtDataResult`. -/
structure HashExtDataResult where
  bigInt : ℕ
  bytes : List UInt8
  hex : String
deriving DecidableEq

/-- `hashExtData`; `none` if the SDK throws. -/
def hashExtDataResult (k : Keccak) (sdk : Sdk) (ext : ExtDataLike) : Option HashExtDataResult := do
  let scMap ← hashedExtDataMap sdk ext
  let digest := k.keccak256 (k.toXdr scMap)
  let digestBig := bytesToBigIntBE digest
  let reduced := digestBig % bn256Modulus
  let bytes := bytesBE 32 reduced
  return ⟨reduced, bytes, String.ofList (toHex bytes)⟩

end Facilitator

namespace Agent

/-- `HashExtDataResult` of the agent. -/
structure HashExtDataResult extends Facilitator.HashExtDataResult where
  decimal : String
deriving DecidableEq

/-- `hashExtData` of the agent: the facilitator's, with the number in decimal. -/
def hashExtData (k : Keccak) (sdk : Sdk) (ext : ExtDataLike) : Option HashExtDataResult :=
  (Facilitator.hashExtDataResult k sdk ext).map fun result => ⟨result, result.bigInt.repr⟩

end Agent

/-! ### Bytes and numbers -/

theorem foldl_shiftLeft (bytes : List UInt8) :
    bytes.foldl (fun v b => v <<< 8 ||| b.toNat) 0 = beValue bytes := by
  rw [List.foldl_eq_foldr_reverse, Bytes.foldr_shiftLeft]
  rfl

theorem bytesBE_eq (len rem : ℕ) : Facilitator.bytesBE len rem = (leBytes len rem).reverse := by
  induction len generalizing rem with
  | zero => rfl
  | succ len ih =>
      have hbyte : UInt8.ofNat (rem &&& 0xff) = UInt8.ofNat rem := by
        apply UInt8.toNat_inj.mp
        rw [show (0xff : ℕ) = 2 ^ 8 - 1 from rfl, Nat.and_two_pow_sub_one_eq_mod,
          UInt8.toNat_ofNat', UInt8.toNat_ofNat', Nat.mod_mod]
      rw [Facilitator.bytesBE, ih, hbyte, Nat.shiftRight_eq_div_pow, leBytes, List.reverse_cons]

theorem bigIntToBytesBE_of_lt {value : ℕ} (h : value < 2 ^ 256) :
    App.bigIntToBytesBE value 32 = .ok (leBytes 32 value).reverse := by
  have hlt : value < 16 ^ (63 + 1) := by
    rw [show (16 : ℕ) ^ (63 + 1) = 2 ^ 256 by norm_num]
    exact h
  have hpad : (Nat.toDigits 16 value).leftpad 64 '0' = toHex (leBytes 32 value).reverse := by
    rw [App.leftpad_toDigits hlt, App.toHex_leBytes]
  have hlen : (Nat.toDigits 16 value).length ≤ 64 := by
    have := congrArg List.length hpad
    rw [List.length_leftpad, length_toHex, List.length_reverse, Prover.length_leBytes] at this
    omega
  unfold App.bigIntToBytesBE
  rw [if_neg (by omega), hpad, fromHex_toHex]

/-! ### The digests -/

/-- The struct's fields, sorted, are the entries that the others list. -/
theorem Pool.ExtData.toScVal_eq (e : Pool.ExtData) :
    e.toScVal = .map [("encrypted_output0", .bytes e.encryptedOutput0),
      ("encrypted_output1", .bytes e.encryptedOutput1), ("ext_amount", .i256 e.extAmount),
      ("recipient", .address e.recipient)] := by
  have hlt : ¬ "ext_amount" ≤ "encrypted_output0" ∧ ¬ "ext_amount" ≤ "encrypted_output1" ∧
      ¬ "recipient" ≤ "encrypted_output0" ∧ ¬ "recipient" ≤ "encrypted_output1" ∧
      ¬ "recipient" ≤ "ext_amount" ∧ "encrypted_output0" ≤ "encrypted_output1" := by
    decide
  obtain ⟨h1, h2, h3, h4, h5, h6⟩ := hlt
  simp only [Pool.ExtData.toScVal, Pool.contractStruct, List.insertionSort, List.foldr,
    List.orderedInsert, h1, h2, h3, h4, h5, h6, if_true, if_false]

/-- The value that the other three build is the contract's. -/
theorem hashedExtDataMap_toScVal {sdk : Sdk} (hsdk : sdk.Exact) (e : Pool.ExtData)
    {address : String} (haddress : sdk.addressFromString address = some e.recipient) :
    hashedExtDataMap sdk ⟨address, e.extAmount.val, e.encryptedOutput0, e.encryptedOutput1⟩ =
      some e.toScVal := by
  rw [Facilitator.hashedExtDataMap_eq, hsdk.xdrLargeI256, haddress, e.toScVal_eq]
  rfl

/-- The contract's digest as a number is what `transact` compares. -/
theorem beValue_hashExtDataBytes (k : Keccak) (ext : Pool.Externals) (e : Pool.ExtData)
    (hext : ext.keccakXdr e = beValue (k.keccak256 (k.toXdr e.toScVal))) :
    beValue (Pool.hashExtDataBytes k e) = Pool.hashExtData ext e := by
  have hlt : Pool.hashExtData ext e < 2 ^ 256 :=
    (Nat.mod_lt _ (by decide)).trans (bn256Modulus_lt.trans (by decide))
  have hbytes := Facilitator.beValue_bigIntToBytesBE hlt
  rw [Pool.hashExtData, hext] at hbytes ⊢
  exact hbytes

/-- The facilitator's `hex` is what its routes compare. -/
theorem hashExtDataResult_hex (k : Keccak) (sdk : Sdk) (ext : ExtDataLike)
    (hsdk : ∀ v, sdk.keccakXdr v = beValue (k.keccak256 (k.toXdr v))) :
    (Facilitator.hashExtDataResult k sdk ext).map (·.hex) = Facilitator.hashExtData sdk ext := by
  unfold Facilitator.hashExtDataResult Facilitator.hashExtData
  cases hashedExtDataMap sdk ext with
  | none => rfl
  | some scMap =>
      simp only [Option.bind_eq_bind, Option.bind_some, Option.pure_def, Option.map_some, hsdk,
        Facilitator.bytesToBigIntBE, foldl_shiftLeft, bytesBE_eq, Facilitator.bigIntToBytesBE]

/-- **The four digests agree.**  Whatever the recipient, the amount and the outputs, they are the
same 32 bytes, big endian, of a number below the field's order. -/
theorem hashExtData_agreement (k : Keccak) {sdk : Sdk} (hsdk : sdk.Exact) (e : Pool.ExtData)
    {address : String} (haddress : sdk.addressFromString address = some e.recipient) :
    let ext : ExtDataLike := ⟨address, e.extAmount.val, e.encryptedOutput0, e.encryptedOutput1⟩
    let bytes := Pool.hashExtDataBytes k e
    let hex := String.ofList (toHex bytes)
    bytes.length = 32 ∧ beValue bytes < bn256Modulus ∧
      App.hashExtData k sdk ext = .ok ⟨beValue bytes, bytes⟩ ∧
      Facilitator.hashExtDataResult k sdk ext = some ⟨beValue bytes, bytes, hex⟩ ∧
      Agent.hashExtData k sdk ext =
        some ⟨⟨beValue bytes, bytes, hex⟩, (beValue bytes).repr⟩ := by
  intro ext bytes hex
  have hmap : hashedExtDataMap sdk ext = some e.toScVal := hashedExtDataMap_toScVal hsdk e haddress
  let reduced := beValue (k.keccak256 (k.toXdr e.toScVal)) % bn256Modulus
  have hreduced : reduced < bn256Modulus := Nat.mod_lt _ (by decide)
  have hword : reduced < 2 ^ 256 := hreduced.trans (bn256Modulus_lt.trans (by decide))
  have hvalue : beValue bytes = reduced := Facilitator.beValue_bigIntToBytesBE hword
  have hfacilitator : Facilitator.hashExtDataResult k sdk ext = some ⟨reduced, bytes, hex⟩ := by
    simp only [Facilitator.hashExtDataResult, hmap, Option.bind_eq_bind, Option.bind_some,
      Option.pure_def, Facilitator.bytesToBigIntBE, foldl_shiftLeft, bytesBE_eq]
    rfl
  rw [hvalue]
  refine ⟨Facilitator.length_bigIntToBytesBE _, hreduced, ?_, hfacilitator, ?_⟩
  · have hbytes := bigIntToBytesBE_of_lt hword
    simp only [App.hashExtData, hmap, orThrow, bind, Except.bind, App.bytesToBigIntBE,
      foldl_shiftLeft]
    rw [hbytes]
    rfl
  · rw [Agent.hashExtData, hfacilitator]
    rfl

/-! ### A sample -/

/-- XDR of a 32-bit number, and of bytes of any length. -/
def xdrU32 (n : ℕ) : List UInt8 := (leBytes 4 n).reverse

def xdrOpaque (bytes : List UInt8) : List UInt8 :=
  xdrU32 bytes.length ++ bytes ++ List.replicate ((4 - bytes.length % 4) % 4) 0

/-- XDR of the values that the entries hold. -/
def xdrLeaf : ScVal → List UInt8
  | .symbol s => xdrU32 15 ++ xdrOpaque (s.toList.map fun c => UInt8.ofNat c.toNat)
  | .bytes b => xdrU32 13 ++ xdrOpaque b
  | .i256 n => xdrU32 12 ++ Pool.toBeBytes n.toU256
  | .address (.account id) => xdrU32 18 ++ xdrU32 0 ++ xdrU32 0 ++ Pool.toBeBytes id
  | _ => []

/-- XDR of a map of such values. -/
def xdrMap (v : ScVal) : List UInt8 :=
  xdrU32 17 ++ xdrU32 1 ++ xdrU32 v.entries.length ++
    v.entries.flatMap fun e => xdrLeaf (.symbol e.1) ++ xdrLeaf e.2

/-- Keccak256 of the sample payment's encoding. -/
def sampleKeccak256 : Keccak where
  toXdr := xdrMap
  keccak256 _ := Facilitator.bigIntToBytesBE
    0x6ac937528ec7aad2644eab4e9ce64e0f22bc91981d154c674e7a64d18df517af
  length_keccak256 _ := Facilitator.length_bigIntToBytesBE _

/-- The digests of the sample payment. -/
theorem hashExtData_agreement_sample :
    let e : Pool.ExtData :=
      ⟨.account 1, ⟨-5, by decide⟩, List.replicate 112 0, List.replicate 112 0⟩
    let ext := Facilitator.sampleExtData (-5)
    let n := 0xa009a6ccc646a7ef3ae1fe199e39d54d254c10729a26b44c6b679a9adf517ad
    beValue (Pool.hashExtDataBytes sampleKeccak256 e) = n ∧
      App.hashExtData sampleKeccak256 Facilitator.sampleSdk ext =
        .ok ⟨n, Pool.hashExtDataBytes sampleKeccak256 e⟩ ∧
      (Agent.hashExtData sampleKeccak256 Facilitator.sampleSdk ext).map (·.decimal) =
        some n.repr := by
  intro e ext n
  have haddress : Facilitator.sampleSdk.addressFromString Facilitator.samplePayTo =
      some e.recipient := by decide
  obtain ⟨-, -, happ, -, hagent⟩ := hashExtData_agreement sampleKeccak256
    Facilitator.sampleSdk_exact e haddress
  have hvalue : beValue (Pool.hashExtDataBytes sampleKeccak256 e) = n := by
    decide +kernel
  rw [hvalue] at happ hagent
  exact ⟨hvalue, happ, congrArg (Option.map (·.decimal)) hagent⟩

end Enclave

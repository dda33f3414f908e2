import Enclave.Stellar

/-! # Requests of the facilitator

The wire formats of `core/src/types/facilitator.ts`, and what `/verify` and `/settle` compute of
them before they look at the nullifier cache: the binding check (`bindingCheck.ts`) and the digest
of the external data (`extDataHash.ts`).  Fields that the routes read with a default, or check for
presence, are optional here. -/

namespace Enclave.Facilitator

open Js Hex Stellar
open Pool (I256)

/-! ### Wire formats -/

/-- `ShieldedProofWireFormat`. -/
structure ShieldedProofWireFormat where
  a : String
  b : String
  c : String
  root : String
  inputNullifiers : Option (List String)
  outputCommitment0 : String
  outputCommitment1 : String
  publicAmount : String
  extDataHash : Option String
  aspMembershipRoot : String
  aspNonMembershipRoot : String
deriving DecidableEq

/-- `ExtDataWireFormat`. -/
structure ExtDataWireFormat where
  recipient : String
  ext_amount : String
  encrypted_output0 : String
  encrypted_output1 : String
deriving DecidableEq

/-- `PaymentRequirements`, the fields that are read. -/
structure PaymentRequirements where
  maxAmountRequired : String
  payTo : String
deriving DecidableEq

/-- `paymentPayload`. -/
structure PaymentPayload where
  scheme : Option String
  proof : Option ShieldedProofWireFormat
  extData : Option ExtDataWireFormat
deriving DecidableEq

/-- The body of a request to `/settle`. -/
structure Body where
  paymentPayload : Option PaymentPayload
  paymentRequirements : Option PaymentRequirements
deriving DecidableEq

/-- `ParsedSettleRequest`. -/
structure ParsedRequest where
  proof : ShieldedProofWireFormat
  extData : ExtDataWireFormat
  requirements : PaymentRequirements
deriving DecidableEq

/-- `ExtDataLike`. -/
structure ExtDataLike where
  recipient : String
  ext_amount : ℤ
  encrypted_output0 : List UInt8
  encrypted_output1 : List UInt8
deriving DecidableEq

/-- `parseSettle`. -/
def parseSettle (body : Option Body) : Except String ParsedRequest :=
  match body with
  | none => .error "body must be object"
  | some b =>
      match b.paymentPayload, b.paymentRequirements with
      | some payload, some requirements =>
          match payload.proof, payload.extData with
          | some proof, some extData => .ok ⟨proof, extData, requirements⟩
          | _, _ => .error "missing paymentPayload.proof or .extData"
      | _, _ => .error "missing paymentPayload or paymentRequirements"

/-- `getInputNullifiers`. -/
def getInputNullifiers (proof : ShieldedProofWireFormat) : List String :=
  proof.inputNullifiers.getD []

/-! ### External data -/

/-- `hexToBytes`. -/
def hexToBytes (h : String) : List UInt8 := fromHex (strip0x (codeUnits h))

/-- `wireToExtDataLike`; `none` if `BigInt` throws. -/
def wireToExtDataLike (ext : ExtDataWireFormat) : Option ExtDataLike :=
  (bigInt ext.ext_amount).map fun amount =>
    ⟨ext.recipient, amount, hexToBytes ext.encrypted_output0, hexToBytes ext.encrypted_output1⟩

/-- `ENCRYPTED_OUTPUT_LENGTH`. -/
def encryptedOutputLength : ℕ := 112

/-- `checkBinding`: `ok`, or the reason; `none` if `BigInt` throws. -/
def checkBinding (ext : ExtDataLike) (requirements : PaymentRequirements) :
    Option (Except String Unit) :=
  if ext.encrypted_output0.length ≠ encryptedOutputLength ∨
      ext.encrypted_output1.length ≠ encryptedOutputLength then
    some (.error "encrypted_output_length_invalid")
  else if ext.recipient ≠ requirements.payTo then some (.error "recipient_mismatch")
  else (bigInt requirements.maxAmountRequired).map fun expected =>
    let actualAbs := if ext.ext_amount < 0 then -ext.ext_amount else ext.ext_amount
    if actualAbs ≠ expected then .error "amount_mismatch" else .ok ()

/-! ### Solvency -/

/-- `BalanceSnapshot`, what the check reads. -/
structure BalanceSnapshot where
  facilitatorXlmStroops : ℤ
  poolUsdcBaseUnits : ℤ
deriving DecidableEq

/-- `BASE_UNIT_INTEGER_RE`. -/
def isBaseUnitInteger (s : String) : Bool := !s.toList.isEmpty && s.toList.all Char.isDigit

/-- `checkSolvency`: `ok`, or the reason; `none` if it throws. -/
def checkSolvency (snapshot : BalanceSnapshot) (requirements : PaymentRequirements)
    (minXlmStroops : ℤ) : Option (Except String Unit) :=
  if !isBaseUnitInteger requirements.maxAmountRequired then none
  else (bigInt requirements.maxAmountRequired).map fun requiredUsdc =>
    if snapshot.facilitatorXlmStroops < minXlmStroops then .error "insolvent_facilitator_xlm"
    else if snapshot.poolUsdcBaseUnits < requiredUsdc then .error "insolvent_pool_usdc"
    else .ok ()

/-! ### The digest -/

variable (sdk : Sdk)

/-- The map that `hashExtData` hashes; `none` if the SDK throws. -/
def hashedExtDataMap (ext : ExtDataLike) : Option ScVal := do
  let amount ← sdk.xdrLargeI256 ext.ext_amount
  let recipient ← sdk.addressFromString ext.recipient
  let entries := [("encrypted_output0", ScVal.bytes ext.encrypted_output0),
    ("encrypted_output1", .bytes ext.encrypted_output1), ("ext_amount", .i256 amount),
    ("recipient", .address recipient)]
  return .map (entries.insertionSort fun a b => a.1 ≤ b.1)

theorem insertionSort_extData (o₀ o₁ amount recipient : ScVal) :
    [("encrypted_output0", o₀), ("encrypted_output1", o₁), ("ext_amount", amount),
      ("recipient", recipient)].insertionSort (fun a b => a.1 ≤ b.1) =
    [("encrypted_output0", o₀), ("encrypted_output1", o₁), ("ext_amount", amount),
      ("recipient", recipient)] := by
  apply List.Pairwise.insertionSort_eq
  simp only [List.pairwise_cons, List.mem_cons, List.not_mem_nil, or_false, forall_eq_or_imp,
    forall_eq, false_implies, implies_true, List.Pairwise.nil, and_true]
  decide

theorem hashedExtDataMap_eq (ext : ExtDataLike) :
    hashedExtDataMap sdk ext = (sdk.xdrLargeI256 ext.ext_amount).bind fun amount =>
      (sdk.addressFromString ext.recipient).map fun recipient =>
        .map [("encrypted_output0", .bytes ext.encrypted_output0),
          ("encrypted_output1", .bytes ext.encrypted_output1), ("ext_amount", .i256 amount),
          ("recipient", .address recipient)] := by
  simp only [hashedExtDataMap, insertionSort_extData, Option.bind_eq_bind, Option.pure_def,
    Option.map_eq_bind, Function.comp_def]

/-- `bigIntToBytesBE(v, 32)`. -/
def bigIntToBytesBE (v : ℕ) : List UInt8 := (Prover.leBytes 32 v).reverse

/-- `hashExtData(ext).hex`. -/
def hashExtData (ext : ExtDataLike) : Option String := do
  let scMap ← hashedExtDataMap sdk ext
  return String.ofList (toHex (bigIntToBytesBE (sdk.keccakXdr scMap % bn256Modulus)))

/-- `getProofExtDataHash`. -/
def getProofExtDataHash (proof : ShieldedProofWireFormat) : String :=
  sdk.toLowerCase (proof.extDataHash.getD "")

/-- The checks of a parsed request before its nullifiers: the reason of the first that fails;
`none` if one throws. -/
def checkRequest (parsed : ParsedRequest) : Option (Except String Unit) := do
  let extDataLike ← wireToExtDataLike parsed.extData
  match ← checkBinding extDataLike parsed.requirements with
  | .error reason => return .error reason
  | .ok () =>
      let computedHash ← hashExtData sdk extDataLike
      if sdk.toLowerCase computedHash ≠ getProofExtDataHash sdk parsed.proof then
        return .error "ext_data_hash_mismatch"
      else return .ok ()

/-! ### What an honest client sends -/

/-- `extDataWire` of the agent. -/
def extDataWire (ext : ExtDataLike) : ExtDataWireFormat :=
  ⟨ext.recipient, bigIntToString ext.ext_amount, String.ofList (toHex ext.encrypted_output0),
    String.ofList (toHex ext.encrypted_output1)⟩

theorem hexToBytes_toHex (bytes : List UInt8) : hexToBytes (String.ofList (toHex bytes)) = bytes := by
  have hdigits : ∀ c ∈ toHex bytes, isHexDigit c = true := fun _ hc => isHexDigit_of_mem_toHex hc
  rw [hexToBytes, codeUnits_of_isHexDigit hdigits, strip0x_of_isHexDigit hdigits, fromHex_toHex]

/-- External data survives the wire. -/
theorem wireToExtDataLike_extDataWire (ext : ExtDataLike) :
    wireToExtDataLike (extDataWire ext) = some ext := by
  rw [wireToExtDataLike, extDataWire, bigInt_bigIntToString, hexToBytes_toHex, hexToBytes_toHex]
  rfl

/-- The external data is what the requirements ask for. -/
structure ExtDataLike.Meets (ext : ExtDataLike) (requirements : PaymentRequirements) : Prop where
  output0 : ext.encrypted_output0.length = encryptedOutputLength
  output1 : ext.encrypted_output1.length = encryptedOutputLength
  recipient : ext.recipient = requirements.payTo
  amount : bigInt requirements.maxAmountRequired = some |ext.ext_amount|

variable {sdk : Sdk}

theorem checkBinding_of_meets {ext : ExtDataLike} {requirements : PaymentRequirements}
    (h : ext.Meets requirements) : checkBinding ext requirements = some (.ok ()) := by
  have habs : (if ext.ext_amount < 0 then -ext.ext_amount else ext.ext_amount) =
      |ext.ext_amount| := by
    split
    · rename_i hneg
      rw [abs_of_neg hneg]
    · rename_i hnonneg
      rw [abs_of_nonneg (not_lt.mp hnonneg)]
  rw [checkBinding, if_neg (not_or.mpr ⟨not_not.mpr h.output0, not_not.mpr h.output1⟩),
    if_neg (not_not.mpr h.recipient), h.amount, Option.map_some]
  dsimp only
  rw [habs, if_neg (not_not.mpr rfl)]

/-- **An honest request passes the checks.** -/
theorem checkRequest_of_meets {ext : ExtDataLike} {requirements : PaymentRequirements}
    {proof : ShieldedProofWireFormat} {hex : String} (h : ext.Meets requirements)
    (hhash : hashExtData sdk ext = some hex) (hproof : proof.extDataHash = some hex) :
    checkRequest sdk ⟨proof, extDataWire ext, requirements⟩ = some (.ok ()) := by
  have hclaimed : getProofExtDataHash sdk proof = sdk.toLowerCase hex := by
    rw [getProofExtDataHash, hproof]
    rfl
  simp only [checkRequest, wireToExtDataLike_extDataWire, checkBinding_of_meets h, hhash,
    hclaimed, Option.bind_eq_bind, Option.bind_some, ne_eq, not_true_eq_false, if_false]
  rfl

/-! ### A sample

Two accounts, and the digests of a withdrawal and of a deposit of 5 for the second one. -/

/-- The account of the zero key, as a facilitator's. -/
def sampleFacilitator : String := "GAAAAAAAAAAAAAAAAAAAAAAAAAAAAAAAAAAAAAAAAAAAAAAAAAAAAWHF"

/-- Another account. -/
def samplePayTo : String := "GAAAAAAAAAAAAAAAAAAAAAAAAAAAAAAAAAAAAAAAAAAAAAAAAAAAC6PV"

/-- Keccak256 of the external data of the samples. -/
def sampleKeccak (v : ScVal) : ℕ :=
  match v.field "ext_amount" with
  | some (.i256 n) =>
      if n.val = -5 then
        0x6ac937528ec7aad2644eab4e9ce64e0f22bc91981d154c674e7a64d18df517af
      else
        0x4e3d2a0a7081f2fe0d79aa07fd47efea531fd87f7a54f8a06f74bf1ba2e592c8
  | _ => 0

/-- The SDK on the samples. -/
def sampleSdk : Sdk where
  toLowerCase s := String.ofList (s.toList.map Char.toLower)
  addressFromString s :=
    if s = sampleFacilitator then some (.account 0)
    else if s = samplePayTo then some (.account 1) else none
  nativeU256 x := if 0 ≤ x ∧ x < 2 ^ 256 then some x.toNat else none
  nativeI256 x := if h : -2 ^ 255 ≤ x ∧ x < 2 ^ 255 then some ⟨x, h⟩ else none
  xdrLargeI256 x := if h : -2 ^ 255 ≤ x ∧ x < 2 ^ 255 then some ⟨x, h⟩ else none
  keccakXdr := sampleKeccak

theorem sampleSdk_exact : sampleSdk.Exact where
  nativeU256 n hn := by
    have hrange : (0 : ℤ) ≤ n ∧ (n : ℤ) < 2 ^ 256 := ⟨Int.natCast_nonneg n, by exact_mod_cast hn⟩
    unfold sampleSdk
    dsimp only
    rw [if_pos hrange, Int.toNat_natCast]
  nativeI256 n := by
    unfold sampleSdk
    dsimp only
    rw [dif_pos n.range]
  xdrLargeI256 n := by
    unfold sampleSdk
    dsimp only
    rw [dif_pos n.range]

/-- A payment of 5, or a deposit. -/
def sampleExtData (amount : ℤ) : ExtDataLike :=
  ⟨samplePayTo, amount, List.replicate 112 0, List.replicate 112 0⟩

def sampleRequirements : PaymentRequirements := ⟨"5", samplePayTo⟩

theorem sampleExtData_meets : (sampleExtData (-5)).Meets sampleRequirements where
  output0 := List.length_replicate
  output1 := List.length_replicate
  recipient := rfl
  amount := by decide

/-- The digest of the sample payment, as the wire carries it. -/
def sampleHash : String := String.ofList (toHex (bigIntToBytesBE
  0xa009a6ccc646a7ef3ae1fe199e39d54d254c10729a26b44c6b679a9adf517ad))

theorem hashExtData_sample : hashExtData sampleSdk (sampleExtData (-5)) = some sampleHash := by
  have hmap : hashedExtDataMap sampleSdk (sampleExtData (-5)) = some (.map
      [("encrypted_output0", .bytes (List.replicate 112 0)),
        ("encrypted_output1", .bytes (List.replicate 112 0)), ("ext_amount", .i256 ⟨-5, by decide⟩),
        ("recipient", .address (.account 1))]) := by
    rw [hashedExtDataMap_eq]
    have hamount : sampleSdk.xdrLargeI256 (-5) = some ⟨-5, by decide⟩ :=
      sampleSdk_exact.xdrLargeI256 ⟨-5, by decide⟩
    have hrecipient : sampleSdk.addressFromString samplePayTo = some (.account 1) := by decide
    rw [sampleExtData, hamount, hrecipient]
    rfl
  rw [hashExtData, hmap]
  rfl

end Enclave.Facilitator

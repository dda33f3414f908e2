import Enclave.Facilitator.Requests

/-! # The arguments of `pool.transact`

`facilitator/src/chain/poolTransaction.ts` and `errorMapping.ts`.  The maps of
`buildPoolTransactArgs` list the fields of a struct in the order of its declaration. -/

namespace Enclave.Facilitator

open Js Hex Stellar

/-! ### Bytes -/

/-- `replace(/^0x/i, "")`. -/
def strip0xAnyCase (cs : List Char) : List Char :=
  if cs.take 2 = ['0', 'x'] ∨ cs.take 2 = ['0', 'X'] then cs.drop 2 else cs

/-- `hexToBuffer` of code units. -/
def hexToBuffer (hex : List Char) (field : String) : Except String (List UInt8) :=
  let clean := strip0xAnyCase hex
  if clean.length % 2 ≠ 0 then
    .error s!"{field} must be even-length hex (got length: {clean.length})"
  else if !clean.all isHexDigit then .error s!"{field} must contain only hex characters"
  else .ok (fromHex clean)

/-- `hexToBuffer32`. -/
def hexToBuffer32 (hex : List Char) (field : String) : Except String (List UInt8) :=
  let clean := strip0xAnyCase hex
  if clean.length ≠ 64 then
    .error s!"{field} must be 64-char hex (32 bytes), got {clean.length} chars"
  else hexToBuffer clean field

/-! ### Arguments -/

/-- A value, or the error that the platform or the SDK throws. -/
def orThrow {α : Type} (error : String) : Option α → Except String α
  | some a => .ok a
  | none => .error error

variable (sdk : Sdk)

/-- `nativeToScVal(BigInt(s), { type: "u256" })`. -/
def u256Arg (s : String) : Except String ScVal := do
  let n ← orThrow s!"Cannot convert {s} to a BigInt" (bigInt s)
  return .u256 (← orThrow "nativeToScVal" (sdk.nativeU256 n))

/-- `nativeToScVal(BigInt(s), { type: "i256" })`. -/
def i256Arg (s : String) : Except String ScVal := do
  let n ← orThrow s!"Cannot convert {s} to a BigInt" (bigInt s)
  return .i256 (← orThrow "nativeToScVal" (sdk.nativeI256 n))

/-- `Address.fromString(s).toScVal()`. -/
def addressArg (s : String) : Except String ScVal := do
  return .address (← orThrow s!"Unsupported address type: {s}" (sdk.addressFromString s))

/-- A field that is hexadecimal text. -/
def hexArg (hex field : String) : Except String ScVal := do
  return .bytes (← hexToBuffer (codeUnits hex) field)

/-- `innerProofMap`. -/
def innerProofMap (proof : ShieldedProofWireFormat) : Except String ScVal := do
  return .map [("a", ← hexArg proof.a "proof.a"), ("b", ← hexArg proof.b "proof.b"),
    ("c", ← hexArg proof.c "proof.c")]

/-- `proofMap`. -/
def proofMap (proof : ShieldedProofWireFormat) : Except String ScVal := do
  let inner ← innerProofMap proof
  let root ← u256Arg sdk proof.root
  let inputNullifiers ← (← orThrow "inputNullifiers is undefined"
    proof.inputNullifiers).mapM (u256Arg sdk)
  let outputCommitment0 ← u256Arg sdk proof.outputCommitment0
  let outputCommitment1 ← u256Arg sdk proof.outputCommitment1
  let publicAmount ← u256Arg sdk proof.publicAmount
  let extDataHash ← hexToBuffer32 (codeUnits (← orThrow "extDataHash is undefined"
    proof.extDataHash)) "proof.extDataHash"
  let aspMembershipRoot ← u256Arg sdk proof.aspMembershipRoot
  let aspNonMembershipRoot ← u256Arg sdk proof.aspNonMembershipRoot
  return .map [("proof", inner), ("root", root), ("input_nullifiers", .vec inputNullifiers),
    ("output_commitment0", outputCommitment0), ("output_commitment1", outputCommitment1),
    ("public_amount", publicAmount), ("ext_data_hash", .bytes extDataHash),
    ("asp_membership_root", aspMembershipRoot),
    ("asp_non_membership_root", aspNonMembershipRoot)]

/-- `extDataMap`. -/
def extDataMap (extData : ExtDataWireFormat) : Except String ScVal := do
  let recipient ← addressArg sdk extData.recipient
  let amount ← i256Arg sdk extData.ext_amount
  let output0 ← hexArg extData.encrypted_output0 "extData.encrypted_output0"
  let output1 ← hexArg extData.encrypted_output1 "extData.encrypted_output1"
  return .map [("recipient", recipient), ("ext_amount", amount), ("encrypted_output0", output0),
    ("encrypted_output1", output1)]

/-- The arguments of a `pool.transact` call. -/
structure TransactArgs where
  proof : ScVal
  extData : ScVal
  sender : ScVal

/-- `buildPoolTransactArgs`. -/
def buildPoolTransactArgs (proof : ShieldedProofWireFormat) (extData : ExtDataWireFormat)
    (facilitatorAddress : String) : Except String TransactArgs := do
  let parsedAddress ← orThrow s!"invalid Stellar address: {facilitatorAddress}"
    (sdk.addressFromString facilitatorAddress)
  let proofMap ← proofMap sdk proof
  let extDataMap ← extDataMap sdk extData
  return ⟨proofMap, extDataMap, .address parsedAddress⟩

/-! ### Reading a map by the names of its fields -/

/-- The number that bytes encode, big endian. -/
def beValue (bytes : List UInt8) : ℕ := Prover.leValue bytes.reverse

/-- A field of type `Bytes`. -/
def bytesField (v : ScVal) (name : String) : Option (List UInt8) :=
  match v.field name with
  | some (.bytes b) => some b
  | _ => none

/-- A field of type `U256`. -/
def u256Field (v : ScVal) (name : String) : Option U256 :=
  match v.field name with
  | some (.u256 n) => some n
  | _ => none

/-- A field of type `Vec<U256>`. -/
def u256sField (v : ScVal) (name : String) : Option (List U256) :=
  match v.field name with
  | some (.vec items) => items.mapM fun item =>
      match item with
      | .u256 n => some n
      | _ => none
  | _ => none

/-- A field of type `BytesN<32>`. -/
def bytes32Field (v : ScVal) (name : String) : Option U256 :=
  (bytesField v name).bind fun b => if b.length = 32 then some (beValue b) else none

/-- `Groth16Proof`. -/
def groth16OfScVal (v : ScVal) : Option Pool.Groth16Proof := do
  return ⟨← bytesField v "a", ← bytesField v "b", ← bytesField v "c"⟩

/-- `Proof`. -/
def proofOfScVal (v : ScVal) : Option Pool.Proof := do
  return {
    proof := ← (v.field "proof").bind groth16OfScVal
    root := ← u256Field v "root"
    inputNullifiers := ← u256sField v "input_nullifiers"
    outputCommitment0 := ← u256Field v "output_commitment0"
    outputCommitment1 := ← u256Field v "output_commitment1"
    publicAmount := ← u256Field v "public_amount"
    extDataHash := ← bytes32Field v "ext_data_hash"
    aspMembershipRoot := ← u256Field v "asp_membership_root"
    aspNonMembershipRoot := ← u256Field v "asp_non_membership_root" }

/-! ### Errors -/

/-- `CONTRACT_ERROR_MAP`. -/
def contractErrorMap : List (String × String) :=
  [("Error(Contract, #1)", "pool_rejected_unknown"),
    ("Error(Contract, #2)", "pool_rejected_ext_data_hash_mismatch"),
    ("Error(Contract, #3)", "pool_rejected_invalid_proof"),
    ("Error(Contract, #4)", "pool_rejected_nullifier_replay"),
    ("Error(Contract, #5)", "pool_rejected_nullifier_replay"),
    ("Error(Contract, #6)", "pool_rejected_unknown"),
    ("Error(Contract, #7)", "pool_rejected_invalid_proof"),
    ("Error(Contract, #8)", "pool_rejected_unknown"),
    ("Error(Contract, #9)", "pool_rejected_nullifier_replay"),
    ("Error(Contract, #10)", "pool_rejected_insufficient_funds"),
    ("Error(Contract, #11)", "pool_rejected_unknown")]

/-- `message.includes(needle)`. -/
def includes (message needle : String) : Bool :=
  decide (needle.toList <:+: message.toList)

/-- `mapSubmitError`. -/
def mapSubmitError (message : String) : String :=
  match contractErrorMap.find? fun e => includes message e.1 with
  | some e => e.2
  | none =>
      if includes message "TRY_AGAIN_LATER" then "rpc_congestion"
      else if includes message "InsufficientBalance" then "rpc_insufficient_fee"
      else if includes message "timed out" then "submit_timeout"
      else "pool_rejected_unknown"

/-! ### What an honest client's texts become -/

variable {sdk : Sdk}

theorem strip0xAnyCase_of_isHexDigit {cs : List Char} (h : ∀ c ∈ cs, isHexDigit c = true) :
    strip0xAnyCase cs = cs :=
  if_neg (not_or.mpr ⟨take_two_ne h (by decide), take_two_ne h (by decide)⟩)

theorem hexToBuffer_toHex (bytes : List UInt8) (field : String) :
    hexToBuffer (toHex bytes) field = .ok bytes := by
  have hdigits : ∀ c ∈ toHex bytes, isHexDigit c = true := fun _ hc => isHexDigit_of_mem_toHex hc
  have heven : ¬ (toHex bytes).length % 2 ≠ 0 := by
    rw [length_toHex]
    omega
  rw [hexToBuffer, strip0xAnyCase_of_isHexDigit hdigits]
  rw [if_neg heven, List.all_eq_true.mpr hdigits, fromHex_toHex]
  rfl

theorem hexToBuffer32_toHex {bytes : List UInt8} (h : bytes.length = 32) (field : String) :
    hexToBuffer32 (toHex bytes) field = .ok bytes := by
  have hdigits : ∀ c ∈ toHex bytes, isHexDigit c = true := fun _ hc => isHexDigit_of_mem_toHex hc
  have hlen : ¬ (toHex bytes).length ≠ 64 := by
    rw [length_toHex, h]
    decide
  rw [hexToBuffer32, strip0xAnyCase_of_isHexDigit hdigits]
  rw [if_neg hlen, hexToBuffer_toHex]

theorem codeUnits_toHex (bytes : List UInt8) :
    Js.codeUnits (String.ofList (toHex bytes)) = toHex bytes :=
  codeUnits_of_isHexDigit fun _ hc => isHexDigit_of_mem_toHex hc

theorem hexArg_toHex (bytes : List UInt8) (field : String) :
    hexArg (String.ofList (toHex bytes)) field = .ok (.bytes bytes) := by
  rw [hexArg, codeUnits_toHex, hexToBuffer_toHex]
  rfl

theorem u256Arg_repr (hsdk : sdk.Exact) {n : ℕ} (h : n < 2 ^ 256) :
    u256Arg sdk n.repr = .ok (.u256 n) := by
  rw [u256Arg, bigInt_repr]
  change (do return ScVal.u256 (← orThrow "nativeToScVal" (sdk.nativeU256 n)) :
    Except String ScVal) = _
  rw [hsdk.nativeU256 n h]
  rfl

theorem i256Arg_bigIntToString (hsdk : sdk.Exact) (n : Pool.I256) :
    i256Arg sdk (bigIntToString n.val) = .ok (.i256 n) := by
  rw [i256Arg, bigInt_bigIntToString]
  change (do return ScVal.i256 (← orThrow "nativeToScVal" (sdk.nativeI256 n.val)) :
    Except String ScVal) = _
  rw [hsdk.nativeI256 n]
  rfl

theorem extDataMap_extDataWire (hsdk : sdk.Exact) {ext : ExtDataLike} {amount : Pool.I256}
    {recipient : Address} (hamount : ext.ext_amount = amount.val)
    (hrecipient : sdk.addressFromString ext.recipient = some recipient) :
    extDataMap sdk (extDataWire ext) = .ok (.map [("recipient", .address recipient),
      ("ext_amount", .i256 amount), ("encrypted_output0", .bytes ext.encrypted_output0),
      ("encrypted_output1", .bytes ext.encrypted_output1)]) := by
  have haddress : addressArg sdk ext.recipient = .ok (.address recipient) := by
    rw [addressArg, hrecipient]
    rfl
  simp only [extDataMap, extDataWire, haddress, hamount, i256Arg_bigIntToString hsdk,
    hexArg_toHex]
  rfl

/-- The words of a proof fit 256 bits. -/
structure InRange (p : Pool.Proof) : Prop where
  root : p.root < 2 ^ 256
  inputNullifiers : ∀ n ∈ p.inputNullifiers, n < 2 ^ 256
  outputCommitment0 : p.outputCommitment0 < 2 ^ 256
  outputCommitment1 : p.outputCommitment1 < 2 ^ 256
  publicAmount : p.publicAmount < 2 ^ 256
  extDataHash : p.extDataHash < 2 ^ 256
  aspMembershipRoot : p.aspMembershipRoot < 2 ^ 256
  aspNonMembershipRoot : p.aspNonMembershipRoot < 2 ^ 256

/-- A proof by the wire: words in decimal, bytes and the digest in hexadecimal. -/
def proofWire (p : Pool.Proof) : ShieldedProofWireFormat where
  a := String.ofList (toHex p.proof.a)
  b := String.ofList (toHex p.proof.b)
  c := String.ofList (toHex p.proof.c)
  root := p.root.repr
  inputNullifiers := some (p.inputNullifiers.map Nat.repr)
  outputCommitment0 := p.outputCommitment0.repr
  outputCommitment1 := p.outputCommitment1.repr
  publicAmount := p.publicAmount.repr
  extDataHash := some (String.ofList (toHex (bigIntToBytesBE p.extDataHash)))
  aspMembershipRoot := p.aspMembershipRoot.repr
  aspNonMembershipRoot := p.aspNonMembershipRoot.repr

/-- The map of a proof, in the order of `buildPoolTransactArgs`. -/
def proofScVal (p : Pool.Proof) : ScVal :=
  .map [("proof", .map [("a", .bytes p.proof.a), ("b", .bytes p.proof.b), ("c", .bytes p.proof.c)]),
    ("root", .u256 p.root), ("input_nullifiers", .vec (p.inputNullifiers.map .u256)),
    ("output_commitment0", .u256 p.outputCommitment0),
    ("output_commitment1", .u256 p.outputCommitment1), ("public_amount", .u256 p.publicAmount),
    ("ext_data_hash", .bytes (bigIntToBytesBE p.extDataHash)),
    ("asp_membership_root", .u256 p.aspMembershipRoot),
    ("asp_non_membership_root", .u256 p.aspNonMembershipRoot)]

theorem mapM_u256Arg (hsdk : sdk.Exact) : ∀ {ns : List ℕ}, (∀ n ∈ ns, n < 2 ^ 256) →
    (ns.map Nat.repr).mapM (u256Arg sdk) = .ok (ns.map .u256)
  | [], _ => rfl
  | n :: rest, h => by
      rw [List.map_cons, List.mapM_cons, u256Arg_repr hsdk (h n List.mem_cons_self),
        mapM_u256Arg hsdk fun m hm => h m (List.mem_cons_of_mem _ hm)]
      rfl

theorem beValue_bigIntToBytesBE {n : ℕ} (h : n < 2 ^ 256) : beValue (bigIntToBytesBE n) = n := by
  rw [beValue, bigIntToBytesBE, List.reverse_reverse]
  exact Prover.leValue_leBytes h

theorem length_bigIntToBytesBE (n : ℕ) : (bigIntToBytesBE n).length = 32 := by
  rw [bigIntToBytesBE, List.length_reverse, Prover.length_leBytes]

theorem proofMap_proofWire (hsdk : sdk.Exact) {p : Pool.Proof} (h : InRange p) :
    proofMap sdk (proofWire p) = .ok (proofScVal p) := by
  have hlen := length_bigIntToBytesBE p.extDataHash
  simp only [proofMap, innerProofMap, proofWire, hexArg_toHex, u256Arg_repr hsdk h.root,
    u256Arg_repr hsdk h.outputCommitment0, u256Arg_repr hsdk h.outputCommitment1,
    u256Arg_repr hsdk h.publicAmount, u256Arg_repr hsdk h.aspMembershipRoot,
    u256Arg_repr hsdk h.aspNonMembershipRoot, orThrow, bind, Except.bind,
    mapM_u256Arg hsdk h.inputNullifiers, codeUnits_toHex, hexToBuffer32_toHex hlen]
  rfl

/-- Read by its fields' names, the map is the proof. -/
theorem proofOfScVal_proofScVal {p : Pool.Proof} (h : InRange p) :
    proofOfScVal (proofScVal p) = some p := by
  have hnulls : ∀ ns : List U256, (ns.map ScVal.u256).mapM (m := Option) (fun item =>
      match item with
      | .u256 n => some n
      | _ => none) = some ns := by
    intro ns
    induction ns with
    | nil => rfl
    | cons n rest ih =>
        rw [List.map_cons, List.mapM_cons, ih]
        rfl
  have hvec : u256sField (proofScVal p) "input_nullifiers" = some p.inputNullifiers :=
    hnulls p.inputNullifiers
  have hhash : bytes32Field (proofScVal p) "ext_data_hash" = some p.extDataHash := by
    have hbytes : bytesField (proofScVal p) "ext_data_hash" =
        some (bigIntToBytesBE p.extDataHash) := rfl
    rw [bytes32Field, hbytes, Option.bind_some, if_pos (length_bigIntToBytesBE _),
      beValue_bigIntToBytesBE h.extDataHash]
  rw [proofOfScVal, hvec, hhash]
  rfl

/-- **The arguments of an honest request.** -/
theorem buildPoolTransactArgs_wire (hsdk : sdk.Exact) {p : Pool.Proof} (h : InRange p)
    {ext : ExtDataLike} {amount : Pool.I256} {recipient facilitator : Address}
    {facilitatorAddress : String} (hamount : ext.ext_amount = amount.val)
    (hrecipient : sdk.addressFromString ext.recipient = some recipient)
    (hfacilitator : sdk.addressFromString facilitatorAddress = some facilitator) :
    buildPoolTransactArgs sdk (proofWire p) (extDataWire ext) facilitatorAddress =
      .ok ⟨proofScVal p, .map [("recipient", .address recipient), ("ext_amount", .i256 amount),
        ("encrypted_output0", .bytes ext.encrypted_output0),
        ("encrypted_output1", .bytes ext.encrypted_output1)], .address facilitator⟩ := by
  simp only [buildPoolTransactArgs, hfacilitator, orThrow, bind, Except.bind,
    proofMap_proofWire hsdk h, extDataMap_extDataWire hsdk hamount hrecipient]
  rfl

end Enclave.Facilitator

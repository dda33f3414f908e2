import Enclave.Facilitator.Settlement

/-! # Two readings of one request

`/settle` decodes the encrypted outputs twice: `hexToBytes` for its checks and the digest,
`hexToBuffer` for the transaction.  Only the second knows the prefix `0X`; the first reads it as a
zero byte (`outputs_agree_iff`).

A proof has two readings as well: the signals that `offChainVerify` checks in mock mode, and the
public inputs that the pool rebuilds on chain.  The first lists every root once
(`mock_statement_differs`). -/

namespace Enclave.Facilitator

open Js Hex Stellar

variable {sdk : Sdk} {parsed : ParsedRequest} {like : ExtDataLike} {args : TransactArgs}
  {facilitatorAddress : String}

/-! ### Bytes -/

/-- The text begins with `0X`. -/
def UpperPrefixed (h : String) : Prop := (codeUnits h).take 2 = ['0', 'X']

instance (h : String) : Decidable (UpperPrefixed h) := inferInstanceAs (Decidable (_ = _))

theorem hexToBuffer_ok {cs : List Char} {field : String} {bytes : List UInt8}
    (h : hexToBuffer cs field = .ok bytes) : bytes = fromHex (strip0xAnyCase cs) := by
  unfold hexToBuffer at h
  dsimp only at h
  split_ifs at h
  exact (Except.ok.inj h).symm

theorem fromHex_of_upperPrefixed {cs : List Char} (h : cs.take 2 = ['0', 'X']) :
    fromHex cs = byteOfPair ('0', 'X') :: fromHex (cs.drop 2) := by
  have hcs : cs = ['0', 'X'] ++ cs.drop 2 := by
    rw [← h, List.take_append_drop]
  rw [hcs]
  rfl

/-- **The two decoders agree** on a text without the prefix `0X`, and on no other. -/
theorem decoders_agree_iff {cs : List Char} {field : String} {bytes : List UInt8}
    (h : hexToBuffer cs field = .ok bytes) :
    fromHex (strip0x cs) = bytes ↔ cs.take 2 ≠ ['0', 'X'] := by
  rw [hexToBuffer_ok h]
  unfold strip0x strip0xAnyCase
  by_cases hlower : cs.take 2 = ['0', 'x']
  · have hne : cs.take 2 ≠ ['0', 'X'] := by
      rw [hlower]
      decide
    rw [if_pos hlower, if_pos (.inl hlower)]
    exact iff_of_true rfl hne
  · rw [if_neg hlower]
    by_cases hupper : cs.take 2 = ['0', 'X']
    · rw [if_pos (.inr hupper), fromHex_of_upperPrefixed hupper]
      refine iff_of_false (fun heq => ?_) (not_not.mpr hupper)
      have hlen := congrArg List.length heq
      rw [List.length_cons] at hlen
      omega
    · rw [if_neg (not_or.mpr ⟨hlower, hupper⟩)]
      exact iff_of_true rfl hupper

/-- The chain gets the outputs that were checked, of 112 bytes each. -/
structure OutputsAgree (like : ExtDataLike) (args : TransactArgs) : Prop where
  output0 : bytesField args.extData "encrypted_output0" = some like.encrypted_output0
  output1 : bytesField args.extData "encrypted_output1" = some like.encrypted_output1
  length0 : like.encrypted_output0.length = 112
  length1 : like.encrypted_output1.length = 112

theorem length_of_checkRequest (hcheck : checkRequest sdk parsed = some (.ok ()))
    (hlike : wireToExtDataLike parsed.extData = some like) :
    like.encrypted_output0.length = 112 ∧ like.encrypted_output1.length = 112 := by
  unfold checkRequest at hcheck
  obtain ⟨ext, hext, hcheck⟩ := Option.bind_eq_some_iff.mp hcheck
  cases Option.some.inj (hlike.symm.trans hext)
  obtain ⟨verdict, hbinding, hcheck⟩ := Option.bind_eq_some_iff.mp hcheck
  cases verdict with
  | error reason => cases hcheck
  | ok u =>
      unfold checkBinding at hbinding
      split at hbinding
      · cases hbinding
      · rename_i hlengths
        obtain ⟨h₀, h₁⟩ := not_or.mp hlengths
        exact ⟨not_not.mp h₀, not_not.mp h₁⟩

theorem outputs_of_buildPoolTransactArgs
    (hargs : buildPoolTransactArgs sdk parsed.proof parsed.extData facilitatorAddress = .ok args) :
    ∃ o₀ o₁, bytesField args.extData "encrypted_output0" = some o₀ ∧
      bytesField args.extData "encrypted_output1" = some o₁ ∧
      hexToBuffer (codeUnits parsed.extData.encrypted_output0) "extData.encrypted_output0" =
        .ok o₀ ∧
      hexToBuffer (codeUnits parsed.extData.encrypted_output1) "extData.encrypted_output1" =
        .ok o₁ := by
  obtain ⟨-, hext⟩ := buildPoolTransactArgs_ok hargs
  unfold extDataMap addressArg i256Arg hexArg at hext
  simp only [bind_eq_ok] at hext
  obtain ⟨_, ⟨recipient, -, hr⟩, _, ⟨_, -, amount, -, ha⟩, _, ⟨o₀, h₀, hb₀⟩, _, ⟨o₁, h₁, hb₁⟩,
    hext⟩ := hext
  cases hr
  cases ha
  cases hb₀
  cases hb₁
  obtain ⟨proof, extData, sender⟩ := args
  cases hext
  exact ⟨o₀, o₁, rfl, rfl, h₀, h₁⟩

/-- **The transaction carries the outputs that were checked if and only if** neither text begins
with `0X`. -/
theorem outputs_agree_iff (hcheck : checkRequest sdk parsed = some (.ok ()))
    (hlike : wireToExtDataLike parsed.extData = some like)
    (hargs : buildPoolTransactArgs sdk parsed.proof parsed.extData facilitatorAddress = .ok args) :
    OutputsAgree like args ↔ ¬ UpperPrefixed parsed.extData.encrypted_output0 ∧
      ¬ UpperPrefixed parsed.extData.encrypted_output1 := by
  obtain ⟨hlength0, hlength1⟩ := length_of_checkRequest hcheck hlike
  obtain ⟨o₀, o₁, hfield0, hfield1, hbuffer0, hbuffer1⟩ := outputs_of_buildPoolTransactArgs hargs
  obtain ⟨amount, -, rfl⟩ := Option.map_eq_some_iff.mp hlike
  have hagree0 := decoders_agree_iff hbuffer0
  have hagree1 := decoders_agree_iff hbuffer1
  constructor
  · intro h
    have h₀ := h.output0
    have h₁ := h.output1
    rw [hfield0] at h₀
    rw [hfield1] at h₁
    exact ⟨hagree0.mp (Option.some.inj h₀).symm, hagree1.mp (Option.some.inj h₁).symm⟩
  · rintro ⟨hne0, hne1⟩
    refine ⟨?_, ?_, hlength0, hlength1⟩
    · rw [hfield0]
      exact congrArg some (hagree0.mpr hne0).symm
    · rw [hfield1]
      exact congrArg some (hagree1.mpr hne1).symm

theorem not_upperPrefixed_toHex (bytes : List UInt8) :
    ¬ UpperPrefixed (String.ofList (toHex bytes)) := by
  rw [UpperPrefixed, codeUnits_toHex]
  exact take_two_ne (fun _ hc => isHexDigit_of_mem_toHex hc) (by decide)

theorem outputs_agree_iff_payment : OutputsAgree (sampleExtData (-5)) (paymentArgs (-5)) :=
  (outputs_agree_iff (checkRequest_payment (by decide))
    (wireToExtDataLike_extDataWire (sampleExtData (-5)))
    (buildPoolTransactArgs_payment (by decide))).mpr
    ⟨not_upperPrefixed_toHex _, not_upperPrefixed_toHex _⟩

/-! ### An output behind `0X` -/

/-- Bytes behind the prefix `0X`. -/
def upperPrefixed (bytes : List UInt8) : String := String.ofList ('0' :: 'X' :: toHex bytes)

theorem codeUnits_upperPrefixed (bytes : List UInt8) :
    codeUnits (upperPrefixed bytes) = '0' :: 'X' :: toHex bytes := by
  have hdigits := codeUnits_toHex bytes
  unfold upperPrefixed
  rw [codeUnits, String.toList_ofList] at hdigits ⊢
  rw [List.flatMap_cons, List.flatMap_cons, hdigits]
  rfl

/-- `hexToBytes` reads the prefix as a byte. -/
theorem hexToBytes_upperPrefixed (bytes : List UInt8) :
    hexToBytes (upperPrefixed bytes) = 0 :: bytes := by
  have hmark : byteOfPair ('0', 'X') = 0 := by decide
  have hpairs := @fromHex_of_upperPrefixed ('0' :: 'X' :: toHex bytes) rfl
  rw [hmark, List.drop_succ_cons, List.drop_succ_cons, List.drop_zero, fromHex_toHex] at hpairs
  rw [hexToBytes, codeUnits_upperPrefixed]
  exact hpairs

/-- `hexToBuffer` drops the prefix. -/
theorem hexArg_upperPrefixed (bytes : List UInt8) (field : String) :
    hexArg (upperPrefixed bytes) field = .ok (.bytes bytes) := by
  have hclean : strip0xAnyCase ('0' :: 'X' :: toHex bytes) = strip0xAnyCase (toHex bytes) := by
    rw [strip0xAnyCase_of_isHexDigit fun _ hc => isHexDigit_of_mem_toHex hc]
    rfl
  have hbuffer : hexToBuffer ('0' :: 'X' :: toHex bytes) field = hexToBuffer (toHex bytes) field := by
    unfold hexToBuffer
    rw [hclean]
  rw [hexArg, codeUnits_upperPrefixed, hbuffer, hexToBuffer_toHex]
  rfl

/-- A payment with an output of 111 bytes behind the prefix. -/
def prefixedRequest : ParsedRequest where
  proof := proofWire (paymentProof (-5))
  extData := { extDataWire (sampleExtData (-5)) with
    encrypted_output0 := upperPrefixed (List.replicate 111 0) }
  requirements := sampleRequirements

theorem wireToExtDataLike_prefixed :
    wireToExtDataLike prefixedRequest.extData = some (sampleExtData (-5)) := by
  unfold wireToExtDataLike prefixedRequest extDataWire
  dsimp only
  rw [bigInt_bigIntToString, hexToBytes_upperPrefixed, hexToBytes_toHex]
  rfl

theorem checkRequest_congr {parsed' : ParsedRequest} (hproof : parsed.proof = parsed'.proof)
    (hext : wireToExtDataLike parsed.extData = wireToExtDataLike parsed'.extData)
    (hrequirements : parsed.requirements = parsed'.requirements) :
    checkRequest sdk parsed = checkRequest sdk parsed' := by
  unfold checkRequest
  rw [hproof, hext, hrequirements]

theorem checkRequest_prefixed : checkRequest sampleSdk prefixedRequest = some (.ok ()) := by
  have hpayment : wireToExtDataLike (paymentRequest (-5)).extData = some (sampleExtData (-5)) :=
    wireToExtDataLike_extDataWire (sampleExtData (-5))
  have hsame := wireToExtDataLike_prefixed.trans hpayment.symm
  have hcheck := @checkRequest_congr sampleSdk prefixedRequest (paymentRequest (-5)) rfl hsame rfl
  exact hcheck.trans (checkRequest_payment (by decide))

/-- What is submitted. -/
def prefixedArgs : TransactArgs :=
  ⟨proofScVal (paymentProof (-5)), .map [("recipient", .address (.account 1)),
    ("ext_amount", .i256 (paymentAmount (-5))),
    ("encrypted_output0", .bytes (List.replicate 111 0)),
    ("encrypted_output1", .bytes (List.replicate 112 0))], .address (.account 0)⟩

theorem extDataMap_prefixed : extDataMap sampleSdk prefixedRequest.extData =
    .ok (.map [("recipient", .address (.account 1)), ("ext_amount", .i256 (paymentAmount (-5))),
      ("encrypted_output0", .bytes (List.replicate 111 0)),
      ("encrypted_output1", .bytes (List.replicate 112 0))]) := by
  have haddress : sampleSdk.addressFromString samplePayTo = some (.account 1) := by decide
  have hpayTo : addressArg sampleSdk samplePayTo = .ok (.address (.account 1)) := by
    rw [addressArg, haddress]
    rfl
  have hamount : i256Arg sampleSdk (bigIntToString (sampleExtData (-5)).ext_amount) =
      .ok (.i256 (paymentAmount (-5))) := by
    rw [paymentAmount_val (by decide)]
    exact i256Arg_bigIntToString sampleSdk_exact _
  have houtput := hexArg_upperPrefixed (List.replicate 111 0) "extData.encrypted_output0"
  have hrecipient : (sampleExtData (-5)).recipient = samplePayTo := rfl
  have houtput1 : (sampleExtData (-5)).encrypted_output1 = List.replicate 112 0 := rfl
  simp only [extDataMap, prefixedRequest, extDataWire, hrecipient, hpayTo, hamount, houtput,
    houtput1, hexArg_toHex]
  rfl

theorem buildPoolTransactArgs_of_maps {proof : ShieldedProofWireFormat}
    {extData : ExtDataWireFormat} {facilitator : Address} {v w : ScVal}
    (hfacilitator : sdk.addressFromString facilitatorAddress = some facilitator)
    (hproof : proofMap sdk proof = .ok v) (hext : extDataMap sdk extData = .ok w) :
    buildPoolTransactArgs sdk proof extData facilitatorAddress =
      .ok ⟨v, w, .address facilitator⟩ := by
  simp only [buildPoolTransactArgs, hfacilitator, orThrow, bind, Except.bind, hproof, hext]
  rfl

theorem buildPoolTransactArgs_prefixed :
    buildPoolTransactArgs sampleSdk prefixedRequest.proof prefixedRequest.extData
      sampleFacilitator = .ok prefixedArgs := by
  have hproof : proofMap sampleSdk prefixedRequest.proof = .ok (proofScVal (paymentProof (-5))) :=
    proofMap_proofWire sampleSdk_exact (inRange_payment (by decide))
  exact buildPoolTransactArgs_of_maps (by decide) hproof extDataMap_prefixed

/-- The transaction gets a byte less than was checked. -/
theorem prefixed_outputs_differ :
    checkRequest sampleSdk prefixedRequest = some (.ok ()) ∧
    wireToExtDataLike prefixedRequest.extData = some (sampleExtData (-5)) ∧
    buildPoolTransactArgs sampleSdk prefixedRequest.proof prefixedRequest.extData
      sampleFacilitator = .ok prefixedArgs ∧
    bytesField prefixedArgs.extData "encrypted_output0" = some (List.replicate 111 0) ∧
    ¬ OutputsAgree (sampleExtData (-5)) prefixedArgs := by
  have houtput : bytesField prefixedArgs.extData "encrypted_output0" =
      some (List.replicate 111 0) := rfl
  refine ⟨checkRequest_prefixed, wireToExtDataLike_prefixed, buildPoolTransactArgs_prefixed,
    houtput, fun hagree => ?_⟩
  have hlen := congrArg List.length (Option.some.inj (houtput.symm.trans hagree.output0))
  rw [List.length_replicate, hagree.length0] at hlen
  omega

/-! ### The statement that is verified -/

/-- The signals of mock mode are the public inputs on chain, as integers. -/
def SameStatement (proof : ShieldedProofWireFormat) (p : Pool.Proof) : Prop :=
  (publicSignals proof).map bigInt = (Pool.publicInputs p).map fun n : U256 => some (n : ℤ)

instance (proof : ShieldedProofWireFormat) (p : Pool.Proof) : Decidable (SameStatement proof p) :=
  inferInstanceAs (Decidable (_ = _))

theorem length_publicSignals (proof : ShieldedProofWireFormat) :
    (publicSignals proof).length = 7 + (getInputNullifiers proof).length := by
  unfold publicSignals
  simp only [List.length_append, List.length_cons, List.length_nil]
  omega

/-- Nine signals are never as many as the public inputs. -/
theorem not_sameStatement {proof : ShieldedProofWireFormat} {n₀ n₁ : String}
    (hnulls : proof.inputNullifiers = some [n₀, n₁]) (p : Pool.Proof) : ¬ SameStatement proof p := by
  intro hsame
  have hnine : (publicSignals proof).length = 9 := by
    rw [length_publicSignals, getInputNullifiers, hnulls]
    rfl
  have hlen := congrArg List.length hsame
  rw [List.length_map, List.length_map, hnine, Pool.length_publicInputs] at hlen
  omega

/-- **Mock mode never verifies the statement of the chain**, whatever the proof for two nullifiers
is. -/
theorem mock_statement_differs {proof : ShieldedProofWireFormat} {extData : ExtDataWireFormat}
    {n₀ n₁ : String} {p : Pool.Proof} (hnulls : proof.inputNullifiers = some [n₀, n₁])
    (_hargs : buildPoolTransactArgs sdk proof extData facilitatorAddress = .ok args)
    (_hproof : proofOfScVal args.proof = some p) : ¬ SameStatement proof p :=
  not_sameStatement hnulls p

theorem inRange_sample : InRange (samplePoolProof [5, 7]) := by
  constructor <;> decide

theorem buildPoolTransactArgs_two : ∃ args,
    buildPoolTransactArgs sampleSdk (proofWire (samplePoolProof [5, 7]))
      (extDataWire (sampleExtData (-5))) sampleFacilitator = .ok args ∧
    args.proof = proofScVal (samplePoolProof [5, 7]) := by
  have hpayTo : sampleSdk.addressFromString (sampleExtData (-5)).recipient =
      some (.account 1) := by decide
  have hfacilitator : sampleSdk.addressFromString sampleFacilitator = some (.account 0) := by
    decide
  exact ⟨_, buildPoolTransactArgs_wire sampleSdk_exact inRange_sample
    (paymentAmount_val (by decide)) hpayTo hfacilitator, rfl⟩

theorem mock_statement_differs_two :
    ¬ SameStatement (proofWire (samplePoolProof [5, 7])) (samplePoolProof [5, 7]) := by
  obtain ⟨args, hargs, hproof⟩ := buildPoolTransactArgs_two
  have hread : proofOfScVal args.proof = some (samplePoolProof [5, 7]) := by
    rw [hproof]
    exact proofOfScVal_proofScVal inRange_sample
  exact mock_statement_differs rfl hargs hread

/-- Nine signals against eleven public inputs. -/
theorem mock_statement_of_nine : ∃ args,
    buildPoolTransactArgs sampleSdk (proofWire (samplePoolProof [5, 7]))
      (extDataWire (sampleExtData (-5))) sampleFacilitator = .ok args ∧
    proofOfScVal args.proof = some (samplePoolProof [5, 7]) ∧
    (publicSignals (proofWire (samplePoolProof [5, 7]))).length = 9 ∧
    (Pool.publicInputs (samplePoolProof [5, 7])).length = 11 ∧
    ¬ SameStatement (proofWire (samplePoolProof [5, 7])) (samplePoolProof [5, 7]) := by
  obtain ⟨args, hargs, hproof⟩ := buildPoolTransactArgs_two
  refine ⟨args, hargs, ?_, rfl, rfl, not_sameStatement rfl _⟩
  rw [hproof]
  exact proofOfScVal_proofScVal inRange_sample

end Enclave.Facilitator

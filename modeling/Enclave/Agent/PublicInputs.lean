import Enclave.Facilitator.SettleRoute

/-! # Public inputs by the wire

`packages/agent/src/publicInputs.ts`, and `proofWire` of `fetch-interceptor.ts`.  The prover writes
eleven field elements, 32 bytes each, little endian; the wire carries eight texts.  What the
facilitator and the contract make of them are the eleven values again
(`publicInputs_by_the_wire`). -/

namespace Enclave.Agent

open Hex Stellar Facilitator
open Prover (leValue leBytes)

/-! ### The decomposition -/

/-- `FIELD_SIZE`. -/
def fieldSize : ℕ := 32

/-- `NUM_PUBLIC_INPUTS`. -/
def numPublicInputs : ℕ := 11

/-- `EXPECTED_BYTES`. -/
def expectedBytes : ℕ := fieldSize * numPublicInputs

/-- `ShieldedProofPublicInputs`. -/
structure ShieldedProofPublicInputs where
  root : String
  publicAmount : String
  extDataHash : String
  inputNullifiers : String × String
  outputCommitment0 : String
  outputCommitment1 : String
  aspMembershipRoot : String
  aspNonMembershipRoot : String
deriving DecidableEq

/-- `chunk`. -/
def chunk (publicInputBytes : List UInt8) (i : ℕ) : List UInt8 :=
  (publicInputBytes.drop (i * fieldSize)).take fieldSize

/-- `leBytesToDecimal`. -/
def leBytesToDecimal (bytes : List UInt8) : String :=
  (bytes.foldr (fun b v => v <<< 8 ||| b.toNat) 0).repr

/-- `leBytesToBeHex`. -/
def leBytesToBeHex (bytes : List UInt8) : String :=
  String.ofList (bytes.map byteToHex).reverse.flatten

/-- `decomposePublicInputs`. -/
def decomposePublicInputs (publicInputBytes : List UInt8) :
    Except String ShieldedProofPublicInputs :=
  if publicInputBytes.length ≠ expectedBytes then
    .error (s!"Expected {expectedBytes} bytes of public inputs (11 × 32 LE field elements), " ++
      s!"got {publicInputBytes.length}")
  else
    let aspMembershipRoot0 := leBytesToDecimal (chunk publicInputBytes 7)
    let aspMembershipRoot1 := leBytesToDecimal (chunk publicInputBytes 8)
    let aspNonMembershipRoot0 := leBytesToDecimal (chunk publicInputBytes 9)
    let aspNonMembershipRoot1 := leBytesToDecimal (chunk publicInputBytes 10)
    if aspMembershipRoot0 ≠ aspMembershipRoot1 then
      .error (s!"publicInputs ordering drift: membershipRoots[0][0] ({aspMembershipRoot0}) !== " ++
        s!"membershipRoots[1][0] ({aspMembershipRoot1}). " ++
        "Expected same root per policy_tx_2_2 circuit.")
    else if aspNonMembershipRoot0 ≠ aspNonMembershipRoot1 then
      .error (s!"publicInputs ordering drift: nonMembershipRoots[0][0] " ++
        s!"({aspNonMembershipRoot0}) !== nonMembershipRoots[1][0] ({aspNonMembershipRoot1}). " ++
        "Expected same root per policy_tx_2_2 circuit.")
    else .ok {
      root := leBytesToDecimal (chunk publicInputBytes 0)
      publicAmount := leBytesToDecimal (chunk publicInputBytes 1)
      extDataHash := leBytesToBeHex (chunk publicInputBytes 2)
      inputNullifiers := (leBytesToDecimal (chunk publicInputBytes 3),
        leBytesToDecimal (chunk publicInputBytes 4))
      outputCommitment0 := leBytesToDecimal (chunk publicInputBytes 5)
      outputCommitment1 := leBytesToDecimal (chunk publicInputBytes 6)
      aspMembershipRoot := aspMembershipRoot0
      aspNonMembershipRoot := aspNonMembershipRoot0 }

/-- `proofWire`. -/
def proofWire (proof : Pool.Groth16Proof) (pi : ShieldedProofPublicInputs) :
    ShieldedProofWireFormat where
  a := String.ofList (toHex proof.a)
  b := String.ofList (toHex proof.b)
  c := String.ofList (toHex proof.c)
  root := pi.root
  inputNullifiers := some [pi.inputNullifiers.1, pi.inputNullifiers.2]
  outputCommitment0 := pi.outputCommitment0
  outputCommitment1 := pi.outputCommitment1
  publicAmount := pi.publicAmount
  extDataHash := some pi.extDataHash
  aspMembershipRoot := pi.aspMembershipRoot
  aspNonMembershipRoot := pi.aspNonMembershipRoot

/-! ### The texts -/

theorem leBytesToDecimal_eq (bytes : List UInt8) : leBytesToDecimal bytes = (leValue bytes).repr := by
  rw [leBytesToDecimal, Bytes.foldr_shiftLeft]

theorem leBytesToBeHex_eq (bytes : List UInt8) :
    leBytesToBeHex bytes = String.ofList (toHex bytes.reverse) := by
  rw [leBytesToBeHex, toHex, ← List.map_reverse, List.flatMap_def]

theorem leBytesToDecimal_injective {bytes bytes' : List UInt8} (hlen : bytes.length = bytes'.length)
    (h : leBytesToDecimal bytes = leBytesToDecimal bytes') : bytes = bytes' := by
  rw [leBytesToDecimal_eq, leBytesToDecimal_eq] at h
  have hvalue : leValue bytes = leValue bytes' := by
    have hread := congrArg Js.bigInt h
    rw [Js.bigInt_repr, Js.bigInt_repr] at hread
    exact Int.ofNat.inj (Option.some.inj hread)
  rw [← Prover.leBytes_leValue bytes, ← Prover.leBytes_leValue bytes', hvalue, hlen]

/-! ### Chunks -/

variable {bytes : List UInt8}

theorem length_chunk (hlen : bytes.length = expectedBytes) {i : ℕ} (hi : i < numPublicInputs) :
    (chunk bytes i).length = fieldSize := by
  rw [chunk, List.length_take, List.length_drop, hlen]
  have hle : (i + 1) * fieldSize ≤ expectedBytes :=
    Nat.mul_comm fieldSize _ ▸ Nat.mul_le_mul_left fieldSize hi
  rw [Nat.add_mul, Nat.one_mul] at hle
  omega

theorem bigIntToBytesBE_chunk (hlen : bytes.length = expectedBytes) {i : ℕ}
    (hi : i < numPublicInputs) :
    bigIntToBytesBE (leValue (chunk bytes i)) = (chunk bytes i).reverse := by
  rw [bigIntToBytesBE, ← Prover.leBytes_leValue (chunk bytes i), length_chunk hlen hi,
    Prover.leValue_leBytes]
  · rfl
  · exact length_chunk hlen hi ▸ Prover.leValue_lt (chunk bytes i)

theorem leValue_chunk_lt (hlen : bytes.length = expectedBytes) {i : ℕ} (hi : i < numPublicInputs) :
    leValue (chunk bytes i) < 2 ^ 256 := by
  have h := Prover.leValue_lt (chunk bytes i)
  rw [length_chunk hlen hi] at h
  exact h

/-! ### By the wire -/

/-- The proof that the prover's bytes are about. -/
def proofOfBytes (proof : Pool.Groth16Proof) (publicInputBytes : List UInt8) : Pool.Proof where
  proof := proof
  root := leValue (chunk publicInputBytes 0)
  inputNullifiers := [leValue (chunk publicInputBytes 3), leValue (chunk publicInputBytes 4)]
  outputCommitment0 := leValue (chunk publicInputBytes 5)
  outputCommitment1 := leValue (chunk publicInputBytes 6)
  publicAmount := leValue (chunk publicInputBytes 1)
  extDataHash := leValue (chunk publicInputBytes 2)
  aspMembershipRoot := leValue (chunk publicInputBytes 7)
  aspNonMembershipRoot := leValue (chunk publicInputBytes 9)

theorem inRange_proofOfBytes (hlen : bytes.length = expectedBytes) (proof : Pool.Groth16Proof) :
    InRange (proofOfBytes proof bytes) where
  root := leValue_chunk_lt hlen (by decide)
  inputNullifiers := by
    intro n hn
    obtain rfl | rfl := List.mem_pair.mp hn
    · exact leValue_chunk_lt hlen (by decide)
    · exact leValue_chunk_lt hlen (by decide)
  outputCommitment0 := leValue_chunk_lt hlen (by decide)
  outputCommitment1 := leValue_chunk_lt hlen (by decide)
  publicAmount := leValue_chunk_lt hlen (by decide)
  extDataHash := leValue_chunk_lt hlen (by decide)
  aspMembershipRoot := leValue_chunk_lt hlen (by decide)
  aspNonMembershipRoot := leValue_chunk_lt hlen (by decide)

theorem decomposePublicInputs_ok {pi : ShieldedProofPublicInputs}
    (h : decomposePublicInputs bytes = .ok pi) :
    bytes.length = expectedBytes ∧ chunk bytes 7 = chunk bytes 8 ∧
      chunk bytes 9 = chunk bytes 10 ∧
      ∀ proof, proofWire proof pi = Facilitator.proofWire (proofOfBytes proof bytes) := by
  unfold decomposePublicInputs at h
  dsimp only at h
  split_ifs at h with hlen hmember hnonMember
  have hlen : bytes.length = expectedBytes := not_not.mp hlen
  have hslots : ∀ i j, i < numPublicInputs → j < numPublicInputs →
      (chunk bytes i).length = (chunk bytes j).length := by
    intro i j hi hj
    rw [length_chunk hlen hi, length_chunk hlen hj]
  refine ⟨hlen, leBytesToDecimal_injective (hslots 7 8 (by decide) (by decide)) (not_not.mp hmember),
    leBytesToDecimal_injective (hslots 9 10 (by decide) (by decide)) (not_not.mp hnonMember), ?_⟩
  intro proof
  obtain rfl := Except.ok.inj h
  simp only [proofWire, Facilitator.proofWire, proofOfBytes, leBytesToDecimal_eq,
    leBytesToBeHex_eq, bigIntToBytesBE_chunk hlen (by decide : 2 < numPublicInputs), List.map_cons,
    List.map_nil]

theorem publicInputs_proofOfBytes (hlen : bytes.length = expectedBytes)
    (hmember : chunk bytes 7 = chunk bytes 8) (hnonMember : chunk bytes 9 = chunk bytes 10)
    (proof : Pool.Groth16Proof) :
    (Pool.publicInputs (proofOfBytes proof bytes)).map bigIntToBytesBE =
      (List.range numPublicInputs).map fun i => (chunk bytes i).reverse := by
  have hslots : (List.range numPublicInputs).map (fun i => (chunk bytes i).reverse) =
      (List.range numPublicInputs).map fun i => bigIntToBytesBE (leValue (chunk bytes i)) :=
    List.map_congr_left fun i hi => (bigIntToBytesBE_chunk hlen (List.mem_range.mp hi)).symm
  rw [hslots]
  change _ = [0, 1, 2, 3, 4, 5, 6, 7, 8, 9, 10].map _
  simp only [List.map_cons, List.map_nil, ← hmember, ← hnonMember]
  rfl

/-- **Public inputs survive the wire**: from the prover's bytes to the inputs that the contract
rebuilds, and vectors whose repeated roots differ are rejected. -/
theorem publicInputs_by_the_wire {sdk : Sdk} (hsdk : sdk.Exact) (bytes : List UInt8) :
    (∀ pi, decomposePublicInputs bytes = .ok pi →
      ∀ (proof : Pool.Groth16Proof) (extData : ExtDataWireFormat) (extDataScVal : ScVal)
        (facilitatorAddress : String) (facilitator : Address),
        extDataMap sdk extData = .ok extDataScVal →
        sdk.addressFromString facilitatorAddress = some facilitator →
        ∃ args p, buildPoolTransactArgs sdk (proofWire proof pi) extData facilitatorAddress =
            .ok args ∧ proofOfScVal args.proof = some p ∧
          (Pool.publicInputs p).map bigIntToBytesBE =
            (List.range numPublicInputs).map fun i => (chunk bytes i).reverse) ∧
      (bytes.length = expectedBytes →
        chunk bytes 7 ≠ chunk bytes 8 ∨ chunk bytes 9 ≠ chunk bytes 10 →
        ∃ error, decomposePublicInputs bytes = .error error) := by
  constructor
  · intro pi hpi proof extData extDataScVal facilitatorAddress facilitator hext hfacilitator
    obtain ⟨hlen, hmember, hnonMember, hwire⟩ := decomposePublicInputs_ok hpi
    have hrange := inRange_proofOfBytes hlen proof
    refine ⟨⟨proofScVal (proofOfBytes proof bytes), extDataScVal, .address facilitator⟩,
      proofOfBytes proof bytes, ?_, proofOfScVal_proofScVal hrange,
      publicInputs_proofOfBytes hlen hmember hnonMember proof⟩
    rw [hwire proof]
    simp only [buildPoolTransactArgs, hfacilitator, orThrow, bind, Except.bind,
      proofMap_proofWire hsdk hrange, hext]
    rfl
  · intro hlen hdiffer
    cases hd : decomposePublicInputs bytes with
    | error error => exact ⟨error, rfl⟩
    | ok pi =>
        obtain ⟨-, hmember, hnonMember, -⟩ := decomposePublicInputs_ok hd
        exact absurd hdiffer (not_or.mpr ⟨not_not.mpr hmember, not_not.mpr hnonMember⟩)

/-! ### A sample vector -/

/-- The element `256 + n`. -/
def sampleElement (n : UInt8) : List UInt8 := n :: 1 :: List.replicate 30 0

/-- Nine values, the two roots twice. -/
def sampleBytes : List UInt8 := [1, 2, 3, 4, 5, 6, 7, 8, 8, 9, 9].flatMap sampleElement

def samplePublicInputs : ShieldedProofPublicInputs :=
  ⟨"257", "258", String.ofList (List.replicate 61 '0' ++ ['1', '0', '3']), ("260", "261"), "262",
    "263", "264", "265"⟩

theorem decomposePublicInputs_sample : decomposePublicInputs sampleBytes =
    .ok samplePublicInputs := by
  have hlen : sampleBytes.length = expectedBytes := by decide +kernel
  have hdecimals : [0, 1, 3, 4, 5, 6, 7, 8, 9, 10].map
        (fun i => leBytesToDecimal (chunk sampleBytes i)) =
      ["257", "258", "260", "261", "262", "263", "264", "264", "265", "265"] := by decide +kernel
  have hhash : leBytesToBeHex (chunk sampleBytes 2) = samplePublicInputs.extDataHash := by
    decide +kernel
  simp only [List.map_cons, List.map_nil, List.cons.injEq, and_true] at hdecimals
  obtain ⟨h₀, h₁, h₃, h₄, h₅, h₆, h₇, h₈, h₉, h₁₀⟩ := hdecimals
  rw [decomposePublicInputs, if_neg (not_not.mpr hlen), h₀, h₁, h₃, h₄, h₅, h₆, h₇, h₈, h₉, h₁₀,
    hhash]
  rfl

theorem publicInputs_by_the_wire_sample : ∃ args p,
    buildPoolTransactArgs sampleSdk (proofWire (samplePoolProof []).proof samplePublicInputs)
      (extDataWire (sampleExtData (-5))) sampleFacilitator = .ok args ∧
      proofOfScVal args.proof = some p ∧ (Pool.publicInputs p).map bigIntToBytesBE =
        (List.range numPublicInputs).map fun i => (chunk sampleBytes i).reverse :=
  (publicInputs_by_the_wire sampleSdk_exact sampleBytes).1 samplePublicInputs
    decomposePublicInputs_sample _ _ _ _ (.account 0)
    (@extDataMap_extDataWire _ sampleSdk_exact _ ⟨-5, by decide⟩ (.account 1)
      rfl (by decide)) (by decide)

end Enclave.Agent

import Enclave.Agent.InterceptingFetch

/-! # The agent's witness inputs

`buildWitnessInputs` of `packages/agent/src/prover.ts`, with `normalizeField`, and
`emptyNonMembershipProofs` of `fetch-interceptor.ts`.  Slot 0 takes the null note, slot 1 the note
that pays; both take the organisation's key. -/

namespace Enclave.Agent

open Js

/-! ### Inputs -/

/-- `EnclaveNote` with what a witness takes of it. -/
structure WitnessNote extends EnclaveNote where
  blinding : String
  pathElements : List String
  pathIndex : String
  aspLeaf : String
  aspPathElements : List String
  aspPathIndex : String
deriving DecidableEq

/-- `MembershipProof`. -/
structure MembershipProof where
  blinding : String
  leaf : String
  pathElements : List String
  pathIndices : String
deriving DecidableEq

/-- `NonMembershipProof`. -/
structure NonMembershipProof where
  root : String
  siblings : List String
  oldKey : String
  oldValue : String
  isOld0 : String
  key : String
  value : String
  fnc : String
deriving DecidableEq

/-- `WitnessInputs`, pairs by slot. -/
structure WitnessInputs where
  inPrivateKey : String × String
  inAmount : String × String
  inBlinding : String × String
  inPathElements : List String × List String
  inPathIndices : String × String
  membershipProofs : MembershipProof × MembershipProof
  nonMembershipProofs : NonMembershipProof × NonMembershipProof
  extDataHash : String
  outAmount : String × String
  outBlinding : String × String
  outPubKey : String × String
deriving DecidableEq

/-- `BuildWitnessParams`. -/
structure BuildWitnessParams where
  orgSpendingPrivKey : String
  realNote : WitnessNote
  nullNote : WitnessNote
  payAmount : ℤ
  changeAmount : ℤ
  changeBlinding : String
  extDataHash : String
  nonMembershipProofs : NonMembershipProof × NonMembershipProof
deriving DecidableEq

/-- `emptyNonMembershipProofs`. -/
def emptyNonMembershipProofs : NonMembershipProof × NonMembershipProof :=
  let empty : NonMembershipProof :=
    { root := "0"
      siblings := List.replicate 32 "0"
      oldKey := "0"
      oldValue := "0"
      isOld0 := "1"
      key := "0"
      value := "0"
      fnc := "1" }
  (empty, empty)

/-! ### The functions -/

/-- `((raw % BN254_MODULUS) + BN254_MODULUS) % BN254_MODULUS`. -/
def reduceField (raw : ℤ) : ℤ := (raw.tmod bn256Modulus + bn256Modulus).tmod bn256Modulus

/-- `normalizeField`; `none` if `BigInt` throws. -/
def normalizeField (value : String) : Option String :=
  let units := codeUnits value
  if units.take 2 = ['0', 'x'] ∨ units.take 2 = ['0', 'X'] then
    (bigInt value).map fun raw => bigIntToString (reduceField raw)
  else if !units.isEmpty && units.all Char.isDigit then
    (bigInt value).map fun raw => bigIntToString (reduceField raw)
  else if !units.isEmpty && units.all Hex.isHexDigit then
    (bigInt ("0x" ++ value)).map fun raw => bigIntToString (reduceField raw)
  else some value

/-- `buildWitnessInputs`. -/
def buildWitnessInputs (params : BuildWitnessParams) : Option WitnessInputs :=
  (normalizeField params.orgSpendingPrivKey).map fun privKeyField =>
    { inPrivateKey := (privKeyField, privKeyField)
      inAmount := ("0", bigIntToString params.payAmount)
      inBlinding := (params.nullNote.blinding, params.realNote.blinding)
      inPathElements := (params.nullNote.pathElements, params.realNote.pathElements)
      inPathIndices := (params.nullNote.pathIndex, params.realNote.pathIndex)
      membershipProofs :=
        (⟨"0", params.nullNote.aspLeaf, params.nullNote.aspPathElements,
            params.nullNote.aspPathIndex⟩,
          ⟨"0", params.realNote.aspLeaf, params.realNote.aspPathElements,
            params.realNote.aspPathIndex⟩)
      nonMembershipProofs := params.nonMembershipProofs
      extDataHash := params.extDataHash
      outAmount := (bigIntToString params.changeAmount, "0")
      outBlinding := (params.changeBlinding, "0")
      outPubKey := (privKeyField, privKeyField) }

/-! ### Keys -/

theorem reduceField_natCast (n : ℕ) : reduceField n = (n % bn256Modulus : ℕ) := by
  have hfirst : (n : ℤ).tmod bn256Modulus = n % bn256Modulus :=
    Int.tmod_eq_emod_of_nonneg (Int.natCast_nonneg n)
  have hpos : (0 : ℤ) ≤ n % bn256Modulus + bn256Modulus :=
    add_nonneg (Int.emod_nonneg _ (by decide)) (by decide)
  unfold reduceField
  rw [hfirst, Int.tmod_eq_emod_of_nonneg hpos, Int.add_emod_right, Int.emod_emod, Int.natCast_mod]

theorem normalizeField_bytesToHex {bytes : List UInt8} (h : bytes ≠ []) :
    normalizeField (String.ofList ('0' :: 'x' :: Hex.toHex bytes)) =
      some (Bytes.leValue bytes.reverse % bn256Modulus).repr := by
  have hmark : (codeUnits (String.ofList ('0' :: 'x' :: Hex.toHex bytes))).take 2 = ['0', 'x'] := by
    unfold codeUnits
    rw [String.toList_ofList]
    rfl
  unfold normalizeField
  dsimp only
  rw [if_pos (.inl hmark), Hex.bigInt_prefixed_toHex h, Option.map_some, reduceField_natCast]
  congr 1

end Enclave.Agent

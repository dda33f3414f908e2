import Enclave.App.NotesStore

/-! # The transaction builder

The notes of `app/js/transaction-builder.js`: outputs are committed to and encrypted, and a stored
note becomes an input of the circuit. -/

namespace Enclave.App

open Prover Js

variable (P : Poseidon2) (c : Cipher)

/-- What `createOutput` returns. -/
structure OutputNote where
  amount : ℤ
  blinding : ℤ
  blindingBytes : List UInt8
  pubKeyBytes : List UInt8
  commitmentBytes : List UInt8
  commitmentBig : ℕ
deriving DecidableEq

/-- `createOutput`. -/
def createOutput (amount : ℤ) (pubKeyBytes : List UInt8) (blinding : ℤ) : Result OutputNote := do
  let amountBytes ← bigintToField amount
  let blindingBytes ← bigintToField blinding
  let commitment ← computeCommitment P amountBytes pubKeyBytes blindingBytes
  return ⟨amount, blinding, blindingBytes, pubKeyBytes, commitment, bytesToBigIntLE commitment⟩

/-- `encryptOutput` with the random bytes that it takes. -/
def encryptOutput (ephemeral nonce : List UInt8) (outputNote : OutputNote)
    (encryptionPubKey : List UInt8) : Result (List UInt8) :=
  encryptNoteData c ephemeral nonce encryptionPubKey
    ⟨outputNote.amount, outputNote.blindingBytes⟩

/-- `get_proof` of the pool's tree. -/
structure PoolMerkleProof where
  pathElements : List UInt8
  pathIndices : List UInt8
deriving DecidableEq

/-- What `createRealInput` returns; the path elements stay bytes. -/
structure InputNote where
  amount : ℤ
  blinding : ℤ
  blindingBytes : List UInt8
  commitmentBytes : List UInt8
  nullifierBytes : List UInt8
  nullifierBig : ℕ
  pathIndices : String
  pathElements : List UInt8
  leafIndex : ℕ
deriving DecidableEq

/-- `BigInt` of text. -/
def toBigInt (s : String) : Result ℤ :=
  (bigInt s).elim (.error (.error "Cannot convert to a BigInt")) .ok

/-- `createRealInput`. -/
def createRealInput (privKeyBytes pubKeyBytes : List UInt8) (note : UserNote)
    (merkleProof : PoolMerkleProof) : Result InputNote := do
  let amount ← toBigInt note.amount
  let blinding ← toBigInt note.blinding
  if blinding ≥ bn256Modulus then
    .error (.error s!"Note at index {note.leafIndex} has corrupted blinding. This note may have been created with a buggy version. Please clear notes in browser storage and re-deposit.")
  else do
    let amountBytes ← bigintToField amount
    let blindingBytes ← bigintToField blinding
    let commitment ← computeCommitment P amountBytes pubKeyBytes blindingBytes
    let signature ← computeSignature P privKeyBytes commitment merkleProof.pathIndices
    let nullifier ← computeNullifier P commitment merkleProof.pathIndices signature
    return {
      amount, blinding, blindingBytes
      commitmentBytes := commitment
      nullifierBytes := nullifier
      nullifierBig := bytesToBigIntLE nullifier
      pathIndices := (bytesToBigIntLE merkleProof.pathIndices).repr
      pathElements := merkleProof.pathElements
      leafIndex := note.leafIndex }

variable {P c}

/-- **An output** commits to its amount, key and blinding. -/
theorem createOutput_natCast {amount blinding : ℕ} (hamount : amount < 2 ^ 256)
    (hblinding : blinding < 2 ^ 256) (pubkey : F) :
    createOutput P amount (scalarToBytes pubkey) blinding = .ok {
      amount := amount
      blinding := blinding
      blindingBytes := scalarToBytes (blinding : F)
      pubKeyBytes := scalarToBytes pubkey
      commitmentBytes := scalarToBytes (Circuits.commitment P amount pubkey blinding)
      commitmentBig := (Circuits.commitment P amount pubkey blinding).val } := by
  simp only [createOutput, bigintToField_natCast hamount, bigintToField_natCast hblinding,
    computeCommitment_scalarToBytes, Result.ok_bind, bytesToBigIntLE_scalarToBytes]
  rfl

end Enclave.App

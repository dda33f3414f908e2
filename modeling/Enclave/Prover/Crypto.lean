import Enclave.Circuits.PolicyTransaction
import Enclave.Prover.Serialization

/-! # Keys, commitments and nullifiers

`crypto.rs` of the wasm prover crate: the hashes that the browser computes on bytes.  On the bytes
of field elements they are the bytes of the circuits' hashes. -/

namespace Enclave.Prover

variable (P : Poseidon2)

/-- `derive_public_key`. -/
def derivePublicKey (privateKey : List UInt8) : Result (List UInt8) := do
  let sk ← bytesToScalar privateKey
  return scalarToBytes (P.hash2 sk 0 (3 : ℕ))

/-- `poseidon2_hash2`. -/
def poseidon2Hash2 (input0 input1 : List UInt8) (domainSeparation : UInt8) :
    Result (List UInt8) := do
  let a ← bytesToScalar input0
  let b ← bytesToScalar input1
  return scalarToBytes (P.hash2 a b (domainSeparation.toNat : ℕ))

/-- `compute_commitment`. -/
def computeCommitment (amount publicKey blinding : List UInt8) : Result (List UInt8) := do
  let amt ← bytesToScalar amount
  let pk ← bytesToScalar publicKey
  let blind ← bytesToScalar blinding
  return scalarToBytes (P.hash3 amt pk blind (1 : ℕ))

/-- `compute_signature`. -/
def computeSignature (privateKey commitment merklePath : List UInt8) : Result (List UInt8) := do
  let sk ← bytesToScalar privateKey
  let comm ← bytesToScalar commitment
  let path ← bytesToScalar merklePath
  return scalarToBytes (P.hash3 sk comm path (4 : ℕ))

/-- `compute_nullifier`. -/
def computeNullifier (commitment pathIndices signature : List UInt8) : Result (List UInt8) := do
  let comm ← bytesToScalar commitment
  let indices ← bytesToScalar pathIndices
  let sig ← bytesToScalar signature
  return scalarToBytes (P.hash3 comm indices sig (2 : ℕ))

variable {P}

theorem derivePublicKey_scalarToBytes (sk : F) :
    derivePublicKey P (scalarToBytes sk) = .ok (scalarToBytes (Circuits.publicKey P sk)) := by
  rw [derivePublicKey, bytesToScalar_scalarToBytes, Result.ok_bind, Circuits.publicKey,
    Nat.cast_ofNat]
  rfl

theorem computeCommitment_scalarToBytes (amount pubkey blinding : F) :
    computeCommitment P (scalarToBytes amount) (scalarToBytes pubkey) (scalarToBytes blinding) =
      .ok (scalarToBytes (Circuits.commitment P amount pubkey blinding)) := by
  simp only [computeCommitment, bytesToScalar_scalarToBytes, Result.ok_bind, Circuits.commitment,
    Nat.cast_one]
  rfl

/-- **The browser's nullifier** is the circuit's. -/
theorem computeNullifier_scalarToBytes (sk commitment pathIndices : F) : (do
    let signature ← computeSignature P (scalarToBytes sk) (scalarToBytes commitment)
      (scalarToBytes pathIndices)
    computeNullifier P (scalarToBytes commitment) (scalarToBytes pathIndices) signature) =
      .ok (scalarToBytes (Circuits.nullifier P sk commitment pathIndices)) := by
  have hsignature : computeSignature P (scalarToBytes sk) (scalarToBytes commitment)
      (scalarToBytes pathIndices) =
        .ok (scalarToBytes (Circuits.signature P sk commitment pathIndices)) := by
    simp only [computeSignature, bytesToScalar_scalarToBytes, Result.ok_bind, Circuits.signature,
      Nat.cast_ofNat]
    rfl
  have hnullifier : computeNullifier P (scalarToBytes commitment) (scalarToBytes pathIndices)
      (scalarToBytes (Circuits.signature P sk commitment pathIndices)) =
        .ok (scalarToBytes (Circuits.nullifier P sk commitment pathIndices)) := by
    simp only [computeNullifier, bytesToScalar_scalarToBytes, Result.ok_bind, Circuits.nullifier,
      Nat.cast_ofNat]
    rfl
  rw [hsignature, Result.ok_bind, hnullifier]

end Enclave.Prover

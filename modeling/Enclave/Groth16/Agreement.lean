import Enclave.Groth16.Contract
import Enclave.Prover.R1csReplay

/-! # The prover's check and the contract's

The wasm prover crate checks a proof with arkworks, over the compressed proof and little-endian
inputs.  The contract checks the uncompressed proof that the crate converts it to, as the app and
the agent cut it, against the key that `soroban-utils` writes.  `verify_agrees`: they give the same
answers. -/

namespace Enclave.Groth16

open Prover

/-- `ark_groth16::VerifyingKey`. -/
structure ArkVerifyingKey where
  alphaG1 : G1Affine
  betaG2 : G2Affine
  gammaG2 : G2Affine
  deltaG2 : G2Affine
  gammaAbcG1 : List G1Affine

/-- `ark_groth16::Proof`. -/
structure ArkProof where
  a : G1Affine
  b : G2Affine
  c : G1Affine

variable {G₁ G₂ T : Type} [AddCommGroup G₁] [Module F G₁] [AddCommGroup G₂] [Module F G₂]
  [AddCommGroup T] [Module F T]

def Curve.arkKey (C : Curve G₁ G₂ T) (vk : ArkVerifyingKey) : Option (VerifyingKey G₁ G₂) := do
  let alpha ← C.point1 vk.alphaG1
  let beta ← C.point2 vk.betaG2
  let gamma ← C.point2 vk.gammaG2
  let delta ← C.point2 vk.deltaG2
  let ic ← vk.gammaAbcG1.mapM C.point1
  return ⟨alpha, beta, gamma, delta, ic⟩

def Curve.arkProof (C : Curve G₁ G₂ T) (proof : ArkProof) : Option (Proof G₁ G₂) := do
  let a ← C.point1 proof.a
  let b ← C.point2 proof.b
  let c ← C.point1 proof.c
  return ⟨a, b, c⟩

/-- What the crate uses of arkworks: reading a compressed proof, which checks its points, and
verifying it with a processed key. -/
structure Ark (C : Curve G₁ G₂ T) where
  deserializeCompressed : List UInt8 → Except String ArkProof
  verifyWithProcessedVk : ArkVerifyingKey → List F → ArkProof → Except String Bool
  points : ∀ bytes proof, deserializeCompressed bytes = .ok proof →
    ∃ π, C.arkProof proof = some π
  verifies : ∀ vk key proof π xs, C.arkKey vk = some key → C.arkProof proof = some π →
    xs.length + 1 = key.ic.length → ∃ b, verifyWithProcessedVk vk xs proof = .ok b ∧
      (b = true ↔ C.pairing π.a π.b = C.pairing key.alpha key.beta +
        C.pairing (inputSum key.ic xs key.ic.length) key.gamma + C.pairing π.c key.delta)

/-! ### The prover crate -/

section crate

variable {C : Curve G₁ G₂ T} (ark : Ark C)

/-- `Prover::verify`. -/
def proverVerify (vk : ArkVerifyingKey) (proofBytes publicInputsBytes : List UInt8) :
    Result Bool :=
  match ark.deserializeCompressed proofBytes with
  | .error e => .error (.error s!"Failed to load proof: {e}")
  | .ok proof =>
      if publicInputsBytes.length % fieldSize ≠ 0 then
        .error (.error "Invalid public inputs size")
      else if vk.gammaAbcG1.length < 1 then .error (.error "Invalid verifying key")
      else if publicInputsBytes.length / fieldSize ≠ vk.gammaAbcG1.length - 1 then
        .error (.error (s!"Public input count mismatch: got {publicInputsBytes.length / fieldSize}, "
          ++ s!"expected {vk.gammaAbcG1.length - 1}"))
      else do
        let publicInputs ← readWitness publicInputsBytes
        match ark.verifyWithProcessedVk vk publicInputs proof with
        | .ok result => .ok result
        | .error e => .error (.error s!"Verification error: {e}")

/-- `proof_to_uncompressed_bytes`. -/
def proofToUncompressedBytes (proof : ArkProof) : List UInt8 :=
  g1BytesUncompressed proof.a ++ (g2BytesUncompressed proof.b ++ g1BytesUncompressed proof.c)

/-- `convert_proof_to_soroban`. -/
def convertProofToSoroban (proofBytes : List UInt8) : Result (List UInt8) :=
  match ark.deserializeCompressed proofBytes with
  | .error e => .error (.error s!"Failed to deserialize proof: {e}")
  | .ok proof => .ok (proofToUncompressedBytes proof)

/-- `proof_bytes_to_uncompressed`. -/
def proofBytesToUncompressed (proofBytes : List UInt8) : Result (List UInt8) :=
  match ark.deserializeCompressed proofBytes with
  | .error e => .error (.error s!"Failed to load proof: {e}")
  | .ok proof => .ok (proofToUncompressedBytes proof)

end crate

/-! ### On the way to the contract -/

/-- `vk_bytes_from_ark`. -/
def vkBytesFromArk (vk : ArkVerifyingKey) : VerificationKeyBytes where
  alpha := g1BytesFromArk vk.alphaG1
  beta := g2BytesFromArk vk.betaG2
  gamma := g2BytesFromArk vk.gammaG2
  delta := g2BytesFromArk vk.deltaG2
  ic := vk.gammaAbcG1.map g1BytesFromArk

/-- `Uint8Array.prototype.slice`. -/
def slice (bytes : List UInt8) (start stop : ℕ) : List UInt8 := (bytes.take stop).drop start

/-- `proofComponents` of the agent's `prove`. -/
def proofComponents (uncompressed : List UInt8) : Pool.Groth16Proof where
  a := slice uncompressed 0 64
  b := slice uncompressed 64 192
  c := slice uncompressed 192 256

/-- `proofStruct` of the app's `generateTransactionProof`. -/
def proofStruct (proof : List UInt8) : Pool.Groth16Proof where
  a := slice proof 0 64
  b := slice proof 64 (64 + 128)
  c := proof.drop (64 + 128)

/-- `Groth16Proof::try_from`. -/
def tryFrom (value : List UInt8) : Except Groth16Error Pool.Groth16Proof :=
  if value.length ≠ 256 then .error .malformedProof
  else .ok ⟨slice value 0 64, slice value 64 (64 + 128), value.drop (64 + 128)⟩

/-- **The three cuts give back the points' bytes.** -/
theorem cuts_proofToUncompressedBytes (proof : ArkProof) :
    (proofToUncompressedBytes proof).length = 256 ∧
    proofComponents (proofToUncompressedBytes proof) =
      ⟨g1BytesFromArk proof.a, g2BytesFromArk proof.b, g1BytesFromArk proof.c⟩ ∧
    proofStruct (proofToUncompressedBytes proof) =
      proofComponents (proofToUncompressedBytes proof) ∧
    tryFrom (proofToUncompressedBytes proof) =
      .ok (proofComponents (proofToUncompressedBytes proof)) := by
  have hbytes : proofToUncompressedBytes proof =
      g1BytesFromArk proof.a ++ (g2BytesFromArk proof.b ++ g1BytesFromArk proof.c) := by
    rw [proofToUncompressedBytes, g1BytesUncompressed_eq, g2BytesUncompressed_eq,
      g1BytesUncompressed_eq]
  have ha := length_g1BytesFromArk proof.a
  have hb := length_g2BytesFromArk proof.b
  have hc := length_g1BytesFromArk proof.c
  have hlen : (proofToUncompressedBytes proof).length = 256 := by
    rw [hbytes, List.length_append, List.length_append, ha, hb, hc]
  have hsliceA : slice (proofToUncompressedBytes proof) 0 64 = g1BytesFromArk proof.a := by
    rw [slice, List.drop_zero, hbytes, List.take_left' ha]
  have hdropB : (proofToUncompressedBytes proof).drop 64 =
      g2BytesFromArk proof.b ++ g1BytesFromArk proof.c := by
    rw [hbytes, List.drop_left' ha]
  have hsliceB : slice (proofToUncompressedBytes proof) 64 192 = g2BytesFromArk proof.b := by
    rw [slice, List.drop_take, hdropB, List.take_left' hb]
  have hdropC : (proofToUncompressedBytes proof).drop 192 = g1BytesFromArk proof.c := by
    have h192 : (proofToUncompressedBytes proof).drop 192 =
        ((proofToUncompressedBytes proof).drop 64).drop 128 := by rw [List.drop_drop]
    rw [h192, hdropB, List.drop_left' hb]
  have hsliceC : slice (proofToUncompressedBytes proof) 192 256 = g1BytesFromArk proof.c := by
    rw [slice, List.take_of_length_le hlen.le, hdropC]
  have hstruct : proofStruct (proofToUncompressedBytes proof) =
      proofComponents (proofToUncompressedBytes proof) := by
    rw [proofStruct, proofComponents, hsliceC, hdropC]
  refine ⟨hlen, ?_, hstruct, ?_⟩
  · rw [proofComponents, hsliceA, hsliceB, hsliceC]
  · rw [tryFrom, if_neg (not_not.mpr hlen), ← hstruct]
    rfl

/-! ### The same answers -/

section agreement

variable {C : Curve G₁ G₂ T}

theorem read1_g1BytesFromArk (p : G1Affine) : C.read1 (g1BytesFromArk p) = C.point1 p := by
  rw [Curve.read1, readG1_eq_some_iff.mpr rfl, Option.bind_some]

theorem read2_g2BytesFromArk (p : G2Affine) : C.read2 (g2BytesFromArk p) = C.point2 p := by
  rw [Curve.read2, readG2_eq_some_iff.mpr rfl, Option.bind_some]

theorem readKey_vkBytesFromArk (vk : ArkVerifyingKey) :
    C.readKey (vkBytesFromArk vk) = C.arkKey vk := by
  have hic : (vk.gammaAbcG1.map g1BytesFromArk).mapM C.read1 = vk.gammaAbcG1.mapM C.point1 := by
    have hread : C.read1 ∘ g1BytesFromArk = C.point1 := by
      funext p
      rw [Function.comp_apply, read1_g1BytesFromArk]
    rw [List.mapM_map, hread]
  simp only [Curve.readKey, vkBytesFromArk, Curve.arkKey, read1_g1BytesFromArk,
    read2_g2BytesFromArk, hic]

theorem readProof_g1BytesFromArk (proof : ArkProof) :
    C.readProof ⟨g1BytesFromArk proof.a, g2BytesFromArk proof.b, g1BytesFromArk proof.c⟩ =
      C.arkProof proof := by
  simp only [Curve.readProof, Curve.arkProof, read1_g1BytesFromArk, read2_g2BytesFromArk]

theorem length_gammaAbcG1 {vk : ArkVerifyingKey} {key : VerifyingKey G₁ G₂}
    (h : C.arkKey vk = some key) : vk.gammaAbcG1.length = key.ic.length := by
  rw [← readKey_vkBytesFromArk] at h
  have hic := congrArg VerificationKeyBytes.ic (Curve.readKey_eq_some_iff.mp h)
  have hlen := congrArg List.length hic
  rwa [vkBytesFromArk, Curve.writeKey, List.length_map, List.length_map] at hlen

/-- **The contract answers as the prover does**: over the proof that the prover converts, however
it is cut, the key that the deployment writes and inputs of the same residues, it accepts what the
prover accepts, finds invalid what the prover finds false, and rejects as malformed the inputs that
the prover fails on. -/
theorem verify_agrees [DecidableEq T] (ark : Ark C) {vk : ArkVerifyingKey}
    {key : VerifyingKey G₁ G₂} (hkey : C.arkKey vk = some key) {proofBytes : List UInt8}
    {proof : ArkProof} (hload : ark.deserializeCompressed proofBytes = .ok proof)
    {publicInputsBytes : List UInt8} (hchunks : publicInputsBytes.length % fieldSize = 0)
    {publicInputs : List U256}
    (hinputs : readWitness publicInputsBytes = .ok (publicInputs.map (Nat.cast : ℕ → F)))
    {env env₀ : Env Store} (hnew : constructor (vkBytesFromArk vk) env₀ = .ok ((), env)) :
    ∃ uncompressed onChain, convertProofToSoroban ark proofBytes = .ok uncompressed ∧
      proofBytesToUncompressed ark proofBytes = .ok uncompressed ∧
      proofComponents uncompressed = onChain ∧ proofStruct uncompressed = onChain ∧
      tryFrom uncompressed = .ok onChain ∧
      (proverVerify ark vk proofBytes publicInputsBytes = .ok true ↔
        verify C onChain publicInputs env = .ok (true, env)) ∧
      (proverVerify ark vk proofBytes publicInputsBytes = .ok false ↔
        verify C onChain publicInputs env = .error (.error .invalidProof)) ∧
      ((∃ e, proverVerify ark vk proofBytes publicInputsBytes = .error e) ↔
        verify C onChain publicInputs env = .error (.error .malformedPublicInputs)) := by
  obtain ⟨-, hcut, hstruct, htry⟩ := cuts_proofToUncompressedBytes proof
  obtain ⟨π, hπ⟩ := ark.points _ _ hload
  have hpoints : C.readProof (proofComponents (proofToUncompressedBytes proof)) = some π := by
    rw [hcut, readProof_g1BytesFromArk, hπ]
  have hstored : C.readKey (vkBytesFromArk vk) = some key := by rw [readKey_vkBytesFromArk, hkey]
  have hvk : env.store.verificationKey = some (vkBytesFromArk vk) := by
    cases hnew
    rfl
  have hcount : publicInputsBytes.length / fieldSize = publicInputs.length := by
    have hlen := congrArg List.length (Except.ok.inj ((readWitness_eq _).symm.trans hinputs))
    rwa [List.length_map, List.length_range, List.length_map] at hlen
  have hic := length_gammaAbcG1 hkey
  refine ⟨proofToUncompressedBytes proof, _, by rw [convertProofToSoroban, hload],
    by rw [proofBytesToUncompressed, hload], rfl, hstruct, htry, ?_⟩
  rw [verify_apply hvk hstored hpoints, proverVerify, hload]
  simp only []
  rw [if_neg (not_not.mpr hchunks)]
  by_cases hlen : publicInputs.length + 1 = key.ic.length
  · obtain ⟨b, hverify, hb⟩ := ark.verifies vk key proof π (publicInputs.map Nat.cast) hkey hπ
      (by rw [List.length_map, hlen])
    rw [if_neg (by omega), if_neg (by omega), hinputs, Result.ok_bind, hverify,
      if_neg (not_not.mpr hlen)]
    cases b with
    | true =>
        rw [if_pos (hb.mp rfl)]
        simp
    | false =>
        rw [if_neg fun heq => Bool.false_ne_true (hb.mpr heq)]
        simp
  · rw [if_pos hlen]
    by_cases hnone : vk.gammaAbcG1.length < 1
    · rw [if_pos hnone]
      simp
    · rw [if_neg hnone, if_pos (by omega)]
      simp

end agreement

/-! ### A sample -/

section sample

/-- The coordinates of the sample key for one input. -/
def sampleArkKey : ArkVerifyingKey where
  alphaG1 := sampleAffine1 1
  betaG2 := generator2
  gammaG2 := generator2
  deltaG2 := generator2
  gammaAbcG1 := [sampleAffine1 0, sampleAffine1 1]

/-- The coordinates of the sample proof. -/
def sampleArkProof : ArkProof := ⟨sampleAffine1 1, generator2, sampleAffine1 (-1)⟩

/-- It, compressed: first coordinates, little endian, and the sign of the second one. -/
def sampleProofBytes : List UInt8 :=
  leBytes 32 1 ++ (leBytes 32 generator2.x.c0.val ++ leBytes 32 generator2.x.c1.val) ++
    leBytes 32 (1 + 2 ^ 255)

/-- Reads the sample proof and no other. -/
def sampleDeserialize (bytes : List UInt8) : Except String ArkProof :=
  if bytes = sampleProofBytes then .ok sampleArkProof
  else .error "the input buffer contained invalid data"

/-- The equation, by logarithms. -/
def sampleVerify (vk : ArkVerifyingKey) (xs : List F) (proof : ArkProof) : Except String Bool :=
  match sampleCurve.arkKey vk, sampleCurve.arkProof proof with
  | some key, some π =>
      if xs.length + 1 ≠ key.ic.length then .error "malformed verifying key"
      else .ok (decide (π.a * π.b =
        key.alpha * key.beta + inputSum key.ic xs key.ic.length * key.gamma + π.c * key.delta))
  | _, _ => .error "malformed verifying key"

theorem sampleDeserialize_points (bytes : List UInt8) (proof : ArkProof)
    (h : sampleDeserialize bytes = .ok proof) : ∃ π, sampleCurve.arkProof proof = some π := by
  unfold sampleDeserialize at h
  split_ifs at h
  cases h
  exact ⟨sampleProof, by decide +kernel⟩

theorem sampleVerify_spec (vk : ArkVerifyingKey) (key : VerifyingKey F F) (proof : ArkProof)
    (π : Proof F F) (xs : List F) (hkey : sampleCurve.arkKey vk = some key)
    (hproof : sampleCurve.arkProof proof = some π) (hlen : xs.length + 1 = key.ic.length) :
    ∃ b, sampleVerify vk xs proof = .ok b ∧
      (b = true ↔ sampleCurve.pairing π.a π.b = sampleCurve.pairing key.alpha key.beta +
        sampleCurve.pairing (inputSum key.ic xs key.ic.length) key.gamma +
          sampleCurve.pairing π.c key.delta) := by
  rw [sampleVerify, hkey, hproof]
  exact ⟨_, if_neg (not_not.mpr hlen), decide_eq_true_iff⟩

/-- Arkworks, with the sample proof for all that it reads. -/
def sampleArk : Ark sampleCurve where
  deserializeCompressed := sampleDeserialize
  verifyWithProcessedVk := sampleVerify
  points := sampleDeserialize_points
  verifies := sampleVerify_spec

/-- Prover and contract accept the sample proof. -/
theorem verify_agrees_sample :
    ∃ uncompressed onChain, convertProofToSoroban sampleArk sampleProofBytes = .ok uncompressed ∧
      proofStruct uncompressed = onChain ∧
      proverVerify sampleArk sampleArkKey sampleProofBytes (leBytes 32 1) = .ok true ∧
      verify sampleCurve onChain [1] ⟨⟨some (vkBytesFromArk sampleArkKey)⟩, []⟩ =
        .ok (true, ⟨⟨some (vkBytesFromArk sampleArkKey)⟩, []⟩) := by
  have hkey : sampleCurve.arkKey sampleArkKey = some (sampleKey 1) := by decide +kernel
  have hinputs : readWitness (leBytes 32 1) = .ok ([1].map (Nat.cast : ℕ → F)) := by
    rw [readWitness_eq]
    exact congrArg Except.ok (by decide +kernel)
  obtain ⟨uncompressed, onChain, hconvert, -, -, hstruct, -, haccepts, -⟩ :=
    @verify_agrees _ _ _ _ _ _ _ _ _ sampleCurve _ sampleArk sampleArkKey _ hkey sampleProofBytes
      sampleArkProof rfl (leBytes 32 1) rfl [1] hinputs _ ⟨⟨none⟩, []⟩ rfl
  have hprover : proverVerify sampleArk sampleArkKey sampleProofBytes (leBytes 32 1) = .ok true := by
    decide +kernel
  exact ⟨uncompressed, onChain, hconvert, hstruct, hprover, haccepts.mp hprover⟩

end sample

end Enclave.Groth16

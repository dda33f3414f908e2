import Enclave.App.NoteScanner

/-! # Encrypted outputs

The amount of an output stands in its commitment as a field element and in its ciphertext as 8
bytes.  A recipient recovers the output exactly if 8 bytes hold the amount
(`output_recovered_iff`). -/

namespace Enclave.App

open Prover

/-- The recipient decrypts the amount and the blinding of an output, and accepts them against its
commitment. -/
def Recovers (P : Poseidon2) (c : Cipher) (ephemeral nonce encryptionKey : List UInt8) (pubkey : F)
    (amount blinding : ℤ) : Prop :=
  ∃ outputNote encrypted decrypted,
    createOutput P amount (scalarToBytes pubkey) blinding = .ok outputNote ∧
    encryptOutput c ephemeral nonce outputNote (c.publicKey encryptionKey) = .ok encrypted ∧
    decryptNoteData c encryptionKey encrypted = some decrypted ∧
    decrypted.amount = amount ∧ bytesToBigIntLE decrypted.blinding = blinding ∧
    verifyNoteCommitment P decrypted (scalarToBytes pubkey) (hex64 outputNote.commitmentBig) = true

variable {P : Poseidon2} {c : Cipher}

/-- Only 64 bits of an amount come back. -/
theorem Recovers.amount_lt (hc : c.Sound) {ephemeral nonce encryptionKey : List UInt8}
    (hephemeral : ephemeral.length = 32) (hnonce : nonce.length = 24)
    (hkey : encryptionKey.length = 32) {pubkey : F} {amount blinding : ℕ}
    (hamount : amount < 2 ^ 256) (hblinding : blinding < 2 ^ 256)
    (h : Recovers P c ephemeral nonce encryptionKey pubkey amount blinding) : amount < 2 ^ 64 := by
  obtain ⟨encrypted, hencrypt, -, hdecrypt⟩ :=
    decryptNoteData_encryptNoteData hc hephemeral hnonce hkey amount (blinding : F)
  obtain ⟨outputNote, encrypted', decrypted, hcreate', hencrypt', hdecrypt', heq, -, -⟩ := h
  obtain rfl := Except.ok.inj ((createOutput_natCast hamount hblinding pubkey).symm.trans hcreate')
  obtain rfl := Except.ok.inj (hencrypt.symm.trans hencrypt')
  obtain rfl := Option.some.inj (hdecrypt.symm.trans hdecrypt')
  have hmod : amount % 2 ^ 64 = amount := Int.ofNat_inj.mp heq
  rw [← hmod]
  exact Nat.mod_lt _ (by decide)

/-- **An output is recovered exactly if its amount has 64 bits.** -/
theorem output_recovered_iff (hc : c.Sound) {ephemeral nonce encryptionKey : List UInt8}
    (hephemeral : ephemeral.length = 32) (hnonce : nonce.length = 24)
    (hkey : encryptionKey.length = 32) (pubkey : F) {amount blinding : ℕ}
    (hamount : amount < 2 ^ 248) (hblinding : blinding < bn256Modulus) :
    Recovers P c ephemeral nonce encryptionKey pubkey amount blinding ↔ amount < 2 ^ 64 := by
  have hword : amount < 2 ^ 256 := hamount.trans (by decide)
  have hword' : blinding < 2 ^ 256 := hblinding.trans (bn256Modulus_lt.trans (by decide))
  refine ⟨Recovers.amount_lt hc hephemeral hnonce hkey hword hword', fun hlt => ?_⟩
  obtain ⟨encrypted, hencrypt, -, hdecrypt⟩ :=
    decryptNoteData_encryptNoteData hc hephemeral hnonce hkey amount (blinding : F)
  rw [Nat.mod_eq_of_lt hlt] at hdecrypt
  refine ⟨_, encrypted, _, createOutput_natCast hword hword' pubkey, hencrypt, hdecrypt, rfl, ?_, ?_⟩
  · rw [bytesToBigIntLE_scalarToBytes, F.val_natCast_of_lt hblinding]
  · exact (verifyNoteCommitment_iff hword _ pubkey _).mpr rfl

def sampleKey (b : UInt8) : List UInt8 := List.replicate 32 b

theorem output_recovered_iff_sample :
    Recovers smallPoseidon2 toyCipher (sampleKey 1) (List.replicate 24 0) (sampleKey 2) 7 (1000 : ℕ)
      (5 : ℕ) ↔
      1000 < 2 ^ 64 :=
  output_recovered_iff toyCipher_sound rfl rfl rfl 7 (by decide) (by decide)

/-- An amount of 2^64 is committed to, and comes back as nothing. -/
theorem large_amount_lost : 2 ^ 64 < 2 ^ 248 ∧ 5 < bn256Modulus ∧ toyCipher.Sound ∧
    ¬ Recovers smallPoseidon2 toyCipher (sampleKey 1) (List.replicate 24 0) (sampleKey 2) 7
      (2 ^ 64 : ℕ) (5 : ℕ) := by
  refine ⟨by decide, by decide, toyCipher_sound, fun h => ?_⟩
  have hlt := h.amount_lt toyCipher_sound rfl rfl rfl (by decide) (by decide)
  exact absurd hlt (lt_irrefl _)

end Enclave.App

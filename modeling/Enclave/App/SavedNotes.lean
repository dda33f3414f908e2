import Enclave.App.NoteScanner

/-! # The writers of the notes store

The scanner, the pages of `app/js/ui/transactions` and `depositForOrg` save notes.  All keep the
key as text of little-endian bytes; the blinding is text of big-endian bytes for some and of
little-endian bytes for others (`Writer.bigEndian`). -/

namespace Enclave.App

open Prover Js

variable (numberText : ℤ → String)

/-- What the deposit page saves of an output; `numberText` is `String(Number(amount))`. -/
def depositParams (outputNote : OutputNote) (privKeyBytes : List UInt8) (leafIndex ledger : ℕ)
    (owner : String) : Result SaveParams := do
  let commitment ← fieldToHex outputNote.commitmentBytes
  let blinding ← toBigInt (bigIntToString outputNote.blinding)
  let blindingBytes ← bigintToField blinding
  let blinding ← fieldToHex blindingBytes
  return {
    commitment, leafIndex, ledger
    privateKey := .bytes privKeyBytes
    blinding := .text blinding
    amount := numberText outputNote.amount
    owner := some owner
    isReceived := false }

/-- What the transaction page saves of an output to oneself. -/
def transactParams (outputNote : OutputNote) (privKeyBytes : List UInt8) (leafIndex ledger : ℕ)
    (owner : String) : Result SaveParams := do
  let commitment ← fieldToHex outputNote.commitmentBytes
  let blinding ← fieldToHex outputNote.blindingBytes
  return {
    commitment, leafIndex, ledger
    privateKey := .bytes privKeyBytes
    blinding := .text blinding
    amount := numberText outputNote.amount
    owner := some owner
    isReceived := false }

/-- What the transfer page saves of a change output. -/
def transferParams (outputNote : OutputNote) (privKeyBytes : List UInt8) (leafIndex ledger : ℕ) :
    Result SaveParams := do
  let commitment ← fieldToHex outputNote.commitmentBytes
  return {
    commitment, leafIndex, ledger
    privateKey := .bytes privKeyBytes
    blinding := .bytes outputNote.blindingBytes
    amount := numberText outputNote.amount
    owner := none
    isReceived := false }

/-- What `depositForOrg` saves of an output. -/
def depositForOrgParams (outputNote : OutputNote) (privKeyBytes : List UInt8) (leafIndex : ℕ)
    (adminAddress : String) : Result SaveParams := do
  let blinding ← bigintToField outputNote.blinding
  return {
    commitment := hex64 outputNote.commitmentBig
    privateKey := .bytes privKeyBytes
    blinding := .bytes blinding
    amount := bigIntToString outputNote.amount
    leafIndex
    ledger := 0
    owner := some adminAddress
    isReceived := false }

def keypairOf (P : Poseidon2) (sk : F) : Keypair :=
  ⟨scalarToBytes (Circuits.publicKey P sk), scalarToBytes sk⟩

/-- Where notes are saved. -/
inductive Writer where
  | scanner
  | deposit
  | transact
  | transfer
  | depositForOrg
deriving DecidableEq

/-- What a writer saves of an output of its owner; the scanner has it from its ciphertext. -/
def Writer.params (writer : Writer) (outputNote : OutputNote) (keypair : Keypair)
    (leafIndex ledger : ℕ) (owner : String) : Result SaveParams :=
  match writer with
  | .scanner => discoveredParams keypair ⟨outputNote.amount, outputNote.blindingBytes⟩
      ⟨hex64 outputNote.commitmentBig, leafIndex, "", ledger⟩
  | .deposit => depositParams numberText outputNote keypair.privateKey leafIndex ledger owner
  | .transact => transactParams numberText outputNote keypair.privateKey leafIndex ledger owner
  | .transfer => transferParams numberText outputNote keypair.privateKey leafIndex ledger
  | .depositForOrg => depositForOrgParams outputNote keypair.privateKey leafIndex owner

/-- The text of a blinding has the highest byte first. -/
def Writer.bigEndian : Writer → Bool
  | .transfer | .depositForOrg => false
  | _ => true

/-- The amount as a writer stores it. -/
def Writer.amountText (writer : Writer) (amount : ℤ) : String :=
  match writer with
  | .scanner | .depositForOrg => bigIntToString amount
  | _ => numberText amount

/-- The text of a field element, in either order. -/
def fieldText (bigEndian : Bool) (x : F) : String :=
  if bigEndian then hex64 x.val else bytesToHex (scalarToBytes x)

variable {P : Poseidon2}

theorem normalizeHex_hex64 {n : ℕ} (h : n < 2 ^ 256) : normalizeHex (hex64 n) = hex64 n := by
  rw [hex64_natCast h, normalizeHex_bytesToHex]

/-- **What is saved** of an output. -/
theorem Writer.exists_params (writer : Writer) {amount : ℕ} {blinding pubkey : F}
    {outputNote : OutputNote} (hamount : amount < 2 ^ 256)
    (houtput : createOutput P amount (scalarToBytes pubkey) blinding.val = .ok outputNote)
    (keypair : Keypair) (leafIndex ledger : ℕ) (owner : String) :
    ∃ params, writer.params numberText outputNote keypair leafIndex ledger owner = .ok params ∧
      params.commitment = hex64 (Circuits.commitment P amount pubkey blinding).val ∧
      params.privateKey = .bytes keypair.privateKey ∧
      toHex params.blinding = fieldText writer.bigEndian blinding ∧
      params.amount = writer.amountText numberText amount ∧ params.leafIndex = leafIndex := by
  rw [createOutput_natCast hamount (F.val_lt_word blinding), F.natCast_val] at houtput
  obtain rfl := Except.ok.inj houtput
  have hbig : toBigInt (bigIntToString (blinding.val : ℤ)) = .ok (blinding.val : ℤ) := by
    rw [toBigInt, bigInt_bigIntToString]
    rfl
  have htext : normalizeHex (hex64 blinding.val) = hex64 blinding.val :=
    normalizeHex_hex64 (F.val_lt_word blinding)
  cases writer with
  | scanner =>
      simp only [Writer.params, discoveredParams, fieldToHex_scalarToBytes, Result.ok_bind]
      exact ⟨_, rfl, rfl, rfl, htext, rfl, rfl⟩
  | deposit =>
      simp only [Writer.params, depositParams, fieldToHex_scalarToBytes, hbig, bigintToField_val,
        Result.ok_bind]
      exact ⟨_, rfl, rfl, rfl, htext, rfl, rfl⟩
  | transact =>
      simp only [Writer.params, transactParams, fieldToHex_scalarToBytes, Result.ok_bind]
      exact ⟨_, rfl, rfl, rfl, htext, rfl, rfl⟩
  | transfer =>
      simp only [Writer.params, transferParams, fieldToHex_scalarToBytes, Result.ok_bind]
      exact ⟨_, rfl, rfl, rfl, rfl, rfl, rfl⟩
  | depositForOrg =>
      simp only [Writer.params, depositForOrgParams, bigintToField_val, Result.ok_bind]
      exact ⟨_, rfl, rfl, rfl, rfl, rfl, rfl⟩

end Enclave.App

import Enclave.App.TransactionBuilder

/-! # The note scanner

`app/js/state/note-scanner.js`: stored outputs are tried with the keys of the connected account, and
unspent notes are checked against the nullifiers that the pool has published.  Which signatures the
user approves is an input. -/

namespace Enclave.App

open Prover Js

/-- An error of JavaScript. -/
def ofError {α : Type} : Except String α → Result α := Except.mapError .error

/-! ### Commitments -/

variable (P : Poseidon2)

/-- The comparison of `verifyNoteCommitment`. -/
def commitmentMatches (decrypted : NoteData) (notePublicKey : List UInt8)
    (expectedCommitment : String) : Result Bool := do
  let amountBytes ← bigintToField decrypted.amount
  if amountBytes.length ≠ 32 ∨ notePublicKey.length ≠ 32 ∨ decrypted.blinding.length ≠ 32 then
    return false
  else do
    let computed ← computeCommitment P amountBytes notePublicKey decrypted.blinding
    let computedHex ← fieldToHex computed
    return noteId computedHex = noteId expectedCommitment

/-- `verifyNoteCommitment`; an exception counts as a mismatch. -/
def verifyNoteCommitment (decrypted : NoteData) (notePublicKey : List UInt8)
    (expectedCommitment : String) : Bool :=
  (commitmentMatches P decrypted notePublicKey expectedCommitment).toOption.getD false

/-! ### Scanning -/

variable (k : Crypto)

/-- `tryDecryptNote`. -/
def tryDecryptNote (encryptedOutput : String) (approves : Bool) :
    WalletTask (Option NoteData) :=
  tryCatch (do
    let encrypted ← Wasm.ofResult (ofError (hexToBytes encryptedOutput))
    if encrypted.length < 112 then return none
    else
      match ← getUserEncryptionKeypair k approves with
      | none => return none
      | some keypair => return decryptNoteData k.cipher keypair.privateKey encrypted)
    fun _ => return none

/-- `ScanResult`. -/
structure ScanResult where
  scanned : ℕ
  found : ℕ
  notes : List UserNote
  alreadyKnown : ℕ

structure ScanOptions where
  fromLedger : Option ℕ
  fullRescan : Bool

/-- The signatures that the user approves in a scan: for the note keypair, and for the encryption
keypair at each output. -/
structure Approvals where
  spending : Bool
  encryption : ℕ → Bool

/-- What the scanner saves of a note that it has discovered. -/
def discoveredParams (noteKeypair : Keypair) (decrypted : NoteData)
    (output : PoolEncryptedOutput) : Result SaveParams := do
  let blinding ← fieldToHex decrypted.blinding
  return {
    commitment := output.commitment
    privateKey := .bytes noteKeypair.privateKey
    blinding := .text blinding
    amount := bigIntToString decrypted.amount
    leafIndex := output.index
    ledger := output.ledger
    owner := none
    isReceived := true }

/-- The loop of `scanForNotes`, for one output. -/
def scanOutput (noteKeypair : Keypair) (approves : Bool) (output : PoolEncryptedOutput)
    (result : ScanResult) : WalletTask ScanResult := do
  let result := { result with scanned := result.scanned + 1 }
  if ((← get).getNoteByCommitment output.commitment).isSome then
    return { result with alreadyKnown := result.alreadyKnown + 1 }
  else
    match ← tryDecryptNote k output.encryptedOutput approves with
    | none => return result
    | some decrypted =>
        if decrypted.amount = 0 then return result
        else if !verifyNoteCommitment k.poseidon2 decrypted noteKeypair.publicKey
            output.commitment then return result
        else if ((← get).getNoteByCommitment output.commitment).isSome then
          return { result with alreadyKnown := result.alreadyKnown + 1 }
        else do
          let params ← Wasm.ofResult (discoveredParams noteKeypair decrypted output)
          let note ← saveNote params
          return { result with notes := result.notes ++ [note], found := result.found + 1 }

/-- The loop of `scanForNotes`, from the `i`-th output on. -/
def scanOutputs (noteKeypair : Keypair) (approves : ℕ → Bool) :
    ℕ → List PoolEncryptedOutput → ScanResult → WalletTask ScanResult
  | _, [], result => return result
  | i, output :: rest, result => do
      let result ← scanOutput k noteKeypair (approves i) output result
      scanOutputs noteKeypair approves (i + 1) rest result

/-- `getEncryptedOutputs`. -/
def PoolStore.getEncryptedOutputs (s : PoolStore) :
    Option ℕ → List PoolEncryptedOutput
  | none => s.poolEncryptedOutputs.records
  | some fromLedger => s.poolEncryptedOutputs.records.filter fun o => o.ledger ≥ fromLedger

def startLedger (options : ScanOptions) (w : Wallet) : ℕ :=
  if options.fullRescan then 0 else options.fromLedger.getD w.lastScannedLedger

def outputsToScan (options : ScanOptions) (w : Wallet) : List PoolEncryptedOutput :=
  w.pool.getEncryptedOutputs
    (if startLedger options w > 0 then some (startLedger options w) else none)

/-- `scanForNotes`. -/
def scanForNotes (options : ScanOptions) (approvals : Approvals) : WalletTask ScanResult := do
  match ← getUserNoteKeypair k approvals.spending with
  | none => return ⟨0, 0, [], 0⟩
  | some noteKeypair => do
      let _ ← Wasm.ofResult (fieldToHex noteKeypair.publicKey)
      let outputs := outputsToScan options (← get)
      let result ← scanOutputs k noteKeypair approvals.encryption 0 outputs ⟨0, 0, [], 0⟩
      modify fun w => { w with
        lastScannedLedger := (outputs.map PoolEncryptedOutput.ledger).foldl max w.lastScannedLedger }
      return result

/-- The first argument of `scanForNotes`. -/
inductive ScanArgument where
  | options (options : ScanOptions)
  | bytes (b : List UInt8)

/-- The options that are read from it: bytes have no such properties. -/
def ScanArgument.toOptions : ScanArgument → ScanOptions
  | .options o => o
  | .bytes _ => ⟨none, false⟩

/-- `StateManager.scanForNotes`, once it is initialized; its second argument goes to a parameter
that does not exist. -/
def stateManagerScanForNotes (privateKey : List UInt8) (_options : ScanOptions)
    (approvals : Approvals) : WalletTask ScanResult :=
  scanForNotes k (ScanArgument.bytes privateKey).toOptions approvals

/-! ### Spent notes -/

/-- `deriveNullifierForNote`. -/
def deriveNullifierForNote (privateKey commitment : List UInt8) (leafIndex : ℕ) :
    Result (List UInt8) := do
  let pathIndicesBytes ← bigintToField leafIndex
  let signature ← computeSignature P privateKey commitment pathIndicesBytes
  computeNullifier P commitment pathIndicesBytes signature

/-- The text of a note's nullifier; `none` if the note is skipped. -/
def spentNullifierHex (note : UserNote) : Result (Option String) :=
  if note.privateKey = "" ∨ note.privateKey = "0x" ∨ (codeUnits note.privateKey).length < 66 then
    return none
  else do
    let privateKeyBytes ← hexToFieldBytes note.privateKey
    let commitmentBytes ← hexToFieldBytes note.id
    if privateKeyBytes.length ≠ 32 ∨ commitmentBytes.length ≠ 32 then return none
    else do
      let nullifier ← deriveNullifierForNote P privateKeyBytes commitmentBytes note.leafIndex
      return some (bytesToHex nullifier)

/-- The loop of `checkSpentNotes`, for one note; what throws is caught. -/
def checkSpentNote (note : UserNote) (w : Wallet) : Wallet :=
  match spentNullifierHex P note with
  | .ok (some nullifierHex) =>
      match w.pool.poolNullifiers.get (normalizeHex nullifierHex) with
      | some record => markNoteSpent note.id record.ledger w
      | none => w
  | _ => w

/-- `checkSpentNotes`. -/
def checkSpentNotes (w : Wallet) : Wallet :=
  w.getUnspentNotes.foldl (fun w note => checkSpentNote P note w) w

/-! ### Commitments of field elements -/

variable {P}

/-- **A commitment** is accepted exactly if it is that of the note. -/
theorem verifyNoteCommitment_iff {amount : ℕ} (hamount : amount < 2 ^ 256) (blinding pubkey x : F) :
    verifyNoteCommitment P ⟨amount, scalarToBytes blinding⟩ (scalarToBytes pubkey)
      (hex64 x.val) = true ↔ Circuits.commitment P amount pubkey blinding = x := by
  have hmatch : commitmentMatches P ⟨amount, scalarToBytes blinding⟩ (scalarToBytes pubkey)
      (hex64 x.val) = .ok (decide (noteId (hex64 (Circuits.commitment P amount pubkey blinding).val)
        = noteId (hex64 x.val))) := by
    simp only [commitmentMatches, bigintToField_natCast hamount, Result.ok_bind,
      length_scalarToBytes, computeCommitment_scalarToBytes, fieldToHex_scalarToBytes]
    rfl
  rw [verifyNoteCommitment, hmatch, Except.toOption, Option.getD_some, decide_eq_true_iff,
    noteId_hex64 (F.val_lt_word _),
    noteId_hex64 (F.val_lt_word _)]
  constructor
  · intro h
    exact F.val_injective (hex64_injective (F.val_lt_word _) (F.val_lt_word _) h)
  · rintro rfl
    rfl

end Enclave.App

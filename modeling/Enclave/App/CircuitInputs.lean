import Enclave.App.PoolMirror
import Enclave.App.TransactionBuilder
import Enclave.ExtDataHash
import Enclave.PublicAmount

/-! # The inputs of the circuit

`buildTransactionInputs` and the calls over it in `app/js/transaction-builder.js`: stored notes and
dummies are spent, outputs are created and encrypted, the data of the two policy checks is put
together, and all of it becomes the decimal texts that the prover is given.

What is drawn at random is a parameter (`Draws`), and so are the answers of the state manager, the
packages and the prover. -/

namespace Enclave.App

open Prover Js Stellar
open Facilitator (ExtDataLike)

/-- `SMT_LEVELS`. -/
def smtDepth : ℕ := 10

/-- A function that throws. -/
def ofThrown {α : Type} : Except String α → Result α
  | .ok a => .ok a
  | .error message => .error (.error message)

/-- `bytesToBigIntStringLE`. -/
def bytesToBigIntStringLE (bytes : List UInt8) : String := (bytesToBigIntLE bytes).repr

/-- `sliceFieldElements`. -/
def sliceFieldElements (bytes : List UInt8) (count : ℕ) : List String :=
  (List.range count).map fun i => bytesToBigIntStringLE ((bytes.drop (i * 32)).take 32)

/-- The random values of a call, by where they are drawn: `generateBlinding` gives the bytes of a
field element. -/
structure Draws where
  changeBlinding : ℕ → F
  paddingBlinding : ℕ → F
  dummyInputBlinding : ℕ → F
  dummyOutputBlinding : ℕ → F
  ephemeral : ℕ → List UInt8
  nonce : ℕ → List UInt8

variable (P : Poseidon2) (c : Cipher) (k : Keccak) (sdk : Sdk) (draws : Draws)

/-! ### Inputs -/

/-- An input of the circuit, dummy or not. -/
structure SpentNote where
  amount : ℤ
  blinding : ℤ
  nullifierBig : ℕ
  pathIndices : String
  pathElements : List String
  isDummy : Bool

/-- `createDummyInput`. -/
def createDummyInput (privKeyBytes pubKeyBytes : List UInt8) (blinding : ℤ) : Result SpentNote := do
  let amount := 0
  let amountBytes ← bigintToField amount
  let blindingBytes ← bigintToField blinding
  let pathIndicesBytes ← bigintToField 0
  let commitment ← computeCommitment P amountBytes pubKeyBytes blindingBytes
  let signature ← computeSignature P privKeyBytes commitment pathIndicesBytes
  let nullifier ← computeNullifier P commitment pathIndicesBytes signature
  return {
    amount, blinding
    nullifierBig := bytesToBigIntLE nullifier
    pathIndices := "0"
    pathElements := List.replicate treeDepth "0"
    isDummy := true }

/-- What the circuit takes of a real input. -/
def InputNote.spent (realInput : InputNote) : SpentNote where
  amount := realInput.amount
  blinding := realInput.blinding
  nullifierBig := realInput.nullifierBig
  pathIndices := realInput.pathIndices
  pathElements := sliceFieldElements realInput.pathElements treeDepth
  isDummy := false

/-- A note to spend, with its Merkle proof. -/
abbrev NoteToSpend := UserNote × Option PoolMerkleProof

/-- The loop over the notes to spend. -/
def createRealInputs (privKeyBytes pubKeyBytes : List UInt8) :
    List NoteToSpend → Result (List SpentNote)
  | [] => .ok []
  | (input, none) :: _ =>
      .error (.error s!"Input note at index {input.leafIndex} is missing merkle proof")
  | (input, some merkleProof) :: rest => do
      let realInput ← createRealInput P privKeyBytes pubKeyBytes input merkleProof
      let notes ← createRealInputs privKeyBytes pubKeyBytes rest
      return realInput.spent :: notes

/-- Dummies up to two inputs. -/
def createDummyInputs (privKeyBytes pubKeyBytes : List UInt8) : ℕ → Result (List SpentNote)
  | 0 => .ok []
  | n + 1 => do
      let blinding := bytesToBigIntLE (scalarToBytes (draws.dummyInputBlinding n))
      let dummy ← createDummyInput P privKeyBytes pubKeyBytes blinding
      let notes ← createDummyInputs privKeyBytes pubKeyBytes n
      return dummy :: notes

/-- `inputNotes`: two dummies if there is nothing to spend, one if there is one note. -/
def createInputs (privKeyBytes pubKeyBytes : List UInt8) (inputs : List NoteToSpend) :
    Result (List SpentNote) := do
  let notes ← createRealInputs P privKeyBytes pubKeyBytes inputs
  let dummies ← createDummyInputs P draws privKeyBytes pubKeyBytes (2 - notes.length)
  return notes ++ dummies

/-! ### Outputs -/

/-- An output that is asked for; its keys default to the sender's. -/
structure Payout where
  amount : ℤ
  blinding : ℤ
  recipientNoteKey : Option (List UInt8) := none
  recipientPubKey : Option (List UInt8) := none
  recipientEncryptionKey : Option (List UInt8) := none
  recipientEncryptionPubKey : Option (List UInt8) := none

/-- An output and the key it is encrypted for. -/
structure AddressedOutput where
  note : OutputNote
  encryptionKey : List UInt8

/-- The loop over the outputs. -/
def createPayouts (pubKeyBytes encryptionPubKey : List UInt8) :
    List Payout → Result (List AddressedOutput)
  | [] => .ok []
  | out :: rest => do
      let recipientPubKey := (out.recipientNoteKey.orElse fun _ => out.recipientPubKey).getD pubKeyBytes
      let recipientEncKey := (out.recipientEncryptionKey.orElse fun _ =>
        out.recipientEncryptionPubKey).getD encryptionPubKey
      let note ← createOutput P out.amount recipientPubKey out.blinding
      let notes ← createPayouts pubKeyBytes encryptionPubKey rest
      return ⟨note, recipientEncKey⟩ :: notes

/-- Dummies up to two outputs. -/
def createDummyOutputs (pubKeyBytes encryptionPubKey : List UInt8) :
    ℕ → Result (List AddressedOutput)
  | 0 => .ok []
  | n + 1 => do
      let dummyBlinding := bytesToBigIntLE (scalarToBytes (draws.dummyOutputBlinding n))
      let note ← createOutput P 0 pubKeyBytes dummyBlinding
      let notes ← createDummyOutputs pubKeyBytes encryptionPubKey n
      return ⟨note, encryptionPubKey⟩ :: notes

/-- `outputNotes` with `outputEncryptionKeys`. -/
def createOutputs (pubKeyBytes encryptionPubKey : List UInt8) (outputs : List Payout) :
    Result (List AddressedOutput) := do
  let notes ← createPayouts P pubKeyBytes encryptionPubKey outputs
  let dummies ← createDummyOutputs P draws pubKeyBytes encryptionPubKey (2 - notes.length)
  return notes ++ dummies

/-! ### The policy checks -/

/-- A sibling of a fetched proof: bytes, or what `toString` makes of another value. -/
inductive Sibling where
  | bytes (b : List UInt8)
  | other (text : String)

def Sibling.text : Sibling → String
  | bytes b => bytesToBigIntStringLE b
  | other text => text

/-- `SMTNonMembershipProof`. -/
structure SMTNonMembershipProof where
  root : List UInt8
  siblings : Option (List Sibling)
  notFoundKey : Option (List UInt8)
  notFoundValue : Option (List UInt8)
  isOld0 : Bool

/-- What `getASPNonMembershipProof` answers. -/
structure NonMembershipResult where
  success : Bool
  error : String
  keyExists : Bool
  proof : Option SMTNonMembershipProof

/-- The answers of the state manager; `none` of a membership leaf or proof is `null`.  Of a leaf
its index is read. -/
structure StateManager where
  findASPMembershipLeaf : String → Except String (Option ℕ)
  getASPMembershipProof : ℕ → Except String (Option Prover.MerkleProof)
  getASPNonMembershipProof : List UInt8 → Except String NonMembershipResult

/-- What `buildMembershipProofData` returns. -/
structure MembershipProofData where
  leaf : String
  blinding : String
  pathIndices : String
  pathElements : List String
  root : String

/-- The index of the user's leaf: the one that is found, or the hint.  That the leaf is not found
is logged, and an error of the search is. -/
def membershipLeafIndex (stateManager : Option StateManager) (leafHex : String)
    (leafIndexHint : ℕ) : ℕ :=
  match stateManager with
  | none => leafIndexHint
  | some sm =>
      match sm.findASPMembershipLeaf leafHex with
      | .ok (some index) => index
      | _ => leafIndexHint

def syncedProof (stateManager : Option StateManager) (leafIndex : ℕ) :
    Result (Option Prover.MerkleProof) :=
  match stateManager with
  | none => .ok none
  | some sm => ofThrown (sm.getASPMembershipProof leafIndex)

/-- The loop of the local tree from the position `i` on. -/
def insertLocal (leafIndex : ℕ) (membershipLeaf zeroLeaf : List UInt8) :
    ℕ → ℕ → Wasm Prover.MerkleTree Unit
  | 0, _ => pure ()
  | n + 1, i => do
      let _ ← MerkleTree.insert 32 P (if i = leafIndex then membershipLeaf else zeroLeaf)
      insertLocal leafIndex membershipLeaf zeroLeaf n (i + 1)

/-- The proof of the local tree, which holds the user's leaf and no other. -/
def localProof (leafIndex : ℕ) (membershipLeaf : List UInt8) : Result Prover.MerkleProof := do
  let zeroLeaf ← hexToFieldBytes getZeroLeafHex
  let tree ← MerkleTree.newWithZeroLeaf 32 P treeDepth zeroLeaf
  let inserted := (insertLocal P leafIndex membershipLeaf zeroLeaf (1 <<< treeDepth) 0).exec tree
  let _ ← inserted.1
  let proof ← MerkleTree.getProof 32 inserted.2 leafIndex
  let root ← MerkleTree.root inserted.2
  return { proof with root }

/-- `buildMembershipProofData`; a root that is not the expected one is logged. -/
def buildMembershipProofData (pubKeyBytes : List UInt8) (membershipRoot : ℤ) (leafIndexHint : ℕ)
    (membershipBlinding : ℤ) (stateManager : Option StateManager) : Result MembershipProofData := do
  let membershipBlindingBytes ← bigintToField membershipBlinding
  let membershipLeaf ← Prover.poseidon2Hash2 P pubKeyBytes membershipBlindingBytes 1
  let leafHex ← fieldToHex membershipLeaf
  let leafIndex := membershipLeafIndex stateManager leafHex leafIndexHint
  let synced ← syncedProof stateManager leafIndex
  let proof ← (synced.filter fun p => (bytesToBigIntLE p.root : ℤ) = membershipRoot).elim
    (localProof P leafIndex membershipLeaf) .ok
  return {
    leaf := bytesToBigIntStringLE membershipLeaf
    blinding := bigIntToString membershipBlinding
    pathIndices := bytesToBigIntStringLE proof.pathIndices
    pathElements := sliceFieldElements proof.pathElements treeDepth
    root := bytesToBigIntStringLE proof.root }

/-- What `buildNonMembershipProofDataFromChain` returns. -/
structure NonMembershipProofData where
  key : String
  oldKey : String
  oldValue : String
  isOld0 : String
  siblings : List String
  root : String

/-- Bytes that may be missing. -/
def textOr0 (bytes : Option (List UInt8)) : String := bytes.elim "0" bytesToBigIntStringLE

/-- `buildNonMembershipProofDataFromChain`. -/
def buildNonMembershipProofDataFromChain (pubKeyBytes : List UInt8) (stateManager : StateManager)
    (nonMembershipRoot : ℤ) : Result NonMembershipProofData :=
  if nonMembershipRoot = 0 then
    .ok {
      key := bytesToBigIntStringLE pubKeyBytes
      oldKey := "0"
      oldValue := "0"
      isOld0 := "1"
      siblings := List.replicate smtDepth "0"
      root := "0" }
  else do
    let result ← ofThrown (stateManager.getASPNonMembershipProof pubKeyBytes)
    if !result.success then
      .error (.error s!"Failed to get non-membership proof: {result.error}")
    else if result.keyExists then
      .error (.error "Key exists in non-membership tree (user is sanctioned)")
    else
      match result.proof with
      | none => .error (.error "TypeError")
      | some proof =>
          let siblings := (proof.siblings.getD []).map Sibling.text
          -- padded or trimmed
          let siblings := siblings.take smtDepth ++ List.replicate (smtDepth - siblings.length) "0"
          return {
            key := bytesToBigIntStringLE pubKeyBytes
            oldKey := textOr0 proof.notFoundKey
            oldValue := textOr0 proof.notFoundValue
            isOld0 := if proof.isOld0 then "1" else "0"
            siblings
            root := bytesToBigIntStringLE proof.root }

/-! ### The transaction -/

/-- What a call takes whatever it is for. -/
structure CallParams where
  privKeyBytes : List UInt8
  encryptionPubKey : List UInt8
  poolRoot : ℤ
  membershipRoot : ℤ
  nonMembershipRoot : ℤ
  stateManager : Option StateManager
  membershipLeafIndex : ℕ := 0
  membershipBlinding : ℤ := 0

/-- The parameters of `buildTransactionInputs`. -/
structure TransactionParams extends CallParams where
  inputs : List NoteToSpend
  outputs : List Payout
  recipient : String
  extAmount : ℤ

/-- `circuitInputs`: texts. -/
structure CircuitInputs where
  root : String
  publicAmount : String
  extDataHash : String
  inputNullifier : List String
  outputCommitment : List String
  inAmount : List String
  inPrivateKey : List String
  inBlinding : List String
  inPathIndices : List String
  inPathElements : List (List String)
  outAmount : List String
  outPubkey : List String
  outBlinding : List String
  membershipRoots : List (List String)
  nonMembershipRoots : List (List String)
  membershipProofs : List (List MembershipProofData)
  nonMembershipProofs : List (List NonMembershipProofData)

/-- What `buildTransactionInputs` returns. -/
structure TransactionInputs where
  circuitInputs : CircuitInputs
  inputNotes : List SpentNote
  outputNotes : List OutputNote
  extData : ExtDataLike
  extDataHash : ExtDataHash

/-- `circuitInputs` of notes and proofs. -/
def circuitInputsOf (params : TransactionParams) (inputNotes : List SpentNote)
    (outputNotes : List OutputNote) (extDataHash : ExtDataHash)
    (membershipProofData : MembershipProofData)
    (nonMembershipProofData : NonMembershipProofData) : CircuitInputs where
  root := bigIntToString params.poolRoot
  publicAmount := bigIntToString (toFieldElement params.extAmount)
  extDataHash := extDataHash.bigInt.repr
  inputNullifier := inputNotes.map fun n => n.nullifierBig.repr
  outputCommitment := outputNotes.map fun n => n.commitmentBig.repr
  inAmount := inputNotes.map fun n => bigIntToString n.amount
  inPrivateKey := inputNotes.map fun _ => (bytesToBigIntLE params.privKeyBytes).repr
  inBlinding := inputNotes.map fun n => bigIntToString n.blinding
  inPathIndices := inputNotes.map fun n => n.pathIndices
  inPathElements := inputNotes.map fun n => n.pathElements
  outAmount := outputNotes.map fun n => bigIntToString n.amount
  outPubkey := outputNotes.map fun n => bytesToBigIntStringLE n.pubKeyBytes
  outBlinding := outputNotes.map fun n => bigIntToString n.blinding
  membershipRoots := inputNotes.map fun _ => [membershipProofData.root]
  nonMembershipRoots := inputNotes.map fun _ => [nonMembershipProofData.root]
  membershipProofs := inputNotes.map fun _ => [membershipProofData]
  nonMembershipProofs := inputNotes.map fun _ => [nonMembershipProofData]

/-- The encryption of the output at a position. -/
def encryptOutputAt (outputs : List AddressedOutput) (i : ℕ) : Result (List UInt8) :=
  match outputs[i]? with
  | none => .error (.error "TypeError")
  | some out => encryptOutput c (draws.ephemeral i) (draws.nonce i) out.note out.encryptionKey

/-- `buildTransactionInputs`. -/
def buildTransactionInputs (params : TransactionParams) : Result TransactionInputs := do
  let pubKeyBytes ← derivePublicKey P params.privKeyBytes
  let inputNotes ← createInputs P draws params.privKeyBytes pubKeyBytes params.inputs
  let outputs ← createOutputs P draws pubKeyBytes params.encryptionPubKey params.outputs
  let encryptedOutput0 ← encryptOutputAt c draws outputs 0
  let encryptedOutput1 ← encryptOutputAt c draws outputs 1
  let extData : ExtDataLike :=
    ⟨params.recipient, params.extAmount, encryptedOutput0, encryptedOutput1⟩
  let extDataHash ← ofThrown (hashExtData k sdk extData)
  let membershipProofData ← buildMembershipProofData P pubKeyBytes params.membershipRoot
    params.membershipLeafIndex params.membershipBlinding params.stateManager
  let stateManager ← params.stateManager.elim
    (.error (.error "[TxBuilder] No state manager provided. Unable to build non-membership proof."))
    .ok
  let nonMembershipProofData ← buildNonMembershipProofDataFromChain pubKeyBytes stateManager
    params.nonMembershipRoot
  let outputNotes := outputs.map AddressedOutput.note
  return {
    circuitInputs := circuitInputsOf params inputNotes outputNotes extDataHash membershipProofData
      nonMembershipProofData
    inputNotes, outputNotes, extData, extDataHash }

/-! ### What was built -/

section built

variable {P c k sdk draws} {params : TransactionParams} {built : TransactionInputs}

structure BuiltOf (P : Poseidon2) (k : Keccak) (sdk : Sdk) (draws : Draws)
    (params : TransactionParams) (built : TransactionInputs) (pub : List UInt8)
    (outs : List AddressedOutput) (m : MembershipProofData) (n : NonMembershipProofData)
    (sm : StateManager) : Prop where
  publicKey : derivePublicKey P params.privKeyBytes = .ok pub
  inputs : createInputs P draws params.privKeyBytes pub params.inputs = .ok built.inputNotes
  outputs : createOutputs P draws pub params.encryptionPubKey params.outputs = .ok outs
  outputNotes : built.outputNotes = outs.map AddressedOutput.note
  extDataHash : hashExtData k sdk built.extData = .ok built.extDataHash
  membership : buildMembershipProofData P pub params.membershipRoot params.membershipLeafIndex
    params.membershipBlinding params.stateManager = .ok m
  stateManager : params.stateManager = some sm
  nonMembership : buildNonMembershipProofDataFromChain pub sm params.nonMembershipRoot = .ok n
  circuitInputs : built.circuitInputs =
    circuitInputsOf params built.inputNotes built.outputNotes built.extDataHash m n

theorem ofThrown_apply {α : Type} (a : α) : ofThrown (.ok a) = .ok a := rfl

theorem ofThrown_ok {α : Type} {m : Except String α} {a : α} (h : ofThrown m = .ok a) :
    m = .ok a := by
  cases m with
  | error e => cases h
  | ok b => exact congrArg Except.ok (Except.ok.inj h)

/-- **What `buildTransactionInputs` has done.** -/
theorem buildTransactionInputs_ok
    (h : buildTransactionInputs P c k sdk draws params = .ok built) :
    ∃ pub outs m n sm, BuiltOf P k sdk draws params built pub outs m n sm := by
  obtain ⟨pub, hpub, h⟩ := Result.bind_eq_ok.mp h
  obtain ⟨notes, hnotes, h⟩ := Result.bind_eq_ok.mp h
  obtain ⟨outs, houts, h⟩ := Result.bind_eq_ok.mp h
  obtain ⟨e₀, -, h⟩ := Result.bind_eq_ok.mp h
  obtain ⟨e₁, -, h⟩ := Result.bind_eq_ok.mp h
  obtain ⟨hash, hhash, h⟩ := Result.bind_eq_ok.mp h
  obtain ⟨m, hm, h⟩ := Result.bind_eq_ok.mp h
  obtain ⟨sm, hsm, h⟩ := Result.bind_eq_ok.mp h
  obtain ⟨n, hn, h⟩ := Result.bind_eq_ok.mp h
  cases h
  have hsome : params.stateManager = some sm := by
    cases hmanager : params.stateManager with
    | none =>
        rw [hmanager] at hsm
        cases hsm
    | some sm' =>
        rw [hmanager] at hsm
        exact congrArg some (Except.ok.inj hsm)
  exact ⟨pub, outs, m, n, sm, hpub, hnotes, houts, rfl, ofThrown_ok hhash, hm, hsome, hn, rfl⟩

end built

/-! ### The proof -/

/-- What `ProverClient.prove` returns. -/
structure ProveResult where
  proof : List UInt8
  publicInputs : List UInt8

/-- The prover: its initialization, if it is not ready yet, and `prove`. -/
structure ProverClient where
  initializeProver : Result Unit
  prove : CircuitInputs → Result ProveResult

/-- `sorobanProof`. -/
structure SorobanProof where
  proof : List UInt8 × List UInt8 × List UInt8
  root : ℤ
  input_nullifiers : List ℕ
  output_commitment0 : ℕ
  output_commitment1 : ℕ
  public_amount : ℤ
  ext_data_hash : List UInt8
  asp_membership_root : ℤ
  asp_non_membership_root : ℤ

/-- What `generateTransactionProof` returns. -/
structure TransactionProof extends TransactionInputs where
  sorobanProof : SorobanProof
  publicInputs : List UInt8

/-- `sorobanProof` of what was built and proved. -/
def sorobanProofOf (params : TransactionParams) (built : TransactionInputs) (proof : List UInt8)
    (output0 output1 : OutputNote) : SorobanProof where
  proof := (proof.take 64, (proof.drop 64).take 128, proof.drop 192)
  root := params.poolRoot
  input_nullifiers := built.inputNotes.map SpentNote.nullifierBig
  output_commitment0 := output0.commitmentBig
  output_commitment1 := output1.commitmentBig
  public_amount := toFieldElement params.extAmount
  ext_data_hash := built.extDataHash.bytes
  asp_membership_root := params.membershipRoot
  asp_non_membership_root := params.nonMembershipRoot

variable (prover : ProverClient)

/-- `generateTransactionProof`. -/
def generateTransactionProof (params : TransactionParams) : Result TransactionProof := do
  prover.initializeProver
  let built ← buildTransactionInputs P c k sdk draws params
  let proved ← prover.prove built.circuitInputs
  match built.outputNotes with
  | output0 :: output1 :: _ =>
      return {
        built with
        sorobanProof := sorobanProofOf params built proved.proof output0 output1
        publicInputs := proved.publicInputs }
  | _ => .error (.error "TypeError")

variable {P c k sdk draws prover} in
/-- **What `generateTransactionProof` has done.** -/
theorem generateTransactionProof_ok {params : TransactionParams} {proof : TransactionProof}
    (h : generateTransactionProof P c k sdk draws prover params = .ok proof) :
    ∃ built proved output0 output1 rest,
      buildTransactionInputs P c k sdk draws params = .ok built ∧
      prover.prove built.circuitInputs = .ok proved ∧
      built.outputNotes = output0 :: output1 :: rest ∧ proof.toTransactionInputs = built ∧
      proof.sorobanProof = sorobanProofOf params built proved.proof output0 output1 := by
  obtain ⟨-, -, h⟩ := Result.bind_eq_ok.mp h
  obtain ⟨built, hbuilt, h⟩ := Result.bind_eq_ok.mp h
  obtain ⟨proved, hproved, h⟩ := Result.bind_eq_ok.mp h
  split at h
  · rename_i output0 output1 rest houtputs
    cases h
    exact ⟨built, proved, output0, output1, rest, hbuilt, hproved, houtputs, rfl, rfl⟩
  · cases h

/-! ### Withdrawals and transfers -/

def inputTotal : List NoteToSpend → Result ℤ
  | [] => .ok 0
  | (n, _) :: rest => do
      let amount ← toBigInt n.amount
      let sum ← inputTotal rest
      return amount + sum

def outputTotal (outputs : List Payout) : ℤ := (outputs.map Payout.amount).sum

/-- The parameters of `generateWithdrawProof`. -/
structure WithdrawParams extends CallParams where
  inputNotes : List NoteToSpend
  recipient : String
  withdrawAmount : ℤ
  changeOutputs : List Payout := []

/-- What `generateWithdrawProof` hands on. -/
def withdrawTransaction (params : WithdrawParams) : Result TransactionParams := do
  let inputTotal ← inputTotal params.inputNotes
  let change := inputTotal - params.withdrawAmount
  if change < 0 then
    .error (.error s!"Insufficient input amount: have {inputTotal}, need {params.withdrawAmount}")
  else
    let blinding i : ℤ := bytesToBigIntLE (scalarToBytes (draws.changeBlinding i))
    let outputs := if params.changeOutputs.isEmpty then
      [{ amount := change, blinding := blinding 0 }, { amount := 0, blinding := blinding 1 }]
      else params.changeOutputs
    return {
      params.toCallParams with
      inputs := params.inputNotes, outputs, recipient := params.recipient
      extAmount := -params.withdrawAmount }

/-- `generateWithdrawProof`. -/
def generateWithdrawProof (params : WithdrawParams) : Result TransactionProof := do
  let transaction ← withdrawTransaction draws params
  generateTransactionProof P c k sdk draws prover transaction

/-- The parameters of `generateTransferProof`. -/
structure TransferParams extends CallParams where
  inputNotes : List NoteToSpend
  recipientPubKey : Option (List UInt8)
  recipientEncryptionPubKey : Option (List UInt8)
  recipientOutputs : List Payout
  changeOutputs : List Payout := []
  poolAddress : String

/-- What `generateTransferProof` hands on. -/
def transferTransaction (params : TransferParams) : Result TransactionParams := do
  let inputTotal ← inputTotal params.inputNotes
  let recipientTotal := outputTotal params.recipientOutputs
  let changeTotal := outputTotal params.changeOutputs
  if inputTotal ≠ recipientTotal + changeTotal then
    .error (.error s!"Transfer amounts don't balance: inputs={inputTotal}, outputs={recipientTotal + changeTotal}")
  else
    let outputs := params.recipientOutputs.map (fun o => { o with
      recipientPubKey := params.recipientPubKey
      recipientEncryptionPubKey := params.recipientEncryptionPubKey }) ++ params.changeOutputs
    let padding := (List.range (2 - outputs.length)).map fun i =>
      ({ amount := 0, blinding := bytesToBigIntLE (scalarToBytes (draws.paddingBlinding i)) } : Payout)
    let outputs := outputs ++ padding
    if outputs.length > 2 then
      .error (.error s!"Transfer supports max 2 outputs, got {outputs.length}")
    else
      return {
        params.toCallParams with
        inputs := params.inputNotes, outputs, recipient := params.poolAddress, extAmount := 0 }

/-- `generateTransferProof`. -/
def generateTransferProof (params : TransferParams) : Result TransactionProof := do
  let transaction ← transferTransaction draws params
  generateTransactionProof P c k sdk draws prover transaction

end Enclave.App

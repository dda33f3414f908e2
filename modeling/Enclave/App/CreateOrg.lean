import Enclave.App.AspMembershipStore
import Enclave.App.Enrollment
import Enclave.App.NotesStore
import Enclave.AspMembership.Contract

/-! # Making an organisation

`createOrg` of `app/js/enclave/org.js`, and `exportEnclaveNotes` of `notes-export.js`, which uses
the index of its row.  The membership leaf goes into the contract, where others insert too; what
comes back from the SDK is searched for the index, and without one the rows of the browser's own
registry are counted.

`World` is the contract, the registry and the calls of `createOrg` in progress; these wait for the
wallet, the network and the database, and anything can happen in between (`OrgEvent`). -/

namespace Enclave.App

open Prover Js

/-! ### Rows -/

/-- A row of `enclave_orgs` as `createOrg` writes it; its index is `none` for `NaN`. -/
structure CreatedOrg extends EnclaveOrg where
  orgSpendingPubKey : String
  aspLeaf : String
  aspLeafIndex : Option ℕ
  createdAt : String
  deployTxHash : Native

/-- `STORES.enclave_orgs`; the index by organisation is unique. -/
def orgsSchema : StoreSchema CreatedOrg String String where
  keyPath row := row.adminAddress
  uniqueIndexes := [fun row => row.orgId]

abbrev Orgs := ObjectStore orgsSchema

/-- `putOrg`, of a row that has every required field. -/
def putOrg (orgs : Orgs) (row : CreatedOrg) : Result Orgs :=
  match orgs.get row.adminAddress with
  | some existing => .error (.error (s!"putOrg: adminAddress {row.adminAddress} already owns org " ++
      s!"'{existing.orgId}' (created {existing.createdAt})"))
  | none =>
      match orgs.put row with
      | some orgs => .ok orgs
      | none => .error (.error "ConstraintError")

/-- `deriveOrgId`; an address is ASCII text. -/
def deriveOrgId (adminAddress : String) (orgSpendingPubKey : List UInt8) : Result String := do
  let pubHex ← fieldToHex orgSpendingPubKey
  let suffix := (strip0x (codeUnits pubHex)).take 8
  let adminShort := toLowerCase (String.ofList ((codeUnits adminAddress).take 6))
  return s!"org-{adminShort}-{String.ofList suffix}"

/-! ### The index -/

section Sent

-- `Number` of a text, `none` for `NaN`
variable (number : String → Option ℤ)

/-- `Number(value)`. -/
def Native.toNumber : Native → Option ℤ
  | .undefined => none
  | .number n => some n
  | .bigint n => some n
  | v => number v.toText

/-- `a || b`. -/
def Native.orElse (a b : Native) : Native := if a.truthy then a else b

/-- The index that a return value is. -/
def returnedIndex (rv : Native) : Option ℤ :=
  match rv with
  | .undefined => none
  | .bigint n => some n
  | .number n => some n
  | rv => (number rv.toText).filter (0 ≤ ·)

/-- A topic speaks of a leaf. -/
def mentionsLeafAdded (topics : Native) : Bool :=
  match topics with
  | .array topics => topics.any fun t => decide ("LeafAdded".toList <:+: t.toText.toList)
  | _ => false

/-- The loop over the events. -/
def eventIndex : List Native → Option (Option ℤ)
  | [] => none
  | ev :: rest =>
      if mentionsLeafAdded (ev.prop "topics") then
        let data := (ev.prop "data").orElse (ev.prop "body")
        match data.prop "index" with
        | .undefined => eventIndex rest
        | index => some (index.toNumber number)
      else eventIndex rest

/-- `extractLeafAddedIndex`; `none` is `NaN`. -/
def extractLeafAddedIndex (sent : Native) : Option ℤ :=
  match returnedIndex number (sent.prop "returnValue") with
  | some n => some n
  | none =>
      let txMeta := (((sent.prop "sendTransactionResponse").prop "resultMetaXdr").orElse
        (sent.prop "resultMetaXdr")).orElse (sent.prop "result_meta_xdr")
      match txMeta.prop "events" with
      | .array events => (eventIndex number events).getD (some (-1))
      | _ => some (-1)

/-- The index that `createOrg` stores. -/
def chosenIndex (sent : Native) (orgs : Orgs) : Option ℕ :=
  match extractLeafAddedIndex number sent with
  | none => none
  | some n => if n < 0 then some orgs.records.length else some n.toNat

end Sent

/-- `deployTxHash`. -/
def deployTxHash (sent : Native) : Native :=
  (((sent.prop "sendTransactionResponse").prop "hash").orElse (sent.prop "hash")).orElse
    (.string "unknown")

/-! ### Calls -/

variable (P : Poseidon2)

/-- What `createOrg` is asked for; what is not given is empty. -/
structure OrgParams where
  adminAddress : String
  aspMembership : String
  signerOptions : Bool

/-- How far a call has come.  `index` is the one under which the contract inserted the leaf. -/
inductive OrgStage where
  | started
  | inserted (index : ℕ) (sent : Native)
  | indexed (index : ℕ) (sent : Native) (aspLeafIndex : Option ℕ)
  | stored (index : ℕ) (row : CreatedOrg)
  | failed

/-- A call of `createOrg` that passed its guards, with the keys that the wallet's signatures gave. -/
structure OrgCall where
  adminAddress : String
  keys : SessionKeys P
  stage : OrgStage

/-- The contract, the registry of the browser, and the calls made in it. -/
structure World where
  contract : Env AspMembership.Store
  orgs : Orgs
  calls : List (OrgCall P)

variable {P}

/-- The guards of `createOrg`. -/
def checkCreateOrg (orgs : Orgs) (params : OrgParams) : Result Unit :=
  if params.adminAddress = "" then .error (.error "createOrg: adminAddress required")
  else if params.aspMembership = "" then
    .error (.error "createOrg: deployments.asp_membership missing")
  else if params.signerOptions = false then .error (.error "createOrg: signerOptions required")
  else
    match orgs.get params.adminAddress with
    | some existing => .error (.error (s!"This account already owns {existing.orgId} " ++
        s!"(created {existing.createdAt}). Switch to a different Freighter account in the " ++
        "extension to create a new org."))
    | none => .ok ()

def createdRow (call : OrgCall P) (sent : Native) (aspLeafIndex : Option ℕ) (createdAt : String) :
    Result CreatedOrg := do
  let aspLeafBytes ← computeEnclaveAspLeaf P call.keys.orgSpendingPubKey
  let aspLeafHex ← fieldToHex aspLeafBytes
  let orgId ← deriveOrgId call.adminAddress call.keys.orgSpendingPubKey
  let orgSpendingPubKey ← fieldToHex call.keys.orgSpendingPubKey
  return ⟨⟨call.adminAddress, orgId⟩, orgSpendingPubKey, aspLeafHex, aspLeafIndex, createdAt,
    deployTxHash sent⟩

/-- A transaction on the membership contract. -/
inductive ContractCall where
  | insertLeaf (auths : List Address) (leaf : U256)
  | updateAdmin (auths : List Address) (newAdmin : Address)
  | setAdminInsertOnly (auths : List Address) (adminOnly : Bool)

def ContractCall.call (P : Poseidon2) : ContractCall → AspMembership.Call Unit
  | .insertLeaf auths leaf => AspMembership.insertLeaf P auths leaf
  | .updateAdmin auths newAdmin => AspMembership.updateAdmin auths newAdmin
  | .setAdminInsertOnly auths adminOnly => AspMembership.setAdminInsertOnly auths adminOnly

/-- What can happen next: a transaction of anyone, a new call of `createOrg`, or a step of one. -/
inductive OrgEvent (P : Poseidon2) where
  | transact (call : ContractCall)
  | createOrg (params : OrgParams) (keys : SessionKeys P)
  | insertLeaf (i : ℕ) (auths : List Address) (hash : String)
  | readIndex (i : ℕ)
  | putOrg (i : ℕ) (createdAt : String)

/-- `signAndSend`: what it resolves to for the hash and the event of a transaction. -/
abbrev SignAndSend := String → AspMembership.Event → Native

namespace World

/-- A call goes on. -/
def setStage (w : World P) (i : ℕ) (stage : OrgStage) : World P :=
  { w with calls := w.calls.modify i fun call => { call with stage := stage } }

def insertLeaf (signAndSend : SignAndSend) (w : World P) (i : ℕ) (call : OrgCall P)
    (auths : List Address) (hash : String) : World P :=
  match computeEnclaveAspLeaf P call.keys.orgSpendingPubKey with
  | .error _ => w.setStage i .failed
  | .ok aspLeafBytes =>
      match AspMembership.insertLeaf P auths (bytesToBigIntLE aspLeafBytes) w.contract with
      | .error _ => w.setStage i .failed
      | .ok ((), env) =>
          match env.store.events.getLast? with
          | some (.leafAdded leaf index root) =>
              { w with contract := env }.setStage i
                (.inserted index (signAndSend hash (.leafAdded leaf index root)))
          | none => w.setStage i .failed

def putOrg (w : World P) (i : ℕ) (call : OrgCall P) (index : ℕ) (sent : Native)
    (aspLeafIndex : Option ℕ) (createdAt : String) : World P :=
  match createdRow call sent aspLeafIndex createdAt with
  | .error _ => w.setStage i .failed
  | .ok row =>
      match App.putOrg w.orgs row with
      | .error _ => w.setStage i .failed
      | .ok orgs => { w with orgs := orgs }.setStage i (.stored index row)

def step (number : String → Option ℤ) (signAndSend : SignAndSend) (w : World P) :
    OrgEvent P → World P
  | .transact call => { w with contract := Host.after (call.call P) w.contract }
  | .createOrg params keys =>
      match checkCreateOrg w.orgs params with
      | .error _ => w
      | .ok () => { w with calls := w.calls ++ [⟨params.adminAddress, keys, .started⟩] }
  | .insertLeaf i auths hash =>
      match w.calls[i]? with
      | some ⟨adminAddress, keys, .started⟩ =>
          w.insertLeaf signAndSend i ⟨adminAddress, keys, .started⟩ auths hash
      | _ => w
  | .readIndex i =>
      match w.calls[i]? with
      | some ⟨_, _, .inserted index sent⟩ =>
          w.setStage i (.indexed index sent (chosenIndex number sent w.orgs))
      | _ => w
  | .putOrg i createdAt =>
      match w.calls[i]? with
      | some ⟨adminAddress, keys, .indexed index sent aspLeafIndex⟩ =>
          w.putOrg i ⟨adminAddress, keys, .indexed index sent aspLeafIndex⟩ index sent
            aspLeafIndex createdAt
      | _ => w

def run (number : String → Option ℤ) (signAndSend : SignAndSend) (w : World P)
    (events : List (OrgEvent P)) : World P := events.foldl (step number signAndSend) w

end World

/-! ### The export -/

/-- `BN254_MODULUS` and `modField` of a big integer. -/
def modField (v : ℤ) : ℕ := (v % bn256Modulus).toNat

/-- `modField` of a text, as text again. -/
def modFieldText (s : String) : Result String :=
  match bigInt s with
  | some v => .ok (modField v).repr
  | none => .error (.error "SyntaxError")

/-- `sliceFieldElementsDecimal`. -/
def sliceFieldElementsDecimal (bytes : List UInt8) (count : ℕ) : List String :=
  (List.range count).map fun i => (bytesToBigIntLE ((bytes.drop (i * 32)).take 32)).repr

/-- `getMerkleProof` of a live tree; a failure is logged, and is `null`. -/
def getMerkleProof (merkleTree : Option Prover.MerkleTree) (leafIndex : ℕ) :
    Option Prover.MerkleProof :=
  match merkleTree with
  | none => none
  | some tree =>
      if leafIndex ≥ tree.nextIndex then none
      else (Prover.MerkleTree.getProof 32 tree leafIndex).toOption

/-- A note for an agent. -/
structure ExportedNote where
  commitment : String
  nullifier : String
  amount : String
  blinding : String
  pathElements : List String
  pathIndex : String
  aspLeaf : String
  aspPathElements : List String
  aspPathIndex : String
deriving DecidableEq

/-- What `exportEnclaveNotes` reads: the notes, the live tree of the pool, the tags, and the copy of
the membership tree. -/
structure ExportSource where
  wallet : Wallet
  noteTags : NoteTags
  asp : AspMembershipStore

/-- `toLowerCase().replace(/^0x/, '')`. -/
def commitmentKey (s : String) : List Char := strip0x (codeUnits (toLowerCase s))

/-- `hexToBytes` of the module, where every pair is parsed for itself. -/
def parseHexPairs : List Char → List UInt8
  | a :: b :: rest => toUint8 (parseInt16 [a, b]) :: parseHexPairs rest
  | _ => []

def proofText (proof : Prover.MerkleProof) (depth : ℕ) : Result (List String × String) := do
  let elements ← (sliceFieldElementsDecimal proof.pathElements depth).mapM modFieldText
  return (elements, (modField (bytesToBigIntLE proof.pathIndices)).repr)

/-- `modField(tag.nullifier).toString()`. -/
def tagNullifier (tag : NoteTag) : Result String :=
  match tag.nullifier with
  | some nullifier => modFieldText nullifier
  | none => .error (.error "TypeError")

/-- The body of the loop over the notes; a note of another organisation is skipped. -/
def exportNote (source : ExportSource) (tags : List NoteTag) (aspLeaf : String)
    (asp : List String × String) (depth : ℕ) (note : UserNote) : Result (List ExportedNote) := do
  if note.spent then return []
  else
    match tags.reverse.find? fun tag => commitmentKey tag.commitment = commitmentKey note.id with
    | none => return []
    | some tag =>
        match getMerkleProof source.wallet.pool.merkleTree note.leafIndex with
        | none => return []
        | some poolProof => do
            let (pathElements, pathIndex) ← proofText poolProof depth
            let commitment ← modFieldText
              (if (codeUnits note.id).take 2 = ['0', 'x'] then note.id else "0x" ++ note.id)
            let blinding := (modField (bytesToBigIntLE
              (parseHexPairs (strip0x (codeUnits note.blinding))))).repr
            let nullifier ← tagNullifier tag
            return [{ commitment, nullifier, amount := note.amount, blinding, pathElements, pathIndex,
                      aspLeaf, aspPathElements := asp.1, aspPathIndex := asp.2 }]

/-- `exportEnclaveNotes`, after its sync: the notes of the file. -/
def exportEnclaveNotes (P : Poseidon2) (source : ExportSource) (ownerAddress orgId : String)
    (orgSpendingPubKey : List UInt8) (aspLeafIndex : ℕ) : Result (List ExportedNote) := do
  if ownerAddress = "" then throw (.error "exportEnclaveNotes: ownerAddress required")
  else if orgId = "" then throw (.error "exportEnclaveNotes: orgId required")
  else do
    let userNotes := source.wallet.userNotes.records.filter fun note => note.owner = ownerAddress
    let tags := source.noteTags.listNoteTags orgId
    let aspLeafBytes ← computeEnclaveAspLeaf P orgSpendingPubKey
    let aspLeaf := (modField (bytesToBigIntLE aspLeafBytes)).repr
    match getMerkleProof source.asp.merkleTree aspLeafIndex with
    | none => throw (.error s!"ASP membership proof unavailable for leaf index {aspLeafIndex}")
    | some aspProof => do
        let asp ← proofText aspProof treeDepth
        let notes ← userNotes.mapM (exportNote source tags aspLeaf asp treeDepth)
        return notes.flatten

end Enclave.App

import Enclave.App.Values
import Enclave.Lib.ObjectStore
import Enclave.MerkleAgreement

/-! # The app's copy of the pool

`app/js/state/pool-store.js` over the stores of `app/js/state/db.js`.  Events of the pool become
records, and every commitment goes into the live Merkle tree; `rebuildTree` makes the tree anew
from the records.  A function that throws keeps what it has written.

`pool_leaves` has a unique index on the commitment and `pool_encrypted_outputs` is keyed by it,
while the pool takes one commitment as often as it comes: the copy mirrors the contract exactly if
no commitment comes twice (`pool_store_mirrors_iff`). -/

namespace Enclave.App

open Prover Pool

/-! ### Records -/

/-- A record of `pool_leaves`. -/
structure PoolLeaf where
  index : ℕ
  commitment : String
  ledger : ℕ
deriving DecidableEq

/-- A record of `pool_nullifiers`. -/
structure PoolNullifier where
  nullifier : String
  ledger : ℕ
deriving DecidableEq

/-- A record of `pool_encrypted_outputs`. -/
structure PoolEncryptedOutput where
  commitment : String
  index : ℕ
  encryptedOutput : String
  ledger : ℕ
deriving DecidableEq

/-- `STORES.pool_leaves`. -/
def poolLeavesSchema : StoreSchema PoolLeaf ℕ String where
  keyPath := PoolLeaf.index
  uniqueIndexes := [PoolLeaf.commitment]

/-- `STORES.pool_nullifiers`. -/
def poolNullifiersSchema : StoreSchema PoolNullifier String String where
  keyPath := PoolNullifier.nullifier
  uniqueIndexes := []

/-- `STORES.pool_encrypted_outputs`; the index by ledger is not unique. -/
def poolEncryptedOutputsSchema : StoreSchema PoolEncryptedOutput String String where
  keyPath := PoolEncryptedOutput.commitment
  uniqueIndexes := []

/-- The stores of the pool and the live tree. -/
structure PoolStore where
  poolLeaves : ObjectStore poolLeavesSchema
  poolNullifiers : ObjectStore poolNullifiersSchema
  poolEncryptedOutputs : ObjectStore poolEncryptedOutputsSchema
  merkleTree : Option Prover.MerkleTree

/-- An empty database, before `init`. -/
def PoolStore.blank : PoolStore := ⟨.empty, .empty, .empty, none⟩

/-- Functions of the module. -/
abbrev Task (α : Type) := Wasm PoolStore α

/-- A pure function that may throw. -/
def ofJs {α : Type} : Except String α → Task α
  | .ok a => pure a
  | .error message => throw (.error message)

/-! ### Events -/

/-- `await db.put(storeName, value)`. -/
def dbPut {ρ κ : Type} [LinearOrder κ] {schema : StoreSchema ρ κ String}
    (store : PoolStore → ObjectStore schema)
    (setStore : ObjectStore schema → PoolStore → PoolStore) (value : ρ) : Task Unit := do
  match (store (← get)).put value with
  | some records => modify (setStore records)
  | none => throw (.error "ConstraintError")

/-- `Number(event.index)`; the index of an event is a `u32`. -/
def Native.toIndex : Native → Option ℕ
  | .number n => some n
  | .bigint n => some n.toNat
  | _ => none

def encryptedOutputText : Native → Except String String
  | .string s => .ok s
  | .bytes b => .ok (bytesToHex b)
  | _ => .error "TypeError"

variable (P : Poseidon2)

/-- `merkleTree.insert`, if there is a tree.  `usize` has 32 bits. -/
def insertIntoTree (commitment : String) : Task Unit := do
  match (← get).merkleTree with
  | none => pure ()
  | some tree => do
      let commitmentBytes ← ofJs (hexToBytesForTree commitment)
      let result := (MerkleTree.insert 32 P commitmentBytes).exec tree
      modify fun s => { s with merkleTree := some result.2 }
      Wasm.ofResult (result.1.map fun _ => ())

/-- `processNewCommitment`. -/
def processNewCommitment (commitment index encryptedOutput : Native) (ledger : ℕ) :
    Task Unit := do
  let commitment ← ofJs (normalizeU256ToHex commitment)
  match index.toIndex with
  | none => throw (.error "DataError")
  | some index => do
      dbPut PoolStore.poolLeaves (fun t s => { s with poolLeaves := t })
        ⟨index, commitment, ledger⟩
      let encryptedOutput ← ofJs (encryptedOutputText encryptedOutput)
      dbPut PoolStore.poolEncryptedOutputs (fun t s => { s with poolEncryptedOutputs := t })
        ⟨commitment, index, encryptedOutput, ledger⟩
      insertIntoTree P commitment

/-- `processNewNullifier`. -/
def processNewNullifier (nullifier : Native) (ledger : ℕ) : Task Unit := do
  let nullifier ← ofJs (normalizeU256ToHex nullifier)
  dbPut PoolStore.poolNullifiers (fun t s => { s with poolNullifiers := t }) ⟨nullifier, ledger⟩

/-- The type of an event is one of the names. -/
def isNamed (eventType : Native) (names : List String) : Bool :=
  match eventType with
  | .string s => names.contains s
  | _ => false

/-- What `processEvents` returns. -/
structure EventCounts where
  commitments : ℕ
  nullifiers : ℕ
deriving DecidableEq

/-- `processEvents`. -/
def processEvents : List NativeEvent → Task EventCounts
  | [] => pure ⟨0, 0⟩
  | event :: rest => do
      let eventType := event.topicAt 0
      if isNamed eventType ["NewCommitmentEvent", "new_commitment_event", "new_commitment"] then do
        processNewCommitment P (event.topicAt 1) (event.value.prop "index")
          (event.value.prop "encrypted_output") event.ledger
        let counts ← processEvents rest
        return { counts with commitments := counts.commitments + 1 }
      else if isNamed eventType ["NewNullifierEvent", "new_nullifier_event", "new_nullifier"] then do
        processNewNullifier (event.topicAt 1) event.ledger
        let counts ← processEvents rest
        return { counts with nullifiers := counts.nullifiers + 1 }
      else processEvents rest

/-! ### The tree -/

/-- `ZERO_LEAF_BYTES`. -/
def zeroLeafBytes : List UInt8 :=
  [37, 48, 34, 136, 219, 153, 53, 3, 68, 151, 65, 131, 206, 49, 13, 99, 181, 58, 187, 158, 240,
    248, 87, 87, 83, 238, 211, 110, 1, 24, 249, 206]

/-- `getZeroLeafHex`. -/
def getZeroLeafHex : String := bytesToHex zeroLeafBytes

/-- `db.iterate`: a callback that throws aborts the transaction. -/
def iterate {σ : Type} (callbacks : Wasm σ Unit) : Wasm σ Unit :=
  tryCatch callbacks fun _ => throw (.error "AbortError")

/-- The loop of `rebuildTree` over the records, in the order of their indices. -/
def insertStored : List PoolLeaf → Task Unit
  | [] => pure ()
  | leaf :: rest => do
      insertIntoTree P leaf.commitment
      insertStored rest

/-- `rebuildTree`: the number of leaves. -/
def rebuildTree : Task ℕ := do
  let zeroLeaf ← ofJs (hexToBytesForTree getZeroLeafHex)
  let tree ← Wasm.ofResult (MerkleTree.newWithZeroLeaf 32 P treeDepth zeroLeaf)
  modify fun s => { s with merkleTree := some tree }
  let leaves := (← get).poolLeaves.records
  iterate (insertStored P leaves)
  return leaves.length

/-- `getRoot`. -/
def PoolStore.getRoot (s : PoolStore) : Option (Result (List UInt8)) :=
  s.merkleTree.map Prover.MerkleTree.root

end Enclave.App

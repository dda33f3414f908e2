import Enclave.App.PoolStore
import Enclave.Prover.MerkleProofs

/-! # The app's copy of the membership tree

`app/js/state/asp-membership-store.js`.  A `LeafAdded` event becomes a record under its index, and
its leaf goes into the live Merkle tree; `init` makes the tree anew from the records, and rejects at
a gap between them.

The record is written before its index is compared with the next one of the tree. -/

namespace Enclave.App

open Prover Prover.MerkleTree

/-! ### Records -/

/-- A record of `asp_membership_leaves`. -/
structure AspLeaf where
  index : ℕ
  leaf : String
  root : String
  ledger : ℕ
deriving DecidableEq

/-- `STORES.asp_membership_leaves`; leaves can repeat, so their index is not unique. -/
def aspMembershipLeavesSchema : StoreSchema AspLeaf ℕ String where
  keyPath := AspLeaf.index
  uniqueIndexes := []

/-- The store and the live tree. -/
structure AspMembershipStore where
  leaves : ObjectStore aspMembershipLeavesSchema
  merkleTree : Option Prover.MerkleTree

namespace AspMembershipStore

/-- Functions of the module. -/
abbrev Task (α : Type) := Wasm AspMembershipStore α

/-- A pure function that may throw. -/
def ofJs {α : Type} : Except String α → Task α
  | .ok a => pure a
  | .error message => throw (.error message)

/-! ### Events -/

/-- An event, taken apart; its index is `none` for `NaN`. -/
structure LeafEvent where
  leaf : Native
  index : Option ℕ
  root : Native
  ledger : ℕ

variable (P : Poseidon2)

/-- `merkleTree.insert`, in its place of the order. -/
def insertInOrder (tree : Prover.MerkleTree) (index : ℕ) (leaf : String) : Task Unit := do
  let nextIdx := tree.nextIndex
  if index ≠ nextIdx then throw (.error s!"Out-of-order insertion: expected {nextIdx}, got {index}")
  else do
    let leafBytes ← ofJs (hexToBytesForTree leaf)
    let result := (MerkleTree.insert 32 P leafBytes).exec tree
    modify fun s => { s with merkleTree := some result.2 }
    let _ ← Wasm.ofResult result.1
    -- the roots are compared, and a difference is logged
    let _ ← Wasm.ofResult (MerkleTree.root result.2)

/-- `processLeafAdded`. -/
def processLeafAdded (event : LeafEvent) : Task Unit := do
  let leaf ← ofJs (normalizeU256ToHex event.leaf)
  let root ← ofJs (normalizeU256ToHex event.root)
  match event.index with
  | none => throw (.error "DataError")
  | some index => do
      modify fun s => { s with leaves := s.leaves.putPlain rfl ⟨index, leaf, root, event.ledger⟩ }
      match (← get).merkleTree with
      | none => pure ()
      | some tree => insertInOrder P tree index leaf

/-- The topic of a leaf. -/
def isLeafAdded (topic : Native) : Bool :=
  match topic with
  | .string s => s = "LeafAdded" || s = "leaf_added" || decide ("LeafAdded".toList <:+: s.toList)
  | _ => false

/-- An event of the filter, mapped. -/
def toLeafEvent (event : NativeEvent) : LeafEvent :=
  ⟨event.value.prop "leaf", (event.value.prop "index").toIndex, event.value.prop "root",
    event.ledger⟩

/-- `a.index - b.index` is not positive; a `NaN` counts as no difference. -/
def LeafEvent.le (a b : LeafEvent) : Bool :=
  match a.index, b.index with
  | some i, some j => i ≤ j
  | _, _ => true

/-- `leafEvents`. -/
def leafEvents (events : List NativeEvent) : List LeafEvent :=
  ((events.filter fun e => isLeafAdded (e.topicAt 0)).map toLeafEvent).mergeSort LeafEvent.le

/-- The loop of `processEvents`. -/
def processEach (nextIdx : ℕ) : List LeafEvent → Task ℕ
  | [] => pure 0
  | event :: rest =>
      if event.index.any (· < nextIdx) then processEach nextIdx rest
      else do
        processLeafAdded P event
        let count ← processEach nextIdx rest
        return count + 1

def nextIdx (s : AspMembershipStore) : ℕ := s.merkleTree.elim 0 Prover.MerkleTree.nextIndex

/-- `processEvents`: the number of leaves. -/
def processEvents (events : List NativeEvent) : Task ℕ := do
  let s ← get
  processEach P s.nextIdx (leafEvents events)

/-! ### Initialization -/

/-- The loop of `init` over the records, in the order of their indices. -/
def insertStored : ℕ → List AspLeaf → Task Unit
  | _, [] => pure ()
  | expectedIndex, leaf :: rest => do
      if leaf.index ≠ expectedIndex then
        throw (.error "[ASPMembershipStore] Gap in leaf indices, aborting init")
      else do
        let leafBytes ← ofJs (hexToBytesForTree leaf.leaf)
        match (← get).merkleTree with
        | none => throw (.error "TypeError")
        | some tree => do
            let result := (MerkleTree.insert 32 P leafBytes).exec tree
            modify fun s => { s with merkleTree := some result.2 }
            let _ ← Wasm.ofResult result.1
            insertStored (leaf.index + 1) rest

/-- `init`: the number of leaves. -/
def init : Task ℕ := do
  let zeroLeafLE ← ofJs (hexToBytesForTree getZeroLeafHex)
  let tree ← Wasm.ofResult (MerkleTree.newWithZeroLeaf 32 P treeDepth zeroLeafLE)
  modify fun s => { s with merkleTree := some tree }
  let leaves := (← get).leaves.records
  iterate (insertStored P 0 leaves)
  return leaves.length

end AspMembershipStore

end Enclave.App

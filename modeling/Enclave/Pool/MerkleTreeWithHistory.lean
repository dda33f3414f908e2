import Enclave.Frontier

/-! # The pool's Merkle tree with history

`contracts/pool/src/merkle_with_history.rs`: leaves come in pairs, so the stored entries start at
level 1; the last 90 roots are kept in a ring. -/

namespace Enclave.Pool

/-- `ROOT_HISTORY_SIZE`. -/
def rootHistorySize : ℕ := 90

/-- Errors of the tree. -/
inductive MerkleError where
  | alreadyInitialized
  | wrongLevels
  | merkleTreeFull
  | nextIndexNotEven
  | notInitialized
deriving DecidableEq, Repr

/-- Persistent storage (`MerkleDataKey`). -/
structure MerkleStore where
  levels : Option ℕ
  currentRootIndex : Option ℕ
  nextIndex : Option ℕ
  filledSubtree : ℕ → Option U256
  zeroes : ℕ → Option U256
  root : ℕ → Option U256

namespace MerkleTreeWithHistory

abbrev Call (α : Type) := Host MerkleStore MerkleError α

/-- The storage before initialisation. -/
def blank : MerkleStore where
  levels := none
  currentRootIndex := none
  nextIndex := none
  filledSubtree := fun _ => none
  zeroes := fun _ => none
  root := fun _ => none

/-- `FilledSubtree` and `Zeroes`, with `NotInitialized` for a missing entry. -/
def keys : FrontierKeys MerkleStore MerkleError where
  filled := MerkleStore.filledSubtree
  setFilled g s := { s with filledSubtree := g }
  zeroes := MerkleStore.zeroes
  setZeroes g s := { s with zeroes := g }
  get := Host.okOr .notInitialized

/-- `init`. -/
def init (levels : ℕ) : Call Unit := do
  if levels = 0 ∨ levels > 32 then Host.fail .wrongLevels
  else if (← Host.getStore).currentRootIndex.isSome then Host.fail .alreadyInitialized
  else do
    Host.modifyStore fun s => { s with levels := some levels }
    keys.initLevels (List.range (levels + 1))
    let root0 ← Host.okOr .notInitialized getZeroes[levels]?
    Host.modifyStore fun s => { s with
      root := Function.update s.root 0 (some root0)
      currentRootIndex := some 0
      nextIndex := some 0 }

/-- `1u64.checked_shl`. -/
def checkedShl (levels : ℕ) : Option ℕ := if levels < 64 then some (2 ^ levels) else none

/-- `insert_two_leaves`. -/
def insertTwoLeaves (P : Poseidon2) (leaf1 leaf2 : U256) : Call (ℕ × ℕ) := do
  let store ← Host.getStore
  let levels ← Host.okOr .notInitialized store.levels
  let nextIndex ← Host.okOr .notInitialized store.nextIndex
  let rootIndex ← Host.okOr .notInitialized store.currentRootIndex
  let maxLeaves ← Host.okOr .wrongLevels (checkedShl levels)
  if nextIndex % 2 ≠ 0 then Host.fail .nextIndexNotEven
  else if nextIndex + 2 > maxLeaves then Host.fail .merkleTreeFull
  else do
    let currentHash ← poseidon2Compress P leaf1 leaf2
    let currentHash ← keys.insertLoop P (levels - 1) 1 (nextIndex / 2) currentHash
    let rootIndex := (rootIndex + 1) % rootHistorySize
    Host.modifyStore fun s => { s with
      root := Function.update s.root rootIndex (some currentHash)
      currentRootIndex := some rootIndex
      nextIndex := some (nextIndex + 2) }
    return (nextIndex % 2 ^ 32, (nextIndex + 1) % 2 ^ 32)

/-- The loop of `is_known_root` through the ring, from `i` until `currentRootIndex` comes again. -/
def searchRoots (roots : ℕ → Option U256) (root : U256) (currentRootIndex : ℕ) : ℕ → ℕ → Bool
  | 0, _ => false
  | fuel + 1, i =>
      if roots i = some root then true
      else
        let i := (i + 1) % rootHistorySize
        if i = currentRootIndex then false else searchRoots roots root currentRootIndex fuel i

/-- `is_known_root`. -/
def isKnownRoot (root : U256) : Call Bool := do
  if root = 0 then return false
  else do
    let store ← Host.getStore
    let currentRootIndex ← Host.okOr .notInitialized store.currentRootIndex
    return searchRoots store.root root currentRootIndex rootHistorySize currentRootIndex

/-- `get_last_root`. -/
def getLastRoot : Call U256 := do
  let store ← Host.getStore
  let currentRootIndex ← Host.okOr .notInitialized store.currentRootIndex
  Host.okOr .notInitialized (store.root currentRootIndex)

end MerkleTreeWithHistory

end Enclave.Pool

import Enclave.Prover.Serialization
import Enclave.Circuits.MerkleCore

/-! # The browser's Merkle tree

`MerkleTree` of the wasm prover crate: all nodes of all levels.  The width of `usize` is a
parameter.  A method that fails keeps what it has written so far (`Wasm`); the additions that
cannot overflow below 2³² leaves are plain additions here. -/

namespace Enclave.Prover

open Merkle

/-- Methods on `&mut self`: writes stay when the method fails. -/
abbrev Wasm (σ α : Type) := ExceptT (Fault String) (StateM σ) α

/-- A method run on a state: its result and the state it leaves. -/
def Wasm.exec {σ α : Type} (m : Wasm σ α) (s : σ) : Result α × σ := (m.run.run s).run

/-- The `?` operator on a result. -/
def Wasm.ofResult {σ α : Type} : Result α → Wasm σ α
  | .ok a => pure a
  | .error e => throw e

/-- `MerkleProof`: path elements as flat bytes, path indices as a single scalar. -/
structure MerkleProof where
  pathElements : List UInt8
  pathIndices : List UInt8
  root : List UInt8
  levels : ℕ

structure MerkleTree where
  levelsData : List (List F)
  depth : ℕ
  nextIndex : ℕ
deriving DecidableEq

namespace MerkleTree

variable (usizeBits : ℕ) (P : Poseidon2)

/-- The loop of `build_tree`: the next levels, from the size and hash of the last one. -/
def buildLevels : ℕ → ℕ → F → List (List F)
  | 0, _, _ => []
  | k + 1, currentLevelSize, prevHash =>
      let currentLevelSize := currentLevelSize / 2
      let prevHash := P.compress prevHash prevHash
      List.replicate currentLevelSize prevHash :: buildLevels k currentLevelSize prevHash

/-- `build_tree`. -/
def buildTree (depth : ℕ) (zero : F) : Result MerkleTree :=
  if depth = 0 ∨ depth > 32 then .error (.error "Depth must be between 1 and 32")
  else if depth ≥ usizeBits then
    .error (.error "Depth too large for this platform, would overflow")
  else
    .ok { levelsData :=
            List.replicate (2 ^ depth) zero :: buildLevels P depth (2 ^ depth) zero
          depth := depth
          nextIndex := 0 }

/-- `new_with_zero_leaf`. -/
def newWithZeroLeaf (depth : ℕ) (zeroLeafBytes : List UInt8) : Result MerkleTree := do
  let zero ← bytesToScalar zeroLeafBytes
  buildTree usizeBits P depth zero

/-- `self.levels_data[level][index]`. -/
def getNode (level index : ℕ) : Wasm MerkleTree F := do
  match (← get).levelsData[level]?.bind fun row => row[index]? with
  | some node => pure node
  | none => throw (.panic "index out of bounds")

/-- `self.levels_data[level][index] = node`. -/
def setNode (level index : ℕ) (node : F) : Wasm MerkleTree Unit := do
  match (← get).levelsData[level]? with
  | some row =>
      if index < row.length then
        modify fun tree => { tree with levelsData := tree.levelsData.set level (row.set index node) }
      else throw (.panic "index out of bounds")
  | none => throw (.panic "index out of bounds")

/-- The loop of `insert` over the next levels from `level` on. -/
def insertLoop : ℕ → ℕ → ℕ → F → Wasm MerkleTree Unit
  | 0, _, _, _ => pure ()
  | k + 1, level, currentIndex, currentHash => do
      let sibling ← getNode level (currentIndex ^^^ 1)
      let (left, right) :=
        if currentIndex % 2 = 0 then (currentHash, sibling) else (sibling, currentHash)
      let currentHash := P.compress left right
      setNode (level + 1) (currentIndex / 2) currentHash
      insertLoop k (level + 1) (currentIndex / 2) currentHash

/-- `insert`. -/
def insert (leafBytes : List UInt8) : Wasm MerkleTree ℕ := do
  let leaf ← Wasm.ofResult (bytesToScalar leafBytes)
  let tree ← get
  let index := tree.nextIndex
  if index ≥ 2 ^ tree.depth then throw (.error "Merkle tree is full")
  else if index ≥ 2 ^ usizeBits then throw (.error "Index too large")
  else do
    setNode 0 index leaf
    insertLoop P tree.depth 0 index leaf
    modify fun tree => { tree with nextIndex := tree.nextIndex + 1 }
    if index < 2 ^ 32 then return index
    else throw (.error "Index too large for u32")

/-- `root`. -/
def root (tree : MerkleTree) : Result (List UInt8) :=
  match tree.levelsData[tree.depth]?.bind fun row => row[0]? with
  | some root => .ok (scalarToBytes root)
  | none => .error (.panic "index out of bounds")

/-- The loop of `get_proof` over the next levels from `level` on. -/
def proofLoop (tree : MerkleTree) : ℕ → ℕ → ℕ → List UInt8 → ℕ → Result (List UInt8 × ℕ)
  | 0, _, _, pathElements, bits => .ok (pathElements, bits)
  | k + 1, level, currentIndex, pathElements, bits =>
      match tree.levelsData[level]?.bind fun row => row[currentIndex ^^^ 1]? with
      | none => .error (.panic "index out of bounds")
      | some sibling =>
          proofLoop tree k (level + 1) (currentIndex / 2) (pathElements ++ scalarToBytes sibling)
            (if currentIndex % 2 = 0 then bits else bits ||| 1 <<< level)

/-- `get_proof`. -/
def getProof (tree : MerkleTree) (index : ℕ) : Result MerkleProof :=
  if index ≥ 2 ^ usizeBits then .error (.error "Index too large")
  else if index ≥ 2 ^ tree.depth then .error (.error "Index out of bounds")
  else do
    let (pathElements, bits) ← proofLoop tree tree.depth 0 index [] 0
    let root ← root tree
    return { pathElements, pathIndices := scalarToBytes (bits : F), root, levels := tree.depth }

end MerkleTree

end Enclave.Prover

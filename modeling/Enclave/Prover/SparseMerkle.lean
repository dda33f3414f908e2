import Enclave.Prover.Serialization

/-! # The browser's sparse Merkle tree

`SparseMerkleTree` of the wasm prover crate: the nodes in a map keyed by their hash, which is
never cleared, and the current root.  A search pushes siblings on the way back up and is reversed
at the end; insertion and update rebuild the path from the last sibling to the first.

The map's keys are the 32 bytes of a hash, one byte string for each field element, so they are
field elements here.  A mutating method fails before its first write, so a failure carries no
tree. -/

namespace Enclave.Prover

/-- `scalar_to_bits`: bit `i` of limb `l` is bit `64 l + i`. -/
def scalarToBits (scalar : F) : List Bool := (List.range 256).map scalar.val.testBit

inductive Node where
  | empty
  | leaf (key value : F)
  | internal (left right : F)
deriving DecidableEq

structure FindResult where
  found : Bool
  siblings : List F
  foundValue : F
  notFoundKey : F
  notFoundValue : F
  isOld0 : Bool

structure SMTResult where
  oldRoot : F
  newRoot : F
  siblings : List F
  oldKey : F
  oldValue : F
  newKey : F
  newValue : F
  isOld0 : Bool

/-- The nodes by hash. -/
abbrev Db := F → Option Node

structure SparseMerkleTree where
  db : Db
  root : F

namespace SparseMerkleTree

/-- `new`. -/
def new : SparseMerkleTree := ⟨fun _ => none, 0⟩

def getNode (db : Db) (hash : F) : Option Node := if hash = 0 then some .empty else db hash

def putNode (db : Db) (hash : F) (node : Node) : Db :=
  if hash ≠ 0 then Function.update db hash (some node) else db

/-- The answer at an empty place. -/
def notFoundEmpty (key : F) : FindResult where
  found := false
  siblings := []
  foundValue := 0
  notFoundKey := key
  notFoundValue := 0
  isOld0 := true

/-- `find_internal`; the bits are `key_bits` from the current level on. -/
def findInternal (db : Db) (key : F) : List Bool → F → Result FindResult
  | [], _ => .error (.error "Maximum tree depth exceeded")
  | bit :: rest, currentHash =>
      if currentHash = 0 then .ok (notFoundEmpty key)
      else
        match getNode db currentHash with
        | some (.leaf leafKey leafValue) =>
            if leafKey = key then
              .ok { found := true, siblings := [], foundValue := leafValue, notFoundKey := 0,
                    notFoundValue := 0, isOld0 := false }
            else
              .ok { found := false, siblings := [], foundValue := 0, notFoundKey := leafKey,
                    notFoundValue := leafValue, isOld0 := false }
        | some (.internal left right) => do
            let result ← findInternal db key rest (if bit then right else left)
            return { result with
              siblings := result.siblings ++ [if bit then left else right] }
        | some .empty => .ok (notFoundEmpty key)
        | none => .error (.error "Node not found in database")

/-- `find`. -/
def find (tree : SparseMerkleTree) (key : F) : Result FindResult := do
  let result ← findInternal tree.db key (scalarToBits key) tree.root
  return { result with siblings := result.siblings.reverse }

variable (P : Poseidon2)

/-- `poseidon2_hash_leaf`: domain separation 1. -/
def poseidon2HashLeaf (key value : F) : F := P.hash2 key value 1

/-- The loop that pushes zeros while the bits agree; `fuel` levels are left below 256. -/
def extendPath (oldKeyBits keyBits : List Bool) : ℕ → ℕ → List F → List F
  | 0, _, siblings => siblings
  | fuel + 1, divergeLevel, siblings =>
      if oldKeyBits[divergeLevel]? = keyBits[divergeLevel]? then
        extendPath oldKeyBits keyBits fuel (divergeLevel + 1) (siblings ++ [0])
      else siblings

/-- The loop that builds the path from bottom to top: the siblings from `level` on, last first. -/
def buildPath (keyBits : List Bool) : ℕ → List F → F × Db → Result (F × Db)
  | _, [], s => .ok s
  | level, sibling :: rest, s => do
      let (currentHash, db) ← buildPath keyBits (level + 1) rest s
      match keyBits[level]? with
      | none => .error (.panic "index out of bounds")
      | some bit =>
          let (left, right) := if bit then (sibling, currentHash) else (currentHash, sibling)
          let hash := P.compress left right
          return (hash, putNode db hash (.internal left right))

/-- `insert`. -/
def insert (tree : SparseMerkleTree) (key value : F) : Result (SMTResult × SparseMerkleTree) := do
  let findResult ← tree.find key
  if findResult.found then .error (.error "Key already exists")
  else
    let keyBits := scalarToBits key
    let newLeafHash := poseidon2HashLeaf P key value
    let db := putNode tree.db newLeafHash (.leaf key value)
    let siblings :=
      if !findResult.isOld0 then
        extendPath (scalarToBits findResult.notFoundKey) keyBits
          (256 - findResult.siblings.length) findResult.siblings.length findResult.siblings ++
          [poseidon2HashLeaf P findResult.notFoundKey findResult.notFoundValue]
      else findResult.siblings
    let (root, db) ← buildPath P keyBits 0 siblings (newLeafHash, db)
    let trimmed := siblings.rdropWhile (· = 0)
    return ({ oldRoot := tree.root, newRoot := root,
              siblings := if !findResult.isOld0 && !trimmed.isEmpty then trimmed.dropLast
                else trimmed,
              oldKey := findResult.notFoundKey, oldValue := findResult.notFoundValue,
              newKey := key, newValue := value, isOld0 := findResult.isOld0 },
      ⟨db, root⟩)

/-- `update`. -/
def update (tree : SparseMerkleTree) (key newValue : F) :
    Result (SMTResult × SparseMerkleTree) := do
  let findResult ← tree.find key
  if !findResult.found then .error (.error "Key does not exist")
  else
    let newLeafHash := poseidon2HashLeaf P key newValue
    let db := putNode tree.db newLeafHash (.leaf key newValue)
    let (root, db) ← buildPath P (scalarToBits key) 0 findResult.siblings (newLeafHash, db)
    return ({ oldRoot := tree.root, newRoot := root, siblings := findResult.siblings,
              oldKey := key, oldValue := findResult.foundValue, newKey := key,
              newValue := newValue, isOld0 := false },
      ⟨db, root⟩)

end SparseMerkleTree

end Enclave.Prover

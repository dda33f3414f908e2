import Enclave.Poseidon2

/-! # The ASP non-membership contract

The on-chain sparse Merkle tree of `contracts/asp-non-membership`: every node is kept in
persistent storage under its own hash, a leaf as `[1, key, value]` and an internal node as
`[left, right]`, and the root hash is stored separately.  A search goes down along the bits of
the key, least significant first; an operation rebuilds the path it found from the bottom up,
storing the new nodes and removing the old ones as it goes.

Loops over `siblings` that run from the last index to the first are recursions that treat the
tail first; their extra arguments are the locals the loop body reads.  The trimming of the local
`siblings` at the end of `insert_leaf` is left out, as nothing reads it afterwards. -/

namespace Enclave.AspNonMembership

/-- Contract errors. -/
inductive Error where
  | notAuthorized
  | keyNotFound
  | keyAlreadyExists
  | invalidProof
  | notInitialized
deriving DecidableEq, Repr

inductive Event where
  | leafInserted (key value root : U256)
  | leafUpdated (key oldValue newValue root : U256)
  | leafDeleted (key root : U256)
deriving DecidableEq, Repr

/-- Persistent storage (`DataKey::Admin`, `Root`, `Node`) and the events published so far. -/
structure Store where
  admin : Option Address
  root : Option U256
  node : U256 → Option (List U256)
  events : List Event

structure FindResult where
  found : Bool
  siblings : List U256
  foundValue : U256
  notFoundKey : U256
  notFoundValue : U256
  isOld0 : Bool
deriving DecidableEq, Repr

abbrev Call (α : Type) := Host Store Error α

/-! ### Storage and hashing -/

def setNode (hash : U256) (data : List U256) : Call Unit :=
  Host.modifyStore fun s => { s with node := Function.update s.node hash (some data) }

def removeNode (hash : U256) : Call Unit :=
  Host.modifyStore fun s => { s with node := Function.update s.node hash none }

def setRoot (root : U256) : Call Unit := Host.modifyStore fun s => { s with root := some root }

def publish (event : Event) : Call Unit :=
  Host.modifyStore fun s => { s with events := s.events ++ [event] }

variable (P : Poseidon2)

/-- `hash_leaf`: domain separation 1. -/
def hashLeaf (key value : U256) : Call U256 := poseidon2Hash2 P key value (some 1)

/-- `hash_internal`. -/
def hashInternal (left right : U256) : Call U256 := poseidon2Compress P left right

/-- The children of the parent of `current` and `sibling`, `current` on the side of `bit`. -/
def children (bit : Bool) (sibling current : U256) : U256 × U256 :=
  if bit then (sibling, current) else (current, sibling)

/-- The parent of `current` and `sibling`, stored. -/
def storeParent (bit : Bool) (sibling current : U256) : Call U256 := do
  let (left, right) := children bit sibling current
  let hash ← hashInternal P left right
  setNode hash [left, right]
  return hash

/-- The parent of `current` and `sibling`, removed. -/
def removeParent (bit : Bool) (sibling current : U256) : Call U256 := do
  let (left, right) := children bit sibling current
  let hash ← hashInternal P left right
  removeNode hash
  return hash

/-- The `n` lowest bits of a word, least significant first. -/
def splitBitsFrom : ℕ → U256 → List Bool
  | 0, _ => []
  | n + 1, k => (k % 2 == 1) :: splitBitsFrom n (k / 2)

/-- `split_bits`: the 256 bits of a key. -/
def splitBits (key : U256) : List Bool := splitBitsFrom 256 key

/-! ### Search -/

/-- `find_key_internal`; the bits are `key_bits` from the current level on. -/
def findKeyInternal (node : U256 → Option (List U256)) (key : U256) :
    List Bool → U256 → Except (Fault Error) FindResult
  | bits, root =>
      if root = 0 then
        .ok { found := false, siblings := [], foundValue := 0, notFoundKey := key,
              notFoundValue := 0, isOld0 := true }
      else
        match node root with
        | none => .error (.error .keyNotFound)
        | some [tag, storedKey, storedValue] =>
            if tag = 1 then
              if storedKey = key then
                .ok { found := true, siblings := [], foundValue := storedValue, notFoundKey := 0,
                      notFoundValue := 0, isOld0 := false }
              else
                .ok { found := false, siblings := [], foundValue := 0, notFoundKey := storedKey,
                      notFoundValue := storedValue, isOld0 := false }
            else .error (.error .keyNotFound)
        | some [left, right] =>
            match bits with
            | [] => .error (.panic "called `Option::unwrap()` on a `None` value")
            | bit :: rest => do
                let result ← findKeyInternal node key rest (if bit then right else left)
                return { result with
                  siblings := (if bit then left else right) :: result.siblings }
        | some _ => .error (.error .keyNotFound)

/-- `find_key`. -/
def findKey (key : U256) : Call FindResult := do
  let store ← Host.getStore
  let root := store.root.getD 0
  Host.ofExcept (findKeyInternal store.node key (splitBits key) root)

/-! ### Insertion -/

/-- Zeros for the bits two keys share from the current level on, and then the old leaf. -/
def extendSiblings (rtOld : U256) : List Bool → List Bool → List U256
  | oldBit :: oldBits, bit :: bits =>
      if oldBit = bit then 0 :: extendSiblings rtOld oldBits bits else [rtOld]
  | _, _ => [rtOld]

/-- The locals of the loop that rebuilds the path: the new and the old hash of the current
subtree, and whether an old node is above. -/
structure PathState where
  rt : U256
  rtOld : U256
  mixed : Bool

/-- Body of the loop of `insert_leaf` at index `i`. -/
def insertStep (keyBits : List Bool) (found : List U256) (siblingsLen : ℕ) (addedOne : Bool)
    (i : ℕ) (sibling : U256) (s : PathState) : Call PathState := do
  let isLastAddedLeaf := addedOne && i == siblingsLen - 1
  let mixed := s.mixed || (!isLastAddedLeaf && decide (i < siblingsLen - 1) && sibling != 0)
  let rtOld ←
    if mixed && !isLastAddedLeaf then
      removeParent P (← Host.unwrap keyBits[i]?) (found.getD i 0) s.rtOld
    else pure s.rtOld
  let rt ← storeParent P (← Host.unwrap keyBits[i]?) sibling s.rt
  return ⟨rt, rtOld, mixed⟩

/-- Loop of `insert_leaf`: the siblings from index `i` on, last first. -/
def insertPath (keyBits : List Bool) (found : List U256) (siblingsLen : ℕ) (addedOne : Bool) :
    ℕ → List U256 → PathState → Call PathState
  | _, [], s => pure s
  | i, sibling :: rest, s => do
      let s ← insertPath keyBits found siblingsLen addedOne (i + 1) rest s
      insertStep P keyBits found siblingsLen addedOne i sibling s

/-- `insert_leaf`. -/
def insertLeaf (auths : List Address) (key value : U256) : Call Unit := do
  let store ← Host.getStore
  let admin ← Host.unwrap store.admin
  Host.requireAuth auths admin
  let root := store.root.getD 0
  let keyBits := splitBits key
  let find ← Host.ofExcept (findKeyInternal store.node key keyBits root)
  if find.found then Host.fail .keyAlreadyExists
  else do
    let (siblings, rtOld, addedOne, mixed) ←
      if !find.isOld0 then do
        -- collision: share the common prefix with zeros, then stand next to the old leaf
        let rtOld ← hashLeaf P find.notFoundKey find.notFoundValue
        let oldKeyBits := splitBits find.notFoundKey
        let n := find.siblings.length
        pure (find.siblings ++ extendSiblings rtOld (oldKeyBits.drop n) (keyBits.drop n),
          rtOld, true, false)
      else pure (find.siblings, 0, false, !find.siblings.isEmpty)
    let rt ← hashLeaf P key value
    setNode rt [1, key, value]
    let s ← insertPath P keyBits find.siblings siblings.length addedOne 0 siblings ⟨rt, rtOld, mixed⟩
    setRoot s.rt
    publish (.leafInserted key value s.rt)

/-! ### Deletion -/

/-- Body of the loop of `delete_leaf` at index `i`. -/
def deleteStep (keyBits : List Bool) (i : ℕ) (sibling : U256) (s : PathState) : Call PathState := do
  let bit ← Host.unwrap keyBits[i]?
  let rtOld ← removeParent P bit sibling s.rtOld
  let mixed := s.mixed || sibling != 0
  let rt ← if mixed then storeParent P bit sibling s.rt else pure s.rt
  return ⟨rt, rtOld, mixed⟩

/-- Loop of `delete_leaf`. -/
def deletePath (keyBits : List Bool) : ℕ → List U256 → PathState → Call PathState
  | _, [], s => pure s
  | i, sibling :: rest, s => do
      let s ← deletePath keyBits (i + 1) rest s
      deleteStep P keyBits i sibling s

/-- The subtree that takes the place of the deleted leaf, and the siblings that stay: a sibling
leaf is promoted. -/
def promote (node : U256 → Option (List U256)) (siblings : List U256) :
    Except (Fault Error) (U256 × List U256) :=
  match siblings.getLast? with
  | none => .ok (0, siblings)
  | some lastSibling =>
      match node lastSibling with
      | some [tag, _, _] =>
          if tag = 1 then .ok (lastSibling, siblings.dropLast) else .error (.error .keyNotFound)
      | some [_, _] => .ok (0, siblings)
      | _ => .error (.error .keyNotFound)

/-- `delete_leaf`. -/
def deleteLeaf (auths : List Address) (key : U256) : Call Unit := do
  let store ← Host.getStore
  let admin ← Host.unwrap store.admin
  Host.requireAuth auths admin
  let root ← Host.unwrap store.root
  let keyBits := splitBits key
  let find ← Host.ofExcept (findKeyInternal store.node key keyBits root)
  if !find.found then Host.fail .keyNotFound
  else do
    let rtOld ← hashLeaf P key find.foundValue
    removeNode rtOld
    let (rtNew, siblingsToUse) ← Host.ofExcept (promote (← Host.getStore).node find.siblings)
    let s ← deletePath P keyBits 0 siblingsToUse ⟨rtNew, rtOld, false⟩
    setRoot s.rt
    publish (.leafDeleted key s.rt)

/-! ### Update -/

/-- Body of the loop of `update_leaf` at index `i`. -/
def updateStep (keyBits : List Bool) (i : ℕ) (sibling : U256) (current old : U256) :
    Call (U256 × U256) := do
  let bit ← Host.unwrap keyBits[i]?
  let (left, right) := children bit sibling current
  let (oldLeft, oldRight) := children bit sibling old
  let currentHash ← hashInternal P left right
  let oldCurrentHash ← hashInternal P oldLeft oldRight
  setNode currentHash [left, right]
  removeNode oldCurrentHash
  return (currentHash, oldCurrentHash)

/-- Loop of `update_leaf`. -/
def updatePath (keyBits : List Bool) : ℕ → List U256 → U256 × U256 → Call (U256 × U256)
  | _, [], s => pure s
  | i, sibling :: rest, s => do
      let s ← updatePath keyBits (i + 1) rest s
      updateStep P keyBits i sibling s.1 s.2

/-- `update_leaf`. -/
def updateLeaf (auths : List Address) (key newValue : U256) : Call Unit := do
  let store ← Host.getStore
  let admin ← Host.unwrap store.admin
  Host.requireAuth auths admin
  let root := store.root.getD 0
  let keyBits := splitBits key
  let find ← Host.ofExcept (findKeyInternal store.node key keyBits root)
  if !find.found then Host.fail .keyNotFound
  else do
    let oldLeafHash ← hashLeaf P key find.foundValue
    let newLeafHash ← hashLeaf P key newValue
    setNode newLeafHash [1, key, newValue]
    removeNode oldLeafHash
    let s ← updatePath P keyBits 0 find.siblings (newLeafHash, oldLeafHash)
    setRoot s.1
    publish (.leafUpdated key find.foundValue newValue s.1)

/-! ### Verification and the constructor -/

/-- The loop of `verify_non_membership` that rebuilds the root. -/
def computedRoot (keyBits : List Bool) : ℕ → List U256 → U256 → Call U256
  | _, [], hash => pure hash
  | i, sibling :: rest, hash => do
      let hash ← computedRoot keyBits (i + 1) rest hash
      let bit ← Host.unwrap keyBits[i]?
      let (left, right) := children bit sibling hash
      hashInternal P left right

/-- `verify_non_membership`. -/
def verifyNonMembership (key : U256) (siblings : List U256) (notFoundKey notFoundValue : U256) :
    Call Bool := do
  let store ← Host.getStore
  let root := store.root.getD 0
  let keyBits := splitBits key
  let find ← Host.ofExcept (findKeyInternal store.node key keyBits root)
  if find.found then return false
  else if find.siblings.length ≠ siblings.length then Host.fail .invalidProof
  else if siblings ≠ find.siblings then Host.fail .invalidProof
  else if find.notFoundKey ≠ notFoundKey ∨ find.notFoundValue ≠ notFoundValue then
    Host.fail .invalidProof
  else do
    let start ←
      if notFoundKey ≠ key ∧ notFoundValue ≠ 0 then hashLeaf P notFoundKey notFoundValue
      else pure 0
    let computed ← computedRoot P keyBits 0 siblings start
    if computed ≠ root then Host.fail .invalidProof else return true

/-- `get_root`. -/
def getRoot : Call U256 := do Host.okOr .notInitialized (← Host.getStore).root

/-- `__constructor`. -/
def constructor (admin : Address) : Env Store where
  store := { admin := some admin, root := some 0, node := fun _ => none, events := [] }
  hashed := []

end Enclave.AspNonMembership

import Enclave.Frontier

/-! # The ASP membership contract

The append-only Merkle tree of `contracts/asp-membership`: it keeps one entry for each level, the
last left child it stored there, and the zeros.  A shift `1 << levels` is a power of two here, as
the constructor bounds the levels by 32. -/

namespace Enclave.AspMembership

/-- Contract errors. -/
inductive Error where
  | notAuthorized
  | merkleTreeFull
  | wrongLevels
  | notInitialized
deriving DecidableEq, Repr

inductive Event where
  | leafAdded (leaf : U256) (index : ℕ) (root : U256)
deriving DecidableEq, Repr

/-- Persistent storage (`DataKey`) and the events published so far. -/
structure Store where
  admin : Option Address
  filledSubtrees : ℕ → Option U256
  zeroes : ℕ → Option U256
  levels : Option ℕ
  nextIndex : Option ℕ
  root : Option U256
  adminInsertOnly : Option Bool
  events : List Event

abbrev Call (α : Type) := Host Store Error α

/-- The storage before the constructor runs. -/
def blank : Env Store where
  store := { admin := none, filledSubtrees := fun _ => none, zeroes := fun _ => none,
             levels := none, nextIndex := none, root := none, adminInsertOnly := none,
             events := [] }
  hashed := []

/-- `FilledSubtrees` and `Zeroes`, unwrapped. -/
def keys : FrontierKeys Store Error where
  filled := Store.filledSubtrees
  setFilled g s := { s with filledSubtrees := g }
  zeroes := Store.zeroes
  setZeroes g s := { s with zeroes := g }
  get := Host.unwrap

/-- `__constructor`. -/
def constructor (admin : Address) (levels : ℕ) : Call Unit := do
  if levels = 0 ∨ levels > 32 then Host.fail .wrongLevels
  else do
    Host.modifyStore fun s => { s with
      admin := some admin
      levels := some levels
      nextIndex := some 0
      adminInsertOnly := some true }
    keys.initLevels (List.range (levels + 1))
    let rootVal ← Host.unwrap getZeroes[levels]?
    Host.modifyStore fun s => { s with root := some rootVal }

/-- `update_admin`, with `soroban_utils::update_admin`. -/
def updateAdmin (auths : List Address) (newAdmin : Address) : Call Unit := do
  let store ← Host.getStore
  let admin ← Host.okOr .notInitialized store.admin
  Host.requireAuth auths admin
  Host.modifyStore fun s => { s with admin := some newAdmin }

/-- `set_admin_insert_only`. -/
def setAdminInsertOnly (auths : List Address) (adminOnly : Bool) : Call Unit := do
  let store ← Host.getStore
  let admin ← Host.okOr .notInitialized store.admin
  Host.requireAuth auths admin
  Host.modifyStore fun s => { s with adminInsertOnly := some adminOnly }

/-- `get_root`. -/
def getRoot : Call U256 := do Host.okOr .notInitialized (← Host.getStore).root

/-- The authorisation `insert_leaf` asks for. -/
def requireInsert (auths : List Address) : Call Unit := do
  let store ← Host.getStore
  if store.adminInsertOnly.getD true then do
    let admin ← Host.unwrap store.admin
    Host.requireAuth auths admin
  else pure ()

variable (P : Poseidon2)

/-- `insert_leaf`. -/
def insertLeaf (auths : List Address) (leaf : U256) : Call Unit := do
  requireInsert auths
  let store ← Host.getStore
  let levels ← Host.unwrap store.levels
  let actualIndex ← Host.unwrap store.nextIndex
  if actualIndex ≥ 2 ^ levels then Host.fail .merkleTreeFull
  else do
    let currentHash ← keys.insertLoop P levels 0 actualIndex leaf
    Host.modifyStore fun s => { s with
      root := some currentHash
      events := s.events ++ [.leafAdded leaf actualIndex currentHash]
      nextIndex := some (actualIndex + 1) }

end Enclave.AspMembership

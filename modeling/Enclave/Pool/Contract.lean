import Enclave.Pool.MerkleTreeWithHistory

/-! # The privacy pool contract

`contracts/pool/src/pool.rs`.  A call runs on `Chain`: the pool's own storage, the balances of the
token contracts and the roots the ASP contracts answer with.  What is not in the repository, or is
another contract, is a parameter (`Externals`): the token's `transfer` with its documented effect,
the verifier contract's answer, and Keccak256 of the XDR encoding of the external data.

A 32-byte string is the number it encodes, big endian; an `I256` is an integer with its range. -/

namespace Enclave.Pool

/-! ### Data -/

/-- Contract errors. -/
inductive Error where
  | notAuthorized
  | merkleTreeFull
  | alreadyInitialized
  | wrongLevels
  | nextIndexNotEven
  | wrongExtAmount
  | invalidProof
  | unknownRoot
  | alreadySpentNullifier
  | wrongExtHash
  | notInitialized
deriving DecidableEq, Repr

/-- `From<MerkleError>`. -/
def Error.ofMerkle : MerkleError → Error
  | .alreadyInitialized => .alreadyInitialized
  | .merkleTreeFull => .merkleTreeFull
  | .wrongLevels => .wrongLevels
  | .nextIndexNotEven => .nextIndexNotEven
  | .notInitialized => .notInitialized

/-- 256-bit signed integers. -/
structure I256 where
  val : ℤ
  range : -2 ^ 255 ≤ val ∧ val < 2 ^ 255
deriving DecidableEq

instance : Inhabited I256 := ⟨0, by decide⟩

/-- The points of a Groth16 proof, as bytes. -/
structure Groth16Proof where
  a : List UInt8
  b : List UInt8
  c : List UInt8
deriving DecidableEq

/-- `Groth16Proof::is_empty`. -/
def Groth16Proof.isEmpty (proof : Groth16Proof) : Bool :=
  proof.a.isEmpty || proof.b.isEmpty || proof.c.isEmpty

/-- The proof and its public inputs. -/
structure Proof where
  proof : Groth16Proof
  root : U256
  inputNullifiers : List U256
  outputCommitment0 : U256
  outputCommitment1 : U256
  publicAmount : U256
  extDataHash : U256
  aspMembershipRoot : U256
  aspNonMembershipRoot : U256

/-- External data: a positive amount is a deposit, a negative one a withdrawal. -/
structure ExtData where
  recipient : Address
  extAmount : I256
  encryptedOutput0 : List UInt8
  encryptedOutput1 : List UInt8
deriving DecidableEq

/-- User account registration data. -/
structure Account where
  owner : Address
  encryptionKey : List UInt8
  noteKey : List UInt8

inductive Event where
  | newCommitment (commitment : U256) (index : ℕ) (encryptedOutput : List UInt8)
  | newNullifier (nullifier : U256)
  | publicKey (owner : Address) (encryptionKey noteKey : List UInt8)
deriving DecidableEq

/-- The pool's persistent storage (`DataKey`, `MerkleDataKey`) and its events so far. -/
structure Store where
  admin : Option Address
  token : Option Address
  verifier : Option Address
  maximumDepositAmount : Option U256
  nullifiers : Option (U256 → Option Bool)
  aspMembership : Option Address
  aspNonMembership : Option Address
  merkle : MerkleStore
  events : List Event

/-- Token balances. -/
abbrev Balances := Address → ℤ

/-- The balances after `amount` moved. -/
def Balances.move (sender recipient : Address) (amount : ℤ) (b : Balances) : Balances := fun x =>
  b x - (if x = sender then amount else 0) + (if x = recipient then amount else 0)

/-- A token contract: a transfer that succeeds moves an amount that the sender has. -/
structure Token where
  transfer : Address → Address → ℤ → Balances → Option Balances
  spec : ∀ {sender recipient amount b b'}, transfer sender recipient amount b = some b' →
    0 ≤ amount ∧ amount ≤ b sender ∧ b' = b.move sender recipient amount

/-- The chain as a call of the pool sees it. -/
structure Chain where
  pool : Store
  balances : Address → Balances
  aspRoot : Address → Option U256

/-- What the pool uses and does not define: its own address, the token, the verifier and the
digest of external data. -/
structure Externals where
  self : Address
  token : Token
  verify : Address → Groth16Proof → List U256 → Option Bool
  keccakXdr : ExtData → U256

abbrev Call (α : Type) := Host Chain Error α

/-! ### Storage -/

def getPool : Call Store := do return (← Host.getStore).pool

def modifyPool (f : Store → Store) : Call Unit :=
  Host.modifyStore fun s => { s with pool := f s.pool }

def publish (event : Event) : Call Unit :=
  modifyPool fun s => { s with events := s.events ++ [event] }

/-- A call of the Merkle tree module, with `?`. -/
def merkle {α : Type} (m : MerkleTreeWithHistory.Call α) : Call α :=
  Host.zoom (fun s => s.pool.merkle)
    (fun m s => { s with pool := { s.pool with merkle := m } }) Error.ofMerkle m

/-- `__constructor`. -/
def constructor (admin token verifier aspMembership aspNonMembership : Address)
    (maximumDepositAmount : U256) (levels : ℕ) : Call Unit := do
  modifyPool fun s => { s with
    admin := some admin
    token := some token
    verifier := some verifier
    aspMembership := some aspMembership
    aspNonMembership := some aspNonMembership
    maximumDepositAmount := some maximumDepositAmount
    nullifiers := some fun _ => none }
  merkle (MerkleTreeWithHistory.init levels)

/-! ### Amounts -/

/-- `max_ext_amount`: 2²⁴⁸. -/
def maxExtAmount : U256 := 2 ^ 248

/-- `U256::from_be_bytes` of the bytes of an `I256`: two's complement. -/
def I256.toU256 (v : I256) : U256 := (v.val % 2 ^ 256).toNat

/-- `I256::sub` from zero, which traps if the result does not fit. -/
def I256.neg (v : I256) : Call I256 :=
  if h : -2 ^ 255 ≤ -v.val ∧ -v.val < 2 ^ 255 then pure ⟨-v.val, h⟩
  else Host.panic "attempt to subtract with overflow"

/-- `i256_to_i128_nonneg`. -/
def i256ToI128Nonneg (v : I256) : Call ℤ :=
  if v.val < 0 then Host.fail .wrongExtAmount
  else Host.okOr .wrongExtAmount (if v.val < 2 ^ 127 then some v.val else none)

/-- `i256_abs_to_u256`. -/
def i256AbsToU256 (v : I256) : Call U256 := do
  let abs ← if v.val ≥ 0 then pure v else v.neg
  return abs.toU256

/-- `calculate_public_amount`. -/
def calculatePublicAmount (extAmount : I256) : Call U256 := do
  let absExt ← i256AbsToU256 extAmount
  if absExt ≥ maxExtAmount then Host.fail .wrongExtAmount
  else if extAmount.val ≥ 0 then return extAmount.toU256
  else do
    let neg ← extAmount.neg
    if neg.toU256 ≤ bn256Modulus then return bn256Modulus - neg.toU256
    else Host.panic "attempt to subtract with overflow"

/-! ### Checks -/

/-- `is_spent`. -/
def isSpent (n : U256) : Call Bool := do
  let nulls ← Host.okOr .notInitialized (← getPool).nullifiers
  return (nulls n).getD false

/-- `mark_spent`, whose error the caller ignores. -/
def markSpent (n : U256) : Call Unit := modifyPool fun s => { s with
  nullifiers := s.nullifiers.map fun nulls => Function.update nulls n (some true) }

/-- The loop of the nullifier checks. -/
def checkNullifiers : List U256 → Call Unit
  | [] => pure ()
  | n :: rest => do
      if ← isSpent n then Host.fail .alreadySpentNullifier
      else checkNullifiers rest

/-- The loop that marks the nullifiers. -/
def markNullifiers : List U256 → Call Unit
  | [] => pure ()
  | n :: rest => do
      markSpent n
      publish (.newNullifier n)
      markNullifiers rest

/-- The public inputs in the order of the circuit. -/
def publicInputs (proof : Proof) : List U256 :=
  [proof.root, proof.publicAmount, proof.extDataHash] ++ proof.inputNullifiers ++
    [proof.outputCommitment0, proof.outputCommitment1] ++
    List.replicate proof.inputNullifiers.length proof.aspMembershipRoot ++
    List.replicate proof.inputNullifiers.length proof.aspNonMembershipRoot

variable (ext : Externals)

/-- `verify_proof`. -/
def verifyProof (proof : Proof) : Call Bool := do
  if proof.proof.isEmpty then Host.fail .invalidProof
  else do
    let verifier ← Host.okOr .notInitialized (← getPool).verifier
    match ext.verify verifier proof.proof (publicInputs proof) with
    | some isValid => return isValid
    | none => Host.panic "verifier"

/-- `hash_ext_data`. -/
def hashExtData (extData : ExtData) : U256 := ext.keccakXdr extData % bn256Modulus

/-- `TokenClient::transfer`. -/
def transfer (token sender recipient : Address) (amount : ℤ) : Call Unit := do
  match ext.token.transfer sender recipient amount ((← Host.getStore).balances token) with
  | some b => Host.modifyStore fun s => { s with balances := Function.update s.balances token b }
  | none => Host.panic "token transfer"

/-- `get_asp_membership_root`. -/
def getAspMembershipRoot : Call U256 := do
  let asp ← Host.okOr .notInitialized (← getPool).aspMembership
  Host.unwrap ((← Host.getStore).aspRoot asp)

/-- `get_asp_non_membership_root`. -/
def getAspNonMembershipRoot : Call U256 := do
  let asp ← Host.okOr .notInitialized (← getPool).aspNonMembership
  Host.unwrap ((← Host.getStore).aspRoot asp)

variable (P : Poseidon2)

/-- The deposit of `transact`. -/
def deposit (token : Address) (extData : ExtData) (sender : Address) : Call Unit := do
  if extData.extAmount.val > 0 then do
    let max ← Host.okOr .notInitialized (← getPool).maximumDepositAmount
    if extData.extAmount.toU256 > max then Host.fail .wrongExtAmount
    else do
      let amount ← i256ToI128Nonneg extData.extAmount
      transfer ext token sender ext.self amount
  else pure ()

/-- The withdrawal of `internal_transact`. -/
def withdraw (token : Address) (extData : ExtData) : Call Unit := do
  if extData.extAmount.val < 0 then do
    let abs ← extData.extAmount.neg
    let amount ← i256ToI128Nonneg abs
    transfer ext token ext.self extData.recipient amount
  else pure ()

/-- The checks of `internal_transact`, steps 1 to 5. -/
def checks (proof : Proof) (extData : ExtData) : Call Unit := do
  if !(← merkle (MerkleTreeWithHistory.isKnownRoot proof.root)) then Host.fail .unknownRoot
  else do
    checkNullifiers proof.inputNullifiers
    if hashExtData ext extData ≠ proof.extDataHash then Host.fail .wrongExtHash
    else do
      let expectedPublicAmount ← calculatePublicAmount extData.extAmount
      if proof.publicAmount ≠ expectedPublicAmount then Host.fail .wrongExtAmount
      else do
        let memberRoot ← getAspMembershipRoot
        let nonMemberRoot ← getAspNonMembershipRoot
        if memberRoot ≠ proof.aspMembershipRoot ∨ nonMemberRoot ≠ proof.aspNonMembershipRoot then
          Host.fail .invalidProof
        else if !(← verifyProof ext proof) then Host.fail .invalidProof
        else pure ()

/-- `internal_transact`. -/
def internalTransact (proof : Proof) (extData : ExtData) : Call Unit := do
  checks ext proof extData
  markNullifiers proof.inputNullifiers
  let token ← Host.okOr .notInitialized (← getPool).token
  withdraw ext token extData
  let idx ← merkle (MerkleTreeWithHistory.insertTwoLeaves P proof.outputCommitment0
    proof.outputCommitment1)
  publish (.newCommitment proof.outputCommitment0 idx.1 extData.encryptedOutput0)
  publish (.newCommitment proof.outputCommitment1 idx.2 extData.encryptedOutput1)

/-- `transact`. -/
def transact (auths : List Address) (proof : Proof) (extData : ExtData) (sender : Address) :
    Call Unit := do
  Host.requireAuth auths sender
  let token ← Host.okOr .notInitialized (← getPool).token
  deposit ext token extData sender
  internalTransact ext P proof extData

/-! ### Other entry points -/

/-- `register`. -/
def register (auths : List Address) (account : Account) : Call Unit := do
  Host.requireAuth auths account.owner
  publish (.publicKey account.owner account.encryptionKey account.noteKey)

/-- A setter for the admin only. -/
def byAdmin (auths : List Address) (f : Store → Store) : Call Unit := do
  let admin ← Host.okOr .notInitialized (← getPool).admin
  Host.requireAuth auths admin
  modifyPool f

/-- `update_admin`. -/
def updateAdmin (auths : List Address) (newAdmin : Address) : Call Unit :=
  byAdmin auths fun s => { s with admin := some newAdmin }

/-- `update_asp_membership`. -/
def updateAspMembership (auths : List Address) (newAspMembership : Address) : Call Unit :=
  byAdmin auths fun s => { s with aspMembership := some newAspMembership }

/-- `update_asp_non_membership`. -/
def updateAspNonMembership (auths : List Address) (newAspNonMembership : Address) : Call Unit :=
  byAdmin auths fun s => { s with aspNonMembership := some newAspNonMembership }

/-- `get_root`. -/
def getRoot : Call U256 := merkle MerkleTreeWithHistory.getLastRoot

end Enclave.Pool

import Enclave.App.OrgRegistry

/-! # Enrolment

`app/js/enclave/enroll.js`, with what it uses of `keys.js`, `org.js`, `registry.js` and `bundle.js`:
an organisation has a row with its membership leaf, and its keys stay in the session; an agent gets
both in a bundle.  Keys are written as they are stored, field elements with the highest byte
first. -/

namespace Enclave.App

open Prover

variable (P : Poseidon2)

/-! ### The organisation -/

/-- `computeEnclaveAspLeaf`. -/
def computeEnclaveAspLeaf (orgSpendingPubKey : List UInt8) : Result (List UInt8) :=
  if orgSpendingPubKey.length ≠ 32 then
    .error (.error "orgSpendingPubKey must be a 32-byte Uint8Array")
  else
    let zeroBlinding := List.replicate 32 0
    Prover.poseidon2Hash2 P orgSpendingPubKey zeroBlinding 1

/-- A row of `enclave_orgs`. -/
structure OrgRow extends EnclaveOrg where
  orgSpendingPubKey : String
  aspLeaf : String
  aspLeafIndex : ℕ
deriving DecidableEq

/-- The keys in the session cache. -/
structure SessionKeys extends OrgKeys P where
  encryptionPublicKey : List UInt8
  encryptionPrivateKey : List UInt8

/-- The row that `createOrg` stores, once the leaf is in the membership tree. -/
def orgRow (org : EnclaveOrg) (keys : SessionKeys P) (aspLeafIndex : ℕ) : Result OrgRow := do
  let aspLeafBytes ← computeEnclaveAspLeaf P keys.orgSpendingPubKey
  let aspLeafHex ← fieldToHex aspLeafBytes
  let orgSpendingPubKey ← fieldToHex keys.orgSpendingPubKey
  return ⟨org, orgSpendingPubKey, aspLeafHex, aspLeafIndex⟩

variable {P}

/-! ### Agents -/

/-- A row of `enclave_agents`. -/
structure EnclaveAgent where
  id : String
  orgId : String
  agentName : String
  authPubKey : String
deriving DecidableEq

/-- `STORES.enclave_agents`; neither index is unique. -/
def agentsSchema : StoreSchema EnclaveAgent String String where
  keyPath := EnclaveAgent.id
  uniqueIndexes := []

theorem uniqueIndexes_agents : agentsSchema.uniqueIndexes = [] := rfl

/-- The registry: organisations by their admins, and agents. -/
structure Registry where
  orgs : String → Option OrgRow
  agents : ObjectStore agentsSchema

/-- `putAgent`. -/
def putAgent (row : EnclaveAgent) : Wasm Registry Unit := do
  match [("id", row.id), ("orgId", row.orgId), ("agentName", row.agentName),
      ("authPubKey", row.authPubKey)].find? fun field => field.2 = "" with
  | some field => throw (.error s!"putAgent: missing required field '{field.1}'")
  | none =>
      if row.id ≠ row.orgId ++ "/" ++ row.agentName then
        throw (.error s!"putAgent: id must equal '{row.orgId}/{row.agentName}'")
      else
        match (← get).agents.get row.id with
        | some _ => throw (.error
            s!"putAgent: agent '{row.agentName}' already exists in org '{row.orgId}'")
        | none => modify fun s => { s with agents := s.agents.putPlain uniqueIndexes_agents row }

/-- `deployments`; a contract that is not there is the empty string. -/
structure Deployments where
  pool : String
  asp_membership : String
  asp_non_membership : String
  verifier : String
  network : String
deriving DecidableEq

structure EnrollmentBundle where
  version : ℕ
  orgId : String
  agentName : String
  orgSpendingPrivKey : String
  orgSpendingPubKey : String
  /-- `publicKey` and `secretKey`. -/
  orgEncryptionKeypair : String × String
  aspLeaf : String
  aspLeafIndex : ℕ
  agentAuthKey : String
  adminStellarAddress : String
  poolContractId : String
  aspMembershipContractId : String
  aspNonMembershipContractId : String
  verifierContractId : String
  facilitatorUrl : String
  network : String
deriving DecidableEq

/-- `BUNDLE_VERSION`. -/
def bundleVersion : ℕ := 1

/-- `a || b` of strings. -/
def orElseText (a b : String) : String := if a = "" then b else a

/-- `buildEnrollmentBundle`, where every required parameter is given. -/
def buildEnrollmentBundle (orgId agentName orgSpendingPrivKey orgSpendingPubKey : String)
    (orgEncryptionKeypair : String × String) (aspLeaf : String) (aspLeafIndex : ℕ)
    (agentAuthKey adminStellarAddress : String) (d : Deployments) (facilitatorUrl : String) :
    Result EnrollmentBundle :=
  match [("pool", d.pool), ("asp_membership", d.asp_membership),
      ("asp_non_membership", d.asp_non_membership), ("verifier", d.verifier)].find?
        fun field => field.2 = "" with
  | some field => .error (.error s!"buildEnrollmentBundle: deployments.{field.1} missing")
  | none => .ok {
      version := bundleVersion
      orgId, agentName, orgSpendingPrivKey, orgSpendingPubKey, orgEncryptionKeypair, aspLeaf,
      aspLeafIndex, agentAuthKey, adminStellarAddress
      poolContractId := d.pool
      aspMembershipContractId := d.asp_membership
      aspNonMembershipContractId := d.asp_non_membership
      verifierContractId := d.verifier
      facilitatorUrl := orElseText facilitatorUrl "http://localhost:4021"
      network := orElseText d.network "testnet" }

/-- What an enrolment is asked for; what is not given is empty. -/
structure EnrollParams where
  adminAddress : String
  orgId : String
  agentName : String
  deployments : Option Deployments
  facilitatorUrl : String

/-- `agentName.trim()`. -/
def trimText (s : String) : String := String.ofList (Js.trim s.toList)

/-- `enrollAgent`: the bundle and the agent's row.  `session` are the cached keys, `sha256` the
digest, and `authPrivKey` the random bytes. -/
def enrollAgent (session : String → Option (SessionKeys P)) (sha256 : List UInt8 → List UInt8)
    (authPrivKey : List UInt8) (params : EnrollParams) :
    Wasm Registry (EnrollmentBundle × EnclaveAgent) := do
  if params.adminAddress = "" then throw (.error "enrollAgent: adminAddress required")
  else if params.orgId = "" then throw (.error "enrollAgent: orgId required")
  else if trimText params.agentName = "" then throw (.error "enrollAgent: agentName required")
  else
    match params.deployments.filter fun d => d.pool ≠ "" with
    | none => throw (.error "enrollAgent: deployments.pool missing")
    | some deployments =>
        match session params.adminAddress with
        | none => throw (.error
            "Org spending key not in session cache. Run Create Org or reconnect Freighter.")
        | some keys => do
            match (← get).orgs params.adminAddress |>.filter fun org => org.orgId = params.orgId with
            | none => throw (.error (s!"enrollAgent: no enclave_orgs row for admin " ++
                s!"{params.adminAddress} matching orgId {params.orgId}"))
            | some org => do
                let agentName := trimText params.agentName
                let agentRow : EnclaveAgent := ⟨params.orgId ++ "/" ++ agentName, params.orgId,
                  agentName, bytesToHex (sha256 authPrivKey)⟩
                putAgent agentRow
                let bundle ← Wasm.ofResult (buildEnrollmentBundle params.orgId agentName
                  (bytesToHex keys.orgSpendingPrivKey) (bytesToHex keys.orgSpendingPubKey)
                  (bytesToHex keys.encryptionPublicKey, bytesToHex keys.encryptionPrivateKey)
                  org.aspLeaf org.aspLeafIndex (bytesToHex authPrivKey) params.adminAddress
                  deployments params.facilitatorUrl)
                return (bundle, agentRow)

/-! ### What they yield -/

/-- The leaf of a public key, with the blinding 0. -/
def membershipLeaf (P : Poseidon2) (pubkey : F) : F := P.hash2 pubkey 0 ((1 : ℕ) : F)

variable {sk : F} {keys : SessionKeys P}

theorem SessionKeys.orgSpendingPubKey_eq (hsk : keys.orgSpendingPrivKey = scalarToBytes sk) :
    keys.orgSpendingPubKey = scalarToBytes (Circuits.publicKey P sk) := by
  have hderived := keys.derived
  rw [hsk, derivePublicKey_scalarToBytes] at hderived
  exact (Except.ok.inj hderived).symm

theorem computeEnclaveAspLeaf_scalarToBytes (pubkey : F) :
    computeEnclaveAspLeaf P (scalarToBytes pubkey) =
      .ok (scalarToBytes (membershipLeaf P pubkey)) := by
  have hlen : ¬ (scalarToBytes pubkey).length ≠ 32 := not_not.mpr (length_scalarToBytes pubkey)
  have hzero : List.replicate 32 0 = scalarToBytes 0 := by decide
  unfold computeEnclaveAspLeaf Prover.poseidon2Hash2
  rw [if_neg hlen, hzero]
  dsimp only
  rw [bytesToScalar_scalarToBytes, bytesToScalar_scalarToBytes]
  rfl

theorem orgRow_eq (hsk : keys.orgSpendingPrivKey = scalarToBytes sk) (org : EnclaveOrg)
    (aspLeafIndex : ℕ) :
    orgRow P org keys aspLeafIndex = .ok ⟨org, hex64 (Circuits.publicKey P sk).val,
      hex64 (membershipLeaf P (Circuits.publicKey P sk)).val, aspLeafIndex⟩ := by
  unfold orgRow
  rw [keys.orgSpendingPubKey_eq hsk, computeEnclaveAspLeaf_scalarToBytes]
  simp only [Result.ok_bind, fieldToHex_scalarToBytes]
  rfl

/-- **A bundle** carries the keys of the session and the leaf of the row. -/
theorem enrollAgent_ok {session : String → Option (SessionKeys P)}
    {sha256 : List UInt8 → List UInt8} {authPrivKey : List UInt8} {params : EnrollParams}
    {s s' : Registry} {bundle : EnrollmentBundle} {agentRow : EnclaveAgent}
    (h : (enrollAgent session sha256 authPrivKey params).exec s = (.ok (bundle, agentRow), s')) :
    ∃ keys org, session params.adminAddress = some keys ∧
      s.orgs params.adminAddress = some org ∧
      bundle.orgSpendingPrivKey = bytesToHex keys.orgSpendingPrivKey ∧
      bundle.orgSpendingPubKey = bytesToHex keys.orgSpendingPubKey ∧
      bundle.aspLeaf = org.aspLeaf ∧ bundle.aspLeafIndex = org.aspLeafIndex := by
  unfold enrollAgent at h
  split at h
  · cases h
  · split at h
    · cases h
    · split at h
      · cases h
      · split at h
        · cases h
        · split at h
          · cases h
          · rename_i keys hkeys
            obtain ⟨s₁, s₂, hget, h⟩ := Wasm.exec_bind_eq_ok.mp h
            cases hget
            split at h
            · cases h
            · rename_i org horg
              obtain ⟨-, s₃, -, h⟩ := Wasm.exec_bind_eq_ok.mp h
              obtain ⟨built, s₄, hbuild, h⟩ := Wasm.exec_bind_eq_ok.mp h
              obtain ⟨hbuild, -⟩ := Wasm.exec_ofResult_eq_ok.mp hbuild
              cases h
              unfold buildEnrollmentBundle at hbuild
              split at hbuild
              · cases hbuild
              · cases hbuild
                exact ⟨keys, org, hkeys, (Option.filter_eq_some_iff.mp horg).1, rfl, rfl, rfl, rfl⟩

end Enclave.App

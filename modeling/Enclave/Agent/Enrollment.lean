import Enclave.Agent.Witness
import Enclave.App.Enrollment
import Enclave.App.SpentNotes

/-! # The key that an agent is handed

The browser writes the key of an organisation into the bundle byte by byte, lowest first
(`enrollAgent`); the agent reads the text as a hexadecimal number (`buildWitnessInputs`).  It proves
with the organisation's key exactly if the number with the bytes turned around has the key for its
residue (`handsOver_iff`). -/

namespace Enclave.Agent

open App Js
open Bytes (reverseBytes)
open Prover (scalarToBytes leValue leBytes)

/-! ### Loading -/

/-- `AgentBundle`, what is required. -/
structure AgentBundle where
  orgSpendingPrivKey : String
  agentAuthKey : String
  orgId : String
  facilitatorUrl : String
deriving DecidableEq

/-- `loadBundle` of the file that the browser has written; texts come out of JSON as they went
in. -/
def loadBundle (parsed : EnrollmentBundle) : Except String AgentBundle :=
  match [("orgSpendingPrivKey", parsed.orgSpendingPrivKey), ("agentAuthKey", parsed.agentAuthKey),
      ("orgId", parsed.orgId), ("facilitatorUrl", parsed.facilitatorUrl)].find?
        fun field => field.2 = "" with
  | some field => .error s!"Bundle missing required field: {field.1}"
  | none => .ok ⟨parsed.orgSpendingPrivKey, parsed.agentAuthKey, parsed.orgId,
      parsed.facilitatorUrl⟩

theorem loadBundle_ok {parsed : EnrollmentBundle} {bundle : AgentBundle}
    (h : loadBundle parsed = .ok bundle) : bundle.orgSpendingPrivKey = parsed.orgSpendingPrivKey := by
  unfold loadBundle at h
  split at h
  · cases h
  · cases h
    rfl

/-! ### The key -/

/-- The field element that an input denotes. -/
def fieldOf (text : String) : Option F := (bigInt text).map (Int.cast : ℤ → F)

/-- The agent proves with the key, whose public key and membership leaf are in the bundle. -/
structure HandsOver (P : Poseidon2) (sk : F) (bundle : EnrollmentBundle) (inputs : WitnessInputs) :
    Prop where
  nullSlot : fieldOf inputs.inPrivateKey.1 = some sk
  realSlot : fieldOf inputs.inPrivateKey.2 = some sk
  derived : ∀ key, fieldOf inputs.inPrivateKey.1 = some key →
    bundle.orgSpendingPubKey = bytesToHex (scalarToBytes (Circuits.publicKey P key)) ∧
      bundle.aspLeaf = hex64 (membershipLeaf P (Circuits.publicKey P key)).val

theorem leValue_reverse_scalarToBytes (sk : F) :
    leValue (scalarToBytes sk).reverse = reverseBytes 32 sk.val := rfl

theorem normalizeField_scalarToBytes (sk : F) :
    normalizeField (bytesToHex (scalarToBytes sk)) =
      some (reverseBytes 32 sk.val % bn256Modulus).repr := by
  have hne : scalarToBytes sk ≠ [] := by
    apply List.ne_nil_of_length_pos
    rw [Prover.length_scalarToBytes]
    decide
  rw [bytesToHex, normalizeField_bytesToHex hne, leValue_reverse_scalarToBytes]

theorem fieldOf_repr (n : ℕ) : fieldOf n.repr = some (n : F) := by
  rw [fieldOf, bigInt_repr, Option.map_some, Int.cast_natCast]

/-- **The bundle hands the key over exactly if** its bytes, turned around, have it for their
residue. -/
theorem handsOver_iff {P : Poseidon2} {session : String → Option (SessionKeys P)}
    {sha256 : List UInt8 → List UInt8} {authPrivKey : List UInt8} {params : EnrollParams}
    {s s' : Registry} {bundle : EnrollmentBundle} {agentRow : EnclaveAgent}
    {agentBundle : AgentBundle} {witnessParams : BuildWitnessParams} {inputs : WitnessInputs}
    {keys : SessionKeys P} {org : EnclaveOrg} {aspLeafIndex : ℕ} {row : OrgRow} (sk : F)
    (hsk : keys.orgSpendingPrivKey = scalarToBytes sk)
    (hkeys : session params.adminAddress = some keys)
    (hcreated : orgRow P org keys aspLeafIndex = .ok row)
    (hrow : s.orgs params.adminAddress = some row)
    (henroll : (enrollAgent session sha256 authPrivKey params).exec s = (.ok (bundle, agentRow), s'))
    (hload : loadBundle bundle = .ok agentBundle)
    (hparams : witnessParams.orgSpendingPrivKey = agentBundle.orgSpendingPrivKey)
    (hinputs : buildWitnessInputs witnessParams = some inputs) :
    HandsOver P sk bundle inputs ↔ reverseBytes 32 sk.val % bn256Modulus = sk.val := by
  obtain ⟨keys', row', hkeys', hrow', hpriv, hpub, hleaf, -⟩ := enrollAgent_ok henroll
  obtain rfl : keys = keys' := Option.some.inj (hkeys.symm.trans hkeys')
  obtain rfl : row = row' := Option.some.inj (hrow.symm.trans hrow')
  rw [orgRow_eq hsk] at hcreated
  cases hcreated
  -- the two slots have the same text
  have htext : inputs.inPrivateKey = ((reverseBytes 32 sk.val % bn256Modulus).repr,
      (reverseBytes 32 sk.val % bn256Modulus).repr) := by
    rw [buildWitnessInputs, hparams, loadBundle_ok hload, hpriv, hsk,
      normalizeField_scalarToBytes] at hinputs
    cases hinputs
    rfl
  have hfield : fieldOf (reverseBytes 32 sk.val % bn256Modulus).repr =
      some ((reverseBytes 32 sk.val % bn256Modulus : ℕ) : F) := fieldOf_repr _
  constructor
  · intro h
    have hslot := h.nullSlot
    rw [htext, hfield] at hslot
    have hvalue := congrArg ZMod.val (Option.some.inj hslot)
    rwa [F.val_natCast_of_lt (Nat.mod_lt _ (NeZero.pos _))] at hvalue
  · intro h
    rw [h, F.natCast_val] at hfield
    rw [h] at htext
    refine ⟨by rw [htext, hfield], by rw [htext, hfield], fun key hkey => ?_⟩
    rw [htext, hfield] at hkey
    cases hkey
    exact ⟨by rw [hpub, keys.orgSpendingPubKey_eq hsk], hleaf⟩

/-! ### A sample enrolment -/

def sampleKeys (sk : F) : SessionKeys smallPoseidon2 where
  orgSpendingPrivKey := scalarToBytes sk
  orgSpendingPubKey := scalarToBytes (Circuits.publicKey smallPoseidon2 sk)
  derived := Prover.derivePublicKey_scalarToBytes sk
  encryptionPublicKey := List.replicate 32 2
  encryptionPrivateKey := List.replicate 32 3

def sampleOrgRow (sk : F) : OrgRow :=
  ⟨⟨"GADMIN", "org-1"⟩, hex64 (Circuits.publicKey smallPoseidon2 sk).val,
    hex64 (membershipLeaf smallPoseidon2 (Circuits.publicKey smallPoseidon2 sk)).val, 0⟩

def sampleRegistry (sk : F) : Registry where
  orgs adminAddress := if adminAddress = "GADMIN" then some (sampleOrgRow sk) else none
  agents := .empty

def sampleEnrollParams : EnrollParams :=
  ⟨"GADMIN", "org-1", "bot", some ⟨"CPOOL", "CMEM", "CNON", "CVER", ""⟩, ""⟩

def sampleAgent : EnclaveAgent := ⟨"org-1/bot", "org-1", "bot", bytesToHex (List.replicate 32 9)⟩

def sampleBundle (sk : F) : EnrollmentBundle where
  version := 1
  orgId := "org-1"
  agentName := "bot"
  orgSpendingPrivKey := bytesToHex (scalarToBytes sk)
  orgSpendingPubKey := bytesToHex (scalarToBytes (Circuits.publicKey smallPoseidon2 sk))
  orgEncryptionKeypair := (bytesToHex (List.replicate 32 2), bytesToHex (List.replicate 32 3))
  aspLeaf := (sampleOrgRow sk).aspLeaf
  aspLeafIndex := 0
  agentAuthKey := bytesToHex (List.replicate 32 7)
  adminStellarAddress := "GADMIN"
  poolContractId := "CPOOL"
  aspMembershipContractId := "CMEM"
  aspNonMembershipContractId := "CNON"
  verifierContractId := "CVER"
  facilitatorUrl := "http://localhost:4021"
  network := "testnet"

theorem exec_enrollAgent_sample (sk : F) : ∃ s',
    (enrollAgent (fun _ => some (sampleKeys sk)) (fun _ => List.replicate 32 9)
      (List.replicate 32 7) sampleEnrollParams).exec (sampleRegistry sk) =
        (.ok (sampleBundle sk, sampleAgent), s') :=
  ⟨_, rfl⟩

def sampleAgentBundle (sk : F) : AgentBundle :=
  ⟨bytesToHex (scalarToBytes sk), bytesToHex (List.replicate 32 7), "org-1",
    "http://localhost:4021"⟩

theorem loadBundle_sample (sk : F) :
    loadBundle (sampleBundle sk) = .ok (sampleAgentBundle sk) := by
  have hkey (bytes : List UInt8) : bytesToHex bytes ≠ "" := by
    intro h
    have hlist := congrArg String.toList h
    rw [bytesToHex, String.toList_ofList] at hlist
    cases hlist
  simp [loadBundle, sampleBundle, sampleAgentBundle, hkey]

def sampleWitnessNote (amount : ℤ) : WitnessNote :=
  ⟨⟨"1", amount⟩, "0", [], "0", "0", [], "0"⟩

def sampleWitnessParams (sk : F) : BuildWitnessParams where
  orgSpendingPrivKey := (sampleAgentBundle sk).orgSpendingPrivKey
  realNote := sampleWitnessNote 7
  nullNote := sampleWitnessNote 0
  payAmount := 5
  changeAmount := 2
  changeBlinding := "0"
  extDataHash := "0"
  nonMembershipProofs := emptyNonMembershipProofs

theorem buildWitnessInputs_sample (sk : F) : ∃ inputs,
    buildWitnessInputs (sampleWitnessParams sk) = some inputs := by
  unfold buildWitnessInputs
  rw [show (sampleWitnessParams sk).orgSpendingPrivKey = bytesToHex (scalarToBytes sk) from rfl,
    normalizeField_scalarToBytes]
  exact ⟨_, rfl⟩

/-- The bytes 1, 0, .., 0, 1 read the same from both ends. -/
theorem handsOver_iff_palindrome : ∃ inputs,
    buildWitnessInputs (sampleWitnessParams ((2 ^ 248 + 1 : ℕ) : F)) = some inputs ∧
    HandsOver smallPoseidon2 ((2 ^ 248 + 1 : ℕ) : F) (sampleBundle ((2 ^ 248 + 1 : ℕ) : F))
      inputs := by
  obtain ⟨s', henroll⟩ := exec_enrollAgent_sample ((2 ^ 248 + 1 : ℕ) : F)
  obtain ⟨inputs, hinputs⟩ := buildWitnessInputs_sample ((2 ^ 248 + 1 : ℕ) : F)
  have hpalindrome : reverseBytes 32 ((2 ^ 248 + 1 : ℕ) : F).val % bn256Modulus =
      ((2 ^ 248 + 1 : ℕ) : F).val := by decide +kernel
  exact ⟨inputs, hinputs, (handsOver_iff ((2 ^ 248 + 1 : ℕ) : F) rfl rfl (orgRow_eq rfl _ 0) rfl
    henroll (loadBundle_sample _) rfl hinputs).mpr hpalindrome⟩

/-- **The key 1 is handed over as another key.** -/
theorem not_handsOver_one : ∃ s' inputs,
    (enrollAgent (fun _ => some (sampleKeys 1)) (fun _ => List.replicate 32 9)
      (List.replicate 32 7) sampleEnrollParams).exec (sampleRegistry 1) =
        (.ok (sampleBundle 1, sampleAgent), s') ∧
    loadBundle (sampleBundle 1) = .ok (sampleAgentBundle 1) ∧
    buildWitnessInputs (sampleWitnessParams 1) = some inputs ∧
    fieldOf inputs.inPrivateKey.2 = some ((2 ^ 248 : ℕ) : F) ∧
    ¬ HandsOver smallPoseidon2 1 (sampleBundle 1) inputs := by
  obtain ⟨s', henroll⟩ := exec_enrollAgent_sample 1
  obtain ⟨inputs, hinputs⟩ := buildWitnessInputs_sample 1
  have hvalue : reverseBytes 32 (1 : F).val % bn256Modulus = 2 ^ 248 := by decide +kernel
  have htext : inputs.inPrivateKey = ((2 ^ 248 : ℕ).repr, (2 ^ 248 : ℕ).repr) := by
    rw [buildWitnessInputs,
      show (sampleWitnessParams 1).orgSpendingPrivKey = bytesToHex (scalarToBytes 1) from rfl,
      normalizeField_scalarToBytes, hvalue] at hinputs
    cases hinputs
    rfl
  refine ⟨s', inputs, henroll, loadBundle_sample 1, hinputs, by rw [htext, fieldOf_repr], ?_⟩
  intro h
  have hslot := h.nullSlot
  rw [htext, fieldOf_repr] at hslot
  exact absurd (Option.some.inj hslot) (by decide +kernel)

end Enclave.Agent

import Enclave.App.TransactionBuilder
import Enclave.Prover.Frames

/-! # The organisations' registry

`app/js/enclave/registry.js` and the deposit of `app/js/enclave/deposit.js`: a deposit tags its two
outputs, so that the dashboard can tell which settlements spent them.  A tag carries a nullifier,
derived before the position of the output is known. -/

namespace Enclave.App

open Prover Js

variable (P : Poseidon2)

/-- A row of `enclave_orgs`, what a deposit reads of it. -/
structure EnclaveOrg where
  adminAddress : String
  orgId : String
deriving DecidableEq

/-- The spending keys of an organisation: the public one is derived from the other. -/
structure OrgKeys where
  orgSpendingPrivKey : List UInt8
  orgSpendingPubKey : List UInt8
  derived : derivePublicKey P orgSpendingPrivKey = .ok orgSpendingPubKey

/-- A row of `enclave_note_tags`. -/
structure NoteTag where
  commitment : String
  orgId : String
  ledger : ℕ
  amount : String
  nullifier : Option String
deriving DecidableEq

/-- `STORES.enclave_note_tags`; neither index is unique. -/
def noteTagsSchema : StoreSchema NoteTag String String where
  keyPath := NoteTag.commitment
  uniqueIndexes := []

theorem uniqueIndexes_noteTags : noteTagsSchema.uniqueIndexes = [] := rfl

abbrev NoteTags := ObjectStore noteTagsSchema

/-- `putNoteTag`. -/
def NoteTags.putNoteTag (tags : NoteTags) (row : NoteTag) : NoteTags :=
  tags.putPlain uniqueIndexes_noteTags row

/-- `listNoteTags`. -/
def NoteTags.listNoteTags (tags : NoteTags) (orgId : String) : List NoteTag :=
  tags.records.filter fun row => row.orgId = orgId

/-- `getNoteTagByNullifier`: of the rows under one index key, the first. -/
def NoteTags.getNoteTagByNullifier (tags : NoteTags) (nullifier : String) : Option NoteTag :=
  tags.records.find? fun row => row.nullifier = some nullifier

/-! ### Deposits -/

/-- What a deposit finds: the organisations by their admins, and the keys in the session. -/
structure OrgSession where
  orgs : String → Option EnclaveOrg
  keys : String → Option (OrgKeys P)

variable {P}

/-- The tag of an output.  Its position is not known yet: the nullifier is that of position 0. -/
def noteTag (org : EnclaveOrg) (keys : OrgKeys P) (commitment : ℕ) (amount : ℤ) :
    Result NoteTag := do
  let commitmentBytes ← bigintToField commitment
  let pathIndicesBytes ← bigintToField 0
  let signatureBytes ← computeSignature P keys.orgSpendingPrivKey commitmentBytes pathIndicesBytes
  let nullifierBytes ← computeNullifier P commitmentBytes pathIndicesBytes signatureBytes
  let nullifierDecimal := (bytesToBigIntLE nullifierBytes).repr
  return ⟨hex64 commitment, org.orgId, 0, bigIntToString amount, some nullifierDecimal⟩

/-- `depositForOrg`: whether it succeeded.  The blindings are what `generateBlinding` yields, and
`submitted` what `submitDeposit` answers. -/
def depositForOrg (session : OrgSession P) (adminAddress : String) (amountStroops : ℤ)
    (blinding0 blinding1 : List UInt8) (submitted : Bool) : Wasm NoteTags Bool := do
  if adminAddress = "" then throw (.error "depositForOrg: adminAddress required")
  else if amountStroops ≤ 0 then
    throw (.error "depositForOrg: amountStroops must be a positive BigInt")
  else
    match session.orgs adminAddress with
    | none => throw (.error s!"No org exists for {adminAddress}. Create an org first.")
    | some org =>
        match session.keys adminAddress with
        | none => throw (.error
            "Org spending key not in session cache. Run Create Org or reconnect Freighter.")
        | some keys => do
            let output0 ← Wasm.ofResult (createOutput P amountStroops keys.orgSpendingPubKey
              (bytesToBigIntLE blinding0))
            let output1 ← Wasm.ofResult (createOutput P 0 keys.orgSpendingPubKey
              (bytesToBigIntLE blinding1))
            if submitted = false then return false
            else do
              let tag0 ← Wasm.ofResult (noteTag org keys output0.commitmentBig amountStroops)
              modify fun tags => NoteTags.putNoteTag tags tag0
              let tag1 ← Wasm.ofResult (noteTag org keys output1.commitmentBig 0)
              modify fun tags => NoteTags.putNoteTag tags tag1
              return true

/-! ### Notes -/

/-- An output of a deposit, with the position at which it landed. -/
structure OrgNote where
  orgId : String
  privateKey : F
  amount : ℤ
  commitment : F
  leafIndex : ℕ
deriving DecidableEq

def OrgNote.nullifierAt (P : Poseidon2) (note : OrgNote) (leafIndex : ℕ) : F :=
  Circuits.nullifier P note.privateKey note.commitment leafIndex

def OrgNote.nullifierQuery (P : Poseidon2) (note : OrgNote) (leafIndex : ℕ) : Query :=
  .hash3 note.commitment leafIndex
    (Circuits.signature P note.privateKey note.commitment leafIndex) ((2 : ℕ) : F)

/-- The tag that the deposit of the note stores. -/
def OrgNote.tag (P : Poseidon2) (note : OrgNote) : NoteTag :=
  ⟨hex64 note.commitment.val, note.orgId, 0, bigIntToString note.amount,
    some (note.nullifierAt P 0).val.repr⟩

def depositedNotes (org : EnclaveOrg) (keys : OrgKeys P) (amount : ℤ) (commitments : F × F)
    (leafIndices : ℕ × ℕ) : OrgNote × OrgNote :=
  (⟨org.orgId, (leValue keys.orgSpendingPrivKey : F), amount, commitments.1, leafIndices.1⟩,
    ⟨org.orgId, (leValue keys.orgSpendingPrivKey : F), 0, commitments.2, leafIndices.2⟩)

theorem OrgKeys.length_eq (keys : OrgKeys P) : keys.orgSpendingPrivKey.length = fieldSize := by
  have h := keys.derived
  by_contra hlen
  rw [derivePublicKey, bytesToScalar, if_pos hlen] at h
  cases h

/-- **The tag of an output.** -/
theorem noteTag_eq (org : EnclaveOrg) (keys : OrgKeys P) (c : F) (amount : ℤ) (leafIndex : ℕ) :
    noteTag org keys c.val amount =
      .ok ((⟨org.orgId, (leValue keys.orgSpendingPrivKey : F), amount, c, leafIndex⟩ :
        OrgNote).tag P) := by
  have hzero : bigintToField 0 = .ok (scalarToBytes ((0 : ℕ) : F)) :=
    bigintToField_natCast (n := 0) (by decide)
  have hkey : ∀ commitment path, computeSignature P keys.orgSpendingPrivKey commitment path =
      computeSignature P (scalarToBytes (leValue keys.orgSpendingPrivKey : F)) commitment path := by
    intro commitment path
    unfold computeSignature
    rw [bytesToScalar_of_length keys.length_eq, bytesToScalar_scalarToBytes]
  have hnullifier := @computeNullifier_scalarToBytes P (leValue keys.orgSpendingPrivKey : F) c
    ((0 : ℕ) : F)
  simp only [noteTag, bigintToField_val, Result.ok_bind, hzero, hkey]
  obtain ⟨signature, hsignature, hhash⟩ := Result.bind_eq_ok.mp hnullifier
  rw [hsignature, Result.ok_bind, hhash, Result.ok_bind, bytesToBigIntLE_scalarToBytes]
  rfl

theorem commitmentBig_of_createOutput {amount blinding : ℤ} {pubKeyBytes : List UInt8}
    {output : OutputNote} (h : createOutput P amount pubKeyBytes blinding = .ok output) :
    ∃ c : F, output.commitmentBig = c.val := by
  unfold createOutput at h
  obtain ⟨amountBytes, -, h₁⟩ := Result.bind_eq_ok.mp h
  obtain ⟨blindingBytes, -, h₂⟩ := Result.bind_eq_ok.mp h₁
  obtain ⟨commitment, hcommitment, h₃⟩ := Result.bind_eq_ok.mp h₂
  cases h₃
  unfold computeCommitment at hcommitment
  obtain ⟨amt, -, h₄⟩ := Result.bind_eq_ok.mp hcommitment
  obtain ⟨pk, -, h₅⟩ := Result.bind_eq_ok.mp h₄
  obtain ⟨blind, -, h₆⟩ := Result.bind_eq_ok.mp h₅
  cases h₆
  exact ⟨_, bytesToBigIntLE_scalarToBytes _⟩

/-- **A deposit that succeeds** stores the tags of its two notes. -/
theorem depositForOrg_ok {session : OrgSession P} {adminAddress : String} {amount : ℤ}
    {blinding0 blinding1 : List UInt8} {submitted : Bool} {tags tags' : NoteTags}
    (h : (depositForOrg session adminAddress amount blinding0 blinding1 submitted).exec tags =
      (.ok true, tags')) :
    ∃ org keys output0 output1, session.orgs adminAddress = some org ∧
      session.keys adminAddress = some keys ∧ 0 < amount ∧
      createOutput P amount keys.orgSpendingPubKey (bytesToBigIntLE blinding0) = .ok output0 ∧
      createOutput P 0 keys.orgSpendingPubKey (bytesToBigIntLE blinding1) = .ok output1 ∧
      ∀ leafIndices, 
        let notes := depositedNotes org keys amount
          ((output0.commitmentBig : F), (output1.commitmentBig : F)) leafIndices
        tags' = (tags.putNoteTag (notes.1.tag P)).putNoteTag (notes.2.tag P) := by
  unfold depositForOrg at h
  by_cases haddress : adminAddress = ""
  · rw [if_pos haddress] at h
    cases h
  rw [if_neg haddress] at h
  by_cases hamount : amount ≤ 0
  · rw [if_pos hamount] at h
    cases h
  rw [if_neg hamount] at h
  cases horg : session.orgs adminAddress with
  | none =>
      rw [horg] at h
      cases h
  | some org =>
      cases hkeys : session.keys adminAddress with
      | none =>
          rw [horg, hkeys] at h
          cases h
      | some keys =>
          rw [horg, hkeys] at h
          obtain ⟨output0, s₁, hexec0, h₁⟩ := Wasm.exec_bind_eq_ok.mp h
          obtain ⟨h0, rfl⟩ := Wasm.exec_ofResult_eq_ok.mp hexec0
          obtain ⟨output1, s₂, hexec1, h₂⟩ := Wasm.exec_bind_eq_ok.mp h₁
          obtain ⟨h1, rfl⟩ := Wasm.exec_ofResult_eq_ok.mp hexec1
          refine ⟨org, keys, output0, output1, rfl, rfl, not_le.mp hamount, h0, h1, ?_⟩
          intro leafIndices notes
          obtain ⟨c0, hc0⟩ := commitmentBig_of_createOutput h0
          obtain ⟨c1, hc1⟩ := commitmentBig_of_createOutput h1
          have htag0 := noteTag_eq org keys c0 amount leafIndices.1
          have htag1 := noteTag_eq org keys c1 0 leafIndices.2
          rw [← hc0] at htag0
          rw [← hc1] at htag1
          by_cases hsubmitted : submitted = false
          · rw [if_pos hsubmitted] at h₂
            cases h₂
          · rw [if_neg hsubmitted, htag0, htag1] at h₂
            cases h₂
            have hnotes : notes = depositedNotes org keys amount (c0, c1) leafIndices := by
              simp only [notes, hc0, hc1, F.natCast_val]
            rw [hnotes]
            rfl

theorem exec_depositForOrg {session : OrgSession P} {adminAddress : String} {amount : ℤ}
    {blinding0 blinding1 : List UInt8} {org : EnclaveOrg} {keys : OrgKeys P}
    {output0 output1 : OutputNote} (haddress : adminAddress ≠ "") (hamount : 0 < amount)
    (horg : session.orgs adminAddress = some org) (hkeys : session.keys adminAddress = some keys)
    (h0 : createOutput P amount keys.orgSpendingPubKey (bytesToBigIntLE blinding0) = .ok output0)
    (h1 : createOutput P 0 keys.orgSpendingPubKey (bytesToBigIntLE blinding1) = .ok output1)
    (leafIndices : ℕ × ℕ) (tags : NoteTags) :
    let notes := depositedNotes org keys amount
      ((output0.commitmentBig : F), (output1.commitmentBig : F)) leafIndices
    (depositForOrg session adminAddress amount blinding0 blinding1 true).exec tags =
      (.ok true, (tags.putNoteTag (notes.1.tag P)).putNoteTag (notes.2.tag P)) := by
  obtain ⟨c0, hc0⟩ := commitmentBig_of_createOutput h0
  obtain ⟨c1, hc1⟩ := commitmentBig_of_createOutput h1
  have htag0 := noteTag_eq org keys c0 amount leafIndices.1
  have htag1 := noteTag_eq org keys c1 0 leafIndices.2
  intro notes
  have hnotes : notes = depositedNotes org keys amount (c0, c1) leafIndices := by
    simp only [notes, hc0, hc1, F.natCast_val]
  rw [← hc0] at htag0
  rw [← hc1] at htag1
  unfold depositForOrg
  rw [if_neg haddress, if_neg (not_le.mpr hamount), horg, hkeys]
  dsimp only
  rw [h0, h1, Wasm.exec_bind_of_ok (Wasm.exec_ofResult_eq_ok.mpr ⟨rfl, rfl⟩),
    Wasm.exec_bind_of_ok (Wasm.exec_ofResult_eq_ok.mpr ⟨rfl, rfl⟩), if_neg (by decide), htag0,
    htag1, hnotes]
  rfl

end Enclave.App

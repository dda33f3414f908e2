import Enclave.App.SavedNotes

/-! # Stored blindings

Writers and readers of the blinding of a note agree exactly if they take the bytes of the text in
one order, or the order makes no difference (`stored_blinding_iff`). -/

namespace Enclave.App

open Prover Js Bytes

/-- The blinding that `exportEnclaveNotes` puts into a note. -/
def exportBlinding (note : UserNote) : String :=
  (bytesToBigIntLE (Hex.fromHex (strip0x (codeUnits note.blinding))) % bn256Modulus).repr

/-- Where stored blindings are read: `createRealInput`, `exportEnclaveNotes`. -/
inductive Reader where
  | realInput
  | enclaveNotes
deriving DecidableEq

/-- A reader finds a blinding in a note. -/
def Reader.Finds (P : Poseidon2) (keypair : Keypair) (merkleProof : PoolMerkleProof)
    (reader : Reader) (note : UserNote) (blinding : F) : Prop :=
  match reader with
  | .realInput => ∃ input, createRealInput P keypair.privateKey keypair.publicKey note
      merkleProof = .ok input ∧ input.blinding = blinding.val
  | .enclaveNotes => exportBlinding note = blinding.val.repr

/-- What a writer's text of a blinding means to a reader is the blinding. -/
def SameBlinding (writer : Writer) (reader : Reader) (blinding : F) : Prop :=
  match reader with
  | .realInput => writer.bigEndian = true ∨ reverseBytes 32 blinding.val = blinding.val
  | .enclaveNotes =>
      writer.bigEndian = false ∨ reverseBytes 32 blinding.val % bn256Modulus = blinding.val

/-- `BigInt` and `bigintToField` read the text of an amount. -/
def AmountReadable (text : String) : Prop :=
  ∃ bytes, (toBigInt text >>= bigintToField) = .ok bytes

/-! ### Reading -/

theorem toBigInt_bytesToHex {bytes : List UInt8} (h : bytes ≠ []) :
    toBigInt (bytesToHex bytes) = .ok (leValue bytes.reverse : ℤ) := by
  rw [toBigInt, bytesToHex, Hex.bigInt_prefixed_toHex h]
  rfl

theorem toBigInt_fieldText (bigEndian : Bool) (x : F) : toBigInt (fieldText bigEndian x) =
    .ok ((if bigEndian then x.val else reverseBytes 32 x.val : ℕ) : ℤ) := by
  have hne : scalarToBytes x ≠ [] := by
    apply List.ne_nil_of_length_pos
    rw [length_scalarToBytes]
    decide
  unfold fieldText
  cases bigEndian
  · exact toBigInt_bytesToHex hne
  · rw [if_pos rfl, hex64_natCast (F.val_lt_word x), if_pos rfl, ← fieldSize, ← scalarToBytes,
      toBigInt_bytesToHex (List.reverse_eq_nil_iff.not.mpr hne), List.reverse_reverse,
      leValue_scalarToBytes]

theorem fromHex_bytesToHex (bytes : List UInt8) :
    Hex.fromHex (strip0x (codeUnits (bytesToHex bytes))) = bytes := by
  rw [strip0x_codeUnits_bytesToHex, Hex.fromHex_toHex]

theorem fromHex_fieldText (bigEndian : Bool) (x : F) :
    bytesToBigIntLE (Hex.fromHex (strip0x (codeUnits (fieldText bigEndian x)))) =
      if bigEndian then reverseBytes 32 x.val else x.val := by
  unfold fieldText
  cases bigEndian
  · rw [if_neg Bool.false_ne_true, fromHex_bytesToHex, bytesToBigIntLE_scalarToBytes]
    rfl
  · rw [if_pos rfl, hex64_natCast (F.val_lt_word x), fromHex_bytesToHex, bytesToBigIntLE_eq]
    rfl

theorem repr_injective {n m : ℕ} (h : n.repr = m.repr) : n = m := by
  have hread := bigInt_repr n
  rw [h, bigInt_repr] at hread
  exact (Int.ofNat_inj.mp (Option.some.inj hread)).symm

theorem exists_scalarToBytes_of_bigintToField {value : ℤ} {bytes : List UInt8}
    (h : bigintToField value = .ok bytes) : ∃ x, bytes = scalarToBytes x := by
  rw [bigintToField, hexToFieldBytes] at h
  cases hscalar : hexToScalar (String.ofList ('0' :: 'x' :: toString16 value)) with
  | error e =>
      rw [hscalar] at h
      cases h
  | ok x =>
      rw [hscalar] at h
      exact ⟨x, (Except.ok.inj h).symm⟩

theorem amountReadable_bigIntToString {amount : ℕ} (h : amount < 2 ^ 256) :
    AmountReadable (bigIntToString amount) := by
  have hread : toBigInt (bigIntToString (amount : ℤ)) = .ok (amount : ℤ) := by
    rw [toBigInt, bigInt_bigIntToString]
    rfl
  exact ⟨_, by rw [hread, Result.ok_bind, bigintToField_natCast h]⟩

/-! ### What the readers find -/

variable {P : Poseidon2} {numberText : ℤ → String}

theorem createRealInput_ok {privKeyBytes pubKeyBytes : List UInt8} {note : UserNote}
    {merkleProof : PoolMerkleProof} {input : InputNote}
    (h : createRealInput P privKeyBytes pubKeyBytes note merkleProof = .ok input) :
    toBigInt note.blinding = .ok input.blinding ∧ AmountReadable note.amount := by
  unfold createRealInput at h
  obtain ⟨amount, hamount, h⟩ := Result.bind_eq_ok.mp h
  obtain ⟨blinding, hblinding, h⟩ := Result.bind_eq_ok.mp h
  split at h
  · cases h
  · obtain ⟨amountBytes, hfield, h⟩ := Result.bind_eq_ok.mp h
    obtain ⟨_, -, h⟩ := Result.bind_eq_ok.mp h
    obtain ⟨_, -, h⟩ := Result.bind_eq_ok.mp h
    obtain ⟨_, -, h⟩ := Result.bind_eq_ok.mp h
    obtain ⟨_, -, h⟩ := Result.bind_eq_ok.mp h
    cases h
    exact ⟨hblinding, amountBytes, by rw [hamount, Result.ok_bind, hfield]⟩

theorem exists_createRealInput {note : UserNote} {merkleProof : PoolMerkleProof}
    {sk pubkey pathIndices blinding : F}
    (hproof : merkleProof.pathIndices = scalarToBytes pathIndices)
    (hread : toBigInt note.blinding = .ok (blinding.val : ℤ))
    (hamount : AmountReadable note.amount) :
    ∃ input, createRealInput P (scalarToBytes sk) (scalarToBytes pubkey) note merkleProof =
      .ok input ∧ input.blinding = blinding.val := by
  obtain ⟨bytes, hbytes⟩ := hamount
  obtain ⟨amount, hamount, hfield⟩ := Result.bind_eq_ok.mp hbytes
  obtain ⟨x, rfl⟩ := exists_scalarToBytes_of_bigintToField hfield
  have hlt := F.val_lt blinding
  have hcanonical : ¬ (blinding.val : ℤ) ≥ bn256Modulus := by omega
  unfold createRealInput
  rw [hamount, Result.ok_bind, hread, Result.ok_bind, if_neg hcanonical, hfield, Result.ok_bind,
    bigintToField_val, Result.ok_bind, computeCommitment_scalarToBytes, Result.ok_bind, hproof,
    ← bind_assoc, computeNullifier_scalarToBytes, Result.ok_bind]
  exact ⟨_, rfl, rfl⟩

theorem finds_realInput_iff {note : UserNote} {merkleProof : PoolMerkleProof}
    {sk pathIndices blinding : F} {value : ℕ}
    (hproof : merkleProof.pathIndices = scalarToBytes pathIndices)
    (hread : toBigInt note.blinding = .ok (value : ℤ)) :
    Reader.Finds P (keypairOf P sk) merkleProof .realInput note blinding ↔
      value = blinding.val ∧ AmountReadable note.amount := by
  constructor
  · rintro ⟨input, hinput, hblinding⟩
    obtain ⟨hfound, hamount⟩ := createRealInput_ok hinput
    rw [hblinding, hread] at hfound
    exact ⟨Int.ofNat_inj.mp (Except.ok.inj hfound), hamount⟩
  · rintro ⟨rfl, hamount⟩
    exact exists_createRealInput hproof hread hamount

theorem finds_enclaveNotes_iff {note : UserNote} {keypair : Keypair}
    {merkleProof : PoolMerkleProof} {blinding : F} {value : ℕ}
    (hread : bytesToBigIntLE (Hex.fromHex (strip0x (codeUnits note.blinding))) = value) :
    Reader.Finds P keypair merkleProof .enclaveNotes note blinding ↔
      value % bn256Modulus = blinding.val := by
  constructor
  · intro h
    have hrepr := repr_injective h
    rwa [hread] at hrepr
  · intro h
    rw [Reader.Finds, exportBlinding, hread, h]

/-- **A stored blinding is found exactly if writer and reader take its bytes in one order**, or the
order makes no difference; `createRealInput` must read the amount, too. -/
theorem stored_blinding_iff (writer : Writer) (reader : Reader) {amount : ℕ}
    {blinding sk pathIndices : F} {outputNote : OutputNote} (hamount : amount < 2 ^ 256)
    (houtput : createOutput P amount (scalarToBytes (Circuits.publicKey P sk)) blinding.val =
      .ok outputNote) {merkleProof : PoolMerkleProof}
    (hproof : merkleProof.pathIndices = scalarToBytes pathIndices) {leafIndex ledger : ℕ}
    {owner : String} {currentOwner : Option String} {params : SaveParams}
    (hparams : writer.params numberText outputNote (keypairOf P sk) leafIndex ledger owner =
      .ok params) :
    reader.Finds P (keypairOf P sk) merkleProof (savedNote currentOwner params) blinding ↔
      SameBlinding writer reader blinding ∧
        (reader = .realInput → AmountReadable (writer.amountText numberText amount)) := by
  obtain ⟨params', hparams', -, -, hblinding, htext, -⟩ :=
    Writer.exists_params numberText writer hamount houtput (keypairOf P sk) leafIndex ledger owner
  obtain rfl := Except.ok.inj (hparams.symm.trans hparams')
  have hnote : (savedNote currentOwner params).blinding = fieldText writer.bigEndian blinding :=
    hblinding
  have hnoteAmount : (savedNote currentOwner params).amount =
      writer.amountText numberText amount := htext
  cases reader with
  | realInput =>
      have hread := toBigInt_fieldText writer.bigEndian blinding
      rw [← hnote] at hread
      rw [finds_realInput_iff hproof hread, hnoteAmount, SameBlinding]
      cases writer.bigEndian <;> simp
  | enclaveNotes =>
      have hread := fromHex_fieldText writer.bigEndian blinding
      rw [← hnote] at hread
      rw [finds_enclaveNotes_iff hread, SameBlinding]
      have hmod : blinding.val % bn256Modulus = blinding.val := Nat.mod_eq_of_lt (F.val_lt blinding)
      cases writer.bigEndian <;> simp [hmod]

theorem stored_blinding_iff_sample : ∃ outputNote params,
    createOutput smallPoseidon2 (7 : ℕ) (scalarToBytes (Circuits.publicKey smallPoseidon2 1))
      (5 : F).val = .ok outputNote ∧
    Writer.deposit.params bigIntToString outputNote (keypairOf smallPoseidon2 1) 4 90 "owner" =
      .ok params ∧
    (Reader.realInput.Finds smallPoseidon2 (keypairOf smallPoseidon2 1)
        ⟨[], scalarToBytes 4⟩ (savedNote none params) 5 ↔
      SameBlinding .deposit .realInput 5 ∧
        (Reader.realInput = .realInput → AmountReadable (bigIntToString (7 : ℕ)))) := by
  have houtput := @createOutput_natCast smallPoseidon2 7 (5 : F).val (by decide) (F.val_lt_word 5)
    (Circuits.publicKey smallPoseidon2 1)
  obtain ⟨params, hparams, -⟩ := Writer.exists_params bigIntToString .deposit (by decide) houtput
    (keypairOf smallPoseidon2 1) 4 90 "owner"
  exact ⟨_, params, houtput, hparams, stored_blinding_iff .deposit .realInput (by decide) houtput
    rfl hparams⟩

/-- A change output of a transfer with blinding 1 is read as 2^248. -/
theorem transfer_blinding_reversed : ∃ outputNote params,
    createOutput smallPoseidon2 (7 : ℕ) (scalarToBytes (Circuits.publicKey smallPoseidon2 1))
      (1 : F).val = .ok outputNote ∧
    Writer.transfer.params bigIntToString outputNote (keypairOf smallPoseidon2 1) 4 90 "owner" =
      .ok params ∧
    ¬ Reader.realInput.Finds smallPoseidon2 (keypairOf smallPoseidon2 1) ⟨[], scalarToBytes 4⟩
      (savedNote none params) 1 := by
  have houtput := @createOutput_natCast smallPoseidon2 7 (1 : F).val (by decide) (F.val_lt_word 1)
    (Circuits.publicKey smallPoseidon2 1)
  obtain ⟨params, hparams, -, -, hblinding, -⟩ := Writer.exists_params bigIntToString .transfer
    (by decide) houtput (keypairOf smallPoseidon2 1) 4 90 "owner"
  refine ⟨_, params, houtput, hparams, fun hfinds => ?_⟩
  have hread : toBigInt (savedNote none params).blinding =
      .ok ((reverseBytes 32 (1 : F).val : ℕ) : ℤ) := by
    rw [savedNote, hblinding]
    exact toBigInt_fieldText false 1
  have hreverse : reverseBytes 32 (1 : F).val ≠ (1 : F).val := by decide +kernel
  exact hreverse ((finds_realInput_iff rfl hread).mp hfinds).1

end Enclave.App

import Enclave.App.Blindings
import Enclave.App.CircuitInputs

/-! # Balanced inputs

The part of the circuit that is about the transaction itself: two inputs and two outputs, their
nullifiers and commitments, and the balance of the amounts modulo the order of the field
(`TransactionPart`).  What the builder makes of a withdrawal or of a transfer satisfies it
(`withdrawal_or_transfer_part`).

The hashes are computed on bytes, and the circuit reads decimal texts.  Both are residues of the
same integers: `bigintToField` of an integer is the bytes of its residue (`bigintToField_ok`), and
`toString` writes the integer itself. -/

namespace Enclave.App

open Prover Js Stellar

/-! ### Bytes and residues -/

/-- The field element that bytes stand for. -/
def residue (bytes : List UInt8) : F := (leValue bytes : F)

@[simp] theorem residue_scalarToBytes (x : F) : residue (scalarToBytes x) = x := by
  rw [residue, leValue_scalarToBytes, F.natCast_val]

theorem residue_eq (bytes : List UInt8) : residue bytes = (bytesToBigIntLE bytes : F) := by
  rw [residue, bytesToBigIntLE_eq]

theorem bytesToScalar_ok {bytes : List UInt8} {x : F} (h : bytesToScalar bytes = .ok x) :
    x = residue bytes := by
  unfold bytesToScalar at h
  split at h
  · cases h
  · exact (Except.ok.inj h).symm

theorem byteFromRadix_minus (d : Char) :
    byteFromRadix ('-', d) = none ∧ byteFromRadix (d, '-') = none := by
  have hminus : digitIn 16 '-' = none := by decide
  have hplus : ¬ '-' = '+' := by decide
  constructor
  · rw [byteFromRadix, if_neg hplus, hminus]
    rfl
  · rw [byteFromRadix]
    split_ifs
    · rw [hminus]
      rfl
    · rw [hminus]
      cases digitIn 16 d <;> rfl

theorem mapM_pairs_minus {cs : List Char} (heven : cs.length % 2 = 0) (h : '-' ∈ cs) :
    (Hex.pairs cs).mapM byteFromRadix = none := by
  induction cs using Hex.pairs.induct with
  | case1 a b rest ih =>
      rw [Hex.pairs, List.mapM_cons]
      rw [List.length_cons, List.length_cons] at heven
      obtain rfl | h := List.mem_cons.mp h
      · rw [(byteFromRadix_minus b).1]
        rfl
      · obtain rfl | h := List.mem_cons.mp h
        · rw [(byteFromRadix_minus a).2]
          rfl
        · rw [ih (by omega) h]
          cases byteFromRadix (a, b) <;> rfl
  | case2 cs hcs =>
      cases cs with
      | nil => cases h
      | cons a cs =>
          cases cs with
          | nil => cases heven
          | cons b rest => exact absurd rfl (hcs a b rest)

theorem length_le_utf8 (cs : List Char) : cs.length ≤ (cs.map Char.utf8Size).sum := by
  induction cs with
  | nil => exact Nat.le_refl _
  | cons c cs ih =>
      have := c.utf8Size_pos
      rw [List.map_cons, List.sum_cons, List.length_cons]
      omega

theorem hexToScalar_refused {cs : List Char} (h : 64 < cs.length ∨ '-' ∈ cs) :
    ∃ e, hexToScalar (String.ofList ('0' :: 'x' :: cs)) = .error e := by
  have hstrip : strip0x (String.ofList ('0' :: 'x' :: cs)).toList = cs := by
    rw [String.toList_ofList]
    exact if_pos rfl
  have hlen := length_le_utf8 cs
  unfold hexToScalar
  simp only [hstrip]
  split_ifs with hlong
  · exact ⟨_, rfl⟩
  · have hminus := h.resolve_left (by omega)
    have hpad : (cs.leftpad 64 '0').length % 2 = 0 := by
      rw [List.length_leftpad, Nat.max_eq_left (by omega)]
    rw [mapM_pairs_minus hpad (List.mem_append_right _ hminus)]
    exact ⟨_, rfl⟩

/-- **`bigintToField`** gives the bytes of the residue, or throws. -/
theorem bigintToField_ok {value : ℤ} {bytes : List UInt8} (h : bigintToField value = .ok bytes) :
    bytes = scalarToBytes (value : F) := by
  have hrefused : ∀ cs : List Char, toString16 value = cs → ¬ (64 < cs.length ∨ '-' ∈ cs) := by
    rintro cs rfl hcs
    obtain ⟨e, he⟩ := hexToScalar_refused hcs
    rw [bigintToField, hexToFieldBytes, he] at h
    cases h
  rcases lt_or_ge value 0 with hneg | hnonneg
  · refine absurd (.inr List.mem_cons_self) (hrefused ('-' :: Nat.toDigits 16 value.natAbs) ?_)
    rw [toString16]
    exact if_pos hneg
  · obtain ⟨n, rfl⟩ := Int.eq_ofNat_of_zero_le hnonneg
    have hdigits : toString16 n = Nat.toDigits 16 n := by
      rw [toString16, if_neg (by omega), Int.natAbs_natCast]
    have hlen : (Nat.toDigits 16 n).length ≤ 64 := not_lt.mp fun hlt =>
      hrefused _ hdigits (.inl hlt)
    have hlt := (Nat.length_toDigits_le_iff (by decide) (by decide)).mp hlen
    rw [bigintToField_natCast (by rwa [show (16 : ℕ) ^ 64 = 2 ^ 256 by norm_num] at hlt)] at h
    rw [← Except.ok.inj h, Int.cast_natCast]

variable {P : Poseidon2}

theorem derivePublicKey_ok {priv pub : List UInt8} (h : derivePublicKey P priv = .ok pub) :
    pub = scalarToBytes (Circuits.publicKey P (residue priv)) := by
  obtain ⟨sk, hsk, h⟩ := Result.bind_eq_ok.mp h
  rw [← Except.ok.inj h, bytesToScalar_ok hsk, Circuits.publicKey, Nat.cast_ofNat]

theorem computeCommitment_ok {amount pubkey blinding commitment : List UInt8}
    (h : computeCommitment P amount pubkey blinding = .ok commitment) :
    commitment =
      scalarToBytes (Circuits.commitment P (residue amount) (residue pubkey) (residue blinding)) := by
  obtain ⟨a, ha, h⟩ := Result.bind_eq_ok.mp h
  obtain ⟨pk, hpk, h⟩ := Result.bind_eq_ok.mp h
  obtain ⟨b, hb, h⟩ := Result.bind_eq_ok.mp h
  rw [← Except.ok.inj h, bytesToScalar_ok ha, bytesToScalar_ok hpk, bytesToScalar_ok hb,
    Circuits.commitment, Nat.cast_one]

theorem computeNullifier_ok {priv commitment path signature nullifier : List UInt8}
    (hs : computeSignature P priv commitment path = .ok signature)
    (h : computeNullifier P commitment path signature = .ok nullifier) :
    nullifier =
      scalarToBytes (Circuits.nullifier P (residue priv) (residue commitment) (residue path)) := by
  obtain ⟨sk, hsk, hs⟩ := Result.bind_eq_ok.mp hs
  obtain ⟨c, hc, hs⟩ := Result.bind_eq_ok.mp hs
  obtain ⟨p, hp, hs⟩ := Result.bind_eq_ok.mp hs
  obtain ⟨c', hc', h⟩ := Result.bind_eq_ok.mp h
  obtain ⟨p', hp', h⟩ := Result.bind_eq_ok.mp h
  obtain ⟨s, hsig, h⟩ := Result.bind_eq_ok.mp h
  rw [← Except.ok.inj h, bytesToScalar_ok hsig, ← Except.ok.inj hs, residue_scalarToBytes,
    bytesToScalar_ok hsk, bytesToScalar_ok hc, bytesToScalar_ok hp, bytesToScalar_ok hc',
    bytesToScalar_ok hp', Circuits.nullifier, Circuits.signature, Nat.cast_ofNat, Nat.cast_ofNat]

/-! ### Signals -/

/-- A decimal text denotes a field element. -/
def Denotes (text : String) (x : F) : Prop := (bigInt text).map (Int.cast : ℤ → F) = some x

theorem denotes_bigIntToString (n : ℤ) : Denotes (bigIntToString n) n := by
  rw [Denotes, bigInt_bigIntToString, Option.map_some]

theorem denotes_repr (n : ℕ) : Denotes n.repr n := by
  rw [Denotes, bigInt_repr, Option.map_some, Int.cast_natCast]

theorem denotes_zero : Denotes "0" 0 := denotes_repr 0

theorem Denotes.iff_eq {text : String} {x : F} (h : Denotes text x) (y : F) :
    Denotes text y ↔ x = y := by
  rw [Denotes, h, Option.some_inj]

/-- The private signals of an input that its nullifier is computed of. -/
structure SpentSignals where
  amount : F
  privateKey : F
  blinding : F
  pathIndices : F

def SpentSignals.nullifier (P : Poseidon2) (s : SpentSignals) : F :=
  Circuits.nullifier P s.privateKey
    (Circuits.commitment P s.amount (Circuits.publicKey P s.privateKey) s.blinding) s.pathIndices

def outputCommitment (P : Poseidon2) (o : Circuits.Output) : F :=
  Circuits.commitment P o.outAmount o.outPubkey o.outBlinding

/-- As many inputs and outputs as the circuit has, in every array. -/
structure CircuitInputs.Sized (ci : CircuitInputs) (nIns nOuts : ℕ) : Prop where
  inputNullifier : ci.inputNullifier.length = nIns
  inAmount : ci.inAmount.length = nIns
  inPrivateKey : ci.inPrivateKey.length = nIns
  inBlinding : ci.inBlinding.length = nIns
  inPathIndices : ci.inPathIndices.length = nIns
  inPathElements : ci.inPathElements.length = nIns
  membershipRoots : ci.membershipRoots.length = nIns
  nonMembershipRoots : ci.nonMembershipRoots.length = nIns
  membershipProofs : ci.membershipProofs.length = nIns
  nonMembershipProofs : ci.nonMembershipProofs.length = nIns
  outputCommitment : ci.outputCommitment.length = nOuts
  outAmount : ci.outAmount.length = nOuts
  outPubkey : ci.outPubkey.length = nOuts
  outBlinding : ci.outBlinding.length = nOuts

structure CircuitInputs.Reads (ci : CircuitInputs) (publicAmount : F) (ins : List SpentSignals)
    (outs : List Circuits.Output) : Prop where
  publicAmount : Denotes ci.publicAmount publicAmount
  inAmount : List.Forall₂ Denotes ci.inAmount (ins.map SpentSignals.amount)
  inPrivateKey : List.Forall₂ Denotes ci.inPrivateKey (ins.map SpentSignals.privateKey)
  inBlinding : List.Forall₂ Denotes ci.inBlinding (ins.map SpentSignals.blinding)
  inPathIndices : List.Forall₂ Denotes ci.inPathIndices (ins.map SpentSignals.pathIndices)
  outAmount : List.Forall₂ Denotes ci.outAmount (outs.map Circuits.Output.outAmount)
  outPubkey : List.Forall₂ Denotes ci.outPubkey (outs.map Circuits.Output.outPubkey)
  outBlinding : List.Forall₂ Denotes ci.outBlinding (outs.map Circuits.Output.outBlinding)

/-- The signals of a note that is spent: those of its texts and of its path. -/
structure Spends (input : NoteToSpend) (s : SpentSignals) : Prop where
  amount : Denotes input.1.amount s.amount
  blinding : Denotes input.1.blinding s.blinding
  pathIndices : ∃ proof, input.2 = some proof ∧ s.pathIndices = residue proof.pathIndices

/-- The circuit's transaction part: the key spends the notes and, after them, dummies, and an amount
goes out or comes in. -/
structure TransactionPart (P : Poseidon2) (privKeyBytes : List UInt8) (inputs : List NoteToSpend)
    (extAmount : ℤ) (ci : CircuitInputs) : Prop where
  sized : ci.Sized 2 2
  signals : ∃ ins outs, ci.Reads extAmount ins outs ∧
    (∀ s ∈ ins, s.privateKey = residue privKeyBytes) ∧
    List.Forall₂ Spends inputs (ins.take inputs.length) ∧
    (∀ s ∈ ins.drop inputs.length, s.amount = 0) ∧
    List.Forall₂ Denotes ci.inputNullifier (ins.map (SpentSignals.nullifier P)) ∧
    List.Forall₂ Denotes ci.outputCommitment (outs.map (outputCommitment P)) ∧
    (ins.map SpentSignals.amount).sum + extAmount = (outs.map Circuits.Output.outAmount).sum

/-! ### Inputs -/

def SpentNote.signals (sk : F) (n : SpentNote) : SpentSignals :=
  ⟨n.amount, sk, n.blinding, ((bigInt n.pathIndices).getD 0 : ℤ)⟩

/-- The path of an input is read, and its nullifier is the circuit's. -/
structure SpentNote.Valid (P : Poseidon2) (sk : F) (n : SpentNote) : Prop where
  pathIndices : Denotes n.pathIndices (n.signals sk).pathIndices
  nullifier : (n.nullifierBig : F) = (n.signals sk).nullifier P

variable {priv pub : List UInt8} {sk : F}

theorem nullifier_of_hashes {amount blinding : ℤ}
    {amountBytes blindingBytes path commitment signature nullifier : List UInt8}
    (hamount : bigintToField amount = .ok amountBytes)
    (hblinding : bigintToField blinding = .ok blindingBytes)
    (hcommitment : computeCommitment P amountBytes pub blindingBytes = .ok commitment)
    (hsignature : computeSignature P priv commitment path = .ok signature)
    (hnullifier : computeNullifier P commitment path signature = .ok nullifier)
    (hpub : residue pub = Circuits.publicKey P (residue priv)) :
    (bytesToBigIntLE nullifier : F) =
      SpentSignals.nullifier P ⟨amount, residue priv, blinding, residue path⟩ := by
  rw [computeNullifier_ok hsignature hnullifier, bytesToBigIntLE_scalarToBytes, F.natCast_val,
    computeCommitment_ok hcommitment, residue_scalarToBytes, bigintToField_ok hamount,
    bigintToField_ok hblinding, residue_scalarToBytes, residue_scalarToBytes, hpub]
  rfl

theorem denotes_of_toBigInt {text : String} {n : ℤ} (h : toBigInt text = .ok n) :
    Denotes text n := by
  unfold toBigInt at h
  cases hread : bigInt text with
  | none =>
      rw [hread] at h
      cases h
  | some m =>
      rw [hread] at h
      cases h
      rw [Denotes, hread, Option.map_some]

/-- **A real input.** -/
theorem createRealInput_valid {note : UserNote} {merkleProof : PoolMerkleProof} {n : InputNote}
    (hpub : residue pub = Circuits.publicKey P (residue priv))
    (h : createRealInput P priv pub note merkleProof = .ok n) :
    n.spent.Valid P (residue priv) ∧ toBigInt note.amount = .ok n.amount ∧
      Spends (note, some merkleProof) (n.spent.signals (residue priv)) := by
  unfold createRealInput at h
  obtain ⟨amount, hamount, h⟩ := Result.bind_eq_ok.mp h
  obtain ⟨blinding, hblinding, h⟩ := Result.bind_eq_ok.mp h
  split at h
  · cases h
  · obtain ⟨amountBytes, hamountBytes, h⟩ := Result.bind_eq_ok.mp h
    obtain ⟨blindingBytes, hblindingBytes, h⟩ := Result.bind_eq_ok.mp h
    obtain ⟨commitment, hcommitment, h⟩ := Result.bind_eq_ok.mp h
    obtain ⟨signature, hsignature, h⟩ := Result.bind_eq_ok.mp h
    obtain ⟨nullifier, hnullifier, h⟩ := Result.bind_eq_ok.mp h
    cases h
    have hpath : ((bigInt (bytesToBigIntLE merkleProof.pathIndices).repr).getD 0 : ℤ) =
        residue merkleProof.pathIndices := by
      rw [bigInt_repr, Option.getD_some, Int.cast_natCast, residue_eq]
    have hsignals := nullifier_of_hashes hamountBytes hblindingBytes hcommitment hsignature
      hnullifier hpub
    rw [← hpath] at hsignals
    refine ⟨⟨?_, hsignals⟩, hamount, denotes_of_toBigInt hamount, denotes_of_toBigInt hblinding,
      merkleProof, rfl, hpath⟩
    exact (denotes_repr _).trans (congrArg some ((residue_eq _).symm.trans hpath.symm))

/-- **A dummy input.** -/
theorem createDummyInput_valid {blinding : ℤ} {n : SpentNote}
    (hpub : residue pub = Circuits.publicKey P (residue priv))
    (h : createDummyInput P priv pub blinding = .ok n) :
    n.Valid P (residue priv) ∧ n.amount = 0 := by
  unfold createDummyInput at h
  obtain ⟨amountBytes, hamountBytes, h⟩ := Result.bind_eq_ok.mp h
  obtain ⟨blindingBytes, hblindingBytes, h⟩ := Result.bind_eq_ok.mp h
  obtain ⟨pathBytes, hpath, h⟩ := Result.bind_eq_ok.mp h
  obtain ⟨commitment, hcommitment, h⟩ := Result.bind_eq_ok.mp h
  obtain ⟨signature, hsignature, h⟩ := Result.bind_eq_ok.mp h
  obtain ⟨nullifier, hnullifier, h⟩ := Result.bind_eq_ok.mp h
  cases h
  have hread : bigInt "0" = some 0 := bigInt_repr 0
  have hzero : ((bigInt "0").getD 0 : ℤ) = residue pathBytes := by
    rw [bigintToField_ok hpath, residue_scalarToBytes, hread]
    rfl
  have hsignals := nullifier_of_hashes hamountBytes hblindingBytes hcommitment hsignature
    hnullifier hpub
  rw [← hzero] at hsignals
  refine ⟨⟨denotes_zero.trans (congrArg some ?_), hsignals⟩, rfl⟩
  change (0 : F) = ((bigInt "0").getD 0 : ℤ)
  rw [hread, Option.getD_some, Int.cast_zero]

theorem createRealInputs_valid (hpub : residue pub = Circuits.publicKey P (residue priv)) :
    ∀ {inputs : List NoteToSpend} {notes : List SpentNote} {total : ℤ},
      createRealInputs P priv pub inputs = .ok notes → inputTotal inputs = .ok total →
      (∀ n ∈ notes, n.Valid P (residue priv)) ∧
        List.Forall₂ Spends inputs (notes.map (SpentNote.signals (residue priv))) ∧
        (notes.map SpentNote.amount).sum = total := by
  intro inputs
  induction inputs with
  | nil =>
      intro notes total h htotal
      cases h
      cases htotal
      exact ⟨List.forall_mem_nil _, .nil, rfl⟩
  | cons input rest ih =>
      intro notes total h htotal
      obtain ⟨note, merkleProof⟩ := input
      cases merkleProof with
      | none => cases h
      | some merkleProof =>
          obtain ⟨n, hn, h⟩ := Result.bind_eq_ok.mp h
          obtain ⟨ns, hns, h⟩ := Result.bind_eq_ok.mp h
          obtain ⟨amount, hamount, htotal⟩ := Result.bind_eq_ok.mp htotal
          obtain ⟨sum, hsum, htotal⟩ := Result.bind_eq_ok.mp htotal
          cases h
          cases htotal
          obtain ⟨hvalid, hspends, hamounts⟩ := ih hns hsum
          obtain ⟨hfirst, hfirstAmount, hfirstSpends⟩ := createRealInput_valid hpub hn
          obtain rfl := Except.ok.inj (hfirstAmount.symm.trans hamount)
          refine ⟨List.forall_mem_cons.mpr ⟨hfirst, hvalid⟩, .cons hfirstSpends hspends, ?_⟩
          rw [List.map_cons, List.sum_cons, hamounts]
          rfl

variable {draws : Draws}

theorem createDummyInputs_valid (hpub : residue pub = Circuits.publicKey P (residue priv)) :
    ∀ {count : ℕ} {notes : List SpentNote}, createDummyInputs P draws priv pub count = .ok notes →
      notes.length = count ∧ ∀ n ∈ notes, n.Valid P (residue priv) ∧ n.amount = 0 := by
  intro count
  induction count with
  | zero =>
      intro notes h
      cases h
      exact ⟨rfl, List.forall_mem_nil _⟩
  | succ count ih =>
      intro notes h
      obtain ⟨n, hn, h⟩ := Result.bind_eq_ok.mp h
      obtain ⟨ns, hns, h⟩ := Result.bind_eq_ok.mp h
      cases h
      obtain ⟨hlen, hvalid⟩ := ih hns
      exact ⟨congrArg Nat.succ hlen,
        List.forall_mem_cons.mpr ⟨createDummyInput_valid hpub hn, hvalid⟩⟩

/-- **The inputs**: the real ones first, then the dummies. -/
theorem createInputs_valid (hpub : residue pub = Circuits.publicKey P (residue priv))
    {inputs : List NoteToSpend} {notes : List SpentNote} {total : ℤ}
    (h : createInputs P draws priv pub inputs = .ok notes) (htotal : inputTotal inputs = .ok total) :
    notes.length = max inputs.length 2 ∧ (∀ n ∈ notes, n.Valid P (residue priv)) ∧
      List.Forall₂ Spends inputs
        ((notes.take inputs.length).map (SpentNote.signals (residue priv))) ∧
      (∀ n ∈ notes.drop inputs.length, n.amount = 0) ∧
      (notes.map SpentNote.amount).sum = total := by
  obtain ⟨real, hreal, h⟩ := Result.bind_eq_ok.mp h
  obtain ⟨dummies, hdummies, h⟩ := Result.bind_eq_ok.mp h
  cases h
  obtain ⟨hvalid, hspends, hamounts⟩ := createRealInputs_valid hpub hreal htotal
  obtain ⟨hlen', hvalid'⟩ := createDummyInputs_valid hpub hdummies
  have hlen : inputs.length = real.length := by rw [hspends.length_eq, List.length_map]
  have hzero : (dummies.map SpentNote.amount).sum = 0 := by
    apply List.sum_eq_zero
    rintro _ hx
    obtain ⟨n, hn, rfl⟩ := List.mem_map.mp hx
    exact (hvalid' n hn).2
  refine ⟨?_, List.forall_mem_append.mpr ⟨hvalid, fun n hn => (hvalid' n hn).1⟩, ?_, ?_, ?_⟩
  · rw [List.length_append, hlen', ← hlen]
    omega
  · rwa [hlen, List.take_left]
  · rw [hlen, List.drop_left]
    exact fun n hn => (hvalid' n hn).2
  · rw [List.map_append, List.sum_append, hamounts, hzero, add_zero]

/-! ### Outputs -/

def OutputNote.signals (n : OutputNote) : Circuits.Output :=
  ⟨n.amount, residue n.pubKeyBytes, n.blinding⟩

/-- **An output** commits to its signals. -/
theorem createOutput_valid {amount blinding : ℤ} {key : List UInt8} {n : OutputNote}
    (h : createOutput P amount key blinding = .ok n) :
    (n.commitmentBig : F) = outputCommitment P n.signals ∧ n.amount = amount := by
  obtain ⟨amountBytes, hamount, h⟩ := Result.bind_eq_ok.mp h
  obtain ⟨blindingBytes, hblinding, h⟩ := Result.bind_eq_ok.mp h
  obtain ⟨commitment, hcommitment, h⟩ := Result.bind_eq_ok.mp h
  cases h
  refine ⟨?_, rfl⟩
  rw [computeCommitment_ok hcommitment, bytesToBigIntLE_scalarToBytes, F.natCast_val,
    bigintToField_ok hamount, bigintToField_ok hblinding, residue_scalarToBytes,
    residue_scalarToBytes]
  rfl

/-- The notes of some outputs: valid, and with a given total. -/
structure OutputsOf (P : Poseidon2) (count : ℕ) (total : ℤ) (outs : List AddressedOutput) : Prop where
  length : outs.length = count
  valid : ∀ out ∈ outs, (out.note.commitmentBig : F) = outputCommitment P out.note.signals
  total : (outs.map fun out => out.note.amount).sum = total

theorem OutputsOf.cons {count : ℕ} {total : ℤ} {outs : List AddressedOutput}
    (h : OutputsOf P count total outs) {amount blinding : ℤ} {key encryptionKey : List UInt8}
    {n : OutputNote} (hn : createOutput P amount key blinding = .ok n) :
    OutputsOf P (count + 1) (amount + total) (⟨n, encryptionKey⟩ :: outs) where
  length := congrArg Nat.succ h.length
  valid := List.forall_mem_cons.mpr ⟨(createOutput_valid hn).1, h.valid⟩
  total := by rw [List.map_cons, List.sum_cons, h.total, (createOutput_valid hn).2]

theorem OutputsOf.append {count count' : ℕ} {total total' : ℤ} {outs outs' : List AddressedOutput}
    (h : OutputsOf P count total outs) (h' : OutputsOf P count' total' outs') :
    OutputsOf P (count + count') (total + total') (outs ++ outs') where
  length := by rw [List.length_append, h.length, h'.length]
  valid := List.forall_mem_append.mpr ⟨h.valid, h'.valid⟩
  total := by rw [List.map_append, List.sum_append, h.total, h'.total]

theorem outputsOf_nil : OutputsOf P 0 0 [] := ⟨rfl, List.forall_mem_nil _, rfl⟩

theorem createPayouts_valid {encryptionPubKey : List UInt8} :
    ∀ {outputs : List Payout} {outs : List AddressedOutput},
      createPayouts P pub encryptionPubKey outputs = .ok outs →
      OutputsOf P outputs.length (outputTotal outputs) outs := by
  intro outputs
  induction outputs with
  | nil =>
      intro outs h
      cases h
      exact outputsOf_nil
  | cons out rest ih =>
      intro outs h
      obtain ⟨n, hn, h⟩ := Result.bind_eq_ok.mp h
      obtain ⟨ns, hns, h⟩ := Result.bind_eq_ok.mp h
      cases h
      rw [outputTotal, List.map_cons, List.sum_cons]
      exact (ih hns).cons hn

theorem createDummyOutputs_valid {encryptionPubKey : List UInt8} :
    ∀ {count : ℕ} {outs : List AddressedOutput},
      createDummyOutputs P draws pub encryptionPubKey count = .ok outs →
      OutputsOf P count 0 outs := by
  intro count
  induction count with
  | zero =>
      intro outs h
      cases h
      exact outputsOf_nil
  | succ count ih =>
      intro outs h
      obtain ⟨n, hn, h⟩ := Result.bind_eq_ok.mp h
      obtain ⟨ns, hns, h⟩ := Result.bind_eq_ok.mp h
      cases h
      exact (ih hns).cons hn

/-- **The outputs**: those asked for, and dummies. -/
theorem createOutputs_valid {encryptionPubKey : List UInt8} {outputs : List Payout}
    {outs : List AddressedOutput}
    (h : createOutputs P draws pub encryptionPubKey outputs = .ok outs) :
    OutputsOf P (max outputs.length 2) (outputTotal outputs) outs := by
  obtain ⟨notes, hnotes, h⟩ := Result.bind_eq_ok.mp h
  obtain ⟨dummies, hdummies, h⟩ := Result.bind_eq_ok.mp h
  cases h
  have hpayouts := createPayouts_valid hnotes
  have happend := hpayouts.append (createDummyOutputs_valid hdummies)
  rw [hpayouts.length, add_zero] at happend
  rwa [show outputs.length + (2 - outputs.length) = max outputs.length 2 by omega] at happend

/-! ### Transactions that are built -/

/-- A note that can be spent: its amount and its blinding are read, and its path is the bytes of a
field element. -/
def Spendable (input : NoteToSpend) : Prop :=
  ∃ (proof : PoolMerkleProof) (path blinding : F), input.2 = some proof ∧
    proof.pathIndices = scalarToBytes path ∧ toBigInt input.1.blinding = .ok (blinding.val : ℤ) ∧
    AmountReadable input.1.amount

/-- An output that can be created: its numbers fit into 256 bits, and its keys are keys. -/
def Payable (pubkey : F) (encryptionPubKey : List UInt8) (out : Payout) : Prop :=
  (∃ amount < 2 ^ 256, out.amount = (amount : ℕ)) ∧
    (∃ blinding < 2 ^ 256, out.blinding = (blinding : ℕ)) ∧
    (∃ key : F, (out.recipientNoteKey.orElse fun _ => out.recipientPubKey).getD
      (scalarToBytes pubkey) = scalarToBytes key) ∧
    ((out.recipientEncryptionKey.orElse fun _ => out.recipientEncryptionPubKey).getD
      encryptionPubKey).length = 32

variable {pubkey : F}

variable (P sk pubkey) in
theorem exists_createRealInputs : ∀ {inputs : List NoteToSpend}, (∀ i ∈ inputs, Spendable i) →
    ∃ notes, createRealInputs P (scalarToBytes sk) (scalarToBytes pubkey) inputs = .ok notes := by
  intro inputs
  induction inputs with
  | nil => exact fun _ => ⟨[], rfl⟩
  | cons input rest ih =>
      intro h
      obtain ⟨note, merkleProof⟩ := input
      obtain ⟨proof, path, blinding, rfl, hpath, hblinding, hamount⟩ := h _ List.mem_cons_self
      obtain ⟨notes, hnotes⟩ := ih fun i hi => h i (List.mem_cons_of_mem _ hi)
      obtain ⟨n, hn, -⟩ := @exists_createRealInput P note proof sk pubkey path blinding hpath
        hblinding hamount
      refine ⟨n.spent :: notes, ?_⟩
      rw [createRealInputs, hn, Result.ok_bind, hnotes]
      rfl

theorem bigintToField_zero : bigintToField 0 = .ok (scalarToBytes 0) := by
  have h := bigintToField_natCast (n := 0) (by decide)
  rwa [Nat.cast_zero, Nat.cast_zero] at h

variable (P sk pubkey draws) in
theorem exists_createDummyInputs : ∀ count : ℕ, ∃ notes,
    createDummyInputs P draws (scalarToBytes sk) (scalarToBytes pubkey) count = .ok notes := by
  intro count
  induction count with
  | zero => exact ⟨[], rfl⟩
  | succ count ih =>
      obtain ⟨notes, hnotes⟩ := ih
      have hdummy : ∃ n, createDummyInput P (scalarToBytes sk) (scalarToBytes pubkey)
          (bytesToBigIntLE (scalarToBytes (draws.dummyInputBlinding count))) = .ok n := by
        unfold createDummyInput
        dsimp only
        rw [bytesToBigIntLE_scalarToBytes, bigintToField_zero, Result.ok_bind, bigintToField_val,
          Result.ok_bind, Result.ok_bind, computeCommitment_scalarToBytes, Result.ok_bind,
          ← bind_assoc, computeNullifier_scalarToBytes]
        exact ⟨_, rfl⟩
      obtain ⟨n, hn⟩ := hdummy
      refine ⟨n :: notes, ?_⟩
      rw [createDummyInputs]
      rw [hn, Result.ok_bind, hnotes]
      rfl

def AddressedOutput.Keyed (out : AddressedOutput) : Prop :=
  out.encryptionKey.length = 32 ∧ out.note.blindingBytes.length = 32

variable (P) in
theorem exists_createPayouts {encryptionPubKey : List UInt8} : ∀ {outputs : List Payout},
    (∀ o ∈ outputs, Payable pubkey encryptionPubKey o) →
    ∃ outs, createPayouts P (scalarToBytes pubkey) encryptionPubKey outputs = .ok outs ∧
      ∀ out ∈ outs, out.Keyed := by
  intro outputs
  induction outputs with
  | nil => exact fun _ => ⟨[], rfl, List.forall_mem_nil _⟩
  | cons o rest ih =>
      intro h
      obtain ⟨⟨amount, hamount, hamountEq⟩, ⟨blinding, hblinding, hblindingEq⟩, ⟨key, hkey⟩, henc⟩ :=
        h o List.mem_cons_self
      obtain ⟨outs, houts, hkeyed⟩ := ih fun i hi => h i (List.mem_cons_of_mem _ hi)
      rw [createPayouts]
      rw [hamountEq, hblindingEq, hkey, createOutput_natCast hamount hblinding, Result.ok_bind,
        houts]
      exact ⟨_, rfl, List.forall_mem_cons.mpr ⟨⟨henc, length_scalarToBytes _⟩, hkeyed⟩⟩

variable (P draws pubkey) in
theorem exists_createDummyOutputs {encryptionPubKey : List UInt8}
    (henc : encryptionPubKey.length = 32) : ∀ count : ℕ, ∃ outs,
      createDummyOutputs P draws (scalarToBytes pubkey) encryptionPubKey count = .ok outs ∧
        ∀ out ∈ outs, out.Keyed := by
  intro count
  induction count with
  | zero => exact ⟨[], rfl, List.forall_mem_nil _⟩
  | succ count ih =>
      obtain ⟨outs, houts, hkeyed⟩ := ih
      have houtput := @createOutput_natCast P 0 _ (by decide)
        (F.val_lt_word (draws.dummyOutputBlinding count)) pubkey
      rw [Nat.cast_zero] at houtput
      rw [createDummyOutputs]
      rw [bytesToBigIntLE_scalarToBytes, houtput, Result.ok_bind, houts]
      exact ⟨_, rfl, List.forall_mem_cons.mpr ⟨⟨henc, length_scalarToBytes _⟩, hkeyed⟩⟩

variable (P draws) in
theorem exists_createOutputs {encryptionPubKey : List UInt8} (henc : encryptionPubKey.length = 32)
    {outputs : List Payout} (h : ∀ o ∈ outputs, Payable pubkey encryptionPubKey o) :
    ∃ outs, createOutputs P draws (scalarToBytes pubkey) encryptionPubKey outputs = .ok outs ∧
      ∀ out ∈ outs, out.Keyed := by
  obtain ⟨notes, hnotes, hkeyed⟩ := exists_createPayouts P h
  obtain ⟨dummies, hdummies, hkeyed'⟩ :=
    exists_createDummyOutputs P draws pubkey henc (2 - notes.length)
  refine ⟨notes ++ dummies, ?_, List.forall_mem_append.mpr ⟨hkeyed, hkeyed'⟩⟩
  rw [createOutputs, hnotes, Result.ok_bind, hdummies]
  rfl

/-- The random bytes of an encryption have the lengths that the cipher asks for. -/
def Draws.Fit (draws : Draws) : Prop := ∀ i, (draws.nonce i).length = 24

theorem exists_encryptOutputAt {c : Cipher} (hc : c.Sound) (hdraws : draws.Fit)
    {outs : List AddressedOutput} (houts : ∀ out ∈ outs, out.Keyed) {i : ℕ} (hi : i < outs.length) :
    ∃ encrypted, encryptOutputAt c draws outs i = .ok encrypted := by
  obtain ⟨hkey, hblinding⟩ := houts outs[i] (List.getElem_mem hi)
  have hplain : (bigintToLittleEndian outs[i].note.amount 8 ++ outs[i].note.blindingBytes ++
      List.replicate (32 - outs[i].note.blindingBytes.length) 0).length = 40 := by
    have hlen : ∀ (v : ℤ) n, (bigintToLittleEndian v n).length = n := by
      intro v n
      induction n generalizing v with
      | zero => rfl
      | succ n ih => rw [bigintToLittleEndian, List.length_cons, ih]
    rw [List.length_append, List.length_append, hlen, hblinding, List.length_replicate]
  obtain ⟨ciphertext, hencrypt, -, -⟩ := hc.roundTrip
    (c.diffieHellman (draws.ephemeral i) outs[i].encryptionKey) (draws.nonce i) _ (hdraws i)
  unfold encryptOutputAt encryptOutput encryptNoteData Prover.encryptNoteData
  rw [List.getElem?_eq_getElem hi]
  dsimp only
  rw [if_neg (not_not.mpr hkey), if_neg (by rw [hblinding]; omega), if_neg (not_not.mpr hkey),
    if_neg (not_not.mpr hplain), hencrypt]
  exact ⟨_, rfl⟩

theorem exists_hashExtData {k : Keccak} {sdk : Sdk} (hsdk : sdk.Exact)
    {extData : Facilitator.ExtDataLike}
    (hamount : -2 ^ 255 ≤ extData.ext_amount ∧ extData.ext_amount < 2 ^ 255)
    (hrecipient : (sdk.addressFromString extData.recipient).isSome = true) :
    ∃ hash, hashExtData k sdk extData = .ok hash := by
  obtain ⟨recipient, hrecipient⟩ := Option.isSome_iff_exists.mp hrecipient
  have hlarge := hsdk.xdrLargeI256 ⟨extData.ext_amount, hamount⟩
  have hreduced : ∀ n : ℕ, n % bn256Modulus < 2 ^ 256 := fun n =>
    (Nat.mod_lt n (by decide)).trans (bn256Modulus_lt.trans (by decide))
  unfold hashExtData Facilitator.hashedExtDataMap
  rw [hlarge, hrecipient]
  change ∃ hash, ((bigIntToBytesBE _ 32) >>= _) = _
  rw [bigIntToBytesBE_of_lt (hreduced _)]
  exact ⟨_, rfl⟩

variable (P) in
theorem exists_membershipProofData {sm : StateManager} {proof : Prover.MerkleProof}
    (hsynced : ∀ i, sm.getASPMembershipProof i = .ok (some proof)) {blinding : ℕ}
    (hblinding : blinding < 2 ^ 256) (hint : ℕ) (pubkey : F) : ∃ m,
      buildMembershipProofData P (scalarToBytes pubkey) (bytesToBigIntLE proof.root : ℕ) hint
        blinding (some sm) = .ok m ∧ m.root = bytesToBigIntStringLE proof.root := by
  have hleaf : ∃ leaf, Prover.poseidon2Hash2 P (scalarToBytes pubkey)
      (scalarToBytes (blinding : F)) 1 = .ok (scalarToBytes leaf) := by
    rw [Prover.poseidon2Hash2, bytesToScalar_scalarToBytes, Result.ok_bind,
      bytesToScalar_scalarToBytes]
    exact ⟨_, rfl⟩
  obtain ⟨leaf, hleaf⟩ := hleaf
  have hfilter : (some proof).filter (fun p => decide ((bytesToBigIntLE p.root : ℤ) =
      (bytesToBigIntLE proof.root : ℕ))) = some proof := by
    rw [Option.filter_some, if_pos (decide_eq_true rfl)]
  unfold buildMembershipProofData
  rw [bigintToField_natCast hblinding, Result.ok_bind, hleaf, Result.ok_bind,
    fieldToHex_scalarToBytes, Result.ok_bind]
  dsimp only [syncedProof]
  rw [hsynced, ofThrown_apply, Result.ok_bind, hfilter]
  exact ⟨_, rfl, rfl⟩

variable {c : Cipher} {k : Keccak} {sdk : Sdk} {params : TransactionParams}

/-- **A transaction is built** of notes that can be spent and outputs that can be created, if the
data of the policy checks is there. -/
theorem exists_buildTransactionInputs (hc : c.Sound) (hsdk : sdk.Exact) (hdraws : draws.Fit)
    (hpriv : params.privKeyBytes = scalarToBytes sk) (henc : params.encryptionPubKey.length = 32)
    (hinputs : ∀ i ∈ params.inputs, Spendable i)
    (houtputs : ∀ o ∈ params.outputs,
      Payable (Circuits.publicKey P sk) params.encryptionPubKey o)
    (hamount : -2 ^ 255 ≤ params.extAmount ∧ params.extAmount < 2 ^ 255)
    (hrecipient : (sdk.addressFromString params.recipient).isSome = true) {sm : StateManager}
    (hsm : params.stateManager = some sm) {m : MembershipProofData}
    (hm : buildMembershipProofData P (scalarToBytes (Circuits.publicKey P sk))
      params.membershipRoot params.membershipLeafIndex params.membershipBlinding (some sm) = .ok m)
    {n : NonMembershipProofData}
    (hn : buildNonMembershipProofDataFromChain (scalarToBytes (Circuits.publicKey P sk)) sm
      params.nonMembershipRoot = .ok n) :
    ∃ built, buildTransactionInputs P c k sdk draws params = .ok built := by
  obtain ⟨real, hreal⟩ := exists_createRealInputs P sk (Circuits.publicKey P sk) hinputs
  obtain ⟨dummies, hdummies⟩ := exists_createDummyInputs P sk draws (Circuits.publicKey P sk)
    (2 - real.length)
  obtain ⟨outs, houts, hkeyed⟩ := exists_createOutputs P draws henc houtputs
  have hcount := (createOutputs_valid houts).length
  obtain ⟨e₀, he₀⟩ := exists_encryptOutputAt hc hdraws hkeyed (i := 0) (by omega)
  obtain ⟨e₁, he₁⟩ := exists_encryptOutputAt hc hdraws hkeyed (i := 1) (by omega)
  obtain ⟨hash, hhash⟩ := @exists_hashExtData k sdk hsdk
    ⟨params.recipient, params.extAmount, e₀, e₁⟩ hamount hrecipient
  have hcreate : createInputs P draws (scalarToBytes sk) (scalarToBytes (Circuits.publicKey P sk))
      params.inputs = .ok (real ++ dummies) := by
    rw [createInputs, hreal, Result.ok_bind, hdummies]
    rfl
  unfold buildTransactionInputs
  rw [hpriv, derivePublicKey_scalarToBytes, Result.ok_bind, hcreate, Result.ok_bind, houts,
    Result.ok_bind, he₀, Result.ok_bind, he₁, Result.ok_bind]
  dsimp only
  rw [hhash, hsm, hm]
  change ∃ built, (buildNonMembershipProofDataFromChain _ sm _ >>= _) = _
  rw [hn]
  exact ⟨_, rfl⟩

/-! ### The transaction -/

theorem cast_toFieldElement (amount : ℤ) : (toFieldElement amount : F) = amount := by
  unfold toFieldElement
  split_ifs
  · rfl
  · rw [Int.cast_add, Int.cast_natCast, ZMod.natCast_self, zero_add]

theorem forall₂_denotes {α : Type} {f : α → String} {g : α → F} {l : List α}
    (h : ∀ a ∈ l, Denotes (f a) (g a)) : List.Forall₂ Denotes (l.map f) (l.map g) := by
  rw [List.forall₂_map_left_iff, List.forall₂_map_right_iff, List.forall₂_same]
  exact h

theorem cast_sum {α : Type} (f : α → ℤ) (l : List α) :
    (((l.map f).sum : ℤ) : F) = (l.map fun a => (f a : F)).sum := by
  induction l with
  | nil => exact Int.cast_zero
  | cons a l ih => rw [List.map_cons, List.sum_cons, Int.cast_add, ih, List.map_cons, List.sum_cons]

variable {built : TransactionInputs}

/-- **What is built of amounts that balance** satisfies the transaction part. -/
theorem transactionPart_of_build {total : ℤ}
    (hlen : params.inputs.length = 1 ∨ params.inputs.length = 2)
    (houts : params.outputs.length ≤ 2) (htotal : inputTotal params.inputs = .ok total)
    (hbalance : total + params.extAmount = outputTotal params.outputs)
    (h : buildTransactionInputs P c k sdk draws params = .ok built) :
    TransactionPart P params.privKeyBytes params.inputs params.extAmount built.circuitInputs := by
  obtain ⟨pub, outs, m, n, sm, hbuilt⟩ := buildTransactionInputs_ok h
  have hpub : residue pub = Circuits.publicKey P (residue params.privKeyBytes) := by
    rw [derivePublicKey_ok hbuilt.publicKey, residue_scalarToBytes]
  obtain ⟨hcount, hvalid, hspends, hdummy, hamounts⟩ := createInputs_valid hpub hbuilt.inputs htotal
  obtain ⟨hcountOut, hvalidOut, hamountsOut⟩ := createOutputs_valid hbuilt.outputs
  have hins : built.inputNotes.length = 2 := by omega
  have houtLength : (outs.map AddressedOutput.note).length = 2 := by
    rw [List.length_map]
    omega
  rw [hbuilt.circuitInputs, hbuilt.outputNotes]
  refine ⟨?_, built.inputNotes.map (SpentNote.signals (residue params.privKeyBytes)),
    (outs.map AddressedOutput.note).map OutputNote.signals, ?_, ?_, ?_, ?_, ?_, ?_, ?_⟩
  · constructor <;> simp only [circuitInputsOf, List.length_map, hins, houtLength]
  · constructor <;> simp only [circuitInputsOf, List.map_map]
    · rw [← cast_toFieldElement]
      exact denotes_bigIntToString _
    · exact forall₂_denotes fun n _ => denotes_bigIntToString n.amount
    · refine forall₂_denotes fun n _ => ?_
      rw [Function.comp_apply, SpentNote.signals, residue_eq]
      exact denotes_repr _
    · exact forall₂_denotes fun n _ => denotes_bigIntToString n.blinding
    · exact forall₂_denotes fun n hn => (hvalid n hn).pathIndices
    · exact forall₂_denotes fun o _ => denotes_bigIntToString o.note.amount
    · refine forall₂_denotes fun o _ => ?_
      change Denotes _ (residue o.note.pubKeyBytes)
      rw [residue_eq]
      exact denotes_repr _
    · exact forall₂_denotes fun o _ => denotes_bigIntToString o.note.blinding
  · intro s hs
    obtain ⟨n, -, rfl⟩ := List.mem_map.mp hs
    rfl
  · rwa [← List.map_take]
  · intro s hs
    rw [← List.map_drop] at hs
    obtain ⟨n, hn, rfl⟩ := List.mem_map.mp hs
    rw [SpentNote.signals, hdummy n hn, Int.cast_zero]
  · rw [List.map_map]
    refine forall₂_denotes fun n hn => ?_
    rw [Function.comp_apply, ← (hvalid n hn).nullifier]
    exact denotes_repr _
  · rw [List.map_map]
    refine forall₂_denotes fun o ho => ?_
    obtain ⟨out, hout, rfl⟩ := List.mem_map.mp ho
    rw [Function.comp_apply, ← hvalidOut out hout]
    exact denotes_repr _
  · rw [List.map_map, List.map_map]
    have hleft := cast_sum SpentNote.amount built.inputNotes
    have hright := cast_sum (fun out : AddressedOutput => out.note.amount) outs
    rw [hamounts] at hleft
    rw [hamountsOut, ← hbalance, Int.cast_add, hleft] at hright
    rw [List.map_map]
    exact hright

theorem exists_generateTransactionProof {prover : ProverClient}
    (hinit : prover.initializeProver = .ok ())
    (hbuilt : buildTransactionInputs P c k sdk draws params = .ok built)
    (hproved : ∃ r, prover.prove built.circuitInputs = .ok r) :
    ∃ proof, generateTransactionProof P c k sdk draws prover params = .ok proof := by
  obtain ⟨proved, hproved⟩ := hproved
  obtain ⟨pub, outs, m, n, sm, hparts⟩ := buildTransactionInputs_ok hbuilt
  have hcount := (createOutputs_valid hparts.outputs).length
  have hlen : 2 ≤ built.outputNotes.length := by
    rw [hparts.outputNotes, List.length_map, hcount]
    exact Nat.le_max_right _ _
  rw [generateTransactionProof, hinit, Result.ok_bind, hbuilt, Result.ok_bind, hproved,
    Result.ok_bind]
  cases houtputs : built.outputNotes with
  | nil =>
      rw [houtputs] at hlen
      exact absurd hlen (by decide)
  | cons o₀ outputs =>
      cases outputs with
      | nil =>
          rw [houtputs, List.length_singleton] at hlen
          exact absurd hlen (by decide)
      | cons o₁ rest => exact ⟨_, rfl⟩

/-- What a withdrawal without change outputs hands on: the change goes into the first output. -/
def WithdrawParams.transaction (draws : Draws) (w : WithdrawParams) (total : ℤ) :
    TransactionParams where
  toCallParams := w.toCallParams
  inputs := w.inputNotes
  outputs := [
    { amount := total - w.withdrawAmount
      blinding := bytesToBigIntLE (scalarToBytes (draws.changeBlinding 0)) },
    { amount := 0
      blinding := bytesToBigIntLE (scalarToBytes (draws.changeBlinding 1)) }]
  recipient := w.recipient
  extAmount := -w.withdrawAmount

variable (draws) in
theorem withdrawTransaction_ok {w : WithdrawParams} {total : ℤ} (hchange : w.changeOutputs = [])
    (htotal : inputTotal w.inputNotes = .ok total) (hle : w.withdrawAmount ≤ total) :
    withdrawTransaction draws w = .ok (w.transaction draws total) := by
  unfold withdrawTransaction
  rw [htotal, Result.ok_bind, if_neg (by omega), hchange]
  rfl

/-- The data of a withdrawal is there: keys and random bytes of their lengths, notes that can be
spent, a recipient, and the data of the policy checks. -/
structure WithdrawParams.Provided (P : Poseidon2) (c : Cipher) (sdk : Sdk) (draws : Draws)
    (w : WithdrawParams) : Prop where
  sound : c.Sound
  sdkExact : sdk.Exact
  fit : draws.Fit
  privKeyBytes : w.privKeyBytes = scalarToBytes (residue w.privKeyBytes)
  encryptionPubKey : w.encryptionPubKey.length = 32
  inputs : ∀ i ∈ w.inputNotes, Spendable i
  recipient : (sdk.addressFromString w.recipient).isSome = true
  policies : ∃ sm, w.stateManager = some sm ∧
    (∃ m, buildMembershipProofData P
      (scalarToBytes (Circuits.publicKey P (residue w.privKeyBytes))) w.membershipRoot
      w.membershipLeafIndex w.membershipBlinding (some sm) = .ok m) ∧
    ∃ n, buildNonMembershipProofDataFromChain
      (scalarToBytes (Circuits.publicKey P (residue w.privKeyBytes))) sm w.nonMembershipRoot = .ok n

/-- **A withdrawal is built.** -/
theorem WithdrawParams.Provided.build {w : WithdrawParams} {total : ℤ}
    (h : w.Provided P c sdk draws) (htotal : total < 2 ^ 255) (hpos : 0 ≤ w.withdrawAmount)
    (hle : w.withdrawAmount ≤ total) :
    ∃ built, buildTransactionInputs P c k sdk draws (w.transaction draws total) = .ok built := by
  obtain ⟨sm, hsm, ⟨m, hm⟩, n, hn⟩ := h.policies
  obtain ⟨change, hchange⟩ := Int.eq_ofNat_of_zero_le (sub_nonneg.mpr hle)
  have hblinding : ∀ x : F, bytesToBigIntLE (scalarToBytes x) < 2 ^ 256 := fun x => by
    rw [bytesToBigIntLE_scalarToBytes]
    exact F.val_lt_word x
  refine exists_buildTransactionInputs h.sound h.sdkExact h.fit h.privKeyBytes h.encryptionPubKey
    h.inputs ?_ ⟨?_, ?_⟩ h.recipient hsm hm hn
  · refine List.forall_mem_cons.mpr ⟨?_, List.forall_mem_singleton.mpr ?_⟩
    · exact ⟨⟨change, by omega, hchange⟩, ⟨_, hblinding _, rfl⟩, ⟨_, rfl⟩, h.encryptionPubKey⟩
    · exact ⟨⟨0, by decide, rfl⟩, ⟨_, hblinding _, rfl⟩, ⟨_, rfl⟩, h.encryptionPubKey⟩
  · change _ ≤ -w.withdrawAmount
    omega
  · change -w.withdrawAmount < _
    omega

theorem transferTransaction_ok {t : TransferParams} {transaction : TransactionParams}
    (h : transferTransaction draws t = .ok transaction) :
    ∃ total, inputTotal t.inputNotes = .ok total ∧ transaction.toCallParams = t.toCallParams ∧
      transaction.inputs = t.inputNotes ∧ transaction.outputs.length ≤ 2 ∧
      outputTotal transaction.outputs = total ∧ transaction.extAmount = 0 := by
  obtain ⟨total, htotal, h⟩ := Result.bind_eq_ok.mp h
  dsimp only at h
  split at h
  · cases h
  · rename_i hbalance
    split at h
    · cases h
    · rename_i hcount
      cases h
      refine ⟨total, htotal, rfl, rfl, not_lt.mp hcount, ?_, rfl⟩
      have hpadding : ∀ n : ℕ, outputTotal ((List.range n).map fun i =>
          ({ amount := 0
             blinding := bytesToBigIntLE (scalarToBytes (draws.paddingBlinding i)) } : Payout)) = 0 := by
        intro n
        rw [outputTotal, List.map_map]
        exact List.sum_eq_zero fun x hx => by
          obtain ⟨i, -, rfl⟩ := List.mem_map.mp hx
          rfl
      rw [not_not] at hbalance
      rw [hbalance]
      rw [outputTotal, List.map_append, List.sum_append, List.map_append, List.sum_append,
        List.map_map]
      rw [← outputTotal, ← outputTotal, hpadding, add_zero]
      rfl

/-- **Withdrawals and transfers** of one note or two satisfy the circuit's transaction part: a
withdrawal of at most the total whose change is left to the builder, which is built if its data is
there, and a transfer for which a proof is generated. -/
theorem withdrawal_or_transfer_part (P : Poseidon2) (c : Cipher) (k : Keccak) (sdk : Sdk)
    (draws : Draws) (prover : ProverClient) :
    (∀ (w : WithdrawParams) (total : ℤ), (w.inputNotes.length = 1 ∨ w.inputNotes.length = 2) →
      w.changeOutputs = [] → inputTotal w.inputNotes = .ok total → 0 ≤ w.withdrawAmount →
      w.withdrawAmount ≤ total → ∃ transaction, withdrawTransaction draws w = .ok transaction ∧
        (∀ built, buildTransactionInputs P c k sdk draws transaction = .ok built →
          TransactionPart P w.privKeyBytes w.inputNotes (-w.withdrawAmount) built.circuitInputs) ∧
        (w.Provided P c sdk draws → total < 2 ^ 255 →
          ∃ built, buildTransactionInputs P c k sdk draws transaction = .ok built)) ∧
    ∀ (t : TransferParams) (proof : TransactionProof),
      (t.inputNotes.length = 1 ∨ t.inputNotes.length = 2) →
      generateTransferProof P c k sdk draws prover t = .ok proof →
      TransactionPart P t.privKeyBytes t.inputNotes 0 proof.circuitInputs := by
  constructor
  · intro w total hlen hchange htotal hpos hle
    refine ⟨_, withdrawTransaction_ok draws hchange htotal hle, fun built hbuilt => ?_,
      fun hprovided hlt => hprovided.build hlt hpos hle⟩
    refine @transactionPart_of_build _ _ _ _ _ (w.transaction draws total) built total hlen
      (Nat.le_refl 2) htotal ?_ hbuilt
    rw [outputTotal, WithdrawParams.transaction, List.map_cons, List.map_singleton, List.sum_cons,
      List.sum_singleton, add_zero, sub_eq_add_neg]
  · intro t proof hlen h
    obtain ⟨transaction, htransaction, h⟩ := Result.bind_eq_ok.mp h
    obtain ⟨total, htotal, hcall, hinputs, houts, houtTotal, hext⟩ :=
      transferTransaction_ok htransaction
    obtain ⟨built, -, -, -, -, hbuilt, -, -, rfl, -⟩ := generateTransactionProof_ok h
    rw [← hcall, ← hext]
    rw [← hinputs] at hlen htotal ⊢
    refine transactionPart_of_build hlen houts htotal ?_ hbuilt
    rw [houtTotal, hext, add_zero]

/-! ### A withdrawal and a transfer -/

/-- The answers of a state manager whose tree is synced. -/
def sampleStateManager : StateManager where
  findASPMembershipLeaf _ := .ok none
  getASPMembershipProof _ := .ok (some ⟨[], [], [], treeDepth⟩)
  getASPNonMembershipProof _ := .error "offline"

def sampleDraws : Draws where
  changeBlinding i := (i : F)
  paddingBlinding i := (i : F)
  dummyInputBlinding i := (i : F)
  dummyOutputBlinding i := (i : F)
  ephemeral _ := List.replicate 32 0
  nonce _ := List.replicate 24 0

def sampleCall : CallParams where
  privKeyBytes := scalarToBytes 1
  encryptionPubKey := List.replicate 32 0
  poolRoot := 3
  membershipRoot := 0
  nonMembershipRoot := 0
  stateManager := some sampleStateManager

/-- A note of 12. -/
def sampleInput : NoteToSpend :=
  (⟨"note", "owner", "1", "5", "12", 0, 9, false, none, false⟩, some ⟨[], scalarToBytes 0⟩)

def sampleWithdrawParams : WithdrawParams where
  toCallParams := sampleCall
  inputNotes := [sampleInput]
  recipient := Facilitator.samplePayTo
  withdrawAmount := 5

def sampleTransferParams : TransferParams where
  toCallParams := sampleCall
  inputNotes := [sampleInput]
  recipientPubKey := some (scalarToBytes 9)
  recipientEncryptionPubKey := none
  recipientOutputs := [{ amount := 7, blinding := 3 }]
  changeOutputs := [{ amount := 5, blinding := 4 }]
  poolAddress := Facilitator.samplePayTo

/-- A prover that takes anything. -/
def sampleProver : ProverClient := ⟨.ok (), fun _ => .ok ⟨[], []⟩⟩

theorem inputTotal_sample : inputTotal [sampleInput] = .ok 12 := by
  rfl

/-- What the transfer hands on. -/
def sampleTransferred : TransactionParams where
  toCallParams := sampleCall
  inputs := [sampleInput]
  outputs := [{ amount := 7, blinding := 3, recipientPubKey := some (scalarToBytes 9) },
    { amount := 5, blinding := 4 }]
  recipient := Facilitator.samplePayTo
  extAmount := 0

theorem spendable_sampleInput : ∀ i ∈ [sampleInput], Spendable i := by
  refine List.forall_mem_singleton.mpr ⟨_, 0, (5 : ℕ), rfl, rfl, rfl, ?_⟩
  exact @amountReadable_bigIntToString 12 (by decide)

theorem recipient_sample :
    (Facilitator.sampleSdk.addressFromString Facilitator.samplePayTo).isSome = true := by
  decide

theorem transferTransaction_sample :
    transferTransaction sampleDraws sampleTransferParams = .ok sampleTransferred := rfl

theorem exists_build_sample {transaction : TransactionParams} (root : ℤ) (sm : StateManager)
    (hcall : transaction.toCallParams =
      { sampleCall with nonMembershipRoot := root, stateManager := some sm })
    (hsynced : ∀ i, sm.getASPMembershipProof i = .ok (some ⟨[], [], [], treeDepth⟩))
    (hn : ∃ n, buildNonMembershipProofDataFromChain
      (scalarToBytes (Circuits.publicKey smallPoseidon2 1)) sm root = .ok n)
    (hinputs : transaction.inputs = [sampleInput])
    (houtputs : ∀ o ∈ transaction.outputs,
      Payable (Circuits.publicKey smallPoseidon2 1) sampleCall.encryptionPubKey o)
    (hamount : -2 ^ 255 ≤ transaction.extAmount ∧ transaction.extAmount < 2 ^ 255)
    (hrecipient : transaction.recipient = Facilitator.samplePayTo) :
    ∃ built, buildTransactionInputs smallPoseidon2 toyCipher sampleKeccak256 Facilitator.sampleSdk
      sampleDraws transaction = .ok built := by
  obtain ⟨call, inputs, outputs, recipient, amount⟩ := transaction
  subst hcall hinputs hrecipient
  obtain ⟨n, hn⟩ := hn
  obtain ⟨m, hm, -⟩ := @exists_membershipProofData smallPoseidon2 sm _ hsynced 0 (by decide) 0
    (Circuits.publicKey smallPoseidon2 1)
  exact exists_buildTransactionInputs toyCipher_sound Facilitator.sampleSdk_exact
    (fun _ => List.length_replicate) rfl List.length_replicate spendable_sampleInput houtputs
    hamount recipient_sample rfl hm hn

theorem payable_sample {out : Payout} (amount blinding : ℕ) (hamount : amount < 2 ^ 256)
    (hblinding : blinding < 2 ^ 256) (hout : out.amount = amount)
    (houtBlinding : out.blinding = blinding)
    (hkey : ∃ key : F, (out.recipientNoteKey.orElse fun _ => out.recipientPubKey).getD
      (scalarToBytes (Circuits.publicKey smallPoseidon2 1)) = scalarToBytes key)
    (henc : (out.recipientEncryptionKey.orElse fun _ => out.recipientEncryptionPubKey) = none) :
    Payable (Circuits.publicKey smallPoseidon2 1) sampleCall.encryptionPubKey out :=
  ⟨⟨amount, hamount, hout⟩, ⟨blinding, hblinding, houtBlinding⟩, hkey, by
    rw [henc]
    exact List.length_replicate⟩

theorem provided_sample :
    sampleWithdrawParams.Provided smallPoseidon2 toyCipher Facilitator.sampleSdk sampleDraws := by
  obtain ⟨m, hm, -⟩ := @exists_membershipProofData smallPoseidon2 sampleStateManager _
    (fun _ => rfl) 0 (by decide) 0 (Circuits.publicKey smallPoseidon2 1)
  have hkey : residue sampleWithdrawParams.privKeyBytes = 1 := residue_scalarToBytes 1
  refine ⟨toyCipher_sound, Facilitator.sampleSdk_exact, fun _ => List.length_replicate, ?_,
    List.length_replicate, spendable_sampleInput, recipient_sample, sampleStateManager, rfl, ?_, ?_⟩
  · rw [hkey]
    rfl
  · rw [hkey]
    exact ⟨m, hm⟩
  · exact ⟨_, rfl⟩

theorem payable_transferred : ∀ o ∈ sampleTransferred.outputs,
    Payable (Circuits.publicKey smallPoseidon2 1) sampleCall.encryptionPubKey o := by
  refine List.forall_mem_cons.mpr ⟨?_, List.forall_mem_singleton.mpr ?_⟩
  · exact payable_sample 7 3 (by decide) (by decide) rfl rfl ⟨9, rfl⟩ rfl
  · exact payable_sample 5 4 (by decide) (by decide) rfl rfl ⟨_, rfl⟩ rfl

theorem exists_build_transferred : ∃ built, buildTransactionInputs smallPoseidon2 toyCipher
    sampleKeccak256 Facilitator.sampleSdk sampleDraws sampleTransferred = .ok built :=
  exists_build_sample 0 sampleStateManager rfl (fun _ => rfl) ⟨_, rfl⟩ rfl payable_transferred
    (by decide) rfl

theorem withdrawal_or_transfer_part_sample : ∃ transaction built proof,
    withdrawTransaction sampleDraws sampleWithdrawParams = .ok transaction ∧
    buildTransactionInputs smallPoseidon2 toyCipher sampleKeccak256 Facilitator.sampleSdk
      sampleDraws transaction = .ok built ∧
    TransactionPart smallPoseidon2 (scalarToBytes 1) [sampleInput] (-5) built.circuitInputs ∧
    generateTransferProof smallPoseidon2 toyCipher sampleKeccak256 Facilitator.sampleSdk
      sampleDraws sampleProver sampleTransferParams = .ok proof ∧
    TransactionPart smallPoseidon2 (scalarToBytes 1) [sampleInput] 0 proof.circuitInputs := by
  obtain ⟨hwithdraw, htransfer⟩ := withdrawal_or_transfer_part smallPoseidon2 toyCipher
    sampleKeccak256 Facilitator.sampleSdk sampleDraws sampleProver
  obtain ⟨w, hw, hpart, hbuild⟩ := hwithdraw sampleWithdrawParams 12 (.inl rfl) rfl
    inputTotal_sample (by decide) (by decide)
  obtain ⟨built, hbuilt⟩ := hbuild provided_sample (by decide)
  obtain ⟨transferred, htransferred⟩ := exists_build_transferred
  obtain ⟨proof, hproof⟩ := exists_generateTransactionProof
    (rfl : sampleProver.initializeProver = .ok ()) htransferred ⟨_, rfl⟩
  have hgenerate : generateTransferProof smallPoseidon2 toyCipher sampleKeccak256
      Facilitator.sampleSdk sampleDraws sampleProver sampleTransferParams = .ok proof := by
    rw [generateTransferProof, transferTransaction_sample]
    exact hproof
  exact ⟨w, built, proof, hw, hbuilt, hpart built hbuilt, hgenerate,
    htransfer sampleTransferParams proof (.inl rfl) hgenerate⟩

end Enclave.App

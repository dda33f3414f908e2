import Enclave.Agent.Witness
import Enclave.App.BalancedInputs
import Enclave.Circuits.PolicyTransaction

/-! # The agent's inputs and the circuit

What `interceptingFetch` hands to the prover for a note (`liveParams`), against the constraints of
`PolicyTransaction`.  The proofs of non-membership have 32 siblings, the circuit 10, so that no
witness is read off the inputs.  Nor would it help to cut them: the proofs are for the key 0, the
outputs go to the private key, the payment stands in the place of the note's amount, and the sums
agree without change only (`inputs_never_meet`). -/

namespace Enclave.Agent

open App (Denotes denotes_zero denotes_bigIntToString)

/-! ### Live proving -/

/-- The null note: of the notes without amount the first, else the note itself. -/
def nullNoteFor (notes : List WitnessNote) (note : WitnessNote) : WitnessNote :=
  (notes.find? fun n => n.amount = 0).getD note

/-- The parameters of `interceptingFetch`. -/
def liveParams (orgSpendingPrivKey extDataHash : String) (notes : List WitnessNote)
    (note : WitnessNote) (payAmount : ℤ) : BuildWitnessParams where
  orgSpendingPrivKey := orgSpendingPrivKey
  realNote := note
  nullNote := nullNoteFor notes note
  payAmount := payAmount
  changeAmount := note.amount - payAmount
  changeBlinding := "0"
  extDataHash := extDataHash
  nonMembershipProofs := emptyNonMembershipProofs

/-! ### Reading the inputs -/

/-- The one of a slot. -/
def slot {α : Type} (pair : α × α) : Fin 2 → α
  | 0 => pair.1
  | 1 => pair.2

/-- The texts of a membership proof denote its signals. -/
structure MembershipProof.Reads (m : MembershipProof) (s : Circuits.MembershipProof 10) : Prop where
  leaf : Denotes m.leaf s.leaf
  blinding : Denotes m.blinding s.blinding
  pathElements : List.Forall₂ Denotes m.pathElements (List.ofFn s.pathElements)
  pathIndices : Denotes m.pathIndices s.pathIndices

/-- The texts of a non-membership proof denote its signals. -/
structure NonMembershipProof.Reads (n : NonMembershipProof) (s : Circuits.NonMembershipProof 10) :
    Prop where
  key : Denotes n.key s.key
  siblings : List.Forall₂ Denotes n.siblings (List.ofFn s.siblings)
  oldKey : Denotes n.oldKey s.oldKey
  oldValue : Denotes n.oldValue s.oldValue
  isOld0 : Denotes n.isOld0 s.isOld0

/-- The texts denote the signals.  They are taken in their places; by their names the circuit's
`outPubkey` would be missing. -/
structure WitnessInputs.Reads (inputs : WitnessInputs) (w : Circuits.Witness 2 2 1 1 10 10) :
    Prop where
  inPrivateKey : ∀ tx, Denotes (slot inputs.inPrivateKey tx) (w.input tx).inPrivateKey
  inAmount : ∀ tx, Denotes (slot inputs.inAmount tx) (w.input tx).inAmount
  inBlinding : ∀ tx, Denotes (slot inputs.inBlinding tx) (w.input tx).inBlinding
  inPathElements : ∀ tx, List.Forall₂ Denotes (slot inputs.inPathElements tx)
    (List.ofFn (w.input tx).inPathElements)
  inPathIndices : ∀ tx, Denotes (slot inputs.inPathIndices tx) (w.input tx).inPathIndices
  membershipProofs : ∀ tx, (slot inputs.membershipProofs tx).Reads ((w.input tx).membershipProofs 0)
  nonMembershipProofs : ∀ tx,
    (slot inputs.nonMembershipProofs tx).Reads ((w.input tx).nonMembershipProofs 0)
  outAmount : ∀ tx, Denotes (slot inputs.outAmount tx) (w.output tx).outAmount
  outBlinding : ∀ tx, Denotes (slot inputs.outBlinding tx) (w.output tx).outBlinding
  outPubkey : ∀ tx, Denotes (slot inputs.outPubKey tx) (w.output tx).outPubkey

/-- The inputs, completed with the public amount, meet the circuit: they open the note, the outputs
go to the public key, and every constraint holds. -/
structure WitnessInputs.Meets (P : Poseidon2) (note : WitnessNote) (payAmount : ℤ)
    (inputs : WitnessInputs) (w : Circuits.Witness 2 2 1 1 10 10) (pub : Circuits.Public 2 2 1 1) :
    Prop where
  reads : inputs.Reads w
  publicAmount : pub.publicAmount = ((bn256Modulus - payAmount : ℤ) : F)
  opens : ∀ blinding, Denotes note.blinding blinding → (w.input 1).inCommitment P =
    Circuits.commitment P note.amount ((w.input 1).inPubkey P) blinding
  outPubkey : ∀ tx, (w.output tx).outPubkey = (w.input tx).inPubkey P
  satisfies : w.Satisfies P pub

/-- The inputs with the siblings cut to the levels of the circuit. -/
def WitnessInputs.cut (inputs : WitnessInputs) : WitnessInputs :=
  let cutProof (n : NonMembershipProof) := { n with siblings := n.siblings.take 10 }
  { inputs with nonMembershipProofs := (cutProof inputs.nonMembershipProofs.1,
                                        cutProof inputs.nonMembershipProofs.2) }

/-! ### What is read -/

variable {P : Poseidon2} {orgSpendingPrivKey extDataHash : String} {notes : List WitnessNote}
  {note : WitnessNote} {payAmount : ℤ} {inputs : WitnessInputs}
  {w : Circuits.Witness 2 2 1 1 10 10}

theorem denotes_unique {text : String} {x y : F} (hx : Denotes text x) (hy : Denotes text y) :
    x = y := (hx.iff_eq y).mp hy

theorem liveInputs_eq
    (h : buildWitnessInputs (liveParams orgSpendingPrivKey extDataHash notes note payAmount) =
      some inputs) :
    inputs.outPubKey = inputs.inPrivateKey ∧
      inputs.inAmount = ("0", Js.bigIntToString payAmount) ∧
      inputs.outAmount = (Js.bigIntToString (note.amount - payAmount), "0") ∧
      inputs.nonMembershipProofs = emptyNonMembershipProofs := by
  obtain ⟨key, -, rfl⟩ := Option.map_eq_some_iff.mp h
  exact ⟨rfl, rfl, rfl, rfl⟩

/-- The circuit's levels are not those of the proofs. -/
theorem not_reads (h : inputs.nonMembershipProofs = emptyNonMembershipProofs) :
    ¬ inputs.Reads w := by
  intro hreads
  have hlen := (hreads.nonMembershipProofs 0).siblings.length_eq
  rw [h, List.length_ofFn] at hlen
  exact absurd hlen (by decide)

/-- The public amount takes the payment off: the sums agree if nothing is left. -/
theorem sums_agree_iff {publicAmount : F} (h : publicAmount = ((bn256Modulus - payAmount : ℤ) : F))
    (hin : (w.input 0).inAmount = 0 ∧ (w.input 1).inAmount = payAmount)
    (hout : (w.output 0).outAmount = ((note.amount - payAmount : ℤ) : F) ∧
      (w.output 1).outAmount = 0) :
    ∑ tx, (w.input tx).inAmount + publicAmount = ∑ tx, (w.output tx).outAmount ↔
      ((note.amount - payAmount : ℤ) : F) = 0 := by
  have hmodulus : ((bn256Modulus : ℤ) : F) = 0 := by
    rw [Int.cast_natCast]
    exact ZMod.natCast_self bn256Modulus
  rw [Fin.sum_univ_two, Fin.sum_univ_two, hin.1, hin.2, hout.1, hout.2, h, Int.cast_sub, hmodulus,
    zero_add, zero_sub, add_neg_cancel, add_zero]
  exact eq_comm

/-- **No payment meets the circuit.**  With the siblings cut, the proofs of non-membership are for
the key 0, the outputs go to the private key, the second input has the payment for its amount, and
the sums agree exactly if the payment takes the whole note. -/
theorem inputs_never_meet (P : Poseidon2)
    (h : buildWitnessInputs (liveParams orgSpendingPrivKey extDataHash notes note payAmount) =
      some inputs) :
    (¬ ∃ w pub, inputs.Meets P note payAmount w pub) ∧
    ∀ w : Circuits.Witness 2 2 1 1 10 10, inputs.cut.Reads w →
      (∀ tx, ((w.input tx).nonMembershipProofs 0).key = 0) ∧
      (∀ tx, (w.output tx).outPubkey = (w.input tx).inPrivateKey) ∧
      (w.input 1).inAmount = payAmount ∧
      ∀ publicAmount : F, publicAmount = ((bn256Modulus - payAmount : ℤ) : F) →
        (∑ tx, (w.input tx).inAmount + publicAmount = ∑ tx, (w.output tx).outAmount ↔
          ((note.amount - payAmount : ℤ) : F) = 0) := by
  obtain ⟨hkey, hinAmount, houtAmount, hproofs⟩ := liveInputs_eq h
  refine ⟨fun ⟨w, pub, hmeets⟩ => not_reads hproofs hmeets.reads, fun w hreads => ?_⟩
  have hin : (w.input 0).inAmount = 0 ∧ (w.input 1).inAmount = payAmount := by
    have h0 := hreads.inAmount 0
    have h1 := hreads.inAmount 1
    rw [WitnessInputs.cut, hinAmount] at h0 h1
    exact ⟨denotes_unique h0 denotes_zero, denotes_unique h1 (denotes_bigIntToString payAmount)⟩
  have hout : (w.output 0).outAmount = ((note.amount - payAmount : ℤ) : F) ∧
      (w.output 1).outAmount = 0 := by
    have h0 := hreads.outAmount 0
    have h1 := hreads.outAmount 1
    rw [WitnessInputs.cut, houtAmount] at h0 h1
    exact ⟨denotes_unique h0 (denotes_bigIntToString _), denotes_unique h1 denotes_zero⟩
  refine ⟨fun tx => ?_, fun tx => ?_, hin.2, fun publicAmount hpublic =>
    sums_agree_iff hpublic hin hout⟩
  · have hread := (hreads.nonMembershipProofs tx).key
    rw [WitnessInputs.cut, hproofs] at hread
    refine denotes_unique hread ?_
    obtain rfl | rfl := Fin.exists_fin_two.mp ⟨tx, rfl⟩
    · exact denotes_zero
    · exact denotes_zero
  · have hread := hreads.outPubkey tx
    rw [WitnessInputs.cut, hkey] at hread
    exact denotes_unique hread (hreads.inPrivateKey tx)

/-! ### A sample payment -/

/-- A note of the organisation: its commitment stands under the root, its leaf under the root of the
members. -/
structure WitnessNote.StandsUnder (P : Poseidon2) (sk root membershipRoot : F)
    (note : WitnessNote) : Prop where
  commitment : ∃ blinding pathIndices siblings, Denotes note.blinding blinding ∧
    Denotes note.pathIndex pathIndices ∧ Circuits.num2Bits 10 pathIndices ∧
    note.pathElements.length = 10 ∧ List.Forall₂ Denotes note.pathElements siblings ∧
    Circuits.MerkleProof.root P pathIndices 0 siblings
      (Circuits.commitment P note.amount (Circuits.publicKey P sk) blinding) = root
  membership : ∃ leaf pathIndices siblings, Denotes note.aspLeaf leaf ∧
    leaf = P.hash2 (Circuits.publicKey P sk) 0 1 ∧ Denotes note.aspPathIndex pathIndices ∧
    Circuits.num2Bits 10 pathIndices ∧ note.aspPathElements.length = 10 ∧
    List.Forall₂ Denotes note.aspPathElements siblings ∧
    Circuits.MerkleProof.root P pathIndices 0 siblings leaf = membershipRoot

/-- A note of the organisation with the key 1, first in a tree. -/
def samplePaidNote (amount : ℤ) : WitnessNote where
  nullifier := "11"
  amount := amount
  blinding := "7"
  pathElements := List.replicate 10 "0"
  pathIndex := "0"
  aspLeaf := (smallPoseidon2.hash2 (Circuits.publicKey smallPoseidon2 1) 0 1).val.repr
  aspPathElements := List.replicate 10 "0"
  aspPathIndex := "0"

theorem forall₂_denotes_zero : ∀ n : ℕ,
    List.Forall₂ Denotes (List.replicate n "0") (List.replicate n 0)
  | 0 => .nil
  | n + 1 => .cons denotes_zero (forall₂_denotes_zero n)

theorem standsUnder_sample (amount : ℤ) : ∃ root membershipRoot,
    (samplePaidNote amount).StandsUnder smallPoseidon2 1 root membershipRoot := by
  have hpath := forall₂_denotes_zero 10
  have hbits : Circuits.num2Bits 10 0 := by decide
  refine ⟨_, _, ⟨((7 : ℕ) : F), 0, _, ?_, denotes_zero, hbits, rfl, hpath, rfl⟩,
    ⟨_, 0, _, ?_, rfl, denotes_zero, hbits, rfl, hpath, rfl⟩⟩
  · exact App.denotes_repr 7
  · have hleaf := App.denotes_repr
      (smallPoseidon2.hash2 (Circuits.publicKey smallPoseidon2 1) 0 1).val
    rwa [F.natCast_val] at hleaf

def sampleKeyText : String := String.ofList ('0' :: 'x' :: Hex.toHex [1])

theorem exists_liveInputs (extDataHash : String) (notes : List WitnessNote) (note : WitnessNote)
    (payAmount : ℤ) : ∃ inputs, buildWitnessInputs
      (liveParams sampleKeyText extDataHash notes note payAmount) = some inputs := by
  unfold buildWitnessInputs liveParams sampleKeyText
  rw [normalizeField_bytesToHex (List.cons_ne_nil _ _)]
  exact ⟨_, rfl⟩

/-- A payment of 5 out of 12, with a null note at hand. -/
theorem payment_never_meets : ∃ inputs, buildWitnessInputs (liveParams sampleKeyText "0"
      [samplePaidNote 0, samplePaidNote 12] (samplePaidNote 12) 5) = some inputs ∧
    (∃ root membershipRoot,
      (samplePaidNote 12).StandsUnder smallPoseidon2 1 root membershipRoot) ∧
    ¬ ∃ w pub, inputs.Meets smallPoseidon2 (samplePaidNote 12) 5 w pub := by
  obtain ⟨inputs, hbuild⟩ := exists_liveInputs "0" [samplePaidNote 0, samplePaidNote 12]
    (samplePaidNote 12) 5
  refine ⟨inputs, hbuild, standsUnder_sample 12, ?_⟩
  rintro ⟨w, pub, hmeets⟩
  exact not_reads (liveInputs_eq hbuild).2.2.2 hmeets.reads

theorem inputs_never_meet_sample : ∃ inputs, buildWitnessInputs (liveParams sampleKeyText "0"
      [samplePaidNote 0, samplePaidNote 12] (samplePaidNote 12) 5) = some inputs ∧
    (¬ ∃ w pub, inputs.Meets smallPoseidon2 (samplePaidNote 12) 5 w pub) ∧
    ∀ w : Circuits.Witness 2 2 1 1 10 10, inputs.cut.Reads w →
      (∀ tx, ((w.input tx).nonMembershipProofs 0).key = 0) ∧
      (∀ tx, (w.output tx).outPubkey = (w.input tx).inPrivateKey) ∧
      (w.input 1).inAmount = ((5 : ℤ) : F) ∧
      ∀ publicAmount : F, publicAmount = ((bn256Modulus - 5 : ℤ) : F) →
        (∑ tx, (w.input tx).inAmount + publicAmount = ∑ tx, (w.output tx).outAmount ↔
          (((samplePaidNote 12).amount - 5 : ℤ) : F) = 0) := by
  obtain ⟨inputs, hbuild⟩ := exists_liveInputs "0" [samplePaidNote 0, samplePaidNote 12]
    (samplePaidNote 12) 5
  exact ⟨inputs, hbuild, inputs_never_meet smallPoseidon2 hbuild⟩

end Enclave.Agent

import Enclave.Circuits.SmtVerifier
import Enclave.Frontier

/-! # The transaction circuit

`PolicyTransaction(nIns, nOuts, nMembershipProofs, nNonMembershipProofs, levels, smtLevels)` and
the templates it uses: `MerkleProof`, `Keypair`, `Signature`.  Public and private signals are
records, a signal array a function on `Fin`.  `extDataSquare` is an assignment and constrains
nothing.

`Witness.queries` lists every Poseidon2 evaluation of a witness. -/

namespace Enclave.Circuits

variable (P : Poseidon2)

/-! ### Templates -/

/-- Signal `root` of `MerkleProof`, from the level `i` on. -/
def MerkleProof.root (pathIndices : F) : ℕ → List F → F → F
  | _, [], x => x
  | i, pathElement :: rest, x =>
      let inputs := switcher (bitSignal pathIndices i) x pathElement
      MerkleProof.root pathIndices (i + 1) rest (P.compress inputs.1 inputs.2)

/-- The evaluations of `MerkleProof`. -/
def MerkleProof.queries (pathIndices : F) : ℕ → List F → F → List Query
  | _, [], _ => []
  | i, pathElement :: rest, x =>
      let inputs := switcher (bitSignal pathIndices i) x pathElement
      .compress inputs.1 inputs.2 ::
        MerkleProof.queries pathIndices (i + 1) rest (P.compress inputs.1 inputs.2)

/-- `Keypair`. -/
def publicKey (privateKey : F) : F := P.hash2 privateKey 0 3

def commitment (amount pubkey blinding : F) : F := P.hash3 amount pubkey blinding 1

/-- `Signature`. -/
def signature (privateKey commitment merklePath : F) : F :=
  P.hash3 privateKey commitment merklePath 4

def nullifier (privateKey commitment merklePath : F) : F :=
  P.hash3 commitment merklePath (signature P privateKey commitment merklePath) 2

theorem MerkleProof.root_eq (pathIndices : F) : ∀ (i : ℕ) (sibs : List F) (x : F),
    MerkleProof.root P pathIndices i sibs x =
      Merkle.pathRoot P.compress pathIndices.val.testBit i sibs x
  | _, [], _ => rfl
  | i, s :: rest, x => by
      rw [MerkleProof.root, Merkle.pathRoot, switcher_bitSignal, MerkleProof.root_eq]
      cases pathIndices.val.testBit i <;> rfl

theorem MerkleProof.queries_eq (pathIndices : F) : ∀ (i : ℕ) (sibs : List F) (x : F),
    MerkleProof.queries P pathIndices i sibs x =
      (Merkle.pathPairs P.compress pathIndices.val.testBit i sibs x).map pairQuery
  | _, [], _ => rfl
  | i, s :: rest, x => by
      rw [MerkleProof.queries, Merkle.pathPairs, switcher_bitSignal, MerkleProof.queries_eq]
      cases pathIndices.val.testBit i <;> rfl

/-! ### Signals -/

/-- Bus `MembershipProof(levels)`. -/
structure MembershipProof (levels : ℕ) where
  leaf : F
  blinding : F
  pathElements : Fin levels → F
  pathIndices : F

/-- Bus `NonMembershipProof(levels)`. -/
structure NonMembershipProof (levels : ℕ) where
  key : F
  siblings : Fin levels → F
  oldKey : F
  oldValue : F
  isOld0 : F

structure Public (nIns nOuts nMembershipProofs nNonMembershipProofs : ℕ) where
  root : F
  publicAmount : F
  extDataHash : F
  inputNullifier : Fin nIns → F
  outputCommitment : Fin nOuts → F
  membershipRoots : Fin nIns → Fin nMembershipProofs → F
  nonMembershipRoots : Fin nIns → Fin nNonMembershipProofs → F

/-- The private signals of an input. -/
structure Input (nMembershipProofs nNonMembershipProofs levels smtLevels : ℕ) where
  membershipProofs : Fin nMembershipProofs → MembershipProof levels
  nonMembershipProofs : Fin nNonMembershipProofs → NonMembershipProof smtLevels
  inAmount : F
  inPrivateKey : F
  inBlinding : F
  inPathIndices : F
  inPathElements : Fin levels → F

/-- The private signals of an output. -/
structure Output where
  outAmount : F
  outPubkey : F
  outBlinding : F

structure Witness (nIns nOuts nMembershipProofs nNonMembershipProofs levels smtLevels : ℕ) where
  input : Fin nIns → Input nMembershipProofs nNonMembershipProofs levels smtLevels
  output : Fin nOuts → Output

variable {nIns nOuts nMembershipProofs nNonMembershipProofs levels smtLevels : ℕ}

/-- The public inputs in the order of their declaration. -/
def Public.toList (pub : Public nIns nOuts nMembershipProofs nNonMembershipProofs) : List F :=
  [pub.root, pub.publicAmount, pub.extDataHash] ++ List.ofFn pub.inputNullifier ++
    List.ofFn pub.outputCommitment ++
    (List.ofFn fun tx => List.ofFn (pub.membershipRoots tx)).flatten ++
    (List.ofFn fun tx => List.ofFn (pub.nonMembershipRoots tx)).flatten

/-! ### Constraints -/

/-- The policy check of membership: a leaf of the input's key stands under the root. -/
structure MembershipProof.Satisfies (m : MembershipProof levels) (pubkey root : F) : Prop where
  leaf : m.leaf = P.hash2 pubkey m.blinding 1
  pathIndices : num2Bits levels m.pathIndices
  root : MerkleProof.root P m.pathIndices 0 (List.ofFn m.pathElements) m.leaf = root

/-- The inputs of the `SMTVerifier` of a non-membership proof. -/
def NonMembershipProof.verifier (n : NonMembershipProof smtLevels) (root : F) :
    SMTVerifier.Inputs where
  enabled := 1
  root := root
  siblings := List.ofFn n.siblings
  oldKey := n.oldKey
  oldValue := n.oldValue
  isOld0 := bitSignal n.isOld0 0
  key := n.key
  value := n.key
  fnc := 1

/-- The policy check of non-membership: the input's key is not in the tree. -/
structure NonMembershipProof.Satisfies (n : NonMembershipProof smtLevels) (pubkey root : F) :
    Prop where
  key : n.key = pubkey
  isOld0 : num2Bits 1 n.isOld0
  verifier : (n.verifier root).Satisfies P

namespace Input

variable (inp : Input nMembershipProofs nNonMembershipProofs levels smtLevels)

/-- `inKeypair.publicKey`. -/
def inPubkey : F := publicKey P inp.inPrivateKey

/-- `inCommitmentHasher.out`. -/
def inCommitment : F := commitment P inp.inAmount (inp.inPubkey P) inp.inBlinding

/-- `inNullifierHasher.out`. -/
def inNullifier : F := nullifier P inp.inPrivateKey (inp.inCommitment P) inp.inPathIndices

/-- `inTree.root`. -/
def inTreeRoot : F :=
  MerkleProof.root P inp.inPathIndices 0 (List.ofFn inp.inPathElements) (inp.inCommitment P)

structure Satisfies (pub : Public nIns nOuts nMembershipProofs nNonMembershipProofs)
    (tx : Fin nIns) : Prop where
  nullifier : inp.inNullifier P = pub.inputNullifier tx
  pathIndices : num2Bits levels inp.inPathIndices
  checkRoot : forceEqualIfEnabled inp.inAmount pub.root (inp.inTreeRoot P)
  membership : ∀ i, (inp.membershipProofs i).Satisfies P (inp.inPubkey P) (pub.membershipRoots tx i)
  nonMembership : ∀ i,
    (inp.nonMembershipProofs i).Satisfies P (inp.inPubkey P) (pub.nonMembershipRoots tx i)

def queries (pub : Public nIns nOuts nMembershipProofs nNonMembershipProofs) (tx : Fin nIns) :
    List Query :=
  [.hash2 inp.inPrivateKey 0 3, .hash3 inp.inAmount (inp.inPubkey P) inp.inBlinding 1,
    .hash3 inp.inPrivateKey (inp.inCommitment P) inp.inPathIndices 4,
    .hash3 (inp.inCommitment P) inp.inPathIndices
      (signature P inp.inPrivateKey (inp.inCommitment P) inp.inPathIndices) 2] ++
  MerkleProof.queries P inp.inPathIndices 0 (List.ofFn inp.inPathElements) (inp.inCommitment P) ++
  ((List.ofFn inp.membershipProofs).flatMap fun m => .hash2 (inp.inPubkey P) m.blinding 1 ::
    MerkleProof.queries P m.pathIndices 0 (List.ofFn m.pathElements) m.leaf) ++
  (List.ofFn fun i => ((inp.nonMembershipProofs i).verifier
    (pub.nonMembershipRoots tx i)).queries P).flatten

end Input

structure Output.Satisfies (out : Output) (outputCommitment : F) : Prop where
  commitment : commitment P out.outAmount out.outPubkey out.outBlinding = outputCommitment
  amountCheck : num2Bits 248 out.outAmount

def Output.query (out : Output) : Query := .hash3 out.outAmount out.outPubkey out.outBlinding 1

namespace Witness

variable (pub : Public nIns nOuts nMembershipProofs nNonMembershipProofs)
  (w : Witness nIns nOuts nMembershipProofs nNonMembershipProofs levels smtLevels)

/-- The constraints of `PolicyTransaction`. -/
structure Satisfies : Prop where
  input : ∀ tx, (w.input tx).Satisfies P pub tx
  output : ∀ tx, (w.output tx).Satisfies P (pub.outputCommitment tx)
  sameNullifiers : ∀ i j, i < j → isEqual (pub.inputNullifier i) (pub.inputNullifier j) = 0
  invariant : ∑ tx, (w.input tx).inAmount + pub.publicAmount = ∑ tx, (w.output tx).outAmount

def queries : List Query :=
  (List.ofFn fun tx => (w.input tx).queries P pub tx).flatten ++
    List.ofFn fun tx => (w.output tx).query

end Witness

variable {P}
variable {pub : Public nIns nOuts nMembershipProofs nNonMembershipProofs}
  {w : Witness nIns nOuts nMembershipProofs nNonMembershipProofs levels smtLevels}

/-- **The input nullifiers differ.** -/
theorem Witness.Satisfies.nullifier_injective (h : w.Satisfies P pub) :
    Function.Injective pub.inputNullifier := by
  have hne : ∀ i j, i < j → pub.inputNullifier i ≠ pub.inputNullifier j := by
    intro i j hij heq
    have hsame := h.sameNullifiers i j hij
    rw [isEqual_eq, if_pos heq] at hsame
    exact one_ne_zero hsame
  intro i j heq
  rcases lt_trichotomy i j with hij | hij | hij
  · exact absurd heq (hne i j hij)
  · exact hij
  · exact absurd heq.symm (hne j i hij)

theorem Witness.input_queries_subset (tx : Fin nIns) :
    (w.input tx).queries P pub tx ⊆ w.queries P pub := fun _ hq =>
  List.mem_append_left _ (List.mem_flatten.mpr ⟨_, (List.mem_ofFn' _ _).mpr ⟨tx, rfl⟩, hq⟩)

theorem Witness.output_query_mem (tx : Fin nOuts) : (w.output tx).query ∈ w.queries P pub :=
  List.mem_append_right _ ((List.mem_ofFn' _ _).mpr ⟨tx, rfl⟩)

end Enclave.Circuits

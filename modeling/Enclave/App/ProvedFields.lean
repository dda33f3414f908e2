import Enclave.App.BalancedInputs
import Enclave.Prover.MerkleProofs

/-! # The fields that are proved

The pool rebuilds the public inputs from the fields of `sorobanProof`, and the proof is made for
the public signals of `circuitInputs`.  The root of the pool, the amount, the digest, the nullifiers
and the commitments are the same on both sides.  The two policy roots are not taken from one place:
the pool is given the roots that the caller has read, and the circuit those of the proofs that the
builder has put together.  They agree exactly if the synced or the local tree has the caller's
membership root, and the fetched proof the caller's non-membership root (`proved_fields_iff`). -/

namespace Enclave.App

open Prover Prover.MerkleTree Merkle Js Stellar
open Facilitator (beValue)

variable {P : Poseidon2}

/-! ### The local tree -/

/-- The leaf at a position of a tree that holds one leaf. -/
def soleLeaf (leafIndex : ℕ) (leaf : F) (i : ℕ) : F := if i = leafIndex then leaf else zeroAt 0

/-- The root of the tree that holds one leaf. -/
def soleLeafRoot (P : Poseidon2) (leafIndex : ℕ) (leaf : F) : F :=
  node P.compress (soleLeaf leafIndex leaf) treeDepth 0

theorem hexToFieldBytes_zeroLeaf :
    hexToFieldBytes getZeroLeafHex = .ok (scalarToBytes (zeroAt 0)) := by
  have hzero : ((leValue zeroLeafBytes.reverse : ℕ) : F) = zeroAt 0 := by decide +kernel
  rw [getZeroLeafHex, hexToFieldBytes_bytesToHex (by decide), hzero]

/-- **The loop** inserts the leaf at its position, and zeros elsewhere. -/
theorem exec_insertLocal {leafIndex : ℕ} {leaf : F} : ∀ {n i : ℕ} {tree : Prover.MerkleTree},
    HoldsOver P treeDepth (zeroAt 0) ((List.range i).map (soleLeaf leafIndex leaf)) tree →
    i + n ≤ 2 ^ treeDepth →
    ∃ tree', (insertLocal P leafIndex (scalarToBytes leaf) (scalarToBytes (zeroAt 0)) n i).exec tree =
        (.ok (), tree') ∧
      HoldsOver P treeDepth (zeroAt 0) ((List.range (i + n)).map (soleLeaf leafIndex leaf)) tree' := by
  intro n
  induction n with
  | zero => exact fun h _ => ⟨_, rfl, h⟩
  | succ n ih =>
      intro i tree h hroom
      have hbytes : bytesToScalar (if i = leafIndex then scalarToBytes leaf
          else scalarToBytes (zeroAt 0)) = .ok (soleLeaf leafIndex leaf i) := by
        rw [soleLeaf]
        split_ifs
        · exact bytesToScalar_scalarToBytes leaf
        · exact bytesToScalar_scalarToBytes (zeroAt 0)
      have hlen : ((List.range i).map (soleLeaf leafIndex leaf)).length < 2 ^ treeDepth := by
        rw [List.length_map, List.length_range]
        omega
      obtain ⟨tree₁, hinsert, hholds⟩ := h.insert_apply (by decide)
        (show treeDepth < 32 by decide) hlen hbytes
      have hrange : (List.range i).map (soleLeaf leafIndex leaf) ++ [soleLeaf leafIndex leaf i] =
          (List.range (i + 1)).map (soleLeaf leafIndex leaf) := by
        rw [List.range_succ, List.map_append, List.map_singleton]
      rw [hrange] at hholds
      obtain ⟨tree', hrest, hholds'⟩ := ih hholds (by omega)
      refine ⟨tree', ?_, by rwa [Nat.add_assoc, Nat.add_comm 1 n] at hholds'⟩
      rw [insertLocal, Wasm.exec_bind_of_ok hinsert]
      exact hrest

/-- **The root of the local tree.** -/
theorem localProof_ok {leafIndex : ℕ} {leaf : F} {proof : Prover.MerkleProof}
    (h : localProof P leafIndex (scalarToBytes leaf) = .ok proof) :
    proof.root = scalarToBytes (soleLeafRoot P leafIndex leaf) := by
  unfold localProof at h
  rw [hexToFieldBytes_zeroLeaf, Result.ok_bind] at h
  obtain ⟨empty, hempty, h⟩ := Result.bind_eq_ok.mp h
  rw [newWithZeroLeaf, bytesToScalar_scalarToBytes, Result.ok_bind] at hempty
  obtain ⟨tree, hinsert, hholds⟩ := @exec_insertLocal P leafIndex leaf (1 <<< treeDepth) 0 empty
    (holdsOver_of_buildTree hempty) (by decide)
  rw [hinsert] at h
  obtain ⟨-, -, h⟩ := Result.bind_eq_ok.mp h
  obtain ⟨path, -, h⟩ := Result.bind_eq_ok.mp h
  rw [hholds.root_apply, Result.ok_bind] at h
  cases h
  refine congrArg scalarToBytes (node_congr fun i hi => ?_)
  have hlt : i < 2 ^ treeDepth := by
    by_contra hge
    have hpos := Nat.div_pos (not_lt.mp hge) (by positivity)
    omega
  rw [List.getD_eq_getElem _ _ (by rw [List.length_map, List.length_range]; omega), List.getElem_map,
    List.getElem_range]

/-! ### What both sides read -/

/-- The public signals in the order of their declaration. -/
def CircuitInputs.publicSignals (ci : CircuitInputs) : List String :=
  [ci.root, ci.publicAmount, ci.extDataHash] ++ ci.inputNullifier ++ ci.outputCommitment ++
    ci.membershipRoots.flatten ++ ci.nonMembershipRoots.flatten

/-- The public inputs that `verify_proof` rebuilds. -/
def SorobanProof.rebuilt (s : SorobanProof) : List F :=
  [(s.root : F), (s.public_amount : F), (beValue s.ext_data_hash : F)] ++
    s.input_nullifiers.map (fun n : ℕ => (n : F)) ++
    [(s.output_commitment0 : F), (s.output_commitment1 : F)] ++
    List.replicate s.input_nullifiers.length (s.asp_membership_root : F) ++
    List.replicate s.input_nullifiers.length (s.asp_non_membership_root : F)

/-- The contract's struct holds the numbers of `sorobanProof`. -/
structure SorobanProof.Encodes (s : SorobanProof) (p : Pool.Proof) : Prop where
  root : (p.root : ℤ) = s.root
  publicAmount : (p.publicAmount : ℤ) = s.public_amount
  extDataHash : p.extDataHash = beValue s.ext_data_hash
  inputNullifiers : p.inputNullifiers = s.input_nullifiers
  outputCommitment0 : p.outputCommitment0 = s.output_commitment0
  outputCommitment1 : p.outputCommitment1 = s.output_commitment1
  aspMembershipRoot : (p.aspMembershipRoot : ℤ) = s.asp_membership_root
  aspNonMembershipRoot : (p.aspNonMembershipRoot : ℤ) = s.asp_non_membership_root

/-- **What is rebuilt** is what the contract hands to the verifier. -/
theorem SorobanProof.Encodes.rebuilt {s : SorobanProof} {p : Pool.Proof} (h : s.Encodes p) :
    (Pool.publicInputs p).map (fun n : ℕ => (n : F)) = s.rebuilt := by
  simp only [Pool.publicInputs, SorobanProof.rebuilt, ← h.root, ← h.publicAmount, h.extDataHash,
    h.inputNullifiers, h.outputCommitment0, h.outputCommitment1, ← h.aspMembershipRoot,
    ← h.aspNonMembershipRoot, List.map_append, List.map_cons, List.map_nil, List.map_replicate,
    Int.cast_natCast]

/-- The submitted fields are the proved ones: eleven values, equal position by position. -/
def FieldsProved (proof : TransactionProof) : Prop :=
  proof.sorobanProof.rebuilt.length = 11 ∧
    List.Forall₂ Denotes proof.circuitInputs.publicSignals proof.sorobanProof.rebuilt

/-- The prover's circuit has two inputs and two outputs, and it refuses arrays of other lengths. -/
def ProverClient.ChecksSizes (prover : ProverClient) : Prop :=
  ∀ inputs result, prover.prove inputs = .ok result → inputs.Sized 2 2

/-! ### The roots -/

variable (P) in
def userLeaf (params : TransactionParams) : F :=
  P.hash2 (Circuits.publicKey P (residue params.privKeyBytes)) params.membershipBlinding 1

variable (P) in
/-- The position that is looked up for it. -/
def leafPosition (params : TransactionParams) : ℕ :=
  membershipLeafIndex params.stateManager (hex64 (userLeaf P params).val)
    params.membershipLeafIndex

variable (P) in
/-- The caller's membership root is that of the synced tree, or that of the tree that holds the
user's leaf alone. -/
def MembershipRootCurrent (params : TransactionParams) : Prop :=
  (∃ proof, syncedProof params.stateManager (leafPosition P params) = .ok (some proof) ∧
    (bytesToBigIntLE proof.root : ℤ) = params.membershipRoot) ∨
  soleLeafRoot P (leafPosition P params) (userLeaf P params) = (params.membershipRoot : F)

variable (P) in
/-- The caller's non-membership root is zero, or that of the fetched proof. -/
def NonMembershipRootCurrent (params : TransactionParams) : Prop :=
  params.nonMembershipRoot = 0 ∨ ∃ sm result proof, params.stateManager = some sm ∧
    sm.getASPNonMembershipProof
      (scalarToBytes (Circuits.publicKey P (residue params.privKeyBytes))) = .ok result ∧
    result.proof = some proof ∧ (bytesToBigIntLE proof.root : F) = params.nonMembershipRoot

variable {params : TransactionParams}

/-- **The root of the membership proof.** -/
theorem membershipRoot_iff {m : MembershipProofData}
    (h : buildMembershipProofData P
      (scalarToBytes (Circuits.publicKey P (residue params.privKeyBytes))) params.membershipRoot
      params.membershipLeafIndex params.membershipBlinding params.stateManager = .ok m) :
    ∃ x, Denotes m.root x ∧ (x = params.membershipRoot ↔ MembershipRootCurrent P params) := by
  obtain ⟨blinding, hblinding, h⟩ := Result.bind_eq_ok.mp h
  rw [bigintToField_ok hblinding] at h
  obtain ⟨leafBytes, hleaf, h⟩ := Result.bind_eq_ok.mp h
  have hleafBytes : leafBytes = scalarToBytes (userLeaf P params) := by
    rw [Prover.poseidon2Hash2, bytesToScalar_scalarToBytes, Result.ok_bind,
      bytesToScalar_scalarToBytes, Result.ok_bind] at hleaf
    rw [← Except.ok.inj hleaf, userLeaf, ← Nat.cast_one]
    rfl
  subst hleafBytes
  rw [fieldToHex_scalarToBytes, Result.ok_bind] at h
  obtain ⟨synced, hsynced, h⟩ := Result.bind_eq_ok.mp h
  obtain ⟨proof, hproof, h⟩ := Result.bind_eq_ok.mp h
  cases h
  refine ⟨(bytesToBigIntLE proof.root : F), denotes_repr _, ?_⟩
  cases hfilter : synced.filter fun p => (bytesToBigIntLE p.root : ℤ) = params.membershipRoot with
  | some found =>
      rw [hfilter] at hproof
      obtain rfl := Except.ok.inj hproof
      obtain ⟨hfound, hroot⟩ := Option.filter_eq_some_iff.mp hfilter
      have hroot := of_decide_eq_true hroot
      refine iff_of_true ?_ (.inl ⟨found, hsynced.trans (congrArg Except.ok hfound), hroot⟩)
      rw [← hroot, Int.cast_natCast]
  | none =>
      rw [hfilter] at hproof
      rw [localProof_ok hproof, bytesToBigIntLE_scalarToBytes, F.natCast_val]
      refine ⟨.inr, fun hcurrent => hcurrent.resolve_left ?_⟩
      rintro ⟨found, hfound, hroot⟩
      obtain rfl := Except.ok.inj (hsynced.symm.trans hfound)
      rw [Option.filter_some, if_pos (decide_eq_true hroot)] at hfilter
      cases hfilter

/-- **The root of the non-membership proof.** -/
theorem nonMembershipRoot_iff {sm : StateManager} (hsm : params.stateManager = some sm)
    {n : NonMembershipProofData}
    (h : buildNonMembershipProofDataFromChain
      (scalarToBytes (Circuits.publicKey P (residue params.privKeyBytes))) sm
      params.nonMembershipRoot = .ok n) :
    ∃ x, Denotes n.root x ∧ (x = params.nonMembershipRoot ↔ NonMembershipRootCurrent P params) := by
  unfold buildNonMembershipProofDataFromChain at h
  split at h
  · rename_i hzero
    cases h
    refine ⟨0, denotes_zero, iff_of_true ?_ (.inl hzero)⟩
    rw [hzero, Int.cast_zero]
  · rename_i hnonzero
    obtain ⟨result, hresult, h⟩ := Result.bind_eq_ok.mp h
    split at h
    · cases h
    · split at h
      · cases h
      · split at h
        · cases h
        · rename_i proof hproof
          cases h
          refine ⟨(bytesToBigIntLE proof.root : F), denotes_repr _, ?_, ?_⟩
          · exact fun hroot => .inr ⟨sm, result, proof, hsm, ofThrown_ok hresult, hproof, hroot⟩
          · rintro (hzero | ⟨sm', result', proof', hsm', hresult', hproof', hroot⟩)
            · exact absurd hzero hnonzero
            · obtain rfl := Option.some.inj (hsm.symm.trans hsm')
              obtain rfl := Except.ok.inj ((ofThrown_ok hresult).symm.trans hresult')
              obtain rfl := Option.some.inj (hproof.symm.trans hproof')
              exact hroot

/-! ### The digest -/

theorem beValue_of_hashExtData {k : Keccak} {sdk : Sdk} {extData : Facilitator.ExtDataLike}
    {hash : ExtDataHash} (h : hashExtData k sdk extData = .ok hash) :
    beValue hash.bytes = hash.bigInt := by
  unfold hashExtData at h
  cases hmap : Facilitator.hashedExtDataMap sdk extData with
  | none =>
      rw [hmap] at h
      cases h
  | some scVal =>
      have hword : bytesToBigIntBE (k.keccak256 (k.toXdr scVal)) % bn256Modulus < 2 ^ 256 :=
        (Nat.mod_lt _ (by decide)).trans (bn256Modulus_lt.trans (by decide))
      rw [hmap] at h
      change ((bigIntToBytesBE _ 32) >>= _) = _ at h
      rw [bigIntToBytesBE_of_lt hword] at h
      cases h
      rw [beValue, List.reverse_reverse]
      exact leValue_leBytes hword

/-! ### The fields -/

variable {c : Cipher} {k : Keccak} {sdk : Sdk} {draws : Draws} {prover : ProverClient}

/-- The two policy roots are all that can differ. -/
theorem exists_fieldsProved_iff (hprover : prover.ChecksSizes) {proof : TransactionProof}
    (h : generateTransactionProof P c k sdk draws prover params = .ok proof) :
    ∃ pub outs m n sm, BuiltOf P k sdk draws params proof.toTransactionInputs pub outs m n sm ∧
      (FieldsProved proof ↔
        Denotes m.root params.membershipRoot ∧ Denotes n.root params.nonMembershipRoot) := by
  obtain ⟨_, proved, output0, output1, rest, hbuilt, hproved, houtputs, rfl, hsoroban⟩ :=
    generateTransactionProof_ok h
  have hsized := hprover _ _ hproved
  obtain ⟨pub, outs, m, n, sm, hparts⟩ := buildTransactionInputs_ok hbuilt
  have hhash := beValue_of_hashExtData hparts.extDataHash
  have hnotes : proof.inputNotes.length = 2 := by
    have hlen := hsized.inAmount
    rwa [hparts.circuitInputs, circuitInputsOf, List.length_map] at hlen
  have hrest : rest = [] := by
    have hlen := hsized.outAmount
    rw [hparts.circuitInputs, circuitInputsOf, List.length_map, houtputs] at hlen
    exact List.eq_nil_of_length_eq_zero (Nat.succ.inj (Nat.succ.inj hlen))
  obtain ⟨a, b, hab⟩ := List.length_eq_two.mp hnotes
  subst hrest
  have hsignals : proof.circuitInputs.publicSignals = [bigIntToString params.poolRoot,
      bigIntToString (toFieldElement params.extAmount), proof.extDataHash.bigInt.repr,
      a.nullifierBig.repr, b.nullifierBig.repr, output0.commitmentBig.repr,
      output1.commitmentBig.repr, m.root, m.root, n.root, n.root] := by
    rw [hparts.circuitInputs, houtputs, hab]
    rfl
  have hrebuilt : proof.sorobanProof.rebuilt = [(params.poolRoot : F),
      (toFieldElement params.extAmount : F), (proof.extDataHash.bigInt : F), (a.nullifierBig : F),
      (b.nullifierBig : F), (output0.commitmentBig : F), (output1.commitmentBig : F),
      (params.membershipRoot : F), (params.membershipRoot : F), (params.nonMembershipRoot : F),
      (params.nonMembershipRoot : F)] := by
    rw [hsoroban, SorobanProof.rebuilt, sorobanProofOf, hab, hhash]
    rfl
  refine ⟨pub, outs, m, n, sm, hparts, ?_⟩
  rw [FieldsProved, hsignals, hrebuilt]
  simp only [List.forall₂_cons, List.forall₂_nil_left_iff, denotes_bigIntToString, denotes_repr]
  constructor
  · rintro ⟨-, -, -, -, -, -, -, -, hm, -, hn, -⟩
    exact ⟨hm, hn⟩
  · rintro ⟨hm, hn⟩
    exact ⟨rfl, trivial, trivial, trivial, trivial, trivial, trivial, trivial, hm, hm, hn, hn, trivial⟩

/-! ### A prover that checks sizes -/

/-- The lengths of the arrays. -/
def CircuitInputs.sizes (ci : CircuitInputs) : List ℕ :=
  [ci.inputNullifier.length, ci.inAmount.length, ci.inPrivateKey.length, ci.inBlinding.length,
    ci.inPathIndices.length, ci.inPathElements.length, ci.membershipRoots.length,
    ci.nonMembershipRoots.length, ci.membershipProofs.length, ci.nonMembershipProofs.length,
    ci.outputCommitment.length, ci.outAmount.length, ci.outPubkey.length, ci.outBlinding.length]

/-- A prover that checks them. -/
def checkingProver : ProverClient where
  initializeProver := .ok ()
  prove inputs :=
    if inputs.sizes = List.replicate 14 2 then .ok ⟨[], []⟩
    else .error (.error "Too many values for input signal")

theorem checksSizes_checkingProver : checkingProver.ChecksSizes := by
  intro inputs result h
  unfold checkingProver at h
  dsimp only at h
  split at h
  · rename_i hsizes
    simp only [CircuitInputs.sizes, List.replicate, List.cons.injEq, and_true] at hsizes
    obtain ⟨h₁, h₂, h₃, h₄, h₅, h₆, h₇, h₈, h₉, h₁₀, h₁₁, h₁₂, h₁₃, h₁₄⟩ := hsizes
    exact ⟨h₁, h₂, h₃, h₄, h₅, h₆, h₇, h₈, h₉, h₁₀, h₁₁, h₁₂, h₁₃, h₁₄⟩
  · cases h

theorem checkingProver_ok {inputs : CircuitInputs} (h : inputs.Sized 2 2) :
    ∃ result, checkingProver.prove inputs = .ok result := by
  refine ⟨⟨[], []⟩, if_pos ?_⟩
  simp only [CircuitInputs.sizes, h.inputNullifier, h.inAmount, h.inPrivateKey, h.inBlinding,
    h.inPathIndices, h.inPathElements, h.membershipRoots, h.nonMembershipRoots,
    h.membershipProofs, h.nonMembershipProofs, h.outputCommitment, h.outAmount, h.outPubkey,
    h.outBlinding, List.replicate]

/-- The sample transfer, with a non-membership root and a state manager. -/
def sampleTransaction (root : ℤ) (sm : StateManager) : TransactionParams :=
  { sampleTransferred with nonMembershipRoot := root, stateManager := some sm }

theorem exists_proof_sample {root : ℤ} {sm : StateManager}
    (hsynced : ∀ i, sm.getASPMembershipProof i = .ok (some ⟨[], [], [], treeDepth⟩))
    (hn : ∃ n, buildNonMembershipProofDataFromChain
      (scalarToBytes (Circuits.publicKey smallPoseidon2 1)) sm root = .ok n) :
    ∃ proof, generateTransactionProof smallPoseidon2 toyCipher sampleKeccak256
      Facilitator.sampleSdk sampleDraws checkingProver (sampleTransaction root sm) = .ok proof := by
  obtain ⟨built, hbuilt⟩ := @exists_build_sample (sampleTransaction root sm) root sm rfl hsynced hn
    rfl payable_transferred (by decide : -2 ^ 255 ≤ (0 : ℤ) ∧ (0 : ℤ) < 2 ^ 255) rfl
  have hpart : TransactionPart smallPoseidon2 (scalarToBytes 1) [sampleInput] 0
      built.circuitInputs := by
    refine @transactionPart_of_build _ _ _ _ _ (sampleTransaction root sm) _ _ (.inl rfl)
      (Nat.le_refl 2) inputTotal_sample ?_ hbuilt
    rfl
  exact exists_generateTransactionProof rfl hbuilt (checkingProver_ok hpart.sized)

/-! ### When the roots are current -/

/-- **When the submitted fields are the proved ones**: the two policy roots of the caller are those
of the proofs that were put together. -/
theorem proved_fields_iff (hprover : prover.ChecksSizes) {proof : TransactionProof}
    (h : generateTransactionProof P c k sdk draws prover params = .ok proof) :
    FieldsProved proof ↔ MembershipRootCurrent P params ∧ NonMembershipRootCurrent P params := by
  obtain ⟨pub, outs, m, n, sm, hparts, hfields⟩ := exists_fieldsProved_iff hprover h
  obtain rfl := derivePublicKey_ok hparts.publicKey
  obtain ⟨x, hx, hxiff⟩ := membershipRoot_iff hparts.membership
  obtain ⟨y, hy, hyiff⟩ := nonMembershipRoot_iff hparts.stateManager hparts.nonMembership
  rw [hfields, hx.iff_eq, hy.iff_eq, hxiff, hyiff]

theorem proved_fields_iff_sample : ∃ proof,
    generateTransactionProof smallPoseidon2 toyCipher sampleKeccak256 Facilitator.sampleSdk
      sampleDraws checkingProver (sampleTransaction 0 sampleStateManager) = .ok proof ∧
    (FieldsProved proof ↔
      MembershipRootCurrent smallPoseidon2 (sampleTransaction 0 sampleStateManager) ∧
        NonMembershipRootCurrent smallPoseidon2 (sampleTransaction 0 sampleStateManager)) := by
  obtain ⟨proof, hproof⟩ := @exists_proof_sample 0 sampleStateManager (fun _ => rfl) ⟨_, rfl⟩
  exact ⟨proof, hproof, proved_fields_iff checksSizes_checkingProver hproof⟩

/-! ### A stale root -/

/-- A state manager that fetches a proof of the root 2. -/
def fetchingStateManager : StateManager :=
  { sampleStateManager with
    getASPNonMembershipProof := fun _ => .ok {
      success := true
      error := ""
      keyExists := false
      proof := some ⟨scalarToBytes ((2 : ℕ) : F), some [], none, none, true⟩ } }

/-- **A ban-list root that was read earlier** is submitted, and the proof is made for another. -/
theorem stale_root : ∃ proof,
    generateTransactionProof smallPoseidon2 toyCipher sampleKeccak256 Facilitator.sampleSdk
      sampleDraws checkingProver (sampleTransaction 1 fetchingStateManager) = .ok proof ∧
    ¬ FieldsProved proof := by
  obtain ⟨proof, hproof⟩ := @exists_proof_sample 1 fetchingStateManager (fun _ => rfl) ⟨_, rfl⟩
  refine ⟨proof, hproof, ?_⟩
  obtain ⟨pub, outs, m, n, sm, hparts, hfields⟩ :=
    exists_fieldsProved_iff checksSizes_checkingProver hproof
  rw [hfields]
  rintro ⟨-, hroot⟩
  obtain rfl : fetchingStateManager = sm := Option.some.inj hparts.stateManager
  have hn := hparts.nonMembership
  cases hn
  have hread : Denotes (bytesToBigIntStringLE (scalarToBytes ((2 : ℕ) : F))) ((2 : ℕ) : F) := by
    rw [bytesToBigIntStringLE, bytesToBigIntLE_scalarToBytes]
    exact (denotes_repr _).trans (congrArg some (F.natCast_val _))
  have heq := (hread.iff_eq _).mp hroot
  exact absurd heq (by decide)

end Enclave.App

import Enclave.Circuits.PolicyTransaction
import Enclave.Prover.MerkleComplete

/-! # Merkle proofs

`get_proof` of the wasm prover crate, on a tree after any insertions.  The tree holds all nodes over
its leaves, so the elements it reads are the siblings of the leaf's path: `getProof_proves` says that
the circuit folds them to the root, that the path indices are the index, and that a path recomputed
from the full leaf vector is the same. -/

namespace Enclave.Prover

open Merkle

namespace MerkleTree

variable {P : Poseidon2} {usizeBits levels : ℕ} {zero : F} {leaves : List F} {tree : MerkleTree}

/-- Insertions in order, those that fail included. -/
def insertEach (usizeBits : ℕ) (P : Poseidon2) (tree : MerkleTree)
    (insertions : List (List UInt8)) : MerkleTree :=
  insertions.foldl (fun tree leafBytes => ((insert usizeBits P leafBytes).exec tree).2) tree

/-- The leaves that bytes of field elements stand for. -/
def readLeaves (insertions : List (List UInt8)) : List F :=
  insertions.filterMap fun leafBytes => (bytesToScalar leafBytes).toOption

/-- **Run lemma.**  The tree holds what was readable, as far as it has room. -/
theorem HoldsOver.insertEach (h : HoldsOver P levels zero leaves tree) (h32 : levels ≤ 32)
    (hbits : levels < usizeBits) (insertions : List (List UInt8)) :
    HoldsOver P levels zero ((leaves ++ readLeaves insertions).take (2 ^ levels))
      (insertEach usizeBits P tree insertions) := by
  induction insertions generalizing leaves tree with
  | nil =>
      rw [readLeaves, List.filterMap_nil, List.append_nil, List.take_of_length_le h.length_le]
      exact h
  | cons leafBytes rest ih =>
      rw [readLeaves, List.filterMap_cons, MerkleTree.insertEach, List.foldl_cons]
      cases hleaf : bytesToScalar leafBytes with
      | error e =>
          rw [insert_of_error hleaf]
          exact ih h
      | ok leaf =>
          obtain hlt | hge := Nat.lt_or_ge leaves.length (2 ^ levels)
          · obtain ⟨tree', hins, h'⟩ := h.insert_apply h32 hbits hlt hleaf
            rw [hins]
            have hrest := ih h'
            rw [List.append_assoc] at hrest
            exact hrest
          · have hfull := Nat.le_antisymm h.length_le hge
            rw [h.insert_full usizeBits hfull hleaf]
            have hrest := ih h
            rw [List.take_append_of_le_length hge] at hrest ⊢
            exact hrest

theorem getNode_eq {g : ℕ → ℕ → F} (htree : tree.levelsData = grid levels g) {l i : ℕ}
    (hl : l ≤ levels) (hi : i < 2 ^ (levels - l)) :
    (tree.levelsData[l]?.bind fun row => row[i]?) = some (g l i) := by
  rw [htree, grid_getElem? hl, Option.bind_some, List.getElem?_map, List.getElem?_range hi,
    Option.map_some]

theorem mod_two_pow_succ_eq (idx l : ℕ) : idx % 2 ^ (l + 1) =
    if idx / 2 ^ l % 2 = 0 then idx % 2 ^ l else idx % 2 ^ l ||| 1 <<< l := by
  have hlow : idx % 2 ^ l < 2 ^ l := Nat.mod_lt _ (by positivity)
  rw [Nat.mod_pow_succ]
  split_ifs with h
  · rw [h, Nat.mul_zero, Nat.add_zero]
  · rw [Nat.or_comm, ← Nat.shiftLeft_add_eq_or_of_lt hlow, Nat.shiftLeft_eq, Nat.one_mul,
      show idx / 2 ^ l % 2 = 1 by omega, Nat.mul_one, Nat.add_comm]

/-- **The loop of `get_proof`** reads the siblings, and the digits of the index. -/
theorem proofLoop_eq {f : ℕ → F} (htree : tree.levelsData = grid levels (node P.compress f))
    {idx : ℕ} (hidx : idx < 2 ^ levels) : ∀ {k l : ℕ} {elements : List UInt8}, l + k = levels →
      proofLoop tree k l (idx / 2 ^ l) elements (idx % 2 ^ l) =
        .ok (elements ++ (siblings P.compress f idx k l).flatMap scalarToBytes, idx % 2 ^ levels)
  | 0, l, elements, hl => by
      rw [proofLoop, siblings, List.flatMap_nil, List.append_nil, ← hl, Nat.add_zero]
  | k + 1, l, elements, hl => by
      have hpos : idx / 2 ^ l < 2 ^ (k + 1) := by
        refine Nat.div_lt_of_lt_mul ?_
        rwa [← pow_add, hl]
      have hsibling := getNode_eq htree (l := l) (by omega) (i := idx / 2 ^ l ^^^ 1) (by
        rw [show levels - l = k + 1 by omega]
        exact xor_one_lt hpos)
      rw [proofLoop, hsibling]
      simp only []
      rw [← mod_two_pow_succ_eq, ← div_two_pow_succ, proofLoop_eq htree hidx (by omega), siblings,
        List.flatMap_cons, List.append_assoc]

theorem holdsOver_of_buildTree {empty : MerkleTree}
    (h : buildTree usizeBits P levels zero = .ok empty) : HoldsOver P levels zero [] empty := by
  obtain ⟨h1, h32, hbits⟩ := buildTree_ok h
  obtain ⟨empty', hempty, hholds⟩ :=
    buildTree_of_chain (zeroChain_iterate (c := P.compress) zero levels) h1 h32 hbits
  obtain rfl := Except.ok.inj (h.symm.trans hempty)
  exact hholds

theorem index_lt_modulus {index : ℕ} (h32 : levels ≤ 32) (hindex : index < 2 ^ levels) :
    index < bn256Modulus := by
  have hpow : 2 ^ levels ≤ 2 ^ 32 := Nat.pow_le_pow_right (by decide) h32
  have hmodulus : 2 ^ 32 < bn256Modulus := by decide
  omega

theorem HoldsOver.getProof_apply (h : HoldsOver P levels zero leaves tree)
    (hbits : levels < usizeBits) {index : ℕ} (hindex : index < 2 ^ levels) :
    getProof usizeBits tree index = .ok {
      pathElements := (siblings P.compress (fun i => leaves.getD i zero) index levels 0).flatMap
        scalarToBytes
      pathIndices := scalarToBytes (index : F)
      root := scalarToBytes (node P.compress (fun i => leaves.getD i zero) levels 0)
      levels := levels } := by
  have husize : index < 2 ^ usizeBits :=
    hindex.trans (Nat.pow_lt_pow_right (by decide) hbits)
  have hloop := @proofLoop_eq P _ _ _ h.levelsData index hindex levels 0 [] (Nat.zero_add _)
  rw [pow_zero, Nat.div_one, Nat.mod_one, List.nil_append, Nat.mod_eq_of_lt hindex] at hloop
  rw [getProof, h.depth, if_neg (by omega), if_neg (by omega), hloop, h.root_apply]
  rfl

theorem padded_eq_levelNodes (hlen : leaves.length ≤ 2 ^ levels) :
    Circuits.padded zero levels leaves =
      Circuits.levelNodes P (fun i => leaves.getD i zero) 0 (2 ^ levels) := by
  unfold Circuits.levelNodes
  refine List.ext_getElem (by simp [Circuits.padded, hlen]) fun i hi hi' => ?_
  rw [List.getElem_map, List.getElem_range, node]
  by_cases hlt : i < leaves.length
  · simp [Circuits.padded, hlt]
  · simp [Circuits.padded, hlt, List.getElem_append]

end MerkleTree

/-- The proof means the index: the circuit, with its index bits, folds the leaf there to the root, and
recomputation from all leaves gives the same path. -/
structure MerkleProof.Proves (P : Poseidon2) (leafVector : List F) (index : ℕ) (root : F)
    (siblings : List F) (proof : MerkleProof) : Prop where
  elements_eq : proof.pathElements = siblings.flatMap scalarToBytes
  levels_eq : proof.levels = siblings.length
  root_eq : proof.root = scalarToBytes root
  indices_eq : proof.pathIndices = scalarToBytes (index : F)
  val_index : (index : F).val = index
  bits : Circuits.num2Bits proof.levels (index : F)
  folds : ∃ leaf, leafVector[index]? = some leaf ∧
    Circuits.MerkleProof.root P (index : F) 0 siblings leaf = root
  recomputed : Circuits.merkleProof P leafVector index = .ok (siblings, index, proof.levels)

namespace MerkleTree

variable {P : Poseidon2} {usizeBits levels : ℕ} {zero : F}

/-- **Merkle proofs are valid and mean the leaf index**, on a tree after any insertions. -/
theorem getProof_proves {empty : MerkleTree} (hbuild : buildTree usizeBits P levels zero = .ok empty)
    (insertions : List (List UInt8)) {index : ℕ} (hindex : index < 2 ^ levels) :
    ∃ leafVector root siblings proof,
      leafVector = Circuits.padded zero levels ((readLeaves insertions).take (2 ^ levels)) ∧
      (MerkleTree.insertEach usizeBits P empty insertions).levelsData.head? = some leafVector ∧
      MerkleTree.root (MerkleTree.insertEach usizeBits P empty insertions) =
        .ok (scalarToBytes root) ∧
      getProof usizeBits (MerkleTree.insertEach usizeBits P empty insertions) index = .ok proof ∧
      proof.levels = levels ∧ proof.Proves P leafVector index root siblings := by
  obtain ⟨h1, h32, hbits⟩ := buildTree_ok hbuild
  have h := (holdsOver_of_buildTree hbuild).insertEach h32 hbits insertions
  rw [List.nil_append] at h
  have hval := F.val_natCast_of_lt (index_lt_modulus h32 hindex)
  have hvector := @padded_eq_levelNodes P _ zero _ h.length_le
  refine ⟨_, _, _, _, rfl, ?_, h.root_apply, h.getProof_apply hbits hindex, rfl, rfl,
    (length_siblings _ _ _ _).symm, rfl, rfl, hval, ?_,
    ⟨((readLeaves insertions).take (2 ^ levels)).getD index zero, ?_, ?_⟩, ?_⟩
  · rw [h.levelsData, hvector, grid, List.range_succ_eq_map, List.map_cons, List.head?_cons]
    rfl
  · rw [Circuits.num2Bits, hval]
    exact hindex
  · rw [hvector, Circuits.levelNodes, List.getElem?_map, List.getElem?_range hindex]
    rfl
  · have hroot := @pathRoot_siblings _ P.compress
      (fun i => ((readLeaves insertions).take (2 ^ levels)).getD i zero) index levels 0
    rw [pow_zero, Nat.div_one, Nat.zero_add, Nat.div_eq_of_lt hindex] at hroot
    rw [Circuits.MerkleProof.root_eq, hval]
    exact hroot
  · rw [hvector]
    exact Circuits.merkleProof_eq _ hindex

/-- A tree of two leaves, with one inserted. -/
theorem getProof_proves_two : ∃ leafVector root siblings proof,
    leafVector = Circuits.padded 0 1 ((readLeaves [scalarToBytes 1]).take (2 ^ 1)) ∧
    (MerkleTree.insertEach 32 smallPoseidon2
      ⟨[[0, 0], [smallPoseidon2.compress 0 0]], 1, 0⟩ [scalarToBytes 1]).levelsData.head? =
        some leafVector ∧
    MerkleTree.root (MerkleTree.insertEach 32 smallPoseidon2
      ⟨[[0, 0], [smallPoseidon2.compress 0 0]], 1, 0⟩ [scalarToBytes 1]) =
        .ok (scalarToBytes root) ∧
    getProof 32 (MerkleTree.insertEach 32 smallPoseidon2
      ⟨[[0, 0], [smallPoseidon2.compress 0 0]], 1, 0⟩ [scalarToBytes 1]) 1 = .ok proof ∧
    proof.levels = 1 ∧ proof.Proves smallPoseidon2 leafVector 1 root siblings :=
  getProof_proves rfl [scalarToBytes 1] (by decide)

end MerkleTree

end Enclave.Prover

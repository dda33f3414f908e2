import Enclave.AspMembership.Tree
import Enclave.Pool.Tree
import Enclave.Prover.MerkleComplete

/-! # The three Merkle trees agree

The pool's tree, the ASP membership tree and the browser's tree, each started empty with the same
zero leaf and given leaves in order: `trees_agree` says that all of them have the root of full
recomputation, number the leaves consecutively from 0, and reject what does not fit without a
change. -/

namespace Enclave

open Merkle Circuits

variable {P : Poseidon2} {levels : ℕ}

/-! ### Sequences of insertions -/

namespace Pool.MerkleTreeWithHistory

/-- Pairs of leaves inserted in order; the indices returned. -/
def insertAll (P : Poseidon2) : List (F × F) → Call (List (ℕ × ℕ))
  | [] => pure []
  | p :: rest => do
      let idx ← insertTwoLeaves P p.1.val p.2.val
      return idx :: (← insertAll P rest)

/-- The leaves of the pairs. -/
def leavesOf (pairs : List (F × F)) : List F := pairs.flatMap fun p => [p.1, p.2]

theorem length_leavesOf (pairs : List (F × F)) : (leavesOf pairs).length = 2 * pairs.length := by
  induction pairs with
  | nil => rfl
  | cons p rest ih =>
      rw [leavesOf, List.flatMap_cons, List.length_append, ← leavesOf, ih, List.length_cons,
        List.length_cons, List.length_cons, List.length_nil]
      omega

/-- **Run lemma** of the pool's tree. -/
theorem Holds.insertAll_apply (hz : ZeroTable P) (h1 : 1 ≤ levels) (h32 : levels ≤ 32) :
    ∀ {pairs : List (F × F)} {leaves : List F} {env : Env MerkleStore}, Holds P levels leaves env →
      leaves.length + 2 * pairs.length ≤ 2 ^ levels →
      ∃ env', insertAll P pairs env = .ok ((List.range pairs.length).map fun i =>
          (leaves.length + 2 * i, leaves.length + 2 * i + 1), env') ∧
        Holds P levels (leaves ++ leavesOf pairs) env'
  | [], leaves, env, h, _ => ⟨env, rfl, by rwa [leavesOf, List.flatMap_nil, List.append_nil]⟩
  | p :: rest, leaves, env, h, hfit => by
      rw [List.length_cons] at hfit
      have hpow : 2 ^ levels ≤ 2 ^ 32 := Nat.pow_le_pow_right (by decide) h32
      obtain ⟨env₁, hins, h₁⟩ := h.insertTwoLeaves_apply hz h1 h32 (by omega) p.1 p.2
      have hlen : (leaves ++ [p.1, p.2]).length = leaves.length + 2 := by simp
      obtain ⟨env₂, hrest, h₂⟩ := @Holds.insertAll_apply hz h1 h32 rest _ _ h₁ (by omega)
      refine ⟨env₂, ?_, ?_⟩
      · rw [insertAll, Host.bind_of_ok hins, Host.bind_of_ok hrest, Host.pure_apply,
          List.length_cons, List.range_succ_eq_map, List.map_cons, List.map_map, hlen,
          Nat.mod_eq_of_lt (by omega), Nat.mod_eq_of_lt (by omega)]
        refine congrArg (fun l => Except.ok (_ :: l, env₂)) (List.map_congr_left fun i _ => ?_)
        rw [Function.comp_apply, Nat.succ_eq_add_one]
        exact Prod.ext (by omega) (by omega)
      · rwa [leavesOf, List.flatMap_cons, ← List.append_assoc]

end Pool.MerkleTreeWithHistory

namespace AspMembership

def insertAll (P : Poseidon2) (auths : List Address) : List F → Call Unit
  | [] => pure ()
  | leaf :: rest => do
      insertLeaf P auths leaf.val
      insertAll P auths rest

/-- The events of the insertions of `rest` after `leaves`. -/
def insertEvents (P : Poseidon2) (levels : ℕ) : List F → List F → List Event
  | _, [] => []
  | leaves, leaf :: rest =>
      .leafAdded leaf.val leaves.length (rootOf P levels (leaves ++ [leaf])).val ::
        insertEvents P levels (leaves ++ [leaf]) rest

/-- **Run lemma** of the ASP membership tree. -/
theorem Holds.insertAll_apply (hz : ZeroTable P) (h32 : levels ≤ 32) {auths : List Address} :
    ∀ {rest leaves : List F} {env : Env Store}, Holds P levels leaves env → MayInsert auths env →
      leaves.length + rest.length ≤ 2 ^ levels →
      ∃ env', insertAll P auths rest env = .ok ((), env') ∧
        Holds P levels (leaves ++ rest) env' ∧ MayInsert auths env' ∧
        env'.store.events = env.store.events ++ insertEvents P levels leaves rest
  | [], leaves, env, h, hauth, _ =>
      ⟨env, rfl, by rwa [List.append_nil], hauth, by rw [insertEvents, List.append_nil]⟩
  | leaf :: rest, leaves, env, h, hauth, hfit => by
      rw [List.length_cons] at hfit
      obtain ⟨env₁, hins, h₁, hauth₁, hev₁⟩ := h.insertLeaf_apply hz h32 hauth (by omega) leaf
      have hlen : (leaves ++ [leaf]).length = leaves.length + 1 := by simp
      obtain ⟨env₂, hrest, h₂, hauth₂, hev₂⟩ :=
        @Holds.insertAll_apply hz h32 _ rest _ _ h₁ hauth₁ (by omega)
      refine ⟨env₂, ?_, by rwa [List.append_cons], hauth₂, ?_⟩
      · rw [insertAll, Host.bind_of_ok hins, hrest]
      · rw [hev₂, hev₁, List.append_assoc, insertEvents, List.singleton_append]

end AspMembership

namespace Prover.MerkleTree

/-- Leaves inserted in order; the indices returned. -/
def insertAll (usizeBits : ℕ) (P : Poseidon2) : List F → Wasm MerkleTree (List ℕ)
  | [] => pure []
  | leaf :: rest => do
      let idx ← insert usizeBits P (scalarToBytes leaf)
      return idx :: (← insertAll usizeBits P rest)

/-- **Run lemma** of the browser's tree. -/
theorem Holds.insertAll_apply (h32 : levels ≤ 32) {usizeBits : ℕ} (hbits : levels < usizeBits) :
    ∀ {rest leaves : List F} {tree : MerkleTree}, Holds P levels leaves tree →
      leaves.length + rest.length ≤ 2 ^ levels →
      ∃ tree', (insertAll usizeBits P rest).exec tree =
          (.ok ((List.range rest.length).map fun i => leaves.length + i), tree') ∧
        Holds P levels (leaves ++ rest) tree'
  | [], leaves, tree, h, _ => ⟨tree, rfl, by rwa [List.append_nil]⟩
  | leaf :: rest, leaves, tree, h, hfit => by
      rw [List.length_cons] at hfit
      obtain ⟨tree₁, hins, h₁⟩ := h.insert_apply h32 hbits (by omega) leaf
      have hlen : (leaves ++ [leaf]).length = leaves.length + 1 := by simp
      obtain ⟨tree₂, hrest, h₂⟩ :=
        @Holds.insertAll_apply h32 _ hbits rest _ _ h₁ (by omega)
      refine ⟨tree₂, ?_, by rwa [List.append_cons]⟩
      rw [insertAll, Wasm.exec_bind_of_ok hins, Wasm.exec_bind_of_ok hrest, Wasm.exec_pure,
        List.length_cons, List.range_succ_eq_map, List.map_cons, List.map_map, hlen]
      refine congrArg (fun l => (Except.ok (_ :: l), tree₂)) (List.map_congr_left fun i _ => ?_)
      rw [Function.comp_apply]
      omega

end Prover.MerkleTree

/-! ### Agreement -/

/-- **The three trees agree with full recomputation.** -/
theorem trees_agree (hz : ZeroTable P) (h1 : 1 ≤ levels) (h32 : levels ≤ 32) :
    -- the pool's tree, two leaves at a time
    (∀ pairs : List (F × F), 2 * pairs.length ≤ 2 ^ levels → ∃ env root,
      (do Pool.MerkleTreeWithHistory.init levels
          Pool.MerkleTreeWithHistory.insertAll P pairs)
        ⟨Pool.MerkleTreeWithHistory.blank, []⟩ =
          .ok ((List.range pairs.length).map fun i => (2 * i, 2 * i + 1), env) ∧
      merkleRoot P (padded (zeroAt 0) levels (Pool.MerkleTreeWithHistory.leavesOf pairs)) =
        .ok root ∧
      Pool.MerkleTreeWithHistory.getLastRoot env = .ok (root.val, env) ∧
      (2 * pairs.length = 2 ^ levels → ∀ leaf1 leaf2 : U256,
        Pool.MerkleTreeWithHistory.insertTwoLeaves P leaf1 leaf2 env =
            .error (.error .merkleTreeFull) ∧
          (Pool.MerkleTreeWithHistory.insertTwoLeaves P leaf1 leaf2).after env = env)) ∧
    -- the ASP membership tree
    (∀ (leaves : List F) (admin : Address) (auths : List Address), leaves.length ≤ 2 ^ levels →
      admin ∈ auths → ∃ env root,
      (do AspMembership.constructor admin levels
          AspMembership.insertAll P auths leaves) AspMembership.blank = .ok ((), env) ∧
      merkleRoot P (padded (zeroAt 0) levels leaves) = .ok root ∧
      AspMembership.getRoot env = .ok (root.val, env) ∧
      env.store.events = AspMembership.insertEvents P levels [] leaves ∧
      (leaves.length = 2 ^ levels → ∀ leaf : U256,
        AspMembership.insertLeaf P auths leaf env = .error (.error .merkleTreeFull) ∧
          (AspMembership.insertLeaf P auths leaf).after env = env)) ∧
    -- the browser's tree
    ∀ (leaves : List F) (usizeBits : ℕ), leaves.length ≤ 2 ^ levels → levels < usizeBits →
      ∃ empty tree root,
      Prover.MerkleTree.newWithZeroLeaf usizeBits P levels (Prover.scalarToBytes (zeroAt 0)) =
        .ok empty ∧
      (Prover.MerkleTree.insertAll usizeBits P leaves).exec empty =
        (.ok (List.range leaves.length), tree) ∧
      merkleRoot P (padded (zeroAt 0) levels leaves) = .ok root ∧
      Prover.MerkleTree.root tree = .ok (Prover.scalarToBytes root) ∧
      (leaves.length = 2 ^ levels → ∀ leaf : F,
        (Prover.MerkleTree.insert usizeBits P (Prover.scalarToBytes leaf)).exec tree =
          (.error (.error "Merkle tree is full"), tree)) := by
  refine ⟨fun pairs hfit => ?_, fun leaves admin auths hfit hauth => ?_,
    fun leaves usizeBits hfit hbits => ?_⟩
  · obtain ⟨env, hrun, h⟩ := (Pool.MerkleTreeWithHistory.holds_initialised hz h32 []).insertAll_apply
      hz h1 h32 (by simpa using hfit)
    rw [List.nil_append] at h
    have hlen := Pool.MerkleTreeWithHistory.length_leavesOf pairs
    refine ⟨env, _, ?_, merkleRoot_eq (by rwa [hlen]), h.getLastRoot_apply, fun hfull l₁ l₂ => ?_⟩
    · rw [Host.bind_of_ok (Pool.MerkleTreeWithHistory.init_apply h1 h32 []), hrun]
      simp
    · have hrej := h.insertTwoLeaves_full h32 (by rwa [hlen]) l₁ l₂
      exact ⟨hrej, Host.after_of_error hrej⟩
  · obtain ⟨env, hrun, h, hmay, hev⟩ := (AspMembership.holds_deployed hz admin h32).insertAll_apply
      hz h32 (AspMembership.mayInsert_deployed hauth) (by simpa using hfit)
    rw [List.nil_append] at h
    refine ⟨env, _, ?_, merkleRoot_eq hfit, ?_, hev, fun hfull leaf => ?_⟩
    · rw [Host.bind_of_ok (AspMembership.constructor_apply admin h1 h32), hrun]
    · rw [AspMembership.getRoot, Host.bind_of_ok (Host.getStore_apply env), h.root,
        Host.okOr_some]
    · have hrej := h.insertLeaf_full hmay hfull leaf
      exact ⟨hrej, Host.after_of_error hrej⟩
  · obtain ⟨empty, hnew, hempty⟩ := Prover.MerkleTree.buildTree_apply hz h1 h32 hbits
    obtain ⟨tree, hrun, h⟩ := hempty.insertAll_apply h32 hbits
      (by simpa using hfit)
    rw [List.nil_append] at h
    refine ⟨empty, tree, _, hnew, ?_, merkleRoot_eq hfit, h.root_apply, fun hfull leaf => ?_⟩
    · rw [hrun]
      simp
    · exact h.insert_full usizeBits hfull leaf

theorem trees_agree_small : ∃ tree root,
    (Prover.MerkleTree.newWithZeroLeaf 64 zeroPoseidon2 2 (Prover.scalarToBytes (zeroAt 0))).toOption.map
      (fun empty => (Prover.MerkleTree.insertAll 64 zeroPoseidon2 [5, 7, 11]).exec empty) =
        some (.ok [0, 1, 2], tree) ∧
    merkleRoot zeroPoseidon2 [5, 7, 11, zeroAt 0] = .ok root ∧
    Prover.MerkleTree.root tree = .ok (Prover.scalarToBytes root) := by
  obtain ⟨empty, tree, root, hnew, hrun, hroot, h, -⟩ :=
    (@trees_agree _ 2 zeroTable_zeroPoseidon2 (by decide) (by decide)).2.2 [5, 7, 11] 64
      (by decide) (by decide)
  refine ⟨tree, root, ?_, hroot, h⟩
  rw [hnew]
  exact congrArg some hrun

end Enclave

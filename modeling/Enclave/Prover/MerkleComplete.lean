import Enclave.Prover.Merkle

/-! # The browser's Merkle tree is complete

`Holds P levels leaves tree`: every level holds the nodes of the complete tree over the leaves.
An insertion replaces the nodes on the path of the new leaf; after `k` levels the lowest `k`
levels are those of the new tree and the rest those of the old one (`insertLoop_apply`). -/

namespace Enclave.Prover

open Merkle

namespace Wasm

variable {σ α β : Type}

theorem exec_bind_of_ok {m : Wasm σ α} {s s' : σ} {a : α} (h : m.exec s = (.ok a, s'))
    (f : α → Wasm σ β) : (m >>= f).exec s = (f a).exec s' := by
  have hm : m s = pure (.ok a, s') := h
  change StateT.bind m (ExceptT.bindCont f) s = _
  rw [StateT.bind, hm]
  rfl

theorem exec_bind_of_error {s s' : σ} {m : Wasm σ α} {e : Fault String} (h : m.exec s = (.error e, s'))
    (f : α → Wasm σ β) : (m >>= f).exec s = (.error e, s') := by
  have hm : m s = pure (.error e, s') := h
  change StateT.bind m (ExceptT.bindCont f) s = _
  rw [StateT.bind, hm]
  rfl

theorem exec_bind_eq_ok {s s' : σ} {m : Wasm σ α} {f : α → Wasm σ β} {b : β} :
    (m >>= f).exec s = (.ok b, s') ↔
      ∃ a s₁, m.exec s = (.ok a, s₁) ∧ (f a).exec s₁ = (.ok b, s') := by
  cases hm : m.exec s with
  | mk r s₁ =>
      cases r with
      | error e =>
          rw [exec_bind_of_error hm]
          constructor
          · rintro ⟨⟩
          · rintro ⟨a, s₂, h, -⟩
            cases h
      | ok a =>
          rw [exec_bind_of_ok hm]
          constructor
          · intro h
            exact ⟨a, s₁, rfl, h⟩
          · rintro ⟨a', s₂, h, h'⟩
            cases h
            exact h'

theorem exec_pure (a : α) (s : σ) : (pure a : Wasm σ α).exec s = (.ok a, s) := rfl

theorem exec_throw (e : Fault String) (s : σ) : (throw e : Wasm σ α).exec s = (.error e, s) := rfl

theorem exec_get (s : σ) : (get : Wasm σ σ).exec s = (.ok s, s) := rfl

theorem exec_modify (f : σ → σ) (s : σ) : (modify f : Wasm σ PUnit).exec s = (.ok ⟨⟩, f s) := rfl

end Wasm

namespace MerkleTree

variable {P : Poseidon2} {levels : ℕ} {g : ℕ → ℕ → F} {tree : MerkleTree}

/-- Levels of sizes `2 ^ levels`, …, 2, 1 with the nodes `g`. -/
def grid (levels : ℕ) (g : ℕ → ℕ → F) : List (List F) :=
  (List.range (levels + 1)).map fun l => (List.range (2 ^ (levels - l))).map (g l)

theorem set_map_range {α : Type} (h : ℕ → α) (n i : ℕ) (x : α) :
    ((List.range n).map h).set i x = (List.range n).map (Function.update h i x) := by
  refine List.ext_getElem (by simp) fun j hj hj' => ?_
  rw [List.getElem_set, List.getElem_map, List.getElem_map, List.getElem_range]
  rcases eq_or_ne i j with rfl | hne
  · simp
  · simp [hne, hne.symm]

theorem grid_getElem? {l : ℕ} (h : l ≤ levels) :
    (grid levels g)[l]? = some ((List.range (2 ^ (levels - l))).map (g l)) := by
  simp [grid, Nat.lt_succ_of_le h]

theorem getNode_apply (htree : tree.levelsData = grid levels g) {l i : ℕ} (hl : l ≤ levels)
    (hi : i < 2 ^ (levels - l)) : (getNode l i).exec tree = (.ok (g l i), tree) := by
  rw [getNode, Wasm.exec_bind_of_ok (Wasm.exec_get tree), htree, grid_getElem? hl]
  simp only [Option.bind_some, List.getElem?_map, List.getElem?_range hi, Option.map_some]
  rfl

theorem setNode_apply (htree : tree.levelsData = grid levels g) {l i : ℕ} (hl : l ≤ levels)
    (hi : i < 2 ^ (levels - l)) (x : F) :
    (setNode l i x).exec tree = (.ok ⟨⟩, { tree with
      levelsData := grid levels (Function.update g l (Function.update (g l) i x)) }) := by
  have hgrid : (grid levels g).set l (((List.range (2 ^ (levels - l))).map (g l)).set i x) =
      grid levels (Function.update g l (Function.update (g l) i x)) := by
    rw [set_map_range, grid, set_map_range, grid]
    refine List.map_congr_left fun m _ => ?_
    rcases eq_or_ne m l with rfl | hne
    · simp
    · simp [hne]
  rw [setNode, Wasm.exec_bind_of_ok (Wasm.exec_get tree), htree, grid_getElem? hl]
  simp only [List.length_map, List.length_range, hi, if_true]
  rw [Wasm.exec_modify, htree, hgrid]

/-- The lowest levels, up to `k`, are those of the tree over `f'`, the rest those over `f`. -/
def mixed (P : Poseidon2) (f f' : ℕ → F) (k l j : ℕ) : F :=
  if l ≤ k then node P.compress f' l j else node P.compress f l j

theorem update_mixed {f f' : ℕ → F} {n k : ℕ} (hf : ∀ i, i ≠ n → f' i = f i) :
    Function.update (mixed P f f' k) (k + 1) (Function.update (mixed P f f' k (k + 1))
      (n / 2 ^ (k + 1)) (node P.compress f' (k + 1) (n / 2 ^ (k + 1)))) = mixed P f f' (k + 1) := by
  funext l j
  rcases eq_or_ne l (k + 1) with rfl | hne
  · rw [Function.update_self, mixed, if_pos le_rfl]
    rcases eq_or_ne j (n / 2 ^ (k + 1)) with rfl | hj
    · rw [Function.update_self]
    · rw [Function.update_of_ne hj, mixed, if_neg (by omega)]
      refine (node_congr fun i hi => hf i ?_).symm
      rintro rfl
      exact hj hi.symm
  · have hle : l ≤ k ↔ l ≤ k + 1 := by omega
    rw [Function.update_of_ne hne, mixed, mixed]
    simp only [hle]

theorem update_leaf {f f' : ℕ → F} {n : ℕ} (hf : ∀ i, i ≠ n → f' i = f i) :
    Function.update (node P.compress f) 0 (Function.update (node P.compress f 0) n (f' n)) =
      mixed P f f' 0 := by
  funext l j
  rcases eq_or_ne l 0 with rfl | hne
  · rw [Function.update_self, mixed, if_pos le_rfl]
    rcases eq_or_ne j n with rfl | hj
    · rw [Function.update_self, node]
    · rw [Function.update_of_ne hj, node, node, hf j hj]
  · rw [Function.update_of_ne hne, mixed, if_neg (by omega)]

theorem parent_eq (f : ℕ → F) (l i : ℕ) :
    (let p := if i % 2 = 0 then (node P.compress f l i, node P.compress f l (i ^^^ 1))
      else (node P.compress f l (i ^^^ 1), node P.compress f l i)
    P.compress p.1 p.2) = node P.compress f (l + 1) (i / 2) := by
  rw [node]
  rcases Nat.mod_two_eq_zero_or_one i with h | h
  · rw [Nat.xor_one_of_even (Nat.even_iff.mpr h), show 2 * (i / 2) = i by omega]
    simp [h]
  · rw [Nat.xor_one_of_odd (Nat.odd_iff.mpr h), show 2 * (i / 2) = i - 1 by omega,
      show i - 1 + 1 = i by omega]
    simp [h]

theorem xor_one_lt {i k : ℕ} (h : i < 2 ^ (k + 1)) : i ^^^ 1 < 2 ^ (k + 1) :=
  Nat.xor_lt_two_pow h (by rw [pow_succ]; have := Nat.one_le_two_pow (n := k); omega)

/-- **The loop of an insertion.** -/
theorem insertLoop_apply {f f' : ℕ → F} {n : ℕ} (hn : n < 2 ^ levels)
    (hf : ∀ i, i ≠ n → f' i = f i) : ∀ {k l : ℕ} {tree : MerkleTree}, l + k = levels →
      tree.levelsData = grid levels (mixed P f f' l) →
      (insertLoop P k l (n / 2 ^ l) (node P.compress f' l (n / 2 ^ l))).exec tree =
        (.ok ⟨⟩, { tree with levelsData := grid levels (node P.compress f') })
  | 0, l, tree, hl, htree => by
      have hall : grid levels (mixed P f f' l) = grid levels (node P.compress f') := by
        refine List.map_congr_left fun m hm => List.map_congr_left fun j _ => ?_
        rw [List.mem_range] at hm
        exact if_pos (by omega)
      rw [insertLoop, Wasm.exec_pure, ← hall, ← htree]
  | k + 1, l, tree, hl, htree => by
      have hpos : n / 2 ^ l < 2 ^ (k + 1) := by
        refine Nat.div_lt_of_lt_mul ?_
        rwa [← pow_add, show l + (k + 1) = levels from hl]
      have hsib : n / 2 ^ l ^^^ 1 < 2 ^ (levels - l) := by
        rw [show levels - l = k + 1 by omega]
        exact xor_one_lt hpos
      have hup : n / 2 ^ l / 2 < 2 ^ (levels - (l + 1)) := by
        rw [show levels - (l + 1) = k by omega]
        rw [pow_succ] at hpos
        omega
      have hnode : mixed P f f' l l (n / 2 ^ l ^^^ 1) = node P.compress f' l (n / 2 ^ l ^^^ 1) :=
        if_pos le_rfl
      have hparent := parent_eq (P := P) f' l (n / 2 ^ l)
      rw [insertLoop, Wasm.exec_bind_of_ok (getNode_apply htree (by omega) hsib), hnode]
      simp only [] at hparent ⊢
      have hstep := setNode_apply htree (l := l + 1) (by omega) hup
        (node P.compress f' (l + 1) (n / 2 ^ l / 2))
      rw [← div_two_pow_succ, update_mixed hf] at hstep
      rw [hparent, ← div_two_pow_succ, Wasm.exec_bind_of_ok hstep,
        insertLoop_apply hn hf (by omega) rfl]

/-! ### The tree over its leaves -/

/-- The tree holds all nodes over the leaves, where `zero` stands behind them. -/
structure HoldsOver (P : Poseidon2) (levels : ℕ) (zero : F) (leaves : List F) (tree : MerkleTree) :
    Prop where
  depth : tree.depth = levels
  levelsData : tree.levelsData = grid levels (node P.compress fun i => leaves.getD i zero)
  nextIndex : tree.nextIndex = leaves.length
  length_le : leaves.length ≤ 2 ^ levels

variable {zero : F} {leaves : List F} {usizeBits : ℕ}

theorem replicate_eq_map_range {α : Type} {n : ℕ} {x : α} {h : ℕ → α} (hx : ∀ j, h j = x) :
    List.replicate n x = (List.range n).map h := by
  symm
  rw [List.eq_replicate_iff]
  simp [hx]

theorem buildLevels_eq {z : ℕ → F} (hz : ZeroChain P.compress z levels) : ∀ {k l : ℕ},
    l + k = levels → buildLevels P k (2 ^ k) (z l) = (List.range k).map fun i =>
      (List.range (2 ^ (levels - (l + 1 + i)))).map
        (node P.compress (fun _ => z 0) (l + 1 + i))
  | 0, _, _ => rfl
  | k + 1, l, hl => by
      have hzero : ∀ j, node P.compress (fun _ => z 0) (l + 1) j = z (l + 1) := fun j =>
        node_zero (hz.mono (by omega)) fun i _ => rfl
      rw [buildLevels, ← hz l (by omega), pow_succ, Nat.mul_div_cancel _ (by decide),
        buildLevels_eq hz (l := l + 1) (by omega), List.range_succ_eq_map, List.map_cons,
        List.map_map]
      refine congrArg₂ List.cons ?_ (List.map_congr_left fun i _ => ?_)
      · rw [Nat.add_zero, show levels - (l + 1) = k by omega]
        exact replicate_eq_map_range hzero
      · rw [Function.comp_apply, show l + 1 + 1 + i = l + 1 + i.succ by omega]

theorem buildTree_of_chain {z : ℕ → F} (hz : ZeroChain P.compress z levels) (h1 : 1 ≤ levels)
    (h32 : levels ≤ 32) (hbits : levels < usizeBits) :
    ∃ tree, buildTree usizeBits P levels (z 0) = .ok tree ∧
      HoldsOver P levels (z 0) [] tree := by
  refine ⟨⟨List.replicate (2 ^ levels) (z 0) :: buildLevels P levels (2 ^ levels) (z 0), levels,
    0⟩, ?_, rfl, ?_, rfl, Nat.zero_le _⟩
  · rw [buildTree, if_neg (by omega), if_neg (by omega)]
  · rw [buildLevels_eq hz (Nat.zero_add levels), grid, List.range_succ_eq_map, List.map_cons,
      List.map_map]
    refine congrArg₂ List.cons (replicate_eq_map_range fun _ => rfl)
      (List.map_congr_left fun i _ => ?_)
    rw [Function.comp_apply, show 0 + 1 + i = i.succ by omega]
    rfl

theorem buildTree_ok {tree : MerkleTree} (h : buildTree usizeBits P levels zero = .ok tree) :
    1 ≤ levels ∧ levels ≤ 32 ∧ levels < usizeBits := by
  unfold buildTree at h
  split_ifs at h
  omega

/-- **`insert`** appends the leaf. -/
theorem HoldsOver.insert_apply (h : HoldsOver P levels zero leaves tree) (h32 : levels ≤ 32)
    (hbits : levels < usizeBits) (hlt : leaves.length < 2 ^ levels) {leafBytes : List UInt8}
    {leaf : F} (hleaf : bytesToScalar leafBytes = .ok leaf) :
    ∃ tree', (insert usizeBits P leafBytes).exec tree = (.ok leaves.length, tree') ∧
      HoldsOver P levels zero (leaves ++ [leaf]) tree' := by
  have hf : ∀ i, i ≠ leaves.length → (leaves ++ [leaf]).getD i zero = leaves.getD i zero := by
    intro i hi
    rcases Nat.lt_or_gt_of_ne hi with hlt | hgt
    · exact List.getD_append _ _ _ _ hlt
    · rw [List.getD_eq_default _ _ (by simp; omega), List.getD_eq_default _ _ (by omega)]
  have hlast : (leaves ++ [leaf]).getD leaves.length zero = leaf := by
    rw [List.getD_append_right _ _ _ _ le_rfl]
    simp
  have hset := setNode_apply h.levelsData (Nat.zero_le levels) (i := leaves.length)
    (by rwa [Nat.sub_zero]) leaf
  nth_rewrite 2 [← hlast] at hset
  rw [update_leaf hf] at hset
  have hgrid : (⟨grid levels (mixed P (fun i => leaves.getD i zero)
      (fun i => (leaves ++ [leaf]).getD i zero) 0), tree.depth, tree.nextIndex⟩ :
      MerkleTree).levelsData = _ := rfl
  have hloop := insertLoop_apply (P := P) hlt hf (k := levels) (l := 0) (Nat.zero_add _) hgrid
  rw [pow_zero, Nat.div_one, node, hlast] at hloop
  have h32' : 2 ^ levels ≤ 2 ^ 32 := Nat.pow_le_pow_right (by decide) h32
  have husize : 2 ^ levels ≤ 2 ^ usizeBits := Nat.pow_le_pow_right (by decide) hbits.le
  refine ⟨{ tree with
      levelsData := grid levels (node P.compress fun i => (leaves ++ [leaf]).getD i zero)
      nextIndex := leaves.length + 1 }, ?_, h.depth, rfl, by simp, by simpa using hlt⟩
  rw [insert, hleaf]
  refine (Wasm.exec_bind_of_ok (Wasm.exec_pure leaf tree) _).trans ?_
  rw [Wasm.exec_bind_of_ok (Wasm.exec_get tree), h.nextIndex, h.depth, if_neg (by omega),
    if_neg (by omega), Wasm.exec_bind_of_ok hset, Wasm.exec_bind_of_ok hloop,
    Wasm.exec_bind_of_ok (Wasm.exec_modify _ _), if_pos (by omega), h.nextIndex, Wasm.exec_pure]
  simp only [h.depth]

theorem HoldsOver.insert_full (h : HoldsOver P levels zero leaves tree) (usizeBits : ℕ)
    (hfull : leaves.length = 2 ^ levels) {leafBytes : List UInt8} {leaf : F}
    (hleaf : bytesToScalar leafBytes = .ok leaf) :
    (insert usizeBits P leafBytes).exec tree = (.error (.error "Merkle tree is full"), tree) := by
  rw [insert, hleaf]
  refine (Wasm.exec_bind_of_ok (Wasm.exec_pure leaf tree) _).trans ?_
  rw [Wasm.exec_bind_of_ok (Wasm.exec_get tree), h.nextIndex, h.depth, if_pos (by omega)]
  rfl

theorem insert_of_error {e : Fault String} {leafBytes : List UInt8}
    (hleaf : bytesToScalar leafBytes = .error e) (usizeBits : ℕ) (P : Poseidon2)
    (tree : MerkleTree) : (insert usizeBits P leafBytes).exec tree = (.error e, tree) := by
  rw [insert, hleaf]
  exact Wasm.exec_bind_of_error (Wasm.exec_throw e tree) _

theorem HoldsOver.root_apply (h : HoldsOver P levels zero leaves tree) :
    root tree = .ok (scalarToBytes (node P.compress (fun i => leaves.getD i zero) levels 0)) := by
  rw [root, h.levelsData, h.depth, grid_getElem? le_rfl]
  simp

/-! ### The contracts' zero leaf -/

/-- The tree holds all nodes over the leaves. -/
structure Holds (P : Poseidon2) (levels : ℕ) (leaves : List F) (tree : MerkleTree) : Prop where
  depth : tree.depth = levels
  levelsData : tree.levelsData = grid levels (node P.compress (leafAt leaves))
  nextIndex : tree.nextIndex = leaves.length
  length_le : leaves.length ≤ 2 ^ levels

theorem holds_iff : Holds P levels leaves tree ↔ HoldsOver P levels (zeroAt 0) leaves tree :=
  ⟨fun ⟨h₁, h₂, h₃, h₄⟩ => ⟨h₁, h₂, h₃, h₄⟩, fun ⟨h₁, h₂, h₃, h₄⟩ => ⟨h₁, h₂, h₃, h₄⟩⟩

theorem buildTree_apply (hz : ZeroTable P) (h1 : 1 ≤ levels) (h32 : levels ≤ 32)
    (hbits : levels < usizeBits) :
    ∃ tree, newWithZeroLeaf usizeBits P levels (scalarToBytes (zeroAt 0)) = .ok tree ∧
      Holds P levels [] tree := by
  obtain ⟨tree, hok, h⟩ := buildTree_of_chain (hz.mono h32) h1 h32 hbits
  refine ⟨tree, ?_, holds_iff.mpr h⟩
  rw [newWithZeroLeaf, bytesToScalar_scalarToBytes]
  exact hok

/-- **`insert`** appends the leaf. -/
theorem Holds.insert_apply (h : Holds P levels leaves tree) (h32 : levels ≤ 32)
    (hbits : levels < usizeBits) (hlt : leaves.length < 2 ^ levels) (leaf : F) :
    ∃ tree', (insert usizeBits P (scalarToBytes leaf)).exec tree = (.ok leaves.length, tree') ∧
      Holds P levels (leaves ++ [leaf]) tree' := by
  obtain ⟨tree', hins, h'⟩ := (holds_iff.mp h).insert_apply h32 hbits hlt
    (bytesToScalar_scalarToBytes leaf)
  exact ⟨tree', hins, holds_iff.mpr h'⟩

theorem Holds.insert_full (h : Holds P levels leaves tree) (usizeBits : ℕ)
    (hfull : leaves.length = 2 ^ levels) (leaf : F) :
    (insert usizeBits P (scalarToBytes leaf)).exec tree =
      (.error (.error "Merkle tree is full"), tree) :=
  (holds_iff.mp h).insert_full usizeBits hfull (bytesToScalar_scalarToBytes leaf)

theorem Holds.root_apply (h : Holds P levels leaves tree) :
    root tree = .ok (scalarToBytes (rootOf P levels leaves)) := (holds_iff.mp h).root_apply

end MerkleTree

end Enclave.Prover

import Enclave.App.PoolStore
import Enclave.Prover.Frames

/-! # The app's copy mirrors the pool

`Stored emissions store`: the records are those of the commitments that the pool has emitted so
far.  A new commitment is appended, one that is stored already is stored again without effect,
and one that stands at another index is refused. -/

namespace Enclave.App

open Prover Pool

/-! ### Steps of a task -/

section Exec

variable {s : PoolStore}

theorem exec_dbPut {ρ κ : Type} [LinearOrder κ] {schema : StoreSchema ρ κ String}
    {store : PoolStore → ObjectStore schema} {setStore : ObjectStore schema → PoolStore → PoolStore}
    {value : ρ} {records : ObjectStore schema} (h : (store s).put value = some records) :
    (dbPut store setStore value).exec s = (.ok (), setStore records s) := by
  rw [dbPut, Wasm.exec_bind_of_ok (Wasm.exec_get s), h]
  rfl

theorem exec_dbPut_refused {ρ κ : Type} [LinearOrder κ] {schema : StoreSchema ρ κ String}
    {store : PoolStore → ObjectStore schema} {setStore : ObjectStore schema → PoolStore → PoolStore}
    {value : ρ} (h : (store s).put value = none) :
    (dbPut store setStore value).exec s = (.error (.error "ConstraintError"), s) := by
  rw [dbPut, Wasm.exec_bind_of_ok (Wasm.exec_get s), h]
  rfl

end Exec

/-! ### What is stored -/

/-- A commitment that the pool emitted, with its encrypted output. -/
structure Emission where
  commitment : F
  output : List UInt8
  ledger : ℕ

namespace Emission

/-- The text under which a commitment is kept. -/
def text (e : Emission) : String := hex64 e.commitment.val

/-- Its record in `pool_leaves`. -/
def leaf (index : ℕ) (e : Emission) : PoolLeaf := ⟨index, e.text, e.ledger⟩

/-- Its record in `pool_encrypted_outputs`. -/
def encrypted (index : ℕ) (e : Emission) : PoolEncryptedOutput :=
  ⟨e.text, index, bytesToHex e.output, e.ledger⟩

theorem text_eq_text {e e' : Emission} : e.text = e'.text ↔ e.commitment = e'.commitment := by
  have hlt : ∀ c : F, c.val < 2 ^ 256 := fun c =>
    (F.val_lt c).trans (bn256Modulus_lt.trans (by decide))
  constructor
  · intro h
    exact F.val_injective (hex64_injective (hlt _) (hlt _) h)
  · intro h
    rw [text, h, text]

end Emission

def commitments (ems : List Emission) : List F := ems.map Emission.commitment

/-- The records are those of the emissions. -/
structure Stored (ems : List Emission) (s : PoolStore) : Prop where
  leaves : s.poolLeaves.records = ems.mapIdx Emission.leaf
  outputs : ∀ x, x ∈ s.poolEncryptedOutputs.records ↔
    ∃ (i : ℕ) (e : Emission), ems[i]? = some e ∧ x = e.encrypted i

variable {P : Poseidon2} {ems : List Emission} {e : Emission} {s s' : PoolStore} {i : ℕ}

theorem Stored.of_eq (h : Stored ems s) (hleaves : s'.poolLeaves = s.poolLeaves)
    (houtputs : s'.poolEncryptedOutputs = s.poolEncryptedOutputs) : Stored ems s' :=
  ⟨hleaves ▸ h.leaves, houtputs ▸ h.outputs⟩

theorem Stored.mem_leaves (h : Stored ems s) {x : PoolLeaf} :
    x ∈ s.poolLeaves.records ↔
      ∃ (i : ℕ) (e : Emission), ems[i]? = some e ∧ x = e.leaf i := by
  rw [h.leaves, List.mem_mapIdx]
  constructor
  · rintro ⟨i, hi, rfl⟩
    exact ⟨i, ems[i], List.getElem?_eq_getElem hi, rfl⟩
  · rintro ⟨i, e, he, rfl⟩
    obtain ⟨hi, rfl⟩ := List.getElem?_eq_some_iff.mp he
    exact ⟨i, hi, rfl⟩

theorem Stored.nodup (h : Stored ems s) : (commitments ems).Nodup := by
  have hunique := s.poolLeaves.unique PoolLeaf.commitment List.mem_cons_self
  have htexts : (ems.mapIdx Emission.leaf).map PoolLeaf.commitment = ems.map Emission.text :=
    List.ext_getElem (by simp) fun i hi hi' => by
      rw [List.getElem_map, List.getElem_mapIdx, List.getElem_map]
      rfl
  rw [h.leaves, htexts] at hunique
  refine List.Nodup.of_map (fun c : F => hex64 c.val) ?_
  rwa [commitments, List.map_map]

theorem Stored.conflicts (h : Stored ems s) (hc : e.commitment ∈ commitments ems) :
    s.poolLeaves.Conflicts (e.leaf ems.length) := by
  obtain ⟨e', he', heq⟩ := List.mem_map.mp hc
  obtain ⟨i, hi, rfl⟩ := List.mem_iff_getElem.mp he'
  refine ⟨PoolLeaf.commitment, List.mem_cons_self, ems[i].leaf i,
    h.mem_leaves.mpr ⟨i, _, List.getElem?_eq_getElem hi, rfl⟩, hi.ne, ?_⟩
  exact Emission.text_eq_text.mpr heq

theorem Stored.exists_put_leaf (h : Stored ems s) (hc : e.commitment ∉ commitments ems) :
    ∃ t, s.poolLeaves.put (e.leaf ems.length) = some t ∧
      t.records = (ems ++ [e]).mapIdx Emission.leaf := by
  have hmem : ∀ x ∈ s.poolLeaves.records, x.index < ems.length ∧ x.commitment ≠ e.text := by
    intro x hx
    obtain ⟨i, e', he', rfl⟩ := h.mem_leaves.mp hx
    obtain ⟨hi, rfl⟩ := List.getElem?_eq_some_iff.mp he'
    refine ⟨hi, fun heq => hc ?_⟩
    rw [← Emission.text_eq_text.mp heq]
    exact List.mem_map_of_mem (List.getElem_mem hi)
  obtain ⟨t, hput, ht⟩ := s.poolLeaves.exists_put_of_lt (r := e.leaf ems.length)
    (fun x hx => (hmem x hx).1) fun index hindex x hx => by
      rw [List.mem_singleton.mp hindex]
      exact (hmem x hx).2
  refine ⟨t, hput, ?_⟩
  rw [ht, h.leaves, List.mapIdx_concat]

theorem Stored.outputs_put (h : Stored ems s) (hc : e.commitment ∉ commitments ems)
    {t : ObjectStore poolEncryptedOutputsSchema}
    (ht : ∀ x, x ∈ t.records ↔ x = e.encrypted ems.length ∨
      x ∈ s.poolEncryptedOutputs.records ∧ x.commitment ≠ e.text) (x : PoolEncryptedOutput) :
    x ∈ t.records ↔
      ∃ (i : ℕ) (e' : Emission), (ems ++ [e])[i]? = some e' ∧ x = e'.encrypted i := by
  rw [ht, h.outputs]
  constructor
  · rintro (rfl | ⟨⟨i, e', he', rfl⟩, -⟩)
    · exact ⟨ems.length, e, List.getElem?_concat_length, rfl⟩
    · obtain ⟨hi, -⟩ := List.getElem?_eq_some_iff.mp he'
      exact ⟨i, e', by rw [List.getElem?_append_left hi, he'], rfl⟩
  · rintro ⟨i, e', he', rfl⟩
    rcases Nat.lt_or_ge i ems.length with hi | hi
    · rw [List.getElem?_append_left hi] at he'
      refine .inr ⟨⟨i, e', he', rfl⟩, fun heq => hc ?_⟩
      rw [← Emission.text_eq_text.mp heq]
      exact List.mem_map_of_mem (List.mem_of_getElem? he')
    · rw [List.getElem?_append_right hi, List.getElem?_singleton] at he'
      split_ifs at he' with h0
      cases he'
      exact .inl (by rw [show i = ems.length by omega])

/-! ### Commitments -/

/-- The event of an emission, decoded. -/
def Emission.process (P : Poseidon2) (index : ℕ) (e : Emission) : Task Unit :=
  processNewCommitment P (.bigint e.commitment.val) (.number index) (.bytes e.output) e.ledger

theorem exec_process {t : ObjectStore poolLeavesSchema}
    {t' : ObjectStore poolEncryptedOutputsSchema} (ht : s.poolLeaves.put (e.leaf i) = some t)
    (ht' : s.poolEncryptedOutputs.put (e.encrypted i) = some t') :
    (e.process P i).exec s = (insertIntoTree P e.text).exec
      { s with poolLeaves := t, poolEncryptedOutputs := t' } := by
  rw [Emission.process, processNewCommitment, normalizeU256ToHex_bigint]
  refine (Wasm.exec_bind_of_ok (Wasm.exec_pure _ s) _).trans ?_
  refine (Wasm.exec_bind_of_ok (exec_dbPut ht) _).trans ?_
  refine (Wasm.exec_bind_of_ok (Wasm.exec_pure (bytesToHex e.output) _) _).trans ?_
  exact Wasm.exec_bind_of_ok (exec_dbPut (s := { s with poolLeaves := t }) ht') _

/-- **A new commitment** is appended. -/
theorem Stored.exec_new (h : Stored ems s) (hc : e.commitment ∉ commitments ems) :
    ∃ s₁, (e.process P ems.length).exec s = (insertIntoTree P e.text).exec s₁ ∧
      Stored (ems ++ [e]) s₁ ∧ s₁.merkleTree = s.merkleTree := by
  obtain ⟨t, hput, ht⟩ := h.exists_put_leaf hc
  obtain ⟨t', hput', ht'⟩ :=
    ObjectStore.exists_put rfl s.poolEncryptedOutputs (e.encrypted ems.length)
  exact ⟨_, exec_process hput hput', ⟨ht, h.outputs_put hc ht'⟩, rfl⟩

/-- **A commitment that is stored** is stored again without effect. -/
theorem Stored.exec_again (h : Stored ems s) (he : ems[i]? = some e) :
    (e.process P i).exec s = (insertIntoTree P e.text).exec s :=
  exec_process (ObjectStore.put_of_mem (h.mem_leaves.mpr ⟨i, e, he, rfl⟩))
    (ObjectStore.put_of_mem ((h.outputs _).mpr ⟨i, e, he, rfl⟩))

/-- **A commitment at another index** is refused. -/
theorem Stored.exec_twice (h : Stored ems s) (hc : e.commitment ∈ commitments ems) :
    (e.process P ems.length).exec s = (.error (.error "ConstraintError"), s) := by
  rw [Emission.process, processNewCommitment, normalizeU256ToHex_bigint]
  refine (Wasm.exec_bind_of_ok (Wasm.exec_pure _ s) _).trans ?_
  exact Wasm.exec_bind_of_error (exec_dbPut_refused (ObjectStore.put_of_conflicts (h.conflicts hc))) _

/-! ### The live tree -/

/-- The live tree, if there is one, has the leaves. -/
def Live (P : Poseidon2) (leaves : List F) (tree : Option MerkleTree) : Prop :=
  ∀ t ∈ tree, MerkleTree.Holds P treeDepth leaves t

variable {live : List F}

theorem hexToBytesForTree_text (e : Emission) :
    hexToBytesForTree e.text = .ok (scalarToBytes e.commitment) :=
  hexToBytesForTree_hex64 ((F.val_lt e.commitment).trans (bn256Modulus_lt.trans (by decide)))

theorem live_none : Live P live none := fun _ ht => by cases ht

theorem live_some {tree : MerkleTree} (h : MerkleTree.Holds P treeDepth live tree) :
    Live P live (some tree) := fun t ht => by
  cases ht
  exact h

theorem exec_insertIntoTree (hlive : Live P live s.merkleTree) (hroom : live.length < 2 ^ treeDepth)
    (e : Emission) : ∃ tree, (insertIntoTree P e.text).exec s =
        (.ok (), { s with merkleTree := tree }) ∧
      Live P (live ++ [e.commitment]) tree ∧ tree.isSome = s.merkleTree.isSome := by
  rw [insertIntoTree, Wasm.exec_bind_of_ok (Wasm.exec_get s)]
  cases htree : s.merkleTree with
  | none =>
      refine ⟨none, ?_, live_none, rfl⟩
      exact congrArg (fun tree => (Except.ok (), { s with merkleTree := tree })) htree
  | some tree =>
      obtain ⟨tree', hins, htree'⟩ := (hlive tree htree).insert_apply (by decide)
        (show treeDepth < 32 by decide) hroom e.commitment
      refine ⟨some tree', ?_, live_some htree', rfl⟩
      dsimp only
      rw [hexToBytesForTree_text]
      refine (Wasm.exec_bind_of_ok (Wasm.exec_pure _ s) _).trans ?_
      rw [hins]
      rfl

theorem exec_insertIntoTree_full {tree : MerkleTree} (htree : s.merkleTree = some tree)
    (h : MerkleTree.Holds P treeDepth live tree) (hfull : live.length = 2 ^ treeDepth)
    (e : Emission) :
    (insertIntoTree P e.text).exec s = (.error (.error "Merkle tree is full"), s) := by
  rw [insertIntoTree, Wasm.exec_bind_of_ok (Wasm.exec_get s), htree]
  dsimp only
  rw [hexToBytesForTree_text]
  refine (Wasm.exec_bind_of_ok (Wasm.exec_pure _ s) _).trans ?_
  rw [h.insert_full 32 hfull e.commitment, ← htree]
  rfl

/-- An insertion leaves the records alone, whatever comes of it. -/
theorem insertIntoTree_frame {text : String} {r : Result Unit}
    (h : (insertIntoTree P text).exec s = (r, s')) :
    s'.poolLeaves = s.poolLeaves ∧ s'.poolEncryptedOutputs = s.poolEncryptedOutputs := by
  rw [insertIntoTree, Wasm.exec_bind_of_ok (Wasm.exec_get s)] at h
  cases htree : s.merkleTree with
  | none =>
      rw [htree] at h
      cases h
      exact ⟨rfl, rfl⟩
  | some tree =>
      rw [htree] at h
      dsimp only at h
      cases hbytes : hexToBytesForTree text with
      | error message =>
          rw [hbytes] at h
          replace h := (Wasm.exec_bind_of_error (Wasm.exec_throw _ s) _).symm.trans h
          cases h
          exact ⟨rfl, rfl⟩
      | ok bytes =>
          rw [hbytes] at h
          replace h := (Wasm.exec_bind_of_ok (Wasm.exec_pure bytes s) _).symm.trans h
          replace h := (Wasm.exec_bind_of_ok (Wasm.exec_modify _ s) _).symm.trans h
          cases hr : ((MerkleTree.insert 32 P bytes).exec tree).1 with
          | error e =>
              rw [hr] at h
              cases h
              exact ⟨rfl, rfl⟩
          | ok n =>
              rw [hr] at h
              cases h
              exact ⟨rfl, rfl⟩

theorem exec_insertStored : ∀ {ems : List Emission} {n : ℕ} {live : List F} {s : PoolStore},
    Live P live s.merkleTree → live.length + ems.length ≤ 2 ^ treeDepth →
    ∃ tree, (insertStored P (ems.mapIdx fun i => Emission.leaf (n + i))).exec s =
        (.ok (), { s with merkleTree := tree }) ∧
      Live P (live ++ commitments ems) tree ∧ tree.isSome = s.merkleTree.isSome
  | [], _, live, s, hlive, _ => ⟨s.merkleTree, rfl, by rwa [commitments, List.map_nil,
      List.append_nil], rfl⟩
  | e :: rest, n, live, s, hlive, hfit => by
      rw [List.length_cons] at hfit
      obtain ⟨tree, hins, hlive₁, hsome⟩ := exec_insertIntoTree hlive (by omega) e
      obtain ⟨tree', hrest, hlive₂, hsome'⟩ := @exec_insertStored rest (n + 1) _
        { s with merkleTree := tree } hlive₁ (by simp; omega)
      refine ⟨tree', ?_, by rwa [commitments, List.map_cons, List.append_cons], hsome'.trans hsome⟩
      have hshift : rest.mapIdx (fun i => Emission.leaf (n + (i + 1))) =
          rest.mapIdx fun i => Emission.leaf (n + 1 + i) :=
        congrArg (fun f => rest.mapIdx f) (funext fun i => by rw [Nat.add_right_comm, Nat.add_assoc])
      rw [List.mapIdx_cons, insertStored, hshift]
      exact (Wasm.exec_bind_of_ok hins _).trans hrest

theorem exec_iterate_of_ok {σ : Type} {m : Wasm σ Unit} {s s' : σ} (h : m.exec s = (.ok (), s')) :
    (iterate m).exec s = (.ok (), s') :=
  Wasm.exec_tryCatch_of_ok h _

theorem hexToBytesForTree_zeroLeaf :
    hexToBytesForTree getZeroLeafHex = .ok (scalarToBytes (zeroAt 0)) := by
  rw [hexToBytesForTree, getZeroLeafHex, hexToBytes_bytesToHex]
  decide +kernel

/-- **A rebuilt tree** has the leaves that are stored. -/
theorem Stored.exec_rebuildTree (h : Stored ems s) (hz : ZeroTable P)
    (hfit : ems.length ≤ 2 ^ treeDepth) : ∃ tree, (rebuildTree P).exec s =
        (.ok ems.length, { s with merkleTree := some tree }) ∧
      MerkleTree.Holds P treeDepth (commitments ems) tree := by
  obtain ⟨empty, hnew, hempty⟩ := @MerkleTree.buildTree_apply _ treeDepth 32 hz (by decide)
    (by decide) (by decide)
  obtain ⟨tree, hins, hlive', hsome⟩ := exec_insertStored (n := 0)
    (s := { s with merkleTree := some empty }) (live_some hempty) (by simpa using hfit)
  obtain ⟨tree, rfl⟩ := Option.isSome_iff_exists.mp hsome
  refine ⟨tree, ?_, hlive' tree rfl⟩
  rw [rebuildTree, hexToBytesForTree_zeroLeaf]
  refine (Wasm.exec_bind_of_ok (Wasm.exec_pure _ s) _).trans ?_
  rw [hnew]
  refine (Wasm.exec_bind_of_ok (Wasm.exec_pure empty s) _).trans ?_
  refine (Wasm.exec_bind_of_ok (Wasm.exec_modify _ s) _).trans ?_
  refine (Wasm.exec_bind_of_ok (Wasm.exec_get _) _).trans ?_
  simp only [Nat.zero_add] at hins
  dsimp only
  rw [h.leaves, Wasm.exec_bind_of_ok (exec_iterate_of_ok hins), List.length_mapIdx]
  rfl

end Enclave.App

import Enclave.App.AspMembershipStore
import Enclave.App.PoolMirror

/-! # Records and tree of the membership store

`Mirrors P leaves s`: the records are contiguous, and they are the leaves of the live tree.  Then
`init` succeeds (`Mirrors.init_apply`).  An event whose index is not the next one, or that finds the
tree full, leaves its record without its leaf: that does no harm exactly if it repeats a leaf
(`Mirrors.consistent_put_iff`).  A batch keeps the agreement exactly if it is `Orderly`
(`consistent_processEvents_iff`). -/

namespace Enclave.App.AspMembershipStore

open Prover Prover.MerkleTree

/-! ### Agreement -/

/-- The index of a record, and the leaf that it stands for. -/
def entry (r : AspLeaf) : ℕ × Option F :=
  (r.index, (hexToBytesForTree r.leaf).toOption.bind fun bytes => (bytesToScalar bytes).toOption)

def entriesOf (leaves : List F) : List (ℕ × Option F) := leaves.mapIdx fun i x => (i, some x)

/-- The records are contiguous, and are the leaves of the tree. -/
structure Mirrors (P : Poseidon2) (leaves : List F) (s : AspMembershipStore) : Prop where
  records : s.leaves.records.map entry = entriesOf leaves
  tree : ∃ tree, s.merkleTree = some tree ∧ HoldsOver P treeDepth (zeroAt 0) leaves tree

/-- The records and the tree agree. -/
def Consistent (P : Poseidon2) (s : AspMembershipStore) : Prop := ∃ leaves, Mirrors P leaves s

variable {P : Poseidon2} {leaves leaves' : List F} {s s' : AspMembershipStore}

theorem mem_entriesOf {i : ℕ} {x : Option F} :
    (i, x) ∈ entriesOf leaves ↔ ∃ leaf, leaves[i]? = some leaf ∧ x = some leaf := by
  rw [entriesOf, List.mem_mapIdx]
  constructor
  · rintro ⟨j, hj, heq⟩
    cases heq
    exact ⟨leaves[i], List.getElem?_eq_getElem hj, rfl⟩
  · rintro ⟨leaf, hleaf, rfl⟩
    obtain ⟨hi, rfl⟩ := List.getElem?_eq_some_iff.mp hleaf
    exact ⟨i, hi, rfl⟩

theorem leaves_unique {zero : F} {levels : ℕ} {tree : MerkleTree}
    (h : HoldsOver P levels zero leaves tree) (h' : HoldsOver P levels zero leaves' tree) :
    leaves = leaves' := by
  have hlen : leaves.length = leaves'.length := h.nextIndex.symm.trans h'.nextIndex
  have hrow := congrArg (fun l => l[0]?) (h.levelsData.symm.trans h'.levelsData)
  rw [grid_getElem? (Nat.zero_le _), grid_getElem? (Nat.zero_le _)] at hrow
  refine List.ext_getElem hlen fun i hi hi' => ?_
  have hlt : i < 2 ^ levels := Nat.lt_of_lt_of_le hi h.length_le
  have hnode := congrArg (fun l => l[i]?) (Option.some.inj hrow)
  simpa [Merkle.node, hlt, hi, hi'] using hnode

theorem Mirrors.unique (h : Mirrors P leaves s) (h' : Mirrors P leaves' s')
    (htree : s'.merkleTree = s.merkleTree) : leaves = leaves' := by
  obtain ⟨tree, hsome, hholds⟩ := h.tree
  obtain ⟨tree', hsome', hholds'⟩ := h'.tree
  rw [htree, hsome] at hsome'
  cases hsome'
  exact leaves_unique hholds hholds'

theorem Mirrors.mem_records (h : Mirrors P leaves s) {r : AspLeaf} (hr : r ∈ s.leaves.records) :
    ∃ leaf, leaves[r.index]? = some leaf ∧ (entry r).2 = some leaf :=
  mem_entriesOf.mp (h.records ▸ List.mem_map_of_mem hr)

theorem Mirrors.index_lt (h : Mirrors P leaves s) {r : AspLeaf} (hr : r ∈ s.leaves.records) :
    r.index < leaves.length := by
  obtain ⟨leaf, hleaf, -⟩ := h.mem_records hr
  exact (List.getElem?_eq_some_iff.mp hleaf).1

theorem Mirrors.nextIdx_eq (h : Mirrors P leaves s) : s.nextIdx = leaves.length := by
  obtain ⟨tree, hsome, hholds⟩ := h.tree
  rw [nextIdx, hsome]
  exact hholds.nextIndex

theorem Mirrors.length_le (h : Mirrors P leaves s) : leaves.length ≤ 2 ^ treeDepth := by
  obtain ⟨tree, -, hholds⟩ := h.tree
  exact hholds.length_le

/-! ### Events of the contract -/

/-- `LeafAddedEvent`, with its ledger. -/
structure LeafAdded where
  leaf : ℕ
  leaf_lt : leaf < 2 ^ 256
  index : ℕ
  root : ℕ
  ledger : ℕ

namespace LeafAdded

/-- The event as the app decodes it. -/
def native (e : LeafAdded) : NativeEvent where
  topic := [.string "LeafAdded"]
  value := .object [("leaf", .bigint e.leaf), ("index", .bigint e.index), ("root", .bigint e.root)]
  ledger := e.ledger

def leafEvent (e : LeafAdded) : LeafEvent := ⟨.bigint e.leaf, some e.index, .bigint e.root, e.ledger⟩

def record (e : LeafAdded) : AspLeaf := ⟨e.index, hex64 e.leaf, hex64 e.root, e.ledger⟩

def scalar (e : LeafAdded) : F := (e.leaf : F)

end LeafAdded

variable {e : LeafAdded}

theorem bytesToScalar_leaf (e : LeafAdded) : bytesToScalar (leBytes 32 e.leaf) = .ok e.scalar := by
  have hlt : e.leaf < 256 ^ 32 := by
    rw [show (256 : ℕ) ^ 32 = 2 ^ 256 by norm_num]
    exact e.leaf_lt
  rw [bytesToScalar_of_length (length_leBytes 32 e.leaf), leValue_leBytes hlt]
  rfl

theorem entry_record (e : LeafAdded) : entry e.record = (e.index, some e.scalar) := by
  rw [entry, LeafAdded.record, hexToBytesForTree_hex64 e.leaf_lt]
  exact congrArg (fun r => (e.index, Except.toOption r)) (bytesToScalar_leaf e)

/-! ### One event -/

theorem leaves_plain : aspMembershipLeavesSchema.uniqueIndexes = [] := rfl

def putRecord (s : AspMembershipStore) (e : LeafAdded) : AspMembershipStore :=
  { s with leaves := s.leaves.putPlain leaves_plain e.record }

/-- **A record that does not reach the tree**: it has to repeat the leaf of its index. -/
theorem Mirrors.consistent_put_iff (h : Mirrors P leaves s) (e : LeafAdded) :
    Consistent P (putRecord s e) ↔ leaves[e.index]? = some e.scalar := by
  constructor
  · rintro ⟨leaves', h'⟩
    obtain rfl := h.unique h' rfl
    have hmem : e.record ∈ (putRecord s e).leaves.records :=
      (ObjectStore.mem_putPlain (h := rfl)).mpr (.inl rfl)
    obtain ⟨leaf, hleaf, heq⟩ := h'.mem_records hmem
    rw [entry_record] at heq
    cases heq
    exact hleaf
  · intro hleaf
    have hmem : (e.index, some e.scalar) ∈ s.leaves.records.map entry :=
      h.records ▸ mem_entriesOf.mpr ⟨_, hleaf, rfl⟩
    obtain ⟨r, hr, heq⟩ := List.mem_map.mp hmem
    refine ⟨leaves, ⟨?_, h.tree⟩⟩
    rw [← h.records]
    exact map_insertByKey s.leaves.sorted ⟨r, hr, congrArg Prod.fst heq,
      heq.trans (entry_record e).symm⟩

theorem Mirrors.records_put (h : Mirrors P leaves s) (hindex : e.index = leaves.length) :
    (putRecord s e).leaves.records.map entry = entriesOf (leaves ++ [e.scalar]) := by
  have hlt : ∀ r ∈ s.leaves.records, r.index < e.record.index := fun r hr =>
    lt_of_lt_of_eq (h.index_lt hr) hindex.symm
  have hput : (putRecord s e).leaves.records = s.leaves.records ++ [e.record] :=
    insertByKey_of_lt hlt
  rw [hput, List.map_append, h.records, List.map_singleton, entry_record, hindex, entriesOf,
    entriesOf, List.mapIdx_concat]

theorem exec_processLeafAdded (h : s.merkleTree = some tree) :
    (processLeafAdded P e.leafEvent).exec s =
      (insertInOrder P tree e.index (hex64 e.leaf)).exec (putRecord s e) := by
  rw [processLeafAdded, LeafAdded.leafEvent, normalizeU256ToHex_bigint, normalizeU256ToHex_bigint]
  refine (Wasm.exec_bind_of_ok (Wasm.exec_pure _ s) _).trans ?_
  refine (Wasm.exec_bind_of_ok (Wasm.exec_pure _ s) _).trans ?_
  refine (Wasm.exec_bind_of_ok (Wasm.exec_modify _ s) _).trans ?_
  have htree : (putRecord s e).merkleTree = some tree := h
  change Wasm.exec _ (putRecord s e) = _
  rw [Wasm.exec_bind_of_ok (Wasm.exec_get _), htree]

/-- **The next leaf** is added, if there is room. -/
theorem Mirrors.exec_next (h : Mirrors P leaves s) (hindex : e.index = leaves.length)
    (hroom : leaves.length < 2 ^ treeDepth) : ∃ s', (processLeafAdded P e.leafEvent).exec s =
      (.ok (), s') ∧ Mirrors P (leaves ++ [e.scalar]) s' := by
  obtain ⟨tree, hsome, hholds⟩ := h.tree
  obtain ⟨tree', hins, hholds'⟩ := hholds.insert_apply (by decide)
    (show treeDepth < 32 by decide) hroom (bytesToScalar_leaf e)
  refine ⟨{ putRecord s e with merkleTree := some tree' }, ?_, h.records_put hindex, tree', rfl,
    hholds'⟩
  rw [exec_processLeafAdded hsome, insertInOrder, if_neg (not_not.mpr (hholds.nextIndex ▸ hindex)),
    hexToBytesForTree_hex64 e.leaf_lt]
  refine (Wasm.exec_bind_of_ok (Wasm.exec_pure _ _) _).trans ?_
  dsimp only
  rw [hins, hholds'.root_apply]
  rfl

/-- **Any other event** leaves its record and throws. -/
theorem Mirrors.exec_stray (h : Mirrors P leaves s)
    (hstray : ¬ (e.index = leaves.length ∧ leaves.length < 2 ^ treeDepth)) :
    ∃ error, (processLeafAdded P e.leafEvent).exec s = (.error error, putRecord s e) := by
  obtain ⟨tree, hsome, hholds⟩ := h.tree
  rw [exec_processLeafAdded hsome, insertInOrder]
  by_cases hindex : e.index = leaves.length
  · have hfull : leaves.length = 2 ^ treeDepth :=
      Nat.le_antisymm h.length_le (not_lt.mp fun hlt => hstray ⟨hindex, hlt⟩)
    rw [if_neg (not_not.mpr (hholds.nextIndex ▸ hindex)), hexToBytesForTree_hex64 e.leaf_lt]
    refine ⟨.error "Merkle tree is full",
      (Wasm.exec_bind_of_ok (Wasm.exec_pure _ _) _).trans ?_⟩
    dsimp only
    rw [hholds.insert_full 32 hfull (bytesToScalar_leaf e), ← hsome]
    rfl
  · rw [if_pos (hholds.nextIndex ▸ hindex)]
    exact ⟨_, rfl⟩

/-! ### A batch -/

/-- The events of a batch in the order of their indices. -/
def sorted (batch : List LeafAdded) : List LeafAdded :=
  batch.mergeSort fun a b => a.index ≤ b.index

/-- The events that are not skipped: those from the next index on. -/
def newEvents (nextIdx : ℕ) (batch : List LeafAdded) : List LeafAdded :=
  (sorted batch).filter fun e => nextIdx ≤ e.index

/-- From `next` on every event has the next index, while there is room in the tree; the first one
that has not, if there is one, repeats index and leaf of the one before. -/
def Orderly (next : ℕ) : Option LeafAdded → List LeafAdded → Prop
  | _, [] => True
  | last, e :: rest =>
      if e.index = next ∧ next < 2 ^ treeDepth then Orderly (next + 1) (some e) rest
      else ∃ e' ∈ last, e.index = e'.index ∧ e.scalar = e'.scalar

variable {batch evs : List LeafAdded} {last : Option LeafAdded} {n : ℕ}

theorem leafEvents_native (batch : List LeafAdded) :
    leafEvents (batch.map LeafAdded.native) = (sorted batch).map LeafAdded.leafEvent := by
  have hfilter : (batch.map LeafAdded.native).filter (fun e => isLeafAdded (e.topicAt 0)) =
      batch.map LeafAdded.native := by
    apply List.filter_eq_self.mpr
    intro event hevent
    obtain ⟨e, -, rfl⟩ := List.mem_map.mp hevent
    rfl
  rw [leafEvents, hfilter, List.map_map, sorted]
  exact (List.map_mergeSort (f := LeafAdded.leafEvent) (s := LeafEvent.le) fun a _ b _ => rfl).symm

theorem pairwise_sorted (batch : List LeafAdded) :
    (sorted batch).Pairwise fun a b => a.index ≤ b.index := by
  have htrans : ∀ a b c : LeafAdded, decide (a.index ≤ b.index) = true →
      decide (b.index ≤ c.index) = true → decide (a.index ≤ c.index) = true := fun a b c hab hbc =>
    decide_eq_true ((of_decide_eq_true hab).trans (of_decide_eq_true hbc))
  have htotal : ∀ a b : LeafAdded,
      (decide (a.index ≤ b.index) || decide (b.index ≤ a.index)) = true := fun a b => by
    simpa using Nat.le_total a.index b.index
  exact (List.pairwise_mergeSort htrans htotal batch).imp of_decide_eq_true

/-- Events before the next index are skipped. -/
theorem processEach_filter (n : ℕ) (evs : List LeafAdded) :
    processEach P n (evs.map LeafAdded.leafEvent) =
      processEach P n ((evs.filter fun e => n ≤ e.index).map LeafAdded.leafEvent) := by
  induction evs with
  | nil => rfl
  | cons e rest ih =>
      rw [List.map_cons, processEach]
      by_cases hskip : e.index < n
      · have hany : e.leafEvent.index.any (· < n) = true := decide_eq_true hskip
        rw [if_pos hany, List.filter_cons_of_neg (by simpa using hskip), ih]
      · have hany : ¬ e.leafEvent.index.any (· < n) = true := by
          simpa [LeafAdded.leafEvent] using hskip
        rw [if_neg hany, List.filter_cons_of_pos (by simpa using hskip), List.map_cons, processEach,
          if_neg hany, ih]

/-- The last event of a run is that of the last leaf, and the events to come do not go behind it. -/
structure Follows (leaves : List F) (last : Option LeafAdded) (evs : List LeafAdded) : Prop where
  lastLeaf : ∀ e' ∈ last, leaves.getLast? = some e'.scalar ∧ e'.index + 1 = leaves.length
  next : ∀ e ∈ evs, leaves.length ≤ e.index ∨ ∃ e' ∈ last, e.index = e'.index

/-- The one leaf that an event can repeat is the last. -/
theorem Follows.repeats_iff (h : Follows leaves last (e :: evs)) :
    leaves[e.index]? = some e.scalar ↔ ∃ e' ∈ last, e.index = e'.index ∧ e.scalar = e'.scalar := by
  have hgetLast : ∀ e' ∈ last, leaves[e'.index]? = some e'.scalar := by
    intro e' he'
    obtain ⟨hleaf, hindex⟩ := h.lastLeaf e' he'
    rwa [List.getLast?_eq_getElem?, ← hindex, Nat.add_sub_cancel] at hleaf
  constructor
  · intro hleaf
    obtain hge | ⟨e', he', hindex⟩ := h.next e List.mem_cons_self
    · rw [List.getElem?_eq_none hge] at hleaf
      cases hleaf
    · refine ⟨e', he', hindex, ?_⟩
      rw [hindex, hgetLast e' he'] at hleaf
      exact (Option.some.inj hleaf).symm
  · rintro ⟨e', he', hindex, hscalar⟩
    rw [hindex, hscalar, hgetLast e' he']

theorem Follows.push (h : (e :: evs).Pairwise fun a b => a.index ≤ b.index)
    (hindex : e.index = leaves.length) : Follows (leaves ++ [e.scalar]) (some e) evs where
  lastLeaf e' he' := by
    cases he'
    rw [List.getLast?_concat, hindex, List.length_append, List.length_singleton]
    exact ⟨rfl, rfl⟩
  next e' he' := by
    have hle := (List.pairwise_cons.mp h).1 e' he'
    rw [List.length_append, List.length_singleton]
    obtain hlt | heq := Nat.lt_or_eq_of_le hle
    · exact .inl (by omega)
    · exact .inr ⟨e, rfl, heq.symm⟩

theorem exec_count (m : Task ℕ) (s : AspMembershipStore) :
    ((do
      let count ← m
      return count + 1 : Task ℕ).exec s).2 = (m.exec s).2 := by
  cases hexec : m.exec s with
  | mk r s' =>
      cases r with
      | error e => rw [Wasm.exec_bind_of_error hexec]
      | ok count =>
          rw [Wasm.exec_bind_of_ok hexec]
          rfl

/-- **Run lemma**, over the events of a batch that are not skipped. -/
theorem Mirrors.consistent_processEach_iff : ∀ {evs : List LeafAdded}
    {leaves : List F} {last : Option LeafAdded} {s : AspMembershipStore}, Mirrors P leaves s →
    (∀ e ∈ evs, n ≤ e.index) → evs.Pairwise (fun a b => a.index ≤ b.index) →
    Follows leaves last evs →
    (Consistent P ((processEach P n (evs.map LeafAdded.leafEvent)).exec s).2 ↔
      Orderly leaves.length last evs)
  | [], leaves, last, s, h, _, _, _ => iff_of_true ⟨leaves, h⟩ trivial
  | e :: evs, leaves, last, s, h, hskip, hsorted, hfollows => by
      have hany : ¬ e.leafEvent.index.any (· < n) = true := by
        simpa [LeafAdded.leafEvent] using hskip e List.mem_cons_self
      rw [List.map_cons, processEach, if_neg hany, Orderly]
      by_cases hnext : e.index = leaves.length ∧ leaves.length < 2 ^ treeDepth
      · obtain ⟨s', hexec, h'⟩ := h.exec_next hnext.1 hnext.2
        have hrest := consistent_processEach_iff h'
          (fun e' he' => hskip e' (List.mem_cons_of_mem _ he'))
          (List.pairwise_cons.mp hsorted).2 (Follows.push hsorted hnext.1)
        rw [List.length_append, List.length_singleton] at hrest
        rw [if_pos hnext, ← hrest, Wasm.exec_bind_of_ok hexec, exec_count]
      · obtain ⟨error, hexec⟩ := h.exec_stray hnext
        rw [if_neg hnext, Wasm.exec_bind_of_error hexec, h.consistent_put_iff,
          hfollows.repeats_iff]

/-! ### Initialization -/

theorem read_of_entry {r : AspLeaf} {x : F} (h : entry r = (n, some x)) :
    r.index = n ∧ ∃ bytes, hexToBytesForTree r.leaf = .ok bytes ∧ bytesToScalar bytes = .ok x := by
  obtain ⟨hindex, hvalue⟩ := Prod.mk.inj h
  refine ⟨hindex, ?_⟩
  cases hbytes : hexToBytesForTree r.leaf with
  | error message =>
      rw [hbytes] at hvalue
      cases hvalue
  | ok bytes =>
      rw [hbytes] at hvalue
      refine ⟨bytes, rfl, ?_⟩
      replace hvalue : (bytesToScalar bytes).toOption = some x := hvalue
      cases hscalar : bytesToScalar bytes with
      | error e =>
          rw [hscalar] at hvalue
          cases hvalue
      | ok y =>
          rw [hscalar] at hvalue
          cases hvalue
          rfl

theorem exec_insertStored : ∀ {rs : List AspLeaf} {n : ℕ} {added leaves : List F}
    {tree : MerkleTree} {s : AspMembershipStore},
    rs.map entry = added.mapIdx (fun i x => (n + i, some x)) → s.merkleTree = some tree →
    HoldsOver P treeDepth (zeroAt 0) leaves tree → leaves.length + added.length ≤ 2 ^ treeDepth →
    ∃ tree', (insertStored P n rs).exec s = (.ok (), { s with merkleTree := some tree' }) ∧
      HoldsOver P treeDepth (zeroAt 0) (leaves ++ added) tree'
  | [], n, [], leaves, tree, s, _, htree, hholds, _ =>
      ⟨tree, by rw [← htree]; rfl, by rwa [List.append_nil]⟩
  | [], n, x :: added, _, _, _, hentries, _, _, _ => by
      rw [List.mapIdx_cons] at hentries
      cases hentries
  | r :: rs, n, [], _, _, _, hentries, _, _, _ => by cases hentries
  | r :: rs, n, x :: added, leaves, tree, s, hentries, htree, hholds, hroom => by
      rw [List.map_cons, List.mapIdx_cons, List.cons.injEq] at hentries
      obtain ⟨hentry, hentries⟩ := hentries
      obtain ⟨hindex, bytes, hbytes, hscalar⟩ := read_of_entry hentry
      rw [List.length_cons] at hroom
      obtain ⟨tree₁, hins, hholds₁⟩ := hholds.insert_apply (by decide)
        (show treeDepth < 32 by decide) (by omega) hscalar
      have hshift : rs.map entry = added.mapIdx fun i x => (n + 1 + i, some x) := by
        rw [hentries]
        exact congrArg (fun f => added.mapIdx f) (funext fun i => by
          rw [Nat.add_right_comm, Nat.add_assoc])
      obtain ⟨tree', hrest, hholds'⟩ := exec_insertStored (s := { s with merkleTree := some tree₁ })
        hshift rfl hholds₁ (by rw [List.length_append, List.length_singleton]; omega)
      refine ⟨tree', ?_, by rwa [List.append_assoc] at hholds'⟩
      rw [insertStored, if_neg (not_not.mpr (hindex.trans (Nat.add_zero n))), hbytes]
      refine (Wasm.exec_bind_of_ok (Wasm.exec_pure _ s) _).trans ?_
      rw [Wasm.exec_bind_of_ok (Wasm.exec_get s), htree]
      dsimp only
      rw [hins, hindex]
      exact hrest

/-- `init` returns. -/
def InitSucceeds (P : Poseidon2) (s : AspMembershipStore) : Prop :=
  ∃ count s', (init P).exec s = (.ok count, s')

/-- **A later `init` succeeds**, with the same leaves. -/
theorem Mirrors.init_apply (h : Mirrors P leaves s) :
    ∃ s', (init P).exec s = (.ok leaves.length, s') ∧ Mirrors P leaves s' := by
  obtain ⟨empty, hbuild, hempty⟩ := buildTree_of_chain
    (Merkle.zeroChain_iterate (c := P.compress) (zeroAt 0) treeDepth) (by decide) (by decide)
    (show treeDepth < 32 by decide)
  have hnew : newWithZeroLeaf 32 P treeDepth (scalarToBytes (zeroAt 0)) = .ok empty := by
    rw [newWithZeroLeaf, bytesToScalar_scalarToBytes]
    exact hbuild
  have hentries : s.leaves.records.map entry = leaves.mapIdx fun i x => (0 + i, some x) := by
    rw [h.records, entriesOf]
    exact congrArg (fun f => leaves.mapIdx f) (funext fun i => by rw [Nat.zero_add])
  obtain ⟨tree, hins, hholds⟩ := exec_insertStored (s := { s with merkleTree := some empty })
    hentries rfl hempty (by simpa using h.length_le)
  refine ⟨{ s with merkleTree := some tree }, ?_, h.records, tree, rfl, hholds⟩
  have hlen : s.leaves.records.length = leaves.length := by
    have hlen := congrArg List.length h.records
    rwa [List.length_map, entriesOf, List.length_mapIdx] at hlen
  rw [init, hexToBytesForTree_zeroLeaf]
  refine (Wasm.exec_bind_of_ok (Wasm.exec_pure _ s) _).trans ?_
  rw [hnew]
  refine (Wasm.exec_bind_of_ok (Wasm.exec_pure empty s) _).trans ?_
  refine (Wasm.exec_bind_of_ok (Wasm.exec_modify _ s) _).trans ?_
  refine (Wasm.exec_bind_of_ok (Wasm.exec_get _) _).trans ?_
  refine (Wasm.exec_bind_of_ok (exec_iterate_of_ok hins) _).trans ?_
  rw [hlen]
  rfl

/-! ### Batches that leave records and tree in agreement -/

/-- **A batch leaves records and tree in agreement**, whether it is accepted or not, exactly if it
is orderly. -/
theorem consistent_processEvents_iff (h : Mirrors P leaves s) (batch : List LeafAdded) :
    (Consistent P ((processEvents P (batch.map LeafAdded.native)).exec s).2 ∧
      InitSucceeds P ((processEvents P (batch.map LeafAdded.native)).exec s).2) ↔
    Orderly leaves.length none (newEvents leaves.length batch) := by
  have hexec : (processEvents P (batch.map LeafAdded.native)).exec s = (processEach P leaves.length
      ((newEvents leaves.length batch).map LeafAdded.leafEvent)).exec s := by
    rw [processEvents, Wasm.exec_bind_of_ok (Wasm.exec_get s), h.nextIdx_eq, leafEvents_native,
      processEach_filter]
    rfl
  have hskip : ∀ e ∈ newEvents leaves.length batch, leaves.length ≤ e.index := fun e he =>
    of_decide_eq_true (List.mem_filter.mp he).2
  have hfollows : Follows leaves none (newEvents leaves.length batch) :=
    ⟨(fun _ he' => by cases he'), fun e he => .inl (hskip e he)⟩
  rw [hexec, ← h.consistent_processEach_iff hskip ((pairwise_sorted batch).filter _) hfollows]
  refine ⟨And.left, fun hconsistent => ⟨hconsistent, ?_⟩⟩
  obtain ⟨leaves', h'⟩ := hconsistent
  obtain ⟨s', hinit, -⟩ := h'.init_apply
  exact ⟨_, s', hinit⟩

/-! ### Samples -/

/-- A leaf at an index, in ledger 1. -/
def sampleLeaf (leaf : Fin 100) (index : ℕ) : LeafAdded where
  leaf := leaf
  leaf_lt := leaf.isLt.trans (by decide)
  index := index
  root := 0
  ledger := 1

theorem exists_mirrors_nil (P : Poseidon2) : ∃ s, Mirrors P [] s := by
  obtain ⟨tree, -, hholds⟩ := buildTree_of_chain
    (Merkle.zeroChain_iterate (c := P.compress) (zeroAt 0) treeDepth) (by decide) (by decide)
    (show treeDepth < 32 by decide)
  exact ⟨⟨.empty, some tree⟩, rfl, tree, rfl, hholds⟩

theorem newEvents_of_pairwise (h : batch.Pairwise fun a b => a.index ≤ b.index) :
    newEvents n batch = batch.filter fun e => n ≤ e.index := by
  rw [newEvents, sorted, List.mergeSort_of_pairwise (h.imp decide_eq_true)]

/-- Two leaves, the second one twice: the batch is rejected, and no harm is done. -/
theorem consistent_processEvents_sample : ∃ s, Mirrors zeroPoseidon2 [] s ∧
    Consistent zeroPoseidon2 ((processEvents zeroPoseidon2
      ([sampleLeaf 7 0, sampleLeaf 8 1, sampleLeaf 8 1].map LeafAdded.native)).exec s).2 := by
  obtain ⟨s, h⟩ := exists_mirrors_nil zeroPoseidon2
  refine ⟨s, h, ((consistent_processEvents_iff h _).mpr ?_).1⟩
  rw [newEvents_of_pairwise (by simp [sampleLeaf])]
  change Orderly 0 none [sampleLeaf 7 0, sampleLeaf 8 1, sampleLeaf 8 1]
  rw [Orderly, if_pos ⟨rfl, by decide⟩, Orderly, if_pos ⟨rfl, by decide⟩, Orderly,
    if_neg (fun hnext => absurd hnext.1 (by decide))]
  exact ⟨_, rfl, rfl, rfl⟩

/-- A batch that starts with the second leaf: its record stays, and `init` rejects from then on. -/
theorem gap_stays : ∃ s s', Mirrors zeroPoseidon2 [] s ∧
    ((processEvents zeroPoseidon2 ([sampleLeaf 7 1].map LeafAdded.native)).exec s).2 = s' ∧
    ¬ Consistent zeroPoseidon2 s' ∧ ∃ s'', (init zeroPoseidon2).exec s' =
      (.error (.error "AbortError"), s'') := by
  obtain ⟨tree, hbuild, hholds⟩ := buildTree_of_chain
    (Merkle.zeroChain_iterate (c := zeroPoseidon2.compress) (zeroAt 0) treeDepth) (by decide)
    (by decide) (show treeDepth < 32 by decide)
  have h : Mirrors zeroPoseidon2 [] ⟨.empty, some tree⟩ := ⟨rfl, tree, rfl, hholds⟩
  have hstray : ¬ ((sampleLeaf 7 1).index = ([] : List F).length ∧
      ([] : List F).length < 2 ^ treeDepth) := fun hnext => absurd hnext.1 (by decide)
  obtain ⟨error, hexec⟩ := h.exec_stray hstray
  refine ⟨_, putRecord ⟨.empty, some tree⟩ (sampleLeaf 7 1), h, ?_, ?_, ?_⟩
  · rw [processEvents, Wasm.exec_bind_of_ok (Wasm.exec_get _), h.nextIdx_eq, leafEvents_native,
      sorted, List.mergeSort_singleton]
    exact congrArg Prod.snd (Wasm.exec_bind_of_error hexec _)
  · rw [h.consistent_put_iff]
    exact nofun
  · have hnew : newWithZeroLeaf 32 zeroPoseidon2 treeDepth (scalarToBytes (zeroAt 0)) = .ok tree := by
      rw [newWithZeroLeaf, bytesToScalar_scalarToBytes]
      exact hbuild
    rw [init, hexToBytesForTree_zeroLeaf]
    refine ⟨putRecord ⟨.empty, some tree⟩ (sampleLeaf 7 1),
      (Wasm.exec_bind_of_ok (Wasm.exec_pure _ _) _).trans ?_⟩
    rw [hnew]
    rfl

end Enclave.App.AspMembershipStore

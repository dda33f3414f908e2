import Enclave.AspNonMembership.Refinement
import Enclave.Prover.SparseMerkle

/-! # The browser's tree simulates the contract's

Both keep one canonical tree: the contract its current nodes, the browser every node it ever
stored.  `Mirrors` is the browser's half of the relation; `Simulates` puts the two halves
together.  `simulates` is the result over all sequences of insertions and value-changing updates,
accepted or not. -/

namespace Enclave.Prover

open Trie AspNonMembership SparseMerkleTree

variable {P : Poseidon2} {db : Db} {T : Set Tree} {t : Tree}

def nodeOf (P : Poseidon2) : Tree → Node
  | .empty => .empty
  | .leaf k v => .leaf k v
  | .node l r => .internal (treeHash P l) (treeHash P r)

/-! ### Bits and search -/

theorem getElem?_scalarToBits (k : F) {j : ℕ} (h : j < 256) :
    (scalarToBits k)[j]? = some (keyBit k j) := by
  simp [scalarToBits, keyBit, h]

theorem scalarToBits_eq (k : F) : scalarToBits k = splitBits k.val := by
  refine List.ext_getElem? fun j => ?_
  rcases Nat.lt_or_ge j 256 with h | h
  · rw [getElem?_scalarToBits k h, getElem?_splitBits h]
    rfl
  · rw [List.getElem?_eq_none (by simpa [scalarToBits] using h),
      List.getElem?_eq_none (by rw [splitBits, length_splitBitsFrom]; exact h)]

def searchOf (P : Poseidon2) (key : F) (w : List Tree × Tree) : FindResult :=
  match w.2 with
  | .leaf k v =>
      if k = key then
        { found := true, siblings := w.1.map (treeHash P), foundValue := v, notFoundKey := 0,
          notFoundValue := 0, isOld0 := false }
      else
        { found := false, siblings := w.1.map (treeHash P), foundValue := 0, notFoundKey := k,
          notFoundValue := v, isOld0 := false }
  | _ => { notFoundEmpty key with siblings := w.1.map (treeHash P) }

/-- A search result with its siblings from the leaf up. -/
def FindResult.reversed (r : FindResult) : FindResult := { r with siblings := r.siblings.reverse }

theorem searchOf_cons (key : F) (s : Tree) (w : List Tree × Tree) :
    (searchOf P key (s :: w.1, w.2)).reversed = { (searchOf P key w).reversed with
      siblings := (searchOf P key w).reversed.siblings ++ [treeHash P s] } := by
  obtain ⟨sibs, e⟩ := w
  cases e <;> simp only [searchOf, FindResult.reversed, List.map_cons, List.reverse_cons]
  split_ifs <;> simp

theorem findInternal_internal {key root l r : F} {b : Bool} {bits : List Bool} (h0 : root ≠ 0)
    (hn : db root = some (.internal l r)) :
    findInternal db key (b :: bits) root =
      (findInternal db key bits (if b then r else l)).map fun result =>
        { result with siblings := result.siblings ++ [if b then l else r] } := by
  rw [findInternal, if_neg h0, getNode, if_neg h0, hn]
  rfl

theorem findInternal_eq (hreal : Realises (treeHash P) (nodeOf P) db T) (key : F) :
    ∀ {t : Tree} {i : ℕ}, t.Canon keyBit i → i ≤ 254 → (∀ u ∈ t.subtries, u ∈ T) →
      (∀ u ∈ t.subtries, treeHash P u ≠ 0) →
      findInternal db key ((splitBits key.val).drop i) (treeHash P t) =
        .ok (searchOf P key (walk (keyBit key) i t)).reversed
  | .empty, i, _, hi, _, _ => by
      rw [drop_splitBits (by omega), findInternal]
      exact if_pos rfl
  | .leaf k v, i, _, hi, hT, h0 => by
      have hself : Trie.leaf k v ∈ (Trie.leaf k v : Tree).subtries := List.mem_singleton.mpr rfl
      rw [drop_splitBits (by omega), findInternal, if_neg (h0 _ hself), getNode,
        if_neg (h0 _ hself), hreal.get (hT _ hself)]
      simp only [nodeOf, walk, searchOf, List.map_nil]
      split_ifs <;> rfl
  | .node l r, i, hc, hi, hT, h0 => by
      have hself : Trie.node l r ∈ (Trie.node l r : Tree).subtries := List.mem_cons_self
      have hlt := hc.level_lt keyBit_bound trivial
      obtain ⟨-, -, -, cl, cr⟩ := hc
      have hl : ∀ u ∈ l.subtries, u ∈ (Trie.node l r : Tree).subtries := fun u hu =>
        List.mem_cons_of_mem _ (List.mem_append_left _ hu)
      have hr : ∀ u ∈ r.subtries, u ∈ (Trie.node l r : Tree).subtries := fun u hu =>
        List.mem_cons_of_mem _ (List.mem_append_right _ hu)
      rw [drop_splitBits (by omega), findInternal_internal (h0 _ hself) (hreal.get (hT _ hself))]
      cases hb : key.val.testBit i
      · have ih := findInternal_eq hreal key cl (by omega) (fun u hu => hT u (hl u hu))
          (fun u hu => h0 u (hl u hu))
        simp only [Bool.false_eq_true, if_false, ih, walk, keyBit, hb, searchOf_cons]
        rfl
      · have ih := findInternal_eq hreal key cr (by omega) (fun u hu => hT u (hr u hu))
          (fun u hu => h0 u (hr u hu))
        simp only [if_true, ih, walk, keyBit, hb, searchOf_cons]
        rfl

/-! ### Writes -/

theorem realises_putNode {Q : Set Tree} (inj : Set.InjOn (treeHash P) Q)
    (h0 : ∀ u ∈ Q, treeHash P u ≠ 0) (hreal : Realises (treeHash P) (nodeOf P) db T) (hT : T ⊆ Q)
    {u : Tree} (hu : u ∈ Q) :
    Realises (treeHash P) (nodeOf P) (putNode db (treeHash P u) (nodeOf P u)) (insert u T) := by
  rw [putNode, if_pos (h0 u hu)]
  exact hreal.set (inj.mono (Set.insert_subset hu hT))

theorem buildPath_cons {k : F} {i : ℕ} {a current : F} {sibs : List F} {s : F × Db} {db' : Db}
    (hi : i < 256) (hrest : buildPath P (scalarToBits k) (i + 1) sibs s = .ok (current, db')) :
    buildPath P (scalarToBits k) i (a :: sibs) s =
      let p := if keyBit k i then (a, current) else (current, a)
      .ok (P.compress p.1 p.2, putNode db' (P.compress p.1 p.2) (.internal p.1 p.2)) := by
  rw [buildPath, hrest]
  simp only [getElem?_scalarToBits k hi]
  cases keyBit k i <;> rfl

/-- Building a path stores the branches of the tree with the new end. -/
theorem buildPath_eq {Q : Set Tree} (inj : Set.InjOn (treeHash P) Q)
    (h0 : ∀ u ∈ Q, treeHash P u ≠ 0) (k : F) {new : Tree}
    (hreal : Realises (treeHash P) (nodeOf P) db T) (hT : T ⊆ Q) :
    ∀ (i : ℕ) (sibs : List Tree), i + sibs.length ≤ 256 →
      (∀ u ∈ spine (keyBit k) i sibs new, u ∈ Q) →
      ∃ db', buildPath P (scalarToBits k) i (sibs.map (treeHash P)) (treeHash P new, db) =
          .ok (treeHash P (plug (keyBit k) i sibs new), db') ∧
        Realises (treeHash P) (nodeOf P) db' (T ∪ {u | u ∈ spine (keyBit k) i sibs new})
  | i, [], _, _ => ⟨db, rfl, by simpa [spine] using hreal⟩
  | i, s :: sibs, hlen, hspine => by
      rw [List.length_cons] at hlen
      obtain ⟨db₁, hbuild, hreal₁⟩ := buildPath_eq inj h0 k hreal hT (i + 1) sibs (by omega)
        fun u hu => hspine u (List.mem_cons_of_mem _ hu)
      have hsub : T ∪ {u | u ∈ spine (keyBit k) (i + 1) sibs new} ⊆ Q :=
        Set.union_subset hT fun u hu => hspine u (List.mem_cons_of_mem _ hu)
      have htop := hspine _ List.mem_cons_self
      have hput := realises_putNode inj h0 hreal₁ hsub htop
      refine ⟨putNode db₁ (treeHash P (plug (keyBit k) i (s :: sibs) new))
        (nodeOf P (plug (keyBit k) i (s :: sibs) new)), ?_, ?_⟩
      · rw [List.map_cons, buildPath_cons (by omega) hbuild, plug_cons]
        cases keyBit k i <;> rfl
      · rwa [spine, show T ∪ {u | u ∈ plug (keyBit k) i (s :: sibs) new ::
          spine (keyBit k) (i + 1) sibs new} = insert (plug (keyBit k) i (s :: sibs) new)
            (T ∪ {u | u ∈ spine (keyBit k) (i + 1) sibs new}) by
              ext u; simp only [Set.mem_union, Set.mem_ofPred_eq, List.mem_cons, Set.mem_insert_iff]
              tauto]

theorem extendPath_eq (old new : List Bool) : ∀ (fuel level : ℕ) (sibs : List F),
    old.length = level + fuel → new.length = level + fuel →
    extendPath old new fuel level sibs =
      sibs ++ List.replicate (sharedBits (old.drop level) (new.drop level)) 0
  | 0, level, sibs, h, _ => by
      rw [extendPath, List.drop_of_length_le (by omega), sharedBits]
      · simp
      · intro _ _ _ _ h'; cases h'
  | fuel + 1, level, sibs, h, h' => by
      rw [extendPath, List.drop_eq_getElem_cons (by omega : level < old.length),
        List.drop_eq_getElem_cons (by omega : level < new.length), sharedBits,
        List.getElem?_eq_getElem (by omega), List.getElem?_eq_getElem (by omega)]
      simp only [Option.some.injEq]
      split_ifs
      · rw [extendPath_eq old new fuel (level + 1) _ (by omega) (by omega), List.replicate_succ,
          List.append_assoc]
        rfl
      · simp

/-! ### The browser's half of the relation -/

/-- The browser's map holds the tree `t` among the trees of `T`, all of them hashed in `env`. -/
structure Mirrors (P : Poseidon2) (env : Env Store) (tree : SparseMerkleTree) (t : Tree)
    (T : Set Tree) : Prop where
  root : tree.root = treeHash P t
  stored : Realises (treeHash P) (nodeOf P) tree.db T
  hashed : ∀ u ∈ T, u ≠ .empty ∧ Hashed P env u
  complete : ∀ u ∈ t.subtries, u ∈ T

variable {env env' : Env Store} {tree : SparseMerkleTree} {k v : F}

theorem Mirrors.treeHash_ne_zero (h : Mirrors P env tree t T) (hsep : Separated P env) {u : Tree}
    (hu : u ∈ t.subtries) : treeHash P u ≠ 0 := by
  obtain ⟨hne, hq⟩ := h.hashed u (h.complete u hu)
  exact hash_ne_zero hsep hq hne

theorem Mirrors.find_eq (h : Mirrors P env tree t T) (hc : t.Canon keyBit 0)
    (hsep : Separated P env) (key : F) :
    tree.find key = .ok (searchOf P key (walk (keyBit key) 0 t)) := by
  have hfind := findInternal_eq h.stored key hc (by omega) h.complete fun u hu =>
    h.treeHash_ne_zero hsep hu
  rw [List.drop_zero, ← scalarToBits_eq] at hfind
  rw [SparseMerkleTree.find, h.root, hfind]
  change Except.ok _ = _
  simp only [FindResult.reversed, List.reverse_reverse]

theorem Mirrors.build (h : Mirrors P env tree t T) (hlog : env.hashed ⊆ env'.hashed)
    (hsep : Separated P env') {sibs : List Tree} (hlen : sibs.length ≤ 256) {t' : Tree}
    (ht' : t' = plug (keyBit k) 0 sibs (.leaf k v)) (hhashed : Hashed P env' t')
    (hsibs : ∀ s ∈ sibs, ∀ u ∈ s.subtries, u ∈ T) :
    ∃ db', buildPath P (scalarToBits k) 0 (sibs.map (treeHash P))
        (poseidon2HashLeaf P k v, putNode tree.db (poseidon2HashLeaf P k v) (.leaf k v)) =
          .ok (treeHash P t', db') ∧ ∃ T', Mirrors P env' ⟨db', treeHash P t'⟩ t' T' := by
  have hQ : ∀ u ∈ t'.subtries, u ∈ {u : Tree | u ≠ .empty ∧ Hashed P env' u} := fun u hu =>
    ⟨ne_empty_of_mem_subtries hu, hhashed.subtree hu⟩
  have hT : T ⊆ {u : Tree | u ≠ .empty ∧ Hashed P env' u} := fun u hu =>
    ⟨(h.hashed u hu).1, (h.hashed u hu).2.mono hlog⟩
  have inj : Set.InjOn (treeHash P) {u : Tree | u ≠ .empty ∧ Hashed P env' u} :=
    fun _ hu _ hw he => hash_inj hsep hu.2 hw.2 he
  have h0 : ∀ u ∈ {u : Tree | u ≠ .empty ∧ Hashed P env' u}, treeHash P u ≠ 0 :=
    fun u hu => hash_ne_zero hsep hu.2 hu.1
  have hmem : ∀ u, u ∈ t'.subtries ↔ u ∈ spine (keyBit k) 0 sibs (.leaf k v) ∨
      (∃ s ∈ sibs, u ∈ s.subtries) ∨ u = .leaf k v := by
    intro u
    rw [ht', mem_subtries_plug, subtries, List.mem_singleton]
  have hleaf : Trie.leaf k v ∈ t'.subtries := (hmem _).mpr (Or.inr (Or.inr rfl))
  have hput := realises_putNode inj h0 h.stored hT (hQ _ hleaf)
  have hsub : insert (Trie.leaf k v) T ⊆ {u : Tree | u ≠ .empty ∧ Hashed P env' u} :=
    Set.insert_subset (hQ _ hleaf) hT
  obtain ⟨db', hbuild, hreal⟩ := buildPath_eq inj h0 k hput hsub 0 sibs (by omega) fun u hu =>
    hQ u ((hmem u).mpr (Or.inl hu))
  rw [← ht'] at hbuild
  refine ⟨db', hbuild, _, rfl, hreal, ?_, ?_⟩
  · rintro u (hu | hu)
    · exact hsub hu
    · exact hQ u ((hmem u).mpr (Or.inl hu))
  · intro u hu
    rcases (hmem u).mp hu with hu | ⟨s, hs, hu⟩ | rfl
    · exact Or.inr hu
    · exact Or.inl (Set.mem_insert_of_mem _ (hsibs s hs u hu))
    · exact Or.inl (Set.mem_insert _ _)

theorem insert_of_find {find : FindResult} (hfind : tree.find k = .ok find)
    (hfound : find.found = false) {siblings : List F} {root : F} {db' : Db}
    (hsibs : (if !find.isOld0 then
        extendPath (scalarToBits find.notFoundKey) (scalarToBits k) (256 - find.siblings.length)
          find.siblings.length find.siblings ++
            [poseidon2HashLeaf P find.notFoundKey find.notFoundValue]
      else find.siblings) = siblings)
    (hbuild : buildPath P (scalarToBits k) 0 siblings (poseidon2HashLeaf P k v,
        putNode tree.db (poseidon2HashLeaf P k v) (.leaf k v)) = .ok (root, db')) :
    ∃ r, tree.insert P k v = .ok (r, ⟨db', root⟩) := by
  rw [SparseMerkleTree.insert, hfind]
  change ∃ r, (if find.found then _ else _) = _
  rw [hfound, if_neg Bool.false_ne_true, hsibs, hbuild]
  exact ⟨_, rfl⟩

/-- The siblings of the path an insertion builds. -/
def pathSiblings (k : F) (t : Tree) : List Tree :=
  (walk (keyBit k) 0 t).1 ++
    forkSiblings k (walk (keyBit k) 0 t).1.length (walk (keyBit k) 0 t).2

theorem length_pathSiblings_le (hc : t.Canon keyBit 0) (hk : ∀ w, ¬ t.Has k w) :
    (pathSiblings k t).length ≤ 256 := by
  have hlen := length_walk_le hc (keyBit k)
  rcases walk_end (keyBit k) 0 t with hw | ⟨k', v', hw⟩
  · rw [pathSiblings, hw, forkSiblings, List.append_nil]
    · omega
    · simp
  · obtain ⟨-, -, hne⟩ := fork_spec hc hk hw
    have hlt : (walk (keyBit k) 0 t).1.length +
        sharedBits ((splitBits k'.val).drop (walk (keyBit k) 0 t).1.length)
          ((splitBits k.val).drop (walk (keyBit k) 0 t).1.length) < 254 := by
      by_contra hge
      exact hne (by rw [keyBit_eq_false (by omega), keyBit_eq_false (by omega)])
    simp only [pathSiblings, hw, forkSiblings, List.length_append, List.length_replicate,
      List.length_singleton]
    omega

/-- The search for an absent key, with the siblings the insertion makes of it. -/
theorem Mirrors.find_absent (h : Mirrors P env tree t T) (hc : t.Canon keyBit 0)
    (hk : ∀ w, ¬ t.Has k w) (hsep : Separated P env) :
    ∃ find, tree.find k = .ok find ∧ find.found = false ∧
      (if !find.isOld0 then
        extendPath (scalarToBits find.notFoundKey) (scalarToBits k) (256 - find.siblings.length)
          find.siblings.length find.siblings ++
            [poseidon2HashLeaf P find.notFoundKey find.notFoundValue]
      else find.siblings) = (pathSiblings k t).map (treeHash P) := by
  have hlen := length_walk_le hc (keyBit k)
  refine ⟨_, h.find_eq hc hsep k, ?_⟩
  rcases walk_end (keyBit k) 0 t with hw | ⟨k', v', hw⟩
  · simp [searchOf, hw, notFoundEmpty, pathSiblings, forkSiblings]
  · have hkk : k' ≠ k := by
      rintro rfl
      exact hk v' (hc.has_iff_walk.mpr hw)
    have hbits : ∀ k : F, (scalarToBits k).length = 256 := fun k => by simp [scalarToBits]
    simp only [searchOf, hw, if_neg hkk, Bool.not_false, if_true, true_and]
    rw [extendPath_eq _ _ _ _ _ (by rw [hbits, List.length_map]; omega)
      (by rw [hbits, List.length_map]; omega)]
    simp only [List.length_map, pathSiblings, hw, forkSiblings, List.map_append,
      List.map_replicate, List.append_assoc, scalarToBits_eq]
    rfl

theorem Mirrors.pathSiblings_mem (h : Mirrors P env tree t T) :
    ∀ s ∈ pathSiblings k t, ∀ u ∈ s.subtries, u ∈ T := by
  intro s hs u hu
  apply h.complete
  rcases List.mem_append.mp hs with hs | hs
  · exact mem_subtries_of_walk _ (Or.inl ⟨s, hs, hu⟩)
  · rcases forkSiblings_cases hs with rfl | rfl
    · exact absurd hu List.not_mem_nil
    · exact mem_subtries_of_walk _ (Or.inr hu)

/-- **Insertion** into the browser's tree is insertion into the tree it mirrors. -/
theorem Mirrors.insert (h : Mirrors P env tree t T) (hc : t.Canon keyBit 0)
    (hk : ∀ w, ¬ t.Has k w) (hlog : env.hashed ⊆ env'.hashed) (hsep : Separated P env')
    (hhashed : Hashed P env' (insertTree k v t)) :
    ∃ r tree' T', tree.insert P k v = .ok (r, tree') ∧
      Mirrors P env' tree' (insertTree k v t) T' := by
  obtain ⟨find, hfind, hfound, hsibs⟩ := h.find_absent hc hk (hsep.mono hlog)
  obtain ⟨db', hbuild, T', hm⟩ := h.build hlog hsep (length_pathSiblings_le hc hk)
    rfl hhashed h.pathSiblings_mem
  obtain ⟨r, hr⟩ := insert_of_find (v := v) hfind hfound hsibs hbuild
  exact ⟨r, _, T', hr, hm⟩

theorem update_of_find {find : FindResult} (hfind : tree.find k = .ok find)
    (hfound : find.found = true) {root : F} {db' : Db}
    (hbuild : buildPath P (scalarToBits k) 0 find.siblings (poseidon2HashLeaf P k v,
        putNode tree.db (poseidon2HashLeaf P k v) (.leaf k v)) = .ok (root, db')) :
    ∃ r, tree.update P k v = .ok (r, ⟨db', root⟩) := by
  rw [SparseMerkleTree.update, hfind]
  change ∃ r, (if !find.found then _ else _) = _
  rw [hfound, Bool.not_true, if_neg Bool.false_ne_true, hbuild]
  exact ⟨_, rfl⟩

/-- **Update** of the browser's tree is update of the tree it mirrors. -/
theorem Mirrors.update (h : Mirrors P env tree t T) (hc : t.Canon keyBit 0) {w : F}
    (hk : t.Has k w) (hlog : env.hashed ⊆ env'.hashed) (hsep : Separated P env')
    (hhashed : Hashed P env' (updateTree k v t)) :
    ∃ r tree' T', tree.update P k v = .ok (r, tree') ∧
      Mirrors P env' tree' (updateTree k v t) T' := by
  have hfind := h.find_eq hc (hsep.mono hlog) k
  have hlen := length_walk_le hc (keyBit k)
  rw [searchOf, hc.has_iff_walk.mp hk] at hfind
  simp only [if_true] at hfind
  obtain ⟨db', hbuild, T', hm⟩ := h.build hlog hsep (by omega)
    rfl hhashed fun s hs u hu => h.complete u (mem_subtries_of_walk _ (Or.inl ⟨s, hs, hu⟩))
  obtain ⟨r, hr⟩ := update_of_find hfind rfl hbuild
  exact ⟨r, _, T', hr, hm⟩

theorem insert_of_found {find : FindResult} (hfind : tree.find k = .ok find)
    (hfound : find.found = true) : tree.insert P k v = .error (.error "Key already exists") := by
  rw [SparseMerkleTree.insert, hfind]
  exact if_pos hfound

theorem update_of_not_found {find : FindResult} (hfind : tree.find k = .ok find)
    (hfound : find.found = false) : tree.update P k v = .error (.error "Key does not exist") := by
  rw [SparseMerkleTree.update, hfind]
  change (if !find.found then _ else _) = _
  rw [hfound]
  rfl

/-! ### Acceptance -/

theorem buildPath_ok : ∀ {i : ℕ} {sibs : List F} (s : F × Db), i + sibs.length ≤ 256 →
    ∃ root db', buildPath P (scalarToBits k) i sibs s = .ok (root, db')
  | _, [], s, _ => ⟨s.1, s.2, rfl⟩
  | i, a :: sibs, s, h => by
      rw [List.length_cons] at h
      obtain ⟨root, db', hr⟩ := @buildPath_ok (i + 1) sibs s (by omega)
      exact ⟨_, _, buildPath_cons (by omega) hr⟩

/-- The operations both sides have. -/
inductive SharedOp where
  | insert (key value : F)
  | update (key newValue : F)

def SharedOp.toOp : SharedOp → Op
  | .insert key value => .insert key value
  | .update key newValue => .update key newValue

variable (P) in
def SharedOp.onTree (tree : SparseMerkleTree) : SharedOp → Result (SMTResult × SparseMerkleTree)
  | .insert key value => tree.insert P key value
  | .update key newValue => tree.update P key newValue

variable {admin : Address} {S : Set Tree} {m : F → Option F}

/-- The browser accepts exactly what the map enables. -/
theorem Mirrors.onTree_ok_iff (h : Mirrors P env tree t T) (hst : Stores P admin env t S m)
    (hsep : Separated P env) (op : SharedOp) :
    (∃ r, op.onTree P tree = .ok r) ↔ op.toOp.Enabled m := by
  have hc := hst.represents.canon
  cases op with
  | insert k v =>
      constructor
      · rintro ⟨r, hr⟩
        by_contra hk
        obtain ⟨w, hw, -⟩ := hst.has hk
        have hfind := h.find_eq hc hsep k
        rw [searchOf, hc.has_iff_walk.mp hw] at hfind
        simp only [if_true] at hfind
        exact absurd ((insert_of_found hfind rfl).symm.trans hr) (by simp)
      · intro hk
        have hk' := hst.not_has hk
        obtain ⟨find, hfind, hfound, hsibs⟩ := h.find_absent hc hk' hsep
        obtain ⟨root, db', hbuild⟩ := @buildPath_ok P k 0 ((pathSiblings k t).map (treeHash P))
          (poseidon2HashLeaf P k v, putNode tree.db (poseidon2HashLeaf P k v) (.leaf k v))
          (by rw [List.length_map, Nat.zero_add]; exact length_pathSiblings_le hc hk')
        obtain ⟨r, hr⟩ := insert_of_find (v := v) hfind hfound hsibs hbuild
        exact ⟨_, hr⟩
  | update k v =>
      constructor
      · rintro ⟨r, hr⟩ hk
        obtain ⟨find, hfind, hfound, -⟩ := h.find_absent hc (hst.not_has hk) hsep
        exact absurd ((update_of_not_found hfind hfound).symm.trans hr) (by simp)
      · intro hk
        obtain ⟨w, hw, -⟩ := hst.has hk
        have hfind := h.find_eq hc hsep k
        have hlen := length_walk_le hc (keyBit k)
        rw [searchOf, hc.has_iff_walk.mp hw] at hfind
        simp only [if_true] at hfind
        obtain ⟨root, db', hbuild⟩ := @buildPath_ok P k 0 ((walk (keyBit k) 0 t).1.map (treeHash P))
          (poseidon2HashLeaf P k v, putNode tree.db (poseidon2HashLeaf P k v) (.leaf k v))
          (by rw [List.length_map]; omega)
        obtain ⟨r, hr⟩ := update_of_find hfind rfl hbuild
        exact ⟨_, hr⟩

/-! ### Runs of both sides -/

/-- The contract after a call; a failed call leaves it as it was. -/
def contractAfter (P : Poseidon2) (auths : List Address) (op : SharedOp) (env : Env Store) :
    Env Store :=
  (op.toOp.call P auths).after env

/-- The browser's tree after a call. -/
def treeAfter (P : Poseidon2) (op : SharedOp) (tree : SparseMerkleTree) : SparseMerkleTree :=
  match op.onTree P tree with
  | .ok (_, tree') => tree'
  | .error _ => tree

/-- One operation tried on both sides, on the contract by the admin. -/
def JointStep (P : Poseidon2) (admin : Address) (s : Env Store × SparseMerkleTree) (op : SharedOp)
    (s' : Env Store × SparseMerkleTree) : Prop :=
  ∃ auths, admin ∈ auths ∧ s' = (contractAfter P auths op s.1, treeAfter P op s.2)

/-- The map after an operation was tried. -/
def SharedOp.attempt : SharedOp → (F → Option F) → F → Option F
  | .insert key value, m => if m key = none then Function.update m key (some value) else m
  | .update key newValue, m => if m key = none then m else Function.update m key (some newValue)

/-- No update of the sequence writes the value the key already has. -/
def ChangesValues : List SharedOp → (F → Option F) → Prop
  | [], _ => True
  | op :: ops, m => op.toOp.ChangesValue m ∧ ChangesValues ops (op.attempt m)

/-- Contract and browser keep one tree, with the entries of `m`. -/
def Simulates (P : Poseidon2) (admin : Address) (s : Env Store × SparseMerkleTree)
    (m : F → Option F) : Prop :=
  ∃ t S T, Stores P admin s.1 t S m ∧ Mirrors P s.1 s.2 t T

theorem simulates_new (P : Poseidon2) (admin : Address) :
    Simulates P admin (constructor admin, new) fun _ => none :=
  ⟨.empty, ∅, ∅, stores_constructor P admin, rfl, by simp [Realises, new], by simp,
    by simp [subtries]⟩

theorem contractAfter_hashed (auths : List Address) (op : SharedOp) (env : Env Store) :
    env.hashed ⊆ (contractAfter P auths op env).hashed := by
  unfold contractAfter
  cases hr : op.toOp.call P auths env with
  | error e => rw [Host.after_of_error hr]; exact List.Subset.refl _
  | ok p => rw [Host.after_of_ok hr]; exact Step.hashed_subset ⟨auths, hr⟩

theorem Simulates.rejected {s : Env Store × SparseMerkleTree} {op : SharedOp}
    {auths : List Address} (h : Simulates P admin s m) (hsep : Separated P s.1)
    (hauth : admin ∈ auths) (hen : ¬ op.toOp.Enabled m) :
    (contractAfter P auths op s.1, treeAfter P op s.2) = s ∧ op.attempt m = m := by
  obtain ⟨t, S, T, hst, hm⟩ := h
  refine ⟨Prod.ext ?_ ?_, ?_⟩
  · cases hr : op.toOp.call P auths s.1 with
    | error e => exact Host.after_of_error hr
    | ok p => exact absurd ((hst.call_ok_iff hsep hauth op.toOp).mp ⟨p.2, hr⟩) hen
  · cases hr : op.onTree P s.2 with
    | error e => simp only [treeAfter, hr]
    | ok p => exact absurd ((hm.onTree_ok_iff hst hsep op).mp ⟨p, hr⟩) hen
  · cases op with
    | insert k v => exact if_neg hen
    | update k v => exact if_pos (not_not.mp hen)

/-- **Step lemma**: an operation tried on both sides keeps them together. -/
theorem Simulates.step {s s' : Env Store × SparseMerkleTree} {op : SharedOp}
    (h : Simulates P admin s m) (hstep : JointStep P admin s op s') (hch : op.toOp.ChangesValue m)
    (hsep' : Separated P s'.1) : Simulates P admin s' (op.attempt m) := by
  obtain ⟨auths, hauth, rfl⟩ := hstep
  have hlog := contractAfter_hashed (P := P) auths op s.1
  have hsep : Separated P s.1 := hsep'.mono hlog
  by_cases hen : op.toOp.Enabled m
  · obtain ⟨t, S, T, hst, hm⟩ := h
    have hc := hst.represents.canon
    cases op with
    | insert k v =>
        have hk := hst.not_has hen
        have hcall : contractAfter P auths (.insert k v) s.1 = afterInsert P k v t s.1 := by
          have := insertLeaf_apply hst.represents hsep hst.admin_eq hauth (v := v) hk
          exact Host.after_of_ok this
        simp only [hcall] at hlog hsep' ⊢
        have hst' := hst.insert (v := v) hen hsep'
        obtain ⟨r, tree', T', hr, hm'⟩ := hm.insert hc hk hlog hsep'
          (hst'.represents.hashed_of_subtries fun _ hu => hu)
        have htree : treeAfter P (.insert k v) s.2 = tree' := by
          simp only [treeAfter, SharedOp.onTree, hr]
        rw [SharedOp.attempt, if_pos (show m k = none from hen), htree]
        exact ⟨_, _, T', hst', hm'⟩
    | update k v =>
        obtain ⟨w, hw, hmw⟩ := hst.has hen
        have hne : w ≠ v := by
          rintro rfl
          exact hch hmw
        have hcall : contractAfter P auths (.update k v) s.1 = afterUpdate P k w v t s.1 := by
          have := updateLeaf_apply hst.represents hsep hst.admin_eq hauth hw v
          exact Host.after_of_ok this
        simp only [hcall] at hlog hsep' ⊢
        have hst' := hst.update hmw hne hsep'
        obtain ⟨r, tree', T', hr, hm'⟩ := hm.update hc hw hlog hsep'
          (hst'.represents.hashed_of_subtries fun _ hu => hu)
        have htree : treeAfter P (.update k v) s.2 = tree' := by
          simp only [treeAfter, SharedOp.onTree, hr]
        rw [SharedOp.attempt, if_neg (show ¬ m k = none from hen), htree]
        exact ⟨_, _, T', hst', hm'⟩
  · obtain ⟨hs, hattempt⟩ := h.rejected hsep hauth hen
    rw [hs, hattempt]
    exact h

/-- **Run lemma.** -/
theorem Simulates.run {s s' : Env Store × SparseMerkleTree} {ops : List SharedOp}
    (h : Simulates P admin s m) (hrun : Run (JointStep P admin) s ops s')
    (hch : ChangesValues ops m) (hsep : Separated P s'.1) : ∃ m', Simulates P admin s' m' := by
  obtain ⟨hrun', -⟩ := hrun.restrict (Q := fun s => Separated P s.1) (fun s op s' hs hq => by
    obtain ⟨auths, -, rfl⟩ := hs
    exact hq.mono (contractAfter_hashed auths op s.1)) hsep
  clear hrun hsep
  induction hrun' generalizing m with
  | nil s => exact ⟨m, h⟩
  | cons hs _ ih => exact ih (h.step hs.1 hch.1 hs.2) hch.2

/-- The two searches report the same, field by field. -/
structure SameFind (c : AspNonMembership.FindResult) (w : FindResult) : Prop where
  found : c.found = w.found
  siblings : c.siblings = w.siblings.map ZMod.val
  foundValue : c.foundValue = w.foundValue.val
  notFoundKey : c.notFoundKey = w.notFoundKey.val
  notFoundValue : c.notFoundValue = w.notFoundValue.val
  isOld0 : c.isOld0 = w.isOld0

theorem sameFind (key : F) (w : List Tree × Tree) :
    SameFind (searchResult P key.val w) (searchOf P key w) := by
  obtain ⟨sibs, e⟩ := w
  have haddr : sibs.map (address P) = (sibs.map (treeHash P)).map ZMod.val := by
    rw [List.map_map]
    rfl
  have hzero : (0 : F).val = 0 := ZMod.val_zero
  cases e with
  | empty => exact ⟨rfl, haddr, hzero.symm, rfl, hzero.symm, rfl⟩
  | node l r => exact ⟨rfl, haddr, hzero.symm, rfl, hzero.symm, rfl⟩
  | leaf k v =>
      by_cases hk : k = key
      · subst hk
        simp only [searchResult, searchOf, if_true]
        exact ⟨rfl, haddr, rfl, hzero.symm, hzero.symm, rfl⟩
      · simp only [searchResult, searchOf, F.val_inj, if_neg hk]
        exact ⟨rfl, haddr, hzero.symm, rfl, rfl, rfl⟩

/-- **The browser simulates the contract**: after any operations tried on both sides, accepted or
not, the next one is accepted by both or by neither, the roots are equal, and every search
reports the same on both. -/
theorem simulates {s : Env Store × SparseMerkleTree} {ops : List SharedOp}
    (hrun : Run (JointStep P admin) (constructor admin, new) ops s)
    (hch : ChangesValues ops fun _ => none)
    (hfree : P.CollisionFree {q | q ∈ s.1.hashed}) (hzero : P.NeverZero {q | q ∈ s.1.hashed}) :
    (∀ (op : SharedOp) (auths : List Address), admin ∈ auths →
      ((∃ env', op.toOp.call P auths s.1 = .ok ((), env')) ↔ ∃ r, op.onTree P s.2 = .ok r)) ∧
    s.1.store.root = some s.2.root.val ∧
    ∀ key : F, ∃ c w, findKey key.val s.1 = .ok (c, s.1) ∧ s.2.find key = .ok w ∧ SameFind c w := by
  have hsep := separated_of_collisionFree P hfree hzero
  obtain ⟨m, t, S, T, hst, hm⟩ := (simulates_new P admin).run hrun hch hsep
  refine ⟨fun op auths hauth => ?_, ?_, fun key => ?_⟩
  · rw [hst.call_ok_iff hsep hauth op.toOp, hm.onTree_ok_iff hst hsep op]
  · rw [hst.represents.root, hm.root]
    rfl
  · exact ⟨_, _, hst.represents.findKey_apply hsep key.val, hm.find_eq hst.represents.canon hsep key,
      sameFind key _⟩

/-- The operations in order, tried with the given authorisations. -/
def tryAll (P : Poseidon2) (auths : List Address) (ops : List SharedOp)
    (s : Env Store × SparseMerkleTree) : Env Store × SparseMerkleTree :=
  ops.foldl (fun s op => (contractAfter P auths op s.1, treeAfter P op s.2)) s

theorem run_tryAll {auths : List Address} (hauth : admin ∈ auths) : ∀ (ops : List SharedOp)
    (s : Env Store × SparseMerkleTree), Run (JointStep P admin) s ops (tryAll P auths ops s)
  | [], s => .nil s
  | _ :: ops, _ => .cons ⟨auths, hauth, rfl⟩ (run_tryAll hauth ops _)

/-- Two insertions that share a bit, a rejected insertion, an update and a rejected update. -/
def smallSharedRun : List SharedOp :=
  [.insert 1 (5 : ℕ), .insert (3 : ℕ) (7 : ℕ), .insert 1 (9 : ℕ), .update 1 (6 : ℕ),
    .update (2 : ℕ) 0]

theorem changesValues_smallSharedRun : ChangesValues smallSharedRun fun _ => none := by
  simp only [smallSharedRun, ChangesValues, SharedOp.toOp, Op.ChangesValue, SharedOp.attempt,
    true_and, and_true]
  decide +kernel

theorem simulates_smallSharedRun :
    let s := tryAll smallPoseidon2 [.account 0] smallSharedRun (constructor (.account 0), new)
    s.1.store.root = some s.2.root.val ∧
      ∀ key : F, ∃ c w, findKey key.val s.1 = .ok (c, s.1) ∧ s.2.find key = .ok w ∧
        SameFind c w := by
  have hclean : cleanLog smallPoseidon2 (tryAll smallPoseidon2 [.account 0] smallSharedRun
      (constructor (.account 0), new)).1.hashed = true := by decide +kernel
  obtain ⟨hfree, hzero⟩ := collisionFree_of_cleanLog hclean
  exact (simulates (run_tryAll List.mem_cons_self _ _) changesValues_smallSharedRun hfree hzero).2

end Enclave.Prover

import Enclave.Prover.SparseMerkleSimulation

/-! # What an insertion reports

`insert` of the browser's tree returns the siblings it used, trimmed: first the zeros at the end,
then the displaced leaf.  The contract drops the leaf first and the zeros after it.  Where the new
key shares the next bit with the displaced leaf's, zeros stand before the leaf and stay
(`resultSiblings_fork`); otherwise the siblings are those of the search before the insertion
(`insert_describes_iff`).

A tree is followed with the evaluations made for it (`Tracked`): the result is about any calls,
accepted or not, none of whose evaluations collide. -/

namespace Enclave.Prover

open Trie AspNonMembership SparseMerkleTree

variable (P : Poseidon2)

/-! ### Evaluations -/

/-- The children of a branch on the path of `key`, from the sibling and the hash below. -/
def childrenAt (key : F) (level : ℕ) (sibling current : F) : F × F :=
  if keyBit key level then (sibling, current) else (current, sibling)

/-- The hash that siblings lead to along the bits of `key` from `level` on. -/
def foldSiblings (key : F) : ℕ → List F → F → F
  | _, [], current => current
  | level, sibling :: rest, current =>
      let children := childrenAt key level sibling (foldSiblings key (level + 1) rest current)
      P.compress children.1 children.2

/-- The evaluations of the loop that builds a path. -/
def pathQueries (key : F) : ℕ → List F → F → List Query
  | _, [], _ => []
  | level, sibling :: rest, current =>
      let children := childrenAt key level sibling (foldSiblings P key (level + 1) rest current)
      .compress children.1 children.2 :: pathQueries key (level + 1) rest current

/-- The siblings of the path that `insert` builds. -/
def insertSiblings (find : FindResult) (key : F) : List F :=
  if !find.isOld0 then
    extendPath (scalarToBits find.notFoundKey) (scalarToBits key) (256 - find.siblings.length)
      find.siblings.length find.siblings ++
        [poseidon2HashLeaf P find.notFoundKey find.notFoundValue]
  else find.siblings

/-- The evaluations of a call; `insert` hashes the leaf that its search ended at again. -/
def callQueries (tree : SparseMerkleTree) : SharedOp → List Query
  | .insert key value =>
      match tree.find key with
      | .error _ => []
      | .ok find =>
          if find.found then []
          else
            pathQueries P key 0 (insertSiblings P find key) (poseidon2HashLeaf P key value) ++
              ((if !find.isOld0 then [.hash2 find.notFoundKey find.notFoundValue 1] else []) ++
                [.hash2 key value 1])
  | .update key newValue =>
      match tree.find key with
      | .error _ => []
      | .ok find =>
          if !find.found then []
          else
            pathQueries P key 0 find.siblings (poseidon2HashLeaf P key newValue) ++
              [.hash2 key newValue 1]

/-- A tree with the evaluations made so far. -/
abbrev Tracked := SparseMerkleTree × List Query

/-- A call tried. -/
def attempt (s : Tracked) (op : SharedOp) : Tracked :=
  (treeAfter P op s.1, callQueries P s.1 op ++ s.2)

/-- After calls on a new tree. -/
def reached (ops : List SharedOp) : Tracked := ops.foldl (attempt P) (new, [])

/-! ### Reports -/

/-- The siblings that `insert` returns of those it used. -/
def resultSiblings (find : FindResult) (siblings : List F) : List F :=
  let trimmed := siblings.rdropWhile (· = 0)
  if !find.isOld0 && !trimmed.isEmpty then trimmed.dropLast else trimmed

/-- The result of an insertion that ends on `root`. -/
def insertResult (tree : SparseMerkleTree) (find : FindResult) (key value root : F) : SMTResult where
  oldRoot := tree.root
  newRoot := root
  siblings := resultSiblings find (insertSiblings P find key)
  oldKey := find.notFoundKey
  oldValue := find.notFoundValue
  newKey := key
  newValue := value
  isOld0 := find.isOld0

/-- The result is a description of the tree before: the siblings are the search's, without zeros
at the end, and lead from the old leaf, or from zero, to the old root. -/
structure DescribesOld (tree tree' : SparseMerkleTree) (key : F) (find : FindResult)
    (r : SMTResult) : Prop where
  siblings : r.siblings = find.siblings
  trimmed : r.siblings.getLast? ≠ some 0
  fold : foldSiblings P key 0 r.siblings
    (if r.isOld0 then 0 else poseidon2HashLeaf P r.oldKey r.oldValue) = r.oldRoot
  oldRoot : r.oldRoot = tree.root
  newRoot : r.newRoot = tree'.root

variable {P} {t : Tree} {T : Set Tree} {tree : SparseMerkleTree} {k v : F}

theorem eq_ok_of_toOption {α : Type} {x : Result α} {a : α} (h : x.toOption = some a) :
    x = .ok a := by
  cases x with
  | error e => cases h
  | ok b => rw [Option.some.inj h]

theorem insert_eq_of_find {find : FindResult} (hfind : tree.find k = .ok find)
    (hfound : find.found = false) {root : F} {db' : Db}
    (hbuild : buildPath P (scalarToBits k) 0 (insertSiblings P find k)
      (poseidon2HashLeaf P k v, putNode tree.db (poseidon2HashLeaf P k v) (.leaf k v)) =
        .ok (root, db')) :
    tree.insert P k v = .ok (insertResult P tree find k v root, ⟨db', root⟩) := by
  unfold insertSiblings at hbuild
  rw [SparseMerkleTree.insert, hfind]
  change (if find.found then _ else _) = _
  rw [hfound, if_neg Bool.false_ne_true, hbuild]
  rfl

theorem resultSiblings_empty {find : FindResult} {siblings : List F} (hold : find.isOld0 = true)
    (hlast : siblings.getLast? ≠ some 0) : resultSiblings find siblings = siblings := by
  have hself : siblings.rdropWhile (fun x => decide (x = 0)) = siblings := by
    apply List.rdropWhile_eq_self_iff.mpr
    intro hne hzero
    rw [List.getLast?_eq_getLast_of_ne_nil hne, of_decide_eq_true hzero] at hlast
    exact hlast rfl
  rw [resultSiblings, hold, hself]
  rfl

/-- **The zeros before the displaced leaf stay.** -/
theorem resultSiblings_fork {find : FindResult} {siblings : List F} {leaf : F}
    (hold : find.isOld0 = false) (hleaf : leaf ≠ 0) :
    resultSiblings find (siblings ++ [leaf]) = siblings := by
  have hself : (siblings ++ [leaf]).rdropWhile (fun x => decide (x = 0)) = siblings ++ [leaf] :=
    List.rdropWhile_concat_neg _ _ _ (by simpa using hleaf)
  have hne : (siblings ++ [leaf]).isEmpty = false := by
    rw [List.isEmpty_eq_false_iff]
    exact List.concat_ne_nil _ _
  simp only [resultSiblings, hold, hself, hne, Bool.not_false, Bool.and_self, if_true,
    List.dropLast_concat]

/-! ### Paths of trees -/

/-- Folding the hashes of siblings is hashing the tree they stand beside. -/
theorem foldSiblings_map (k : F) (e : Tree) : ∀ (i : ℕ) (sibs : List Tree),
    foldSiblings P k i (sibs.map (treeHash P)) (treeHash P e) =
      treeHash P (plug (keyBit k) i sibs e)
  | _, [] => rfl
  | i, s :: sibs => by
      rw [List.map_cons, foldSiblings, foldSiblings_map k e (i + 1) sibs, plug_cons, childrenAt]
      cases keyBit k i <;> rfl

theorem top_mem_pathQueries (k : F) (e : Tree) {u : Tree} {q : Item} : ∀ {i : ℕ} {sibs : List Tree},
    u ∈ spine (keyBit k) i sibs e → u.top (itemHash P) 0 = some q →
      toQuery q ∈ pathQueries P k i (sibs.map (treeHash P)) (treeHash P e)
  | _, [], hu, _ => absurd hu List.not_mem_nil
  | i, s :: sibs, hu, hq => by
      rw [List.map_cons, pathQueries, foldSiblings_map, childrenAt]
      obtain rfl | hu := List.mem_cons.mp hu
      · apply List.mem_cons.mpr
        rw [plug_cons] at hq
        left
        cases hbit : keyBit k i <;> rw [hbit] at hq <;> cases hq <;> rfl
      · exact List.mem_cons_of_mem _ (top_mem_pathQueries k e hu hq)

/-- An environment with these evaluations; a mirrored tree needs no more of it. -/
def logged (log : List Query) : Env Store := ⟨(constructor (.account 0)).store, log⟩

/-- What a new path hashes, with what was hashed before, is the whole new tree. -/
theorem hashed_plug {log queries : List Query} {sibs : List Tree}
    (hsibs : ∀ s ∈ sibs, ∀ u ∈ s.subtries, Hashed P (logged log) u)
    (hpath : pathQueries P k 0 (sibs.map (treeHash P)) (poseidon2HashLeaf P k v) ⊆ queries)
    (hleaf : Query.hash2 k v 1 ∈ queries) :
    Hashed P (logged (queries ++ log)) (plug (keyBit k) 0 sibs (.leaf k v)) := by
  intro q hq
  obtain ⟨u, hu, htop⟩ := mem_inputs_iff.mp hq
  apply List.mem_append.mpr
  obtain hu | ⟨s, hs, hu⟩ | hu := (mem_subtries_plug _ _ _ _ _).mp hu
  · exact .inl (hpath (top_mem_pathQueries k (.leaf k v) hu htop))
  · exact .inr (hsibs s hs u hu q (top_mem_inputs htop))
  · obtain rfl := List.mem_singleton.mp hu
    cases htop
    exact .inl hleaf

/-! ### Calls -/

/-- The tree is the hash image of a canonical one. -/
def Kept (P : Poseidon2) (s : Tracked) : Prop :=
  ∃ t T, t.Canon keyBit 0 ∧ Mirrors P (logged s.2) s.1 t T

theorem kept_new (P : Poseidon2) : Kept P (new, []) :=
  ⟨.empty, ∅, trivial, rfl, by simp [Realises, new], by simp, by simp [subtries]⟩

/-- **An insertion of an absent key**: its result, and the tree after it. -/
theorem Mirrors.insert_absent {log : List Query} (h : Mirrors P (logged log) tree t T)
    (hc : t.Canon keyBit 0) (hk : ∀ w, ¬ t.Has k w)
    (hsep : Separated P (logged (callQueries P tree (.insert k v) ++ log))) :
    ∃ find db' T', tree.find k = .ok find ∧ find = searchOf P k (walk (keyBit k) 0 t) ∧
      insertSiblings P find k = (pathSiblings k t).map (treeHash P) ∧
      tree.insert P k v = .ok (insertResult P tree find k v (treeHash P (insertTree k v t)),
        ⟨db', treeHash P (insertTree k v t)⟩) ∧
      Mirrors P (logged (callQueries P tree (.insert k v) ++ log))
        ⟨db', treeHash P (insertTree k v t)⟩ (insertTree k v t) T' := by
  have hlog : (logged log).hashed ⊆ (logged (callQueries P tree (.insert k v) ++ log)).hashed :=
    List.subset_append_right _ _
  obtain ⟨find, hfind, hfound, hsibs⟩ := h.find_absent hc hk (hsep.mono hlog)
  change insertSiblings P find k = _ at hsibs
  have hhashed : Hashed P (logged (callQueries P tree (.insert k v) ++ log))
      (insertTree k v t) := by
    apply hashed_plug
    · exact fun s hs u hu => (h.hashed u (h.pathSiblings_mem s hs u hu)).2
    · rw [callQueries, hfind, ← pathSiblings, ← hsibs]
      simp only [hfound, if_neg Bool.false_ne_true]
      exact List.subset_append_left _ _
    · rw [callQueries, hfind]
      simp only [hfound, if_neg Bool.false_ne_true, List.mem_append, List.mem_singleton, or_true]
  obtain ⟨db', hbuild, T', hm⟩ := h.build hlog hsep (length_pathSiblings_le hc hk) rfl hhashed
    h.pathSiblings_mem
  rw [← hsibs] at hbuild
  have heq := h.find_eq hc (hsep.mono hlog) k
  exact ⟨find, db', T', hfind, Except.ok.inj (hfind.symm.trans heq), hsibs,
    insert_eq_of_find hfind hfound hbuild, hm⟩

/-- **Step lemma.** -/
theorem Kept.attempt {s : Tracked} (h : Kept P s) (op : SharedOp)
    (hsep : Separated P (logged (attempt P s op).2)) : Kept P (attempt P s op) := by
  obtain ⟨t, T, hc, hm⟩ := h
  have hlog : (logged s.2).hashed ⊆ (logged (callQueries P s.1 op ++ s.2)).hashed :=
    List.subset_append_right _ _
  cases op with
  | insert k v =>
      by_cases hk : ∃ w, t.Has k w
      · obtain ⟨w, hw⟩ := hk
        have hfind := hm.find_eq hc (hsep.mono hlog) k
        rw [searchOf, hc.has_iff_walk.mp hw] at hfind
        simp only [if_true] at hfind
        have hfail := @insert_of_found P s.1 k v _ hfind rfl
        refine ⟨t, T, hc, ?_⟩
        simpa only [Prover.attempt, treeAfter, SharedOp.onTree, hfail, callQueries, hfind,
          if_true, List.nil_append] using hm
      · obtain ⟨find, db', T', -, -, -, hinsert, hm'⟩ := hm.insert_absent (v := v) hc
          (fun w hw => hk ⟨w, hw⟩) hsep
        refine ⟨insertTree k v t, T', canon_insertTree hc fun w hw => hk ⟨w, hw⟩, ?_⟩
        simpa only [Prover.attempt, treeAfter, SharedOp.onTree, hinsert] using hm'
  | update k v =>
      by_cases hk : ∃ w, t.Has k w
      · obtain ⟨w, hw⟩ := hk
        have hfind := hm.find_eq hc (hsep.mono hlog) k
        rw [searchOf, hc.has_iff_walk.mp hw] at hfind
        simp only [if_true] at hfind
        have hhashed : Hashed P (logged (callQueries P s.1 (.update k v) ++ s.2))
            (updateTree k v t) := by
          apply hashed_plug
          · exact fun u hu u' hu' => (hm.hashed u' (hm.complete u'
              (mem_subtries_of_walk _ (.inl ⟨u, hu, hu'⟩)))).2
          · rw [callQueries, hfind]
            exact List.subset_append_left _ _
          · rw [callQueries, hfind]
            exact List.mem_append_right _ List.mem_cons_self
        obtain ⟨r, tree', T', hupdate, hm'⟩ := hm.update hc hw hlog hsep hhashed
        refine ⟨updateTree k v t, T', canon_updateTree hc hw, ?_⟩
        simpa only [Prover.attempt, treeAfter, SharedOp.onTree, hupdate] using hm'
      · obtain ⟨find, hfind, hfound, -⟩ := hm.find_absent hc (fun w hw => hk ⟨w, hw⟩)
          (hsep.mono hlog)
        have hfail := @update_of_not_found P s.1 k v _ hfind hfound
        refine ⟨t, T, hc, ?_⟩
        simpa only [Prover.attempt, treeAfter, SharedOp.onTree, hfail, callQueries, hfind, hfound,
          Bool.not_false, if_true, List.nil_append] using hm

theorem subset_foldl_attempt (ops : List SharedOp) (s : Tracked) :
    s.2 ⊆ (ops.foldl (attempt P) s).2 := by
  induction ops generalizing s with
  | nil => exact List.Subset.refl _
  | cons op ops ih => exact List.Subset.trans (List.subset_append_right _ _) (ih (attempt P s op))

/-- **Run lemma.** -/
theorem Kept.foldl (ops : List SharedOp) {s : Tracked} (h : Kept P s)
    (hsep : Separated P (logged (ops.foldl (Prover.attempt P) s).2)) :
    Kept P (ops.foldl (Prover.attempt P) s) := by
  induction ops generalizing s with
  | nil => exact h
  | cons op ops ih =>
      have hstep : Separated P (logged (Prover.attempt P s op).2) :=
        hsep.mono (subset_foldl_attempt ops _)
      exact ih (h.attempt op hstep) hsep

theorem reached_concat (ops : List SharedOp) (op : SharedOp) :
    reached P (ops ++ [op]) = attempt P (reached P ops) op := by
  rw [reached, List.foldl_append]
  rfl

/-! ### The report of an insertion -/

theorem Mirrors.getLast?_siblings {env : Env Store} (h : Mirrors P env tree t T)
    (hc : t.Canon keyBit 0) (hsep : Separated P env) (k : F) :
    ((walk (keyBit k) 0 t).1.map (treeHash P)).getLast? ≠ some 0 := by
  rw [List.getLast?_map]
  intro hlast
  obtain ⟨s, hs, hzero⟩ := Option.map_eq_some_iff.mp hlast
  have hne := hc.getLast_walk_ne_empty (keyBit k) s hs
  have hmem : s ∈ s.subtries := by
    cases s with
    | empty => exact absurd rfl hne
    | leaf k v => exact List.mem_singleton.mpr rfl
    | node l r => exact List.mem_cons_self
  exact h.treeHash_ne_zero hsep (mem_subtries_of_walk _
    (.inl ⟨s, List.mem_of_getLast? hs, hmem⟩)) hzero

theorem sharedBits_eq_zero {i : ℕ} (hi : i < 256) (k k' : F) :
    sharedBits ((splitBits k'.val).drop i) ((splitBits k.val).drop i) = 0 ↔
      keyBit k' i ≠ keyBit k i := by
  rw [drop_splitBits hi, drop_splitBits hi, sharedBits]
  unfold keyBit
  split_ifs with heq
  · simp [heq]
  · simp [heq]

theorem Mirrors.describes_iff {log : List Query} (h : Mirrors P (logged log) tree t T)
    (hc : t.Canon keyBit 0) (hk : ∀ w, ¬ t.Has k w)
    (hsep : Separated P (logged (callQueries P tree (.insert k v) ++ log))) :
    ∃ find, tree.find k = .ok find ∧ ∃ r tree', tree.insert P k v = .ok (r, tree') ∧
      (DescribesOld P tree tree' k find r ↔ find.isOld0 = true ∨
        keyBit find.notFoundKey find.siblings.length ≠ keyBit k find.siblings.length) := by
  have hlog : (logged log).hashed ⊆ (logged (callQueries P tree (.insert k v) ++ log)).hashed :=
    List.subset_append_right _ _
  have hlast := h.getLast?_siblings hc (hsep.mono hlog) k
  have hplug := plug_walk (keyBit k) 0 t
  have hfold := @foldSiblings_map P k (walk (keyBit k) 0 t).2 0 (walk (keyBit k) 0 t).1
  rw [hplug, ← h.root] at hfold
  obtain ⟨find, db', T', hfind, hsearch, hsibs, hinsert, -⟩ := h.insert_absent (v := v) hc hk hsep
  refine ⟨find, hfind, _, _, hinsert, ?_⟩
  rcases walk_end (keyBit k) 0 t with hw | ⟨k', v', hw⟩
  · -- the search ended at an empty place
    have hfields : find.isOld0 = true ∧
        find.siblings = (walk (keyBit k) 0 t).1.map (treeHash P) := by
      rw [hsearch, searchOf, hw]
      exact ⟨rfl, rfl⟩
    obtain ⟨hold, hsiblings⟩ := hfields
    have hresult : resultSiblings find (insertSiblings P find k) = find.siblings := by
      rw [insertSiblings, hold]
      exact resultSiblings_empty hold (by rwa [hsiblings])
    refine iff_of_true ?_ (.inl hold)
    refine ⟨hresult, ?_, ?_, rfl, rfl⟩
    · rw [insertResult, hresult, hsiblings]
      exact hlast
    · rw [hw] at hfold
      rw [insertResult, hresult, hold, if_pos rfl, hsiblings]
      exact hfold
  · -- the search ended at another leaf
    have hkk : k' ≠ k := by
      rintro rfl
      exact hk v' (hc.has_iff_walk.mpr hw)
    have hfields : find.isOld0 = false ∧ find.notFoundKey = k' ∧ find.notFoundValue = v' ∧
        find.siblings = (walk (keyBit k) 0 t).1.map (treeHash P) := by
      rw [hsearch, searchOf, hw]
      simp only [if_neg hkk]
      exact ⟨trivial, trivial, trivial, trivial⟩
    obtain ⟨hold, hkey, hvalue, hsiblings⟩ := hfields
    have hleaf : treeHash P (.leaf k' v') ≠ 0 := by
      refine h.treeHash_ne_zero (hsep.mono hlog) (mem_subtries_of_walk (keyBit k) (.inr ?_))
      rw [hw]
      exact List.mem_singleton.mpr rfl
    have hresult : resultSiblings find (insertSiblings P find k) = find.siblings ++
        List.replicate (sharedBits ((splitBits k'.val).drop (walk (keyBit k) 0 t).1.length)
          ((splitBits k.val).drop (walk (keyBit k) 0 t).1.length)) 0 := by
      rw [hsibs, pathSiblings, hw, forkSiblings, List.map_append, List.map_append,
        ← List.append_assoc, List.map_replicate, ← hsiblings]
      exact resultSiblings_fork hold hleaf
    have hlen : (walk (keyBit k) 0 t).1.length = find.siblings.length := by
      rw [hsiblings, List.length_map]
    have hshort := length_walk_le hc (keyBit k)
    rw [hkey, ← hlen, ← sharedBits_eq_zero (by omega)]
    constructor
    · intro hdescribes
      have hsame := hdescribes.siblings
      rw [insertResult, hresult, List.append_right_eq_self, List.replicate_eq_nil_iff] at hsame
      exact .inr hsame
    · rintro (hold' | hshared)
      · rw [hold] at hold'
        cases hold'
      · rw [hshared, List.replicate_zero, List.append_nil] at hresult
        refine ⟨hresult, ?_, ?_, rfl, rfl⟩
        · rw [insertResult, hresult, hsiblings]
          exact hlast
        · rw [hw] at hfold
          rw [insertResult, hresult, hold, if_neg Bool.false_ne_true, hkey, hvalue, hsiblings]
          exact hfold

/-- **The report of an insertion describes the old tree exactly if** the search ended at an empty
place, or at a leaf whose key parts from the new one at once. -/
theorem insert_describes_iff (ops : List SharedOp) (key value : F)
    (hfree : P.CollisionFree {q | q ∈ (reached P (ops ++ [.insert key value])).2})
    (hzero : P.NeverZero {q | q ∈ (reached P (ops ++ [.insert key value])).2}) :
    ∃ find, (reached P ops).1.find key = .ok find ∧ (find.found = false →
      ∃ r tree', (reached P ops).1.insert P key value = .ok (r, tree') ∧
        (DescribesOld P (reached P ops).1 tree' key find r ↔ find.isOld0 = true ∨
          keyBit find.notFoundKey find.siblings.length ≠ keyBit key find.siblings.length)) := by
  rw [reached_concat] at hfree hzero
  have hsep : Separated P (logged (attempt P (reached P ops) (.insert key value)).2) :=
    separated_of_collisionFree P hfree hzero
  have hsep' : Separated P (logged (reached P ops).2) := hsep.mono (List.subset_append_right _ _)
  obtain ⟨t, T, hc, hm⟩ := (kept_new P).foldl ops hsep'
  by_cases hk : ∃ w, t.Has key w
  · obtain ⟨w, hw⟩ := hk
    have hfind := hm.find_eq hc hsep' key
    rw [searchOf, hc.has_iff_walk.mp hw] at hfind
    simp only [if_true] at hfind
    exact ⟨_, hfind, fun habsent => by cases habsent⟩
  · obtain ⟨find, hfind, hrest⟩ := hm.describes_iff (v := value) hc (fun w hw => hk ⟨w, hw⟩) hsep
    exact ⟨find, hfind, fun _ => hrest⟩

theorem insert_describes_sample :
    ∃ find, (reached smallPoseidon2 [.insert 1 ((5 : ℕ) : F)]).1.find ((3 : ℕ) : F) = .ok find ∧
      (find.found = false → ∃ r tree', (reached smallPoseidon2 [.insert 1 ((5 : ℕ) : F)]).1.insert
        smallPoseidon2 ((3 : ℕ) : F) ((7 : ℕ) : F) = .ok (r, tree') ∧
          (DescribesOld smallPoseidon2 (reached smallPoseidon2 [.insert 1 ((5 : ℕ) : F)]).1 tree'
            ((3 : ℕ) : F) find r ↔ find.isOld0 = true ∨
              keyBit find.notFoundKey find.siblings.length ≠
                keyBit ((3 : ℕ) : F) find.siblings.length)) := by
  have hclean : cleanLog smallPoseidon2 (reached smallPoseidon2 ([.insert 1 ((5 : ℕ) : F)] ++
      [.insert ((3 : ℕ) : F) ((7 : ℕ) : F)])).2 = true := by decide +kernel
  obtain ⟨hfree, hzero⟩ := collisionFree_of_cleanLog hclean
  exact insert_describes_iff [.insert 1 ((5 : ℕ) : F)] _ _ hfree hzero

/-- The keys 1 and 3 share a bit: the search for 3 passes no sibling, the insertion reports a
zero. -/
theorem insert_reports_zero : ∃ find r tree',
    (reached smallPoseidon2 [.insert 1 ((5 : ℕ) : F)]).1.find ((3 : ℕ) : F) = .ok find ∧
      find.found = false ∧
      (reached smallPoseidon2 [.insert 1 ((5 : ℕ) : F)]).1.insert smallPoseidon2 ((3 : ℕ) : F)
        ((7 : ℕ) : F) = .ok (r, tree') ∧ find.siblings = [] ∧ r.siblings = [0] ∧
      ¬ DescribesOld smallPoseidon2 (reached smallPoseidon2 [.insert 1 ((5 : ℕ) : F)]).1 tree'
        ((3 : ℕ) : F) find r := by
  have hsearch : ((reached smallPoseidon2 [.insert 1 ((5 : ℕ) : F)]).1.find
      ((3 : ℕ) : F)).toOption.map (fun find => (find.found, find.siblings)) =
        some (false, []) := by decide +kernel
  have hinsert : ((reached smallPoseidon2 [.insert 1 ((5 : ℕ) : F)]).1.insert smallPoseidon2
      ((3 : ℕ) : F) ((7 : ℕ) : F)).toOption.map (fun result => result.1.siblings) =
        some [0] := by decide +kernel
  obtain ⟨find, hfind, hfields⟩ := Option.map_eq_some_iff.mp hsearch
  obtain ⟨⟨r, tree'⟩, hr, hsiblings⟩ := Option.map_eq_some_iff.mp hinsert
  injection hfields with hfound hnone
  refine ⟨find, r, tree', eq_ok_of_toOption hfind, hfound,
    eq_ok_of_toOption hr, hnone, hsiblings, fun hdescribes => ?_⟩
  have hsame := hdescribes.siblings
  rw [hnone, hsiblings] at hsame
  cases hsame

end Enclave.Prover

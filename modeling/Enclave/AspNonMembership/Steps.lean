import Enclave.AspNonMembership.Operations

/-! # What one call does to the stored tree

For each operation: which subtrees its trace writes and removes, and that afterwards the storage
represents the new tree.  Insertions, value-changing updates, and deletions that promote nothing
also leave no entry behind that is not a subtree of the new tree. -/

namespace Enclave.AspNonMembership

open Trie

variable {P : Poseidon2} {env : Env Store} {t : Tree} {S : Set Tree} {k v w : F}

theorem ne_empty_of_mem_subtries : ∀ {t u : Tree}, u ∈ t.subtries → u ≠ .empty
  | .leaf _ _, u, h => by rw [List.mem_singleton.mp h]; simp
  | .node l r, u, h => by
      rw [subtries, List.mem_cons, List.mem_append] at h
      rcases h with rfl | h | h
      · simp
      · exact ne_empty_of_mem_subtries h
      · exact ne_empty_of_mem_subtries h

/-- Nothing is written or removed that is not hashed. -/
def HashedFirst (ws : List Access) : Prop := ∀ u, .set u ∈ ws ∨ .remove u ∈ ws → .hash u ∈ ws

theorem HashedFirst.append {a b : List Access} (ha : HashedFirst a) (hb : HashedFirst b) :
    HashedFirst (a ++ b) := by
  intro u hu
  simp only [List.mem_append] at hu ⊢
  rcases hu with (h | h) | (h | h)
  · exact Or.inl (ha u (Or.inl h))
  · exact Or.inr (hb u (Or.inl h))
  · exact Or.inl (ha u (Or.inr h))
  · exact Or.inr (hb u (Or.inr h))

theorem HashedFirst.pathTrace {g : ℕ → List Tree → List Access} (hg : ∀ j r, HashedFirst (g j r))
    {i : ℕ} {sibs : List Tree} : HashedFirst (pathTrace g i sibs) := by
  intro u hu
  simp only [mem_pathTrace] at hu ⊢
  rcases hu with ⟨x, hx, h⟩ | ⟨x, hx, h⟩
  · exact ⟨x, hx, hg _ _ u (Or.inl h)⟩
  · exact ⟨x, hx, hg _ _ u (Or.inr h)⟩

theorem touched_of_subtries (h : Represents P env t S) (ws : List Access) {u : Tree}
    (hu : u ∈ t.subtries) : u ≠ .empty ∧ Hashed P (runAll P ws env) u :=
  ⟨ne_empty_of_mem_subtries hu, (h.hashed_of_mem hu).mono (hashed_subset_runAll P ws env)⟩

/-- Trees put together from old subtrees by hashing the rest are hashed. -/
theorem touched_of_hashed (h : Represents P env t S) {ws : List Access} {X : Tree}
    (hX : ∀ u ∈ X.subtries, .hash u ∈ ws ∨ u ∈ t.subtries) {u : Tree} (hu : u ∈ X.subtries) :
    u ≠ .empty ∧ Hashed P (runAll P ws env) u :=
  ⟨ne_empty_of_mem_subtries hu, hashed_runAll P fun w hw =>
    (hX w (subtries_trans hu hw)).imp_right h.hashed_of_mem⟩

/-! ### Insertion -/

theorem set_mem_insertTrace {u : Tree} : .set u ∈ insertTrace k v t ↔ u = .leaf k v ∨
    u ∈ spine (keyBit k) (walk (keyBit k) 0 t).1.length
      (forkSiblings k (walk (keyBit k) 0 t).1.length (walk (keyBit k) 0 t).2) (.leaf k v) ∨
    u ∈ spine (keyBit k) 0 (walk (keyBit k) 0 t).1
      (plug (keyBit k) (walk (keyBit k) 0 t).1.length
        (forkSiblings k (walk (keyBit k) 0 t).1.length (walk (keyBit k) 0 t).2) (.leaf k v)) := by
  simp [insertTrace, mem_pathTrace, storeAccesses, rebuildAccesses, mem_spine_iff]

theorem remove_mem_insertTrace {u : Tree} : .remove u ∈ insertTrace k v t ↔
    u ∈ spine (keyBit k) 0 (walk (keyBit k) 0 t).1 (walk (keyBit k) 0 t).2 := by
  simp [insertTrace, mem_pathTrace, storeAccesses, rebuildAccesses, mem_spine_iff]

theorem hashedFirst_insertTrace : HashedFirst (insertTrace k v t) := by
  have hstore : ∀ j r, HashedFirst (storeAccesses (keyBit k) (.leaf k v) j r) := by
    intro j r u
    simp [storeAccesses]
  have hrebuild : ∀ old new j r, HashedFirst (rebuildAccesses (keyBit k) old new j r) := by
    intro old new j r u
    simp [rebuildAccesses, or_comm]
  have hhead : HashedFirst [.hash (walk (keyBit k) 0 t).2, .hash (.leaf k v), .set (.leaf k v)] := by
    intro u
    simp only [List.mem_cons, List.not_mem_nil, reduceCtorEq, Access.set.injEq,
      Access.hash.injEq, or_false, false_or]
    exact Or.inr
  exact hhead.append ((HashedFirst.pathTrace hstore).append (HashedFirst.pathTrace (hrebuild _ _)))

theorem forkSiblings_cases {n : ℕ} {e s : Tree} (h : s ∈ forkSiblings k n e) :
    s = .empty ∨ s = e := by
  cases e <;> simp only [forkSiblings, List.mem_append, List.mem_replicate, List.mem_singleton,
    List.not_mem_nil] at h
  rcases h with ⟨-, rfl⟩ | rfl
  · exact Or.inl rfl
  · exact Or.inr rfl

theorem mem_subtries_insertTree {u : Tree} : u ∈ (insertTree k v t).subtries ↔
    .set u ∈ insertTrace k v t ∨ (∃ s ∈ (walk (keyBit k) 0 t).1, u ∈ s.subtries) ∨
      ∃ s ∈ forkSiblings k (walk (keyBit k) 0 t).1.length (walk (keyBit k) 0 t).2,
        u ∈ s.subtries := by
  rw [insertTree, plug_append, Nat.zero_add, mem_subtries_plug, mem_subtries_plug,
    set_mem_insertTrace, subtries, List.mem_singleton]
  have hor : ∀ A B C D E : Prop, A ∨ B ∨ C ∨ D ∨ E ↔ (E ∨ C ∨ A) ∨ B ∨ D := by intros; tauto
  exact hor _ _ _ _ _

theorem new_insertTrace : ∀ u ∈ (insertTree k v t).subtries,
    .set u ∈ insertTrace k v t ∨ u ∈ t.subtries := by
  intro u hu
  rcases mem_subtries_insertTree.mp hu with h | h | ⟨s, hs, h⟩
  · exact Or.inl h
  · exact Or.inr (mem_subtries_of_walk _ (Or.inl h))
  · rcases forkSiblings_cases hs with rfl | rfl
    · exact absurd h List.not_mem_nil
    · exact Or.inr (mem_subtries_of_walk _ (Or.inr h))

theorem removed_insertTrace {u : Tree} (hu : .remove u ∈ insertTrace k v t) : u ∈ t.subtries := by
  rw [← plug_walk (keyBit k) 0 t]
  exact (mem_subtries_plug _ u _ 0 _).mpr (Or.inl (remove_mem_insertTrace.mp hu))

theorem gone_insertTrace (hc : t.Canon keyBit 0) (hk : ∀ v, ¬ t.Has k v) :
    ∀ u ∈ (insertTree k v t).subtries, .remove u ∉ insertTrace k v t := by
  intro u hu hr
  have hleaf : (Trie.leaf k v : Tree).Has k v := ⟨rfl, rfl⟩
  rw [remove_mem_insertTrace] at hr
  rw [insertTree, plug_append] at hu
  refine @not_mem_subtries_plug _ _ keyBit (keyBit k) _ _ _ _ _ k v
    ?_ ?_ ?_ ?_ hr hu
  · rw [plug_walk]; exact hc
  · rw [plug_walk]; exact hk
  · intro x hx hnode
    rcases (mem_subtries_plug _ _ _ _ _).mp hx with h | ⟨s, hs, h⟩ | h
    · exact ⟨v, has_of_mem_spine _ hleaf h⟩
    · -- the siblings of a fork are empty or a leaf
      rcases forkSiblings_cases hs with rfl | rfl
      · exact absurd h List.not_mem_nil
      · rcases walk_end (keyBit k) 0 t with hw | ⟨a, b, hw⟩ <;> rw [hw] at h
        · exact absurd h List.not_mem_nil
        · rw [List.mem_singleton.mp h] at hnode; exact absurd hnode id
    · exact ⟨v, by rw [List.mem_singleton.mp h]; exact hleaf⟩
  · exact (has_plug _ _ _ _ _ _).mpr (Or.inr hleaf)

/-- **After an insertion** the storage holds the tree with the new leaf. -/
theorem Represents.insert (h : Represents P env t S) (hk : ∀ v, ¬ t.Has k v) (event : U256 → Event)
    (hsep : Separated P (commit P (insertTree k v t) event (runAll P (insertTrace k v t) env))) :
    Represents P (commit P (insertTree k v t) event (runAll P (insertTrace k v t) env))
      (insertTree k v t) (storedAfter (insertTrace k v t) S) := by
  refine h.of_trace hsep rfl rfl rfl (canon_insertTree h.canon hk) ?_ new_insertTrace
    (gone_insertTrace h.canon hk)
  rintro u (hu | hu)
  · exact touched_of_hashed h
      (fun w hw => (new_insertTrace w hw).imp_left fun h => hashedFirst_insertTrace w (Or.inl h))
      (mem_subtries_insertTree.mpr (Or.inl hu))
  · exact touched_of_subtries h _ (removed_insertTrace hu)

theorem storedAfter_insertTrace (hc : t.Canon keyBit 0) (hk : ∀ v, ¬ t.Has k v) :
    storedAfter (insertTrace k v t) {u | u ∈ t.subtries} =
      {u | u ∈ (insertTree k v t).subtries} := by
  refine storedAfter_eq (fun u hu => mem_subtries_insertTree.mpr (Or.inl hu)) new_insertTrace
    (gone_insertTrace hc hk) fun u hu => ?_
  rw [← plug_walk (keyBit k) 0 t, mem_subtries_plug, ← remove_mem_insertTrace] at hu
  rcases hu with hu | hu | hu
  · exact Or.inr hu
  · exact Or.inl (mem_subtries_insertTree.mpr (Or.inr (Or.inl hu)))
  · refine Or.inl (mem_subtries_insertTree.mpr (Or.inr (Or.inr ⟨_, ?_, hu⟩)))
    rcases walk_end (keyBit k) 0 t with hw | ⟨a, b, hw⟩ <;> rw [hw] at hu ⊢
    · exact absurd hu List.not_mem_nil
    · simp [forkSiblings]

/-! ### Update -/

theorem set_mem_updateTrace {u : Tree} : .set u ∈ updateTrace k v w t ↔ u = .leaf k w ∨
    u ∈ spine (keyBit k) 0 (walk (keyBit k) 0 t).1 (.leaf k w) := by
  simp [updateTrace, mem_pathTrace, updateAccesses, mem_spine_iff]

theorem remove_mem_updateTrace {u : Tree} : .remove u ∈ updateTrace k v w t ↔ u = .leaf k v ∨
    u ∈ spine (keyBit k) 0 (walk (keyBit k) 0 t).1 (.leaf k v) := by
  simp [updateTrace, mem_pathTrace, updateAccesses, mem_spine_iff]

theorem hashedFirst_updateTrace : HashedFirst (updateTrace k v w t) := by
  have hlevel : ∀ j r, HashedFirst (updateAccesses (keyBit k) (.leaf k v) (.leaf k w) j r) := by
    intro j r u
    simp [updateAccesses]
  have hhead : HashedFirst [.hash (.leaf k v), .hash (.leaf k w), .set (.leaf k w),
      .remove (.leaf k v)] := by
    intro u
    simp [or_comm]
  exact hhead.append (HashedFirst.pathTrace hlevel)

theorem mem_subtries_updateTree {u : Tree} : u ∈ (updateTree k w t).subtries ↔
    .set u ∈ updateTrace k v w t ∨ ∃ s ∈ (walk (keyBit k) 0 t).1, u ∈ s.subtries := by
  rw [updateTree, mem_subtries_plug, set_mem_updateTrace, subtries, List.mem_singleton]
  simp only [or_assoc, or_comm, or_left_comm]

theorem new_updateTrace : ∀ u ∈ (updateTree k w t).subtries,
    .set u ∈ updateTrace k v w t ∨ u ∈ t.subtries := fun _ hu =>
  (mem_subtries_updateTree.mp hu).imp_right fun h => mem_subtries_of_walk _ (Or.inl h)

theorem mem_subtries_of_has (hc : t.Canon keyBit 0) (hk : t.Has k v) {u : Tree} :
    u ∈ t.subtries ↔ .remove u ∈ updateTrace k v w t ∨
      ∃ s ∈ (walk (keyBit k) 0 t).1, u ∈ s.subtries := by
  obtain ⟨hplug, -⟩ := plug_walk_of_has hc hk
  conv_lhs => rw [← hplug]
  rw [mem_subtries_plug, remove_mem_updateTrace, subtries, List.mem_singleton]
  simp only [or_assoc, or_comm, or_left_comm]

theorem gone_updateTrace (hc : t.Canon keyBit 0) (hk : t.Has k v) (hne : v ≠ w) :
    ∀ u ∈ (updateTree k w t).subtries, .remove u ∉ updateTrace k v w t := by
  intro u hu hr
  have hleaf : (Trie.leaf k v : Tree).Has k v := ⟨rfl, rfl⟩
  have huk : u.Has k v := by
    rcases remove_mem_updateTrace.mp hr with rfl | h
    · exact hleaf
    · exact has_of_mem_spine _ hleaf h
  rcases (has_updateTree hc hk k v).mp (has_of_mem_subtries huk hu) with h | h
  · exact h.1 rfl
  · exact hne h.2.symm

/-- **After a value-changing update** the storage holds the tree with the new value. -/
theorem Represents.update (h : Represents P env t S) (hk : t.Has k v) (hne : v ≠ w)
    (event : U256 → Event)
    (hsep : Separated P (commit P (updateTree k w t) event (runAll P (updateTrace k v w t) env))) :
    Represents P (commit P (updateTree k w t) event (runAll P (updateTrace k v w t) env))
      (updateTree k w t) (storedAfter (updateTrace k v w t) S) := by
  refine h.of_trace hsep rfl rfl rfl (canon_updateTree h.canon hk) ?_ new_updateTrace
    (gone_updateTrace h.canon hk hne)
  rintro u (hu | hu)
  · exact touched_of_hashed h
      (fun x hx => (new_updateTrace x hx).imp_left fun h => hashedFirst_updateTrace x (Or.inl h))
      (mem_subtries_updateTree.mpr (Or.inl hu))
  · exact touched_of_subtries h _ ((mem_subtries_of_has h.canon hk).mpr (Or.inl hu))

theorem storedAfter_updateTrace (hc : t.Canon keyBit 0) (hk : t.Has k v) (hne : v ≠ w) :
    storedAfter (updateTrace k v w t) {u | u ∈ t.subtries} =
      {u | u ∈ (updateTree k w t).subtries} := by
  refine storedAfter_eq (fun u hu => mem_subtries_updateTree.mpr (Or.inl hu)) new_updateTrace
    (gone_updateTrace hc hk hne) fun u hu => ?_
  rcases (mem_subtries_of_has hc hk).mp hu with hu | hu
  · exact Or.inr hu
  · exact Or.inl ((mem_subtries_updateTree (v := v)).mpr (Or.inr hu))

/-! ### Deletion -/

theorem set_mem_deleteTrace {u : Tree} : .set u ∈ deleteTrace k v t ↔
    ∃ x ∈ levels 0 (promoted (walk (keyBit k) 0 t).1).2,
      (prune (keyBit k) x.1 x.2 (promoted (walk (keyBit k) 0 t).1).1).IsNode ∧
        u = prune (keyBit k) x.1 x.2 (promoted (walk (keyBit k) 0 t).1).1 := by
  simp only [deleteTrace, mem_pathTrace, deleteAccesses, List.mem_cons, reduceCtorEq, false_or,
    List.mem_append, List.not_mem_nil, or_false]
  refine exists_congr fun x => and_congr_right fun _ => ?_
  split_ifs with h <;> simp [h]

theorem remove_mem_deleteTrace {u : Tree} : .remove u ∈ deleteTrace k v t ↔ u = .leaf k v ∨
    u ∈ spine (keyBit k) 0 (promoted (walk (keyBit k) 0 t).1).2 (.leaf k v) := by
  simp only [deleteTrace, mem_pathTrace, deleteAccesses, List.mem_cons, reduceCtorEq, false_or,
    List.mem_append, mem_spine_iff, Access.remove.injEq, List.not_mem_nil, or_false]
  refine or_congr_right (exists_congr fun x => and_congr_right fun _ => ?_)
  split_ifs <;> simp

theorem hashedFirst_deleteTrace : HashedFirst (deleteTrace k v t) := by
  have hlevel : ∀ new j r, HashedFirst (deleteAccesses (keyBit k) (.leaf k v) new j r) := by
    intro new j r u
    unfold deleteAccesses
    split_ifs <;> simp [or_comm]
  have hhead : HashedFirst [.hash (.leaf k v), .remove (.leaf k v)] := by
    intro u
    simp
  exact hhead.append (HashedFirst.pathTrace (hlevel _))

theorem mem_subtries_promoted {sibs : List Tree} {u : Tree} :
    (∃ s ∈ sibs, u ∈ s.subtries) ↔
      (∃ s ∈ (promoted sibs).2, u ∈ s.subtries) ∨ u ∈ (promoted sibs).1.subtries := by
  by_cases hleaf : ∃ a b, sibs.getLast? = some (.leaf a b)
  · obtain ⟨a, b, hlast⟩ := hleaf
    conv_lhs => rw [getLast_eq_append hlast]
    rw [promoted_of_leaf hlast]
    simp [or_and_right, exists_or]
  · push Not at hleaf
    rw [promoted_of_not_leaf hleaf]
    simp [subtries]

theorem mem_subtries_deleteTree {u : Tree} : u ∈ (deleteTree k t).subtries ↔
    .set u ∈ deleteTrace k v t ∨ ∃ s ∈ (walk (keyBit k) 0 t).1, u ∈ s.subtries := by
  rw [deleteTree, ← prune_promoted, mem_subtries_prune, set_mem_deleteTrace,
    @mem_subtries_promoted (walk (keyBit k) 0 t).1]

theorem new_deleteTrace : ∀ u ∈ (deleteTree k t).subtries,
    .set u ∈ deleteTrace k v t ∨ u ∈ t.subtries := fun _ hu =>
  (mem_subtries_deleteTree.mp hu).imp_right fun h => mem_subtries_of_walk _ (Or.inl h)

/-- A deletion removes only trees that hold the deleted leaf. -/
theorem gone_deleteTrace (hc : t.Canon keyBit 0) (hk : t.Has k v) :
    ∀ u ∈ (deleteTree k t).subtries, .remove u ∉ deleteTrace k v t := by
  intro u hu hr
  have hleaf : (Trie.leaf k v : Tree).Has k v := ⟨rfl, rfl⟩
  have huk : u.Has k v := by
    rcases remove_mem_deleteTrace.mp hr with rfl | h
    · exact hleaf
    · exact has_of_mem_spine _ hleaf h
  exact ((has_deleteTree hc hk k v).mp (has_of_mem_subtries huk hu)).1 rfl

/-- **After a deletion** the storage holds the tree without the key. -/
theorem Represents.delete (h : Represents P env t S) (hk : t.Has k v) (event : U256 → Event)
    (hsep : Separated P (commit P (deleteTree k t) event (runAll P (deleteTrace k v t) env))) :
    Represents P (commit P (deleteTree k t) event (runAll P (deleteTrace k v t) env))
      (deleteTree k t) (storedAfter (deleteTrace k v t) S) := by
  have hw := h.canon.has_iff_walk.mp hk
  refine h.of_trace hsep rfl rfl rfl (canon_deleteTree h.canon) ?_ new_deleteTrace
    (gone_deleteTrace h.canon hk)
  rintro u (hu | hu)
  · exact touched_of_hashed h
      (fun x hx => (new_deleteTrace x hx).imp_left fun h => hashedFirst_deleteTrace x (Or.inl h))
      (mem_subtries_deleteTree.mpr (Or.inl hu))
  · -- what is removed was put together from the siblings that stay
    refine touched_of_hashed h
      (X := plug (keyBit k) 0 (promoted (walk (keyBit k) 0 t).1).2 (.leaf k v)) ?_ ?_
    · intro x hx
      rcases (mem_subtries_plug _ _ _ _ _).mp hx with hx | hx | hx
      · exact Or.inl (hashedFirst_deleteTrace x
          (Or.inr (remove_mem_deleteTrace.mpr (Or.inr hx))))
      · exact Or.inr (mem_subtries_of_walk (keyBit k)
          (Or.inl (mem_subtries_promoted.mpr (Or.inl hx))))
      · exact Or.inr (mem_subtries_of_walk (keyBit k) (Or.inr (by rw [hw]; exact hx)))
    · rw [mem_subtries_plug]
      rcases remove_mem_deleteTrace.mp hu with rfl | hu
      · exact Or.inr (Or.inr (List.mem_singleton.mpr rfl))
      · exact Or.inl hu

/-- A deletion that promotes nothing leaves no old entry behind. -/
theorem storedAfter_deleteTrace (hc : t.Canon keyBit 0) (hk : t.Has k v)
    (hprom : ∀ a b, (walk (keyBit k) 0 t).1.getLast? ≠ some (.leaf a b)) :
    storedAfter (deleteTrace k v t) {u | u ∈ t.subtries} = {u | u ∈ (deleteTree k t).subtries} := by
  refine storedAfter_eq (fun u hu => mem_subtries_deleteTree.mpr (Or.inl hu)) new_deleteTrace
    (gone_deleteTrace hc hk) fun u hu => ?_
  rcases (mem_subtries_of_has (w := v) hc hk).mp hu with hu | hu
  · right
    rw [remove_mem_deleteTrace, promoted_of_not_leaf hprom]
    exact remove_mem_updateTrace.mp hu
  · exact Or.inl ((mem_subtries_deleteTree (v := v)).mpr (Or.inr hu))

end Enclave.AspNonMembership

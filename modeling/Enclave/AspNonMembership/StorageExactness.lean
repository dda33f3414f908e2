import Enclave.AspNonMembership.Refinement

/-! # Which node entries are stored

`node_entries_exact`: in a run that never promotes a sibling leaf, the `Node` entries are exactly
the nodes reachable from `Root`.  A deletion that promotes one recomputes the old path without
the promoted sibling, so it removes addresses nothing was stored at and keeps the old branches
(`old_root_entry_remains`).  No run loses a reachable node: that is part of `Represents`. -/

namespace Enclave.AspNonMembership

open Trie

variable {P : Poseidon2} {admin : Address} {env env' : Env Store} {ops : List Op}

/-- The storage keys of the nodes reachable from the root. -/
inductive Reachable (s : Store) : U256 → Prop
  | root {h : U256} : s.root = some h → h ≠ 0 → Reachable s h
  | left {h left right : U256} : Reachable s h → s.node h = some [left, right] → left ≠ 0 →
      Reachable s left
  | right {h left right : U256} : Reachable s h → s.node h = some [left, right] → right ≠ 0 →
      Reachable s right

/-- The call deletes a leaf whose last sibling is a leaf. -/
def Op.Promotes (env : Env Store) : Op → Prop
  | .delete key => ∃ find sibling k v,
      findKeyInternal env.store.node key.val (splitBits key.val) (env.store.root.getD 0) =
        .ok find ∧
      find.siblings.getLast? = some sibling ∧ env.store.node sibling = some [1, k, v]
  | _ => False

theorem Represents.promotes {t : Tree} {S : Set Tree} (h : Represents P env t S)
    (hsep : Separated P env) {op : Op} (hp : op.PromotesIn t) : op.Promotes env := by
  cases op with
  | insert k v => exact hp
  | update k v => exact hp
  | delete k =>
      obtain ⟨a, b, hlast⟩ := hp
      have hmem : Trie.leaf a b ∈ t.subtries := by
        refine mem_subtries_of_walk (keyBit k) (Or.inl ⟨_, List.mem_of_getLast? hlast, ?_⟩)
        exact List.mem_singleton.mpr rfl
      refine ⟨_, address P (.leaf a b), a.val, b.val, h.findKeyInternal_eq hsep k.val, ?_,
        h.stored.get (h.complete _ hmem)⟩
      rw [searchResult_siblings, List.getLast?_map]
      exact congrArg (Option.map (address P)) hlast

theorem Represents.reachable_subtries {t : Tree} {S : Set Tree} (h : Represents P env t S)
    (hsep : Separated P env) : ∀ {u : Tree}, (∀ w ∈ u.subtries, w ∈ t.subtries) →
      (u ≠ .empty → Reachable env.store (address P u)) →
      ∀ w ∈ u.subtries, Reachable env.store (address P w)
  | .empty, _, _, w, hw => absurd hw List.not_mem_nil
  | .leaf k v, _, hr, w, hw => by
      rw [List.mem_singleton.mp hw]
      exact hr (by simp)
  | .node l r, hsub, hr, w, hw => by
      have hself : Trie.node l r ∈ (Trie.node l r : Tree).subtries := List.mem_cons_self
      have hnode : env.store.node (address P (.node l r)) = some [address P l, address P r] :=
        h.stored.get (h.complete _ (hsub _ hself))
      have htop := hr (by simp)
      have hl : ∀ w ∈ l.subtries, w ∈ (Trie.node l r : Tree).subtries := fun w hw =>
        List.mem_cons_of_mem _ (List.mem_append_left _ hw)
      have hrr : ∀ w ∈ r.subtries, w ∈ (Trie.node l r : Tree).subtries := fun w hw =>
        List.mem_cons_of_mem _ (List.mem_append_right _ hw)
      have hne : ∀ u : Tree, (∀ w ∈ u.subtries, w ∈ (Trie.node l r : Tree).subtries) →
          u ≠ .empty → address P u ≠ 0 := by
        intro u hu hne
        exact hsep.address_ne_zero (h.hashed_of_subtries fun w hw => hsub w (hu w hw)) hne
      rw [subtries, List.mem_cons, List.mem_append] at hw
      rcases hw with rfl | hw | hw
      · exact htop
      · exact h.reachable_subtries hsep (fun w hw => hsub w (hl w hw))
          (fun hn => .left htop hnode (hne l hl hn)) w hw
      · exact h.reachable_subtries hsep (fun w hw => hsub w (hrr w hw))
          (fun hn => .right htop hnode (hne r hrr hn)) w hw

theorem Represents.exists_of_reachable {t : Tree} {S : Set Tree} (h : Represents P env t S)
    {a : U256} (ha : Reachable env.store a) :
    ∃ u ∈ t.subtries, address P u = a := by
  have hchild : ∀ {u : Tree} {left right : U256}, u ∈ t.subtries →
      env.store.node (address P u) = some [left, right] →
      ∃ l r, Trie.node l r ∈ t.subtries ∧ address P l = left ∧ address P r = right := by
    intro u left right hu hnode
    rw [h.stored.get (h.complete u hu), Option.some.injEq] at hnode
    cases u with
    | empty => cases hnode
    | leaf k v => cases hnode
    | node l r =>
        simp only [nodeData, List.cons.injEq, and_true] at hnode
        exact ⟨l, r, hu, hnode.1, hnode.2⟩
  have hself : ∀ {u : Tree}, (∀ w ∈ u.subtries, w ∈ t.subtries) → address P u ≠ 0 →
      u ∈ t.subtries := by
    intro u hu hne
    cases u with
    | empty => exact absurd (address_empty P) hne
    | leaf k v => exact hu _ (List.mem_singleton.mpr rfl)
    | node l r => exact hu _ List.mem_cons_self
  induction ha with
  | root hroot hne =>
      rw [h.root, Option.some.injEq] at hroot
      subst hroot
      exact ⟨t, hself (fun w hw => hw) hne, rfl⟩
  | left _ hnode hne ih =>
      obtain ⟨u, hu, rfl⟩ := ih
      obtain ⟨l, r, hlr, rfl, rfl⟩ := hchild hu hnode
      exact ⟨l, hself (fun w hw => subtries_trans hlr (List.mem_cons_of_mem _
        (List.mem_append_left _ hw))) hne, rfl⟩
  | right _ hnode hne ih =>
      obtain ⟨u, hu, rfl⟩ := ih
      obtain ⟨l, r, hlr, rfl, rfl⟩ := hchild hu hnode
      exact ⟨r, hself (fun w hw => subtries_trans hlr (List.mem_cons_of_mem _
        (List.mem_append_right _ hw))) hne, rfl⟩

/-- Storage that holds the subtrees and nothing else holds the reachable nodes and nothing else. -/
theorem Represents.isSome_iff_reachable {t : Tree} (h : Represents P env t {u | u ∈ t.subtries})
    (hsep : Separated P env) (a : U256) :
    (env.store.node a).isSome = true ↔ Reachable env.store a := by
  have hroot : t ≠ .empty → Reachable env.store (address P t) := fun hne =>
    .root h.root (hsep.address_ne_zero (h.hashed_of_subtries fun _ hw => hw) hne)
  rw [Option.isSome_iff_exists]
  constructor
  · rintro ⟨data, hdata⟩
    obtain ⟨u, hu, rfl, -⟩ := (h.stored a data).mp hdata
    exact h.reachable_subtries hsep (fun _ hw => hw) hroot u hu
  · intro ha
    obtain ⟨u, hu, rfl⟩ := h.exists_of_reachable ha
    exact ⟨_, h.stored.get hu⟩

theorem exact_of_run {t : Tree} {m : F → Option F}
    (h : Stores P admin env t {u | u ∈ t.subtries} m)
    (hrun : Run (fun env op env' => (Step P env op env' ∧ ¬ op.Promotes env) ∧ Separated P env')
      env ops env') (hsep : Separated P env) (hch : ValueChanging ops m) :
    ∃ t', Stores P admin env' t' {u | u ∈ t'.subtries} (replay ops m) ∧ Separated P env' := by
  induction hrun generalizing t m with
  | nil env => exact ⟨t, h, hsep⟩
  | cons hs _ ih =>
      obtain ⟨-, t₁, S₁, h₁, hexact⟩ := h.step hs.1.1 hch.1 hs.2
      have hS := hexact rfl fun hp => hs.1.2 (h.represents.promotes hsep hp)
      rw [hS] at h₁
      exact ih h₁ hs.2 hch.2

/-- **Storage exactness**: in a run without promoted leaves, the node entries are exactly the
nodes reachable from the root. -/
theorem node_entries_exact
    (hrun : Run (fun env op env' => Step P env op env' ∧ ¬ op.Promotes env) (constructor admin) ops
      env) (hc : P.CollisionFree {q | q ∈ env.hashed}) (hz : P.NeverZero {q | q ∈ env.hashed})
    (hch : ValueChanging ops fun _ => none) (a : U256) :
    (env.store.node a).isSome = true ↔ Reachable env.store a := by
  have hinit : Stores P admin (constructor admin) .empty {u | u ∈ (Trie.empty : Tree).subtries}
      fun _ => none := by
    simpa [subtries] using stores_constructor P admin
  obtain ⟨hrun', hsep₀⟩ := hrun.restrict (Q := Separated P)
    (fun _ _ _ hs hq => Separated.mono hq hs.1.hashed_subset)
    (separated_of_collisionFree P hc hz)
  obtain ⟨t, hst, hsep⟩ := exact_of_run hinit hrun' hsep₀ hch
  exact hst.represents.isSome_iff_reachable hsep a

/-- The search for `key` ends beside an inner node. -/
def besideNode (key : F) (env : Env Store) : Bool :=
  match findKeyInternal env.store.node key.val (splitBits key.val) (env.store.root.getD 0) with
  | .ok find => (find.siblings.getLast?.bind env.store.node).all fun data => data.length != 3
  | .error _ => false

theorem not_promotes_of_besideNode {key : F} (h : besideNode key env = true) :
    ¬ (Op.delete key).Promotes env := by
  rintro ⟨find, sibling, k, v, hfind, hlast, hnode⟩
  unfold besideNode at h
  rw [hfind] at h
  dsimp only at h
  rw [hlast, Option.bind_some, hnode] at h
  cases h

/-- Three insertions, and a deletion beside the node of the other two keys. -/
theorem node_entries_exact_smallRun : ∃ env : Env Store, env.store.root ≠ some 0 ∧
    ∀ a, (env.store.node a).isSome = true ↔ Reachable env.store a := by
  obtain ⟨env, hr, hp⟩ := @exists_reached smallPoseidon2 (.account 0)
    [.insert 1 5, .insert 3 7, .insert 2 9] [.account 0]
    (p := fun env => besideNode 2 env &&
      (runCalls smallPoseidon2 [.account 0] [.delete 2] env).toOption.any fun env' =>
        cleanLog smallPoseidon2 env'.hashed && env'.store.root != some 0) (by decide +kernel)
  rw [Bool.and_eq_true] at hp
  obtain ⟨hbeside, hp⟩ := hp
  cases hdelete : runCalls smallPoseidon2 [.account 0] [.delete 2] env with
  | error e =>
      rw [hdelete] at hp
      cases hp
  | ok env' =>
      rw [hdelete, Except.toOption, Option.any_some, Bool.and_eq_true] at hp
      obtain ⟨hc, hz⟩ := collisionFree_of_cleanLog hp.1
      have hrun : Run (fun env op env' => Step smallPoseidon2 env op env' ∧ ¬ op.Promotes env)
          (constructor (.account 0)) [.insert 1 5, .insert 3 7, .insert 2 9, .delete 2] env' := by
        cases run_of_runCalls hdelete with
        | cons h₄ hrun₄ =>
            cases hrun₄
            cases hr.run with
            | cons h₁ hrun =>
                cases hrun with
                | cons h₂ hrun =>
                    cases hrun with
                    | cons h₃ hrun =>
                        cases hrun
                        exact .cons ⟨h₁, id⟩ (.cons ⟨h₂, id⟩ (.cons ⟨h₃, id⟩
                          (.single ⟨h₄, not_promotes_of_besideNode hbeside⟩)))
      exact ⟨env', by simpa using hp.2, node_entries_exact hrun hc hz
        ⟨trivial, trivial, trivial, trivial, trivial⟩⟩

theorem reachable_stored (h : Reached P admin ops env) (hch : ValueChanging ops fun _ => none)
    {a : U256} (ha : Reachable env.store a) : (env.store.node a).isSome = true := by
  obtain ⟨t, S, hst⟩ := h.stores hch
  obtain ⟨u, hu, rfl⟩ := hst.represents.exists_of_reachable ha
  rw [hst.represents.stored.get (hst.represents.complete u hu)]
  rfl

theorem eq_of_reachable_leaf {s : Store} {r k v a : U256} (hroot : s.root = some r)
    (hleaf : s.node r = some [1, k, v]) (ha : Reachable s a) : a = r := by
  induction ha with
  | root h _ => exact Option.some.inj (h.symm.trans hroot)
  | left _ hnode _ ih => rw [ih, hleaf] at hnode; cases hnode
  | right _ hnode _ ih => rw [ih, hleaf] at hnode; cases hnode

/-- Deleting one of two leaves promotes the other and keeps the old root's entry. -/
theorem old_root_entry_remains : ∃ env oldRoot,
    Reached smallPoseidon2 (.account 0) [.insert 1 5, .insert 2 7, .delete 2] env ∧
      ValueChanging [.insert 1 5, .insert 2 7, .delete 2] (fun _ => none) ∧
      (env.store.node oldRoot).isSome = true ∧ ¬ Reachable env.store oldRoot := by
  obtain ⟨env, hr, hp⟩ := @exists_reached smallPoseidon2 (.account 0)
    [.insert 1 5, .insert 2 7, .delete 2] [.account 0]
    (p := fun env => env.store.root == some 151 && env.store.node 151 == some [1, 1, 5] &&
      (env.store.node 151010731).isSome) (by decide +kernel)
  simp only [Bool.and_eq_true, beq_iff_eq] at hp
  obtain ⟨⟨hroot, hleaf⟩, hold⟩ := hp
  refine ⟨env, 151010731, hr, ⟨trivial, trivial, trivial, trivial⟩, hold, fun hreach => ?_⟩
  exact absurd (eq_of_reachable_leaf hroot hleaf hreach) (by decide)

end Enclave.AspNonMembership

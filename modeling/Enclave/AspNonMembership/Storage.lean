import Enclave.AspNonMembership.Tree

/-! # The tree in storage

`Represents P env t S` connects the storage with the tree: the stored root is the digest of `t`,
the node entries are exactly the trees of `S`, each under its own digest, and every subtree of
`t` is among them.

What a call does to storage is a list of `Access`es in the order the code makes them.
`Represents.of_trace` reduces the preservation of the representation to inclusions between the
subtrees written, the subtrees removed and the subtrees of the new tree. -/

namespace Enclave.AspNonMembership

open Trie

variable (P : Poseidon2)

/-- The storage key of a tree. -/
def address (t : Tree) : U256 := (treeHash P t).val

/-- The contents of the node entry of a tree. -/
def nodeData : Tree → List U256
  | .empty => []
  | .leaf k v => [1, k.val, v.val]
  | .node l r => [address P l, address P r]

/-- All nodes of `t` have been hashed. -/
def Hashed (env : Env Store) (t : Tree) : Prop := ∀ q ∈ items P t, q ∈ hashedItems env

theorem hashed_empty (env : Env Store) : Hashed P env .empty := by
  intro q hq
  cases hq

variable {P} in
theorem Hashed.mono {env env' : Env Store} {t : Tree} (h : Hashed P env t)
    (hlog : env.hashed ⊆ env'.hashed) : Hashed P env' t :=
  fun q hq => hlog (h q hq)

variable {P} in
theorem Hashed.subtree {env : Env Store} {t u : Tree} (h : Hashed P env t)
    (hu : u ∈ t.subtries) : Hashed P env u :=
  fun q hq => h q (inputs_subset_of_mem_subtries hu hq)

variable {P} in
theorem Separated.mono {env env' : Env Store} (h : Separated P env')
    (hlog : env.hashed ⊆ env'.hashed) : Separated P env :=
  Separates.mono h fun _ hq => hlog hq

variable {P} in
theorem Separated.injOn {env : Env Store} (h : Separated P env) :
    Set.InjOn (address P) {u | Hashed P env u} :=
  fun _ hu _ hw he => hash_inj h hu hw (F.val_injective he)

variable {P} in
theorem Separated.address_ne_zero {env : Env Store} (h : Separated P env) {t : Tree}
    (ht : Hashed P env t) (hne : t ≠ .empty) : address P t ≠ 0 := by
  intro h0
  exact hash_ne_zero h ht hne (F.val_eq_zero_iff.mp h0)

@[simp] theorem address_empty : address P .empty = 0 := ZMod.val_zero

/-! ### Accesses -/

/-- What a call does to node storage, step by step. -/
inductive Access where
  | hash (t : Tree)
  | set (t : Tree)
  | remove (t : Tree)

def topQuery (t : Tree) : List Query := ((t.top (itemHash P) 0).map toQuery).toList

def Access.run : Access → Env Store → Env Store
  | .hash t, env => { env with hashed := topQuery P t ++ env.hashed }
  | .set t, env =>
      { env with store := { env.store with
          node := Function.update env.store.node (address P t) (some (nodeData P t)) } }
  | .remove t, env =>
      { env with store := { env.store with
          node := Function.update env.store.node (address P t) none } }

def runAll (ws : List Access) (env : Env Store) : Env Store :=
  ws.foldl (fun env w => w.run P env) env

/-- The trees that are stored after a list of accesses. -/
def storedAfter (ws : List Access) (S : Set Tree) : Set Tree :=
  ws.foldl (fun S w => match w with
    | .hash _ => S
    | .set t => insert t S
    | .remove t => S \ {t}) S

@[simp] theorem runAll_nil (env : Env Store) : runAll P [] env = env := rfl

@[simp] theorem runAll_cons (w : Access) (ws : List Access) (env : Env Store) :
    runAll P (w :: ws) env = runAll P ws (w.run P env) := rfl

theorem runAll_append (a b : List Access) (env : Env Store) :
    runAll P (a ++ b) env = runAll P b (runAll P a env) := List.foldl_append

theorem run_frame (w : Access) (env : Env Store) : (w.run P env).store.admin = env.store.admin ∧
    (w.run P env).store.root = env.store.root ∧ (w.run P env).store.events = env.store.events := by
  cases w <;> exact ⟨rfl, rfl, rfl⟩

theorem runAll_frame : ∀ (ws : List Access) (env : Env Store),
    (runAll P ws env).store.admin = env.store.admin ∧
      (runAll P ws env).store.root = env.store.root ∧
        (runAll P ws env).store.events = env.store.events
  | [], _ => ⟨rfl, rfl, rfl⟩
  | w :: ws, env => by
      obtain ⟨h1, h2, h3⟩ := runAll_frame ws (w.run P env)
      obtain ⟨e1, e2, e3⟩ := run_frame P w env
      exact ⟨h1.trans e1, h2.trans e2, h3.trans e3⟩

theorem mem_hashed_runAll {q : Query} : ∀ {ws : List Access} {env : Env Store},
    q ∈ (runAll P ws env).hashed ↔ (∃ t, .hash t ∈ ws ∧ q ∈ topQuery P t) ∨ q ∈ env.hashed
  | [], _ => by simp
  | w :: ws, env => by
      rw [runAll_cons, mem_hashed_runAll]
      cases w <;> simp [Access.run, or_and_right, exists_or, or_left_comm, or_assoc]

theorem hashed_subset_runAll (ws : List Access) (env : Env Store) :
    env.hashed ⊆ (runAll P ws env).hashed :=
  fun _ hq => (mem_hashed_runAll P).mpr (Or.inr hq)

theorem hashed_runAll {ws : List Access} {env : Env Store} {t : Tree}
    (h : ∀ u ∈ t.subtries, .hash u ∈ ws ∨ Hashed P env u) : Hashed P (runAll P ws env) t := by
  intro q hq
  obtain ⟨u, hu, htop⟩ := mem_inputs_iff.mp hq
  rcases h u hu with hacc | hold
  · exact (mem_hashed_runAll P).mpr (Or.inl ⟨u, hacc, by simp [topQuery, htop]⟩)
  · exact (mem_hashed_runAll P).mpr (Or.inr (hold q (top_mem_inputs htop)))

theorem mem_storedAfter_of_set {t : Tree} : ∀ {ws : List Access} {S : Set Tree},
    .set t ∈ ws ∨ t ∈ S → .remove t ∉ ws → t ∈ storedAfter ws S
  | [], S, h, _ => by simpa [storedAfter] using h
  | w :: ws, S, h, hr => by
      have hr' : .remove t ∉ ws := fun h' => hr (List.mem_cons_of_mem _ h')
      refine @mem_storedAfter_of_set t ws _ ?_ hr'
      cases w with
      | hash q => simpa using h
      | set u =>
          simp only [List.mem_cons, Access.set.injEq, Set.mem_insert_iff] at h ⊢
          tauto
      | remove u =>
          have hne : t ≠ u := fun e => hr (by rw [e]; exact List.mem_cons_self)
          simp only [List.mem_cons, reduceCtorEq, false_or, Set.mem_sdiff,
            Set.mem_singleton_iff] at h ⊢
          tauto

theorem of_mem_storedAfter {t : Tree} : ∀ {ws : List Access} {S : Set Tree},
    t ∈ storedAfter ws S → .set t ∈ ws ∨ t ∈ S ∧ .remove t ∉ ws
  | [], S, h => by simpa [storedAfter] using h
  | w :: ws, S, h => by
      have ih := @of_mem_storedAfter t ws _ h
      cases w with
      | hash q => simpa using ih
      | set u =>
          simp only [List.mem_cons, Access.set.injEq, Set.mem_insert_iff, reduceCtorEq,
            false_or] at ih ⊢
          tauto
      | remove u =>
          simp only [List.mem_cons, Access.remove.injEq, reduceCtorEq, false_or, Set.mem_sdiff,
            Set.mem_singleton_iff] at ih ⊢
          tauto

/-- Accesses to hashed trees keep the store realised. -/
theorem realises_runAll {Q : Set Tree} (inj : Set.InjOn (address P) Q) :
    ∀ {ws : List Access} {env : Env Store} {S : Set Tree},
      Realises (address P) (nodeData P) env.store.node S → S ⊆ Q →
      (∀ t, .set t ∈ ws ∨ .remove t ∈ ws → t ∈ Q) →
      Realises (address P) (nodeData P) (runAll P ws env).store.node (storedAfter ws S)
  | [], _, _, h, _, _ => h
  | w :: ws, env, S, h, hS, hws => by
      have hrest : ∀ t, .set t ∈ ws ∨ .remove t ∈ ws → t ∈ Q := fun t ht =>
        hws t (ht.imp (List.mem_cons_of_mem _) (List.mem_cons_of_mem _))
      cases w with
      | hash q => exact @realises_runAll _ inj _ (Access.run P (.hash q) env) _ h hS hrest
      | set t =>
          have hin : insert t S ⊆ Q := Set.insert_subset (hws t (by simp)) hS
          exact @realises_runAll _ inj _ (Access.run P (.set t) env) _
            (h.set (inj.mono hin)) hin hrest
      | remove t =>
          have hin : insert t S ⊆ Q := Set.insert_subset (hws t (by simp)) hS
          exact @realises_runAll _ inj _ (Access.run P (.remove t) env) _
            (h.remove (inj.mono hin)) (Set.sdiff_subset.trans hS) hrest

/-! ### Representation -/

/-- The storage holds the tree `t`, and its node entries are those of the trees in `S`. -/
structure Represents (env : Env Store) (t : Tree) (S : Set Tree) : Prop where
  canon : t.Canon keyBit 0
  root : env.store.root = some (address P t)
  stored : Realises (address P) (nodeData P) env.store.node S
  hashed : ∀ u ∈ S, u ≠ .empty ∧ Hashed P env u
  complete : ∀ u ∈ t.subtries, u ∈ S

variable {P}

theorem Represents.hashed_of_mem {env : Env Store} {t u : Tree} {S : Set Tree}
    (h : Represents P env t S) (hu : u ∈ t.subtries) : Hashed P env u :=
  (h.hashed u (h.complete u hu)).2

theorem Represents.hashed_of_subtries {env : Env Store} {t u : Tree} {S : Set Tree}
    (h : Represents P env t S) (hu : ∀ w ∈ u.subtries, w ∈ t.subtries) : Hashed P env u := by
  cases u with
  | empty => exact hashed_empty P env
  | leaf k v => exact h.hashed_of_mem (hu _ (by simp [subtries]))
  | node l r => exact h.hashed_of_mem (hu _ (by simp [subtries]))

/-- **A trace of accesses keeps the representation**, with `t'` for `t`: all trees touched are
hashed, the trees written are subtrees of `t'`, which are written or old, and none of them is
removed. -/
theorem Represents.of_trace {env env' : Env Store} {t t' : Tree} {S : Set Tree}
    (h : Represents P env t S) {ws : List Access} (hsep : Separated P env')
    (hnode : env'.store.node = (runAll P ws env).store.node)
    (hlog : env'.hashed = (runAll P ws env).hashed)
    (hroot : env'.store.root = some (address P t')) (hcanon : t'.Canon keyBit 0)
    (htouched : ∀ u, .set u ∈ ws ∨ .remove u ∈ ws → u ≠ .empty ∧ Hashed P env' u)
    (hnew : ∀ u ∈ t'.subtries, .set u ∈ ws ∨ u ∈ t.subtries)
    (hgone : ∀ u ∈ t'.subtries, .remove u ∉ ws) :
    Represents P env' t' (storedAfter ws S) := by
  have hsub : env.hashed ⊆ env'.hashed := by
    rw [hlog]; exact hashed_subset_runAll P ws env
  have hS : S ⊆ {u | Hashed P env' u} := fun u hu => (h.hashed u hu).2.mono hsub
  have hreal := realises_runAll P hsep.injOn h.stored hS fun u hu => (htouched u hu).2
  refine ⟨hcanon, hroot, ?_, ?_, ?_⟩
  · rw [hnode]; exact hreal
  · intro u hu
    rcases of_mem_storedAfter hu with hset | ⟨hold, -⟩
    · exact htouched u (Or.inl hset)
    · exact ⟨(h.hashed u hold).1, hS hold⟩
  · intro u hu
    exact mem_storedAfter_of_set ((hnew u hu).imp_right (h.complete u)) (hgone u hu)

/-- The trace leaves exactly the new tree if it started from exactly the old one, writes only
subtrees of the new tree and removes every other subtree of the old one. -/
theorem storedAfter_eq {t t' : Tree} {ws : List Access}
    (hset : ∀ u, .set u ∈ ws → u ∈ t'.subtries)
    (hnew : ∀ u ∈ t'.subtries, .set u ∈ ws ∨ u ∈ t.subtries)
    (hgone : ∀ u ∈ t'.subtries, .remove u ∉ ws)
    (hold : ∀ u ∈ t.subtries, u ∈ t'.subtries ∨ .remove u ∈ ws) :
    storedAfter ws {u | u ∈ t.subtries} = {u | u ∈ t'.subtries} := by
  ext u
  constructor
  · intro hu
    rcases of_mem_storedAfter hu with h | ⟨h, hr⟩
    · exact hset u h
    · exact (hold u h).resolve_right hr
  · intro hu
    exact mem_storedAfter_of_set (hnew u hu) (hgone u hu)

end Enclave.AspNonMembership

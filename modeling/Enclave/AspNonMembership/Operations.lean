import Enclave.AspNonMembership.Storage

/-! # The contract's operations on the stored tree

On storage that represents a tree, `findKeyInternal` is the search of the tree
(`Represents.findKeyInternal_eq`), and each of `insertLeaf`, `updateLeaf` and `deleteLeaf`
succeeds, makes the accesses of its trace and commits the root of the tree with the key
inserted, updated or deleted (`insertLeaf_apply`, `updateLeaf_apply`, `deleteLeaf_apply`).

The three loops are instances of one rule, `loop_apply`: a loop over the siblings of a path,
last sibling first, makes the accesses of its levels in that order. -/

namespace Enclave.AspNonMembership

open Trie

variable (P : Poseidon2)

/-! ### Search -/

/-- What the search reports: the siblings passed and the end of the path. -/
def searchResult (key : U256) (w : List Tree × Tree) : FindResult :=
  match w.2 with
  | .leaf k v =>
      if k.val = key then
        { found := true, siblings := w.1.map (address P), foundValue := v.val, notFoundKey := 0,
          notFoundValue := 0, isOld0 := false }
      else
        { found := false, siblings := w.1.map (address P), foundValue := 0, notFoundKey := k.val,
          notFoundValue := v.val, isOld0 := false }
  | _ =>
      { found := false, siblings := w.1.map (address P), foundValue := 0, notFoundKey := key,
        notFoundValue := 0, isOld0 := true }

theorem searchResult_cons (key : U256) (s : Tree) (w : List Tree × Tree) :
    searchResult P key (s :: w.1, w.2) = { searchResult P key w with
      siblings := address P s :: (searchResult P key w).siblings } := by
  obtain ⟨sibs, e⟩ := w
  cases e <;> simp only [searchResult, List.map_cons]
  split_ifs <;> rfl

@[simp] theorem searchResult_siblings (key : U256) (w : List Tree × Tree) :
    (searchResult P key w).siblings = w.1.map (address P) := by
  obtain ⟨sibs, e⟩ := w
  cases e <;> simp only [searchResult]
  split_ifs <;> rfl

theorem findKeyInternal_node {node : U256 → Option (List U256)} {key root : U256} {b : Bool}
    {bits : List Bool} {l r : U256} (h0 : root ≠ 0) (hn : node root = some [l, r]) :
    findKeyInternal node key (b :: bits) root =
      (findKeyInternal node key bits (if b then r else l)).map fun result =>
        { result with siblings := (if b then l else r) :: result.siblings } := by
  rw [findKeyInternal, if_neg h0, hn]
  rfl

variable {P}

theorem findKeyInternal_eq {node : U256 → Option (List U256)} {S : Set Tree}
    (hreal : Realises (address P) (nodeData P) node S) {key : U256} :
    ∀ {t : Tree} {i : ℕ}, t.Canon keyBit i → i ≤ 254 → (∀ u ∈ t.subtries, u ∈ S) →
      (∀ u ∈ t.subtries, address P u ≠ 0) →
      findKeyInternal node key ((splitBits key).drop i) (address P t) =
        .ok (searchResult P key (walk key.testBit i t))
  | .empty, _, _, _, _, _ => by
      rw [findKeyInternal, address_empty, if_pos rfl]
      rfl
  | .leaf k v, _, _, _, hS, h0 => by
      have hself : Trie.leaf k v ∈ (Trie.leaf k v : Tree).subtries := List.mem_singleton.mpr rfl
      rw [findKeyInternal, if_neg (h0 _ hself), hreal.get (hS _ hself)]
      simp only [nodeData, if_true, walk, searchResult, List.map_nil]
      split_ifs <;> rfl
  | .node l r, i, hc, hi, hS, h0 => by
      have hself : Trie.node l r ∈ (Trie.node l r : Tree).subtries := List.mem_cons_self
      have hlt := hc.level_lt keyBit_bound trivial
      obtain ⟨-, -, -, cl, cr⟩ := hc
      have hl : ∀ u ∈ l.subtries, u ∈ (Trie.node l r : Tree).subtries := fun u hu =>
        List.mem_cons_of_mem _ (List.mem_append_left _ hu)
      have hr : ∀ u ∈ r.subtries, u ∈ (Trie.node l r : Tree).subtries := fun u hu =>
        List.mem_cons_of_mem _ (List.mem_append_right _ hu)
      rw [drop_splitBits (by omega), findKeyInternal_node (h0 _ hself) (hreal.get (hS _ hself))]
      cases hb : key.testBit i
      · have ih := @findKeyInternal_eq _ _ hreal key _ _ cl (by omega) (fun u hu => hS u (hl u hu))
          (fun u hu => h0 u (hl u hu))
        simp only [Bool.false_eq_true, if_false, ih, walk, hb, searchResult_cons]
        rfl
      · have ih := @findKeyInternal_eq _ _ hreal key _ _ cr (by omega) (fun u hu => hS u (hr u hu))
          (fun u hu => h0 u (hr u hu))
        simp only [if_true, ih, walk, hb, searchResult_cons]
        rfl

/-- **The contract's search is the search of the tree it stores.** -/
theorem Represents.findKeyInternal_eq {env : Env Store} {t : Tree} {S : Set Tree}
    (h : Represents P env t S) (hsep : Separated P env) (key : U256) :
    findKeyInternal env.store.node key (splitBits key) (env.store.root.getD 0) =
      .ok (searchResult P key (walk key.testBit 0 t)) := by
  rw [h.root, Option.getD_some, ← List.drop_zero (l := splitBits key)]
  exact AspNonMembership.findKeyInternal_eq h.stored h.canon (by decide) h.complete fun u hu =>
    hsep.address_ne_zero (h.hashed_of_mem hu) (h.hashed u (h.complete u hu)).1

theorem Represents.findKey_apply {env : Env Store} {t : Tree} {S : Set Tree}
    (h : Represents P env t S) (hsep : Separated P env) (key : U256) :
    findKey key env = .ok (searchResult P key (walk key.testBit 0 t), env) := by
  rw [findKey, Host.bind_of_ok (Host.getStore_apply env), h.findKeyInternal_eq hsep key]
  rfl

theorem mem_subtries_of_walk {t u : Tree} (p : ℕ → Bool)
    (h : (∃ s ∈ (walk p 0 t).1, u ∈ s.subtries) ∨ u ∈ (walk p 0 t).2.subtries) :
    u ∈ t.subtries := by
  rw [← plug_walk p 0 t]
  exact (mem_subtries_plug p u _ 0 _).mpr (Or.inr h)

theorem Represents.hashed_walk {env : Env Store} {t : Tree} {S : Set Tree}
    (h : Represents P env t S) (p : ℕ → Bool) :
    (∀ s ∈ (walk p 0 t).1, Hashed P env s) ∧ Hashed P env (walk p 0 t).2 :=
  ⟨fun s hs => h.hashed_of_subtries fun _ hu => mem_subtries_of_walk p (Or.inl ⟨s, hs, hu⟩),
    h.hashed_of_subtries fun _ hu => mem_subtries_of_walk p (Or.inr hu)⟩

/-! ### Hashing and storing -/

variable (P)

theorem one_val : ((1 : F).val : ℕ) = 1 := ZMod.val_one _

theorem hashLeaf_apply (k v : F) (env : Env Store) :
    hashLeaf P k.val v.val env =
      .ok (address P (.leaf k v), runAll P [.hash (.leaf k v)] env) := by
  have h := poseidon2Hash2_apply (ε := Error) P k v 1 env
  rw [one_val] at h
  exact h

theorem hashInternal_apply (l r : Tree) (env : Env Store) :
    hashInternal P (address P l) (address P r) env =
      .ok (address P (.node l r), runAll P [.hash (.node l r)] env) :=
  poseidon2Compress_apply P (treeHash P l) (treeHash P r) env

theorem storeParent_apply (b : Bool) (s t : Tree) (env : Env Store) :
    storeParent P b (address P s) (address P t) env =
      .ok (address P (branch b s t),
        runAll P [.hash (branch b s t), .set (branch b s t)] env) := by
  cases b
  · exact Host.bind_of_ok (hashInternal_apply P t s env) fun hash =>
      setNode hash [address P t, address P s] >>= fun _ => pure hash
  · exact Host.bind_of_ok (hashInternal_apply P s t env) fun hash =>
      setNode hash [address P s, address P t] >>= fun _ => pure hash

theorem removeParent_apply (b : Bool) (s t : Tree) (env : Env Store) :
    removeParent P b (address P s) (address P t) env =
      .ok (address P (branch b s t),
        runAll P [.hash (branch b s t), .remove (branch b s t)] env) := by
  cases b
  · exact Host.bind_of_ok (hashInternal_apply P t s env) fun hash =>
      removeNode hash >>= fun _ => pure hash
  · exact Host.bind_of_ok (hashInternal_apply P s t env) fun hash =>
      removeNode hash >>= fun _ => pure hash

/-! ### Loops over a path -/

/-- The accesses of a loop over the siblings of a path, last level first. -/
def pathTrace (g : ℕ → List Tree → List Access) : ℕ → List Tree → List Access
  | _, [] => []
  | i, s :: sibs => pathTrace g (i + 1) sibs ++ g i (s :: sibs)

theorem mem_pathTrace {g : ℕ → List Tree → List Access} {w : Access} :
    ∀ {i : ℕ} {sibs : List Tree}, w ∈ pathTrace g i sibs ↔ ∃ x ∈ levels i sibs, w ∈ g x.1 x.2
  | i, [] => by simp [pathTrace, levels]
  | i, s :: sibs => by
      rw [pathTrace, List.mem_append, mem_pathTrace (i := i + 1), levels]
      simp [or_comm]

/-- **Loop rule.** If the body at a level turns the state below it into the state at it and
makes the accesses `g`, the loop makes the accesses of all levels, last level first. -/
theorem loop_apply {σ : Type} (loop : ℕ → List U256 → σ → Call σ) (step : ℕ → U256 → σ → Call σ)
    (hnil : ∀ i s, loop i [] s = pure s)
    (hcons : ∀ i a r s, loop i (a :: r) s = loop (i + 1) r s >>= step i a)
    (g : ℕ → List Tree → List Access) (st : ℕ → List Tree → σ) :
    ∀ {i : ℕ} {sibs : List Tree} (env : Env Store),
      (∀ j s r env, (j, s :: r) ∈ levels i sibs →
        step j (address P s) (st (j + 1) r) env =
          .ok (st j (s :: r), runAll P (g j (s :: r)) env)) →
      loop i (sibs.map (address P)) (st (i + sibs.length) []) env =
        .ok (st i sibs, runAll P (pathTrace g i sibs) env)
  | i, [], env, _ => by rw [List.map_nil, hnil]; rfl
  | i, s :: sibs, env, hstep => by
      have ih := loop_apply loop step hnil hcons g st (i := i + 1) env
        fun j s r env h => hstep j s r env (List.mem_cons_of_mem _ h)
      rw [show i + 1 + sibs.length = i + (s :: sibs).length by rw [List.length_cons]; omega] at ih
      rw [List.map_cons, hcons, Host.bind_of_ok ih, hstep i s sibs _ List.mem_cons_self, pathTrace,
        runAll_append]

theorem unwrap_testBit {α : Type} (key : U256) {j : ℕ} (hj : j < 256) (f : Bool → Call α)
    (env : Env Store) :
    (Host.unwrap (splitBits key)[j]? >>= f) env = f (key.testBit j) env := by
  rw [getElem?_splitBits hj, Host.bind_of_ok (Host.unwrap_some _ env)]

theorem unwrap_bit {α : Type} (k : F) {j : ℕ} (hj : j < 256) (f : Bool → Call α)
    (env : Env Store) :
    (Host.unwrap (splitBits k.val)[j]? >>= f) env = f (keyBit k j) env :=
  unwrap_testBit k.val hj f env

/-! ### Insertion -/

/-- The state of `insertLeaf`'s loop at level `j`, with `old` and `new` at the end of the path. -/
def rebuildState (p : ℕ → Bool) (old new : Tree) (mixed : Bool) (j : ℕ) (r : List Tree) :
    PathState :=
  ⟨address P (plug p j r new), address P (plug p j r old), mixed || !r.isEmpty⟩

@[simp] theorem rebuildState_rt (p : ℕ → Bool) (old new : Tree) (mixed : Bool) (j : ℕ)
    (r : List Tree) : (rebuildState P p old new mixed j r).rt = address P (plug p j r new) := rfl

@[simp] theorem rebuildState_rtOld (p : ℕ → Bool) (old new : Tree) (mixed : Bool) (j : ℕ)
    (r : List Tree) : (rebuildState P p old new mixed j r).rtOld = address P (plug p j r old) := rfl

/-- A level where the old branch is removed. -/
def rebuildAccesses (p : ℕ → Bool) (old new : Tree) (j : ℕ) (r : List Tree) : List Access :=
  [.hash (plug p j r old), .remove (plug p j r old), .hash (plug p j r new),
    .set (plug p j r new)]

/-- A level without an old branch. -/
def storeAccesses (p : ℕ → Bool) (new : Tree) (j : ℕ) (r : List Tree) : List Access :=
  [.hash (plug p j r new), .set (plug p j r new)]

variable {k : F} {found : List U256} {siblingsLen : ℕ} {addedOne : Bool}

/-- At a level of the search the old branch is recomputed and removed. -/
theorem insertStep_rebuild {old new : Tree} {mixed : Bool} {j : ℕ} {s : Tree} {r : List Tree}
    (hj : j < 256) (hfound : found[j]? = some (address P s))
    (hlast : (addedOne && j == siblingsLen - 1) = false)
    (hmix : (mixed || !r.isEmpty || decide (j < siblingsLen - 1) && address P s != 0) = true)
    (env : Env Store) :
    insertStep P (splitBits k.val) found siblingsLen addedOne j (address P s)
        (rebuildState P (keyBit k) old new mixed (j + 1) r) env =
      .ok (rebuildState P (keyBit k) old new mixed j (s :: r),
        runAll P (rebuildAccesses (keyBit k) old new j (s :: r)) env) := by
  have hm : (rebuildState P (keyBit k) old new mixed (j + 1) r).mixed = (mixed || !r.isEmpty) := rfl
  have hget : found.getD j 0 = address P s := by rw [List.getD_eq_getElem?_getD, hfound]; rfl
  simp only [insertStep, hlast, hm, Bool.not_false, Bool.true_and, Bool.and_true, hmix, if_true,
    hget, rebuildState_rt, rebuildState_rtOld, unwrap_bit k hj]
  rw [Host.bind_of_ok (removeParent_apply P (keyBit k j) s (plug (keyBit k) (j + 1) r old) env),
    unwrap_bit k hj,
    Host.bind_of_ok (storeParent_apply P (keyBit k j) s (plug (keyBit k) (j + 1) r new) _)]
  simp [rebuildState, rebuildAccesses, plug_cons]

/-- At a level added below the search no old branch exists. -/
theorem insertStep_store {new : Tree} {rtOld : U256} {j : ℕ} {s : Tree} {r : List Tree}
    (hj : j < 256) (hlast : j = siblingsLen - 1 ∨ s = .empty) (env : Env Store) :
    insertStep P (splitBits k.val) found siblingsLen true j (address P s)
        ⟨address P (plug (keyBit k) (j + 1) r new), rtOld, false⟩ env =
      .ok (⟨address P (plug (keyBit k) j (s :: r) new), rtOld, false⟩,
        runAll P (storeAccesses (keyBit k) new j (s :: r)) env) := by
  have hmix : (!(j == siblingsLen - 1) && decide (j < siblingsLen - 1) && address P s != 0) =
      false := by
    rcases hlast with h | h <;> simp [h]
  simp only [insertStep, Bool.true_and, Bool.false_or, hmix, Bool.false_and, Bool.false_eq_true,
    if_false, pure_bind, unwrap_bit k hj]
  rw [Host.bind_of_ok (storeParent_apply P (keyBit k j) s (plug (keyBit k) (j + 1) r new) env)]
  rfl

theorem insertPath_append (keyBits : List Bool) : ∀ (i : ℕ) (a b : List U256) (s : PathState),
    insertPath P keyBits found siblingsLen addedOne i (a ++ b) s =
      insertPath P keyBits found siblingsLen addedOne (i + a.length) b s >>=
        insertPath P keyBits found siblingsLen addedOne i a
  | i, [], b, s => by
      simp only [List.nil_append, List.length_nil, Nat.add_zero]
      exact (bind_pure _).symm
  | i, x :: a, b, s => by
      rw [List.cons_append, insertPath, insertPath_append keyBits (i + 1) a b s, bind_assoc,
        List.length_cons, Nat.add_right_comm, Nat.add_assoc i]
      rfl

theorem insertPath_rebuild {old new : Tree} {mixed : Bool} {sibs : List Tree}
    (hlen : sibs.length ≤ 254) (hlast : addedOne = true → sibs.length < siblingsLen)
    (hmix : sibs = [] ∨ mixed = true ∨
      sibs.length < siblingsLen ∧ ∀ s ∈ sibs.getLast?, address P s ≠ 0)
    (env : Env Store) :
    insertPath P (splitBits k.val) (sibs.map (address P)) siblingsLen addedOne 0
        (sibs.map (address P)) ⟨address P new, address P old, mixed⟩ env =
      .ok (rebuildState P (keyBit k) old new mixed 0 sibs,
        runAll P (pathTrace (rebuildAccesses (keyBit k) old new) 0 sibs) env) := by
  have hinit : (⟨address P new, address P old, mixed⟩ : PathState) =
      rebuildState P (keyBit k) old new mixed (0 + sibs.length) [] := by simp [rebuildState, plug]
  rw [hinit]
  refine loop_apply P
    (insertPath P (splitBits k.val) (sibs.map (address P)) siblingsLen addedOne)
    (insertStep P (splitBits k.val) (sibs.map (address P)) siblingsLen addedOne)
    (fun _ _ => rfl) (fun _ _ _ _ => rfl) _ _ env ?_
  intro j s r env hx
  obtain ⟨a, s', r', hcut, he⟩ := exists_append_of_mem_levels hx
  obtain ⟨rfl, hsr⟩ := Prod.mk.inj he
  obtain ⟨rfl, rfl⟩ := List.cons.inj hsr
  have hlt : 0 + a.length < sibs.length := by rw [hcut]; simp
  refine insertStep_rebuild P (by omega) ?_ ?_ ?_ env
  · rw [hcut, List.map_append, Nat.zero_add, List.map_cons]
    simp
  · cases hadd : addedOne with
    | false => rfl
    | true => have := hlast hadd; simp; omega
  · rcases hmix with hnil | hm | ⟨hs, hne⟩
    · rw [hnil] at hcut; simp at hcut
    · simp [hm]
    · cases r with
      | cons _ _ => simp
      | nil =>
          have := hne s (by rw [hcut]; simp)
          have hlen' : sibs.length = a.length + 1 := by rw [hcut]; simp
          simp [this]; omega

theorem insertPath_store {new : Tree} {rtOld : U256} {n : ℕ} {k' v' : F} {z : ℕ}
    (hz : n + z ≤ 254) (env : Env Store) :
    insertPath P (splitBits k.val) found (n + z + 1) true n
        ((List.replicate z Trie.empty ++ [Trie.leaf k' v']).map (address P))
        ⟨address P new, rtOld, false⟩ env =
      .ok (⟨address P (plug (keyBit k) n (List.replicate z .empty ++ [.leaf k' v']) new), rtOld,
          false⟩,
        runAll P (pathTrace (storeAccesses (keyBit k) new) n
          (List.replicate z .empty ++ [.leaf k' v'])) env) := by
  refine loop_apply P (insertPath P (splitBits k.val) found (n + z + 1) true)
    (insertStep P (splitBits k.val) found (n + z + 1) true)
    (fun _ _ => rfl) (fun _ _ _ _ => rfl) (storeAccesses (keyBit k) new)
    (fun j r => ⟨address P (plug (keyBit k) j r new), rtOld, false⟩) env ?_
  intro j s r env hx
  obtain ⟨a, s', r', hcut, he⟩ := exists_append_of_mem_levels hx
  obtain ⟨rfl, hsr⟩ := Prod.mk.inj he
  obtain ⟨rfl, rfl⟩ := List.cons.inj hsr
  have hlen : a.length + r.length = z := by
    have := congrArg List.length hcut
    simp only [List.length_append, List.length_replicate, List.length_cons, List.length_nil] at this
    omega
  refine insertStep_store P (by omega) ?_ env
  rcases Nat.lt_or_ge a.length z with hlt | hge
  · right
    have hget : (List.replicate z Trie.empty ++ [Trie.leaf k' v'])[a.length]? = some s := by
      rw [hcut]; simp
    rw [List.getElem?_append_left (by simpa using hlt), List.getElem?_replicate_of_lt hlt] at hget
    exact (Option.some.inj hget).symm
  · left; omega

/-- The whole loop in the case of a collision. -/
theorem insertPath_fork {new : Tree} {sibs : List Tree} {k' v' : F} {z : ℕ}
    (hz : sibs.length + z ≤ 254) (hlast : ∀ s ∈ sibs.getLast?, address P s ≠ 0) (env : Env Store) :
    let fork := List.replicate z Trie.empty ++ [Trie.leaf k' v']
    insertPath P (splitBits k.val) (sibs.map (address P)) (sibs.length + z + 1) true 0
        ((sibs ++ fork).map (address P)) ⟨address P new, address P (.leaf k' v'), false⟩ env =
      .ok (rebuildState P (keyBit k) (.leaf k' v') (plug (keyBit k) sibs.length fork new) false 0 sibs,
        runAll P (pathTrace (storeAccesses (keyBit k) new) sibs.length fork ++
          pathTrace (rebuildAccesses (keyBit k) (.leaf k' v')
            (plug (keyBit k) sibs.length fork new)) 0 sibs) env) := by
  intro fork
  rw [List.map_append, insertPath_append, List.length_map, Nat.zero_add,
    Host.bind_of_ok (insertPath_store P hz env), runAll_append]
  exact insertPath_rebuild P (by omega) (by omega) (Or.inr (Or.inr ⟨by omega, hlast⟩)) _

/-- The accesses of `insertLeaf`. -/
def insertTrace (k v : F) (t : Tree) : List Access :=
  let w := walk (keyBit k) 0 t
  let fork := forkSiblings k w.1.length w.2
  .hash w.2 :: .hash (.leaf k v) :: .set (.leaf k v) ::
    (pathTrace (storeAccesses (keyBit k) (.leaf k v)) w.1.length fork ++
      pathTrace (rebuildAccesses (keyBit k) w.2 (plug (keyBit k) w.1.length fork (.leaf k v))) 0 w.1)

/-- The end of a call: the new root is stored and the event published. -/
def commit (t : Tree) (event : U256 → Event) (env : Env Store) : Env Store :=
  { env with store := { env.store with
      root := some (address P t), events := env.store.events ++ [event (address P t)] } }

variable {P}
variable {env : Env Store} {t : Tree} {S : Set Tree} {admin : Address} {auths : List Address}

theorem Represents.address_getLast_ne_zero (h : Represents P env t S) (hsep : Separated P env)
    (p : ℕ → Bool) : ∀ s ∈ (walk p 0 t).1.getLast?, address P s ≠ 0 := fun s hs =>
  hsep.address_ne_zero ((h.hashed_walk p).1 s (List.mem_of_getLast? hs))
    (h.canon.getLast_walk_ne_empty p s hs)

/-- The new leaf is stored before the loop and the root after it. -/
theorem insertLeaf_finish {k v : F} {env env' : Env Store} {T : Tree} {rtOld' : U256} {mixed' : Bool}
    {loop : U256 → Call PathState}
    (hloop : loop (address P (.leaf k v)) (runAll P [.hash (.leaf k v), .set (.leaf k v)] env) =
      .ok (⟨address P T, rtOld', mixed'⟩, env')) :
    (do
      let rt ← hashLeaf P k.val v.val
      setNode rt [1, k.val, v.val]
      let s ← loop rt
      setRoot s.rt
      publish (.leafInserted k.val v.val s.rt) : Call Unit) env =
      .ok ((), commit P T (.leafInserted k.val v.val) env') := by
  rw [Host.bind_of_ok (hashLeaf_apply P k v env), setNode,
    Host.bind_of_ok (Host.modifyStore_apply _ _)]
  exact Host.bind_of_ok hloop fun s => do
    setRoot s.rt
    publish (.leafInserted k.val v.val s.rt)

/-- **Insertion on the stored tree.** -/
theorem insertLeaf_apply (h : Represents P env t S) (hsep : Separated P env)
    (hadmin : env.store.admin = some admin) (hauth : admin ∈ auths) {k v : F}
    (hk : ∀ w, ¬ t.Has k w) :
    insertLeaf P auths k.val v.val env =
      .ok ((), commit P (insertTree k v t) (.leafInserted k.val v.val)
        (runAll P (insertTrace k v t) env)) := by
  have hlen := length_walk_le h.canon (keyBit k)
  have hlast := h.address_getLast_ne_zero hsep (keyBit k)
  have hfind := h.findKeyInternal_eq hsep k.val
  rw [show k.val.testBit = keyBit k from rfl] at hfind
  unfold insertLeaf
  rw [Host.bind_of_ok (Host.getStore_apply env), hadmin,
    Host.bind_of_ok (Host.unwrap_some admin env), Host.bind_of_ok (Host.requireAuth_of_mem hauth env)]
  simp only [hfind, Host.bind_of_ok (Host.ofExcept_ok _ env)]
  rcases walk_end (keyBit k) 0 t with hw | ⟨k', v', hw⟩
  · -- the search ended at an empty place
    have hpath := @insertPath_rebuild P k (walk (keyBit k) 0 t).1.length false
      .empty (.leaf k v) (!(walk (keyBit k) 0 t).1.isEmpty) _ hlen
      (by simp) ?_ (runAll P [.hash (.leaf k v), .set (.leaf k v)] env)
    · simp only [insertTree, insertTrace, searchResult, hw, Bool.false_eq_true, if_false,
        Bool.not_true, pure_bind, forkSiblings, List.append_nil, List.length_map, List.isEmpty_map,
        pathTrace, List.nil_append, plug] at hpath ⊢
      exact insertLeaf_finish hpath
    · cases hs : (walk (keyBit k) 0 t).1 <;> simp
  · -- the search ended at the leaf of another key
    obtain ⟨-, -, hfork⟩ := fork_spec h.canon hk hw
    have hne : k' ≠ k := by
      rintro rfl
      exact hk v' (h.canon.has_iff_walk.mpr hw)
    have hval : k'.val ≠ k.val := fun he => hne (F.val_injective he)
    have hz : (walk (keyBit k) 0 t).1.length +
        sharedBits ((splitBits k'.val).drop (walk (keyBit k) 0 t).1.length)
          ((splitBits k.val).drop (walk (keyBit k) 0 t).1.length) ≤ 254 := by
      by_contra hlt
      exact hfork (by rw [keyBit_bound k' _ (by omega), keyBit_bound k _ (by omega)])
    have hpath := @insertPath_fork P k (.leaf k v) _ k' v' _ hz hlast
      (runAll P [.hash (.leaf k v), .set (.leaf k v)] (runAll P [.hash (.leaf k' v')] env))
    simp only [insertTree, insertTrace, searchResult, hw, if_neg hval, Bool.false_eq_true, if_false,
      Bool.not_false, if_true, pure_bind, List.length_map, forkSiblings, extendSiblings_eq,
      List.length_append, List.length_replicate, List.length_cons, List.length_nil,
      List.map_append, List.map_replicate, List.map_cons, List.map_nil, address_empty,
      plug_append, Nat.zero_add, Nat.add_assoc] at hpath ⊢
    rw [Host.bind_of_ok (hashLeaf_apply P k' v' env)]
    exact insertLeaf_finish hpath

/-! ### Deletion -/

/-- What takes the place of a deleted leaf beside `sibs`, and the siblings that stay. -/
def promoted (sibs : List Tree) : Tree × List Tree :=
  match sibs.getLast? with
  | some (.leaf k v) => (.leaf k v, sibs.dropLast)
  | _ => (.empty, sibs)

theorem promoted_of_leaf {sibs : List Tree} {k v : F} (h : sibs.getLast? = some (.leaf k v)) :
    promoted sibs = (.leaf k v, sibs.dropLast) := by
  unfold promoted
  rw [h]

theorem promoted_of_not_leaf {sibs : List Tree} (h : ∀ k v, sibs.getLast? ≠ some (.leaf k v)) :
    promoted sibs = (.empty, sibs) := by
  unfold promoted
  split
  · rename_i k v hlast
    exact absurd hlast (h k v)
  · rfl

theorem promote_eq {node : U256 → Option (List U256)} {sibs : List Tree}
    (hlast : ∀ s ∈ sibs.getLast?, s ≠ .empty ∧ node (address P s) = some (nodeData P s)) :
    promote node (sibs.map (address P)) =
      .ok (address P (promoted sibs).1, (promoted sibs).2.map (address P)) := by
  unfold promote promoted
  rw [List.getLast?_map]
  cases hs : sibs.getLast? with
  | none => simp
  | some s =>
      obtain ⟨hne, hnode⟩ := hlast s hs
      cases s with
      | empty => exact absurd rfl hne
      | leaf k v => simp [hnode, nodeData, List.map_dropLast]
      | node l r => simp [hnode, nodeData]

theorem getLast_eq_append {α : Type} {l : List α} {a : α} (h : l.getLast? = some a) :
    l = l.dropLast ++ [a] := (List.dropLast_append_getLast? a h).symm

/-- Pulling the promoted leaf up is pruning the emptied place. -/
theorem prune_promoted (p : ℕ → Bool) (i : ℕ) (sibs : List Tree) :
    prune p i (promoted sibs).2 (promoted sibs).1 = prune p i sibs .empty := by
  unfold promoted
  split
  · rename_i k v hlast
    conv_rhs => rw [getLast_eq_append hlast, prune_append]
    congr 1
    cases p (i + sibs.dropLast.length) <;> simp [prune, join]
  · rfl

/-- A level of `deleteLeaf`'s loop: the old branch goes, the new one, if any, is stored. -/
def deleteAccesses (p : ℕ → Bool) (old new : Tree) (j : ℕ) (r : List Tree) : List Access :=
  [.hash (plug p j r old), .remove (plug p j r old)] ++
    if (prune p j r new).IsNode then [.hash (prune p j r new), .set (prune p j r new)] else []

theorem deleteStep_apply {k : F} {old new : Tree} {j : ℕ} {s : Tree} {r : List Tree}
    (hj : j < 256) (hs : address P s = 0 ↔ s = .empty)
    (hnew : s.IsNode ∨ prune (keyBit k) (j + 1) r new ≠ .empty) (env : Env Store) :
    deleteStep P (splitBits k.val) j (address P s)
        ⟨address P (prune (keyBit k) (j + 1) r new), address P (plug (keyBit k) (j + 1) r old),
          decide (prune (keyBit k) (j + 1) r new).IsNode⟩ env =
      .ok (⟨address P (prune (keyBit k) j (s :: r) new), address P (plug (keyBit k) j (s :: r) old),
          decide (prune (keyBit k) j (s :: r) new).IsNode⟩,
        runAll P (deleteAccesses (keyBit k) old new j (s :: r)) env) := by
  have hjoin := joinAt_eq (keyBit k j) hnew
  unfold deleteStep deleteAccesses
  rw [unwrap_bit k hj, Host.bind_of_ok (removeParent_apply P _ _ _ env), prune_cons, plug_cons]
  by_cases hcase : s = .empty ∧ ¬ (prune (keyBit k) (j + 1) r new).IsNode
  · -- still an empty sibling beside a lone leaf
    have hmix : (decide (prune (keyBit k) (j + 1) r new).IsNode || address P s != 0) = false := by
      simp [hcase.2, hs.mpr hcase.1]
    rw [hjoin, if_pos hcase, if_neg hcase.2]
    simp only [hmix, Bool.false_eq_true, if_false, pure_bind, List.append_nil]
    rw [decide_eq_false hcase.2]
    rfl
  · have hmix : (decide (prune (keyBit k) (j + 1) r new).IsNode || address P s != 0) = true := by
      rw [not_and_or, not_not] at hcase
      rcases hcase with h | h
      · simp [hs.not.mpr h]
      · simp [h]
    have hnode := isNode_branch (keyBit k j) s (prune (keyBit k) (j + 1) r new)
    rw [hjoin, if_neg hcase, if_pos hnode, runAll_append]
    simp only [hmix, if_true]
    rw [Host.bind_of_ok (storeParent_apply P _ _ _ _)]
    simp only [Host.pure_apply, decide_eq_true hnode]

theorem deletePath_apply {k : F} {old new : Tree} {sibs : List Tree} (hlen : sibs.length ≤ 254)
    (hend : ¬ new.IsNode) (hs : ∀ s ∈ sibs, address P s = 0 ↔ s = .empty)
    (hnew : ∀ j s r, (j, s :: r) ∈ levels 0 sibs →
      s.IsNode ∨ prune (keyBit k) (j + 1) r new ≠ .empty) (env : Env Store) :
    deletePath P (splitBits k.val) 0 (sibs.map (address P)) ⟨address P new, address P old, false⟩
        env =
      .ok (⟨address P (prune (keyBit k) 0 sibs new), address P (plug (keyBit k) 0 sibs old),
          decide (prune (keyBit k) 0 sibs new).IsNode⟩,
        runAll P (pathTrace (deleteAccesses (keyBit k) old new) 0 sibs) env) := by
  rw [← decide_eq_false hend]
  refine loop_apply P (deletePath P (splitBits k.val)) (deleteStep P (splitBits k.val))
    (fun _ _ => rfl) (fun _ _ _ _ => rfl) (deleteAccesses (keyBit k) old new)
    (fun j r => ⟨address P (prune (keyBit k) j r new), address P (plug (keyBit k) j r old),
      decide (prune (keyBit k) j r new).IsNode⟩) env ?_
  intro j s r env hx
  obtain ⟨a, s', r', hcut, he⟩ := exists_append_of_mem_levels hx
  obtain ⟨rfl, hsr⟩ := Prod.mk.inj he
  obtain ⟨rfl, rfl⟩ := List.cons.inj hsr
  have hlt : 0 + a.length < 256 := by
    have := congrArg List.length hcut
    simp only [List.length_append, List.length_cons] at this
    omega
  exact deleteStep_apply hlt (hs s (by rw [hcut]; simp)) (hnew _ _ _ hx) env

/-- The accesses of `deleteLeaf`. -/
def deleteTrace (k v : F) (t : Tree) : List Access :=
  let p := promoted (walk (keyBit k) 0 t).1
  .hash (.leaf k v) :: .remove (.leaf k v) ::
    pathTrace (deleteAccesses (keyBit k) (.leaf k v) p.1) 0 p.2

theorem not_isNode_promoted (sibs : List Tree) : ¬ (promoted sibs).1.IsNode := by
  unfold promoted
  split <;> exact id

theorem mem_of_mem_promoted {sibs : List Tree} {s : Tree} (h : s ∈ (promoted sibs).2) :
    s ∈ sibs := by
  unfold promoted at h
  split at h
  · exact List.mem_of_mem_dropLast h
  · exact h

theorem length_promoted_le (sibs : List Tree) : (promoted sibs).2.length ≤ sibs.length := by
  unfold promoted
  split <;> simp

theorem promoted_spec {sibs : List Tree} (hne : ∀ s ∈ sibs.getLast?, ∃ a b, s.Has a b)
    (p : ℕ → Bool) {i j : ℕ} {s : Tree} {r : List Tree}
    (hx : (j, s :: r) ∈ levels i (promoted sibs).2) :
    s.IsNode ∨ prune p (j + 1) r (promoted sibs).1 ≠ .empty := by
  obtain ⟨a, s', r', hcut, he⟩ := exists_append_of_mem_levels hx
  obtain ⟨rfl, rfl⟩ := List.cons.inj (Prod.mk.inj he).2
  have hpos : ∀ x y, (∃ u ∈ r, u.Has x y) ∨ (promoted sibs).1.Has x y →
      prune p (j + 1) r (promoted sibs).1 ≠ .empty := by
    intro x y h he
    have := (has_prune p x y (promoted sibs).1 (j + 1) r).mpr h
    rw [he] at this
    exact this
  by_cases hleaf : ∃ k v, sibs.getLast? = some (.leaf k v)
  · obtain ⟨k, v, hlast⟩ := hleaf
    exact Or.inr (hpos k v (Or.inr (by rw [promoted_of_leaf hlast]; exact ⟨rfl, rfl⟩)))
  · push Not at hleaf
    rw [promoted_of_not_leaf hleaf] at hcut
    cases r with
    | nil =>
        have hlast : sibs.getLast? = some s := by
          rw [show sibs = a ++ [s] from hcut]; simp
        obtain ⟨x, y, hxy⟩ := hne s hlast
        cases s with
        | empty => exact absurd hxy id
        | leaf k v => exact absurd hlast (hleaf k v)
        | node _ _ => exact Or.inl trivial
    | cons u r =>
        have hlast : sibs.getLast? = (u :: r).getLast? := by
          rw [show sibs = a ++ s :: u :: r from hcut, List.getLast?_append_of_ne_nil _ (by simp),
            List.getLast?_cons_cons]
        obtain ⟨w, hw⟩ : ∃ w, (u :: r).getLast? = some w := by
          rw [List.getLast?_eq_some_getLast (by simp)]; exact ⟨_, rfl⟩
        obtain ⟨x, y, hxy⟩ := hne w (hlast.trans hw)
        exact Or.inr (hpos x y (Or.inl ⟨w, List.mem_of_getLast? hw, hxy⟩))

theorem exists_has_getLast {t : Tree} (hc : t.Canon keyBit 0) (p : ℕ → Bool) :
    ∀ s ∈ (walk p 0 t).1.getLast?, ∃ a b, s.Has a b := by
  intro s hs
  have hne := hc.getLast_walk_ne_empty p s hs
  cases s with
  | empty => exact absurd rfl hne
  | leaf a b => exact ⟨a, b, rfl, rfl⟩
  | node l r =>
      have hsub : Trie.node l r ∈ t.subtries := by
        rw [← plug_walk p 0 t]
        exact (mem_subtries_plug p _ _ 0 _).mpr
          (Or.inr (Or.inl ⟨_, List.mem_of_getLast? hs, List.mem_cons_self⟩))
      obtain ⟨j, hj⟩ := hc.exists_of_mem_subtries hsub
      exact exists_has_of_size_pos (by have := hj.1; simp only [size]; omega)

/-- The leaf is removed before the sibling is promoted; the root is stored after the loop. -/
theorem deleteLeaf_finish {k v : F} {env env' : Env Store} {T : Tree} {rtOld' rtNew : U256}
    {mixed' : Bool} {siblings siblingsToUse : List U256}
    (hprom : promote (runAll P [.hash (.leaf k v), .remove (.leaf k v)] env).store.node siblings =
      .ok (rtNew, siblingsToUse))
    (hloop : deletePath P (splitBits k.val) 0 siblingsToUse ⟨rtNew, address P (.leaf k v), false⟩
      (runAll P [.hash (.leaf k v), .remove (.leaf k v)] env) =
      .ok (⟨address P T, rtOld', mixed'⟩, env')) :
    (do
      let rtOld ← hashLeaf P k.val v.val
      removeNode rtOld
      let p ← Host.ofExcept (promote (← Host.getStore).node siblings)
      let s ← deletePath P (splitBits k.val) 0 p.2 ⟨p.1, rtOld, false⟩
      setRoot s.rt
      publish (.leafDeleted k.val s.rt) : Call Unit) env =
      .ok ((), commit P T (.leafDeleted k.val) env') := by
  rw [Host.bind_of_ok (hashLeaf_apply P k v env), removeNode,
    Host.bind_of_ok (Host.modifyStore_apply _ _), Host.bind_of_ok (Host.getStore_apply _)]
  have hof : (Host.ofExcept (promote (runAll P [.hash (.leaf k v), .remove (.leaf k v)]
      env).store.node siblings) : Call (U256 × List U256))
        (runAll P [.hash (.leaf k v), .remove (.leaf k v)] env) =
      .ok ((rtNew, siblingsToUse), runAll P [.hash (.leaf k v), .remove (.leaf k v)] env) := by
    rw [hprom, Host.ofExcept_ok]
  refine (Host.bind_of_ok hof fun p => do
    let s ← deletePath P (splitBits k.val) 0 p.2 ⟨p.1, address P (.leaf k v), false⟩
    setRoot s.rt
    publish (.leafDeleted k.val s.rt)).trans ?_
  exact Host.bind_of_ok hloop fun s => do
    setRoot s.rt
    publish (.leafDeleted k.val s.rt)

/-- **Deletion on the stored tree.** -/
theorem deleteLeaf_apply (h : Represents P env t S) (hsep : Separated P env)
    (hadmin : env.store.admin = some admin) (hauth : admin ∈ auths) {k v : F} (hk : t.Has k v) :
    deleteLeaf P auths k.val env =
      .ok ((), commit P (deleteTree k t) (.leafDeleted k.val)
        (runAll P (deleteTrace k v t) env)) := by
  have hlen := length_walk_le h.canon (keyBit k)
  have hw := h.canon.has_iff_walk.mp hk
  have hfind := h.findKeyInternal_eq hsep k.val
  rw [show k.val.testBit = keyBit k from rfl, h.root, Option.getD_some] at hfind
  have hmem : ∀ s ∈ (walk (keyBit k) 0 t).1, Hashed P env s := (h.hashed_walk (keyBit k)).1
  -- the node of the last sibling is still there after the leaf is removed
  have hnode : ∀ s ∈ (walk (keyBit k) 0 t).1.getLast?, s ≠ .empty ∧
      (runAll P [.hash (.leaf k v), .remove (.leaf k v)] env).store.node (address P s) =
        some (nodeData P s) := by
    intro s hs
    have hmem' := List.mem_of_getLast? hs
    have hne := h.canon.getLast_walk_ne_empty (keyBit k) s hs
    obtain ⟨hplug, hout⟩ := plug_walk_of_has h.canon hk
    have hsub : s ∈ t.subtries := by
      rw [← hplug]
      refine (mem_subtries_plug _ _ _ 0 _).mpr (Or.inr (Or.inl ⟨s, hmem', ?_⟩))
      exact mem_subtries_self (by
        obtain ⟨a, b, hab⟩ := exists_has_getLast h.canon (keyBit k) s hs
        exact size_pos_of_has hab)
    have hleaf : Hashed P env (.leaf k v) := by rw [← hw]; exact (h.hashed_walk (keyBit k)).2
    have hdiff : address P s ≠ address P (.leaf k v) := by
      intro he
      have : s = .leaf k v := hsep.injOn (hmem s hmem') hleaf he
      exact hout s hmem' v (by rw [this]; exact ⟨rfl, rfl⟩)
    refine ⟨hne, ?_⟩
    change Function.update env.store.node (address P (.leaf k v)) none (address P s) = _
    rw [Function.update_of_ne hdiff]
    exact h.stored.get (h.complete s hsub)
  unfold deleteLeaf
  rw [Host.bind_of_ok (Host.getStore_apply env), hadmin, h.root,
    Host.bind_of_ok (Host.unwrap_some admin env), Host.bind_of_ok (Host.requireAuth_of_mem hauth env),
    Host.bind_of_ok (Host.unwrap_some _ env)]
  simp only [hfind, Host.bind_of_ok (Host.ofExcept_ok _ env), searchResult, hw, if_true,
    Bool.not_true, Bool.false_eq_true, if_false]
  have hloop := @deletePath_apply P k (.leaf k v) _ _
    ((length_promoted_le _).trans hlen) (not_isNode_promoted _) ?_
    (fun j s r hx => promoted_spec (exists_has_getLast h.canon (keyBit k)) _ hx)
    (runAll P [.hash (.leaf k v), .remove (.leaf k v)] env)
  · have hprune := prune_promoted (keyBit k) 0 (walk (keyBit k) 0 t).1
    rw [hprune] at hloop
    exact deleteLeaf_finish (promote_eq hnode) hloop
  · intro s hs
    have hs' := hmem s (mem_of_mem_promoted hs)
    refine ⟨fun h0 => ?_, fun he => by rw [he, address_empty]⟩
    by_contra hne
    exact hsep.address_ne_zero hs' hne h0

/-! ### Update -/

/-- A level of `updateLeaf`'s loop: the new branch is stored before the old one is removed. -/
def updateAccesses (p : ℕ → Bool) (old new : Tree) (j : ℕ) (r : List Tree) : List Access :=
  [.hash (plug p j r new), .hash (plug p j r old), .set (plug p j r new), .remove (plug p j r old)]

theorem updateStep_apply {k : F} {old new : Tree} {j : ℕ} {s : Tree} {r : List Tree} (hj : j < 256)
    (env : Env Store) :
    updateStep P (splitBits k.val) j (address P s) (address P (plug (keyBit k) (j + 1) r new))
        (address P (plug (keyBit k) (j + 1) r old)) env =
      .ok ((address P (plug (keyBit k) j (s :: r) new), address P (plug (keyBit k) j (s :: r) old)),
        runAll P (updateAccesses (keyBit k) old new j (s :: r)) env) := by
  unfold updateStep updateAccesses
  rw [unwrap_bit k hj, plug_cons, plug_cons]
  cases keyBit k j
  · exact (Host.bind_of_ok (hashInternal_apply P _ s env) fun currentHash => do
      let oldCurrentHash ← hashInternal P (address P (plug (keyBit k) (j + 1) r old)) (address P s)
      setNode currentHash [address P (plug (keyBit k) (j + 1) r new), address P s]
      removeNode oldCurrentHash
      return (currentHash, oldCurrentHash)).trans
      (Host.bind_of_ok (hashInternal_apply P _ s _) fun oldCurrentHash => do
        setNode (address P (.node (plug (keyBit k) (j + 1) r new) s))
          [address P (plug (keyBit k) (j + 1) r new), address P s]
        removeNode oldCurrentHash
        return (address P (.node (plug (keyBit k) (j + 1) r new) s), oldCurrentHash))
  · exact (Host.bind_of_ok (hashInternal_apply P s _ env) fun currentHash => do
      let oldCurrentHash ← hashInternal P (address P s) (address P (plug (keyBit k) (j + 1) r old))
      setNode currentHash [address P s, address P (plug (keyBit k) (j + 1) r new)]
      removeNode oldCurrentHash
      return (currentHash, oldCurrentHash)).trans
      (Host.bind_of_ok (hashInternal_apply P s _ _) fun oldCurrentHash => do
        setNode (address P (.node s (plug (keyBit k) (j + 1) r new)))
          [address P s, address P (plug (keyBit k) (j + 1) r new)]
        removeNode oldCurrentHash
        return (address P (.node s (plug (keyBit k) (j + 1) r new)), oldCurrentHash))

theorem updatePath_apply {k : F} {old new : Tree} {sibs : List Tree} (hlen : sibs.length ≤ 254)
    (env : Env Store) :
    updatePath P (splitBits k.val) 0 (sibs.map (address P)) (address P new, address P old) env =
      .ok ((address P (plug (keyBit k) 0 sibs new), address P (plug (keyBit k) 0 sibs old)),
        runAll P (pathTrace (updateAccesses (keyBit k) old new) 0 sibs) env) := by
  refine loop_apply P (updatePath P (splitBits k.val))
    (fun i a s => updateStep P (splitBits k.val) i a s.1 s.2)
    (fun _ _ => rfl) (fun _ _ _ _ => rfl) (updateAccesses (keyBit k) old new)
    (fun j r => (address P (plug (keyBit k) j r new), address P (plug (keyBit k) j r old))) env ?_
  intro j s r env hx
  obtain ⟨a, s', r', hcut, he⟩ := exists_append_of_mem_levels hx
  obtain ⟨rfl, -⟩ := Prod.mk.inj he
  have hlt : 0 + a.length < 256 := by
    have := congrArg List.length hcut
    simp only [List.length_append, List.length_cons] at this
    omega
  exact updateStep_apply hlt env

/-- The accesses of `updateLeaf`. -/
def updateTrace (k v w : F) (t : Tree) : List Access :=
  .hash (.leaf k v) :: .hash (.leaf k w) :: .set (.leaf k w) :: .remove (.leaf k v) ::
    pathTrace (updateAccesses (keyBit k) (.leaf k v) (.leaf k w)) 0 (walk (keyBit k) 0 t).1

/-- **Update on the stored tree.** -/
theorem updateLeaf_apply (h : Represents P env t S) (hsep : Separated P env)
    (hadmin : env.store.admin = some admin) (hauth : admin ∈ auths) {k v : F} (hk : t.Has k v)
    (w : F) :
    updateLeaf P auths k.val w.val env =
      .ok ((), commit P (updateTree k w t) (.leafUpdated k.val v.val w.val)
        (runAll P (updateTrace k v w t) env)) := by
  have hlen := length_walk_le h.canon (keyBit k)
  have hw := h.canon.has_iff_walk.mp hk
  have hfind := h.findKeyInternal_eq hsep k.val
  rw [show k.val.testBit = keyBit k from rfl] at hfind
  have hloop := @updatePath_apply P k (.leaf k v) (.leaf k w) _ hlen
    (runAll P [.hash (.leaf k v), .hash (.leaf k w), .set (.leaf k w), .remove (.leaf k v)] env)
  unfold updateLeaf
  rw [Host.bind_of_ok (Host.getStore_apply env), hadmin,
    Host.bind_of_ok (Host.unwrap_some admin env), Host.bind_of_ok (Host.requireAuth_of_mem hauth env)]
  simp only [hfind, Host.bind_of_ok (Host.ofExcept_ok _ env), searchResult, hw, if_true,
    Bool.not_true, Bool.false_eq_true, if_false]
  rw [Host.bind_of_ok (hashLeaf_apply P k v env), Host.bind_of_ok (hashLeaf_apply P k w _), setNode,
    Host.bind_of_ok (Host.modifyStore_apply _ _), removeNode,
    Host.bind_of_ok (Host.modifyStore_apply _ _)]
  exact Host.bind_of_ok hloop fun s => do
    setRoot s.1
    publish (.leafUpdated k.val v.val w.val s.1)

/-! ### Rejected calls -/

theorem insertLeaf_of_has (h : Represents P env t S) (hsep : Separated P env)
    (hadmin : env.store.admin = some admin) (hauth : admin ∈ auths) {k w : F} (hk : t.Has k w)
    (v : U256) :
    insertLeaf P auths k.val v env = .error (.error .keyAlreadyExists) := by
  have hw := h.canon.has_iff_walk.mp hk
  have hfind := h.findKeyInternal_eq hsep k.val
  rw [show k.val.testBit = keyBit k from rfl] at hfind
  unfold insertLeaf
  rw [Host.bind_of_ok (Host.getStore_apply env), hadmin,
    Host.bind_of_ok (Host.unwrap_some admin env), Host.bind_of_ok (Host.requireAuth_of_mem hauth env)]
  simp only [hfind, Host.bind_of_ok (Host.ofExcept_ok _ env), searchResult, hw, if_true,
    Host.fail_apply]

theorem found_eq_false (h : t.Canon keyBit 0) {k : F} (hk : ∀ w, ¬ t.Has k w) :
    (searchResult P k.val (walk (keyBit k) 0 t)).found = false := by
  unfold searchResult
  rcases walk_end (keyBit k) 0 t with hw | ⟨k', v', hw⟩
  · rw [hw]
  · have hne : k'.val ≠ k.val := fun he =>
      hk v' (h.has_iff_walk.mpr (by rw [hw, F.val_injective he]))
    rw [hw]
    simp only [if_neg hne]

theorem updateLeaf_of_not_has (h : Represents P env t S) (hsep : Separated P env)
    (hadmin : env.store.admin = some admin) (hauth : admin ∈ auths) {k : F}
    (hk : ∀ w, ¬ t.Has k w) (v : U256) :
    updateLeaf P auths k.val v env = .error (.error .keyNotFound) := by
  have hfind := h.findKeyInternal_eq hsep k.val
  rw [show k.val.testBit = keyBit k from rfl] at hfind
  unfold updateLeaf
  rw [Host.bind_of_ok (Host.getStore_apply env), hadmin,
    Host.bind_of_ok (Host.unwrap_some admin env), Host.bind_of_ok (Host.requireAuth_of_mem hauth env)]
  simp only [hfind, Host.bind_of_ok (Host.ofExcept_ok _ env), found_eq_false h.canon hk,
    Bool.not_false, if_true, Host.fail_apply]

theorem deleteLeaf_of_not_has (h : Represents P env t S) (hsep : Separated P env)
    (hadmin : env.store.admin = some admin) (hauth : admin ∈ auths) {k : F}
    (hk : ∀ w, ¬ t.Has k w) :
    deleteLeaf P auths k.val env = .error (.error .keyNotFound) := by
  have hfind := h.findKeyInternal_eq hsep k.val
  rw [show k.val.testBit = keyBit k from rfl, h.root, Option.getD_some] at hfind
  unfold deleteLeaf
  rw [Host.bind_of_ok (Host.getStore_apply env), hadmin, h.root,
    Host.bind_of_ok (Host.unwrap_some admin env), Host.bind_of_ok (Host.requireAuth_of_mem hauth env),
    Host.bind_of_ok (Host.unwrap_some _ env)]
  simp only [hfind, Host.bind_of_ok (Host.ofExcept_ok _ env), found_eq_false h.canon hk,
    Bool.not_false, if_true, Host.fail_apply]

end Enclave.AspNonMembership

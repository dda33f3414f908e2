import Enclave.AspNonMembership.Runs

/-! # The contract refines a finite map

`Stores.reports` and `refines_map`: after any run in which no update writes the value its key
already has, a search reports exactly the entry of the replayed map and never fails, and the next
operation succeeds exactly when the map says so.  An update to the same value stores the path and
then removes it again, since old and new path are one; `find_fails_after_same_value_update` is the
shortest run that shows it.

`root_determined_by_map`: the root depends on the map only, whatever the history. -/

namespace Enclave.AspNonMembership

open Trie

variable {P : Poseidon2} {admin : Address} {env env' : Env Store} {ops ops' : List Op}

/-- `env` is reached from the empty tree by the successful calls `ops`, whose evaluations are
collision free and never zero. -/
structure Reached (P : Poseidon2) (admin : Address) (ops : List Op) (env : Env Store) : Prop where
  run : Run (Step P) (constructor admin) ops env
  collisionFree : P.CollisionFree {q | q ∈ env.hashed}
  neverZero : P.NeverZero {q | q ∈ env.hashed}

/-- The map of a sequence of operations from the empty tree. -/
abbrev mapOf (ops : List Op) : F → Option F := replay ops fun _ => none

theorem Reached.separated (h : Reached P admin ops env) : Separated P env :=
  separated_of_collisionFree P h.collisionFree h.neverZero

theorem Reached.stores (h : Reached P admin ops env) (hch : ValueChanging ops fun _ => none) :
    ∃ t S, Stores P admin env t S (mapOf ops) :=
  (stores_constructor P admin).run h.run hch h.separated

/-! ### Search results -/

/-- The entry of a word, if it is a key of the field. -/
def wordLookup (m : F → Option F) (key : U256) : Option F :=
  if key < bn256Modulus then m key else none

/-- A search result that reports the entry `o`. -/
def FindResult.Reports (find : FindResult) : Option F → Prop
  | some v => find.found = true ∧ find.foundValue = v.val
  | none => find.found = false

theorem wordLookup_val (m : F → Option F) (k : F) : wordLookup m k.val = m k := by
  rw [wordLookup, if_pos (F.val_lt k), F.natCast_val]

theorem wordLookup_eq_none_iff {m : F → Option F} {key : U256} :
    wordLookup m key = none ↔ ∀ k : F, k.val = key → m k = none := by
  constructor
  · rintro h k rfl
    rwa [wordLookup_val] at h
  · intro h
    unfold wordLookup
    split_ifs with hlt
    · exact h _ (F.val_natCast_of_lt hlt)
    · rfl

/-- The search of a word ends at a leaf with that very key exactly if the word is a stored key. -/
theorem Stores.reports {t : Tree} {S : Set Tree} {m : F → Option F} (h : Stores P admin env t S m)
    (key : U256) : (searchResult P key (walk key.testBit 0 t)).Reports (wordLookup m key) := by
  have hcanon := h.represents.canon
  have hkey : ∀ k v : F, k.val = key → ((walk key.testBit 0 t).2 = .leaf k v ↔ m k = some v) := by
    rintro k v rfl
    exact hcanon.has_iff_walk.symm.trans (h.models k v)
  cases hm : wordLookup m key with
  | some v =>
      have hlt : key < bn256Modulus := by
        by_contra hge
        rw [wordLookup, if_neg hge] at hm
        cases hm
      rw [wordLookup, if_pos hlt] at hm
      have hend := (hkey key v (F.val_natCast_of_lt hlt)).mpr hm
      simp only [searchResult, hend, F.val_natCast_of_lt hlt, if_true, FindResult.Reports, and_self]
  | none =>
      rcases walk_end key.testBit 0 t with hw | ⟨k, v, hw⟩
      · simp only [searchResult, hw, FindResult.Reports]
      · have hne : k.val ≠ key := by
          intro he
          have := (hkey k v he).mp hw
          rw [wordLookup_eq_none_iff.mp hm k he] at this
          cases this
        simp only [searchResult, hw, if_neg hne, FindResult.Reports]

/-- **The contract refines the map**: searches report the map's entries, and the next operation
succeeds exactly when it is enabled in the map. -/
theorem refines_map (h : Reached P admin ops env) (hch : ValueChanging ops fun _ => none) :
    (∀ key : U256, ∃ find, findKey key env = .ok (find, env) ∧
        find.Reports (wordLookup (mapOf ops) key)) ∧
      ∀ (op : Op) (auths : List Address), admin ∈ auths →
        ((∃ env', op.call P auths env = .ok ((), env')) ↔ op.Enabled (mapOf ops)) := by
  obtain ⟨t, S, hst⟩ := h.stores hch
  refine ⟨fun key => ?_, fun op auths hauth => hst.call_ok_iff h.separated hauth op⟩
  exact ⟨_, hst.represents.findKey_apply h.separated key, hst.reports key⟩

/-! ### Runs on a small permutation -/

/-- The calls in order, with the given authorisations. -/
def runCalls (P : Poseidon2) (auths : List Address) : List Op → Env Store →
    Except (Fault Error) (Env Store)
  | [], env => .ok env
  | op :: ops, env => do
      let (_, env') ← op.call P auths env
      runCalls P auths ops env'

theorem run_of_runCalls {auths : List Address} : ∀ {ops : List Op} {env env' : Env Store},
    runCalls P auths ops env = .ok env' → Run (Step P) env ops env'
  | [], env, env', h => by
      obtain rfl := Except.ok.inj h
      exact .nil env
  | op :: ops, env, env', h => by
      rw [runCalls] at h
      cases hc : op.call P auths env with
      | error e => rw [hc] at h; cases h
      | ok p =>
          rw [hc] at h
          exact .cons ⟨auths, hc⟩ (run_of_runCalls h)

theorem exists_reached {auths : List Address} {p : Env Store → Bool}
    (h : (match runCalls P auths ops (constructor admin) with
      | .ok env => cleanLog P env.hashed && p env
      | .error _ => false) = true) : ∃ env, Reached P admin ops env ∧ p env = true := by
  cases hr : runCalls P auths ops (constructor admin) with
  | error e => rw [hr] at h; cases h
  | ok env =>
      rw [hr, Bool.and_eq_true] at h
      obtain ⟨hc, hz⟩ := collisionFree_of_cleanLog h.1
      exact ⟨env, ⟨run_of_runCalls hr, hc, hz⟩, h.2⟩

/-- After an update to the value the key has, the search for it fails. -/
theorem find_fails_after_same_value_update :
    ∃ env, Reached smallPoseidon2 (.account 0) [.insert 1 5, .update 1 5] env ∧
      mapOf [.insert 1 5, .update 1 5] 1 = some 5 ∧
      findKey 1 env = .error (.error .keyNotFound) := by
  obtain ⟨env, hr, hp⟩ := @exists_reached smallPoseidon2 (.account 0)
    [.insert 1 5, .update 1 5] [.account 0]
    (p := fun env => findKeyInternal env.store.node 1 (splitBits 1) (env.store.root.getD 0) ==
      .error (.error .keyNotFound)) (by decide +kernel)
  refine ⟨env, hr, by simp [mapOf, replay, Op.apply], ?_⟩
  rw [findKey, Host.bind_of_ok (Host.getStore_apply env), eq_of_beq hp]
  rfl

/-- Four calls with a collision, a value-changing update and a deletion. -/
def smallRun : List Op :=
  [.insert 1 (5 : ℕ), .insert (3 : ℕ) (7 : ℕ), .update 1 (6 : ℕ), .delete (3 : ℕ)]

theorem valueChanging_smallRun : ValueChanging smallRun fun _ => none := by
  simp only [smallRun, ValueChanging, Op.ChangesValue, Op.apply, true_and, and_true]
  decide +kernel

theorem exists_reached_smallRun : ∃ env, Reached smallPoseidon2 (.account 0) smallRun env := by
  obtain ⟨env, hr, -⟩ := @exists_reached smallPoseidon2 (.account 0)
    smallRun [.account 0] (p := fun _ => true) (by decide +kernel)
  exact ⟨env, hr⟩

theorem refines_map_smallRun : ∃ env, Reached smallPoseidon2 (.account 0) smallRun env ∧
    (∀ key : U256, ∃ find, findKey key env = .ok (find, env) ∧
      find.Reports (wordLookup (mapOf smallRun) key)) ∧
    ∀ (op : Op) (auths : List Address), .account 0 ∈ auths →
      ((∃ env', op.call smallPoseidon2 auths env = .ok ((), env')) ↔
        op.Enabled (mapOf smallRun)) := by
  obtain ⟨env, hr⟩ := exists_reached_smallRun
  exact ⟨env, hr, refines_map hr valueChanging_smallRun⟩

/-! ### History independence -/

theorem Stores.tree_eq {P' : Poseidon2} {admin' : Address} {t t' : Tree} {S S' : Set Tree}
    {m : F → Option F} (h : Stores P admin env t S m) (h' : Stores P' admin' env' t' S' m) :
    t = t' :=
  h.represents.canon.ext h'.represents.canon fun k v => (h.models k v).trans (h'.models k v).symm

theorem root_eq_of_mapOf_eq {admin' : Address} (h : Reached P admin ops env)
    (h' : Reached P admin' ops' env') (hch : ValueChanging ops fun _ => none)
    (hch' : ValueChanging ops' fun _ => none) (heq : mapOf ops = mapOf ops') :
    env.store.root = env'.store.root := by
  obtain ⟨t, S, hst⟩ := h.stores hch
  obtain ⟨t', S', hst'⟩ := h'.stores hch'
  rw [heq] at hst
  rw [hst.represents.root, hst'.represents.root, hst.tree_eq hst']

theorem valueChanging_append {a b : List Op} : ∀ {m : F → Option F},
    ValueChanging (a ++ b) m ↔ ValueChanging a m ∧ ValueChanging b (replay a m) := by
  induction a with
  | nil => intro m; simp [ValueChanging, replay]
  | cons op a ih =>
      intro m
      simp only [List.cons_append, ValueChanging, ih, and_assoc]
      rfl

theorem Reached.of_append {rest : List Op} (h : Reached P admin (ops ++ rest) env) :
    ∃ env₁, Reached P admin ops env₁ ∧ Run (Step P) env₁ rest env := by
  obtain ⟨env₁, h₁, h₂⟩ := h.run.of_append
  have hsub := hashed_subset_of_run h₂
  exact ⟨env₁, ⟨h₁, h.collisionFree.mono fun q hq => hsub hq, fun q hq => h.neverZero q (hsub hq)⟩,
    h₂⟩

theorem Reached.enabled {op : Op} {rest : List Op} (h : Reached P admin (ops ++ op :: rest) env)
    (hch : ValueChanging ops fun _ => none) : op.Enabled (mapOf ops) := by
  obtain ⟨env₁, h₁, h₂⟩ := h.of_append
  cases h₂ with
  | cons hs _ =>
      obtain ⟨auths, hcall⟩ := hs
      obtain ⟨t, S, hst⟩ := h₁.stores hch
      have hauth := mem_of_call_ok hst.admin_eq hcall
      exact (hst.call_ok_iff h₁.separated hauth op).mp ⟨_, hcall⟩

theorem replay_append (a b : List Op) (m : F → Option F) :
    replay (a ++ b) m = replay b (replay a m) := List.foldl_append

theorem mapOf_insert_delete {k v : F} (hk : mapOf ops k = none) :
    mapOf (ops ++ [.insert k v, .delete k]) = mapOf ops := by
  change replay _ _ = _
  rw [replay_append]
  change Function.update (Function.update (mapOf ops) k (some v)) k none = _
  rw [Function.update_idem, ← hk, Function.update_eq_self]

theorem replay_insert_perm {kvs kvs' : List (F × F)} (hp : kvs.Perm kvs') :
    ∀ m : F → Option F, (kvs.map Prod.fst).Nodup →
      replay (kvs.map fun p => .insert p.1 p.2) m = replay (kvs'.map fun p => .insert p.1 p.2) m := by
  induction hp with
  | nil => intro m _; rfl
  | cons x _ ih => intro m hnd; exact ih _ (List.nodup_cons.mp hnd).2
  | swap x y l =>
      intro m hnd
      have hne : y.1 ≠ x.1 := by
        intro he
        simp [he] at hnd
      change replay _ (Function.update (Function.update m y.1 (some y.2)) x.1 (some x.2)) =
        replay _ (Function.update (Function.update m x.1 (some x.2)) y.1 (some y.2))
      rw [Function.update_comm hne]
  | trans h₁ _ ih₁ ih₂ =>
      intro m hnd
      exact (ih₁ m hnd).trans (ih₂ m ((h₁.map _).nodup_iff.mp hnd))

theorem valueChanging_inserts : ∀ (kvs : List (F × F)) (m : F → Option F),
    ValueChanging (kvs.map fun p => .insert p.1 p.2) m
  | [], _ => trivial
  | _ :: kvs, _ => ⟨trivial, valueChanging_inserts kvs _⟩

theorem replay_inserts_of_not_mem {k : F} : ∀ {kvs : List (F × F)} {m : F → Option F},
    k ∉ kvs.map Prod.fst → replay (kvs.map fun p => .insert p.1 p.2) m k = m k
  | [], _, _ => rfl
  | p :: kvs, m, h => by
      rw [List.map_cons, List.mem_cons, not_or] at h
      exact (replay_inserts_of_not_mem h.2).trans (Function.update_of_ne h.1 _ _)

theorem replay_inserts_of_mem {k : F} : ∀ {kvs : List (F × F)} {m : F → Option F},
    k ∈ kvs.map Prod.fst → replay (kvs.map fun p => .insert p.1 p.2) m k ≠ none
  | p :: kvs, m, h => by
      by_cases hk : k ∈ kvs.map Prod.fst
      · exact replay_inserts_of_mem (m := Op.apply (.insert p.1 p.2) m) hk
      · rw [List.map_cons, List.mem_cons] at h
        rw [List.map_cons]
        refine ne_of_eq_of_ne (replay_inserts_of_not_mem hk) ?_
        rw [h.resolve_right hk]
        simp [Op.apply]

theorem Reached.nodup_keys {kvs : List (F × F)}
    (h : Reached P admin (kvs.map fun p => .insert p.1 p.2) env) : (kvs.map Prod.fst).Nodup := by
  rw [List.Nodup, List.pairwise_map, List.pairwise_iff_getElem]
  intro i j hi hj hij he
  have hcut : kvs = kvs.take j ++ kvs[j] :: kvs.drop (j + 1) := by
    rw [List.cons_getElem_drop_succ, List.take_append_drop]
  rw [hcut, List.map_append, List.map_cons] at h
  have hen := h.enabled (valueChanging_inserts _ _)
  refine replay_inserts_of_mem ?_ hen
  rw [← he, List.mem_map]
  refine ⟨kvs[i], ?_, rfl⟩
  rw [List.mem_take_iff_getElem]
  exact ⟨i, by omega, rfl⟩

/-- **History independence of the root**: runs that end in one map end with one root; deleting a
freshly inserted key restores the root; insertions in any order give one root. -/
theorem root_determined_by_map (P : Poseidon2) (admin : Address) :
    (∀ ops ops' env env', Reached P admin ops env → Reached P admin ops' env' →
      ValueChanging ops (fun _ => none) → ValueChanging ops' (fun _ => none) →
      mapOf ops = mapOf ops' → env.store.root = env'.store.root) ∧
    (∀ ops env env' k v, Reached P admin ops env →
      Reached P admin (ops ++ [.insert k v, .delete k]) env' →
      ValueChanging ops (fun _ => none) → env'.store.root = env.store.root) ∧
    ∀ (kvs kvs' : List (F × F)) env env', kvs.Perm kvs' →
      Reached P admin (kvs.map fun p => .insert p.1 p.2) env →
      Reached P admin (kvs'.map fun p => .insert p.1 p.2) env' →
      env.store.root = env'.store.root := by
  refine ⟨fun ops ops' env env' h h' hch hch' heq => root_eq_of_mapOf_eq h h' hch hch' heq, ?_, ?_⟩
  · intro ops env env' k v h h' hch
    have hch' : ValueChanging (ops ++ [.insert k v, .delete k]) fun _ => none :=
      valueChanging_append.mpr ⟨hch, trivial, trivial, trivial⟩
    exact root_eq_of_mapOf_eq h' h hch' hch (mapOf_insert_delete (h'.enabled hch))
  · intro kvs kvs' env env' hp h h'
    exact root_eq_of_mapOf_eq h h' (valueChanging_inserts _ _) (valueChanging_inserts _ _)
      (replay_insert_perm hp _ h.nodup_keys)

theorem root_determined_by_map_smallRun : ∃ env env',
    Reached smallPoseidon2 (.account 0) smallRun env ∧
      Reached smallPoseidon2 (.account 0) [.insert 1 6] env' ∧
      env.store.root = env'.store.root := by
  obtain ⟨env, hr⟩ := exists_reached_smallRun
  obtain ⟨env', hr', -⟩ := @exists_reached smallPoseidon2 (.account 0)
    [.insert 1 6] [.account 0] (p := fun _ => true) (by decide +kernel)
  have hmap : mapOf smallRun = mapOf [.insert 1 6] := by
    have h31 : (1 : F) ≠ 3 := by decide +kernel
    funext x
    simp only [mapOf, smallRun, replay, List.foldl_cons, List.foldl_nil, Op.apply]
    rcases eq_or_ne x 3 with rfl | h3
    · simp [h31.symm]
    · rcases eq_or_ne x 1 with rfl | h1
      · simp [h3]
      · simp [h1, h3]
  exact ⟨env, env', hr, hr', (root_determined_by_map smallPoseidon2 (.account 0)).1 _ _ _ _ hr hr'
    valueChanging_smallRun ⟨trivial, trivial⟩ hmap⟩

end Enclave.AspNonMembership

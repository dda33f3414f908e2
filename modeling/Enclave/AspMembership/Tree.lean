import Enclave.AspMembership.Contract

/-! # The tree of the ASP membership contract

`Holds P levels leaves env`: the storage is that of a tree with the given leaves.  The constructor
establishes it for no leaves, `insert_leaf` keeps it with one leaf more, and on a full tree
`insert_leaf` is rejected. -/

namespace Enclave.AspMembership

open Merkle

theorem lawful_keys : keys.Lawful :=
  ⟨fun _ _ => rfl, fun _ _ _ => rfl, fun _ _ => rfl, fun _ _ => rfl, fun _ _ => rfl,
    fun _ _ _ => rfl, fun _ _ _ => rfl, fun _ => rfl, fun _ => rfl, fun _ => rfl⟩

/-- The storage is that of a tree with `levels` levels and the given leaves. -/
structure Holds (P : Poseidon2) (levels : ℕ) (leaves : List F) (env : Env Store) : Prop where
  levels_eq : env.store.levels = some levels
  nextIndex : env.store.nextIndex = some leaves.length
  length_le : leaves.length ≤ 2 ^ levels
  keeps : keys.Keeps P 0 levels leaves env.store
  root : env.store.root = some (rootOf P levels leaves).val

/-- Insertions are free, or the admin authorises them. -/
def MayInsert (auths : List Address) (env : Env Store) : Prop :=
  ∃ admin, env.store.admin = some admin ∧ (admin ∈ auths ∨ env.store.adminInsertOnly = some false)

variable {P : Poseidon2} {levels : ℕ} {leaves : List F} {env : Env Store} {auths : List Address}

def deployed (admin : Address) (levels : ℕ) : Env Store where
  store := { admin := some admin, filledSubtrees := zeroWords levels, zeroes := zeroWords levels,
             levels := some levels, nextIndex := some 0, root := some (zeroAt levels).val,
             adminInsertOnly := some true, events := [] }
  hashed := []

theorem constructor_apply (admin : Address) (h1 : 1 ≤ levels) (h32 : levels ≤ 32) :
    constructor admin levels blank = .ok ((), deployed admin levels) := by
  have hinit := FrontierKeys.initLevels_apply lawful_keys (List.range (levels + 1))
    ⟨{ blank.store with admin := some admin, levels := some levels, nextIndex := some 0,
                        adminInsertOnly := some true }, []⟩
    fun l hl => by rw [List.mem_range] at hl; omega
  rw [constructor, if_neg (by omega), Host.bind_of_ok (Host.modifyStore_apply _ _)]
  refine (Host.bind_of_ok hinit _).trans ?_
  rw [getZeroes_getElem? h32]
  rfl

theorem holds_deployed (hz : ZeroTable P) (admin : Address) (h32 : levels ≤ 32) :
    Holds P levels [] (deployed admin levels) := by
  refine ⟨rfl, rfl, Nat.zero_le _, ⟨⟨zeroAt, zeroWords_eq levels, ?_⟩, zeroWords_eq levels⟩, ?_⟩
  · intro l _ _ hbit
    simp at hbit
  · rw [rootOf_nil hz h32]
    rfl

theorem mayInsert_deployed {admin : Address} (hauth : admin ∈ auths) :
    MayInsert auths (deployed admin levels) := ⟨admin, rfl, Or.inl hauth⟩

theorem requireInsert_apply (h : MayInsert auths env) : requireInsert auths env = .ok ((), env) := by
  obtain ⟨admin, hadmin, hor⟩ := h
  rw [requireInsert, Host.bind_of_ok (Host.getStore_apply env)]
  rcases hor with hauth | hfree
  · split_ifs
    · rw [hadmin, Host.bind_of_ok (Host.unwrap_some _ env)]
      exact Host.requireAuth_of_mem hauth env
    · rfl
  · rw [hfree]
    rfl

theorem requireInsert_env {env' : Env Store} (h : requireInsert auths env = .ok ((), env')) :
    env' = env := by
  rw [requireInsert, Host.bind_of_ok (Host.getStore_apply env)] at h
  split_ifs at h
  · obtain ⟨admin, env₁, hadmin, hauth⟩ := Host.bind_eq_ok.mp h
    rw [(Host.requireAuth_eq_ok.mp hauth).2, (Host.unwrap_eq_ok.mp hadmin).2]
  · cases h
    rfl

/-- **`insert_leaf`**, once authorised, appends the leaf. -/
theorem Holds.insertLeaf_of_auth (h : Holds P levels leaves env) (hz : ZeroTable P)
    (h32 : levels ≤ 32) (hauth : requireInsert auths env = .ok ((), env))
    (hlt : leaves.length < 2 ^ levels) (leaf : F) :
    ∃ env', insertLeaf P auths leaf.val env = .ok ((), env') ∧
      Holds P levels (leaves ++ [leaf]) env' ∧ env'.store.admin = env.store.admin ∧
      env'.store.adminInsertOnly = env.store.adminInsertOnly ∧
      env'.store.events = env.store.events ++
        [.leafAdded leaf.val leaves.length (rootOf P levels (leaves ++ [leaf])).val] := by
  obtain ⟨g, pairs, hloop, hkeeps, -⟩ := h.keeps.insert lawful_keys hz h32 (Nat.zero_le _)
    (show [leaf].length = _ from rfl) (one_dvd _) hlt
  have hleaf : node P.compress (leafAt (leaves ++ [leaf])) 0 (leaves.length / 2 ^ 0) = leaf := by
    rw [pow_zero, Nat.div_one, node, leafAt, List.getD_append_right _ _ _ _ le_rfl]
    simp
  rw [hleaf, pow_zero, Nat.div_one, Nat.sub_zero] at hloop
  refine ⟨⟨{ env.store with
      filledSubtrees := g
      root := some (rootOf P levels (leaves ++ [leaf])).val
      events := env.store.events ++
        [.leafAdded leaf.val leaves.length (rootOf P levels (leaves ++ [leaf])).val]
      nextIndex := some (leaves.length + 1) }, pairs.map pairQuery ++ env.hashed⟩, ?_,
    ⟨h.levels_eq, ?_, ?_, ⟨hkeeps.filled, hkeeps.zeroes⟩, rfl⟩, rfl, rfl, rfl⟩
  · rw [insertLeaf, Host.bind_of_ok hauth,
      Host.bind_of_ok (Host.getStore_apply env), h.levels_eq,
      Host.bind_of_ok (Host.unwrap_some _ env), h.nextIndex,
      Host.bind_of_ok (Host.unwrap_some _ env), if_neg (by omega), Host.bind_of_ok hloop]
    rfl
  · simp
  · simpa using hlt

/-- **`insert_leaf`** appends the leaf. -/
theorem Holds.insertLeaf_apply (h : Holds P levels leaves env) (hz : ZeroTable P)
    (h32 : levels ≤ 32) (hauth : MayInsert auths env) (hlt : leaves.length < 2 ^ levels)
    (leaf : F) :
    ∃ env', insertLeaf P auths leaf.val env = .ok ((), env') ∧
      Holds P levels (leaves ++ [leaf]) env' ∧ MayInsert auths env' ∧
      env'.store.events = env.store.events ++
        [.leafAdded leaf.val leaves.length (rootOf P levels (leaves ++ [leaf])).val] := by
  obtain ⟨env', hins, hholds, hadmin, honly, hevents⟩ :=
    h.insertLeaf_of_auth hz h32 (requireInsert_apply hauth) hlt leaf
  refine ⟨env', hins, hholds, ?_, hevents⟩
  obtain ⟨admin, hsome, hor⟩ := hauth
  exact ⟨admin, hadmin.trans hsome, hor.imp_right honly.trans⟩

theorem Holds.insertLeaf_full (h : Holds P levels leaves env) (hauth : MayInsert auths env)
    (hfull : leaves.length = 2 ^ levels) (leaf : U256) :
    insertLeaf P auths leaf env = .error (.error .merkleTreeFull) := by
  rw [insertLeaf, Host.bind_of_ok (requireInsert_apply hauth),
    Host.bind_of_ok (Host.getStore_apply env), h.levels_eq,
    Host.bind_of_ok (Host.unwrap_some _ env), h.nextIndex,
    Host.bind_of_ok (Host.unwrap_some _ env), if_pos (by omega), Host.fail_apply]

theorem lt_of_insertLoop {σ ε : Type} {K : FrontierKeys σ ε} {k lvl index : ℕ} {leaf hash : U256}
    {e e' : Env σ} (h : K.insertLoop P (k + 1) lvl index leaf e = .ok (hash, e')) :
    leaf < bn256Modulus := by
  rw [FrontierKeys.insertLoop] at h
  obtain ⟨hash₁, e₁, hstep, -⟩ := Host.bind_eq_ok.mp h
  unfold FrontierKeys.insertStep at hstep
  split_ifs at hstep
  · obtain ⟨s, e₂, -, hstep⟩ := Host.bind_eq_ok.mp hstep
    obtain ⟨left, e₃, -, hstep⟩ := Host.bind_eq_ok.mp hstep
    exact (lt_of_poseidon2Compress _ hstep).2
  · obtain ⟨s, e₂, -, hstep⟩ := Host.bind_eq_ok.mp hstep
    obtain ⟨s', e₃, -, hstep⟩ := Host.bind_eq_ok.mp hstep
    obtain ⟨z, e₄, -, hstep⟩ := Host.bind_eq_ok.mp hstep
    exact (lt_of_poseidon2Compress _ hstep).1

/-- **An insertion that succeeds** appends a field element, and publishes its index. -/
theorem Holds.of_insertLeaf {leaf : U256} {env' : Env Store} (h : Holds P levels leaves env)
    (hz : ZeroTable P) (h1 : 1 ≤ levels) (h32 : levels ≤ 32)
    (hins : insertLeaf P auths leaf env = .ok ((), env')) :
    ∃ x : F, leaf = x.val ∧ Holds P levels (leaves ++ [x]) env' ∧
      env'.store.events = env.store.events ++
        [.leafAdded leaf leaves.length (rootOf P levels (leaves ++ [x])).val] := by
  have hcall := hins
  rw [insertLeaf] at hcall
  obtain ⟨_, env₁, hauth, hrest⟩ := Host.bind_eq_ok.mp hcall
  obtain rfl := requireInsert_env hauth
  rw [Host.bind_of_ok (Host.getStore_apply env₁), h.levels_eq,
    Host.bind_of_ok (Host.unwrap_some _ env₁), h.nextIndex,
    Host.bind_of_ok (Host.unwrap_some _ env₁)] at hrest
  split_ifs at hrest with hfull
  · cases hrest
  · obtain ⟨hash, env₂, hloop, -⟩ := Host.bind_eq_ok.mp hrest
    obtain ⟨k, rfl⟩ : ∃ k, levels = k + 1 := ⟨levels - 1, by omega⟩
    have hleaf : ((leaf : ℕ) : F).val = leaf := F.val_natCast_of_lt (lt_of_insertLoop hloop)
    obtain ⟨env'', hins', hholds, -, -, hevents⟩ :=
      h.insertLeaf_of_auth hz h32 hauth (by omega) (leaf : F)
    rw [hleaf, hins] at hins'
    cases hins'
    rw [hleaf] at hevents
    exact ⟨(leaf : F), hleaf.symm, hholds, hevents⟩

/-- The storage with another admin, and with insertions restricted or not. -/
def withAdmin (env : Env Store) (admin : Option Address) (adminOnly : Option Bool) : Env Store :=
  { env with store := { env.store with admin := admin, adminInsertOnly := adminOnly } }

theorem updateAdmin_ok {newAdmin : Address} {env' : Env Store}
    (h : updateAdmin auths newAdmin env = .ok ((), env')) :
    env' = withAdmin env (some newAdmin) env.store.adminInsertOnly := by
  rw [updateAdmin, Host.bind_of_ok (Host.getStore_apply env)] at h
  obtain ⟨admin, env₁, hadmin, hrest⟩ := Host.bind_eq_ok.mp h
  obtain ⟨_, env₂, hauth, hset⟩ := Host.bind_eq_ok.mp hrest
  obtain rfl := (Host.okOr_eq_ok.mp hadmin).2
  obtain rfl := (Host.requireAuth_eq_ok.mp hauth).2
  cases hset
  rfl

theorem setAdminInsertOnly_ok {adminOnly : Bool} {env' : Env Store}
    (h : setAdminInsertOnly auths adminOnly env = .ok ((), env')) :
    env' = withAdmin env env.store.admin (some adminOnly) := by
  rw [setAdminInsertOnly, Host.bind_of_ok (Host.getStore_apply env)] at h
  obtain ⟨admin, env₁, hadmin, hrest⟩ := Host.bind_eq_ok.mp h
  obtain ⟨_, env₂, hauth, hset⟩ := Host.bind_eq_ok.mp hrest
  obtain rfl := (Host.okOr_eq_ok.mp hadmin).2
  obtain rfl := (Host.requireAuth_eq_ok.mp hauth).2
  cases hset
  rfl

theorem Holds.withAdmin (h : Holds P levels leaves env) (admin : Option Address)
    (adminOnly : Option Bool) : Holds P levels leaves (withAdmin env admin adminOnly) :=
  ⟨h.levels_eq, h.nextIndex, h.length_le, ⟨h.keeps.filled, h.keeps.zeroes⟩, h.root⟩

end Enclave.AspMembership

import Enclave.Pool.MerkleTreeWithHistory

/-! # The tree of the pool

`Holds P levels leaves env`: the storage is that of a tree with the given leaves, every root in
the ring is the root of an earlier state, and the nodes of every state so far were hashed, up to
those over zero leaves.  `init` establishes it for no leaves and `insert_two_leaves` keeps it with
two leaves more. -/

namespace Enclave.Pool.MerkleTreeWithHistory

open Merkle

theorem lawful_keys : keys.Lawful :=
  ⟨fun _ _ => rfl, fun _ _ _ => rfl, fun _ _ => rfl, fun _ _ => rfl, fun _ _ => rfl,
    fun _ _ _ => rfl, fun _ _ _ => rfl, fun _ => rfl, fun _ => rfl, fun _ => rfl⟩

/-- Numbers of leaves at which the tree stood. -/
def IsState (leaves : List F) (n : ℕ) : Prop := n ≤ leaves.length ∧ 2 ∣ n

/-- The storage is that of a tree with `levels` levels and the given leaves. -/
structure Holds (P : Poseidon2) (levels : ℕ) (leaves : List F) (env : Env MerkleStore) :
    Prop where
  levels_eq : env.store.levels = some levels
  nextIndex : env.store.nextIndex = some leaves.length
  even : 2 ∣ leaves.length
  length_le : leaves.length ≤ 2 ^ levels
  keeps : keys.Keeps P 1 levels leaves env.store
  rootIndex : ∃ i < rootHistorySize, env.store.currentRootIndex = some i ∧
    env.store.root i = some (rootOf P levels leaves).val
  history : ∀ i v, env.store.root i = some v →
    ∃ n, IsState leaves n ∧ v = (rootOf P levels (leaves.take n)).val
  hashed : ∀ n, IsState leaves n → ∀ p ∈ treePairs P.compress (leafAt (leaves.take n)) levels,
    pairQuery p ∈ env.hashed ∨ ∃ l < levels, p = (zeroAt l, zeroAt l)

variable {P : Poseidon2} {levels : ℕ} {leaves : List F} {env : Env MerkleStore}

/-- The storage after `init`. -/
def initialised (levels : ℕ) : MerkleStore where
  levels := some levels
  currentRootIndex := some 0
  nextIndex := some 0
  filledSubtree := zeroWords levels
  zeroes := zeroWords levels
  root := Function.update (fun _ => none) 0 (some (zeroAt levels).val)

theorem init_apply (h1 : 1 ≤ levels) (h32 : levels ≤ 32) (log : List Query) :
    init levels ⟨blank, log⟩ = .ok ((), ⟨initialised levels, log⟩) := by
  have hinit := FrontierKeys.initLevels_apply lawful_keys (List.range (levels + 1))
    ⟨{ blank with levels := some levels }, log⟩ fun l hl => by rw [List.mem_range] at hl; omega
  have hnew : ¬ (blank.currentRootIndex.isSome = true) := Bool.false_ne_true
  rw [init, if_neg (by omega), Host.bind_of_ok (Host.getStore_apply _), if_neg hnew,
    Host.bind_of_ok (Host.modifyStore_apply _ _)]
  refine (Host.bind_of_ok hinit _).trans ?_
  rw [getZeroes_getElem? h32]
  rfl

theorem holds_initialised (hz : ZeroTable P) (h32 : levels ≤ 32) (log : List Query) :
    Holds P levels [] ⟨initialised levels, log⟩ where
  levels_eq := rfl
  nextIndex := rfl
  even := dvd_zero 2
  length_le := Nat.zero_le _
  keeps := ⟨⟨zeroAt, zeroWords_eq levels, fun l _ _ hbit => by simp at hbit⟩, zeroWords_eq levels⟩
  rootIndex := ⟨0, by decide, rfl, by rw [rootOf_nil hz h32]; rfl⟩
  history i v hv := by
    refine ⟨0, ⟨le_rfl, dvd_zero 2⟩, ?_⟩
    rw [List.take_zero, rootOf_nil hz h32]
    rcases eq_or_ne i 0 with rfl | hne
    · exact (Option.some.inj hv).symm
    · change Function.update (fun _ => none) 0 (some (zeroAt levels).val) i = some v at hv
      rw [Function.update_of_ne hne] at hv
      cases hv
  hashed n _ p hp := by
    rw [List.take_nil] at hp
    exact Or.inr (treePairs_zero (hz.mono h32) (fun i => leafAt_of_le (Nat.zero_le i)) hp)

theorem isState_append {l₁ l₂ : F} {n : ℕ} (h : IsState (leaves ++ [l₁, l₂]) n) :
    IsState leaves n ∨ n = leaves.length + 2 ∨ n = leaves.length + 1 := by
  obtain ⟨hle, hdvd⟩ := h
  rw [List.length_append, List.length_cons, List.length_singleton] at hle
  rcases Nat.lt_or_ge leaves.length n with h | h
  · omega
  · exact Or.inl ⟨h, hdvd⟩

/-- **`insert_two_leaves`** appends the two leaves. -/
theorem Holds.insertTwoLeaves_apply (h : Holds P levels leaves env) (hz : ZeroTable P)
    (h1 : 1 ≤ levels) (h32 : levels ≤ 32) (hlt : leaves.length < 2 ^ levels) (l₁ l₂ : F) :
    ∃ env', insertTwoLeaves P l₁.val l₂.val env =
        .ok ((leaves.length % 2 ^ 32, (leaves.length + 1) % 2 ^ 32), env') ∧
      Holds P levels (leaves ++ [l₁, l₂]) env' := by
  obtain ⟨i, hi, hcur, hroot⟩ := h.rootIndex
  have heven := h.even
  have hfit : leaves.length + 2 ^ 1 ≤ 2 ^ levels := by
    have : 2 ∣ 2 ^ levels := dvd_pow_self 2 (by omega)
    omega
  have hkeeps : keys.Keeps P 1 levels leaves
      (⟨env.store, .compress l₁ l₂ :: env.hashed⟩ : Env MerkleStore).store := h.keeps
  obtain ⟨g, pairs, hloop, hnew, hpairs⟩ := hkeeps.insert lawful_keys hz h32 h1
    (show [l₁, l₂].length = _ from rfl) heven hfit
  have hpos : leafAt (leaves ++ [l₁, l₂]) leaves.length = l₁ ∧
      leafAt (leaves ++ [l₁, l₂]) (leaves.length + 1) = l₂ := by
    unfold leafAt
    rw [List.getD_append_right _ _ _ _ le_rfl, List.getD_append_right _ _ _ _ (Nat.le_succ _)]
    simp
  have hblock : childPair P.compress (leafAt (leaves ++ [l₁, l₂])) 0 (leaves.length / 2) =
      (l₁, l₂) := by
    rw [childPair, node, node, show 2 * (leaves.length / 2) = leaves.length by omega, hpos.1,
      hpos.2]
  have hstart : node P.compress (leafAt (leaves ++ [l₁, l₂])) 1 (leaves.length / 2 ^ 1) =
      P.compress l₁ l₂ := by
    rw [pow_one, node_succ, hblock]
  rw [hstart, pow_one] at hloop
  have hlen : (leaves ++ [l₁, l₂]).length = leaves.length + 2 := by simp
  have htake : ∀ n ≤ leaves.length, (leaves ++ [l₁, l₂]).take n = leaves.take n := fun n hn =>
    List.take_append_of_le_length hn
  have hall : (leaves ++ [l₁, l₂]).take (leaves.length + 2) = leaves ++ [l₁, l₂] := by
    rw [← hlen, List.take_length]
  have hshl : checkedShl levels = some (2 ^ levels) := if_pos (by omega)
  refine ⟨⟨{ env.store with
      filledSubtree := g
      root := Function.update env.store.root ((i + 1) % rootHistorySize)
        (some (rootOf P levels (leaves ++ [l₁, l₂])).val)
      currentRootIndex := some ((i + 1) % rootHistorySize)
      nextIndex := some (leaves.length + 2) },
    pairs.map pairQuery ++ .compress l₁ l₂ :: env.hashed⟩, ?_, ?_⟩
  · rw [insertTwoLeaves, Host.bind_of_ok (Host.getStore_apply env), h.levels_eq,
      Host.bind_of_ok (Host.okOr_some _ _ env), h.nextIndex,
      Host.bind_of_ok (Host.okOr_some _ _ env), hcur, Host.bind_of_ok (Host.okOr_some _ _ env),
      hshl, Host.bind_of_ok (Host.okOr_some _ _ env), if_neg (by omega), if_neg (by omega),
      Host.bind_of_ok (poseidon2Compress_apply P l₁ l₂ env), Host.bind_of_ok hloop]
    rfl
  · refine ⟨h.levels_eq, by rw [hlen], by omega, by omega, ⟨hnew.filled, hnew.zeroes⟩,
      ⟨_, Nat.mod_lt _ (by decide), rfl, Function.update_self _ _ _⟩, ?_, ?_⟩
    · intro j v hv
      rcases eq_or_ne j ((i + 1) % rootHistorySize) with rfl | hne
      · refine ⟨leaves.length + 2, ⟨hlen.ge, by omega⟩, ?_⟩
        rw [hall]
        change Function.update env.store.root _ (some _) _ = some v at hv
        rw [Function.update_self] at hv
        exact (Option.some.inj hv).symm
      · change Function.update env.store.root _ (some _) j = some v at hv
        rw [Function.update_of_ne hne] at hv
        obtain ⟨n, hn, rfl⟩ := h.history j v hv
        refine ⟨n, ⟨by rw [hlen]; exact hn.1.trans (by omega), hn.2⟩, ?_⟩
        rw [htake n hn.1]
    · intro n hn p hp
      have hold : ∀ n, IsState leaves n →
          ∀ p ∈ treePairs P.compress (leafAt (leaves.take n)) levels,
          pairQuery p ∈ pairs.map pairQuery ++ .compress l₁ l₂ :: env.hashed ∨
            ∃ l < levels, p = (zeroAt l, zeroAt l) := fun n hn p hp =>
        (h.hashed n hn p hp).imp_left fun hq =>
          List.mem_append_right _ (List.mem_cons_of_mem _ hq)
      rcases isState_append hn with hn' | rfl | rfl
      · rw [htake n hn'.1] at hp
        exact hold n hn' p hp
      · rw [hall] at hp
        rcases treePairs_insert (f := leafAt leaves) (a := 1) heven le_rfl
          (fun i hi => leafAt_append_of_lt hi) (fun i hi => by
            rw [leafAt_of_le (by omega), leafAt_of_le (by omega)]) hp with hp | ⟨m, hm, rfl⟩
        · refine hold leaves.length ⟨le_rfl, heven⟩ p ?_
          rwa [List.take_length]
        · refine Or.inl ?_
          rcases Nat.eq_zero_or_pos m with rfl | hpos
          · rw [Nat.zero_add, pow_one, hblock]
            exact List.mem_append_right _ List.mem_cons_self
          · exact List.mem_append_left _ (List.mem_map_of_mem ((hpairs _).mpr ⟨m, hpos, hm, rfl⟩))
      · have := hn.2
        omega

theorem Holds.insertTwoLeaves_full (h : Holds P levels leaves env) (h32 : levels ≤ 32)
    (hfull : leaves.length = 2 ^ levels) (l₁ l₂ : U256) :
    insertTwoLeaves P l₁ l₂ env = .error (.error .merkleTreeFull) := by
  obtain ⟨i, -, hcur, -⟩ := h.rootIndex
  have hshl : checkedShl levels = some (2 ^ levels) := if_pos (by omega)
  have heven := h.even
  rw [insertTwoLeaves, Host.bind_of_ok (Host.getStore_apply env), h.levels_eq,
    Host.bind_of_ok (Host.okOr_some _ _ env), h.nextIndex,
    Host.bind_of_ok (Host.okOr_some _ _ env), hcur, Host.bind_of_ok (Host.okOr_some _ _ env),
    hshl, Host.bind_of_ok (Host.okOr_some _ _ env), if_neg (by omega), if_pos (by omega),
    Host.fail_apply]

/-- **What `insert_two_leaves` took**: two field elements, at the next two indices. -/
theorem Holds.of_insertTwoLeaves (h : Holds P levels leaves env) (hz : ZeroTable P)
    (h1 : 1 ≤ levels) (h32 : levels ≤ 32) {l₁ l₂ : U256} {idx : ℕ × ℕ} {env' : Env MerkleStore}
    (hins : insertTwoLeaves P l₁ l₂ env = .ok (idx, env')) :
    l₁ < bn256Modulus ∧ l₂ < bn256Modulus ∧ idx = (leaves.length, leaves.length + 1) ∧
      Holds P levels (leaves ++ [(l₁ : F), (l₂ : F)]) env' := by
  obtain ⟨i, -, hcur, -⟩ := h.rootIndex
  have heven := h.even
  have hpow : 2 ^ levels ≤ 2 ^ 32 := Nat.pow_le_pow_right (by decide) h32
  have htwo : 2 ∣ 2 ^ levels := dvd_pow_self 2 (by omega)
  have hlt : leaves.length < 2 ^ levels := by
    refine lt_of_le_of_ne h.length_le fun hfull => ?_
    rw [h.insertTwoLeaves_full h32 hfull] at hins
    cases hins
  have hshl : checkedShl levels = some (2 ^ levels) := if_pos (by omega)
  by_cases hin : l₁ ≥ bn256Modulus ∨ l₂ ≥ bn256Modulus
  · rw [insertTwoLeaves, Host.bind_of_ok (Host.getStore_apply env), h.levels_eq,
      Host.bind_of_ok (Host.okOr_some _ _ env), h.nextIndex,
      Host.bind_of_ok (Host.okOr_some _ _ env), hcur, Host.bind_of_ok (Host.okOr_some _ _ env),
      hshl, Host.bind_of_ok (Host.okOr_some _ _ env), if_neg (by omega), if_neg (by omega),
      poseidon2Compress, if_pos hin] at hins
    cases hins
  · have h₁ : l₁ < bn256Modulus := not_le.mp fun hle => hin (.inl hle)
    have h₂ : l₂ < bn256Modulus := not_le.mp fun hle => hin (.inr hle)
    obtain ⟨env'', happly, hholds⟩ := h.insertTwoLeaves_apply hz h1 h32 hlt (l₁ : F) (l₂ : F)
    rw [F.val_natCast_of_lt h₁, F.val_natCast_of_lt h₂, hins] at happly
    obtain ⟨hidx, rfl⟩ := Prod.mk.inj (Except.ok.inj happly)
    refine ⟨h₁, h₂, ?_, hholds⟩
    rw [hidx, Nat.mod_eq_of_lt (by omega), Nat.mod_eq_of_lt (by omega)]

theorem Holds.getLastRoot_apply (h : Holds P levels leaves env) :
    getLastRoot env = .ok ((rootOf P levels leaves).val, env) := by
  obtain ⟨i, -, hcur, hroot⟩ := h.rootIndex
  rw [getLastRoot, Host.bind_of_ok (Host.getStore_apply env), hcur,
    Host.bind_of_ok (Host.okOr_some _ _ env), hroot, Host.okOr_some]

/-- The last root is known, unless it is zero. -/
theorem Holds.isKnownRoot_apply (h : Holds P levels leaves env)
    (hne : rootOf P levels leaves ≠ 0) :
    isKnownRoot (rootOf P levels leaves).val env = .ok (true, env) := by
  obtain ⟨i, -, hcur, hroot⟩ := h.rootIndex
  have hfound : searchRoots env.store.root (rootOf P levels leaves).val i rootHistorySize i =
      true := by
    rw [show rootHistorySize = (rootHistorySize - 1) + 1 from rfl, searchRoots, if_pos hroot]
  rw [isKnownRoot, if_neg (fun h0 => hne (F.val_eq_zero_iff.mp h0)),
    Host.bind_of_ok (Host.getStore_apply env), hcur, Host.bind_of_ok (Host.okOr_some _ _ env),
    hfound]
  rfl

theorem exists_of_searchRoots {roots : ℕ → Option U256} {root : U256} {current : ℕ} :
    ∀ {fuel i : ℕ}, searchRoots roots root current fuel i = true → ∃ j, roots j = some root
  | fuel + 1, i, h => by
      rw [searchRoots] at h
      by_cases hi : roots i = some root
      · exact ⟨i, hi⟩
      · rw [if_neg hi] at h
        by_cases hend : (i + 1) % rootHistorySize = current
        · rw [if_pos hend] at h
          cases h
        · rw [if_neg hend] at h
          exact exists_of_searchRoots h

/-- **A known root is the root of an earlier state.** -/
theorem Holds.exists_of_isKnownRoot (h : Holds P levels leaves env) {root : U256}
    {env' : Env MerkleStore} (hknown : isKnownRoot root env = .ok (true, env')) :
    env' = env ∧ ∃ n, IsState leaves n ∧ root = (rootOf P levels (leaves.take n)).val := by
  obtain ⟨i, -, hcur, -⟩ := h.rootIndex
  unfold isKnownRoot at hknown
  split_ifs at hknown with h0
  · cases hknown
  · rw [Host.bind_of_ok (Host.getStore_apply env), hcur,
      Host.bind_of_ok (Host.okOr_some _ _ env)] at hknown
    obtain ⟨hsearch, rfl⟩ := Prod.mk.inj (Except.ok.inj hknown)
    obtain ⟨j, hj⟩ := exists_of_searchRoots hsearch
    exact ⟨rfl, h.history j root hj⟩

end Enclave.Pool.MerkleTreeWithHistory

import Enclave.Lib.Ring
import Enclave.Pool.Tree

/-! # Root history

The pool's ring of roots is a sliding window.  `run` makes any calls of `insert_two_leaves`, the
rejected ones included, and lists the roots that the accepted ones compute, the newest first.
`rootHistory_window` says what `is_known_root` and `get_last_root` answer after it. -/

namespace Enclave.Pool.MerkleTreeWithHistory

variable {P : Poseidon2} {env env' : Env MerkleStore}

/-! ### One insertion -/

/-- The root that an insertion of two leaves computes. -/
def computeRoot (P : Poseidon2) (leaf1 leaf2 : U256) : Call U256 := do
  let store ← Host.getStore
  let levels ← Host.okOr .notInitialized store.levels
  let nextIndex ← Host.okOr .notInitialized store.nextIndex
  let currentHash ← poseidon2Compress P leaf1 leaf2
  keys.insertLoop P (levels - 1) 1 (nextIndex / 2) currentHash

theorem fixes_insertLoop (k lvl currentIndex : ℕ) (currentHash : U256) :
    (keys.insertLoop P k lvl currentIndex currentHash).Fixes
      fun s : MerkleStore => (s.root, s.currentRootIndex) :=
  FrontierKeys.fixes_insertLoop (fun _ _ => rfl) (fun o => Host.Fixes.okOr _ o) _ _ _ _

/-- **What an accepted insertion does to the ring**: the next slot gets the root it computes. -/
theorem insertTwoLeaves_ring {leaf1 leaf2 : U256} {idx : ℕ × ℕ}
    (h : insertTwoLeaves P leaf1 leaf2 env = .ok (idx, env')) :
    ∃ root env₁ current, computeRoot P leaf1 leaf2 env = .ok (root, env₁) ∧
      env.store.currentRootIndex = some current ∧
      env'.store.currentRootIndex = some ((current + 1) % rootHistorySize) ∧
      env'.store.root =
        Function.update env.store.root ((current + 1) % rootHistorySize) (some root) := by
  unfold insertTwoLeaves at h
  rw [Host.bind_of_ok (Host.getStore_apply env)] at h
  obtain ⟨levels, env₁, hlevels, h₁⟩ := Host.bind_eq_ok.mp h
  obtain ⟨hlevels, rfl⟩ := Host.okOr_eq_ok.mp hlevels
  obtain ⟨nextIndex, env₂, hnext, h₂⟩ := Host.bind_eq_ok.mp h₁
  obtain ⟨hnext, rfl⟩ := Host.okOr_eq_ok.mp hnext
  obtain ⟨current, env₃, hcurrent, h₃⟩ := Host.bind_eq_ok.mp h₂
  obtain ⟨hcurrent, rfl⟩ := Host.okOr_eq_ok.mp hcurrent
  obtain ⟨maxLeaves, env₄, hmax, h₄⟩ := Host.bind_eq_ok.mp h₃
  obtain ⟨-, rfl⟩ := Host.okOr_eq_ok.mp hmax
  split_ifs at h₄
  · cases h₄
  · cases h₄
  · obtain ⟨pair, env₅, hpair, h₅⟩ := Host.bind_eq_ok.mp h₄
    obtain ⟨root, env₆, hloop, h₆⟩ := Host.bind_eq_ok.mp h₅
    obtain ⟨_, env₇, hmodify, h₇⟩ := Host.bind_eq_ok.mp h₆
    have hring : (env₆.store.root, env₆.store.currentRootIndex) =
        (env₄.store.root, env₄.store.currentRootIndex) :=
      (fixes_insertLoop _ _ _ _ hloop).trans (fixes_poseidon2Compress P
        (fun s : MerkleStore => (s.root, s.currentRootIndex)) leaf1 leaf2 hpair)
    obtain ⟨hroot, -⟩ := Prod.mk.inj hring
    cases hmodify
    cases h₇
    refine ⟨root, env₆, current, ?_, hcurrent, rfl, ?_⟩
    · rw [computeRoot, Host.bind_of_ok (Host.getStore_apply env₄), hlevels,
        Host.bind_of_ok (Host.okOr_some _ _ env₄), hnext, Host.bind_of_ok (Host.okOr_some _ _ env₄),
        Host.bind_of_ok hpair, hloop]
    · rw [← hroot]

/-- In a pool's tree the root computed is that of the leaves with the two new ones. -/
theorem Holds.computeRoot_eq {levels : ℕ} {leaves : List F} (h : Holds P levels leaves env)
    (hz : ZeroTable P) (h1 : 1 ≤ levels) (h32 : levels ≤ 32) (hlt : leaves.length < 2 ^ levels)
    (l₁ l₂ : F) : ∃ env₁, computeRoot P l₁.val l₂.val env =
      .ok ((rootOf P levels (leaves ++ [l₁, l₂])).val, env₁) := by
  obtain ⟨env', hins, hholds⟩ := h.insertTwoLeaves_apply hz h1 h32 hlt l₁ l₂
  obtain ⟨root, env₁, current, hcompute, -, hcurrent, hroot⟩ := insertTwoLeaves_ring hins
  obtain ⟨i, -, hcur, hslot⟩ := hholds.rootIndex
  obtain rfl := Option.some.inj (hcurrent.symm.trans hcur)
  rw [hroot, Function.update_self] at hslot
  exact ⟨env₁, by rw [hcompute, Option.some.inj hslot]⟩

/-! ### Runs -/

/-- One call: an accepted one puts the root it computes in front of the others. -/
def insertStep (P : Poseidon2) (s : Env MerkleStore × List U256) (leaves : U256 × U256) :
    Env MerkleStore × List U256 :=
  match insertTwoLeaves P leaves.1 leaves.2 s.1 with
  | .ok (_, env) => (env, ((computeRoot P leaves.1 leaves.2 s.1).toOption.elim 0 Prod.fst) :: s.2)
  | .error _ => s

/-- Calls in order. -/
def insertRun (P : Poseidon2) (s : Env MerkleStore × List U256) (calls : List (U256 × U256)) :
    Env MerkleStore × List U256 :=
  calls.foldl (insertStep P) s

/-- How many of the calls are accepted. -/
def accepted (P : Poseidon2) : Env MerkleStore → List (U256 × U256) → ℕ
  | _, [] => 0
  | env, leaves :: rest =>
      match insertTwoLeaves P leaves.1 leaves.2 env with
      | .ok (_, env) => accepted P env rest + 1
      | .error _ => accepted P env rest

/-- The ring holds the roots. -/
def HoldsRoots (s : Env MerkleStore × List U256) : Prop :=
  ∃ current, s.1.store.currentRootIndex = some current ∧
    Ring rootHistorySize s.1.store.root current s.2

theorem insertStep_of_error {s : Env MerkleStore × List U256} {leaves : U256 × U256}
    {e : Fault MerkleError} (h : insertTwoLeaves P leaves.1 leaves.2 s.1 = .error e) :
    insertStep P s leaves = s := by
  rw [insertStep, h]

/-- **A call**: a rejected one changes nothing, an accepted one adds the root it computes. -/
theorem insertStep_cases (s : Env MerkleStore × List U256) (leaves : U256 × U256) :
    ((∃ e, insertTwoLeaves P leaves.1 leaves.2 s.1 = .error e) ∧ insertStep P s leaves = s) ∨
      ∃ idx env root env₁, insertTwoLeaves P leaves.1 leaves.2 s.1 = .ok (idx, env) ∧
        computeRoot P leaves.1 leaves.2 s.1 = .ok (root, env₁) ∧
        insertStep P s leaves = (env, root :: s.2) ∧
        (HoldsRoots s → HoldsRoots (env, root :: s.2)) := by
  cases hins : insertTwoLeaves P leaves.1 leaves.2 s.1 with
  | error e => exact .inl ⟨⟨e, rfl⟩, insertStep_of_error hins⟩
  | ok p =>
      obtain ⟨root, env₁, current, hcompute, hcurrent, hcurrent', hroot⟩ :=
        insertTwoLeaves_ring hins
      refine .inr ⟨p.1, p.2, root, env₁, rfl, hcompute, by rw [insertStep, hins, hcompute]; rfl, ?_⟩
      rintro ⟨current', hcur, hring⟩
      obtain rfl := Option.some.inj (hcurrent.symm.trans hcur)
      refine ⟨_, hcurrent', ?_⟩
      rw [hroot]
      exact hring.push root

theorem HoldsRoots.insertRun {s : Env MerkleStore × List U256} (h : HoldsRoots s)
    (calls : List (U256 × U256)) : HoldsRoots (insertRun P s calls) := by
  induction calls generalizing s with
  | nil => exact h
  | cons leaves rest ih =>
      refine ih ?_
      obtain ⟨-, heq⟩ | ⟨idx, env, root, env₁, -, -, heq, hkeep⟩ := insertStep_cases s leaves
      · rwa [heq]
      · rw [heq]
        exact hkeep h

theorem insertRun_env (s : Env MerkleStore × List U256) (calls : List (U256 × U256)) :
    (insertRun P s calls).1 =
      calls.foldl (fun env leaves => Host.after (insertTwoLeaves P leaves.1 leaves.2) env) s.1 := by
  induction calls generalizing s with
  | nil => rfl
  | cons leaves rest ih =>
      have hstep : (insertStep P s leaves).1 =
          Host.after (insertTwoLeaves P leaves.1 leaves.2) s.1 := by
        unfold insertStep Host.after
        cases insertTwoLeaves P leaves.1 leaves.2 s.1 <;> rfl
      rw [List.foldl_cons, ← hstep]
      exact ih _

theorem length_insertRun (s : Env MerkleStore × List U256) (calls : List (U256 × U256)) :
    (insertRun P s calls).2.length = accepted P s.1 calls + s.2.length := by
  induction calls generalizing s with
  | nil => exact (Nat.zero_add _).symm
  | cons leaves rest ih =>
      refine (ih _).trans ?_
      obtain ⟨⟨e, hins⟩, heq⟩ | ⟨idx, env, root, env₁, hins, -, heq, -⟩ :=
        insertStep_cases (P := P) s leaves
      · rw [heq, accepted, hins]
      · rw [heq, accepted, hins, List.length_cons]
        exact (Nat.add_assoc _ _ _).symm.trans (Nat.add_right_comm _ _ _)

/-! ### The search -/

theorem searchRoots_iff {roots : ℕ → Option U256} {root : U256} {current : ℕ} :
    ∀ {fuel m : ℕ}, fuel + m = rootHistorySize → current < rootHistorySize →
      (searchRoots roots root current fuel ((current + m) % rootHistorySize) = true ↔
        ∃ d < rootHistorySize, m ≤ d ∧ roots ((current + d) % rootHistorySize) = some root)
  | 0, m, hm, _ => by
      constructor
      · rintro ⟨⟩
      · rintro ⟨d, hd, hle, -⟩
        omega
  | fuel + 1, m, hm, hcur => by
      rw [searchRoots]
      have hnext : ((current + m) % rootHistorySize + 1) % rootHistorySize =
          (current + (m + 1)) % rootHistorySize := by
        rw [Nat.mod_add_mod, Nat.add_assoc]
      by_cases hroot : roots ((current + m) % rootHistorySize) = some root
      · rw [if_pos hroot]
        exact iff_of_true rfl ⟨m, by omega, le_rfl, hroot⟩
      · rw [if_neg hroot, hnext]
        by_cases hlap : (current + (m + 1)) % rootHistorySize = current
        · -- back at the newest slot: all of them were seen
          rw [if_pos hlap]
          have hfuel : fuel = 0 := by
            unfold rootHistorySize at hm hlap hcur
            omega
          refine iff_of_false Bool.false_ne_true ?_
          rintro ⟨d, hd, hle, hslot⟩
          obtain rfl : d = m := by omega
          exact hroot hslot
        · rw [if_neg hlap, searchRoots_iff (by omega) hcur]
          constructor
          · rintro ⟨d, hd, hle, hslot⟩
            exact ⟨d, hd, by omega, hslot⟩
          · rintro ⟨d, hd, hle, hslot⟩
            rcases hle.eq_or_lt with rfl | hlt
            · exact absurd hslot hroot
            · exact ⟨d, hd, hlt, hslot⟩

theorem searchRoots_start {roots : ℕ → Option U256} {root : U256} {current : ℕ}
    (hcur : current < rootHistorySize) :
    searchRoots roots root current rootHistorySize current = true ↔
      ∃ j < rootHistorySize, roots j = some root := by
  have hsearch := @searchRoots_iff roots root current rootHistorySize 0 rfl hcur
  rw [Nat.add_zero, Nat.mod_eq_of_lt hcur] at hsearch
  rw [hsearch]
  constructor
  · rintro ⟨d, -, -, hslot⟩
    exact ⟨_, Nat.mod_lt _ (by decide), hslot⟩
  · rintro ⟨j, hj, hslot⟩
    refine ⟨(j + rootHistorySize - current) % rootHistorySize, Nat.mod_lt _ (by decide),
      Nat.zero_le _, ?_⟩
    rwa [Nat.add_mod_mod, show current + (j + rootHistorySize - current) = j + rootHistorySize by
      omega, Nat.add_mod_right, Nat.mod_eq_of_lt hj]

/-- **`is_known_root`** knows the last 90 roots, and not zero. -/
theorem HoldsRoots.isKnownRoot_apply {s : Env MerkleStore × List U256} (h : HoldsRoots s)
    (root : U256) : isKnownRoot root s.1 =
      .ok (decide (root ≠ 0 ∧ root ∈ s.2.take rootHistorySize), s.1) := by
  obtain ⟨current, hcur, hring⟩ := h
  unfold isKnownRoot
  by_cases hzero : root = 0
  · rw [if_pos hzero, decide_eq_false fun h => h.1 hzero, Host.pure_apply]
  · rw [if_neg hzero, Host.bind_of_ok (Host.getStore_apply _), hcur,
      Host.bind_of_ok (Host.okOr_some _ _ _), Host.pure_apply]
    congr 2
    rw [Bool.eq_iff_iff, decide_eq_true_iff, searchRoots_start hring.current_lt,
      hring.exists_slot_iff]
    exact ⟨fun hmem => ⟨hzero, hmem⟩, And.right⟩

/-- **`get_last_root`** answers the newest root. -/
theorem HoldsRoots.getLastRoot_apply {s : Env MerkleStore × List U256} (h : HoldsRoots s)
    {root : U256} (hroot : s.2.head? = some root) : getLastRoot s.1 = .ok (root, s.1) := by
  obtain ⟨current, hcur, hring⟩ := h
  rw [getLastRoot, Host.bind_of_ok (Host.getStore_apply _), hcur,
    Host.bind_of_ok (Host.okOr_some _ _ _), hring.slot_current, hroot, Host.okOr_some]

/-! ### After `init` -/

theorem levels_of_init {levels : ℕ} {log : List Query}
    (h : init levels ⟨blank, log⟩ = .ok ((), env)) : 1 ≤ levels ∧ levels ≤ 32 := by
  unfold init at h
  split_ifs at h with hlevels
  · cases h
  · omega

theorem holdsRoots_init {levels : ℕ} {log : List Query}
    (h : init levels ⟨blank, log⟩ = .ok ((), env)) :
    HoldsRoots (env, [(zeroAt levels).val]) := by
  obtain ⟨h1, h32⟩ := levels_of_init h
  rw [init_apply h1 h32] at h
  cases h
  exact ⟨0, rfl, Ring.start (by decide) _⟩

/-- **The root history is a sliding window.**  After any calls the ring knows the last 90 of the
roots that the accepted ones computed, the one of `init` before them, and answers the newest;
a rejected call changes nothing. -/
theorem rootHistory_window {levels : ℕ} {log : List Query}
    (hinit : init levels ⟨blank, log⟩ = .ok ((), env)) (calls : List (U256 × U256)) :
    let s := insertRun P (env, [(zeroAt levels).val]) calls
    let n := accepted P env calls
    s.1 = calls.foldl (fun env leaves => Host.after (insertTwoLeaves P leaves.1 leaves.2) env) env ∧
      s.2.length = n + 1 ∧
      (∀ root, isKnownRoot root s.1 =
        .ok (decide (root ≠ 0 ∧ root ∈ s.2.take (min (n + 1) rootHistorySize)), s.1)) ∧
      (∃ newest, s.2.head? = some newest ∧ getLastRoot s.1 = .ok (newest, s.1)) ∧
      ∀ leaves e, insertTwoLeaves P leaves.1 leaves.2 s.1 = .error e →
        insertRun P (env, [(zeroAt levels).val]) (calls ++ [leaves]) = s := by
  intro s n
  have hholds : HoldsRoots s := (holdsRoots_init hinit).insertRun calls
  have hlen : s.2.length = n + 1 := length_insertRun _ _
  refine ⟨insertRun_env _ _, hlen, fun root => ?_, ?_, fun leaves e hins => ?_⟩
  · rw [hholds.isKnownRoot_apply, ← hlen, min_comm, ← List.take_eq_take_min]
  · cases hroots : s.2 with
    | nil =>
        rw [hroots] at hlen
        cases hlen
    | cons newest rest =>
        exact ⟨newest, rfl, hholds.getLastRoot_apply (by rw [hroots]; rfl)⟩
  · rw [insertRun, List.foldl_append]
    exact insertStep_of_error hins

/-- One pair in a tree of one level; the second pair is rejected. -/
theorem rootHistory_window_oneLevel :
    let env₀ : Env MerkleStore := ⟨initialised 1, []⟩
    let s := insertRun zeroPoseidon2 (env₀, [(zeroAt 1).val]) [(1, 2), (3, 4)]
    accepted zeroPoseidon2 env₀ [(1, 2), (3, 4)] = 1 ∧
      ∀ root, isKnownRoot root s.1 = .ok (decide (root ≠ 0 ∧ root ∈ s.2.take 2), s.1) := by
  have hwindow := rootHistory_window (P := zeroPoseidon2)
    (@init_apply 1 le_rfl (by decide) []) [(1, 2), (3, 4)]
  have haccepted : accepted zeroPoseidon2 ⟨initialised 1, []⟩ [(1, 2), (3, 4)] = 1 := by
    decide
  refine ⟨haccepted, fun root => ?_⟩
  have hknown := hwindow.2.2.1 root
  rwa [haccepted] at hknown

end Enclave.Pool.MerkleTreeWithHistory

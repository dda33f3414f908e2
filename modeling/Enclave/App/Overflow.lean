import Enclave.App.Sessions
import Enclave.Pool.DoubleSpend

/-! # A session that overflows

A sample pool that accepts transfers without an amount, one every 200 ledgers.  After 257 of them
the tree has 514 leaves, and 100 events lie in a chunk at most.  The first synchronisation mirrors
the contract; the second one is handed all events again, and the live tree has no room for them
(`resync_overflows`). -/

namespace Enclave.App

open Prover Pool Rpc MerkleTreeWithHistory

/-! ### A sample pool -/

/-- A permutation that is consistent with the table; no other pair is compressed to zero. -/
def flatPoseidon2 : Poseidon2 :=
  { smallPoseidon2 with
    permutation2 := fun l r =>
      match getZeroes.idxOf? l.val with
      | some i => if l = r ∧ i < 32 then (zeroAt (i + 1) - l, r) else (1 - l, r)
      | none => (1 - l, r) }

theorem zeroTable_flatPoseidon2 : ZeroTable flatPoseidon2 := by
  unfold ZeroTable Merkle.ZeroChain
  decide +kernel

theorem compress_flatPoseidon2_ne (l r : F) : flatPoseidon2.compress l r ≠ 0 := by
  have hzeroes : ∀ i < 32, zeroAt (i + 1) ≠ 0 := by decide +kernel
  unfold Poseidon2.compress flatPoseidon2
  dsimp only
  cases getZeroes.idxOf? l.val with
  | none => simp
  | some i =>
      dsimp only
      split_ifs with h
      · simpa using hzeroes i h.2
      · simp

theorem rootOf_flatPoseidon2_ne (leaves : List F) : rootOf flatPoseidon2 treeDepth leaves ≠ 0 := by
  rw [rootOf, treeDepth, Merkle.node_succ]
  exact compress_flatPoseidon2_ne _ _

/-- A verifier that accepts. -/
def acceptingExternals : Externals where
  self := .contract 0
  token := sampleToken
  verify := fun _ _ _ => some true
  keccakXdr := fun _ => 0

/-- The leaves after `k` transfers. -/
def sampleLeaves (k : ℕ) : List F := (List.range (2 * k)).map fun i => ((i + 1 : ℕ) : F)

/-- The proof of the transfer after `k` others. -/
def sampleProof (k : ℕ) : Proof where
  proof := ⟨[0], [0], [0]⟩
  root := (rootOf flatPoseidon2 treeDepth (sampleLeaves k)).val
  inputNullifiers := [2 * k, 2 * k + 1]
  outputCommitment0 := 2 * k + 1
  outputCommitment1 := 2 * k + 2
  publicAmount := 0
  extDataHash := 0
  aspMembershipRoot := sampleMembershipRoot.val
  aspNonMembershipRoot := 0

def sampleExtData : ExtData := ⟨.account 1, default, [], []⟩

theorem sampleExtData_extAmount : sampleExtData.extAmount.val = 0 := rfl

/-- The transfer after `k` others. -/
def sampleTransfer (k : ℕ) : Action :=
  .transact [.account 1] (sampleProof k) sampleExtData (.account 1)

/-- `m` transfers after `k` others, one every 200 ledgers. -/
def transfersFrom (k m : ℕ) : List Entry :=
  (List.range' k m).map fun i => ⟨200 * i + 1, "", sampleTransfer i⟩

def transferEvents (k : ℕ) : List LedgerEvent :=
  [(200 * k + 1, .newNullifier (2 * k)), (200 * k + 1, .newNullifier (2 * k + 1)),
    (200 * k + 1, .newCommitment (2 * k + 1) (2 * k) []),
    (200 * k + 1, .newCommitment (2 * k + 2) (2 * k + 1) [])]

/-- The pool after `k` transfers. -/
structure AfterTransfers (k : ℕ) (env : Env Chain) : Prop where
  token : env.store.pool.token = some (.contract 1)
  verifier : env.store.pool.verifier = some (.contract 2)
  aspMembership : env.store.pool.aspMembership = some (.contract 3)
  aspNonMembership : env.store.pool.aspNonMembership = some (.contract 4)
  aspMembershipRoot : env.store.aspRoot (.contract 3) = some sampleMembershipRoot.val
  aspNonMembershipRoot : env.store.aspRoot (.contract 4) = some 0
  nullifiers : ∃ nulls, env.store.pool.nullifiers = some nulls ∧ ∀ n, 2 * k ≤ n → nulls n = none
  holds : Holds flatPoseidon2 treeDepth (sampleLeaves k) (merkleEnv env)

variable {k m : ℕ} {env : Env Chain}

theorem length_sampleLeaves (k : ℕ) : (sampleLeaves k).length = 2 * k := by
  rw [sampleLeaves, List.length_map, List.length_range]

theorem sampleLeaves_succ (k : ℕ) :
    sampleLeaves (k + 1) = sampleLeaves k ++ [((2 * k + 1 : ℕ) : F), ((2 * k + 2 : ℕ) : F)] := by
  rw [sampleLeaves, sampleLeaves, show 2 * (k + 1) = 2 * k + 1 + 1 by omega, List.range_succ,
    List.range_succ, List.map_append, List.map_append, List.append_assoc]
  rfl

theorem sampleProof_root (k : ℕ) :
    (sampleProof k).root = (rootOf flatPoseidon2 treeDepth (sampleLeaves k)).val := by
  unfold sampleProof
  dsimp only

theorem sampleProof_aspMembershipRoot (k : ℕ) :
    (sampleProof k).aspMembershipRoot = sampleMembershipRoot.val := by
  unfold sampleProof
  dsimp only

theorem eq_or_eq_of_mem_sampleProof {n : ℕ} (h : n ∈ (sampleProof k).inputNullifiers) :
    n = 2 * k ∨ n = 2 * k + 1 := by
  simpa [sampleProof] using h

theorem AfterTransfers.checked (h : AfterTransfers k env) :
    Checked acceptingExternals (sampleProof k) sampleExtData env where
  knownRoot := by
    rw [sampleProof_root]
    exact h.holds.isKnownRoot_apply (rootOf_flatPoseidon2_ne (sampleLeaves k))
  unspent := fun n hn => by
    obtain ⟨nulls, hnulls, hfree⟩ := h.nullifiers
    have hfresh : 2 * k ≤ n := by
      obtain rfl | rfl := eq_or_eq_of_mem_sampleProof hn <;> omega
    exact ⟨nulls, hnulls, by rw [hfree n hfresh]; rfl⟩
  extHash := Nat.zero_mod _
  amount_lt := by norm_num [sampleExtData_extAmount]
  publicAmount_lt := by
    rw [sampleProof]
    exact Nat.pos_of_neZero bn256Modulus
  publicAmount := by rw [sampleProof, sampleExtData_extAmount, Nat.cast_zero, Int.cast_zero]
  aspMembership := ⟨_, h.aspMembership, by
    rw [sampleProof_aspMembershipRoot]
    exact h.aspMembershipRoot⟩
  aspNonMembership := ⟨_, h.aspNonMembership, h.aspNonMembershipRoot⟩
  verified := ⟨_, h.verifier, rfl⟩

theorem AfterTransfers.step (h : AfterTransfers k env) (hk : k < 512) :
    AfterTransfers (k + 1) (step acceptingExternals flatPoseidon2 env (sampleTransfer k)) ∧
      (newEvents env (step acceptingExternals flatPoseidon2 env (sampleTransfer k))).map
        (Prod.mk (200 * k + 1)) = transferEvents k := by
  obtain ⟨nulls, hnulls, hfree⟩ := h.nullifiers
  have hmodulus : 1025 < bn256Modulus := by decide
  obtain ⟨e, hins, hholds⟩ := h.holds.insertTwoLeaves_apply zeroTable_flatPoseidon2 (by decide)
    (by decide) (by rw [length_sampleLeaves, treeDepth]; omega) ((2 * k + 1 : ℕ) : F)
    ((2 * k + 2 : ℕ) : F)
  rw [F.val_natCast_of_lt (by omega), F.val_natCast_of_lt (by omega), length_sampleLeaves,
    Nat.mod_eq_of_lt (by omega), Nat.mod_eq_of_lt (by omega)] at hins
  rw [← sampleLeaves_succ] at hholds
  have happly := @transact_apply _ flatPoseidon2 _ [.account 1] _ _ _
    List.mem_cons_self h.checked _ hnulls _ h.token rfl rfl rfl _ _ hins
  have hstep : Pool.step acceptingExternals flatPoseidon2 env (sampleTransfer k) = _ :=
    Host.after_of_ok happly
  rw [hstep]
  refine ⟨⟨h.token, h.verifier, h.aspMembership, h.aspNonMembership, h.aspMembershipRoot,
    h.aspNonMembershipRoot, ⟨_, rfl, fun n hn => ?_⟩, hholds⟩, ?_⟩
  · have hnot : n ∉ (sampleProof k).inputNullifiers := fun hmem => by
      obtain rfl | rfl := eq_or_eq_of_mem_sampleProof hmem <;> omega
    rw [markAll, if_neg hnot, hfree n (by omega)]
  · rw [newEvents_of_append rfl]
    rfl

theorem AfterTransfers.ledgerEvents (h : AfterTransfers k env) (hm : k + m ≤ 512) :
    ledgerEvents acceptingExternals flatPoseidon2 env (transfersFrom k m) =
      (List.range' k m).flatMap transferEvents := by
  induction m generalizing k env with
  | zero => rfl
  | succ m ih =>
      obtain ⟨hnext, hevents⟩ := h.step (by omega)
      rw [transfersFrom, List.range'_succ, List.map_cons, App.ledgerEvents, List.flatMap_cons,
        hevents]
      exact congrArg _ (ih hnext (by omega))

/-- The chain before the sample pool is deployed. -/
def beforeSamplePool : Env Chain :=
  ⟨{ pool := ⟨none, none, none, none, none, none, none, blank, []⟩
     balances := fun _ x => if x = .contract 0 ∨ x = .account 1 then 100 else 0
     aspRoot := fun asp => if asp = .contract 3 then some sampleMembershipRoot.val else some 0 }, []⟩

theorem aspRoot_beforeSamplePool :
    beforeSamplePool.store.aspRoot (.contract 3) = some sampleMembershipRoot.val ∧
      beforeSamplePool.store.aspRoot (.contract 4) = some 0 := by
  have hne : ¬ Address.contract 4 = .contract 3 := by decide
  unfold beforeSamplePool
  dsimp only
  exact ⟨if_pos rfl, if_neg hne⟩

theorem deployed_samplePool : Deployed samplePool ∧ AfterTransfers 0 samplePool := by
  have happly : constructor (.account 0) (.contract 1) (.contract 2) (.contract 3) (.contract 4)
      1000 treeDepth _ = .ok ((), _) :=
    @constructor_apply beforeSamplePool _ _ _ _ _ _ _ rfl (by decide) (by decide)
  have hpool : samplePool = _ := Host.after_of_ok happly
  have hdeployed : Deployed samplePool :=
    ⟨_, _, _, _, _, _, beforeSamplePool, rfl, by rw [hpool]; exact happly⟩
  refine ⟨hdeployed, ?_⟩
  have hholds := hdeployed.holds zeroTable_flatPoseidon2
  rw [hpool] at hholds ⊢
  exact ⟨rfl, rfl, rfl, rfl, aspRoot_beforeSamplePool.1, aspRoot_beforeSamplePool.2,
    ⟨_, rfl, fun _ _ => rfl⟩, hholds⟩

/-! ### Sample runs -/

def Network.syncRun (w : Network) (reported : List RpcEvent) (latest window : ℕ) : SyncRun where
  latestLedger := latest
  checkedLedger := latest
  window := window
  getEvents start stop limit :=
    if w.failing ≤ start then .error "unavailable"
    else if start < w.oldest then .outOfRange w.oldest w.newest
    else .events ((reported.filter fun e =>
      decide (start ≤ e.ledger ∧ e.ledger < w.searchEnd stop)).take limit) none
  aspSuccess := true

theorem Network.answers_syncRun (w : Network) (reported : List RpcEvent) (latest window : ℕ) :
    w.Answers reported (w.syncRun reported latest window) := by
  intro start stop _ _
  split_ifs with hfailing hearly
  · exact ⟨_, if_pos hfailing⟩
  · exact (if_neg hfailing).trans (if_pos hearly)
  · exact ⟨none, (if_neg hfailing).trans (if_neg hearly)⟩

/-- A network that retains everything and answers. -/
def sampleNetwork : Network := ⟨0, 100000, true, 100000⟩

/-- A run over it after `m` transfers, with a window of seven days. -/
def sampleRun (m : ℕ) : SyncRun :=
  sampleNetwork.syncRun (published acceptingExternals flatPoseidon2 samplePool (transfersFrom 0 m))
    (200 * m) 120960

/-- The events of `m` transfers. -/
def sampleTransfers (m : ℕ) : List LedgerEvent := (List.range' 0 m).flatMap transferEvents

theorem ledgerEvents_sample (hm : m ≤ 512) :
    ledgerEvents acceptingExternals flatPoseidon2 samplePool (transfersFrom 0 m) =
      sampleTransfers m :=
  deployed_samplePool.2.ledgerEvents (by omega)

theorem sorted_transfersFrom (k m : ℕ) :
    (transfersFrom k m).Pairwise fun x y => x.ledger ≤ y.ledger := by
  rw [transfersFrom, List.pairwise_map]
  exact (List.pairwise_lt_range' (s := k) (n := m)).imp fun hlt => by dsimp only; omega

theorem commitments_sampleTransfers (m : ℕ) :
    commitments (emissionsOf (sampleTransfers m)) = sampleLeaves m := by
  induction m with
  | zero => rfl
  | succ m ih =>
      have hlast : emissionsOf (transferEvents m) =
          [⟨((2 * m + 1 : ℕ) : F), [], 200 * m + 1⟩, ⟨((2 * m + 2 : ℕ) : F), [], 200 * m + 1⟩] := rfl
      rw [sampleTransfers, List.range'_concat, List.flatMap_append, emissionsOf_append, commitments,
        List.map_append, sampleLeaves_succ, ← ih, Nat.zero_add, Nat.one_mul, List.flatMap_singleton,
        hlast]
      rfl

theorem nodup_sampleTransfers (hm : m ≤ 512) :
    (commitments (emissionsOf (sampleTransfers m))).Nodup := by
  rw [commitments_sampleTransfers, sampleLeaves]
  have hmodulus : 1025 < bn256Modulus := by decide
  refine List.Nodup.map_on (fun i hi j hj hij => ?_) List.nodup_range
  rw [List.mem_range] at hi hj
  have hval := congrArg ZMod.val hij
  rw [F.val_natCast_of_lt (by omega), F.val_natCast_of_lt (by omega)] at hval
  omega

theorem ledger_of_mem_sampleTransfers {x : LedgerEvent} (h : x ∈ sampleTransfers m) :
    1 ≤ x.1 ∧ x.1 ≤ 200 * m := by
  obtain ⟨i, hi, hx⟩ := List.mem_flatMap.mp h
  rw [List.mem_range'_1] at hi
  have hledger : x.1 = 200 * i + 1 := by
    rw [transferEvents] at hx
    simp only [List.mem_cons, List.not_mem_nil, or_false] at hx
    obtain rfl | rfl | rfl | rfl := hx <;> rfl
  omega

theorem sorted_sampleTransfers (hm : m ≤ 512) :
    (sampleTransfers m).Pairwise fun x y => x.1 ≤ y.1 := by
  rw [← ledgerEvents_sample hm]
  exact sorted_ledgerEvents (sorted_transfersFrom 0 m)

/-- A chunk of the sample fits into a page. -/
def SampleFits (m : ℕ) : Prop :=
  ∀ start ∈ chunkStarts (200 * m) 1,
    (chunkEvents Prod.fst (sampleTransfers m) (200 * m) start).length ≤ pageSize

instance : DecidablePred SampleFits := fun _ => inferInstanceAs (Decidable (∀ _ ∈ _, _))

theorem startLedger_sampleRun (hm : m ≤ 512) :
    max (sampleRun m).startLedger sampleNetwork.oldest = 1 := by
  have hlatest : (sampleRun m).latestLedger + 1 - (sampleRun m).window = 0 := by
    change 200 * m + 1 - 120960 = 0
    omega
  rw [SyncRun.startLedger, hlatest]
  rfl

theorem delivered_sampleRun (hm : m ≤ 499) (hfits : SampleFits m) :
    sampleNetwork.delivered (sampleTransfers m) (sampleRun m) = sampleTransfers m := by
  rw [Network.delivered, startLedger_sampleRun (by omega)]
  refine (Network.deliveredFrom_eq rfl (show 200 * m < 100000 by omega)
    (sorted_sampleTransfers (by omega)) (Nat.le_add_left _ _) hfits).trans ?_
  refine List.filter_eq_self.mpr fun x hx => ?_
  obtain ⟨hle, hlt⟩ := ledger_of_mem_sampleTransfers hx
  exact decide_eq_true ⟨hle, Nat.lt_succ_of_le hlt⟩

theorem sampleFits_one : SampleFits 1 := by decide +kernel

theorem sampleFits_all : SampleFits 257 := by decide +kernel

/-! ### The second run -/

/-- A session on an empty database. -/
def sampleSession : Session := ⟨⟨.blank, .empty⟩, none⟩

variable {s : Session}

theorem fits_sampleRun (hm : m ≤ 499) (hfits : SampleFits m)
    (hroom : s.stores.pool.merkleTree.elim 0 MerkleTree.nextIndex + 2 * m ≤ 2 ^ treeDepth) :
    s.Fits (sampleTransfers m) sampleNetwork (sampleRun m) where
  gap h := by
    have hlast : 200 * m - s.lastSyncedLedger > 120960 := h.2
    omega
  covered e he _ _ := .inr (by rwa [delivered_sampleRun hm hfits])
  room := by
    have hcount := congrArg List.length (commitments_sampleTransfers m)
    rw [commitments, List.length_map, length_sampleLeaves] at hcount
    rwa [delivered_sampleRun hm hfits, hcount]
  noteKeys ledger owner encryptionKey noteKey h := by
    rw [delivered_sampleRun hm hfits] at h
    obtain ⟨i, -, hmem⟩ := List.mem_flatMap.mp h
    simp [transferEvents] at hmem

theorem notAhead_sampleRun (hmirrors : Mirrors flatPoseidon2 (sampleTransfers m) s.stores.pool) :
    s.NotAhead (sampleRun m) := by
  obtain ⟨n, live, -, hstored, -⟩ := hmirrors
  intro record hrecord
  obtain ⟨i, e, he, rfl⟩ := hstored.mem_leaves.mp hrecord
  obtain ⟨x, hx, -, hledger⟩ :=
    exists_of_mem_emissionsOf (List.mem_of_mem_take (List.mem_of_getElem? he))
  exact hledger.trans_le (ledger_of_mem_sampleTransfers hx).2

theorem numbered_sampleTransfers (hm : m ≤ 512) : Numbered 0 (sampleTransfers m) := by
  rw [← ledgerEvents_sample hm]
  exact (holds_run zeroTable_flatPoseidon2 (by decide) (by decide)
    (deployed_samplePool.1.holds zeroTable_flatPoseidon2) (transfersFrom 0 m)).1

/-- A sample run mirrors the contract while there is room. -/
theorem sampleRun_spec (hm : m ≤ 499) (hfits : SampleFits m)
    (hmirrors : Mirrors flatPoseidon2 (sampleTransfers m) s.stores.pool)
    (hroom : s.stores.pool.merkleTree.elim 0 MerkleTree.nextIndex + 2 * m ≤ 2 ^ treeDepth) :
    let after := startSync flatPoseidon2 (fun _ => "") (sampleRun m) s
    after.1 = .complete ∧ Mirrors flatPoseidon2 (sampleTransfers m) after.2.stores.pool ∧
      ∃ tree, after.2.stores.pool.merkleTree = some tree ∧
        MerkleTree.Holds flatPoseidon2 treeDepth (sampleLeaves m) tree := by
  have hcount := congrArg List.length (commitments_sampleTransfers m)
  rw [commitments, List.length_map, length_sampleLeaves] at hcount
  have hevs := ledgerEvents_sample (m := m) (by omega)
  obtain ⟨hafter, hdone⟩ := (fits_sampleRun hm hfits hroom).startSync_spec
    zeroTable_flatPoseidon2 (sampleNetwork.answers_syncRun _ _ _)
    (notAhead_sampleRun hmirrors) hevs (nodup_sampleTransfers (by omega))
    (sorted_sampleTransfers (by omega)) (numbered_sampleTransfers (by omega))
    (by rw [hcount]; exact (Nat.le_add_left _ _).trans hroom)
    hmirrors
  obtain ⟨-, hcomplete, -, tree, htree, hholds⟩ := hdone (show 200 * m < 100000 by omega)
  have hall : eventsBefore ((sampleRun m).latestLedger + 1) (sampleTransfers m) =
      sampleTransfers m := List.filter_eq_self.mpr fun x hx =>
    decide_eq_true (Nat.lt_succ_of_le (ledger_of_mem_sampleTransfers hx).2)
  rw [hall, commitments_sampleTransfers] at hholds
  exact ⟨hcomplete, hafter, tree, htree, hholds⟩

theorem mirrors_sampleSession (m : ℕ) :
    Mirrors flatPoseidon2 (sampleTransfers m) sampleSession.stores.pool :=
  ⟨0, [], Nat.zero_le _, stored_blank, live_none⟩

/-- **The second run fails**: the live tree has no room for the events that come again. -/
theorem resync_overflows :
    let history := transfersFrom 0 257
    let first := startSync flatPoseidon2 (fun _ => "") (sampleRun 257) sampleSession
    Deployed samplePool ∧ (history.Pairwise fun x y => x.ledger ≤ y.ledger) ∧
    (commitments (emissionsOf (ledgerEvents acceptingExternals flatPoseidon2 samplePool
      history))).Nodup ∧
    (emissionsOf (ledgerEvents acceptingExternals flatPoseidon2 samplePool history)).length = 514 ∧
    sampleNetwork.Answers (published acceptingExternals flatPoseidon2 samplePool history)
      (sampleRun 257) ∧
    (sampleRun 257).latestLedger < sampleNetwork.failing ∧
    first.1 = .complete ∧
    (fetchAllPoolEvents flatPoseidon2 (fun _ => "") (sampleRun 257)
      first.2.stores).1.success = false := by
  have hevs := ledgerEvents_sample (m := 257) (by decide)
  have hcount := congrArg List.length (commitments_sampleTransfers 257)
  rw [commitments, List.length_map, length_sampleLeaves] at hcount
  obtain ⟨hcomplete, hmirrors, tree, htree, hholds⟩ := sampleRun_spec (m := 257) (by decide)
    sampleFits_all (mirrors_sampleSession 257) (by decide)
  have hanswers := sampleNetwork.answers_syncRun
    (published acceptingExternals flatPoseidon2 samplePool (transfersFrom 0 257)) (200 * 257) 120960
  refine ⟨deployed_samplePool.1, sorted_transfersFrom _ _, ?_, ?_, hanswers, by decide, hcomplete, ?_⟩
  · rw [hevs]
    exact nodup_sampleTransfers (by decide)
  · rw [hevs, hcount]
  · refine Bool.eq_false_iff.mpr fun hsuccess => ?_
    cases hexec : (fetchChunks ((sampleRun 257).rpc fun _ => "") ((sampleRun 257).options
        flatPoseidon2) (sampleRun 257).latestLedger (sampleRun 257).startLedger
        ⟨none, 0, []⟩).exec (startSync flatPoseidon2 (fun _ => "") (sampleRun 257)
          sampleSession).2.stores with
    | mk result stores =>
        obtain ⟨fetched, hfetched, hresult⟩ := fetchAllPoolEvents_eq hexec
        rw [hfetched, hresult] at hsuccess
        cases result with
        | error e => exact Bool.false_ne_true hsuccess
        | ok p =>
            have hroom := room_of_fetchChunks (r := sampleRun 257) hanswers hevs
              (sorted_sampleTransfers (by decide))
              (numbered_sampleTransfers (by decide)) (Nat.zero_le _) htree hholds hexec
            have hdelivered := delivered_sampleRun (m := 257) (by decide) sampleFits_all
            have hstart : max (sampleRun 257).startLedger sampleNetwork.oldest =
              (sampleRun 257).startLedger := max_eq_left (Nat.zero_le _)
            rw [Network.delivered, hstart] at hdelivered
            rw [hdelivered, length_sampleLeaves, hcount] at hroom
            exact absurd hroom (by decide)

/-- Two runs after one transfer. -/
theorem resync_mirrors_sample :
    let first := (startSync flatPoseidon2 (fun _ => "") (sampleRun 1) sampleSession).2
    let second := startSync flatPoseidon2 (fun _ => "") (sampleRun 1) first
    second.1 = .complete ∧ ∃ root, second.2.stores.pool.getRoot = some (.ok (scalarToBytes root)) ∧
      let chain := run acceptingExternals flatPoseidon2 samplePool
        ((historyBefore 201 (transfersFrom 0 1)).map Entry.action)
      Pool.getRoot chain = .ok (root.val, chain) := by
  have hevs := ledgerEvents_sample (m := 1) (by decide)
  have hanswers := sampleNetwork.answers_syncRun
    (published acceptingExternals flatPoseidon2 samplePool (transfersFrom 0 1)) (200 * 1) 120960
  obtain ⟨-, hmirrors, tree, htree, hholds⟩ := sampleRun_spec (m := 1) (by decide)
    sampleFits_one (mirrors_sampleSession 1) (by decide)
  have hfirst := fits_sampleRun (m := 1) (s := sampleSession) (by decide) sampleFits_one (by decide)
  have hsecond := fits_sampleRun (m := 1)
    (s := (startSync flatPoseidon2 (fun _ => "") (sampleRun 1) sampleSession).2) (by decide)
    sampleFits_one (by rw [htree, Option.elim_some, hholds.nextIndex]; decide)
  rw [← hevs] at hfirst hsecond
  exact (resync_mirrors zeroTable_flatPoseidon2 deployed_samplePool.1
    (sorted_transfersFrom 0 1) (by rw [hevs]; exact nodup_sampleTransfers (by decide)) (.inl rfl)
    (Run.single (.sync hanswers (notAhead_sampleRun (mirrors_sampleSession 1)) hfirst)) hanswers
    (notAhead_sampleRun hmirrors) (by decide) hsecond).2

end Enclave.App

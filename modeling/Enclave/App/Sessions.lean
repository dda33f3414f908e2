import Enclave.App.Resync
import Enclave.Lib.Run
import Enclave.Pool.Acceptance

/-! # Sessions

A session is a sequence of synchronisations, each over a network of its own, on a database that
may be closed and opened again.  Runs whose deliveries leave out no commitment, and fit into the
live tree, mirror the contract (`resync_mirrors`). -/

namespace Enclave.App

open Prover Pool Rpc

/-- The commitments that are stored are the first of the events. -/
def Mirrors (P : Poseidon2) (evs : List LedgerEvent) (s : PoolStore) : Prop :=
  ∃ m live, m ≤ (emissionsOf evs).length ∧ Stored ((emissionsOf evs).take m) s ∧
    Live P live s.merkleTree

/-- The network knows of all that is stored. -/
def Session.NotAhead (s : Session) (r : SyncRun) : Prop :=
  ∀ record ∈ s.stores.pool.poolLeaves.records, record.ledger ≤ r.latestLedger

/-- A run that mirrors the contract as far as the network answers: it is not broken off, passes over
no commitment that is not stored, delivers no more than the live tree has room for, and meets no
note key of another length. -/
structure Session.Fits (evs : List LedgerEvent) (w : Network) (s : Session) (r : SyncRun) :
    Prop where
  gap : ¬ s.GapBroken r
  covered : ∀ e ∈ emissionsOf evs, e.ledger ≤ r.latestLedger → e.ledger < w.failing →
    e.text ∈ s.stores.pool.poolLeaves.records.map PoolLeaf.commitment ∨
      e ∈ emissionsOf (w.delivered evs r)
  room : s.stores.pool.merkleTree.elim 0 MerkleTree.nextIndex +
    (emissionsOf (w.delivered evs r)).length ≤ 2 ^ treeDepth
  noteKeys : NoteKeysFit (w.delivered evs r)

/-- The app is opened on a database, with or without `init`. -/
def Session.reopen (P : Poseidon2) (init : Bool) (s : Session) : Session :=
  let closed := { s.stores with pool := { s.stores.pool with merkleTree := none } }
  { s with stores := if init then ((onPool (rebuildTree P)).exec closed).2 else closed }

/-- What happens in a session. -/
inductive Move where
  | sync (w : Network) (r : SyncRun)
  | reopen (init : Bool)

variable {ext : Externals} {P : Poseidon2} {addressText : Address → String} {env : Env Chain}
  {history : List Entry} {evs : List LedgerEvent} {w : Network} {r : SyncRun} {s s' : Session}

/-- A step of a session, each run fitting. -/
inductive SessionStep (ext : Externals) (P : Poseidon2) (addressText : Address → String)
    (env : Env Chain) (history : List Entry) : Session → Move → Session → Prop
  | sync {s : Session} {w : Network} {r : SyncRun}
      (answers : w.Answers (published ext P env history) r) (notAhead : s.NotAhead r)
      (fits : s.Fits (ledgerEvents ext P env history) w r) :
      SessionStep ext P addressText env history s (.sync w r) (startSync P addressText r s).2
  | reopen (s : Session) (init : Bool) :
      SessionStep ext P addressText env history s (.reopen init) (s.reopen P init)

/-! ### One run -/

theorem Mirrors.exists_live {s : PoolStore} (h : Mirrors P evs s) : ∃ m live,
    m ≤ (emissionsOf evs).length ∧ Stored ((emissionsOf evs).take m) s ∧
      Live P live s.merkleTree ∧ live.length = s.merkleTree.elim 0 MerkleTree.nextIndex := by
  obtain ⟨m, live, hm, hstored, hlive⟩ := h
  cases htree : s.merkleTree with
  | none => exact ⟨m, [], hm, hstored, live_none, rfl⟩
  | some tree => exact ⟨m, live, hm, hstored, htree ▸ hlive, (hlive tree htree).nextIndex.symm⟩

theorem Session.NotAhead.le_countBefore (h : s.NotAhead r)
    (hsorted : evs.Pairwise fun x y => x.1 ≤ y.1) {m : ℕ} (hm : m ≤ (emissionsOf evs).length)
    (hstored : Stored ((emissionsOf evs).take m) s.stores.pool) :
    m ≤ countBefore evs (r.latestLedger + 1) := by
  refine not_lt.mp fun hlt => ?_
  have hget := List.getElem?_eq_getElem (hlt.trans_le hm)
  have hledger := h _ (hstored.mem_leaves.mpr ⟨_, _, (List.getElem?_take_of_lt hlt).trans hget, rfl⟩)
  exact lt_irrefl _ ((lt_countBefore_iff hsorted hget).mpr (Nat.lt_succ_of_le hledger))

theorem lt_of_stored {t : PoolStore} {i m : ℕ} {e : Emission}
    (hnodup : (commitments (emissionsOf evs)).Nodup)
    (hstored : Stored ((emissionsOf evs).take m) t) (he : (emissionsOf evs)[i]? = some e)
    (hmem : e.text ∈ t.poolLeaves.records.map PoolLeaf.commitment) : i < m := by
  obtain ⟨record, hrecord, htext⟩ := List.mem_map.mp hmem
  obtain ⟨j, e', he', rfl⟩ := hstored.mem_leaves.mp hrecord
  obtain ⟨hj, -⟩ := List.getElem?_eq_some_iff.mp he'
  rw [List.length_take] at hj
  rw [List.getElem?_take_of_lt (by omega)] at he'
  have hcommitment := Emission.text_eq_text.mp htext
  obtain ⟨hi, rfl⟩ := List.getElem?_eq_some_iff.mp he
  obtain ⟨hj', rfl⟩ := List.getElem?_eq_some_iff.mp he'
  have hinj := List.nodup_iff_injective_getElem.mp hnodup
  have hindex := Fin.mk.inj (@hinj ⟨j, by rwa [commitments, List.length_map]⟩
    ⟨i, by rwa [commitments, List.length_map]⟩
    (by simpa only [commitments, List.getElem_map] using hcommitment))
  omega

theorem lastLedger_eq (r : SyncRun) : lastLedger (r.rpc addressText) (r.options P) =
    r.latestLedger := by
  rw [lastLedger, SyncRun.options, Option.filter_some]
  split_ifs <;> rfl

theorem fetchAllPoolEvents_eq {t t' : AppStore} {result : Result (Progress NativeEvent)}
    (h : (fetchChunks (r.rpc addressText) (r.options P) r.latestLedger r.startLedger
      ⟨none, 0, []⟩).exec t = (result, t')) : ∃ fetched : FetchResult NativeEvent,
    fetchAllPoolEvents P addressText r t = (fetched, t') ∧ fetched.success = result.isOk := by
  have hstart : ¬ ((r.options P).startLedger.getD 0 = 0 ∧ (r.options P).cursor.getD "" = "") :=
    fun h => absurd h.1 (Nat.ne_of_gt (Nat.lt_of_lt_of_le Nat.one_pos (le_max_left _ _)))
  rw [fetchAllPoolEvents, fetchAllContractEvents, if_neg hstart, lastLedger_eq]
  dsimp only [SyncRun.options, Option.elim_some]
  rw [SyncRun.options] at h
  rw [h]
  cases result with
  | ok p => exact ⟨_, rfl, rfl⟩
  | error e => exact ⟨_, rfl, rfl⟩

/-- **The requests of a run**, whatever the network answers. -/
theorem Session.Fits.exec_fetchChunks (hfits : s.Fits evs w r)
    (hw : w.Answers (published ext P env history) r) (hahead : s.NotAhead r)
    (hevs : ledgerEvents ext P env history = evs)
    (hnodup : (commitments (emissionsOf evs)).Nodup)
    (hsorted : evs.Pairwise fun x y => x.1 ≤ y.1) (hnum : Numbered 0 evs)
    (hmirrors : Mirrors P evs s.stores.pool) :
    Mirrors P evs (fetchAllPoolEvents P addressText r s.stores).2.pool ∧
      (r.latestLedger < w.failing →
        (fetchAllPoolEvents P addressText r s.stores).1.success = true ∧
        Stored (emissionsOf (eventsBefore (r.latestLedger + 1) evs))
          (fetchAllPoolEvents P addressText r s.stores).2.pool) := by
  obtain ⟨m, live, hm, hstored, hlive, hlength⟩ := hmirrors.exists_live
  obtain ⟨result, stores, m', live', hexec, hm', hs', hlive', hdone⟩ :=
    App.exec_fetchChunks (p := ⟨none, 0, []⟩) hw hevs hnodup hsorted
      hnum (le_max_right r.startLedger w.oldest) (hahead.le_countBefore hsorted hm hstored) hstored
      hlive (hlength ▸ hfits.room) hfits.noteKeys fun i e he hlatest hfailing =>
        (hfits.covered e (List.mem_of_getElem? he) hlatest hfailing).imp_left
          (lt_of_stored hnodup hstored he)
  obtain hstart | ⟨hfailing, hfails⟩ := fetchChunks_start (P := P) hw
    r.startLedger ⟨none, 0, []⟩
  · obtain ⟨fetched, hfetched, hsuccess⟩ := fetchAllPoolEvents_eq (hstart ▸ hexec)
    rw [hfetched]
    refine ⟨⟨m', live', hm'.trans (countBefore_le hsorted _), hs', hlive'⟩, fun hresponsive => ?_⟩
    obtain ⟨hok, rfl⟩ := hdone hresponsive
    exact ⟨hsuccess.trans hok, take_countBefore hsorted _ ▸ hs'⟩
  · obtain ⟨message, hexec'⟩ := hfails s.stores
    obtain ⟨fetched, hfetched, -⟩ := fetchAllPoolEvents_eq hexec'
    rw [hfetched]
    exact ⟨⟨m, live, hm, hstored, hlive⟩, fun hresponsive => by omega⟩

theorem exec_onPool_rebuildTree (hz : ZeroTable P) {ems : List Emission} {t : AppStore}
    (hstored : Stored ems t.pool) (hfit : ems.length ≤ 2 ^ treeDepth) : ∃ tree,
    (onPool (rebuildTree P)).exec t =
        (.ok ems.length, { t with pool := { t.pool with merkleTree := some tree } }) ∧
      MerkleTree.Holds P treeDepth (commitments ems) tree := by
  obtain ⟨tree, hexec, htree⟩ := hstored.exec_rebuildTree hz hfit
  exact ⟨tree, exec_onPool hexec, htree⟩

/-- **A run that fits.** -/
theorem Session.Fits.startSync_spec (hz : ZeroTable P) (hfits : s.Fits evs w r)
    (hw : w.Answers (published ext P env history) r) (hahead : s.NotAhead r)
    (hevs : ledgerEvents ext P env history = evs)
    (hnodup : (commitments (emissionsOf evs)).Nodup)
    (hsorted : evs.Pairwise fun x y => x.1 ≤ y.1) (hnum : Numbered 0 evs)
    (hcount : (emissionsOf evs).length ≤ 2 ^ treeDepth) (hmirrors : Mirrors P evs s.stores.pool) :
    Mirrors P evs (startSync P addressText r s).2.stores.pool ∧
      (r.latestLedger < w.failing →
        (fetchAllPoolEvents P addressText r s.stores).1.success = true ∧
        (startSync P addressText r s).1 = .complete ∧
        Stored (emissionsOf (eventsBefore (r.latestLedger + 1) evs))
          (startSync P addressText r s).2.stores.pool ∧
        ∃ tree, (startSync P addressText r s).2.stores.pool.merkleTree = some tree ∧
          MerkleTree.Holds P treeDepth
            (commitments (emissionsOf (eventsBefore (r.latestLedger + 1) evs))) tree) := by
  obtain ⟨hmirrors', hdone⟩ :=
    hfits.exec_fetchChunks hw hahead hevs hnodup hsorted hnum hmirrors
  rw [startSync, if_neg hfits.gap]
  generalize fetchAllPoolEvents P addressText r s.stores = fetched at hmirrors' hdone
  obtain ⟨result, stores⟩ := fetched
  dsimp only at hmirrors' hdone ⊢
  cases hsuccess : result.success with
  | false =>
      refine ⟨hmirrors', fun hresponsive => ?_⟩
      rw [hsuccess] at hdone
      exact absurd (hdone hresponsive).1 Bool.false_ne_true
  | true =>
      obtain ⟨m, live, hm, hstored, hlive⟩ := hmirrors'
      have hfit : ((emissionsOf evs).take m).length ≤ 2 ^ treeDepth :=
        (List.length_take_le _ _).trans (le_trans hm hcount)
      obtain ⟨tree, hrebuild, htree⟩ := exec_onPool_rebuildTree hz hstored hfit
      rw [if_pos rfl, hrebuild]
      refine ⟨⟨m, _, hm, hstored.of_eq rfl rfl, live_some htree⟩, fun hresponsive => ?_⟩
      have hall := (hdone hresponsive).2
      obtain ⟨tree', hrebuild', htree'⟩ := exec_onPool_rebuildTree hz hall
        ((countBefore_le hsorted _).trans hcount)
      have hsame := congrArg (fun p => p.2.pool.merkleTree) (hrebuild.symm.trans hrebuild')
      exact ⟨rfl, rfl, hall.of_eq rfl rfl, tree', hsame, htree'⟩

theorem Mirrors.reopen (hz : ZeroTable P) (hcount : (emissionsOf evs).length ≤ 2 ^ treeDepth)
    (h : Mirrors P evs s.stores.pool) (init : Bool) :
    Mirrors P evs (s.reopen P init).stores.pool := by
  obtain ⟨m, live, hm, hstored, -⟩ := h
  have hclosed : Stored ((emissionsOf evs).take m) { s.stores.pool with merkleTree := none } :=
    hstored.of_eq rfl rfl
  cases init with
  | false => exact ⟨m, [], hm, hclosed, live_none⟩
  | true =>
      obtain ⟨tree, hrebuild, htree⟩ := exec_onPool_rebuildTree hz
        (t := { s.stores with pool := { s.stores.pool with merkleTree := none } }) hclosed
        ((List.length_take_le _ _).trans (le_trans hm hcount))
      rw [Session.reopen, if_pos rfl, hrebuild]
      exact ⟨m, _, hm, hstored.of_eq rfl rfl, live_some htree⟩

/-! ### Deployed pools -/

/-- A pool of ten levels, before its first call. -/
def Deployed (env : Env Chain) : Prop :=
  ∃ admin token verifier aspMembership aspNonMembership maximumDepositAmount before,
    before.store.pool.merkle = MerkleTreeWithHistory.blank ∧
    constructor admin token verifier aspMembership aspNonMembership maximumDepositAmount treeDepth
      before = .ok ((), env)

theorem Deployed.holds (hz : ZeroTable P) (h : Deployed env) :
    MerkleTreeWithHistory.Holds P treeDepth [] (merkleEnv env) := by
  obtain ⟨admin, token, verifier, aspMembership, aspNonMembership, maximum, before, hblank, h⟩ := h
  rw [constructor_apply hblank (by decide) (by decide)] at h
  cases h
  exact MerkleTreeWithHistory.holds_initialised hz (by decide) _

theorem getRoot_apply {levels : ℕ} {leaves : List F}
    (h : MerkleTreeWithHistory.Holds P levels leaves (merkleEnv env)) :
    Pool.getRoot env = .ok ((rootOf P levels leaves).val, env) :=
  merkle_eq_ok.mpr ⟨_, h.getLastRoot_apply, rfl⟩

/-! ### Sessions -/

/-- **Synchronising again** mirrors the contract at the ledger of the run, if every run fits. -/
theorem resync_mirrors (hz : ZeroTable P) (hdeployed : Deployed env)
    (hledgers : history.Pairwise fun x y => x.ledger ≤ y.ledger)
    (hnodup : (commitments (emissionsOf (ledgerEvents ext P env history))).Nodup)
    {s₀ : Session} (hfresh : s₀.stores.pool.Fresh P) {moves : List Move}
    (hrun : Run (SessionStep ext P addressText env history) s₀ moves s)
    (hw : w.Answers (published ext P env history) r) (hahead : s.NotAhead r)
    (hresponsive : r.latestLedger < w.failing)
    (hfits : s.Fits (ledgerEvents ext P env history) w r) :
    (fetchAllPoolEvents P addressText r s.stores).1.success = true ∧
    (startSync P addressText r s).1 = .complete ∧
    ∃ root, (startSync P addressText r s).2.stores.pool.getRoot =
        some (.ok (scalarToBytes root)) ∧
      let chain := run ext P env ((historyBefore (r.latestLedger + 1) history).map Entry.action)
      Pool.getRoot chain = .ok (root.val, chain) := by
  have hholds := hdeployed.holds hz
  have hsorted := @sorted_ledgerEvents ext P env _ hledgers
  obtain ⟨hnum, hfull⟩ := holds_run hz (by decide) (by decide) hholds history
  have hcount := hfull.length_le
  rw [List.nil_append, commitments, List.length_map] at hcount
  have hmirrors : Mirrors P (ledgerEvents ext P env history) s.stores.pool := by
    refine Run.invariant (I := fun s : Session =>
      Mirrors P (ledgerEvents ext P env history) s.stores.pool) ?_ ?_ hrun
    · intro s move s' hs hstep
      cases hstep with
      | sync answers notAhead fits =>
          exact (fits.startSync_spec hz answers notAhead rfl hnodup hsorted hnum hcount hs).1
      | reopen init => exact hs.reopen hz hcount init
    · obtain ⟨hstored, hlive⟩ := hfresh.stored hz
      exact ⟨0, [], Nat.zero_le _, hstored, hlive⟩
  obtain ⟨hfetched, hcomplete, -, tree, htree, htreeHolds⟩ :=
    (hfits.startSync_spec hz hw hahead rfl hnodup hsorted hnum hcount
      hmirrors).2 hresponsive
  refine ⟨hfetched, hcomplete, rootOf P treeDepth (commitments (emissionsOf
    (eventsBefore (r.latestLedger + 1) (ledgerEvents ext P env history)))), ?_, ?_⟩
  · rw [PoolStore.getRoot, htree]
    exact congrArg some htreeHolds.root_apply
  · have hthen := (@holds_run ext _ _ _ _ hz (by decide) (by decide) hholds
      (historyBefore (r.latestLedger + 1) history)).2
    rw [ledgerEvents_historyBefore hledgers, List.nil_append] at hthen
    exact getRoot_apply hthen

end Enclave.App

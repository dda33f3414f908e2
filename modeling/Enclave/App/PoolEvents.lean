import Enclave.App.PoolMirror

/-! # Events of the pool, processed

Events come with the ledger that they were published in.  Their commitments are numbered
consecutively (`Numbered`), whatever else comes between them.  `exec_processEvents` is the run
lemma: events that are delivered once more change nothing but the live tree, new ones are
appended. -/

namespace Enclave.App

open Prover Pool

/-- An event of the pool and its ledger. -/
abbrev LedgerEvent := ℕ × Pool.Event

variable {addressText : Address → String} {P : Poseidon2}

/-- The event as the app handles it. -/
def native (addressText : Address → String) (x : LedgerEvent) : NativeEvent :=
  decodeEvent addressText ⟨Rpc.topics x.2, Rpc.value x.2, x.1, none⟩

def emission? : LedgerEvent → Option Emission
  | (ledger, .newCommitment commitment _ output) => some ⟨commitment, output, ledger⟩
  | _ => none

def emissionsOf (evs : List LedgerEvent) : List Emission := evs.filterMap emission?

/-- The commitments are numbered from `n` on, and are field elements. -/
def Numbered : ℕ → List LedgerEvent → Prop
  | _, [] => True
  | n, (_, .newCommitment commitment index _) :: rest =>
      index = n ∧ commitment < bn256Modulus ∧ Numbered (n + 1) rest
  | n, _ :: rest => Numbered n rest

variable {ems full : List Emission} {e : Emission} {evs : List LedgerEvent} {s s' : PoolStore}
  {n m : ℕ} {live : List F}

/-! ### One event -/

theorem processEvents_newCommitment {index ledger : ℕ} {commitment : U256} {output : List UInt8}
    (h : commitment < bn256Modulus) :
    processEvents P ((native addressText (ledger, .newCommitment commitment index output)) ::
        evs.map (native addressText)) = (do
      (⟨commitment, output, ledger⟩ : Emission).process P index
      let counts ← processEvents P (evs.map (native addressText))
      return { counts with commitments := counts.commitments + 1 }) := by
  rw [Emission.process, F.val_natCast_of_lt h]
  rfl

theorem processEvents_newNullifier {ledger : ℕ} {nullifier : U256} :
    processEvents P ((native addressText (ledger, .newNullifier nullifier)) ::
        evs.map (native addressText)) = (do
      processNewNullifier (.bigint nullifier) ledger
      let counts ← processEvents P (evs.map (native addressText))
      return { counts with nullifiers := counts.nullifiers + 1 }) := rfl

theorem processEvents_publicKey {ledger : ℕ} {owner : Address} {encryptionKey noteKey : List UInt8} :
    processEvents P ((native addressText (ledger, .publicKey owner encryptionKey noteKey)) ::
        evs.map (native addressText)) = processEvents P (evs.map (native addressText)) := rfl

theorem exec_processNewNullifier (nullifier ledger : ℕ) (s : PoolStore) :
    ∃ t, (processNewNullifier (.bigint nullifier) ledger).exec s =
      (.ok (), { s with poolNullifiers := t }) := by
  obtain ⟨t, hput, -⟩ :=
    ObjectStore.exists_put rfl s.poolNullifiers ⟨hex64 nullifier, ledger⟩
  refine ⟨t, ?_⟩
  rw [processNewNullifier, normalizeU256ToHex_bigint]
  exact (Wasm.exec_bind_of_ok (Wasm.exec_pure _ s) _).trans (exec_dbPut hput)

/-! ### Many events -/

/-- **Run lemma.** The first `m` emissions are stored; events from the `n`-th emission on are
processed. -/
theorem exec_processEvents (hnodup : (commitments full).Nodup) (hnum : Numbered n evs)
    (hfull : emissionsOf evs <+: full.drop n) (hnm : n ≤ m) (hm : m ≤ full.length)
    (hstored : Stored (full.take m) s) (hlive : Live P live s.merkleTree)
    (hroom : live.length + (emissionsOf evs).length ≤ 2 ^ treeDepth) :
    ∃ counts s', (processEvents P (evs.map (native addressText))).exec s = (.ok counts, s') ∧
      Stored (full.take (max m (n + (emissionsOf evs).length))) s' ∧
      Live P (live ++ commitments (emissionsOf evs)) s'.merkleTree ∧
      s'.merkleTree.isSome = s.merkleTree.isSome := by
  induction evs generalizing n m live s with
  | nil =>
      refine ⟨⟨0, 0⟩, s, rfl, ?_, ?_, rfl⟩
      · rwa [emissionsOf, List.filterMap_nil, List.length_nil, Nat.add_zero, max_eq_left hnm]
      · rwa [emissionsOf, List.filterMap_nil, commitments, List.map_nil, List.append_nil]
  | cons x rest ih =>
      obtain ⟨ledger, event⟩ := x
      rw [List.map_cons]
      cases event with
      | newCommitment commitment index output =>
          obtain ⟨rfl, hlt, hnum⟩ := hnum
          have hcons : emissionsOf ((ledger, .newCommitment commitment index output) :: rest) =
              ⟨commitment, output, ledger⟩ :: emissionsOf rest := rfl
          rw [hcons] at hfull hroom ⊢
          rw [List.length_cons] at hroom
          obtain ⟨tail, htail⟩ := hfull
          have hnth : full[index]? = some ⟨commitment, output, ledger⟩ := by
            rw [← List.head?_drop, ← htail]
            rfl
          have hrest : emissionsOf rest <+: full.drop (index + 1) := by
            refine ⟨tail, ?_⟩
            rw [← List.tail_drop, ← htail]
            rfl
          have hindex : index < full.length := (List.getElem?_eq_some_iff.mp hnth).1
          -- the records after this event, before the tree gets the commitment
          have hevent : ∃ s₁, (Emission.process P index ⟨commitment, output, ledger⟩).exec s =
                (insertIntoTree P (Emission.text ⟨commitment, output, ledger⟩)).exec s₁ ∧
              Stored (full.take (max m (index + 1))) s₁ ∧ s₁.merkleTree = s.merkleTree := by
            rcases Nat.lt_or_ge index m with hlt' | hge
            · refine ⟨s, hstored.exec_again ?_, ?_, rfl⟩
              · rw [List.getElem?_take_of_lt hlt', hnth]
              · rwa [max_eq_left hlt']
            · obtain rfl : index = m := Nat.le_antisymm hnm hge
              have hlen : (full.take index).length = index := List.length_take_of_le hm
              have hnew : (commitment : F) ∉ commitments (full.take index) := by
                intro hmem
                obtain ⟨e, he, heq⟩ := List.mem_map.mp hmem
                obtain ⟨i, hi, rfl⟩ := List.mem_iff_getElem.mp he
                rw [hlen] at hi
                rw [List.getElem_take] at heq
                have hinj := List.nodup_iff_injective_getElem.mp hnodup
                have hsame := @hinj ⟨i, by rw [commitments, List.length_map]; omega⟩
                  ⟨index, by rw [commitments, List.length_map]; omega⟩ (by
                    simp only [commitments, List.getElem_map, heq]
                    rw [(List.getElem?_eq_some_iff.mp hnth).2])
                exact hi.ne (Fin.mk.inj hsame)
              obtain ⟨s₁, hexec, hs₁, htree⟩ := hstored.exec_new (P := P)
                (e := ⟨commitment, output, ledger⟩) hnew
              rw [hlen] at hexec
              refine ⟨s₁, hexec, ?_, htree⟩
              rwa [max_eq_right (Nat.le_succ _), List.take_add_one, hnth]
          obtain ⟨s₁, hexec, hs₁, htree⟩ := hevent
          obtain ⟨tree, hins, hlive₁, hsome⟩ := exec_insertIntoTree (P := P) (s := s₁)
            (htree ▸ hlive) (by omega) ⟨commitment, output, ledger⟩
          obtain ⟨counts, s', hrun, hs', hlive', hsome'⟩ := ih hnum hrest (le_max_right m _)
            (by omega) (@Stored.of_eq _ _ { s₁ with merkleTree := tree } hs₁ rfl rfl) hlive₁
            (by rw [List.length_append, List.length_singleton]; omega)
          refine ⟨{ counts with commitments := counts.commitments + 1 }, s', ?_, ?_, ?_, ?_⟩
          · rw [processEvents_newCommitment hlt, Wasm.exec_bind_of_ok (hexec.trans hins),
              Wasm.exec_bind_of_ok hrun]
            rfl
          · rw [List.length_cons]
            rwa [max_assoc, max_eq_right (show index + 1 ≤ index + 1 + _ by omega), Nat.add_assoc,
              Nat.add_comm 1] at hs'
          · rwa [commitments, List.map_cons, List.append_cons]
          · rw [hsome', hsome, htree]
      | newNullifier nullifier =>
          obtain ⟨t, hput⟩ := exec_processNewNullifier nullifier ledger s
          obtain ⟨counts, s', hrun, hs', hlive', hsome'⟩ := ih (s := { s with poolNullifiers := t })
            hnum hfull hnm hm (hstored.of_eq rfl rfl) hlive hroom
          refine ⟨{ counts with nullifiers := counts.nullifiers + 1 }, s', ?_, hs', hlive', hsome'⟩
          rw [processEvents_newNullifier, Wasm.exec_bind_of_ok hput, Wasm.exec_bind_of_ok hrun]
          rfl
      | publicKey owner encryptionKey noteKey =>
          rw [processEvents_publicKey]
          exact ih hnum hfull hnm hm hstored hlive hroom

/-- **Events that are processed** are stored, each once. -/
theorem Stored.of_processEvents {counts : EventCounts} (hstored : Stored ems s)
    (hnum : Numbered ems.length evs)
    (h : (processEvents P (evs.map (native addressText))).exec s = (.ok counts, s')) :
    Stored (ems ++ emissionsOf evs) s' := by
  induction evs generalizing ems s counts with
  | nil =>
      cases h
      rwa [emissionsOf, List.filterMap_nil, List.append_nil]
  | cons x rest ih =>
      obtain ⟨ledger, event⟩ := x
      rw [List.map_cons] at h
      cases event with
      | newCommitment commitment index output =>
          obtain ⟨rfl, hlt, hnum⟩ := hnum
          rw [processEvents_newCommitment hlt] at h
          obtain ⟨⟨⟩, s₂, hprocess, h⟩ := Wasm.exec_bind_eq_ok.mp h
          obtain ⟨counts', s₃, hrest, h⟩ := Wasm.exec_bind_eq_ok.mp h
          cases h
          by_cases hc : (commitment : F) ∈ commitments ems
          · rw [hstored.exec_twice (e := ⟨commitment, output, ledger⟩) hc] at hprocess
            cases hprocess
          · obtain ⟨s₁, hexec, hs₁, -⟩ := hstored.exec_new (P := P)
              (e := ⟨commitment, output, ledger⟩) hc
            rw [hexec] at hprocess
            obtain ⟨hleaves, houtputs⟩ := insertIntoTree_frame hprocess
            have hs₂ := ih (hs₁.of_eq hleaves houtputs)
              (by rwa [List.length_append, List.length_singleton]) hrest
            rwa [List.append_assoc] at hs₂
      | newNullifier nullifier =>
          rw [processEvents_newNullifier] at h
          obtain ⟨⟨⟩, s₂, hprocess, h⟩ := Wasm.exec_bind_eq_ok.mp h
          obtain ⟨counts', s₃, hrest, h⟩ := Wasm.exec_bind_eq_ok.mp h
          cases h
          obtain ⟨t, hput⟩ := exec_processNewNullifier nullifier ledger s
          rw [hput] at hprocess
          cases hprocess
          have hs₁ : Stored ems { s with poolNullifiers := t } := hstored.of_eq rfl rfl
          exact ih hs₁ hnum hrest
      | publicKey owner encryptionKey noteKey =>
          rw [processEvents_publicKey] at h
          exact ih hstored hnum h

theorem exec_process_ok {i : ℕ} (h : (e.process P i).exec s = (.ok (), s')) :
    ∃ s₁, s₁.merkleTree = s.merkleTree ∧ (insertIntoTree P e.text).exec s₁ = (.ok (), s') := by
  have hput : ∀ {ρ κ : Type} [LinearOrder κ] {schema : StoreSchema ρ κ String}
      {store : PoolStore → ObjectStore schema}
      {setStore : ObjectStore schema → PoolStore → PoolStore} {value : ρ} {t t' : PoolStore},
      (dbPut store setStore value).exec t = (.ok (), t') →
      (∀ records t, (setStore records t).merkleTree = t.merkleTree) →
      t'.merkleTree = t.merkleTree := by
    intro ρ κ _ schema store setStore value t t' hexec hset
    cases hrecords : (store t).put value with
    | none =>
        rw [exec_dbPut_refused hrecords] at hexec
        cases hexec
    | some records =>
        rw [exec_dbPut hrecords] at hexec
        cases hexec
        exact hset records t
  rw [Emission.process, processNewCommitment, normalizeU256ToHex_bigint] at h
  obtain ⟨text, s₁, h₁, h⟩ := Wasm.exec_bind_eq_ok.mp h
  cases h₁
  obtain ⟨⟨⟩, s₂, h₂, h⟩ := Wasm.exec_bind_eq_ok.mp h
  obtain ⟨output, s₃, h₃, h⟩ := Wasm.exec_bind_eq_ok.mp h
  cases h₃
  obtain ⟨⟨⟩, s₄, h₄, h⟩ := Wasm.exec_bind_eq_ok.mp h
  exact ⟨s₄, (hput h₄ fun _ _ => rfl).trans (hput h₂ fun _ _ => rfl), h⟩

/-- **Events that are processed** had room in the live tree. -/
theorem room_of_processEvents {counts : EventCounts} {tree : MerkleTree} (hnum : Numbered n evs)
    (htree : s.merkleTree = some tree) (hlive : MerkleTree.Holds P treeDepth live tree)
    (h : (processEvents P (evs.map (native addressText))).exec s = (.ok counts, s')) :
    live.length + (emissionsOf evs).length ≤ 2 ^ treeDepth ∧
      ∃ tree', s'.merkleTree = some tree' ∧
        MerkleTree.Holds P treeDepth (live ++ commitments (emissionsOf evs)) tree' := by
  induction evs generalizing n live s tree counts with
  | nil =>
      cases h
      refine ⟨hlive.length_le, tree, htree, ?_⟩
      rwa [emissionsOf, List.filterMap_nil, commitments, List.map_nil, List.append_nil]
  | cons x rest ih =>
      obtain ⟨ledger, event⟩ := x
      rw [List.map_cons] at h
      cases event with
      | newCommitment commitment index output =>
          obtain ⟨rfl, hlt, hnum⟩ := hnum
          rw [processEvents_newCommitment hlt] at h
          obtain ⟨⟨⟩, s₂, hprocess, h⟩ := Wasm.exec_bind_eq_ok.mp h
          obtain ⟨counts', s₃, hrest, h⟩ := Wasm.exec_bind_eq_ok.mp h
          cases h
          obtain ⟨s₁, hsame, hins⟩ := exec_process_ok hprocess
          rw [htree] at hsame
          have hroom : live.length < 2 ^ treeDepth := by
            refine lt_of_le_of_ne hlive.length_le fun hfull => ?_
            rw [exec_insertIntoTree_full hsame hlive hfull] at hins
            cases hins
          obtain ⟨tree₂, hins', hlive₂, hsome⟩ := exec_insertIntoTree (P := P) (s := s₁)
            (hsame ▸ live_some hlive) hroom ⟨commitment, output, ledger⟩
          rw [hins'] at hins
          cases hins
          rw [hsame, Option.isSome_some] at hsome
          obtain ⟨tree₂, rfl⟩ := Option.isSome_iff_exists.mp hsome
          obtain ⟨hcount, tree', htree', hlive'⟩ := ih hnum rfl (hlive₂ tree₂ rfl) hrest
          have hcons : emissionsOf ((ledger, .newCommitment commitment index output) :: rest) =
              ⟨commitment, output, ledger⟩ :: emissionsOf rest := rfl
          rw [List.length_append, List.length_singleton] at hcount
          rw [hcons, List.length_cons, commitments, List.map_cons, List.append_cons]
          exact ⟨by omega, tree', htree', hlive'⟩
      | newNullifier nullifier =>
          rw [processEvents_newNullifier] at h
          obtain ⟨⟨⟩, s₂, hprocess, h⟩ := Wasm.exec_bind_eq_ok.mp h
          obtain ⟨counts', s₃, hrest, h⟩ := Wasm.exec_bind_eq_ok.mp h
          cases h
          obtain ⟨t, hput⟩ := exec_processNewNullifier nullifier ledger s
          rw [hput] at hprocess
          cases hprocess
          exact ih (s := { s with poolNullifiers := t }) hnum htree hlive hrest
      | publicKey owner encryptionKey noteKey =>
          rw [processEvents_publicKey] at h
          exact ih hnum htree hlive h

/-! ### The copy of a tree -/

/-- Two leaves that the contract takes, with their encrypted outputs and their ledger. -/
structure Insertion where
  leaves : F × F
  outputs : List UInt8 × List UInt8
  ledger : ℕ

/-- The events of insertions, with the indices that the contract returned. -/
def emitted : List Insertion → List (ℕ × ℕ) → List LedgerEvent
  | x :: xs, idx :: indices =>
      (x.ledger, .newCommitment x.leaves.1.val idx.1 x.outputs.1) ::
        (x.ledger, .newCommitment x.leaves.2.val idx.2 x.outputs.2) :: emitted xs indices
  | _, _ => []

/-- The app before its first event, with or without `init`. -/
def PoolStore.Fresh (P : Poseidon2) (s : PoolStore) : Prop :=
  s = .blank ∨ ∃ n, (rebuildTree P).exec .blank = (.ok n, s)

theorem stored_blank : Stored [] .blank :=
  ⟨rfl, fun x => ⟨fun h => (List.not_mem_nil h).elim, fun ⟨_, _, h, _⟩ => by cases h⟩⟩

theorem PoolStore.Fresh.stored (h : s.Fresh P) (hz : ZeroTable P) :
    Stored [] s ∧ Live P [] s.merkleTree := by
  obtain rfl | ⟨n, hinit⟩ := h
  · exact ⟨stored_blank, live_none⟩
  · obtain ⟨tree, hexec, htree⟩ := stored_blank.exec_rebuildTree hz (by decide)
    rw [hexec] at hinit
    cases hinit
    exact ⟨stored_blank.of_eq rfl rfl, live_some htree⟩

variable {xs : List Insertion}

theorem emitted_spec (xs : List Insertion) : ∀ n,
    let evs := emitted xs ((List.range xs.length).map fun i => (n + 2 * i, n + 2 * i + 1))
    Numbered n evs ∧ commitments (emissionsOf evs) =
      MerkleTreeWithHistory.leavesOf (xs.map Insertion.leaves) := by
  induction xs with
  | nil => exact fun n => ⟨trivial, rfl⟩
  | cons x xs ih =>
      intro n
      have hshift : ((List.range xs.length).map Nat.succ).map
            (fun i => (n + 2 * i, n + 2 * i + 1)) =
          (List.range xs.length).map fun i => (n + 1 + 1 + 2 * i, n + 1 + 1 + 2 * i + 1) := by
        rw [List.map_map]
        refine List.map_congr_left fun i _ => ?_
        exact Prod.ext (by simp only [Function.comp_apply]; omega)
          (by simp only [Function.comp_apply]; omega)
      obtain ⟨hnum, hcommitments⟩ := ih (n + 1 + 1)
      simp only [List.length_cons, List.range_succ_eq_map, List.map_cons, hshift, emitted]
      refine ⟨⟨rfl, F.val_lt _, rfl, F.val_lt _, hnum⟩, ?_⟩
      rw [MerkleTreeWithHistory.leavesOf, List.flatMap_cons]
      rw [MerkleTreeWithHistory.leavesOf] at hcommitments
      rw [← hcommitments]
      simp [commitments, emissionsOf, emission?]

theorem Numbered.exists_of_mem {ledger index : ℕ} {commitment : U256} {output : List UInt8}
    (hnum : Numbered n evs) (h : (ledger, .newCommitment commitment index output) ∈ evs) :
    ∃ k, index = n + k ∧ (emissionsOf evs)[k]? = some ⟨commitment, output, ledger⟩ := by
  induction evs generalizing n with
  | nil => cases h
  | cons x rest ih =>
      obtain ⟨ledger', event⟩ := x
      obtain heq | hmem := List.mem_cons.mp h
      · cases heq
        exact ⟨0, hnum.1, rfl⟩
      · cases event with
        | newCommitment commitment' index' output' =>
            obtain ⟨k, rfl, hk⟩ := ih hnum.2.2 hmem
            exact ⟨k + 1, by omega, hk⟩
        | newNullifier nullifier => exact ih hnum hmem
        | publicKey owner encryptionKey noteKey => exact ih hnum hmem

/-- **The app's copy mirrors the contract** exactly if no leaf comes twice. -/
theorem pool_store_mirrors_iff (hz : ZeroTable P) (hfit : 2 * xs.length ≤ 2 ^ treeDepth)
    {indices : List (ℕ × ℕ)} {env : Env MerkleStore}
    (hchain : (do
      MerkleTreeWithHistory.init treeDepth
      MerkleTreeWithHistory.insertAll P (xs.map Insertion.leaves))
        ⟨MerkleTreeWithHistory.blank, []⟩ = .ok (indices, env)) (hfresh : s.Fresh P) :
    (∃ counts s₁, (processEvents P ((emitted xs indices).map (native addressText))).exec s =
        (.ok counts, s₁) ∧
      (∀ ledger commitment index output,
        (ledger, .newCommitment commitment index output) ∈ emitted xs indices →
        ∃ record ∈ s₁.poolEncryptedOutputs.records,
          record.index = index ∧ record.encryptedOutput = bytesToHex output) ∧
      ∃ count s₂ root, (rebuildTree P).exec s₁ = (.ok count, s₂) ∧
        s₂.getRoot = some (.ok (scalarToBytes root)) ∧
        MerkleTreeWithHistory.getLastRoot env = .ok (root.val, env)) ↔
    (MerkleTreeWithHistory.leavesOf (xs.map Insertion.leaves)).Nodup := by
  have hlen := MerkleTreeWithHistory.length_leavesOf (xs.map Insertion.leaves)
  rw [List.length_map] at hlen
  obtain ⟨env', hrun, hholds⟩ :=
    @MerkleTreeWithHistory.Holds.insertAll_apply _ treeDepth hz (by decide) (by decide)
      (xs.map Insertion.leaves) _ _ (MerkleTreeWithHistory.holds_initialised hz (by decide) [])
      (by simpa using hfit)
  rw [Host.bind_of_ok (MerkleTreeWithHistory.init_apply (by decide) (by decide) []), hrun] at hchain
  cases hchain
  simp only [List.length_nil, List.length_map]
  obtain ⟨hnum, hcommitments⟩ := emitted_spec xs 0
  generalize emitted xs _ = evs at hnum hcommitments ⊢
  obtain ⟨hstored, hlive⟩ := hfresh.stored hz
  have hcount : (emissionsOf evs).length ≤ 2 ^ treeDepth := by
    have hmap := congrArg List.length hcommitments
    rw [commitments, List.length_map] at hmap
    omega
  constructor
  · rintro ⟨counts, s₁, hexec, -⟩
    rw [← hcommitments]
    exact (hstored.of_processEvents hnum hexec).nodup
  · intro hnodup
    rw [← hcommitments] at hnodup
    obtain ⟨counts, s₁, hexec, hs₁, -⟩ := exec_processEvents (P := P)
      (s := s) (m := 0) hnodup hnum (List.prefix_refl _) le_rfl
      (Nat.zero_le _) hstored hlive (by simpa using hcount)
    rw [Nat.zero_add, max_eq_right (Nat.zero_le _), List.take_length] at hs₁
    obtain ⟨tree, hrebuild, htree⟩ := hs₁.exec_rebuildTree hz hcount
    refine ⟨counts, s₁, hexec, ?_, _, _, rootOf P treeDepth (commitments (emissionsOf evs)),
      hrebuild, ?_, ?_⟩
    · intro ledger commitment index output hmem
      obtain ⟨k, rfl, hk⟩ := hnum.exists_of_mem hmem
      rw [Nat.zero_add]
      exact ⟨_, (hs₁.outputs _).mpr ⟨k, _, hk, rfl⟩, rfl, rfl⟩
    · exact congrArg some htree.root_apply
    · rw [hcommitments]
      exact hholds.getLastRoot_apply

/-- Two insertions, of `5` and `7` and of `c` and `9`. -/
def sampleInsertions (c : F) : List Insertion :=
  [⟨((5 : ℕ), (7 : ℕ)), ([1], [2]), 90⟩, ⟨(c, (9 : ℕ)), ([3], [4]), 91⟩]

theorem insertAll_sample (c : F) : ∃ indices env, (do
    MerkleTreeWithHistory.init treeDepth
    MerkleTreeWithHistory.insertAll zeroPoseidon2 ((sampleInsertions c).map Insertion.leaves))
      ⟨MerkleTreeWithHistory.blank, []⟩ = .ok (indices, env) ∧
    indices = (List.range 2).map fun i => (0 + 2 * i, 0 + 2 * i + 1) := by
  obtain ⟨env, hrun, -⟩ := @MerkleTreeWithHistory.Holds.insertAll_apply _ _
    zeroTable_zeroPoseidon2 (by decide) (by decide) ((sampleInsertions c).map Insertion.leaves) _ _
      (MerkleTreeWithHistory.holds_initialised zeroTable_zeroPoseidon2 (by decide) [])
      (show 0 + 2 * 2 ≤ 2 ^ treeDepth by decide)
  refine ⟨_, env, ?_, rfl⟩
  rw [Host.bind_of_ok (MerkleTreeWithHistory.init_apply (by decide) (by decide) []), hrun]
  rfl

theorem pool_store_mirrors_iff_sample : ∃ indices env counts s₁ count s₂ root,
    (processEvents zeroPoseidon2 ((emitted (sampleInsertions 11) indices).map
      (native fun _ => ""))).exec .blank = (.ok counts, s₁) ∧
    (rebuildTree zeroPoseidon2).exec s₁ = (.ok count, s₂) ∧
    s₂.getRoot = some (.ok (scalarToBytes root)) ∧
    MerkleTreeWithHistory.getLastRoot env = .ok (root.val, env) := by
  obtain ⟨indices, env, hchain, -⟩ := insertAll_sample 11
  obtain ⟨counts, s₁, hexec, -, count, s₂, root, hrebuild, hroot, hlast⟩ :=
    (pool_store_mirrors_iff zeroTable_zeroPoseidon2 (by decide) hchain (.inl rfl)).mpr
      (by decide +kernel)
  exact ⟨indices, env, counts, s₁, count, s₂, root, hexec, hrebuild, hroot, hlast⟩

/-- The contract takes `5` twice; the app throws. -/
theorem mirror_throws : ∃ indices env, (do
    MerkleTreeWithHistory.init treeDepth
    MerkleTreeWithHistory.insertAll zeroPoseidon2 ((sampleInsertions 5).map Insertion.leaves))
      ⟨MerkleTreeWithHistory.blank, []⟩ = .ok (indices, env) ∧
    ∀ counts s₁, (processEvents zeroPoseidon2 ((emitted (sampleInsertions 5) indices).map
      (native fun _ => ""))).exec .blank ≠ (.ok counts, s₁) := by
  obtain ⟨indices, env, hchain, rfl⟩ := insertAll_sample 5
  refine ⟨_, env, hchain, fun counts s₁ hexec => ?_⟩
  obtain ⟨hnum, hcommitments⟩ := emitted_spec (sampleInsertions 5) 0
  have hnodup := (stored_blank.of_processEvents hnum hexec).nodup
  rw [List.nil_append, hcommitments] at hnodup
  exact absurd hnodup (by decide +kernel)

end Enclave.App

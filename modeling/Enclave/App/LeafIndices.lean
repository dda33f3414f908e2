import Enclave.App.Overflow
import Enclave.App.TransactionBuilder

/-! # Recorded leaf indices

The pages and `depositForOrg` predict the leaf index of an output before they submit it, and save
it with the note once the transaction has succeeded; the contract assigns the index when it
includes the transaction.  The two agree exactly if nothing is saved, or the prediction counts
every transaction that was included first (`recorded_leaf_indices_iff`). -/

namespace Enclave.App

open Prover Pool MerkleTreeWithHistory

/-! ### What is saved -/

/-- A note that is saved: which output it is, its commitment and its index. -/
structure Recorded where
  outputIndex : ℕ
  commitment : U256
  leafIndex : ℕ

structure OutputRow where
  isDummy : Bool
  isSelf : Bool

/-- Outputs of a transaction; the circuit takes no more than two. -/
abbrev Outputs (α : Type) := {outputs : List α // outputs.length ≤ 2}

/-- The commitments of `proofResult.outputNotes`. -/
def outputCommitments (proof : Proof) : List U256 :=
  [proof.outputCommitment0, proof.outputCommitment1]

/-- The outputs that are kept, with the indices from `poolNextIndex` on. -/
def pendingNotes {α : Type} (keep : ℕ → α → Bool) (poolNextIndex : ℕ) (proof : Proof)
    (outputs : List α) : List Recorded :=
  (outputs.zip (outputCommitments proof)).zipIdx.filterMap fun ((output, commitment), outputIndex) =>
    if keep outputIndex output then
      some ⟨outputIndex, commitment, poolNextIndex + outputIndex⟩
    else none

/-- What `readPoolState` answers about the tree; an entry that is not read is left out, and no
entry is `nextIndex`. -/
structure PoolState where
  success : Bool
  merkleNextIndex : Option ℕ
  nextIndex : Option ℕ

/-- `readPoolState`: each of the entries is read, or not. -/
def readPoolState (answered readNextIndex : Bool) (env : Env Chain) : PoolState where
  success := answered && readNextIndex
  merkleNextIndex := if readNextIndex then env.store.pool.merkle.nextIndex else none
  nextIndex := none

/-- `getPoolNextIndex`. -/
def getNextIndex (s : PoolStore) : ℕ :=
  match s.merkleTree with
  | none => 0
  | some tree => tree.nextIndex

/-- The amounts of a transfer's outputs, padded to two. -/
def transferAmounts (recipientOutputs changeOutputs : List ℤ) : List ℤ :=
  let outputs := recipientOutputs ++ changeOutputs
  outputs ++ List.replicate (2 - outputs.length) 0

/-- The transactions that save notes, and what they have read of the pool: the transaction page
goes on if an entry was not read, and takes the index from the first of two reads. -/
inductive Submission where
  | deposit (outputs : Outputs OutputRow)
  | transact (answered readNextIndex : Bool) (outputs : Outputs OutputRow)
  | transfer (answered readNextIndex : Bool) (recipientOutputs : Outputs ℤ)
  | depositForOrg (poolStore : PoolStore)

/-- The notes that are saved after a success, with the state of the chain at the read. -/
def Submission.recorded (submission : Submission) (env : Env Chain) (proof : Proof) :
    List Recorded :=
  match submission with
  | .deposit outputs =>
      let poolState := readPoolState true true env
      pendingNotes (fun _ row => !row.isDummy) (poolState.merkleNextIndex.getD 0) proof
        outputs.val
  | .transact answered readNextIndex outputs =>
      let poolState := readPoolState answered readNextIndex env
      pendingNotes (fun _ row => !row.isDummy && row.isSelf) (poolState.merkleNextIndex.getD 0)
        proof outputs.val
  | .transfer answered readNextIndex recipientOutputs =>
      let poolState := readPoolState answered readNextIndex env
      pendingNotes (fun i amount => decide (recipientOutputs.val.length ≤ i ∧ amount > 0))
        (poolState.nextIndex.getD 0) proof (transferAmounts recipientOutputs.val [])
  | .depositForOrg poolStore =>
      let leafIndex0 := getNextIndex poolStore
      pendingNotes (fun _ _ => true) leafIndex0 proof [(), ()]

/-! ### What is emitted -/

def commitmentEvent : Pool.Event → Option (U256 × ℕ)
  | .newCommitment commitment index _ => some (commitment, index)
  | _ => none

/-- The index that is saved is the one in the event of this output. -/
def Recorded.Emitted (events : List Pool.Event) (note : Recorded) : Prop :=
  (events.filterMap commitmentEvent)[note.outputIndex]? = some (note.commitment, note.leafIndex)

/-- Some output is saved. -/
def Submission.Saves : Submission → Prop
  | .deposit outputs => ∃ row ∈ outputs.val, row.isDummy = false
  | .transact _ _ outputs => ∃ row ∈ outputs.val, row.isDummy = false ∧ row.isSelf = true
  | .transfer _ _ _ => False
  | .depositForOrg _ => True

/-- The prediction, where `leaves` were in the tree at the read. -/
def Submission.predicted (leaves : ℕ) : Submission → ℕ
  | .deposit _ => leaves
  | .transact _ readNextIndex _ => if readNextIndex then leaves else 0
  | .transfer _ _ _ => 0
  | .depositForOrg poolStore => getNextIndex poolStore

variable {ext : Externals} {P : Poseidon2} {env : Env Chain} {levels n base : ℕ} {leaves : List F}
  {proof : Proof} {extData : ExtData} {own : Action} {others : List Action}

theorem commitmentEvents_transactEvents (idx : ℕ × ℕ) :
    (transactEvents proof extData idx).filterMap commitmentEvent =
      [(proof.outputCommitment0, idx.1), (proof.outputCommitment1, idx.2)] := by
  have hnulls : (proof.inputNullifiers.map Pool.Event.newNullifier).filterMap commitmentEvent =
      [] := by
    rw [List.filterMap_map]
    exact List.filterMap_eq_nil_iff.mpr fun _ _ => rfl
  rw [transactEvents, List.filterMap_append, hnulls]
  rfl

/-- Two outputs: what is kept has the indices of the events exactly if the first index is right. -/
theorem pendingNotes_emitted_iff {α : Type} {keep : ℕ → α → Bool} {outputs : List α}
    (hlength : outputs.length ≤ 2) :
    (∀ note ∈ pendingNotes keep base proof outputs,
      note.Emitted (transactEvents proof extData (n, n + 1))) ↔
    ((∃ output ∈ outputs.zipIdx, keep output.2 output.1 = true) → base = n) := by
  unfold pendingNotes outputCommitments Recorded.Emitted
  rw [commitmentEvents_transactEvents]
  rcases outputs with _ | ⟨o₀, _ | ⟨o₁, _ | ⟨o₂, rest⟩⟩⟩
  · simp
  · cases h₀ : keep 0 o₀ <;> simp [h₀, @eq_comm _ n]
  · cases h₀ : keep 0 o₀ <;> cases h₁ : keep 1 o₁ <;> simp [h₀, h₁, @eq_comm _ n]
  · simp at hlength

/-- Nothing of a transfer is saved: what is not the recipient's is padding. -/
theorem not_keep_transferAmounts (recipientOutputs : List ℤ) :
    ¬ ∃ output ∈ (transferAmounts recipientOutputs []).zipIdx,
      decide (recipientOutputs.length ≤ output.2 ∧ output.1 > 0) = true := by
  rintro ⟨⟨amount, i⟩, hmem, hkeep⟩
  obtain ⟨hle, hpos⟩ := of_decide_eq_true hkeep
  have hget := (List.mem_zipIdx_iff_getElem?).mp hmem
  rw [transferAmounts, List.append_nil, List.getElem?_append_right hle] at hget
  have hzero := List.eq_of_mem_replicate (List.mem_of_getElem? hget)
  exact hpos.ne' hzero

theorem length_transferAmounts {recipientOutputs : List ℤ} (h : recipientOutputs.length ≤ 2) :
    (transferAmounts recipientOutputs []).length ≤ 2 := by
  rw [transferAmounts, List.append_nil, List.length_append, List.length_replicate]
  omega

theorem exists_mem_zipIdx {rows : List OutputRow} {keep : OutputRow → Bool} :
    (∃ output ∈ rows.zipIdx, keep output.1 = true) ↔ ∃ row ∈ rows, keep row = true := by
  constructor
  · rintro ⟨⟨row, i⟩, hmem, hkeep⟩
    exact ⟨row, List.fst_mem_of_mem_zipIdx hmem, hkeep⟩
  · rintro ⟨row, hmem, hkeep⟩
    obtain ⟨i, hi⟩ := List.getElem?_of_mem hmem
    exact ⟨(row, i), List.mem_zipIdx_iff_getElem?.mpr hi, hkeep⟩

theorem Submission.recorded_emitted_iff (submission : Submission)
    (h : Holds P levels leaves (merkleEnv env)) :
    (∀ note ∈ submission.recorded env proof,
      note.Emitted (transactEvents proof extData (n, n + 1))) ↔
    (submission.Saves → submission.predicted leaves.length = n) := by
  have hnext : env.store.pool.merkle.nextIndex = some leaves.length := h.nextIndex
  cases submission with
  | deposit outputs =>
      rw [recorded, pendingNotes_emitted_iff outputs.property, readPoolState, if_pos rfl, hnext,
        @exists_mem_zipIdx outputs.val fun row => !row.isDummy]
      simp [Saves, predicted]
  | transact answered readNextIndex outputs =>
      rw [recorded, pendingNotes_emitted_iff outputs.property, readPoolState,
        @exists_mem_zipIdx outputs.val fun row => !row.isDummy && row.isSelf]
      cases readNextIndex <;> simp [Saves, predicted, hnext]
  | transfer answered readNextIndex recipientOutputs =>
      rw [recorded, pendingNotes_emitted_iff (length_transferAmounts recipientOutputs.property)]
      exact iff_of_true (fun hkeep => (not_keep_transferAmounts _ hkeep).elim) False.elim
  | depositForOrg poolStore =>
      rw [recorded, pendingNotes_emitted_iff (by decide)]
      simp [Saves, predicted]

/-! ### The index at inclusion -/

/-- The prediction counts the transactions that are included after the read. -/
def Submission.Timely (leaves others : ℕ) : Submission → Prop
  | .deposit _ => others = 0
  | .transact _ readNextIndex _ => others = 0 ∧ (readNextIndex = true ∨ leaves = 0)
  | .transfer _ _ _ => True
  | .depositForOrg poolStore => getNextIndex poolStore = leaves + 2 * others

theorem Submission.timely_iff (submission : Submission) (leaves others : ℕ) :
    (submission.Saves → submission.predicted leaves = leaves + 2 * others) ↔
      (submission.Saves → submission.Timely leaves others) := by
  refine forall_congr' fun hsaves => ?_
  cases submission with
  | deposit outputs => simp [predicted, Timely]
  | transact answered readNextIndex outputs =>
      cases readNextIndex <;> simp [predicted, Timely]
      omega
  | transfer answered readNextIndex recipientOutputs => exact hsaves.elim
  | depositForOrg poolStore => exact Iff.rfl

theorem commitmentEvents_own (hz : ZeroTable P) (h1 : 1 ≤ levels) (h32 : levels ≤ 32)
    (h : Holds P levels leaves (merkleEnv env))
    (hown : acceptedProof ext P (run ext P env others) own = some proof) :
    ∃ extData, Rpc.newEvents (run ext P env others) (step ext P (run ext P env others) own) =
      transactEvents proof extData (leaves.length + 2 * (accepted ext P env others).length,
        leaves.length + 2 * (accepted ext P env others).length + 1) := by
  have hholds : Holds P levels _ (merkleEnv (run ext P env others)) :=
    holds_inserted hz h1 h32 h others
  obtain ⟨proof', extData, idx, hproof, hins, hevents⟩ | ⟨hnone, -⟩ :=
    step_publishes ext P (run ext P env others) own
  · obtain rfl := Option.some.inj (hproof.symm.trans hown)
    obtain ⟨-, -, rfl, -⟩ := hholds.of_insertTwoLeaves hz h1 h32 hins
    rw [List.length_append, List.length_map, length_inserted] at hevents
    exact ⟨extData, hevents⟩
  · rw [hnone] at hown
    cases hown

/-- **Recorded leaf indices are those of the events** exactly if nothing is saved, or the
prediction counts what was included between the read and the own transaction. -/
theorem recorded_leaf_indices_iff (submission : Submission) (hz : ZeroTable P) (h1 : 1 ≤ levels)
    (h32 : levels ≤ 32) (h : Holds P levels leaves (merkleEnv env))
    (hown : acceptedProof ext P (run ext P env others) own = some proof) :
    (∀ note ∈ submission.recorded env proof,
      note.Emitted (Rpc.newEvents (run ext P env others)
        (step ext P (run ext P env others) own))) ↔
    (submission.Saves → submission.Timely leaves.length (accepted ext P env others).length) := by
  obtain ⟨extData, hevents⟩ := commitmentEvents_own hz h1 h32 h hown
  rw [hevents, submission.recorded_emitted_iff h, submission.timely_iff]

/-! ### A deposit that is overtaken -/

theorem AfterTransfers.acceptedProof {k : ℕ} (h : AfterTransfers k env) (hk : k < 512) :
    acceptedProof acceptingExternals flatPoseidon2 env (sampleTransfer k) =
      some (sampleProof k) := by
  cases hr : transact acceptingExternals flatPoseidon2 [.account 1] (sampleProof k) sampleExtData
      (.account 1) env with
  | ok p => rw [sampleTransfer, Pool.acceptedProof, hr]
  | error e =>
      -- the tree would not have grown
      have hstep : Pool.step acceptingExternals flatPoseidon2 env (sampleTransfer k) = env :=
        Host.after_of_error hr
      have hnext := (h.step hk).1.holds.nextIndex
      rw [hstep, h.holds.nextIndex, length_sampleLeaves, length_sampleLeaves] at hnext
      have := Option.some.inj hnext
      omega

/-- A page with one output to oneself. -/
def sampleOutputs : Outputs OutputRow := ⟨[⟨false, true⟩], by decide⟩

theorem acceptedProof_sample : Pool.acceptedProof acceptingExternals flatPoseidon2
    (run acceptingExternals flatPoseidon2 samplePool [sampleTransfer 0]) (sampleTransfer 1) =
      some (sampleProof 1) := by
  have hafter : AfterTransfers 1
      (step acceptingExternals flatPoseidon2 samplePool (sampleTransfer 0)) :=
    (deployed_samplePool.2.step (by decide)).1
  rw [run_cons, run, List.foldl_nil]
  exact hafter.acceptedProof (by decide : 1 < 512)

theorem recorded_leaf_indices_iff_sample :
    (∀ note ∈ (Submission.deposit sampleOutputs).recorded samplePool (sampleProof 1),
      note.Emitted (Rpc.newEvents
        (run acceptingExternals flatPoseidon2 samplePool [sampleTransfer 0])
        (step acceptingExternals flatPoseidon2
          (run acceptingExternals flatPoseidon2 samplePool [sampleTransfer 0])
          (sampleTransfer 1)))) ↔
    ((Submission.deposit sampleOutputs).Saves → (Submission.deposit sampleOutputs).Timely 0
      (accepted acceptingExternals flatPoseidon2 samplePool [sampleTransfer 0]).length) :=
  recorded_leaf_indices_iff (.deposit sampleOutputs) zeroTable_flatPoseidon2 (by decide)
    (by decide) (deployed_samplePool.1.holds zeroTable_flatPoseidon2) acceptedProof_sample

/-- A deposit that is overtaken by a transfer is saved with the index of the transfer's output. -/
theorem deposit_overtaken :
    ¬ ∀ note ∈ (Submission.deposit sampleOutputs).recorded samplePool (sampleProof 1),
      note.Emitted (Rpc.newEvents
        (run acceptingExternals flatPoseidon2 samplePool [sampleTransfer 0])
        (step acceptingExternals flatPoseidon2
          (run acceptingExternals flatPoseidon2 samplePool [sampleTransfer 0])
          (sampleTransfer 1))) := by
  have hholds := deployed_samplePool.1.holds zeroTable_flatPoseidon2
  obtain ⟨extData, hevents⟩ := commitmentEvents_own zeroTable_flatPoseidon2 (by decide)
    (by decide) hholds acceptedProof_sample
  have haccepted : accepted acceptingExternals flatPoseidon2 samplePool [sampleTransfer 0] =
      [sampleProof 0] := by
    rw [accepted_cons_some (deployed_samplePool.2.acceptedProof (by decide))]
    rfl
  rw [hevents, Submission.recorded_emitted_iff _ hholds, haccepted]
  intro h
  exact absurd (h ⟨_, List.mem_cons_self, rfl⟩) (by decide)

end Enclave.App

import Enclave.Pool.Runs

/-! # Double spends

The nullifier map is keyed by 256-bit integers, the circuit sees residues.  Two nullifiers of one
residue are spent only if they are two integers: where every residue comes as one integer, no two
nullifiers of a run are congruent (`no_double_spend`).  With `n` and `n + bn256Modulus` one note
is spent twice (`double_spend`). -/

namespace Enclave.Pool

open Circuits

variable {ext : Externals} {P : Poseidon2} {env env' : Env Chain} {a : Action}
  {actions : List Action} {n : U256}

/-! ### Spent nullifiers -/

/-- The nullifier is in the map. -/
def Spent (env : Env Chain) (n : U256) : Prop :=
  ∃ nulls, env.store.pool.nullifiers = some nulls ∧ nulls n = some true

theorem Spent.step (h : Spent env n) (a : Action) : Spent (step ext P env a) n := by
  obtain ⟨nulls, hnulls, hn⟩ := h
  obtain ⟨auths, proof, extData, sender, -, -, hacc⟩ | ⟨-, hquiet⟩ := step_cases ext P env a
  · refine ⟨markAll proof.inputNullifiers nulls, ?_, ?_⟩
    · rw [hacc.pool, hnulls]
      rfl
    · rw [markAll, hn, ite_self]
  · exact ⟨nulls, hquiet.nullifiers.trans hnulls, hn⟩

theorem Accepted.spent {auths : List Address} {proof : Proof} {extData : ExtData}
    {sender : Address} (h : Accepted ext P auths proof extData sender env env')
    (hn : n ∈ proof.inputNullifiers) : ¬ Spent env n ∧ Spent env' n := by
  obtain ⟨nulls, hnulls, hunspent⟩ := h.checked.unspent n hn
  constructor
  · rintro ⟨nulls', hnulls', hspent⟩
    cases Option.some.inj (hnulls.symm.trans hnulls')
    rw [hspent] at hunspent
    cases hunspent
  · refine ⟨markAll proof.inputNullifiers nulls, ?_, if_pos hn⟩
    rw [h.pool, hnulls]
    rfl

theorem consumed_cons_some {proof : Proof} (h : acceptedProof ext P env a = some proof) :
    consumed ext P env (a :: actions) =
      proof.inputNullifiers ++ consumed ext P (step ext P env a) actions := by
  rw [consumed, accepted_cons_some h, List.flatMap_cons]
  rfl

theorem consumed_cons_none (h : acceptedProof ext P env a = none) :
    consumed ext P env (a :: actions) = consumed ext P (step ext P env a) actions := by
  rw [consumed, accepted_cons_none h]
  rfl

theorem not_spent_of_mem_consumed (h : n ∈ consumed ext P env actions) : ¬ Spent env n := by
  induction actions generalizing env with
  | nil => cases h
  | cons a rest ih =>
      intro hspent
      obtain ⟨auths, proof, extData, sender, -, hproof, hacc⟩ | ⟨hnone, -⟩ :=
        step_cases ext P env a
      · rw [consumed_cons_some hproof] at h
        obtain hn | hn := List.mem_append.mp h
        · exact (hacc.spent hn).1 hspent
        · exact ih hn (hspent.step a)
      · rw [consumed_cons_none hnone] at h
        exact ih h (hspent.step a)

/-! ### Residues -/

def Action.nullifiers : Action → List U256
  | .transact _ proof _ _ => proof.inputNullifiers
  | _ => []

/-- No two integers of one residue are among the nullifiers of the calls. -/
def OneRepresentative (actions : List Action) : Prop :=
  ∀ n ∈ actions.flatMap Action.nullifiers, ∀ m ∈ actions.flatMap Action.nullifiers,
    (n : F) = m → n = m

/-- Canonical nullifiers have one representative. -/
theorem oneRepresentative_of_canonical (h : ∀ a ∈ actions, a.Canonical) :
    OneRepresentative actions := by
  have hlt : ∀ n ∈ actions.flatMap Action.nullifiers, n < bn256Modulus := by
    intro n hn
    obtain ⟨a, ha, hna⟩ := List.mem_flatMap.mp hn
    cases a with
    | transact auths proof extData sender => exact h _ ha n hna
    | _ => cases hna
  intro n hn m hm heq
  rw [← F.val_natCast_of_lt (hlt n hn), heq, F.val_natCast_of_lt (hlt m hm)]

theorem consumed_subset : consumed ext P env actions ⊆ actions.flatMap Action.nullifiers := by
  induction actions generalizing env with
  | nil => exact List.Subset.refl _
  | cons a rest ih =>
      rw [List.flatMap_cons]
      obtain ⟨auths, proof, extData, sender, rfl, hproof, -⟩ | ⟨hnone, -⟩ :=
        step_cases ext P env a
      · rw [consumed_cons_some hproof]
        exact List.append_subset.mpr ⟨List.subset_append_left _ _,
          List.Subset.trans ih (List.subset_append_right _ _)⟩
      · rw [consumed_cons_none hnone]
        exact List.Subset.trans ih (List.subset_append_right _ _)

theorem Accepted.nodup (hv : PolicyVerifier ext P) {auths : List Address} {proof : Proof}
    {extData : ExtData} {sender : Address}
    (h : Accepted ext P auths proof extData sender env env') :
    (proof.inputNullifiers.map (Nat.cast : ℕ → F)).Nodup := by
  obtain ⟨verifier, -, hverified⟩ := h.checked.verified
  obtain ⟨pub, w, hpub, hsat⟩ := hv.sound _ _ _ hverified
  rw [← (encodes_of_toList hpub).inputNullifier]
  exact List.nodup_ofFn.mpr hsat.nullifier_injective

/-- **No double spend**, where every residue comes as one integer. -/
theorem no_double_spend (hv : PolicyVerifier ext P) (hone : OneRepresentative actions) :
    ((consumed ext P env actions).map (Nat.cast : ℕ → F)).Nodup := by
  induction actions generalizing env with
  | nil => exact List.nodup_nil
  | cons a rest ih =>
      have hrest : OneRepresentative rest := fun n hn m hm =>
        hone n (List.mem_append_right _ hn) m (List.mem_append_right _ hm)
      obtain ⟨auths, proof, extData, sender, rfl, hproof, hacc⟩ | ⟨hnone, -⟩ :=
        step_cases ext P env a
      · rw [consumed_cons_some hproof, List.map_append]
        refine List.nodup_append.mpr ⟨hacc.nodup hv, ih hrest, ?_⟩
        intro x hx y hy hxy
        obtain ⟨n, hn, rfl⟩ := List.mem_map.mp hx
        obtain ⟨m, hm, rfl⟩ := List.mem_map.mp hy
        -- `m` is `n`, which this transaction spent
        obtain rfl := hone n (List.mem_append_left _ hn) m
          (List.mem_append_right _ (consumed_subset hm)) hxy
        exact not_spent_of_mem_consumed hm (hacc.spent hn).2
      · rw [consumed_cons_none hnone]
        exact ih hrest

/-! ### A sample pool -/

/-- A token contract that moves what the sender has. -/
def sampleToken : Token where
  transfer sender recipient amount b :=
    if 0 ≤ amount ∧ amount ≤ b sender then some (b.move sender recipient amount) else none
  spec {sender recipient amount b b'} h := by
    split_ifs at h with hle
    cases h
    exact ⟨hle.1, hle.2, rfl⟩

/-- The key of the sample's notes, alone in the membership list. -/
def samplePubkey : F := publicKey zeroPoseidon2 1

def sampleMembershipProof : MembershipProof 10 where
  leaf := zeroPoseidon2.hash2 samplePubkey 0 1
  blinding := 0
  pathElements := fun _ => 0
  pathIndices := 0

def sampleMembershipRoot : F :=
  MerkleProof.root zeroPoseidon2 0 0 (List.replicate 10 0) sampleMembershipProof.leaf

def sampleNonMembershipProof : NonMembershipProof 10 where
  key := samplePubkey
  siblings := fun _ => 0
  oldKey := 0
  oldValue := 0
  isOld0 := 1

/-- An input of the sample's key. -/
def sampleInput (inAmount inPathIndices : F) (inPathElements : Fin 10 → F) : Input 1 1 10 10 where
  membershipProofs := fun _ => sampleMembershipProof
  nonMembershipProofs := fun _ => sampleNonMembershipProof
  inAmount := inAmount
  inPrivateKey := 1
  inBlinding := 0
  inPathIndices := inPathIndices
  inPathElements := inPathElements

/-- What a witness states. -/
def statement (root publicAmount : F) (w : PolicyWitness) : PolicyPublic where
  root := root
  publicAmount := publicAmount
  extDataHash := 0
  inputNullifier := fun tx => (w.input tx).inNullifier zeroPoseidon2
  outputCommitment := fun tx => commitment zeroPoseidon2 (w.output tx).outAmount
    (w.output tx).outPubkey (w.output tx).outBlinding
  membershipRoots := fun _ _ => sampleMembershipRoot
  nonMembershipRoots := fun _ _ => 0

/-- Two inputs, by amount, position and path, and two outputs of the sample's key. -/
def sampleWitness (ins : Fin 2 → F × F × (Fin 10 → F)) (outs : Fin 2 → F) : PolicyWitness where
  input tx := sampleInput (ins tx).1 (ins tx).2.1 (ins tx).2.2
  output tx := ⟨outs tx, samplePubkey, 0⟩

/-- A deposit of 7 into the empty tree. -/
def sampleDeposit : PolicyWitness :=
  sampleWitness ![(0, 0, fun _ => 0), (0, 1, fun _ => 0)] ![(7 : ℕ), 0]

/-- The path of its first output. -/
def samplePath (l : Fin 10) : F :=
  if l = 0 then commitment zeroPoseidon2 0 samplePubkey 0 else zeroAt l

/-- The withdrawal of the 7. -/
def sampleWithdrawal : PolicyWitness :=
  sampleWitness ![((7 : ℕ), 0, samplePath), (0, (2 : ℕ), fun _ => 0)] ![0, 0]

def depositStatement : PolicyPublic := statement (zeroAt 10) (7 : ℕ) sampleDeposit

def withdrawalStatement : PolicyPublic :=
  statement ((sampleWithdrawal.input 0).inTreeRoot zeroPoseidon2) (-(7 : ℕ)) sampleWithdrawal

theorem membershipProof_sample :
    sampleMembershipProof.Satisfies zeroPoseidon2 samplePubkey sampleMembershipRoot :=
  ⟨rfl, by decide +kernel, rfl⟩

theorem nonMembershipProof_sample :
    sampleNonMembershipProof.Satisfies zeroPoseidon2 samplePubkey 0 where
  key := rfl
  isOld0 := by decide +kernel
  verifier := by
    refine SMTVerifier.Inputs.satisfies_of_climb_eq _ ⟨rfl, rfl, .inr rfl⟩ rfl (fun h => ?_) ?_
    · exact absurd h (by decide +kernel)
    · decide +kernel

theorem satisfies_statement {root publicAmount : F} {ins : Fin 2 → F × F × (Fin 10 → F)}
    {outs : Fin 2 → F} (hpath : ∀ tx, num2Bits 10 (ins tx).2.1)
    (hroot : ∀ tx, (ins tx).1 = 0 ∨ root = ((sampleWitness ins outs).input tx).inTreeRoot
      zeroPoseidon2)
    (houts : ∀ tx, num2Bits 248 (outs tx))
    (hne : (statement root publicAmount (sampleWitness ins outs)).inputNullifier 0 ≠
      (statement root publicAmount (sampleWitness ins outs)).inputNullifier 1)
    (hsum : ∑ tx, (ins tx).1 + publicAmount = ∑ tx, outs tx) :
    (sampleWitness ins outs).Satisfies zeroPoseidon2
      (statement root publicAmount (sampleWitness ins outs)) where
  input tx := ⟨rfl, hpath tx, forceEqualIfEnabled_iff.mpr (hroot tx),
    fun _ => membershipProof_sample, fun _ => nonMembershipProof_sample⟩
  output tx := ⟨rfl, houts tx⟩
  sameNullifiers i j hij := by
    obtain ⟨rfl, rfl⟩ : i = 0 ∧ j = 1 := by omega
    rw [isEqual_eq, if_neg hne]
  invariant := hsum

theorem satisfies_depositStatement : sampleDeposit.Satisfies zeroPoseidon2 depositStatement :=
  satisfies_statement (by decide +kernel) (by decide +kernel) (by decide +kernel)
    (by decide +kernel) (by decide +kernel)

theorem satisfies_withdrawalStatement :
    sampleWithdrawal.Satisfies zeroPoseidon2 withdrawalStatement :=
  satisfies_statement (by decide +kernel) (by decide +kernel) (by decide +kernel)
    (by decide +kernel) (by decide +kernel)

/-- A verifier of the two statements. -/
def sampleExternals : Externals where
  self := .contract 0
  token := sampleToken
  verify := fun _ _ xs => some (decide (xs.map (Nat.cast : ℕ → F) ∈
    [depositStatement.toList, withdrawalStatement.toList]))
  keccakXdr := fun _ => 0

theorem policyVerifier_sample : PolicyVerifier sampleExternals zeroPoseidon2 where
  residue _ _ xs ys heq := by
    simp only [sampleExternals, heq]
  sound _ _ xs hxs := by
    have hmem := of_decide_eq_true (Option.some.inj hxs)
    rw [List.mem_pair] at hmem
    obtain heq | heq := hmem
    · exact ⟨depositStatement, sampleDeposit, heq.symm, satisfies_depositStatement⟩
    · exact ⟨withdrawalStatement, sampleWithdrawal, heq.symm, satisfies_withdrawalStatement⟩

/-- A proof of a statement, with `shift` added to its nullifiers. -/
def proofOf (shift : ℕ) (pub : PolicyPublic) : Proof where
  proof := ⟨[0], [0], [0]⟩
  root := pub.root.val
  inputNullifiers := (List.ofFn pub.inputNullifier).map fun n => n.val + shift
  outputCommitment0 := (pub.outputCommitment 0).val
  outputCommitment1 := (pub.outputCommitment 1).val
  publicAmount := pub.publicAmount.val
  extDataHash := pub.extDataHash.val
  aspMembershipRoot := sampleMembershipRoot.val
  aspNonMembershipRoot := 0

/-- A pool with ten levels and a balance of 100, before its first transaction. -/
def samplePool : Env Chain :=
  (constructor (.account 0) (.contract 1) (.contract 2) (.contract 3) (.contract 4) 1000 10).after
    ⟨{ pool := ⟨none, none, none, none, none, none, none, MerkleTreeWithHistory.blank, []⟩
       balances := fun _ x => if x = .contract 0 ∨ x = .account 1 then 100 else 0
       aspRoot := fun asp => if asp = .contract 3 then some sampleMembershipRoot.val else some 0 },
      []⟩

/-- A deposit of 7 by an account. -/
def depositSeven : Action :=
  .transact [.account 1] (proofOf 0 depositStatement) ⟨.account 1, ⟨7, by decide⟩, [], []⟩
    (.account 1)

/-- Its withdrawal, with `shift` added to the nullifiers. -/
def withdrawSeven (shift : ℕ) : Action :=
  .transact [.account 1] (proofOf shift withdrawalStatement) ⟨.account 1, ⟨-7, by decide⟩, [], []⟩
    (.account 1)

theorem canonical_sample : ∀ a ∈ [depositSeven, withdrawSeven 0], a.Canonical := by
  rw [List.forall_mem_cons, List.forall_mem_singleton]
  unfold depositSeven withdrawSeven Action.Canonical Proof.Canonical
  decide +kernel

theorem no_double_spend_sample :
    (consumed sampleExternals zeroPoseidon2 samplePool [depositSeven, withdrawSeven 0]).length = 4 ∧
    ((consumed sampleExternals zeroPoseidon2 samplePool [depositSeven, withdrawSeven 0]).map
      (Nat.cast : ℕ → F)).Nodup :=
  ⟨by decide +kernel,
    no_double_spend policyVerifier_sample (oneRepresentative_of_canonical canonical_sample)⟩

/-- The 7 are withdrawn twice, with the nullifiers `n` and `n + bn256Modulus`. -/
theorem double_spend : PolicyVerifier sampleExternals zeroPoseidon2 ∧
    ¬ ((consumed sampleExternals zeroPoseidon2 samplePool
      [depositSeven, withdrawSeven 0, withdrawSeven bn256Modulus]).map
        (Nat.cast : ℕ → F)).Nodup :=
  ⟨policyVerifier_sample, by decide +kernel⟩

end Enclave.Pool

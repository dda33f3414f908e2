import Enclave.Pool.History

/-! # Which transactions are accepted

A transfer within the pool that passes the checks is accepted, if the tree takes its commitments
(`transact_apply`). -/

namespace Enclave.Pool

variable {ext : Externals} {P : Poseidon2} {env : Env Chain}

theorem getPool_apply (env : Env Chain) : getPool env = .ok (env.store.pool, env) := rfl

theorem isSpent_apply {nulls : U256 → Option Bool} (h : env.store.pool.nullifiers = some nulls)
    (n : U256) : isSpent n env = .ok ((nulls n).getD false, env) := by
  rw [isSpent, Host.bind_of_ok (getPool_apply env), h, Host.bind_of_ok (Host.okOr_some _ _ env)]
  rfl

theorem checkNullifiers_apply {nulls : U256 → Option Bool}
    (h : env.store.pool.nullifiers = some nulls) :
    ∀ {ns : List U256}, (∀ n ∈ ns, (nulls n).getD false = false) →
      checkNullifiers ns env = .ok ((), env)
  | [], _ => rfl
  | n :: rest, hns => by
      rw [List.forall_mem_cons] at hns
      rw [checkNullifiers, Host.bind_of_ok (isSpent_apply h n), hns.1, if_neg Bool.false_ne_true]
      exact checkNullifiers_apply h hns.2

theorem calculatePublicAmount_zero {v : I256} (h : v.val = 0) :
    calculatePublicAmount v env = .ok (0, env) := by
  obtain ⟨v, hv⟩ := v
  obtain rfl : v = 0 := h
  rfl

theorem merkle_apply {α : Type} {m : MerkleTreeWithHistory.Call α} {a : α} {e : Env MerkleStore}
    (h : m (merkleEnv env) = .ok (a, e)) : merkle m env = .ok (a,
      ⟨{ env.store with pool := { env.store.pool with merkle := e.store } }, e.hashed⟩) :=
  merkle_eq_ok.mpr ⟨e, h, rfl⟩

theorem constructor_apply {admin token verifier aspMembership aspNonMembership : Address}
    {maximumDepositAmount : U256} {levels : ℕ}
    (hblank : env.store.pool.merkle = MerkleTreeWithHistory.blank) (h1 : 1 ≤ levels)
    (h32 : levels ≤ 32) :
    constructor admin token verifier aspMembership aspNonMembership maximumDepositAmount levels
      env = .ok ((), ⟨{ env.store with pool := { env.store.pool with
          admin := some admin
          token := some token
          verifier := some verifier
          aspMembership := some aspMembership
          aspNonMembership := some aspNonMembership
          maximumDepositAmount := some maximumDepositAmount
          nullifiers := some fun _ => none
          merkle := MerkleTreeWithHistory.initialised levels } }, env.hashed⟩) := by
  have hinit := MerkleTreeWithHistory.init_apply h1 h32 env.hashed
  rw [← hblank] at hinit
  rw [constructor, modifyPool, Host.bind_of_ok (Host.modifyStore_apply _ _)]
  exact @merkle_apply ⟨{ env.store with pool := { env.store.pool with
    admin := some admin
    token := some token
    verifier := some verifier
    aspMembership := some aspMembership
    aspNonMembership := some aspNonMembership
    maximumDepositAmount := some maximumDepositAmount
    nullifiers := some fun _ => none } }, env.hashed⟩ _ _ _ _ hinit

theorem getAspMembershipRoot_apply {asp : Address} {root : U256}
    (hasp : env.store.pool.aspMembership = some asp) (hroot : env.store.aspRoot asp = some root) :
    getAspMembershipRoot env = .ok (root, env) := by
  rw [getAspMembershipRoot, Host.bind_of_ok (getPool_apply env), hasp,
    Host.bind_of_ok (Host.okOr_some _ _ env), Host.bind_of_ok (Host.getStore_apply env), hroot]
  rfl

theorem getAspNonMembershipRoot_apply {asp : Address} {root : U256}
    (hasp : env.store.pool.aspNonMembership = some asp)
    (hroot : env.store.aspRoot asp = some root) :
    getAspNonMembershipRoot env = .ok (root, env) := by
  rw [getAspNonMembershipRoot, Host.bind_of_ok (getPool_apply env), hasp,
    Host.bind_of_ok (Host.okOr_some _ _ env), Host.bind_of_ok (Host.getStore_apply env), hroot]
  rfl

theorem verifyProof_apply {proof : Proof} {verifier : Address} {b : Bool}
    (hproof : proof.proof.isEmpty = false) (hverifier : env.store.pool.verifier = some verifier)
    (h : ext.verify verifier proof.proof (publicInputs proof) = some b) :
    verifyProof ext proof env = .ok (b, env) := by
  rw [verifyProof, hproof, if_neg Bool.false_ne_true, Host.bind_of_ok (getPool_apply env), hverifier,
    Host.bind_of_ok (Host.okOr_some _ _ env), h]
  rfl

theorem checks_apply {proof : Proof} {extData : ExtData} (h : Checked ext proof extData env)
    {nulls : U256 → Option Bool} (hnulls : env.store.pool.nullifiers = some nulls)
    (hproof : proof.proof.isEmpty = false) (hamount : extData.extAmount.val = 0)
    (hpublic : proof.publicAmount = 0) : checks ext proof extData env = .ok ((), env) := by
  have hunspent : ∀ n ∈ proof.inputNullifiers, (nulls n).getD false = false := by
    intro n hn
    obtain ⟨nulls', hnulls', hn⟩ := h.unspent n hn
    rwa [Option.some.inj (hnulls.symm.trans hnulls')]
  obtain ⟨member, hmember, hmemberRoot⟩ := h.aspMembership
  obtain ⟨nonMember, hnonMember, hnonMemberRoot⟩ := h.aspNonMembership
  obtain ⟨verifier, hverifier, hverified⟩ := h.verified
  rw [checks, Host.bind_of_ok (merkle_apply h.knownRoot)]
  change (checkNullifiers proof.inputNullifiers >>= fun _ => _) env = _
  rw [Host.bind_of_ok (checkNullifiers_apply hnulls hunspent), if_neg (not_not.mpr h.extHash),
    Host.bind_of_ok (calculatePublicAmount_zero hamount), if_neg (not_not.mpr hpublic),
    Host.bind_of_ok (getAspMembershipRoot_apply hmember hmemberRoot),
    Host.bind_of_ok (getAspNonMembershipRoot_apply hnonMember hnonMemberRoot),
    if_neg (by simp), Host.bind_of_ok (verifyProof_apply hproof hverifier hverified)]
  rfl

/-- **A transfer within the pool** that passes the checks is accepted. -/
theorem transact_apply {auths : List Address} {proof : Proof} {extData : ExtData}
    {sender : Address} (hauth : sender ∈ auths) (h : Checked ext proof extData env)
    {nulls : U256 → Option Bool} (hnulls : env.store.pool.nullifiers = some nulls)
    {token : Address} (htoken : env.store.pool.token = some token)
    (hproof : proof.proof.isEmpty = false) (hamount : extData.extAmount.val = 0)
    (hpublic : proof.publicAmount = 0) {idx : ℕ × ℕ} {e : Env MerkleStore}
    (hins : MerkleTreeWithHistory.insertTwoLeaves P proof.outputCommitment0
      proof.outputCommitment1 (merkleEnv env) = .ok (idx, e)) :
    transact ext P auths proof extData sender env = .ok ((),
      ⟨{ env.store with pool := { env.store.pool with
          nullifiers := some (markAll proof.inputNullifiers nulls)
          merkle := e.store
          events := env.store.pool.events ++ transactEvents proof extData idx } }, e.hashed⟩) := by
  have hdeposit : deposit ext token extData sender env = .ok ((), env) := by
    rw [deposit, if_neg (by omega)]
    rfl
  have hspent : (spend proof.inputNullifiers env).store.pool.token = some token := htoken
  have hwithdraw : withdraw ext token extData (spend proof.inputNullifiers env) =
      .ok ((), spend proof.inputNullifiers env) := by
    rw [withdraw, if_neg (by omega)]
    rfl
  rw [transact, Host.bind_of_ok (Host.requireAuth_of_mem hauth env),
    Host.bind_of_ok (getPool_apply env), htoken, Host.bind_of_ok (Host.okOr_some _ _ env),
    Host.bind_of_ok hdeposit, internalTransact,
    Host.bind_of_ok (checks_apply h hnulls hproof hamount hpublic),
    Host.bind_of_ok (markNullifiers_apply _ env), Host.bind_of_ok (getPool_apply _), hspent,
    Host.bind_of_ok (Host.okOr_some _ _ _), Host.bind_of_ok hwithdraw,
    Host.bind_of_ok (@merkle_apply (spend proof.inputNullifiers env) _ _ _ _ hins)]
  have hevents : env.store.pool.events ++ transactEvents proof extData idx =
      env.store.pool.events ++ proof.inputNullifiers.map .newNullifier ++
        [.newCommitment proof.outputCommitment0 idx.1 extData.encryptedOutput0] ++
        [.newCommitment proof.outputCommitment1 idx.2 extData.encryptedOutput1] := by
    simp [transactEvents]
  rw [hevents, ← Option.map_some (f := markAll proof.inputNullifiers), ← hnulls]
  rfl

end Enclave.Pool

import Enclave.Deployment
import Enclave.PublicAmount

/-! # Honest spends

The other side of `Deployment`: whatever anyone did before, an owner who is admitted and not
banned can spend.  `spend_accepted`: the paths of the trees and the answer of `find_key` are a
witness of the circuit, and with a proof for it the pool accepts the transaction. -/

namespace Enclave

namespace Pool

open Circuits

variable {ext : Externals} {P : Poseidon2} {env env' : Env Chain}

/-! ### Acceptance -/

/-- The tokens of a transaction can move. -/
structure Payable (ext : Externals) (token : Address) (extData : ExtData) (sender : Address)
    (env : Env Chain) : Prop where
  deposit : 0 < extData.extAmount.val → extData.extAmount.val < 2 ^ 127 ∧
    (∃ max, env.store.pool.maximumDepositAmount = some max ∧ extData.extAmount.toU256 ≤ max) ∧
    ∃ b, ext.token.transfer sender ext.self extData.extAmount.val (env.store.balances token) = some b
  withdrawal : extData.extAmount.val < 0 → -extData.extAmount.val < 2 ^ 127 ∧
    ∃ b, ext.token.transfer ext.self extData.recipient (-extData.extAmount.val)
      (env.store.balances token) = some b

theorem Payable.amount_lt {token sender : Address} {extData : ExtData}
    (h : Payable ext token extData sender env) : |extData.extAmount.val| < 2 ^ 248 := by
  have hdeposit := h.deposit
  have hwithdrawal := h.withdrawal
  rw [abs_lt]
  omega

theorem transfer_apply {token sender recipient : Address} {amount : ℤ} {b : Balances}
    (h : ext.token.transfer sender recipient amount (env.store.balances token) = some b) :
    transfer ext token sender recipient amount env = .ok ((), setBalances token b env) := by
  rw [transfer, Host.bind_of_ok (Host.getStore_apply env), h]
  rfl

theorem i256ToI128Nonneg_apply {v : I256} (h0 : 0 ≤ v.val) (h1 : v.val < 2 ^ 127) :
    i256ToI128Nonneg v env = .ok (v.val, env) := by
  rw [i256ToI128Nonneg, if_neg (by omega), if_pos h1]
  rfl

theorem Payable.deposit_apply {token sender : Address} {extData : ExtData}
    (h : Payable ext token extData sender env) : ∃ b,
      Pool.deposit ext token extData sender env = .ok ((), setBalances token b env) ∧
        (extData.extAmount.val ≤ 0 → b = env.store.balances token) := by
  by_cases hpos : 0 < extData.extAmount.val
  · obtain ⟨hlt, ⟨max, hmax, hle⟩, b, hb⟩ := h.deposit hpos
    refine ⟨b, ?_, fun hnon => absurd hpos (not_lt.mpr hnon)⟩
    rw [Pool.deposit, if_pos hpos, Host.bind_of_ok (getPool_apply env), hmax,
      Host.bind_of_ok (Host.okOr_some _ _ env), if_neg (not_lt.mpr hle),
      Host.bind_of_ok (i256ToI128Nonneg_apply hpos.le hlt)]
    exact transfer_apply hb
  · refine ⟨env.store.balances token, ?_, fun _ => rfl⟩
    rw [Pool.deposit, if_neg hpos, setBalances, Function.update_eq_self]
    rfl

theorem Payable.withdraw_apply {token sender : Address} {extData : ExtData}
    (h : Payable ext token extData sender env) (env' : Env Chain)
    (hb : extData.extAmount.val ≤ 0 → env'.store.balances token = env.store.balances token) :
    ∃ b, Pool.withdraw ext token extData env' = .ok ((), setBalances token b env') := by
  by_cases hneg : extData.extAmount.val < 0
  · obtain ⟨hlt, b, htransfer⟩ := h.withdrawal hneg
    obtain ⟨w, hw, hval⟩ := @neg_apply extData.extAmount env' (by omega)
    rw [← hb hneg.le] at htransfer
    refine ⟨b, ?_⟩
    rw [Pool.withdraw, if_pos hneg, Host.bind_of_ok hw,
      Host.bind_of_ok (i256ToI128Nonneg_apply (by omega) (by omega)), hval]
    exact transfer_apply htransfer
  · refine ⟨env'.store.balances token, ?_⟩
    rw [Pool.withdraw, if_neg hneg, setBalances, Function.update_eq_self]
    rfl

theorem Checked.checks_apply {proof : Proof} {extData : ExtData} (h : Checked ext proof extData env)
    {nulls : U256 → Option Bool} (hnulls : env.store.pool.nullifiers = some nulls)
    (hproof : proof.proof.isEmpty = false) : checks ext proof extData env = .ok ((), env) := by
  have hunspent : ∀ n ∈ proof.inputNullifiers, (nulls n).getD false = false := by
    intro n hn
    obtain ⟨nulls', hnulls', hn⟩ := h.unspent n hn
    rwa [Option.some.inj (hnulls.symm.trans hnulls')]
  obtain ⟨member, hmember, hmemberRoot⟩ := h.aspMembership
  obtain ⟨nonMember, hnonMember, hnonMemberRoot⟩ := h.aspNonMembership
  obtain ⟨verifier, hverifier, hverified⟩ := h.verified
  obtain ⟨v, hv, -⟩ := @calculatePublicAmount_of_lt extData.extAmount env h.amount_lt
  obtain ⟨-, -, hlt, hcast⟩ := calculatePublicAmount_ok hv
  have hword : proof.publicAmount = v := by
    rw [← F.val_natCast_of_lt h.publicAmount_lt, ← F.val_natCast_of_lt hlt]
    exact congrArg ZMod.val (h.publicAmount.trans hcast.symm)
  rw [checks, Host.bind_of_ok (merkle_apply h.knownRoot)]
  change (checkNullifiers proof.inputNullifiers >>= fun _ => _) env = _
  rw [Host.bind_of_ok (checkNullifiers_apply hnulls hunspent), if_neg (not_not.mpr h.extHash),
    Host.bind_of_ok hv, if_neg (not_not.mpr hword),
    Host.bind_of_ok (getAspMembershipRoot_apply hmember hmemberRoot),
    Host.bind_of_ok (getAspNonMembershipRoot_apply hnonMember hnonMemberRoot),
    if_neg (by simp), Host.bind_of_ok (verifyProof_apply hproof hverifier hverified)]
  rfl

theorem Checked.with_balances {proof : Proof} {extData : ExtData}
    (h : Checked ext proof extData env) (token : Address) (b : Balances) :
    Checked ext proof extData (setBalances token b env) :=
  ⟨h.knownRoot, h.unspent, h.extHash, h.amount_lt, h.publicAmount_lt, h.publicAmount,
    h.aspMembership, h.aspNonMembership, h.verified⟩

/-- **What passes the checks is accepted**, if the tokens can move and the tree takes the
commitments. -/
theorem Checked.transact_apply {auths : List Address} {proof : Proof} {extData : ExtData}
    {sender token : Address} (h : Checked ext proof extData env) (hauth : sender ∈ auths)
    (hnulls : env.store.pool.nullifiers.isSome) (htoken : env.store.pool.token = some token)
    (hproof : proof.proof.isEmpty = false) (hpay : Payable ext token extData sender env)
    {idx : ℕ × ℕ} {e : Env MerkleStore}
    (hins : MerkleTreeWithHistory.insertTwoLeaves P proof.outputCommitment0
      proof.outputCommitment1 (merkleEnv env) = .ok (idx, e)) :
    ∃ env', transact ext P auths proof extData sender env = .ok ((), env') := by
  obtain ⟨nulls, hnulls⟩ := Option.isSome_iff_exists.mp hnulls
  obtain ⟨b, hdeposit, hb⟩ := hpay.deposit_apply
  have hchecks := (h.with_balances token b).checks_apply hnulls hproof
  obtain ⟨b', hwithdraw⟩ :=
    hpay.withdraw_apply (spend proof.inputNullifiers (setBalances token b env)) fun hnon => by
      rw [spend_balances, setBalances_balances, hb hnon]
  have hspent : (spend proof.inputNullifiers (setBalances token b env)).store.pool.token =
      some token := htoken
  rw [transact, Host.bind_of_ok (Host.requireAuth_of_mem hauth env),
    Host.bind_of_ok (getPool_apply env), htoken, Host.bind_of_ok (Host.okOr_some _ _ env),
    Host.bind_of_ok hdeposit, internalTransact, Host.bind_of_ok hchecks,
    Host.bind_of_ok (markNullifiers_apply _ _), Host.bind_of_ok (getPool_apply _), hspent,
    Host.bind_of_ok (Host.okOr_some _ _ _), Host.bind_of_ok hwithdraw,
    Host.bind_of_ok (@merkle_apply (setBalances token b'
      (spend proof.inputNullifiers (setBalances token b env))) _ _ _ _ hins)]
  exact ⟨_, rfl⟩

end Pool

namespace Deployment

open Circuits Pool

variable {ext : Externals} {P : Poseidon2} {sites : Sites} {s s₀ : Ledger} {calls : List Call}

/-! ### The pool's tree -/

variable (ext P sites) in
/-- The call inserts two commitments into the pool's tree. -/
def inserts (s : Ledger) : Call → Option (F × F)
  | .pool a => (acceptedProof ext P (s.chain sites) a).map fun proof =>
      ((proof.outputCommitment0 : F), (proof.outputCommitment1 : F))
  | _ => none

variable (ext P sites) in
/-- The leaves of the pool's tree after a run that starts without. -/
def commitments (s : Ledger) (calls : List Call) : List F :=
  (effects ext P sites (inserts ext P sites) s calls).flatMap fun p => [p.1, p.2]

/-- **What a call does to the pool's tree.** -/
theorem merkle_cases (ext : Externals) (P : Poseidon2) (sites : Sites) (s : Ledger) (c : Call) :
    (∃ (c₀ c₁ : U256) (idx : ℕ × ℕ), inserts ext P sites s c = some ((c₀ : F), (c₁ : F)) ∧
      MerkleTreeWithHistory.insertTwoLeaves P c₀ c₁ (merkleEnv s.pool) =
        .ok (idx, merkleEnv (step ext P sites s c).pool)) ∨
    (inserts ext P sites s c = none ∧
      merkleEnv (step ext P sites s c).pool = merkleEnv s.pool) := by
  cases c with
  | pool a =>
      obtain ⟨auths, proof, extData, sender, -, hproof, hacc⟩ | ⟨hnone, hquiet⟩ :=
        step_cases ext P (s.chain sites) a
      · obtain ⟨idx, hins⟩ := hacc.inserted
        exact Or.inl ⟨_, _, idx, by rw [inserts, hproof]; rfl, hins⟩
      · refine Or.inr ⟨by rw [inserts, hnone]; rfl, ?_⟩
        rw [merkleEnv, step, hquiet.merkle, hquiet.hashed]
        rfl
  | insertLeaf auths leaf => exact Or.inr ⟨rfl, rfl⟩
  | setAdminInsertOnly auths adminOnly => exact Or.inr ⟨rfl, rfl⟩
  | updateMembershipAdmin auths newAdmin => exact Or.inr ⟨rfl, rfl⟩
  | insertKey auths key value => exact Or.inr ⟨rfl, rfl⟩
  | updateKey auths key newValue => exact Or.inr ⟨rfl, rfl⟩
  | deleteKey auths key => exact Or.inr ⟨rfl, rfl⟩
  | updateNonMembershipAdmin auths newAdmin => exact Or.inr ⟨rfl, rfl⟩

/-- **The pool's tree has the commitments of the accepted transactions.** -/
theorem holds_run (hz : ZeroTable P) {leaves : List F}
    (h : MerkleTreeWithHistory.Holds P 10 leaves (merkleEnv s.pool)) :
    MerkleTreeWithHistory.Holds P 10 (leaves ++ commitments ext P sites s calls)
      (merkleEnv (run ext P sites s calls).pool) := by
  induction calls generalizing s leaves with
  | nil =>
      rw [commitments, effects, List.flatMap_nil, List.append_nil]
      exact h
  | cons c rest ih =>
      rw [commitments, effects, List.flatMap_append, ← List.append_assoc]
      refine ih ?_
      obtain ⟨c₀, c₁, idx, hinserts, hins⟩ | ⟨hnone, heq⟩ := merkle_cases ext P sites s c
      · rw [hinserts]
        exact (h.of_insertTwoLeaves hz (by decide) (by decide) hins).2.2.2
      · rw [hnone, heq, Option.toList_none, List.flatMap_nil, List.append_nil]
        exact h

/-- The root is zero at no time, as it is a digest or the table's. -/
theorem rootOf_ne_zero {leaves : List F} {env : Env MerkleStore}
    (h : MerkleTreeWithHistory.Holds P 10 leaves env) (hn : P.NeverZero {q | q ∈ env.hashed})
    (hz : ZeroTable P) : rootOf P 10 leaves ≠ 0 := by
  have hpair := h.hashed leaves.length ⟨le_rfl, h.even⟩
    (Merkle.childPair P.compress (leafAt (leaves.take leaves.length)) 9 0) ⟨9, by decide, 0, rfl⟩
  rw [List.take_length] at hpair
  have hroot : rootOf P 10 leaves = P.compress
      (Merkle.childPair P.compress (leafAt leaves) 9 0).1
      (Merkle.childPair P.compress (leafAt leaves) 9 0).2 := rfl
  rw [hroot]
  obtain hmem | ⟨l, hl, heq⟩ := hpair
  · exact hn _ hmem
  · have hzero : ∀ l < 10, zeroAt (l + 1) ≠ 0 := by decide +kernel
    rw [heq, ← hz l (by omega)]
    exact hzero l hl

/-! ### The witness -/

/-- What an owner has and wants: the key, the blinding under which it is admitted and the position
of that leaf, two inputs by amount, blinding and position, and two outputs. -/
structure Plan where
  privateKey : F
  memberBlinding : F
  memberIndex : ℕ
  amount : Fin 2 → F
  blinding : Fin 2 → F
  index : Fin 2 → ℕ
  output : Fin 2 → Output

namespace Plan

variable (p : Plan)

def pubkey (P : Poseidon2) : F := publicKey P p.privateKey

def commitment (P : Poseidon2) (tx : Fin 2) : F :=
  Circuits.commitment P (p.amount tx) (p.pubkey P) (p.blinding tx)

def nullifier (P : Poseidon2) (tx : Fin 2) : F :=
  Circuits.nullifier P p.privateKey (p.commitment P tx) (p.index tx)

/-- The path of a position in a tree of ten levels. -/
def path (P : Poseidon2) (leaves : List F) (i : ℕ) (l : Fin 10) : F :=
  (Merkle.siblings P.compress (leafAt leaves) i 10 0).getD l 0

/-- The signals that the answer of `find_key` makes. -/
def absence (key : F) (find : AspNonMembership.FindResult) : NonMembershipProof 10 where
  key := key
  siblings l := (find.siblings.map (Nat.cast : U256 → F)).getD l 0
  oldKey := find.notFoundKey
  oldValue := find.notFoundValue
  isOld0 := if find.isOld0 then 1 else 0

/-- The witness: paths in the pool's tree and in the membership tree, and the search. -/
def witness (P : Poseidon2) (notes members : List F) (find : AspNonMembership.FindResult) :
    PolicyWitness where
  input tx := {
    membershipProofs := fun _ => ⟨P.hash2 (p.pubkey P) p.memberBlinding 1, p.memberBlinding,
      path P members p.memberIndex, p.memberIndex⟩
    nonMembershipProofs := fun _ => absence (p.pubkey P) find
    inAmount := p.amount tx
    inPrivateKey := p.privateKey
    inBlinding := p.blinding tx
    inPathIndices := p.index tx
    inPathElements := path P notes (p.index tx) }
  output := p.output

/-- What it states. -/
def statement (P : Poseidon2) (notes members : List F) (banRoot publicAmount extDataHash : F) :
    PolicyPublic where
  root := rootOf P 10 notes
  publicAmount := publicAmount
  extDataHash := extDataHash
  inputNullifier := p.nullifier P
  outputCommitment tx := noteCommitment P (p.output tx)
  membershipRoots _ _ := rootOf P 10 members
  nonMembershipRoots _ _ := banRoot

end Plan

theorem ofFn_getD {n : ℕ} {l : List F} (h : l.length = n) :
    (List.ofFn fun i : Fin n => l.getD i 0) = l := by
  subst h
  refine List.ext_getElem List.length_ofFn fun i hi hi' => ?_
  rw [List.getElem_ofFn]
  exact List.getD_eq_getElem _ _ hi'

theorem root_path (leaves : List F) {i : ℕ} (hi : i < 2 ^ 10) :
    MerkleProof.root P (i : F) 0 (List.ofFn (Plan.path P leaves i)) (leafAt leaves i) =
      rootOf P 10 leaves := by
  have hlist : List.ofFn (Plan.path P leaves i) =
      Merkle.siblings P.compress (leafAt leaves) i 10 0 :=
    ofFn_getD (Merkle.length_siblings _ _ _ _)
  have hval : (i : F).val = i := F.val_natCast_of_lt (hi.trans (by decide))
  have hpath := Merkle.pathRoot_siblings (c := P.compress) (leafAt leaves) i 10 0
  rw [pow_zero, Nat.div_one, Nat.zero_add, Nat.div_eq_of_lt hi] at hpath
  rw [hlist, MerkleProof.root_eq, hval]
  exact hpath

theorem verifier_absence (root key : F) {find : AspNonMembership.FindResult}
    (h : find.siblings.length ≤ 10) : (Plan.absence key find).verifier root =
      AspNonMembership.exclusionInputs root key key find 10 := by
  have hsibs : (List.ofFn fun l : Fin 10 => (find.siblings.map (Nat.cast : U256 → F)).getD l 0) =
      find.siblings.map (Nat.cast : U256 → F) ++ List.replicate (10 - find.siblings.length) 0 := by
    have hlen : (find.siblings.map (Nat.cast : U256 → F) ++
        List.replicate (10 - find.siblings.length) 0).length = 10 := by
      rw [List.length_append, List.length_map, List.length_replicate]
      omega
    rw [← ofFn_getD hlen]
    refine congrArg List.ofFn (funext fun l => ?_)
    by_cases hl : l.val < (find.siblings.map (Nat.cast : U256 → F)).length
    · rw [List.getD_append _ _ _ _ hl]
    · rw [List.getD_eq_default _ _ (not_lt.mp hl), List.getD_append_right _ _ _ _ (not_lt.mp hl),
        List.getD_eq_getElem?_getD, List.getElem?_getD_replicate_default_eq]
  have hold : bitSignal (if find.isOld0 then 1 else 0) 0 = if find.isOld0 then 1 else 0 := by
    cases find.isOld0 <;> decide +kernel
  simp only [NonMembershipProof.verifier, AspNonMembership.exclusionInputs, Plan.absence, hsibs,
    hold]

/-- **The witness satisfies the circuit.** -/
theorem Plan.satisfies (extDataHash : F) {p : Plan} {notes members : List F}
    {find : AspNonMembership.FindResult} {banRoot publicAmount : F}
    (hmember : members[p.memberIndex]? = some (P.hash2 (p.pubkey P) p.memberBlinding 1))
    (hmembers : members.length ≤ 2 ^ 10) (hlen : find.siblings.length ≤ 10)
    (hban : (AspNonMembership.exclusionInputs banRoot (p.pubkey P) (p.pubkey P) find 10).Satisfies P)
    (hindex : ∀ tx, p.index tx < 2 ^ 10)
    (hopens : ∀ tx, p.amount tx = 0 ∨ notes[p.index tx]? = some (p.commitment P tx))
    (hne : p.nullifier P 0 ≠ p.nullifier P 1) (hout : ∀ tx, num2Bits 248 (p.output tx).outAmount)
    (hsum : ∑ tx, p.amount tx + publicAmount = ∑ tx, (p.output tx).outAmount) :
    (p.witness P notes members find).Satisfies P
      (p.statement P notes members banRoot publicAmount extDataHash) where
  input tx := by
    have hval : (p.index tx : F).val = p.index tx :=
      F.val_natCast_of_lt ((hindex tx).trans (by decide))
    refine ⟨rfl, ?_, forceEqualIfEnabled_iff.mpr ((hopens tx).imp_right fun hnote => ?_),
      fun _ => ?_, fun _ => ?_⟩
    · change (p.index tx : F).val < 2 ^ 10
      rw [hval]
      exact hindex tx
    · have hleaf : leafAt notes (p.index tx) = p.commitment P tx := by
        rw [leafAt, List.getD_eq_getElem?_getD, hnote]
        rfl
      have hroot := root_path (P := P) notes (hindex tx)
      rw [hleaf] at hroot
      exact hroot.symm
    · have hlt : p.memberIndex < 2 ^ 10 :=
        (List.getElem?_eq_some_iff.mp hmember).1.trans_le hmembers
      have hleaf : leafAt members p.memberIndex = P.hash2 (p.pubkey P) p.memberBlinding 1 := by
        rw [leafAt, List.getD_eq_getElem?_getD, hmember]
        rfl
      refine ⟨rfl, ?_, ?_⟩
      · change (p.memberIndex : F).val < 2 ^ 10
        rw [F.val_natCast_of_lt (hlt.trans (by decide))]
        exact hlt
      · have hroot := root_path (P := P) members hlt
        rw [hleaf] at hroot
        exact hroot
    · refine ⟨rfl, ?_, ?_⟩
      · change (if find.isOld0 then 1 else 0 : F).val < 2 ^ 1
        cases find.isOld0 <;> decide
      · have hverifier := verifier_absence banRoot (p.pubkey P) hlen
        rw [← hverifier] at hban
        exact hban
  output tx := ⟨rfl, hout tx⟩
  sameNullifiers i j hij := by
    obtain ⟨rfl, rfl⟩ : i = 0 ∧ j = 1 := by omega
    rw [isEqual_eq]
    exact if_neg hne
  invariant := hsum

/-! ### Spending -/

/-- Whatever satisfies the circuit has a proof. -/
def CompleteVerifier (ext : Externals) (P : Poseidon2) : Prop :=
  ∀ (verifier : Address) (pub : PolicyPublic) (w : PolicyWitness), w.Satisfies P pub →
    ∃ proof, proof.isEmpty = false ∧
      ext.verify verifier proof (pub.toList.map ZMod.val) = some true

/-- The pool is set up, and asks these ASP contracts. -/
structure Configured (sites : Sites) (token : Address) (s : Ledger) : Prop where
  token : s.pool.store.pool.token = some token
  verifier : ∃ verifier, s.pool.store.pool.verifier = some verifier
  nullifiers : s.pool.store.pool.nullifiers.isSome
  aspMembership : s.pool.store.pool.aspMembership = some sites.aspMembership
  aspNonMembership : s.pool.store.pool.aspNonMembership = some sites.aspNonMembership

/-- After the run the plan can be carried out. -/
structure Plan.Ready (ext : Externals) (P : Poseidon2) (sites : Sites) (s : Ledger)
    (calls : List Call) (p : Plan) (extData : ExtData) : Prop where
  admitted : (effects ext P sites (admits P) s calls)[p.memberIndex]? =
    some (P.hash2 (p.pubkey P) p.memberBlinding 1)
  notBanned : bannedAfter ext P sites s calls (p.pubkey P) = none
  /-- The circuit has ten levels, the last of them for a zero. -/
  shallow : ∀ find env, AspNonMembership.findKey (p.pubkey P).val
    (run ext P sites s calls).aspNonMembership = .ok (find, env) → find.siblings.length < 10
  opens : ∀ tx, (p.amount tx = 0 ∧ p.index tx < 2 ^ 10) ∨
    (commitments ext P sites s calls)[p.index tx]? = some (p.commitment P tx)
  ne : p.nullifier P 0 ≠ p.nullifier P 1
  unspent : ∀ tx, ¬ Spent (run ext P sites s calls).pool (p.nullifier P tx).val
  amounts : ∀ tx, (p.output tx).outAmount.val < 2 ^ 248
  balanced : (∑ tx, (p.amount tx).val : ℕ) + extData.extAmount.val =
    (∑ tx, (p.output tx).outAmount.val : ℕ)
  room : (commitments ext P sites s calls).length < 2 ^ 10

/-- The proof of a statement with the words of its signals. -/
def proofFor (proof : Groth16Proof) (pub : PolicyPublic) : Proof :=
  let word (i : ℕ) : ℕ := (pub.toList.getD i 0).val
  { proof := proof
    root := word 0
    publicAmount := word 1
    extDataHash := word 2
    inputNullifiers := [word 3, word 4]
    outputCommitment0 := word 5
    outputCommitment1 := word 6
    aspMembershipRoot := word 7
    aspNonMembershipRoot := word 9 }

/-- **An owner who is admitted and not banned can spend**, whatever anyone did before. -/
theorem spend_accepted (hv : CompleteVerifier ext P) (hz : ZeroTable P) (h : s₀.Deployed)
    {token₀ token sender : Address} (hfresh : Fresh token₀ s₀.pool)
    (hcfg : Configured sites token (run ext P sites s₀ calls))
    (hch : AspNonMembership.ValueChanging (effects ext P sites (bans P) s₀ calls) fun _ => none)
    (hc : P.CollisionFree {q | q ∈ (run ext P sites s₀ calls).aspNonMembership.hashed})
    (hn : P.NeverZero {q | q ∈ (run ext P sites s₀ calls).aspNonMembership.hashed ∨
      q ∈ (run ext P sites s₀ calls).pool.hashed})
    {p : Plan} {extData : ExtData} (hp : p.Ready ext P sites s₀ calls extData)
    (hpay : Payable ext token extData sender ((run ext P sites s₀ calls).chain sites))
    {auths : List Address} (hauth : sender ∈ auths) :
    (∃ find env' banRoot,
      AspNonMembership.findKey (p.pubkey P).val (run ext P sites s₀ calls).aspNonMembership =
        .ok (find, env') ∧
      (run ext P sites s₀ calls).aspNonMembership.store.root = some banRoot.val ∧
      (p.witness P (commitments ext P sites s₀ calls)
        (effects ext P sites (admits P) s₀ calls) find).Satisfies P
        (p.statement P (commitments ext P sites s₀ calls)
          (effects ext P sites (admits P) s₀ calls) banRoot (extData.extAmount.val : ℤ)
          (hashExtData ext extData : F))) ∧
    ∃ proof env', transact ext P auths proof extData sender
        ((run ext P sites s₀ calls).chain sites) = .ok ((), env') ∧
      proof.inputNullifiers = [(p.nullifier P 0).val, (p.nullifier P 1).val] ∧
      proof.outputCommitment0 = (noteCommitment P (p.output 0)).val ∧
      proof.outputCommitment1 = (noteCommitment P (p.output 1)).val := by
  have hnotes := @holds_run ext P sites s₀ calls hz [] (hfresh.backs hz ∅ ∅).2.holds
  rw [List.nil_append] at hnotes
  obtain ⟨admin, hadmin⟩ := h.aspMembership
  have hmembers := @members_run ext P sites s₀ calls [] hz (members_of_constructor hz hadmin)
  rw [List.nil_append] at hmembers
  obtain ⟨admin', hadmin'⟩ := h.aspNonMembership
  have hstart := AspNonMembership.stores_constructor P admin'
  rw [← hadmin'] at hstart
  have hsep := AspNonMembership.separated_of_collisionFree P hc fun q hq => hn q (Or.inl hq)
  obtain ⟨_, t, S, hst⟩ := stores_run hstart hch hsep
  have hrep := hst.represents
  have hfind := hrep.findKey_apply hsep (p.pubkey P).val
  have hshallow := hp.shallow _ _ hfind
  have hlen := hshallow
  rw [AspNonMembership.searchResult_siblings, List.length_map] at hlen
  have hban := AspNonMembership.satisfies_of_search hrep hsep (hst.not_has hp.notBanned)
    (p.pubkey P) hlen
  have hindex : ∀ tx, p.index tx < 2 ^ 10 := by
    intro tx
    obtain ⟨-, hlt⟩ | hnote := hp.opens tx
    · exact hlt
    · exact (List.getElem?_eq_some_iff.mp hnote).1.trans_le hnotes.length_le
  have hsum : ∑ tx, p.amount tx + ((extData.extAmount.val : ℤ) : F) =
      ∑ tx, (p.output tx).outAmount := by
    have hcast := congrArg (Int.cast : ℤ → F) hp.balanced
    push_cast at hcast
    simpa only [F.natCast_val] using hcast
  have hsat := Plan.satisfies (hashExtData ext extData : F) hp.admitted
    hmembers.holds.length_le hshallow.le hban hindex (fun tx => (hp.opens tx).imp_left And.left)
    hp.ne hp.amounts hsum
  refine ⟨⟨_, _, _, hfind, hrep.root, hsat⟩, ?_⟩
  obtain ⟨verifier, hverifier⟩ := hcfg.verifier
  obtain ⟨g, hempty, hverify⟩ := hv verifier _ _ hsat
  obtain ⟨e, hins, -⟩ := hnotes.insertTwoLeaves_apply hz (by decide) (by decide) hp.room
    (noteCommitment P (p.output 0)) (noteCommitment P (p.output 1))
  obtain ⟨nulls, hnulls⟩ := Option.isSome_iff_exists.mp hcfg.nullifiers
  have hunspent : ∀ tx, (nulls (p.nullifier P tx).val).getD false = false := by
    intro tx
    have hno := hp.unspent tx
    rw [Spent, hnulls] at hno
    cases hnull : nulls (p.nullifier P tx).val with
    | none => rfl
    | some b =>
        cases b with
        | false => rfl
        | true => exact absurd ⟨nulls, rfl, hnull⟩ hno
  have hchecked : Checked ext (proofFor g (p.statement P (commitments ext P sites s₀ calls)
      (effects ext P sites (admits P) s₀ calls) (AspNonMembership.treeHash P t)
      (extData.extAmount.val : ℤ) (hashExtData ext extData : F))) extData
      ((run ext P sites s₀ calls).chain sites) := by
    refine ⟨?_, fun n hmem => ⟨nulls, hnulls, ?_⟩, ?_, hpay.amount_lt, F.val_lt _, ?_,
      ⟨_, hcfg.aspMembership, ?_⟩, ⟨_, hcfg.aspNonMembership, ?_⟩, verifier, hverifier, hverify⟩
    · exact hnotes.isKnownRoot_apply (rootOf_ne_zero hnotes (fun q hq => hn q (Or.inr hq)) hz)
    · rcases List.mem_pair.mp hmem with rfl | rfl
      · exact hunspent 0
      · exact hunspent 1
    · exact (F.val_natCast_of_lt (Nat.mod_lt _ (by decide))).symm
    · exact F.natCast_val _
    · rw [Ledger.chain_aspMembership, hmembers.holds.root]
      rfl
    · rw [Ledger.chain_aspNonMembership, hrep.root]
      rfl
  obtain ⟨env', hok⟩ := hchecked.transact_apply hauth hcfg.nullifiers hcfg.token hempty hpay hins
  exact ⟨_, env', hok, rfl, rfl, rfl⟩

/-! ### A sample -/

theorem run_congr {ext' : Externals}
    (h : ∀ c ∈ calls, ∀ s, step ext P sites s c = step ext' P sites s c) (s : Ledger) :
    run ext P sites s calls = run ext' P sites s calls := by
  induction calls generalizing s with
  | nil => rw [run, run, List.foldl_nil, List.foldl_nil]
  | cons c rest ih =>
      obtain ⟨hc, hrest⟩ := List.forall_mem_cons.mp h
      change run ext P sites (step ext P sites s c) rest =
        run ext' P sites (step ext' P sites s c) rest
      rw [hc, ih hrest]

theorem effects_congr {β : Type} {ext' : Externals} {f f' : Ledger → Call → Option β}
    (h : ∀ c ∈ calls, ∀ s, step ext P sites s c = step ext' P sites s c)
    (hf : ∀ c ∈ calls, ∀ s, f s c = f' s c) :
    effects ext P sites f s calls = effects ext' P sites f' s calls := by
  induction calls generalizing s with
  | nil => rw [effects, effects]
  | cons c rest ih =>
      obtain ⟨hc, hrest⟩ := List.forall_mem_cons.mp h
      obtain ⟨hfc, hfrest⟩ := List.forall_mem_cons.mp hf
      rw [effects, effects, hc, hfc, ih hrest hfrest]

open Classical in
/-- A verifier of what the circuit can satisfy. -/
noncomputable def idealExternals : Externals :=
  { admittedExternals with
    verify := fun _ _ xs => some (decide (∃ (pub : PolicyPublic) (w : PolicyWitness),
      pub.toList = xs.map (Nat.cast : ℕ → F) ∧ w.Satisfies zeroPoseidon2 pub)) }

theorem complete_idealExternals : CompleteVerifier idealExternals zeroPoseidon2 := by
  classical
  intro verifier pub w hsat
  have hwords : pub.toList = (pub.toList.map ZMod.val).map (Nat.cast : ℕ → F) := by
    rw [List.map_map]
    exact (List.map_id'' (fun x => F.natCast_val x) _).symm
  exact ⟨⟨[0], [0], [0]⟩, rfl, congrArg some (decide_eq_true ⟨pub, w, hwords, hsat⟩)⟩

theorem depositAmount_range : -2 ^ 255 ≤ (7 : ℤ) ∧ (7 : ℤ) < 2 ^ 255 := by decide

def sampleDeposit : ExtData := ⟨.account 1, ⟨7, depositAmount_range⟩, [], []⟩

/-- The deposit of the samples follows the calls of the ASP contracts. -/
def depositCall : Call :=
  .pool (.transact [.account 1] admittedTransact sampleDeposit (.account 1))

def spendCalls : List Call := sampleCalls ++ [depositCall]

theorem transact_idealExternals :
    transact idealExternals zeroPoseidon2 [.account 1] admittedTransact sampleDeposit
        (.account 1) =
      transact admittedExternals zeroPoseidon2 [.account 1] admittedTransact sampleDeposit
        (.account 1) := by
  classical
  have hwords : (publicInputs admittedTransact).map (Nat.cast : ℕ → F) =
      admittedOpening.1.toList := by decide +kernel
  have hverify : ∀ verifier g, idealExternals.verify verifier g (publicInputs admittedTransact) =
      admittedExternals.verify verifier g (publicInputs admittedTransact) := by
    intro verifier g
    exact congrArg some ((decide_eq_true ⟨_, _, hwords.symm, satisfies_admittedOpening⟩).trans
      (decide_eq_true hwords).symm)
  have hproof : verifyProof idealExternals admittedTransact =
      verifyProof admittedExternals admittedTransact := by
    simp only [verifyProof, hverify]
  simp only [transact, internalTransact, checks, hproof]
  rfl

theorem step_idealExternals : ∀ c ∈ spendCalls, ∀ s : Ledger,
    step idealExternals zeroPoseidon2 sampleSites s c =
      step admittedExternals zeroPoseidon2 sampleSites s c := by
  have hdeposit : ∀ s : Ledger, step idealExternals zeroPoseidon2 sampleSites s depositCall =
      step admittedExternals zeroPoseidon2 sampleSites s depositCall := by
    intro s
    simp only [step, depositCall, Pool.step, transact_idealExternals]
  refine List.forall_mem_cons.mpr ⟨fun s => rfl, List.forall_mem_cons.mpr ⟨fun s => rfl, ?_⟩⟩
  exact List.forall_mem_singleton.mpr hdeposit

theorem inserts_idealExternals : ∀ c ∈ spendCalls, ∀ s : Ledger,
    inserts idealExternals zeroPoseidon2 sampleSites s c =
      inserts admittedExternals zeroPoseidon2 sampleSites s c := by
  have hdeposit : ∀ s : Ledger, inserts idealExternals zeroPoseidon2 sampleSites s depositCall =
      inserts admittedExternals zeroPoseidon2 sampleSites s depositCall := by
    intro s
    simp only [inserts, depositCall, acceptedProof, transact_idealExternals]
  refine List.forall_mem_cons.mpr ⟨fun s => rfl, List.forall_mem_cons.mpr ⟨fun s => rfl, ?_⟩⟩
  exact List.forall_mem_singleton.mpr hdeposit

theorem run_spendCalls : run idealExternals zeroPoseidon2 sampleSites sampleLedger spendCalls =
    run admittedExternals zeroPoseidon2 sampleSites sampleLedger spendCalls :=
  run_congr step_idealExternals sampleLedger

/-- A withdrawal of 3 from the deposit by the owner of the samples, under 3 as blinding in the
membership tree. -/
def samplePlan : Plan where
  privateKey := 1
  memberBlinding := (3 : ℕ)
  memberIndex := 0
  amount := ![(7 : ℕ), 0]
  blinding := fun _ => 0
  index := ![0, 2]
  output := fun tx => ⟨![(4 : ℕ), 0] tx, samplePubkey, 0⟩

theorem withdrawalAmount_range : -2 ^ 255 ≤ (-3 : ℤ) ∧ (-3 : ℤ) < 2 ^ 255 := by decide

def sampleWithdrawal : ExtData := ⟨.account 1, ⟨-3, withdrawalAmount_range⟩, [], []⟩

theorem ready_samplePlan : samplePlan.Ready idealExternals zeroPoseidon2 sampleSites sampleLedger
    spendCalls sampleWithdrawal where
  admitted := by
    rw [effects_congr step_idealExternals fun _ _ _ => rfl]
    decide +kernel
  notBanned := by
    rw [bannedAfter, effects_congr step_idealExternals fun _ _ _ => rfl]
    decide +kernel
  shallow find env hfind := by
    have hall : (AspNonMembership.findKey (samplePlan.pubkey zeroPoseidon2).val
        (run admittedExternals zeroPoseidon2 sampleSites sampleLedger
          spendCalls).aspNonMembership).toOption.all
        (fun r => decide (r.1.siblings.length < 10)) = true := by decide +kernel
    rw [run_spendCalls] at hfind
    rw [hfind] at hall
    exact of_decide_eq_true hall
  opens tx := by
    rw [commitments, effects_congr step_idealExternals inserts_idealExternals]
    revert tx
    decide +kernel
  ne := by decide +kernel
  unspent tx := by
    have hnone : ∀ tx : Fin 2, (run admittedExternals zeroPoseidon2 sampleSites sampleLedger
        spendCalls).pool.store.pool.nullifiers.bind
          (· (samplePlan.nullifier zeroPoseidon2 tx).val) = none := by decide +kernel
    rw [run_spendCalls]
    rintro ⟨nulls, hnulls, hspent⟩
    have htx := hnone tx
    rw [hnulls, Option.bind_some, hspent] at htx
    cases htx
  amounts tx := by
    revert tx
    decide +kernel
  balanced := by decide +kernel
  room := by
    rw [commitments, effects_congr step_idealExternals inserts_idealExternals]
    decide +kernel

/-- The deposit is in the pool's tree, and 3 of its 7 are paid out. -/
theorem spend_accepted_sample :
    (commitments idealExternals zeroPoseidon2 sampleSites sampleLedger spendCalls)[0]? =
      some (samplePlan.commitment zeroPoseidon2 0) ∧
    ∃ proof env', transact idealExternals zeroPoseidon2 [.account 1] proof sampleWithdrawal
        (.account 1) ((run idealExternals zeroPoseidon2 sampleSites sampleLedger spendCalls).chain
          sampleSites) = .ok ((), env') ∧
      proof.inputNullifiers = [(samplePlan.nullifier zeroPoseidon2 0).val,
        (samplePlan.nullifier zeroPoseidon2 1).val] ∧
      proof.outputCommitment0 = (commitment zeroPoseidon2 (4 : ℕ) samplePubkey 0).val := by
  have hnote : (commitments idealExternals zeroPoseidon2 sampleSites sampleLedger spendCalls)[0]? =
      some (samplePlan.commitment zeroPoseidon2 0) := by
    rw [commitments, effects_congr step_idealExternals inserts_idealExternals]
    decide +kernel
  refine ⟨hnote, ?_⟩
  have hclean : cleanLog zeroPoseidon2 ((run admittedExternals zeroPoseidon2 sampleSites
      sampleLedger spendCalls).aspNonMembership.hashed ++ (run admittedExternals zeroPoseidon2
      sampleSites sampleLedger spendCalls).pool.hashed).dedup = true := by decide +kernel
  have hops : effects idealExternals zeroPoseidon2 sampleSites (bans zeroPoseidon2) sampleLedger
      spendCalls = [.insert 5 5] := rfl
  obtain ⟨hc, hn⟩ := collisionFree_of_cleanLog hclean
  have hlog : {q | q ∈ (run idealExternals zeroPoseidon2 sampleSites sampleLedger
        spendCalls).aspNonMembership.hashed ∨ q ∈ (run idealExternals zeroPoseidon2 sampleSites
        sampleLedger spendCalls).pool.hashed} ⊆ {q | q ∈ ((run admittedExternals zeroPoseidon2
      sampleSites sampleLedger spendCalls).aspNonMembership.hashed ++ (run admittedExternals
      zeroPoseidon2 sampleSites sampleLedger spendCalls).pool.hashed).dedup} := by
    intro q hq
    rw [run_spendCalls] at hq
    exact List.mem_dedup.mpr (List.mem_append.mpr hq)
  have hcfg : Configured sampleSites (.contract 1)
      (run idealExternals zeroPoseidon2 sampleSites sampleLedger spendCalls) := by
    rw [run_spendCalls]
    have hfields : ∀ pool, (run admittedExternals zeroPoseidon2 sampleSites sampleLedger
        spendCalls).pool.store.pool = pool → pool.token = some (.contract 1) ∧
          pool.verifier = some (.contract 2) ∧ pool.nullifiers.isSome = true ∧
          pool.aspMembership = some (.contract 3) ∧ pool.aspNonMembership = some (.contract 4) := by
      rintro _ rfl
      decide +kernel
    obtain ⟨htoken, hverifier, hnulls, hmember, hban⟩ := hfields _ rfl
    exact ⟨htoken, ⟨_, hverifier⟩, hnulls, hmember, hban⟩
  have hpay : Payable idealExternals (.contract 1) sampleWithdrawal (.account 1)
      ((run idealExternals zeroPoseidon2 sampleSites sampleLedger spendCalls).chain
        sampleSites) := by
    rw [run_spendCalls]
    exact ⟨fun h => absurd h (by decide),
      fun _ => ⟨by decide, Option.isSome_iff_exists.mp (by decide +kernel)⟩⟩
  obtain ⟨-, proof, env', hok, hnulls, hout, -⟩ := spend_accepted complete_idealExternals
    zeroTable_zeroPoseidon2 deployed_sampleLedger fresh_samplePool hcfg
    (by rw [hops]; exact ⟨trivial, trivial⟩) (hc.mono fun q hq => hlog (Or.inl hq))
    (fun q hq => hn q (hlog hq)) ready_samplePlan hpay (List.mem_singleton.mpr rfl)
  exact ⟨proof, env', hok, hnulls, hout⟩

end Deployment

end Enclave

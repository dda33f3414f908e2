import Enclave.Pool.Contract

/-! # What an accepted transaction did

`transact_accepted` says once what `transact` can do: every check it passed, the balances it
moved, and the storage it left.  What is proved about runs starts from `Accepted`. -/

namespace Enclave.Pool

variable {ext : Externals} {P : Poseidon2} {env env' : Env Chain}

/-! ### One lemma for each helper -/

theorem getPool_bind {α : Type} {f : Store → Call α} {a : α} :
    (getPool >>= f) env = .ok (a, env') ↔ f env.store.pool env = .ok (a, env') := Iff.rfl

theorem getStore_bind {α : Type} {f : Chain → Call α} {a : α} :
    (Host.getStore >>= f) env = .ok (a, env') ↔ f env.store env = .ok (a, env') := Iff.rfl

def merkleEnv (env : Env Chain) : Env MerkleStore := ⟨env.store.pool.merkle, env.hashed⟩

theorem merkle_eq_ok {α : Type} {m : MerkleTreeWithHistory.Call α} {a : α} :
    merkle m env = .ok (a, env') ↔ ∃ e, m (merkleEnv env) = .ok (a, e) ∧
      env' = ⟨{ env.store with pool := { env.store.pool with merkle := e.store } }, e.hashed⟩ :=
  Host.zoom_eq_ok

theorem isKnownRoot_frame {root : U256} {b : Bool} {e e' : Env MerkleStore}
    (h : MerkleTreeWithHistory.isKnownRoot root e = .ok (b, e')) : e' = e := by
  unfold MerkleTreeWithHistory.isKnownRoot at h
  split_ifs at h
  · cases h
    rfl
  · rw [Host.bind_of_ok (Host.getStore_apply e), Host.bind_eq_ok] at h
    obtain ⟨i, e₁, hi, h⟩ := h
    obtain ⟨-, rfl⟩ := Host.okOr_eq_ok.mp hi
    cases h
    rfl

theorem isSpent_ok {n : U256} {b : Bool} (h : isSpent n env = .ok (b, env')) :
    env' = env ∧ ∃ nulls, env.store.pool.nullifiers = some nulls ∧ b = (nulls n).getD false := by
  rw [isSpent, getPool_bind, Host.bind_eq_ok] at h
  obtain ⟨nulls, e₁, hn, h⟩ := h
  obtain ⟨hnulls, rfl⟩ := Host.okOr_eq_ok.mp hn
  cases h
  exact ⟨rfl, nulls, hnulls, rfl⟩

theorem checkNullifiers_ok {ns : List U256} (h : checkNullifiers ns env = .ok ((), env')) :
    env' = env ∧ ∀ n ∈ ns, ∃ nulls, env.store.pool.nullifiers = some nulls ∧
      (nulls n).getD false = false := by
  induction ns with
  | nil =>
      cases h
      exact ⟨rfl, fun n hn => absurd hn List.not_mem_nil⟩
  | cons n rest ih =>
      rw [checkNullifiers, Host.bind_eq_ok] at h
      obtain ⟨b, e₁, hb, h⟩ := h
      obtain ⟨rfl, nulls, hnulls, rfl⟩ := isSpent_ok hb
      split_ifs at h with hspent
      · cases h
      · obtain ⟨rfl, hrest⟩ := ih h
        refine ⟨rfl, fun m hm => ?_⟩
        rcases List.mem_cons.mp hm with rfl | hm
        · exact ⟨nulls, hnulls, by simpa using hspent⟩
        · exact hrest m hm

/-- The environment with the balances of a token replaced. -/
def setBalances (token : Address) (b : Balances) (env : Env Chain) : Env Chain :=
  ⟨{ env.store with balances := Function.update env.store.balances token b }, env.hashed⟩

theorem setBalances_balances (token : Address) (b : Balances) (env : Env Chain) :
    (setBalances token b env).store.balances token = b := Function.update_self _ _ _

theorem setBalances_idem (token : Address) (b c : Balances) (env : Env Chain) :
    (setBalances token c (setBalances token b env)).store.balances =
      Function.update env.store.balances token c := Function.update_idem _ _ _

/-- The map with a list of nullifiers marked. -/
def markAll (ns : List U256) (nulls : U256 → Option Bool) : U256 → Option Bool :=
  fun n => if n ∈ ns then some true else nulls n

/-- The environment with a list of nullifiers marked. -/
def spend (ns : List U256) (env : Env Chain) : Env Chain :=
  ⟨{ env.store with
    pool := { env.store.pool with
      nullifiers := env.store.pool.nullifiers.map (markAll ns)
      events := env.store.pool.events ++ ns.map .newNullifier } }, env.hashed⟩

theorem markNullifiers_apply : ∀ (ns : List U256) (env : Env Chain),
    markNullifiers ns env = .ok ((), spend ns env)
  | [], env => by
      have hid : env.store.pool.nullifiers.map (markAll []) = env.store.pool.nullifiers := by
        cases env.store.pool.nullifiers with
        | none => rfl
        | some nulls => exact congrArg some (funext fun n => if_neg List.not_mem_nil)
      rw [spend, hid, List.map_nil, List.append_nil]
      rfl
  | n :: rest, env => by
      have hcons : ∀ o : Option (U256 → Option Bool),
          (o.map fun nulls => Function.update nulls n (some true)).map (markAll rest) =
            o.map (markAll (n :: rest)) := by
        intro o
        rw [Option.map_map]
        refine congrArg (fun g => o.map g) (funext fun nulls => funext fun x => ?_)
        rcases eq_or_ne x n with rfl | hne
        · simp [markAll]
        · simp [markAll, hne]
      refine (markNullifiers_apply rest _).trans ?_
      simp only [spend, hcons, List.append_assoc, List.map_cons, List.singleton_append]

theorem transfer_ok {token sender recipient : Address} {amount : ℤ}
    (h : transfer ext token sender recipient amount env = .ok ((), env')) :
    0 ≤ amount ∧ amount ≤ env.store.balances token sender ∧
      env' = setBalances token ((env.store.balances token).move sender recipient amount) env := by
  rw [transfer, getStore_bind] at h
  cases hb : ext.token.transfer sender recipient amount (env.store.balances token) with
  | none => rw [hb] at h; cases h
  | some b =>
      rw [hb] at h
      obtain ⟨h0, hle, rfl⟩ := ext.token.spec hb
      cases h
      exact ⟨h0, hle, rfl⟩

theorem neg_ok {v w : I256} (h : v.neg env = .ok (w, env')) : env' = env ∧ w.val = -v.val := by
  unfold I256.neg at h
  split_ifs at h
  · cases h
    exact ⟨rfl, rfl⟩
  · cases h

theorem i256ToI128Nonneg_ok {v : I256} {x : ℤ} (h : i256ToI128Nonneg v env = .ok (x, env')) :
    env' = env ∧ x = v.val ∧ 0 ≤ v.val ∧ v.val < 2 ^ 127 := by
  unfold i256ToI128Nonneg at h
  split_ifs at h with h0 h1
  · cases h
  · cases h
    exact ⟨rfl, rfl, by omega, h1⟩
  · cases h

theorem toU256_of_nonneg {v : I256} (h : 0 ≤ v.val) : (v.toU256 : ℤ) = v.val := by
  have hlt := v.range.2
  unfold I256.toU256
  rw [Int.toNat_of_nonneg (Int.emod_nonneg _ (by decide)), Int.emod_eq_of_lt h (by omega)]

theorem i256AbsToU256_ok {v : I256} {x : U256} (h : i256AbsToU256 v env = .ok (x, env')) :
    env' = env ∧ (x : ℤ) = |v.val| := by
  unfold i256AbsToU256 at h
  by_cases h0 : v.val ≥ 0
  · rw [if_pos h0] at h
    cases h
    exact ⟨rfl, (toU256_of_nonneg h0).trans (abs_of_nonneg h0).symm⟩
  · rw [if_neg h0, Host.bind_eq_ok] at h
    obtain ⟨w, e₁, hw, h⟩ := h
    obtain ⟨rfl, hval⟩ := neg_ok hw
    cases h
    refine ⟨rfl, ?_⟩
    rw [toU256_of_nonneg (by omega), hval, abs_of_neg (by omega)]

/-- **The public amount** is the canonical residue of the external amount. -/
theorem calculatePublicAmount_ok {v : I256} {x : U256}
    (h : calculatePublicAmount v env = .ok (x, env')) :
    env' = env ∧ |v.val| < 2 ^ 248 ∧ x < bn256Modulus ∧ (x : ZMod bn256Modulus) = (v.val : ℤ) := by
  have hmod : (2 : ℤ) ^ 248 < bn256Modulus := by decide
  rw [calculatePublicAmount, Host.bind_eq_ok] at h
  obtain ⟨a, e₁, ha, h⟩ := h
  obtain ⟨rfl, habs⟩ := i256AbsToU256_ok ha
  have hbound : ¬ a ≥ maxExtAmount → |v.val| < 2 ^ 248 := by
    intro hlt
    rw [← habs]
    have hlt' : a < 2 ^ 248 := not_le.mp hlt
    exact_mod_cast hlt'
  split_ifs at h with h1 h2
  · cases h
  · cases h
    have hv := toU256_of_nonneg h2
    have hlt := hbound h1
    rw [abs_of_nonneg h2] at hlt
    refine ⟨rfl, hbound h1, ?_, ?_⟩
    · have : (v.toU256 : ℤ) < bn256Modulus := by rw [hv]; exact hlt.trans hmod
      exact_mod_cast this
    · rw [← hv, Int.cast_natCast]
  · rw [Host.bind_eq_ok] at h
    obtain ⟨w, e₁, hw, h⟩ := h
    obtain ⟨rfl, hval⟩ := neg_ok hw
    have hw' := toU256_of_nonneg (v := w) (by omega)
    split_ifs at h with h3
    · cases h
      have hpos : 0 < w.toU256 := by
        have : (0 : ℤ) < w.toU256 := by rw [hw', hval]; omega
        exact_mod_cast this
      refine ⟨rfl, hbound h1, Nat.sub_lt (by decide) hpos, ?_⟩
      rw [Nat.cast_sub h3, ZMod.natCast_self, zero_sub, ← Int.cast_natCast, hw', hval,
        Int.cast_neg, neg_neg]
    · cases h

theorem getAspMembershipRoot_ok {root : U256} (h : getAspMembershipRoot env = .ok (root, env')) :
    env' = env ∧ ∃ asp, env.store.pool.aspMembership = some asp ∧
      env.store.aspRoot asp = some root := by
  rw [getAspMembershipRoot, getPool_bind, Host.bind_eq_ok] at h
  obtain ⟨asp, e₁, hasp, h⟩ := h
  obtain ⟨hasp, rfl⟩ := Host.okOr_eq_ok.mp hasp
  rw [getStore_bind] at h
  obtain ⟨hroot, rfl⟩ := Host.unwrap_eq_ok.mp h
  exact ⟨rfl, asp, hasp, hroot⟩

theorem getAspNonMembershipRoot_ok {root : U256}
    (h : getAspNonMembershipRoot env = .ok (root, env')) :
    env' = env ∧ ∃ asp, env.store.pool.aspNonMembership = some asp ∧
      env.store.aspRoot asp = some root := by
  rw [getAspNonMembershipRoot, getPool_bind, Host.bind_eq_ok] at h
  obtain ⟨asp, e₁, hasp, h⟩ := h
  obtain ⟨hasp, rfl⟩ := Host.okOr_eq_ok.mp hasp
  rw [getStore_bind] at h
  obtain ⟨hroot, rfl⟩ := Host.unwrap_eq_ok.mp h
  exact ⟨rfl, asp, hasp, hroot⟩

theorem verifyProof_ok {proof : Proof} {b : Bool} (h : verifyProof ext proof env = .ok (b, env')) :
    env' = env ∧ ∃ verifier, env.store.pool.verifier = some verifier ∧
      ext.verify verifier proof.proof (publicInputs proof) = some b := by
  unfold verifyProof at h
  split_ifs at h
  · cases h
  · rw [getPool_bind, Host.bind_eq_ok] at h
    obtain ⟨verifier, e₁, hv, h⟩ := h
    obtain ⟨hv, rfl⟩ := Host.okOr_eq_ok.mp hv
    cases hr : ext.verify verifier proof.proof (publicInputs proof) with
    | none => rw [hr] at h; cases h
    | some c =>
        rw [hr] at h
        cases h
        exact ⟨rfl, verifier, hv, hr⟩

/-! ### The transaction -/

/-- The checks a transaction passed. -/
structure Checked (ext : Externals) (proof : Proof) (extData : ExtData) (env : Env Chain) :
    Prop where
  knownRoot : MerkleTreeWithHistory.isKnownRoot proof.root (merkleEnv env) =
    .ok (true, merkleEnv env)
  unspent : ∀ n ∈ proof.inputNullifiers, ∃ nulls, env.store.pool.nullifiers = some nulls ∧
    (nulls n).getD false = false
  extHash : hashExtData ext extData = proof.extDataHash
  amount_lt : |extData.extAmount.val| < 2 ^ 248
  publicAmount_lt : proof.publicAmount < bn256Modulus
  publicAmount : (proof.publicAmount : ZMod bn256Modulus) = (extData.extAmount.val : ℤ)
  aspMembership : ∃ asp, env.store.pool.aspMembership = some asp ∧
    env.store.aspRoot asp = some proof.aspMembershipRoot
  aspNonMembership : ∃ asp, env.store.pool.aspNonMembership = some asp ∧
    env.store.aspRoot asp = some proof.aspNonMembershipRoot
  verified : ∃ verifier, env.store.pool.verifier = some verifier ∧
    ext.verify verifier proof.proof (publicInputs proof) = some true

theorem checks_ok {proof : Proof} {extData : ExtData}
    (h : checks ext proof extData env = .ok ((), env')) :
    env' = env ∧ Checked ext proof extData env := by
  rw [checks, Host.bind_eq_ok] at h
  obtain ⟨known, e₁, hknown, h⟩ := h
  obtain ⟨e, hroot, rfl⟩ := merkle_eq_ok.mp hknown
  obtain rfl := isKnownRoot_frame hroot
  cases known
  · cases h
  change (_ >>= _ : Call Unit) env = _ at h
  rw [Host.bind_eq_ok] at h
  obtain ⟨⟨⟩, e₂, hnulls, h⟩ := h
  obtain ⟨rfl, hunspent⟩ := checkNullifiers_ok hnulls
  split_ifs at h with hhash
  · cases h
  rw [Host.bind_eq_ok] at h
  obtain ⟨amount, e₃, hamount, h⟩ := h
  obtain ⟨rfl, hlt, hval, hcast⟩ := calculatePublicAmount_ok hamount
  split_ifs at h with hpa
  · cases h
  rw [Host.bind_eq_ok] at h
  obtain ⟨memberRoot, e₄, hmember, h⟩ := h
  obtain ⟨rfl, hmember⟩ := getAspMembershipRoot_ok hmember
  rw [Host.bind_eq_ok] at h
  obtain ⟨nonMemberRoot, e₅, hnonMember, h⟩ := h
  obtain ⟨rfl, hnonMember⟩ := getAspNonMembershipRoot_ok hnonMember
  split_ifs at h with hasp
  · cases h
  rw [Host.bind_eq_ok] at h
  obtain ⟨valid, e₆, hvalid, h⟩ := h
  obtain ⟨rfl, hvalid⟩ := verifyProof_ok hvalid
  cases valid
  · cases h
  cases h
  push Not at hhash hpa hasp
  rw [hasp.1] at hmember
  rw [hasp.2] at hnonMember
  rw [← hpa] at hval hcast
  exact ⟨rfl, hroot, hunspent, hhash, hlt, hval, hcast, hmember, hnonMember, hvalid⟩

/-- The balances a transaction leaves: the deposit comes in, the withdrawal goes out. -/
def settled (self : Address) (extAmount : ℤ) (sender recipient : Address) (b : Balances) :
    Balances :=
  if extAmount > 0 then b.move sender self extAmount
  else if extAmount < 0 then b.move self recipient (-extAmount)
  else b

/-- An accepted transaction and what it did. -/
structure Accepted (ext : Externals) (P : Poseidon2) (auths : List Address) (proof : Proof)
    (extData : ExtData) (sender : Address) (env env' : Env Chain) : Prop where
  authorised : sender ∈ auths
  checked : Checked ext proof extData env
  amount_lt : |extData.extAmount.val| < 2 ^ 127
  moved : ∃ token, env.store.pool.token = some token ∧
    env'.store.balances = Function.update env.store.balances token
      (settled ext.self extData.extAmount.val sender extData.recipient
        (env.store.balances token)) ∧
    (extData.extAmount.val > 0 → extData.extAmount.val ≤ env.store.balances token sender) ∧
    (extData.extAmount.val < 0 → -extData.extAmount.val ≤ env.store.balances token ext.self)
  inserted : ∃ idx, MerkleTreeWithHistory.insertTwoLeaves P proof.outputCommitment0
    proof.outputCommitment1 (merkleEnv env) = .ok (idx, merkleEnv env')
  pool : env'.store.pool = { env.store.pool with
    nullifiers := env.store.pool.nullifiers.map (markAll proof.inputNullifiers)
    merkle := env'.store.pool.merkle
    events := env'.store.pool.events }
  aspRoot : env'.store.aspRoot = env.store.aspRoot

theorem deposit_ok {token sender : Address} {extData : ExtData}
    (h : deposit ext token extData sender env = .ok ((), env')) :
    (extData.extAmount.val > 0 → extData.extAmount.val ≤ env.store.balances token sender ∧
      extData.extAmount.val < 2 ^ 127) ∧
    env' = setBalances token (if extData.extAmount.val > 0 then
      (env.store.balances token).move sender ext.self extData.extAmount.val
      else env.store.balances token) env := by
  unfold deposit at h
  split_ifs at h with hpos
  · rw [getPool_bind, Host.bind_eq_ok] at h
    obtain ⟨max, e₁, hmax, h⟩ := h
    obtain ⟨-, rfl⟩ := Host.okOr_eq_ok.mp hmax
    split_ifs at h
    · cases h
    rw [Host.bind_eq_ok] at h
    obtain ⟨amount, e₂, ha, h⟩ := h
    obtain ⟨rfl, rfl, -, hlt⟩ := i256ToI128Nonneg_ok ha
    obtain ⟨-, hle, rfl⟩ := transfer_ok h
    exact ⟨fun _ => ⟨hle, hlt⟩, by rw [if_pos hpos]⟩
  · cases h
    exact ⟨fun hp => absurd hp hpos, by rw [if_neg hpos, setBalances, Function.update_eq_self]⟩

theorem withdraw_ok {token : Address} {extData : ExtData}
    (h : withdraw ext token extData env = .ok ((), env')) :
    (extData.extAmount.val < 0 → -extData.extAmount.val ≤ env.store.balances token ext.self ∧
      -extData.extAmount.val < 2 ^ 127) ∧
    env' = setBalances token (if extData.extAmount.val < 0 then
      (env.store.balances token).move ext.self extData.recipient (-extData.extAmount.val)
      else env.store.balances token) env := by
  unfold withdraw at h
  split_ifs at h with hneg
  · rw [Host.bind_eq_ok] at h
    obtain ⟨abs, e₁, habs, h⟩ := h
    obtain ⟨rfl, hval⟩ := neg_ok habs
    rw [Host.bind_eq_ok] at h
    obtain ⟨amount, e₂, ha, h⟩ := h
    obtain ⟨rfl, rfl, -, hlt⟩ := i256ToI128Nonneg_ok ha
    rw [hval] at h hlt
    obtain ⟨-, hle, rfl⟩ := transfer_ok h
    exact ⟨fun _ => ⟨hle, hlt⟩, by rw [if_pos hneg]⟩
  · cases h
    exact ⟨fun hn => absurd hn hneg, by rw [if_neg hneg, setBalances, Function.update_eq_self]⟩

theorem spend_balances (ns : List U256) (env : Env Chain) :
    (spend ns env).store.balances = env.store.balances := rfl

theorem Checked.of_setBalances {proof : Proof} {extData : ExtData} {token : Address}
    {b : Balances} (h : Checked ext proof extData (setBalances token b env)) :
    Checked ext proof extData env :=
  ⟨h.knownRoot, h.unspent, h.extHash, h.amount_lt, h.publicAmount_lt, h.publicAmount,
    h.aspMembership, h.aspNonMembership, h.verified⟩

theorem settled_eq (self sender recipient : Address) (x : ℤ) (b : Balances) :
    (if x < 0 then (if x > 0 then b.move sender self x else b).move self recipient (-x)
      else if x > 0 then b.move sender self x else b) = settled self x sender recipient b := by
  unfold settled
  split_ifs with hneg hpos
  · omega
  · rfl
  · rfl
  · rfl

/-- **Inversion of `transact`.** -/
theorem transact_accepted {auths : List Address} {proof : Proof} {extData : ExtData}
    {sender : Address} (h : transact ext P auths proof extData sender env = .ok ((), env')) :
    Accepted ext P auths proof extData sender env env' := by
  rw [transact, Host.bind_eq_ok] at h
  obtain ⟨⟨⟩, e₀, h₀, h⟩ := h
  obtain ⟨hauth, rfl⟩ := Host.requireAuth_eq_ok.mp h₀
  rw [getPool_bind, Host.bind_eq_ok] at h
  obtain ⟨token, e₁, h₁, h⟩ := h
  obtain ⟨htoken, rfl⟩ := Host.okOr_eq_ok.mp h₁
  rw [Host.bind_eq_ok] at h
  obtain ⟨⟨⟩, e₂, h₂, h⟩ := h
  obtain ⟨hdep, rfl⟩ := deposit_ok h₂
  rw [internalTransact, Host.bind_eq_ok] at h
  obtain ⟨⟨⟩, e₃, h₃, h⟩ := h
  obtain ⟨rfl, hchecked⟩ := checks_ok h₃
  rw [Host.bind_of_ok (markNullifiers_apply _ _), getPool_bind, Host.bind_eq_ok] at h
  obtain ⟨token', e₄, h₄, h⟩ := h
  obtain ⟨htoken', rfl⟩ := Host.okOr_eq_ok.mp h₄
  obtain rfl : token = token' := Option.some.inj (htoken.symm.trans htoken')
  rw [Host.bind_eq_ok] at h
  obtain ⟨⟨⟩, e₅, h₅, h⟩ := h
  obtain ⟨hwith, rfl⟩ := withdraw_ok h₅
  rw [Host.bind_eq_ok] at h
  obtain ⟨idx, e₆, h₆, h⟩ := h
  obtain ⟨e, hins, rfl⟩ := merkle_eq_ok.mp h₆
  cases h
  rw [spend_balances, setBalances_balances] at hwith
  refine ⟨hauth, hchecked.of_setBalances, ?_, ⟨token, htoken, ?_, fun hp => (hdep hp).1, fun hn => ?_⟩,
    ⟨idx, hins⟩, rfl, rfl⟩
  · rcases lt_trichotomy extData.extAmount.val 0 with hneg | h0 | hpos
    · rw [abs_of_neg hneg]
      exact (hwith hneg).2
    · rw [h0]
      decide
    · rw [abs_of_pos hpos]
      exact (hdep hpos).2
  · refine (setBalances_idem token _ _ _).trans ?_
    rw [spend_balances, setBalances_balances, settled_eq]
  · have hle := (hwith hn).1
    rwa [if_neg (by omega)] at hle

end Enclave.Pool

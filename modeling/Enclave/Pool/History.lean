import Enclave.Rpc
import Enclave.Pool.Tree

/-! # Histories of the pool

What a run leaves in the tree and in the events: an accepted transaction publishes its nullifiers
and its two commitments, with the indices at which the tree took them (`step_publishes`). -/

namespace Enclave.Pool

variable {ext : Externals} {P : Poseidon2} {env env' : Env Chain} {a : Action}

/-- The events of an accepted transaction. -/
def transactEvents (proof : Proof) (extData : ExtData) (idx : ℕ × ℕ) : List Event :=
  proof.inputNullifiers.map .newNullifier ++
    [.newCommitment proof.outputCommitment0 idx.1 extData.encryptedOutput0,
      .newCommitment proof.outputCommitment1 idx.2 extData.encryptedOutput1]

/-- **What `transact` publishes.** -/
theorem transact_publishes {auths : List Address} {proof : Proof} {extData : ExtData}
    {sender : Address} (h : transact ext P auths proof extData sender env = .ok ((), env')) :
    ∃ idx, MerkleTreeWithHistory.insertTwoLeaves P proof.outputCommitment0
        proof.outputCommitment1 (merkleEnv env) = .ok (idx, merkleEnv env') ∧
      env'.store.pool.events = env.store.pool.events ++ transactEvents proof extData idx := by
  rw [transact, Host.bind_eq_ok] at h
  obtain ⟨⟨⟩, e₀, h₀, h⟩ := h
  obtain ⟨-, rfl⟩ := Host.requireAuth_eq_ok.mp h₀
  rw [getPool_bind, Host.bind_eq_ok] at h
  obtain ⟨token, e₁, h₁, h⟩ := h
  obtain ⟨-, rfl⟩ := Host.okOr_eq_ok.mp h₁
  rw [Host.bind_eq_ok] at h
  obtain ⟨⟨⟩, e₂, h₂, h⟩ := h
  obtain ⟨-, rfl⟩ := deposit_ok h₂
  rw [internalTransact, Host.bind_eq_ok] at h
  obtain ⟨⟨⟩, e₃, h₃, h⟩ := h
  obtain ⟨rfl, -⟩ := checks_ok h₃
  rw [Host.bind_of_ok (markNullifiers_apply _ _), getPool_bind, Host.bind_eq_ok] at h
  obtain ⟨token', e₄, h₄, h⟩ := h
  obtain ⟨-, rfl⟩ := Host.okOr_eq_ok.mp h₄
  rw [Host.bind_eq_ok] at h
  obtain ⟨⟨⟩, e₅, h₅, h⟩ := h
  obtain ⟨-, rfl⟩ := withdraw_ok h₅
  rw [Host.bind_eq_ok] at h
  obtain ⟨idx, e₆, h₆, h⟩ := h
  obtain ⟨e, hins, rfl⟩ := merkle_eq_ok.mp h₆
  cases h
  refine ⟨idx, hins, ?_⟩
  simp only [transactEvents, spend, setBalances, List.append_assoc, List.cons_append,
    List.nil_append]

/-- Nothing, or keys that were registered. -/
def OnlyKeys (events : List Event) : Prop :=
  ∀ event ∈ events, ∃ owner encryptionKey noteKey, event = .publicKey owner encryptionKey noteKey

theorem onlyKeys_of_eq (h : env'.store.pool.events = env.store.pool.events) :
    OnlyKeys (Rpc.newEvents env env') := by
  rw [Rpc.newEvents, h, List.drop_length]
  exact fun _ hmem => (List.not_mem_nil hmem).elim

theorem newEvents_of_append {events : List Event}
    (h : env'.store.pool.events = env.store.pool.events ++ events) :
    Rpc.newEvents env env' = events := by
  rw [Rpc.newEvents, h, List.drop_left]

theorem newEvents_after {m : Call Unit}
    (h : ∀ env', m env = .ok ((), env') → OnlyKeys (Rpc.newEvents env env')) :
    OnlyKeys (Rpc.newEvents env (m.after env)) := by
  cases hr : m env with
  | error e =>
      rw [Host.after_of_error hr]
      exact onlyKeys_of_eq rfl
  | ok p =>
      obtain ⟨⟨⟩, env'⟩ := p
      rw [Host.after_of_ok hr]
      exact h env' hr

theorem newEvents_byAdmin {auths : List Address} {f : Store → Store}
    (hf : ∀ s, (f s).events = s.events) :
    OnlyKeys (Rpc.newEvents env ((byAdmin auths f).after env)) := by
  refine newEvents_after fun env' hr => ?_
  rw [byAdmin, getPool_bind, Host.bind_eq_ok] at hr
  obtain ⟨admin, e₁, h₁, hr⟩ := hr
  obtain ⟨-, rfl⟩ := Host.okOr_eq_ok.mp h₁
  rw [Host.bind_eq_ok] at hr
  obtain ⟨⟨⟩, e₂, h₂, hr⟩ := hr
  obtain ⟨-, rfl⟩ := Host.requireAuth_eq_ok.mp h₂
  cases hr
  exact onlyKeys_of_eq (hf _)

theorem newEvents_register {auths : List Address} {account : Account} :
    OnlyKeys (Rpc.newEvents env ((register auths account).after env)) := by
  refine newEvents_after fun env' hr => ?_
  rw [register, Host.bind_eq_ok] at hr
  obtain ⟨⟨⟩, e₁, h₁, hr⟩ := hr
  obtain ⟨-, rfl⟩ := Host.requireAuth_eq_ok.mp h₁
  cases hr
  rw [newEvents_of_append rfl]
  intro event hmem
  exact ⟨_, _, _, List.mem_singleton.mp hmem⟩

/-- **What a step publishes.** -/
theorem step_publishes (ext : Externals) (P : Poseidon2) (env : Env Chain) (a : Action) :
    (∃ (proof : Proof) (extData : ExtData) (idx : ℕ × ℕ),
      acceptedProof ext P env a = some proof ∧
      MerkleTreeWithHistory.insertTwoLeaves P proof.outputCommitment0 proof.outputCommitment1
        (merkleEnv env) = .ok (idx, merkleEnv (step ext P env a)) ∧
      Rpc.newEvents env (step ext P env a) = transactEvents proof extData idx) ∨
    (acceptedProof ext P env a = none ∧ merkleEnv (step ext P env a) = merkleEnv env ∧
      OnlyKeys (Rpc.newEvents env (step ext P env a))) := by
  have hmerkle : Quiet env (step ext P env a) a →
      merkleEnv (step ext P env a) = merkleEnv env := fun hquiet => by
    rw [merkleEnv, merkleEnv, hquiet.merkle, hquiet.hashed]
  cases a with
  | transact auths proof extData sender =>
      cases hr : transact ext P auths proof extData sender env with
      | error e =>
          refine .inr ⟨by rw [acceptedProof, hr], ?_⟩
          rw [step, Host.after_of_error hr]
          exact ⟨rfl, onlyKeys_of_eq rfl⟩
      | ok p =>
          obtain ⟨⟨⟩, env'⟩ := p
          obtain ⟨idx, hins, hevents⟩ := transact_publishes hr
          refine .inl ⟨proof, extData, idx, by rw [acceptedProof, hr], ?_⟩
          rw [step, Host.after_of_ok hr]
          exact ⟨hins, newEvents_of_append hevents⟩
  | register auths account =>
      exact .inr ⟨rfl, hmerkle (quiet_register rfl), newEvents_register⟩
  | updateAdmin auths newAdmin =>
      exact .inr ⟨rfl, hmerkle (quiet_byAdmin rfl fun s => ⟨rfl, rfl, rfl⟩),
        newEvents_byAdmin fun s => rfl⟩
  | updateAspMembership auths newAsp =>
      exact .inr ⟨rfl, hmerkle (quiet_byAdmin rfl fun s => ⟨rfl, rfl, rfl⟩),
        newEvents_byAdmin fun s => rfl⟩
  | updateAspNonMembership auths newAsp =>
      exact .inr ⟨rfl, hmerkle (quiet_byAdmin rfl fun s => ⟨rfl, rfl, rfl⟩),
        newEvents_byAdmin fun s => rfl⟩
  | outside gain aspRoot => exact .inr ⟨rfl, rfl, onlyKeys_of_eq rfl⟩

/-! ### Runs -/

theorem holds_inserted {levels : ℕ} {leaves : List F} (hz : ZeroTable P) (h1 : 1 ≤ levels)
    (h32 : levels ≤ 32) (h : MerkleTreeWithHistory.Holds P levels leaves (merkleEnv env))
    (actions : List Action) :
    MerkleTreeWithHistory.Holds P levels
      (leaves ++ (inserted ext P env actions).map (Nat.cast : ℕ → F))
      (merkleEnv (run ext P env actions)) := by
  induction actions generalizing env leaves with
  | nil =>
      rw [inserted, accepted, List.flatMap_nil, List.map_nil, List.append_nil]
      exact h
  | cons a rest ih =>
      rw [run_cons, inserted]
      obtain ⟨proof, extData, idx, hproof, hins, -⟩ | ⟨hnone, hmerkle, -⟩ :=
        step_publishes ext P env a
      · obtain ⟨-, -, -, hholds⟩ := h.of_insertTwoLeaves hz h1 h32 hins
        have hrest := ih hholds
        rw [List.append_assoc] at hrest
        rw [accepted_cons_some hproof, List.flatMap_cons, List.map_append]
        exact hrest
      · rw [accepted_cons_none hnone]
        rw [← hmerkle] at h
        exact ih h

theorem length_inserted (actions : List Action) :
    (inserted ext P env actions).length = 2 * (accepted ext P env actions).length := by
  rw [inserted]
  induction accepted ext P env actions with
  | nil => rfl
  | cons proof rest ih =>
      rw [List.flatMap_cons, List.length_append, ih, @List.length_cons _ proof rest, mul_add, add_comm]
      rfl

end Enclave.Pool

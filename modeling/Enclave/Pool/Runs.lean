import Enclave.Pool.Transact
import Enclave.Circuits.PolicyTransaction

/-! # Runs of the pool

An action is a call of the pool, or whatever else happens on the chain: tokens that move, ASP
roots that change.  A rejected call changes nothing (`Host.after`).  `accepted` are the proofs of
the accepted transactions of a run, in order.

`PolicyVerifier` is what is known of the verifier contract: a public input is a scalar of a group
of order `bn256Modulus`, and accepted inputs satisfy `PolicyTransaction(2, 2, 1, 1, 10, 10)`. -/

namespace Enclave.Pool

open Circuits

/-! ### The verifier -/

/-- Public inputs of `policy_tx_2_2`. -/
abbrev PolicyPublic := Public 2 2 1 1

/-- Private inputs of `policy_tx_2_2`. -/
abbrev PolicyWitness := Witness 2 2 1 1 10 10

/-- The residues of the public inputs. -/
def residues (proof : Proof) : List F := (publicInputs proof).map (Nat.cast : ℕ → F)

/-- The verifier sees residues, and accepts only what the circuit can satisfy. -/
structure PolicyVerifier (ext : Externals) (P : Poseidon2) : Prop where
  residue : ∀ verifier proof (xs ys : List U256),
    xs.map (Nat.cast : ℕ → F) = ys.map (Nat.cast : ℕ → F) →
      ext.verify verifier proof xs = ext.verify verifier proof ys
  sound : ∀ verifier proof (xs : List U256), ext.verify verifier proof xs = some true →
    ∃ (pub : PolicyPublic) (w : PolicyWitness),
      pub.toList = xs.map (Nat.cast : ℕ → F) ∧ w.Satisfies P pub

/-- The circuit's public inputs are those of the proof. -/
structure Encodes (pub : PolicyPublic) (proof : Proof) : Prop where
  root : pub.root = proof.root
  publicAmount : pub.publicAmount = proof.publicAmount
  inputNullifier : List.ofFn pub.inputNullifier = proof.inputNullifiers.map (Nat.cast : ℕ → F)
  outputCommitment0 : pub.outputCommitment 0 = proof.outputCommitment0
  outputCommitment1 : pub.outputCommitment 1 = proof.outputCommitment1

theorem length_publicInputs (proof : Proof) :
    (publicInputs proof).length = 5 + 3 * proof.inputNullifiers.length := by
  unfold publicInputs
  simp only [List.length_append, List.length_cons, List.length_nil, List.length_replicate]
  omega

theorem PolicyPublic.toList_eq (pub : PolicyPublic) :
    pub.toList = [pub.root, pub.publicAmount, pub.extDataHash, pub.inputNullifier 0,
      pub.inputNullifier 1, pub.outputCommitment 0, pub.outputCommitment 1,
      pub.membershipRoots 0 0, pub.membershipRoots 1 0, pub.nonMembershipRoots 0 0,
      pub.nonMembershipRoots 1 0] := rfl

theorem encodes_of_toList {pub : PolicyPublic} {proof : Proof}
    (h : pub.toList = residues proof) : Encodes pub proof := by
  rw [PolicyPublic.toList_eq, residues] at h
  have hlen := congrArg List.length h
  rw [List.length_map, length_publicInputs] at hlen
  have htwo : proof.inputNullifiers.length = 2 := by
    change 11 = 5 + 3 * proof.inputNullifiers.length at hlen
    omega
  obtain ⟨n₀, n₁, hnulls⟩ := List.length_eq_two.mp htwo
  rw [publicInputs, hnulls] at h
  simp only [List.cons_append, List.nil_append, List.map_cons, List.cons.injEq] at h
  obtain ⟨hroot, hamount, -, h₀, h₁, hout₀, hout₁, -⟩ := h
  refine ⟨hroot, hamount, ?_, hout₀, hout₁⟩
  rw [hnulls, List.map_cons, List.map_singleton, ← h₀, ← h₁]
  rfl

/-! ### Actions -/

/-- What happens on the chain. -/
inductive Action where
  | transact (auths : List Address) (proof : Proof) (extData : ExtData) (sender : Address)
  | register (auths : List Address) (account : Account)
  | updateAdmin (auths : List Address) (newAdmin : Address)
  | updateAspMembership (auths : List Address) (newAspMembership : Address)
  | updateAspNonMembership (auths : List Address) (newAspNonMembership : Address)
  /-- Not by the pool: what every balance gains, and the ASP roots from here on. -/
  | outside (gain : Address → Address → ℤ) (aspRoot : Address → Option U256)

/-- What every balance gains by an action that is no call of the pool. -/
def Action.gain : Action → Address → Address → ℤ
  | .outside gain _ => gain
  | _ => fun _ _ => 0

/-- Every nullifier is the canonical representative of its residue. -/
def Proof.Canonical (proof : Proof) : Prop := ∀ n ∈ proof.inputNullifiers, n < bn256Modulus

def Action.Canonical : Action → Prop
  | .transact _ proof _ _ => proof.Canonical
  | _ => True

variable (ext : Externals) (P : Poseidon2)

def step (env : Env Chain) : Action → Env Chain
  | .transact auths proof extData sender =>
      (transact ext P auths proof extData sender).after env
  | .register auths account => (register auths account).after env
  | .updateAdmin auths newAdmin => (updateAdmin auths newAdmin).after env
  | .updateAspMembership auths newAsp => (updateAspMembership auths newAsp).after env
  | .updateAspNonMembership auths newAsp => (updateAspNonMembership auths newAsp).after env
  | .outside gain aspRoot =>
      ⟨{ env.store with
        balances := fun token x => env.store.balances token x + gain token x
        aspRoot := aspRoot }, env.hashed⟩

def run (env : Env Chain) (actions : List Action) : Env Chain := actions.foldl (step ext P) env

/-- The proof of an action that is an accepted transaction. -/
def acceptedProof (env : Env Chain) : Action → Option Proof
  | .transact auths proof extData sender =>
      match transact ext P auths proof extData sender env with
      | .ok _ => some proof
      | .error _ => none
  | _ => none

/-- The proofs of the accepted transactions of a run. -/
def accepted : Env Chain → List Action → List Proof
  | _, [] => []
  | env, a :: rest => (acceptedProof ext P env a).toList ++ accepted (step ext P env a) rest

/-- The nullifiers that the accepted transactions consumed. -/
def consumed (env : Env Chain) (actions : List Action) : List U256 :=
  (accepted ext P env actions).flatMap Proof.inputNullifiers

/-- The commitments that the accepted transactions inserted. -/
def inserted (env : Env Chain) (actions : List Action) : List U256 :=
  (accepted ext P env actions).flatMap fun proof =>
    [proof.outputCommitment0, proof.outputCommitment1]

variable {ext P} {env env' : Env Chain} {a : Action} {actions : List Action}

/-! ### One step -/

/-- A step that is no accepted transaction: tree, nullifiers and token stay as they are. -/
structure Quiet (env env' : Env Chain) (a : Action) : Prop where
  token : env'.store.pool.token = env.store.pool.token
  nullifiers : env'.store.pool.nullifiers = env.store.pool.nullifiers
  merkle : env'.store.pool.merkle = env.store.pool.merkle
  hashed : env'.hashed = env.hashed
  balances : ∀ token x, env'.store.balances token x = env.store.balances token x + a.gain token x

theorem Quiet.refl (h : a.gain = fun _ _ => 0) : Quiet env env a :=
  ⟨rfl, rfl, rfl, rfl, fun token x => by rw [h, add_zero]⟩

theorem quiet_after {m : Call Unit} (h : a.gain = fun _ _ => 0)
    (hm : ∀ env', m env = .ok ((), env') → Quiet env env' a) : Quiet env (m.after env) a := by
  cases hr : m env with
  | error e =>
      rw [Host.after_of_error hr]
      exact .refl h
  | ok p =>
      obtain ⟨⟨⟩, env'⟩ := p
      rw [Host.after_of_ok hr]
      exact hm env' hr

theorem quiet_byAdmin {auths : List Address} {f : Store → Store} (h : a.gain = fun _ _ => 0)
    (hf : ∀ s, (f s).token = s.token ∧ (f s).nullifiers = s.nullifiers ∧ (f s).merkle = s.merkle) :
    Quiet env ((byAdmin auths f).after env) a := by
  refine quiet_after h fun env' hr => ?_
  rw [byAdmin, getPool_bind, Host.bind_eq_ok] at hr
  obtain ⟨admin, e₁, h₁, hr⟩ := hr
  obtain ⟨-, rfl⟩ := Host.okOr_eq_ok.mp h₁
  rw [Host.bind_eq_ok] at hr
  obtain ⟨⟨⟩, e₂, h₂, hr⟩ := hr
  obtain ⟨-, rfl⟩ := Host.requireAuth_eq_ok.mp h₂
  cases hr
  obtain ⟨htoken, hnulls, hmerkle⟩ := hf e₂.store.pool
  exact ⟨htoken, hnulls, hmerkle, rfl, fun token x => by rw [h, add_zero]⟩

theorem quiet_register {auths : List Address} {account : Account} (h : a.gain = fun _ _ => 0) :
    Quiet env ((register auths account).after env) a := by
  refine quiet_after h fun env' hr => ?_
  rw [register, Host.bind_eq_ok] at hr
  obtain ⟨⟨⟩, e₁, h₁, hr⟩ := hr
  obtain ⟨-, rfl⟩ := Host.requireAuth_eq_ok.mp h₁
  cases hr
  exact ⟨rfl, rfl, rfl, rfl, fun token x => by rw [h, add_zero]⟩

/-- **What a step does**: an accepted transaction, or nothing to tree and nullifiers. -/
theorem step_cases (ext : Externals) (P : Poseidon2) (env : Env Chain) (a : Action) :
    (∃ auths proof extData sender, a = .transact auths proof extData sender ∧
      acceptedProof ext P env a = some proof ∧
      Accepted ext P auths proof extData sender env (step ext P env a)) ∨
    (acceptedProof ext P env a = none ∧ Quiet env (step ext P env a) a) := by
  cases a with
  | transact auths proof extData sender =>
      cases hr : transact ext P auths proof extData sender env with
      | error e =>
          refine Or.inr ⟨by rw [acceptedProof, hr], ?_⟩
          rw [step, Host.after_of_error hr]
          exact .refl rfl
      | ok p =>
          obtain ⟨⟨⟩, env'⟩ := p
          refine Or.inl ⟨auths, proof, extData, sender, rfl, by rw [acceptedProof, hr], ?_⟩
          rw [step, Host.after_of_ok hr]
          exact transact_accepted hr
  | register auths account => exact Or.inr ⟨rfl, quiet_register rfl⟩
  | updateAdmin auths newAdmin =>
      exact Or.inr ⟨rfl, quiet_byAdmin rfl fun s => ⟨rfl, rfl, rfl⟩⟩
  | updateAspMembership auths newAsp =>
      exact Or.inr ⟨rfl, quiet_byAdmin rfl fun s => ⟨rfl, rfl, rfl⟩⟩
  | updateAspNonMembership auths newAsp =>
      exact Or.inr ⟨rfl, quiet_byAdmin rfl fun s => ⟨rfl, rfl, rfl⟩⟩
  | outside gain aspRoot => exact Or.inr ⟨rfl, rfl, rfl, rfl, rfl, fun token x => rfl⟩

theorem accepted_cons_some {proof : Proof} (h : acceptedProof ext P env a = some proof) :
    accepted ext P env (a :: actions) = proof :: accepted ext P (step ext P env a) actions := by
  rw [accepted, h]
  rfl

theorem accepted_cons_none (h : acceptedProof ext P env a = none) :
    accepted ext P env (a :: actions) = accepted ext P (step ext P env a) actions := by
  rw [accepted, h]
  rfl

theorem run_cons : run ext P env (a :: actions) = run ext P (step ext P env a) actions := rfl

end Enclave.Pool

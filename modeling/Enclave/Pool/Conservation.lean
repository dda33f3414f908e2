import Enclave.Pool.Solvency

/-! # Value conservation

The pool holds at least what its unspent notes are worth, and exactly that if nobody gives it
tokens.  A run stands for a ledger at each of its calls (`Fresh.at_call`), under one set of
evaluations: that of the whole run.  So an accepted call adds up over the integers where it
stands, and what it pays out is covered by the notes that are left there. -/

namespace Enclave.Pool

open Circuits

variable {ext : Externals} {P : Poseidon2} {env : Env Chain} {token : Address} {keys : Set F}
  {actions before after : List Action} {os : List Opening}

/-! ### Runs in two parts -/

theorem accepted_append (env : Env Chain) (before after : List Action) :
    accepted ext P env (before ++ after) =
      accepted ext P env before ++ accepted ext P (run ext P env before) after := by
  induction before generalizing env with
  | nil => rfl
  | cons a before ih =>
      rw [List.cons_append, accepted, accepted, ih, List.append_assoc]
      rfl

/-! ### What host and token see to -/

/-- The pool signs nothing, as it has no `__check_auth` and does not call itself, and no tokens
leave its account but by its own transfers. -/
structure Action.Guarded (token pool : Address) (a : Action) : Prop where
  notSigned : a.NotSignedBy pool
  gain : 0 ≤ a.gain token pool

/-- A withdrawal that is addressed to the pool itself, or tokens that others send to it. -/
def Action.Gives (token pool : Address) : Action → Prop
  | .transact _ _ extData _ => extData.extAmount.val < 0 ∧ extData.recipient = pool
  | a => a.gain token pool ≠ 0

theorem windfall_nonneg {a : Action} (h : a.Guarded token ext.self) :
    0 ≤ windfall ext P token env a := by
  cases a with
  | transact auths proof extData sender =>
      rw [windfall]
      split_ifs with hself
      · omega
      · exact le_rfl
  | _ => exact h.gain

theorem windfalls_nonneg (env : Env Chain) (h : ∀ a ∈ actions, a.Guarded token ext.self) :
    0 ≤ windfalls ext P token env actions := by
  induction actions generalizing env with
  | nil => exact le_rfl
  | cons a rest ih =>
      obtain ⟨ha, hrest⟩ := List.forall_mem_cons.mp h
      exact add_nonneg (windfall_nonneg ha) (ih _ hrest)

theorem windfall_eq_zero {a : Action} (h : ¬ a.Gives token ext.self) :
    windfall ext P token env a = 0 := by
  cases a with
  | transact auths proof extData sender => exact if_neg fun hself => h hself.2
  | _ => exact not_not.mp h

theorem windfalls_eq_zero (env : Env Chain) (h : ∀ a ∈ actions, ¬ a.Gives token ext.self) :
    windfalls ext P token env actions = 0 := by
  induction actions generalizing env with
  | nil => rfl
  | cons a rest ih =>
      obtain ⟨ha, hrest⟩ := List.forall_mem_cons.mp h
      rw [windfalls, windfall_eq_zero ha, ih _ hrest, add_zero]

/-! ### The ledger at a call -/

/-- **At every point of a run** the chain stands for a ledger, under the evaluations of the whole
run. -/
theorem Fresh.at_call (hz : ZeroTable P) (h : Fresh token env)
    (hcanon : ∀ a ∈ before ++ after, a.Canonical)
    (hself : ∀ a ∈ before ++ after, a.NotSignedBy ext.self)
    (hos : List.Forall₂ (Opens P) (accepted ext P env (before ++ after)) os)
    (hknown : Known P keys os)
    (hc : P.CollisionFree
      (evaluations P keys (notesOf os) os (run ext P env (before ++ after)))) :
    ∃ made more, os = made ++ more ∧
      List.Forall₂ (Opens P) (accepted ext P env before) made ∧
      List.Forall₂ (Opens P) (accepted ext P (run ext P env before) after) more ∧
      ∃ Q L, Covers P keys Q (notesOf made) ∧ (∀ o ∈ os, Opening.Within P keys Q o) ∧
        Backs P keys Q (notesOf made) L (run ext P env before) ∧
        (run ext P env before).store.balances token ext.self =
          env.store.balances token ext.self + windfalls ext P token env before + L.value := by
  obtain ⟨hcov, -⟩ := h.of_run hz hcanon hself (List.Subset.refl os) hos hknown hc
  have hw : ∀ o ∈ os, Opening.Within P keys
      (evaluations P keys (notesOf os) os (run ext P env (before ++ after))) o :=
    within_evaluations hknown
  generalize evaluations P keys (notesOf os) os (run ext P env (before ++ after)) = Q at hcov hw
  rw [accepted_append] at hos
  obtain ⟨made, more, rfl, hmade, hmore⟩ : ∃ made more, os = made ++ more ∧
      List.Forall₂ (Opens P) (accepted ext P env before) made ∧
      List.Forall₂ (Opens P) (accepted ext P (run ext P env before) after) more :=
    ⟨_, _, (List.take_append_drop _ os).symm, (List.forall₂_take_append _ _ _ hos.flip).flip,
      (List.forall₂_drop_append _ _ _ hos.flip).flip⟩
  have hnotes : notesOf (made ++ more) = notesOf made ++ notesOf more := List.flatMap_append
  rw [hnotes] at hcov
  obtain ⟨htoken, hbacks⟩ := h.backs hz keys Q
  obtain ⟨hcanonBefore, -⟩ := List.forall_mem_append.mp hcanon
  obtain ⟨hselfBefore, -⟩ := List.forall_mem_append.mp hself
  obtain ⟨L, hL, -, hbalance⟩ := hbacks.of_run hz hcanonBefore hselfBefore htoken hmade
    (fun o ho => hw o (List.mem_append_left _ ho)) hcov.of_append
  refine ⟨made, more, rfl, hmade, hmore, Q, L, hcov.of_append, hw, hL, ?_⟩
  rw [hbalance, NoteLedger.value_empty]
  omega

/-- What an accepted call of a run does: its opening is one of the run's, the circuit's equation
holds over the integers, and what is paid out is covered by the notes that are left before it, and
these by the balance. -/
def Covered (ext : Externals) (P : Poseidon2) (keys : Set F) (token : Address) (env : Env Chain)
    (os : List Opening) (before : List Action) (proof : Proof) (extData : ExtData) : Prop :=
  ∃ made o more, os = made ++ o :: more ∧
    List.Forall₂ (Opens P) (accepted ext P env before) made ∧ Opens P proof o ∧
    (∑ tx, (o.2.input tx).inAmount.val : ℕ) + extData.extAmount.val =
      (∑ tx, (o.2.output tx).outAmount.val : ℕ) ∧
    -extData.extAmount.val ≤ unspentValue P keys (notesOf made) (run ext P env before) ∧
    unspentValue P keys (notesOf made) (run ext P env before) ≤
      (run ext P env before).store.balances token ext.self

/-- **Value conservation**: after every run of a new pool the openings that the verifier stands for
make notes, and the pool's balance is at least the sum of those whose nullifier is not in the map,
with equality if it held nothing at first and nobody gave it tokens; in every accepted call of the
run the circuit's equation does not wrap and the withdrawal is covered. -/
theorem value_conserved (hv : SoundVerifier ext P) (hz : ZeroTable P) (h : Fresh token env)
    (hcanon : ∀ a ∈ actions, a.Canonical) (hguarded : ∀ a ∈ actions, a.Guarded token ext.self)
    (h0 : 0 ≤ env.store.balances token ext.self) :
    (∃ os, List.Forall₂ (Opens P) (accepted ext P env actions) os) ∧
    ∀ (os : List Opening) (keys : Set F),
      List.Forall₂ (Opens P) (accepted ext P env actions) os → Known P keys os →
      P.CollisionFree (evaluations P keys (notesOf os) os (run ext P env actions)) →
      unspentValue P keys (notesOf os) (run ext P env actions) ≤
        (run ext P env actions).store.balances token ext.self ∧
      (env.store.balances token ext.self = 0 → (∀ a ∈ actions, ¬ a.Gives token ext.self) →
        (run ext P env actions).store.balances token ext.self =
          unspentValue P keys (notesOf os) (run ext P env actions)) ∧
      ∀ before auths proof extData sender after,
        actions = before ++ .transact auths proof extData sender :: after →
        acceptedProof ext P (run ext P env before) (.transact auths proof extData sender) =
          some proof →
        Covered ext P keys token env os before proof extData := by
  refine ⟨hv.exists_openings env actions, fun os keys hos hknown hc => ?_⟩
  have hself : ∀ a ∈ actions, a.NotSignedBy ext.self := fun a ha => (hguarded a ha).notSigned
  obtain ⟨hcov, L, hL, hbalance⟩ :=
    h.of_run hz hcanon hself (List.Subset.refl os) hos hknown hc
  rw [hL.unspentValue_eq hcov, hbalance]
  refine ⟨?_, fun hnothing hgives => ?_, ?_⟩
  · have hgiven := windfalls_nonneg (P := P) env hguarded
    omega
  · rw [hnothing, windfalls_eq_zero env hgives]
    omega
  · rintro before auths proof extData sender after rfl haccepted
    obtain ⟨made, more, rfl, hmade, hmore, Q, L', hcov', hw, hL', hbalance'⟩ :=
      h.at_call hz hcanon hself hos hknown hc
    rw [accepted_cons_some haccepted] at hmore
    obtain ⟨o, more, ho, -, rfl⟩ := List.forall₂_cons_left_iff.mp hmore
    have hwo : o.Within P keys Q := hw o (List.mem_append_right _ List.mem_cons_self)
    obtain ⟨_, _, _, _, heq, -, hacc⟩ | ⟨hnone, -⟩ :=
      step_cases ext P (run ext P env before) (.transact auths proof extData sender)
    · cases heq
      have hproof : proof.Canonical :=
        hcanon _ (List.mem_append_right _ List.mem_cons_self)
      have hbalanced := hL'.balanced hcov' hacc.checked ho hwo
      have hle := hL'.inputs_le_value hcov' hacc.checked hproof ho hwo
      obtain ⟨hguardedBefore, -⟩ := List.forall_mem_append.mp hguarded
      have hgiven := windfalls_nonneg (P := P) env hguardedBefore
      refine ⟨made, o, more, rfl, hmade, ho, hbalanced, ?_, ?_⟩
      · rw [hL'.unspentValue_eq hcov']
        omega
      · rw [hL'.unspentValue_eq hcov', hbalance']
        omega
    · rw [haccepted] at hnone
      cases hnone

/-- A new pool of ten levels that holds nothing. -/
def emptyPool : Env Chain :=
  (constructor (.account 0) (.contract 1) (.contract 2) (.contract 3) (.contract 4) 1000 10).after
    ⟨{ pool := ⟨none, none, none, none, none, none, none, MerkleTreeWithHistory.blank, []⟩
       balances := fun _ x => if x = .account 1 then 100 else 0
       aspRoot := fun asp => if asp = .contract 3 then some sampleMembershipRoot.val else some 0 },
      []⟩

theorem fresh_emptyPool : Fresh (.contract 1) emptyPool := by
  have happly := @constructor_apply
    ⟨{ pool := ⟨none, none, none, none, none, none, none, MerkleTreeWithHistory.blank, []⟩
       balances := fun _ x => if x = .account 1 then 100 else 0
       aspRoot := fun asp => if asp = .contract 3 then some sampleMembershipRoot.val else some 0 },
      []⟩ (.account 0) (.contract 1) (.contract 2) (.contract 3) (.contract 4) 1000 10 rfl
    (by decide) (by decide)
  rw [emptyPool, Host.after_of_ok happly]
  exact ⟨_, _, _, _, _, _, by rfl, happly⟩

theorem guarded_solventRun :
    ∀ a ∈ solventRun, a.Guarded (.contract 1) solventExternals.self := fun a ha =>
  ⟨notSignedBy_solventRun a ha, by
    rw [solventRun, List.mem_pair] at ha
    rcases ha with rfl | rfl <;> exact le_rfl⟩

theorem not_gives_solventRun :
    ∀ a ∈ solventRun, ¬ a.Gives (.contract 1) solventExternals.self := by
  rw [solventRun, List.forall_mem_cons, List.forall_mem_singleton]
  unfold solventAction Action.Gives
  decide

theorem acceptedProof_solventDeposit_emptyPool :
    acceptedProof solventExternals zeroPoseidon2 emptyPool (solventAction solventDeposit (i256 7)) =
      some (proofOf 0 solventDeposit.1) :=
  acceptedProof_of_isSome (by decide +kernel)

theorem acceptedProof_solventWithdrawal_emptyPool :
    acceptedProof solventExternals zeroPoseidon2
      (step solventExternals zeroPoseidon2 emptyPool (solventAction solventDeposit (i256 7)))
      (solventAction solventWithdrawal (i256 (-3))) = some (proofOf 0 solventWithdrawal.1) :=
  acceptedProof_of_isSome (by decide +kernel)

theorem accepted_solventRun_emptyPool : List.Forall₂ (Opens zeroPoseidon2)
    (accepted solventExternals zeroPoseidon2 emptyPool solventRun)
    [solventDeposit, solventWithdrawal] := by
  rw [solventRun, accepted_cons_some acceptedProof_solventDeposit_emptyPool,
    accepted_cons_some acceptedProof_solventWithdrawal_emptyPool]
  exact .cons opens_solventDeposit (.cons opens_solventWithdrawal .nil)

/-- A deposit of 7 and a withdrawal of 3 leave 4, and the withdrawal was covered. -/
theorem value_conserved_sample :
    (run solventExternals zeroPoseidon2 emptyPool solventRun).store.balances (.contract 1)
      solventExternals.self = unspentValue zeroPoseidon2 {1}
        (notesOf [solventDeposit, solventWithdrawal])
        (run solventExternals zeroPoseidon2 emptyPool solventRun) ∧
    (run solventExternals zeroPoseidon2 emptyPool solventRun).store.balances (.contract 1)
      solventExternals.self = 4 ∧
    Covered solventExternals zeroPoseidon2 {1} (.contract 1) emptyPool
      [solventDeposit, solventWithdrawal] [solventAction solventDeposit (i256 7)]
      (proofOf 0 solventWithdrawal.1) ⟨.account 1, i256 (-3), [], []⟩ := by
  have hempty : emptyPool.store.balances (.contract 1) solventExternals.self = 0 := by
    decide +kernel
  have hend : (run solventExternals zeroPoseidon2 emptyPool solventRun).store.balances
      (.contract 1) solventExternals.self = 4 := by decide +kernel
  obtain ⟨-, hequal, hcovered⟩ := (value_conserved policyVerifier_solvent.sound
    zeroTable_zeroPoseidon2 fresh_emptyPool canonical_solventRun guarded_solventRun hempty.ge).2
    [solventDeposit, solventWithdrawal] {1} accepted_solventRun_emptyPool known_solventRun
    (collisionFree_evaluations (by decide +kernel))
  refine ⟨hequal hempty not_gives_solventRun, hend, hcovered _ [.account 1] _ _ (.account 1) []
    (by rw [solventRun, solventAction, solventAction, List.singleton_append]) ?_⟩
  rw [run_cons, run, List.foldl_nil]
  exact acceptedProof_solventWithdrawal_emptyPool

end Enclave.Pool

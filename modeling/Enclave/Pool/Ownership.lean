import Enclave.Pool.Solvency

/-! # Ownership

A nullifier is made from the key, the commitment and the position.  What marks it in the map is
one input of one accepted transaction, and that input opens the note with its key: a note is spent
at most once, and nobody without its key spends it or blocks it (`spent_iff_existsUnique`). -/

namespace Enclave.Pool

open Circuits

variable {ext : Externals} {P : Poseidon2} {env : Env Chain} {a : Action} {actions : List Action}
  {os : List Opening} {n : U256}

/-! ### Inputs of a run -/

/-- An input of openings, by the number of the opening and its own. -/
def inputAt (os : List Opening) (p : ℕ × Fin 2) : Option (Input 1 1 10 10) :=
  os[p.1]?.map fun o => o.2.input p.2

theorem inputAt_zero (o : Opening) (tx : Fin 2) : inputAt (o :: os) (0, tx) = some (o.2.input tx) :=
  rfl

theorem inputAt_cons {o : Opening} {p : ℕ × Fin 2} {inp : Input 1 1 10 10}
    (h : inputAt (o :: os) p = some inp) : (∃ tx, p = (0, tx) ∧ inp = o.2.input tx) ∨
      ∃ k tx, p = (k + 1, tx) ∧ inputAt os (k, tx) = some inp := by
  obtain ⟨k, tx⟩ := p
  cases k with
  | zero => exact Or.inl ⟨tx, rfl, (Option.some.inj h).symm⟩
  | succ k => exact Or.inr ⟨k, tx, rfl, h⟩

theorem inputAt_eq_some {p : ℕ × Fin 2} {inp : Input 1 1 10 10} (h : inputAt os p = some inp) :
    ∃ o ∈ os, inp = o.2.input p.2 := by
  obtain ⟨o, ho, rfl⟩ := Option.map_eq_some_iff.mp h
  exact ⟨o, List.mem_of_getElem? ho, rfl⟩

theorem Accepted.mem_of_spent {auths : List Address} {proof : Proof} {extData : ExtData}
    {sender : Address} {env' : Env Chain}
    (h : Accepted ext P auths proof extData sender env env') (hspent : Spent env' n)
    (hnot : ¬ Spent env n) : n ∈ proof.inputNullifiers := by
  have hsome : env.store.pool.nullifiers.isSome := by
    obtain ⟨nulls, hnulls, -⟩ := hspent
    rw [h.pool] at hnulls
    obtain ⟨nulls', hnulls', -⟩ := Option.map_eq_some_iff.mp hnulls
    rw [hnulls']
    rfl
  exact ((h.spent_iff hsome).mp hspent).resolve_right hnot

/-- **What a run marks** are the nullifiers of the inputs of its accepted transactions. -/
theorem spent_run_iff (hcanon : ∀ a ∈ actions, a.Canonical)
    (hos : List.Forall₂ (Opens P) (accepted ext P env actions) os) :
    Spent (run ext P env actions) n ↔
      Spent env n ∨ ∃ p inp, inputAt os p = some inp ∧ n = (inp.inNullifier P).val := by
  induction actions generalizing env os with
  | nil =>
      obtain rfl : os = [] := List.forall₂_nil_left_iff.mp hos
      refine ⟨Or.inl, ?_⟩
      rintro (h | ⟨p, inp, hp, -⟩)
      · exact h
      · cases hp
  | cons a rest ih =>
      obtain ⟨hcanon, hcanonRest⟩ := List.forall_mem_cons.mp hcanon
      obtain ⟨auths, proof, extData, sender, rfl, hproof, hacc⟩ | ⟨hnone, hquiet⟩ :=
        step_cases ext P env a
      · rw [accepted_cons_some hproof] at hos
        obtain ⟨o, os, ho, hosRest, rfl⟩ := List.forall₂_cons_left_iff.mp hos
        rw [run_cons, ih hcanonRest hosRest]
        constructor
        · rintro (h | ⟨⟨k, tx⟩, inp, hp, heq⟩)
          · by_cases hold : Spent env n
            · exact Or.inl hold
            · obtain ⟨tx, htx⟩ := ho.exists_input hcanon (hacc.mem_of_spent h hold)
              exact Or.inr ⟨(0, tx), _, inputAt_zero o tx, htx⟩
          · exact Or.inr ⟨(k + 1, tx), inp, hp, heq⟩
        · rintro (h | ⟨p, inp, hp, rfl⟩)
          · exact Or.inl (h.step _)
          · obtain ⟨tx, rfl, rfl⟩ | ⟨k, tx, rfl, hrest⟩ := inputAt_cons hp
            · exact Or.inl (hacc.spent (ho.nullifier_mem hcanon tx)).2
            · exact Or.inr ⟨(k, tx), inp, hrest, rfl⟩
      · rw [accepted_cons_none hnone] at hos
        rw [run_cons, ih hcanonRest hos, spent_congr hquiet.nullifiers]

theorem mem_consumed (hcanon : ∀ a ∈ actions, a.Canonical)
    (hos : List.Forall₂ (Opens P) (accepted ext P env actions) os) {p : ℕ × Fin 2}
    {inp : Input 1 1 10 10} (hp : inputAt os p = some inp) :
    (inp.inNullifier P).val ∈ consumed ext P env actions := by
  induction actions generalizing env os p with
  | nil =>
      obtain rfl : os = [] := List.forall₂_nil_left_iff.mp hos
      cases hp
  | cons a rest ih =>
      obtain ⟨hcanon, hcanonRest⟩ := List.forall_mem_cons.mp hcanon
      obtain ⟨auths, proof, extData, sender, rfl, hproof, -⟩ | ⟨hnone, -⟩ :=
        step_cases ext P env a
      · rw [accepted_cons_some hproof] at hos
        obtain ⟨o, os, ho, hosRest, rfl⟩ := List.forall₂_cons_left_iff.mp hos
        rw [consumed_cons_some hproof]
        obtain ⟨tx, rfl, rfl⟩ | ⟨k, tx, rfl, hrest⟩ := inputAt_cons hp
        · exact List.mem_append_left _ (ho.nullifier_mem hcanon tx)
        · exact List.mem_append_right _ (ih hcanonRest hosRest hrest)
      · rw [accepted_cons_none hnone] at hos
        rw [consumed_cons_none hnone]
        exact ih hcanonRest hos hp

/-- **No two inputs of a run have one nullifier.** -/
theorem inNullifier_inj (hcanon : ∀ a ∈ actions, a.Canonical)
    (hos : List.Forall₂ (Opens P) (accepted ext P env actions) os) {p q : ℕ × Fin 2}
    {inp inp' : Input 1 1 10 10} (hp : inputAt os p = some inp) (hq : inputAt os q = some inp')
    (heq : inp.inNullifier P = inp'.inNullifier P) : p = q := by
  induction actions generalizing env os p q with
  | nil =>
      obtain rfl : os = [] := List.forall₂_nil_left_iff.mp hos
      cases hp
  | cons a rest ih =>
      obtain ⟨hcanon, hcanonRest⟩ := List.forall_mem_cons.mp hcanon
      obtain ⟨auths, proof, extData, sender, rfl, hproof, hacc⟩ | ⟨hnone, -⟩ :=
        step_cases ext P env a
      · rw [accepted_cons_some hproof] at hos
        obtain ⟨o, os, ho, hosRest, rfl⟩ := List.forall₂_cons_left_iff.mp hos
        -- what the first transaction marks is not marked again
        have hlater : ∀ (tx : Fin 2) (k : ℕ) (tx' : Fin 2) (inp : Input 1 1 10 10),
            inputAt os (k, tx') = some inp →
              (o.2.input tx).inNullifier P ≠ inp.inNullifier P := by
          intro tx k tx' inp hinp hsame
          have hspent := (hacc.spent (ho.nullifier_mem hcanon tx)).2
          rw [hsame] at hspent
          exact not_spent_of_mem_consumed (mem_consumed hcanonRest hosRest hinp) hspent
        obtain ⟨tx, rfl, rfl⟩ | ⟨k, tx, rfl, hp'⟩ := inputAt_cons hp
        · obtain ⟨tx', rfl, rfl⟩ | ⟨k', tx', rfl, hq'⟩ := inputAt_cons hq
          · rw [(ho.satisfies.input tx).nullifier, (ho.satisfies.input tx').nullifier] at heq
            rw [ho.satisfies.nullifier_injective heq]
          · exact absurd heq (hlater tx k' tx' inp' hq')
        · obtain ⟨tx', rfl, rfl⟩ | ⟨k', tx', rfl, hq'⟩ := inputAt_cons hq
          · exact absurd heq.symm (hlater tx' k tx inp hp')
          · have hrest := ih hcanonRest hosRest hp' hq'
            rw [Prod.mk.injEq] at hrest ⊢
            exact ⟨congrArg (· + 1) hrest.1, hrest.2⟩
      · rw [accepted_cons_none hnone] at hos
        exact ih hcanonRest hos hp hq

/-! ### The owner of a note -/

/-- The input opens the note at the position with the key. -/
structure Spends (P : Poseidon2) (sk : F) (note : Output) (i : F) (inp : Input 1 1 10 10) :
    Prop where
  inPrivateKey : inp.inPrivateKey = sk
  inAmount : inp.inAmount = note.outAmount
  inPubkey : inp.inPubkey P = note.outPubkey
  inBlinding : inp.inBlinding = note.outBlinding
  inPathIndices : inp.inPathIndices = i

/-- The evaluations behind the nullifier of a note. -/
def nullifierQueries (P : Poseidon2) (sk : F) (note : Output) (i : F) : List Query :=
  [note.query, .hash3 sk (noteCommitment P note) i (4 : ℕ),
    .hash3 (noteCommitment P note) i (signature P sk (noteCommitment P note) i) (2 : ℕ)]

/-- The evaluations of a note's nullifier and of openings. -/
def ownerQueries (P : Poseidon2) (sk : F) (note : Output) (i : F) (os : List Opening) : Set Query :=
  {q | q ∈ nullifierQueries P sk note i ∨ ∃ o ∈ os, q ∈ o.2.queries P o.1}

/-- The nullifier tells what was spent. -/
theorem inNullifier_eq_iff {sk i : F} {note : Output} {inp : Input 1 1 10 10} {p : ℕ × Fin 2}
    (hc : P.CollisionFree (ownerQueries P sk note i os)) (hp : inputAt os p = some inp) :
    nullifier P sk (noteCommitment P note) i = inp.inNullifier P ↔ Spends P sk note i inp := by
  obtain ⟨o, ho, rfl⟩ := inputAt_eq_some hp
  have hown : ∀ q ∈ nullifierQueries P sk note i, q ∈ ownerQueries P sk note i os :=
    fun q hq => Or.inl hq
  have hin : ∀ q ∈ (o.2.input p.2).queries P o.1 p.2, q ∈ ownerQueries P sk note i os :=
    fun q hq => Or.inr ⟨o, ho, Witness.input_queries_subset p.2 hq⟩
  constructor
  · intro heq
    obtain ⟨hcommit, hpath, hsign, -⟩ := Query.hash3.inj
      (hc (hown _ (by simp [nullifierQueries])) (hin _ (by simp [Input.queries])) heq)
    obtain ⟨hkey, -⟩ := Query.hash3.inj
      (hc (hown _ (by simp [nullifierQueries])) (hin _ (by simp [Input.queries])) hsign)
    obtain ⟨hamount, hpubkey, hblinding, -⟩ := Query.hash3.inj
      (hc (hown note.query (by simp [nullifierQueries])) (hin _ (by simp [Input.queries])) hcommit)
    exact ⟨hkey.symm, hamount.symm, hpubkey.symm, hblinding.symm, hpath.symm⟩
  · intro h
    rw [Input.inNullifier, Input.inCommitment, h.inPrivateKey, h.inAmount, h.inPubkey, h.inBlinding,
      h.inPathIndices, noteCommitment]

/-- **Ownership**: after every run, with every nullifier canonical, from a chain that does not have
a note's nullifier, the verifier stands for openings of the accepted transactions, and the
nullifier is in the map if and only if exactly one of their inputs opens the note with its key. -/
theorem spent_iff_existsUnique (hv : PolicyVerifier ext P) (hcanon : ∀ a ∈ actions, a.Canonical)
    (sk i : F) (note : Output)
    (hnot : ¬ Spent env (nullifier P sk (noteCommitment P note) i).val) :
    (∃ os, List.Forall₂ (Opens P) (accepted ext P env actions) os) ∧
    ∀ os, List.Forall₂ (Opens P) (accepted ext P env actions) os →
      P.CollisionFree (ownerQueries P sk note i os) →
      (Spent (run ext P env actions) (nullifier P sk (noteCommitment P note) i).val ↔
        ∃! p, ∃ inp, inputAt os p = some inp ∧ Spends P sk note i inp) := by
  refine ⟨SoundVerifier.exists_openings hv.sound env actions, fun os hos hc => ?_⟩
  rw [spent_run_iff hcanon hos, or_iff_right hnot]
  constructor
  · rintro ⟨p, inp, hp, heq⟩
    refine ⟨p, ⟨inp, hp, (inNullifier_eq_iff hc hp).mp (F.val_injective heq)⟩, ?_⟩
    rintro q ⟨inp', hq, hspends⟩
    refine inNullifier_inj hcanon hos hq hp ?_
    rw [← (inNullifier_eq_iff hc hq).mpr hspends, F.val_injective heq]
  · rintro ⟨p, ⟨inp, hp, hspends⟩, -⟩
    exact ⟨p, inp, hp, congrArg ZMod.val ((inNullifier_eq_iff hc hp).mpr hspends)⟩

theorem spent_iff_bind :
    Spent env n ↔ (env.store.pool.nullifiers.bind fun nulls => nulls n) = some true :=
  Option.bind_eq_some_iff.symm

/-- The withdrawal is what spends the note of the deposit. -/
theorem spent_iff_existsUnique_sample :
    ∃! p, ∃ inp, inputAt [solventDeposit, solventWithdrawal] p = some inp ∧
      Spends zeroPoseidon2 1 (solventDeposit.2.output 0) 0 inp := by
  have hnot : ¬ Spent samplePool (nullifier zeroPoseidon2 1
      (noteCommitment zeroPoseidon2 (solventDeposit.2.output 0)) 0).val := by
    rw [spent_iff_bind]
    decide +kernel
  have howner := (spent_iff_existsUnique policyVerifier_solvent canonical_solventRun 1 0
    (solventDeposit.2.output 0) hnot).2 [solventDeposit, solventWithdrawal]
    accepted_solventRun ?_
  · refine howner.mp ?_
    rw [spent_iff_bind]
    decide +kernel
  · have hclean : cleanLog zeroPoseidon2 (nullifierQueries zeroPoseidon2 1
        (solventDeposit.2.output 0) 0 ++ [solventDeposit, solventWithdrawal].flatMap fun o =>
          o.2.queries zeroPoseidon2 o.1).dedup = true := by decide +kernel
    refine (collisionFree_of_cleanLog hclean).1.mono ?_
    rintro q (hq | ⟨o, ho, hq⟩)
    · exact List.mem_dedup.mpr (List.mem_append_left _ hq)
    · exact List.mem_dedup.mpr (List.mem_append_right _ (List.mem_flatMap.mpr ⟨o, ho, hq⟩))

end Enclave.Pool

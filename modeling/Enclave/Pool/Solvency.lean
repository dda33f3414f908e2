import Enclave.Lib.NoteLedger
import Enclave.Pool.Acceptance
import Enclave.Pool.DoubleSpend

/-! # Solvency

The pool is a ledger of notes that holds what the notes are worth.  `Backs` says that a chain
stands for a ledger: the tree has the notes' commitments, a spent note's nullifier is in the map,
and a nullifier in the map is that of a spent note or of an input without an amount.  What passes
the checks opens notes that are left (`Backs.opens`), adds up over the integers
(`Backs.balanced`), and every run moves the pool's balance as the ledger moves
(`Backs.of_run`). -/

namespace Enclave.Pool

open Circuits MerkleTreeWithHistory

/-! ### Openings -/

/-- Public inputs of the circuit and a witness. -/
abbrev Opening := PolicyPublic × PolicyWitness

/-- The opening is one of the proof's public inputs. -/
structure Opens (P : Poseidon2) (proof : Proof) (o : Opening) : Prop where
  pub : o.1.toList = residues proof
  satisfies : o.2.Satisfies P o.1

/-- The verifier accepts only what the circuit can satisfy. -/
def SoundVerifier (ext : Externals) (P : Poseidon2) : Prop :=
  ∀ verifier proof (xs : List U256), ext.verify verifier proof xs = some true →
    ∃ (pub : PolicyPublic) (w : PolicyWitness),
      pub.toList = xs.map (Nat.cast : ℕ → F) ∧ w.Satisfies P pub

/-- The notes that openings make, in the order of the tree. -/
def notesOf (os : List Opening) : List Output := os.flatMap fun o => List.ofFn o.2.output

variable {ext : Externals} {P : Poseidon2} {env env' : Env Chain} {a : Action}
  {actions : List Action}

theorem SoundVerifier.exists_opens (hv : SoundVerifier ext P) {proof : Proof}
    {extData : ExtData} (h : Checked ext proof extData env) : ∃ o, Opens P proof o := by
  obtain ⟨verifier, -, hverified⟩ := h.verified
  obtain ⟨pub, w, hpub, hsat⟩ := hv _ _ _ hverified
  exact ⟨(pub, w), hpub, hsat⟩

theorem SoundVerifier.exists_openings (hv : SoundVerifier ext P) (env : Env Chain)
    (actions : List Action) :
    ∃ os, List.Forall₂ (Opens P) (accepted ext P env actions) os := by
  induction actions generalizing env with
  | nil => exact ⟨[], .nil⟩
  | cons a rest ih =>
      obtain ⟨os, hos⟩ := ih (step ext P env a)
      obtain ⟨auths, proof, extData, sender, -, hproof, hacc⟩ | ⟨hnone, -⟩ :=
        step_cases ext P env a
      · obtain ⟨o, ho⟩ := hv.exists_opens hacc.checked
        rw [accepted_cons_some hproof]
        exact ⟨o :: os, .cons ho hos⟩
      · rw [accepted_cons_none hnone]
        exact ⟨os, hos⟩

/-! ### Evaluations -/

def noteCommitment (P : Poseidon2) (note : Output) : F :=
  commitment P note.outAmount note.outPubkey note.outBlinding

/-- The evaluations of a key for a note at a position. -/
def spendQueries (P : Poseidon2) (sk : F) (note : Output) (i : ℕ) : List Query :=
  [.hash3 sk (noteCommitment P note) i (4 : ℕ),
    .hash3 (noteCommitment P note) i (signature P sk (noteCommitment P note) i) (2 : ℕ)]

/-- The evaluations in view: the contract's, the openings', those of the empty tree, and those of
keys for notes. -/
def evaluations (P : Poseidon2) (keys : Set F) (notes : List Output) (os : List Opening)
    (env : Env Chain) : Set Query :=
  {q | q ∈ env.hashed ∨ (∃ o ∈ os, q ∈ o.2.queries P o.1) ∨
    (∃ l < 10, q = .compress (zeroAt l) (zeroAt l)) ∨
    ∃ sk ∈ keys, q = .hash2 sk 0 (3 : ℕ) ∨
      ∃ i note, notes[i]? = some note ∧ q ∈ spendQueries P sk note i}

/-- What is known of the evaluations `Q` and the keys: no collision, and `Q` has what is hashed for
the tree and for the notes. -/
structure Covers (P : Poseidon2) (keys : Set F) (Q : Set Query) (notes : List Output) : Prop where
  collisionFree : P.CollisionFree Q
  tree : ∀ n, IsState (notes.map (noteCommitment P)) n →
    ∀ p ∈ Merkle.treePairs P.compress (leafAt ((notes.map (noteCommitment P)).take n)) 10,
      pairQuery p ∈ Q
  note : ∀ note ∈ notes, note.query ∈ Q
  key : ∀ sk ∈ keys, .hash2 sk 0 3 ∈ Q
  spend : ∀ sk ∈ keys, ∀ i note, notes[i]? = some note → ∀ q ∈ spendQueries P sk note i, q ∈ Q

/-- The opening's keys and evaluations are among those in view, and none of its inputs is the zero
leaf. -/
structure Opening.Within (P : Poseidon2) (keys : Set F) (Q : Set Query) (o : Opening) : Prop where
  key : ∀ tx, (o.2.input tx).inPrivateKey ∈ keys
  queries : ∀ q ∈ o.2.queries P o.1, q ∈ Q
  zeroLeaf : ∀ tx, (o.2.input tx).inCommitment P ≠ zeroAt 0

variable {keys : Set F} {Q : Set Query} {notes more : List Output} {o : Opening}

theorem Covers.of_append (h : Covers P keys Q (notes ++ more)) : Covers P keys Q notes where
  collisionFree := h.collisionFree
  tree n hn p hp := by
    refine h.tree n ⟨?_, hn.2⟩ p ?_
    · rw [List.map_append, List.length_append]
      exact hn.1.trans (Nat.le_add_right _ _)
    · rwa [List.map_append, List.take_append_of_le_length hn.1]
  note note hmem := h.note note (List.mem_append_left _ hmem)
  key := h.key
  spend sk hsk i note hnote := by
    refine h.spend sk hsk i note ?_
    rwa [List.getElem?_append_left (List.getElem?_eq_some_iff.mp hnote).1]

theorem Covers.key_inj (h : Covers P keys Q notes) {sk sk' : F} (hsk : sk ∈ keys)
    (hsk' : sk' ∈ keys) (heq : publicKey P sk = publicKey P sk') : sk = sk' := by
  have hquery := h.collisionFree (h.key sk hsk) (h.key sk' hsk') heq
  exact (Query.hash2.inj hquery).1

/-! ### The ledger of a chain -/

/-- The note's nullifier is not in the map, whichever of the keys is its own. -/
def NotSpent (P : Poseidon2) (keys : Set F) (env : Env Chain) (note : Output) (i : ℕ) : Prop :=
  ∀ sk ∈ keys, publicKey P sk = note.outPubkey →
    ¬ Spent env (nullifier P sk (noteCommitment P note) i).val

/-- The chain stands for a ledger of notes. -/
structure Backs (P : Poseidon2) (keys : Set F) (Q : Set Query) (notes : List Output)
    (L : NoteLedger) (env : Env Chain) : Prop where
  amounts : L.amounts = notes.map fun note => note.outAmount.val
  holds : Holds P 10 (notes.map (noteCommitment P)) (merkleEnv env)
  nullifiers : env.store.pool.nullifiers.isSome
  lt : ∀ note ∈ notes, note.outAmount.val < 2 ^ 248
  spent : ∀ i ∈ L.spent, ∀ note, notes[i]? = some note → ¬ NotSpent P keys env note i
  /-- A nullifier in the map is that of a spent note, or of an input without an amount. -/
  origin : ∀ n, Spent env n → ∃ sk amount pubkey blinding path : F,
    n = (nullifier P sk (commitment P amount pubkey blinding) path).val ∧
    .hash3 amount pubkey blinding 1 ∈ Q ∧
    .hash3 (commitment P amount pubkey blinding) path
      (signature P sk (commitment P amount pubkey blinding) path) 2 ∈ Q ∧
    (amount = 0 ∨ path.val ∈ L.spent)

variable {L : NoteLedger} {proof : Proof} {extData : ExtData}

theorem Covers.injOn (h : Covers P keys Q notes) :
    Set.InjOn (fun p : F × F => P.compress p.1 p.2) {p | pairQuery p ∈ Q} := by
  intro p hp q hq heq
  have hquery := h.collisionFree hp hq heq
  obtain ⟨hleft, hright⟩ := Query.compress.inj hquery
  exact Prod.ext hleft hright

theorem Covers.note_eq (h : Covers P keys Q notes) {note : Output} (hmem : note ∈ notes)
    {amount pubkey blinding : F} (hquery : .hash3 amount pubkey blinding 1 ∈ Q)
    (heq : commitment P amount pubkey blinding = noteCommitment P note) :
    amount = note.outAmount ∧ pubkey = note.outPubkey ∧ blinding = note.outBlinding := by
  have hq := h.collisionFree hquery (h.note note hmem) heq
  obtain ⟨hamount, hpubkey, hblinding, -⟩ := Query.hash3.inj hq
  exact ⟨hamount, hpubkey, hblinding⟩

theorem commitmentQuery_mem (h : o.Within P keys Q) (tx : Fin 2) :
    .hash3 (o.2.input tx).inAmount ((o.2.input tx).inPubkey P) (o.2.input tx).inBlinding 1 ∈ Q := by
  refine h.queries _ (Witness.input_queries_subset tx ?_)
  simp [Input.queries]

theorem nullifierQuery_mem (h : o.Within P keys Q) (tx : Fin 2) :
    .hash3 ((o.2.input tx).inCommitment P) (o.2.input tx).inPathIndices
      (signature P (o.2.input tx).inPrivateKey ((o.2.input tx).inCommitment P)
        (o.2.input tx).inPathIndices) 2 ∈ Q := by
  refine h.queries _ (Witness.input_queries_subset tx ?_)
  simp [Input.queries]

theorem pathQueries_mem (h : o.Within P keys Q) (tx : Fin 2) :
    ∀ q ∈ MerkleProof.queries P (o.2.input tx).inPathIndices 0
      (List.ofFn (o.2.input tx).inPathElements) ((o.2.input tx).inCommitment P), q ∈ Q := by
  intro q hq
  refine h.queries _ (Witness.input_queries_subset tx ?_)
  exact List.mem_append_left _ (List.mem_append_left _ (List.mem_append_right _ hq))

/-- **An input with an amount opens a note of the tree.** -/
theorem Backs.opens (h : Backs P keys Q notes L env) (hcov : Covers P keys Q notes)
    (hchecked : Checked ext proof extData env) (ho : Opens P proof o) (hw : o.Within P keys Q)
    {tx : Fin 2} (hne : (o.2.input tx).inAmount ≠ 0) :
    ∃ note, notes[(o.2.input tx).inPathIndices.val]? = some note ∧
      noteCommitment P note = (o.2.input tx).inCommitment P ∧
      note.outAmount = (o.2.input tx).inAmount ∧
      note.outPubkey = (o.2.input tx).inPubkey P := by
  obtain ⟨-, n, hn, hroot⟩ := h.holds.exists_of_isKnownRoot hchecked.knownRoot
  have hin := ho.satisfies.input tx
  have hpub : o.1.root = rootOf P 10 ((notes.map (noteCommitment P)).take n) := by
    rw [(encodes_of_toList ho.pub).root, hroot, F.natCast_val]
  have htree := (forceEqualIfEnabled_iff.mp hin.checkRoot).resolve_left hne
  rw [hpub, Input.inTreeRoot, MerkleProof.root_eq] at htree
  have hidx : (o.2.input tx).inPathIndices.val < 2 ^ 10 := hin.pathIndices
  have hlen : (List.ofFn (o.2.input tx).inPathElements).length = 10 := List.length_ofFn
  have hleaf : (o.2.input tx).inCommitment P =
      Merkle.node P.compress (leafAt ((notes.map (noteCommitment P)).take n)) 0
        ((o.2.input tx).inPathIndices.val / 2 ^ 0) := by
    refine @Merkle.leaf_of_pathRoot F P.compress _ _ hcov.injOn _ 0
      (List.ofFn (o.2.input tx).inPathElements) _ ?_ (fun p hp => pathQueries_mem hw tx _ ?_) ?_
    · rw [hlen]
      exact fun p hp => hcov.tree n hn p hp
    · rw [MerkleProof.queries_eq]
      exact List.mem_map_of_mem hp
    · rw [hlen, Nat.zero_add, Nat.div_eq_of_lt hidx]
      exact htree.symm
  rw [pow_zero, Nat.div_one, Merkle.node] at hleaf
  -- past the leaves of that state stands the zero leaf
  have hlt : (o.2.input tx).inPathIndices.val < n := by
    by_contra hge
    refine hw.zeroLeaf tx (hleaf.trans (leafAt_of_le ?_))
    rw [List.length_take]
    omega
  have hle : n ≤ notes.length := by
    have := hn.1
    rwa [List.length_map] at this
  obtain ⟨note, hnote⟩ : ∃ note, notes[(o.2.input tx).inPathIndices.val]? = some note :=
    ⟨_, List.getElem?_eq_getElem (by omega)⟩
  have hopened : (o.2.input tx).inCommitment P = noteCommitment P note := by
    rw [hleaf, leafAt, List.getD_eq_getElem?_getD, List.getElem?_take_of_lt hlt, List.getElem?_map,
      hnote]
    rfl
  obtain ⟨hamount, hpubkey, -⟩ :=
    hcov.note_eq (List.mem_of_getElem? hnote) (commitmentQuery_mem hw tx) hopened
  exact ⟨note, hnote, hopened.symm, hamount.symm, hpubkey.symm⟩

theorem Opens.nullifier_mem (ho : Opens P proof o) (hcanon : proof.Canonical) (tx : Fin 2) :
    ((o.2.input tx).inNullifier P).val ∈ proof.inputNullifiers := by
  have hmem : (o.2.input tx).inNullifier P ∈ List.ofFn o.1.inputNullifier := by
    rw [(ho.satisfies.input tx).nullifier]
    exact (List.mem_ofFn' _ _).mpr ⟨tx, rfl⟩
  rw [(encodes_of_toList ho.pub).inputNullifier] at hmem
  obtain ⟨n, hn, heq⟩ := List.mem_map.mp hmem
  rw [← heq, F.val_natCast_of_lt (hcanon n hn)]
  exact hn

theorem Opens.exists_input (ho : Opens P proof o) (hcanon : proof.Canonical) {n : U256}
    (hn : n ∈ proof.inputNullifiers) : ∃ tx, n = ((o.2.input tx).inNullifier P).val := by
  have hmem : (n : F) ∈ List.ofFn o.1.inputNullifier := by
    rw [(encodes_of_toList ho.pub).inputNullifier]
    exact List.mem_map_of_mem hn
  obtain ⟨tx, htx⟩ := (List.mem_ofFn' _ _).mp hmem
  refine ⟨tx, ?_⟩
  rw [(ho.satisfies.input tx).nullifier]
  exact (F.val_natCast_of_lt (hcanon n hn)).symm.trans (congrArg ZMod.val htx.symm)

theorem Checked.not_spent (h : Checked ext proof extData env) {n : U256}
    (hn : n ∈ proof.inputNullifiers) : ¬ Spent env n := by
  obtain ⟨nulls, hnulls, hunspent⟩ := h.unspent n hn
  rintro ⟨nulls', hnulls', hspent⟩
  cases Option.some.inj (hnulls.symm.trans hnulls')
  rw [hspent] at hunspent
  cases hunspent

/-- **The note was left.** -/
theorem Backs.mem_unspent (h : Backs P keys Q notes L env) (hcov : Covers P keys Q notes)
    (hchecked : Checked ext proof extData env) (hcanon : proof.Canonical) (ho : Opens P proof o)
    (hw : o.Within P keys Q) {tx : Fin 2} (hne : (o.2.input tx).inAmount ≠ 0) :
    (o.2.input tx).inPathIndices.val ∈ L.unspent := by
  obtain ⟨note, hnote, hcommit, -, hpubkey⟩ := h.opens hcov hchecked ho hw hne
  rw [NoteLedger.mem_unspent, h.amounts, List.length_map]
  refine ⟨(List.getElem?_eq_some_iff.mp hnote).1, fun hspent => h.spent _ hspent note hnote ?_⟩
  intro sk hsk hkey
  obtain rfl := hcov.key_inj hsk (hw.key tx) (hkey.trans hpubkey)
  rw [hcommit, F.natCast_val]
  exact hchecked.not_spent (ho.nullifier_mem hcanon tx)

/-- **Two inputs open two notes.** -/
theorem Backs.injOn (h : Backs P keys Q notes L env) (hcov : Covers P keys Q notes)
    (hchecked : Checked ext proof extData env) (ho : Opens P proof o) (hw : o.Within P keys Q) :
    Set.InjOn (fun tx => (o.2.input tx).inPathIndices.val)
      {tx | (o.2.input tx).inAmount ≠ 0} := by
  intro i hi j hj heq
  have heq : (o.2.input i).inPathIndices.val = (o.2.input j).inPathIndices.val := heq
  obtain ⟨note, hnote, hcommit, -, hpubkey⟩ := h.opens hcov hchecked ho hw hi
  obtain ⟨note', hnote', hcommit', -, hpubkey'⟩ := h.opens hcov hchecked ho hw hj
  rw [← heq, hnote, Option.some.injEq] at hnote'
  subst hnote'
  have hkey : (o.2.input i).inPrivateKey = (o.2.input j).inPrivateKey :=
    hcov.key_inj (hw.key i) (hw.key j) (hpubkey.symm.trans hpubkey')
  have hnull : (o.2.input i).inNullifier P = (o.2.input j).inNullifier P := by
    rw [Input.inNullifier, Input.inNullifier, hkey, ← hcommit, ← hcommit', F.val_injective heq]
  refine ho.satisfies.nullifier_injective ?_
  rw [← (ho.satisfies.input i).nullifier, ← (ho.satisfies.input j).nullifier, hnull]

/-! ### What passes the checks -/

/-- Field elements that are equal as sums of small integers are equal as integers. -/
theorem eq_of_intCast_eq {x y : ℤ} (h : (x : F) = y) (hlt : |x - y| < bn256Modulus) : x = y := by
  have hdvd : (bn256Modulus : ℤ) ∣ x - y := by
    rw [← ZMod.intCast_zmod_eq_zero_iff_dvd, Int.cast_sub, h, sub_self]
  exact sub_eq_zero.mp (Int.eq_zero_of_abs_lt_dvd hdvd hlt)

/-- An input's amount is small, as it is nothing or that of a note. -/
theorem Backs.inAmount_lt (h : Backs P keys Q notes L env) (hcov : Covers P keys Q notes)
    (hchecked : Checked ext proof extData env) (ho : Opens P proof o) (hw : o.Within P keys Q)
    (tx : Fin 2) : (o.2.input tx).inAmount.val < 2 ^ 248 := by
  by_cases hne : (o.2.input tx).inAmount = 0
  · rw [hne, ZMod.val_zero]
    exact Nat.two_pow_pos 248
  · obtain ⟨note, hnote, -, hamount, -⟩ := h.opens hcov hchecked ho hw hne
    rw [← hamount]
    exact h.lt note (List.mem_of_getElem? hnote)

/-- **The amounts add up over the integers**: the circuit's equation does not wrap. -/
theorem Backs.balanced (h : Backs P keys Q notes L env) (hcov : Covers P keys Q notes)
    (hchecked : Checked ext proof extData env) (ho : Opens P proof o) (hw : o.Within P keys Q) :
    (∑ tx, (o.2.input tx).inAmount.val : ℕ) + extData.extAmount.val =
      (∑ tx, (o.2.output tx).outAmount.val : ℕ) := by
  have h0 := h.inAmount_lt hcov hchecked ho hw 0
  have h1 := h.inAmount_lt hcov hchecked ho hw 1
  have hout0 : (o.2.output 0).outAmount.val < 2 ^ 248 := (ho.satisfies.output 0).amountCheck
  have hout1 : (o.2.output 1).outAmount.val < 2 ^ 248 := (ho.satisfies.output 1).amountCheck
  have hext := abs_lt.mp hchecked.amount_lt
  have hmod : 5 * 2 ^ 248 < bn256Modulus := by decide
  have hfield := ho.satisfies.invariant
  rw [(encodes_of_toList ho.pub).publicAmount, hchecked.publicAmount] at hfield
  refine eq_of_intCast_eq ?_ ?_
  · push_cast
    simpa only [F.natCast_val] using hfield
  · rw [Fin.sum_univ_two, Fin.sum_univ_two, abs_lt]
    push_cast
    omega

/-- The positions of the notes that an opening spends. -/
def spentBy (o : Opening) : Finset ℕ :=
  ({tx | (o.2.input tx).inAmount ≠ 0} : Finset (Fin 2)).image fun tx =>
    (o.2.input tx).inPathIndices.val

/-- The amounts of the notes that it makes. -/
def madeBy (o : Opening) : List ℕ :=
  List.ofFn fun tx => (o.2.output tx).outAmount.val

theorem Backs.spentBy_subset (h : Backs P keys Q notes L env) (hcov : Covers P keys Q notes)
    (hchecked : Checked ext proof extData env) (hcanon : proof.Canonical) (ho : Opens P proof o)
    (hw : o.Within P keys Q) : spentBy o ⊆ L.unspent := by
  intro i hi
  obtain ⟨tx, htx, rfl⟩ := Finset.mem_image.mp hi
  exact h.mem_unspent hcov hchecked hcanon ho hw (Finset.mem_filter.mp htx).2

theorem Backs.sum_spentBy (h : Backs P keys Q notes L env) (hcov : Covers P keys Q notes)
    (hchecked : Checked ext proof extData env) (ho : Opens P proof o) (hw : o.Within P keys Q) :
    ∑ i ∈ spentBy o, L.amount i = ∑ tx, (o.2.input tx).inAmount.val := by
  have hinj := h.injOn hcov hchecked ho hw
  have himage : ∑ i ∈ spentBy o, L.amount i =
      ∑ tx with (o.2.input tx).inAmount ≠ 0, L.amount (o.2.input tx).inPathIndices.val :=
    Finset.sum_image fun i hi j hj heq =>
      hinj (Finset.mem_filter.mp hi).2 (Finset.mem_filter.mp hj).2 heq
  have hworth : ∀ tx ∈ ({tx | (o.2.input tx).inAmount ≠ 0} : Finset (Fin 2)),
      L.amount (o.2.input tx).inPathIndices.val = (o.2.input tx).inAmount.val := by
    intro tx htx
    obtain ⟨note, hnote, -, hamount, -⟩ :=
      h.opens hcov hchecked ho hw (Finset.mem_filter.mp htx).2
    rw [NoteLedger.amount, h.amounts, List.getD_eq_getElem?_getD, List.getElem?_map, hnote,
      ← hamount]
    rfl
  rw [himage, Finset.sum_congr rfl hworth]
  refine Finset.sum_subset (Finset.filter_subset _ _) fun tx _ hno => ?_
  rw [Finset.mem_filter, not_and, not_not] at hno
  rw [hno (Finset.mem_univ tx), ZMod.val_zero]

/-- **What an opening spends is there**: its inputs are worth no more than what is left. -/
theorem Backs.inputs_le_value (h : Backs P keys Q notes L env) (hcov : Covers P keys Q notes)
    (hchecked : Checked ext proof extData env) (hcanon : proof.Canonical) (ho : Opens P proof o)
    (hw : o.Within P keys Q) : ∑ tx, (o.2.input tx).inAmount.val ≤ L.value := by
  rw [← h.sum_spentBy hcov hchecked ho hw]
  exact NoteLedger.sum_le_value (h.spentBy_subset hcov hchecked hcanon ho hw)

/-! ### Steps -/

theorem spent_congr {n : U256} (h : env'.store.pool.nullifiers = env.store.pool.nullifiers) :
    Spent env' n ↔ Spent env n := by
  rw [Spent, Spent, h]

/-- A chain with the same tree and the same nullifiers stands for the same ledger. -/
theorem Backs.congr (h : Backs P keys Q notes L env) (hmerkle : merkleEnv env' = merkleEnv env)
    (hnulls : env'.store.pool.nullifiers = env.store.pool.nullifiers) :
    Backs P keys Q notes L env' where
  amounts := h.amounts
  holds := by
    rw [hmerkle]
    exact h.holds
  nullifiers := by
    rw [hnulls]
    exact h.nullifiers
  lt := h.lt
  spent i hi note hnote hno := h.spent i hi note hnote fun sk hsk hkey => by
    rw [← spent_congr hnulls]
    exact hno sk hsk hkey
  origin n hn := h.origin n ((spent_congr hnulls).mp hn)

theorem Accepted.spent_iff {auths : List Address} {sender : Address}
    (h : Accepted ext P auths proof extData sender env env') {n : U256}
    (hsome : env.store.pool.nullifiers.isSome) :
    Spent env' n ↔ n ∈ proof.inputNullifiers ∨ Spent env n := by
  obtain ⟨nulls, hnulls⟩ := Option.isSome_iff_exists.mp hsome
  have hafter : env'.store.pool.nullifiers = some (markAll proof.inputNullifiers nulls) := by
    rw [h.pool, hnulls]
    rfl
  rw [Spent, Spent, hafter, hnulls]
  simp only [Option.some.injEq, exists_eq_left', markAll]
  by_cases hn : n ∈ proof.inputNullifiers
  · simp [hn]
  · simp [hn]

/-- **A transaction of the pool is one of the ledger.** -/
theorem Backs.transact (h : Backs P keys Q notes L env) (hz : ZeroTable P)
    (hcov : Covers P keys Q notes) {auths : List Address} {sender : Address}
    (hacc : Accepted ext P auths proof extData sender env env') (hcanon : proof.Canonical)
    (ho : Opens P proof o) (hw : o.Within P keys Q) :
    Backs P keys Q (notes ++ [o.2.output 0, o.2.output 1])
      (L.transact (spentBy o) (madeBy o)
        (h.spentBy_subset hcov hacc.checked hcanon ho hw)) env' where
  amounts := by
    rw [NoteLedger.amounts_transact, h.amounts, List.map_append]
    rfl
  holds := by
    obtain ⟨idx, hins⟩ := hacc.inserted
    obtain ⟨-, -, -, hholds⟩ := h.holds.of_insertTwoLeaves hz (by decide) (by decide) hins
    have henc := encodes_of_toList ho.pub
    rw [← henc.outputCommitment0, ← henc.outputCommitment1,
      ← (ho.satisfies.output 0).commitment, ← (ho.satisfies.output 1).commitment] at hholds
    rw [List.map_append]
    exact hholds
  nullifiers := by
    obtain ⟨nulls, hnulls⟩ := Option.isSome_iff_exists.mp h.nullifiers
    rw [hacc.pool, hnulls]
    rfl
  lt := by
    rw [List.forall_mem_append]
    refine ⟨h.lt, ?_⟩
    rw [List.forall_mem_cons, List.forall_mem_singleton]
    exact ⟨(ho.satisfies.output 0).amountCheck, (ho.satisfies.output 1).amountCheck⟩
  spent i hi note hnote hno := by
    have hlt : i < notes.length := by
      have := Finset.mem_range.mp ((Finset.union_subset L.spent_subset
        ((h.spentBy_subset hcov hacc.checked hcanon ho hw).trans Finset.sdiff_subset)) hi)
      rwa [h.amounts, List.length_map] at this
    rw [List.getElem?_append_left hlt] at hnote
    rw [NoteLedger.spent_transact] at hi
    rcases Finset.mem_union.mp hi with hold | hnew
    · refine h.spent i hold note hnote fun sk hsk hkey hspent => hno sk hsk hkey ?_
      exact (hacc.spent_iff h.nullifiers).mpr (Or.inr hspent)
    · obtain ⟨tx, htx, rfl⟩ := Finset.mem_image.mp hnew
      obtain ⟨note', hnote', hcommit, -, hpubkey⟩ :=
        h.opens hcov hacc.checked ho hw (Finset.mem_filter.mp htx).2
      obtain rfl := Option.some.inj (hnote.symm.trans hnote')
      refine hno _ (hw.key tx) hpubkey.symm ?_
      rw [hcommit, F.natCast_val]
      exact (hacc.spent_iff h.nullifiers).mpr (Or.inl (ho.nullifier_mem hcanon tx))
  origin n hn := by
    rcases (hacc.spent_iff h.nullifiers).mp hn with hnew | hold
    · obtain ⟨tx, rfl⟩ := ho.exists_input hcanon hnew
      refine ⟨_, _, _, _, _, rfl, commitmentQuery_mem hw tx, nullifierQuery_mem hw tx, ?_⟩
      by_cases hne : (o.2.input tx).inAmount = 0
      · exact Or.inl hne
      · refine Or.inr (Finset.mem_union_right _ (Finset.mem_image.mpr ⟨tx, ?_, rfl⟩))
        exact Finset.mem_filter.mpr ⟨Finset.mem_univ tx, hne⟩
    · obtain ⟨sk, amount, pubkey, blinding, path, heq, hcommit, hnull, hor⟩ := h.origin n hold
      exact ⟨sk, amount, pubkey, blinding, path, heq, hcommit, hnull,
        hor.imp_right fun hmem => Finset.mem_union_left _ hmem⟩

/-! ### Balances -/

/-- The account signs no call. -/
def Action.NotSignedBy (x : Address) : Action → Prop
  | .transact auths _ _ _ => x ∉ auths
  | _ => True

/-- What an action gives the pool without a note: tokens that others send it, and a withdrawal to
the pool itself. -/
def windfall (ext : Externals) (P : Poseidon2) (token : Address) (env : Env Chain) : Action → ℤ
  | .transact auths proof extData sender =>
      if (acceptedProof ext P env (.transact auths proof extData sender)).isSome ∧
          extData.extAmount.val < 0 ∧ extData.recipient = ext.self then
        -extData.extAmount.val
      else 0
  | a => a.gain token ext.self

/-- What a run gives the pool without a note. -/
def windfalls (ext : Externals) (P : Poseidon2) (token : Address) :
    Env Chain → List Action → ℤ
  | _, [] => 0
  | env, a :: rest => windfall ext P token env a + windfalls ext P token (step ext P env a) rest

theorem settled_self {self sender recipient : Address} (hne : sender ≠ self) (x : ℤ)
    (b : Balances) : settled self x sender recipient b self =
      b self + x + if x < 0 ∧ recipient = self then -x else 0 := by
  unfold settled
  rcases lt_trichotomy x 0 with hneg | rfl | hpos
  · rw [if_neg (by omega), if_pos hneg, Balances.move, if_pos rfl]
    by_cases hto : recipient = self
    · rw [if_pos hto.symm, if_pos ⟨hneg, hto⟩]
      omega
    · rw [if_neg (Ne.symm hto), if_neg fun h => hto h.2]
      omega
  · rw [if_neg (lt_irrefl _), if_neg (lt_irrefl _), if_neg fun h => lt_irrefl _ h.1]
    omega
  · rw [if_pos hpos, Balances.move, if_neg hne.symm, if_pos rfl, if_neg fun h => by omega]
    omega

variable {token : Address}

theorem Accepted.balance {auths : List Address} {sender : Address}
    (h : Accepted ext P auths proof extData sender env env')
    (htoken : env.store.pool.token = some token) (hself : ext.self ∉ auths) :
    env'.store.balances token ext.self =
      env.store.balances token ext.self + extData.extAmount.val +
        if extData.extAmount.val < 0 ∧ extData.recipient = ext.self then -extData.extAmount.val
        else 0 := by
  obtain ⟨token', htoken', hbalances, -, -⟩ := h.moved
  obtain rfl := Option.some.inj (htoken.symm.trans htoken')
  have hne : sender ≠ ext.self := fun heq => hself (heq ▸ h.authorised)
  rw [hbalances, Function.update_self, settled_self hne]

/-! ### Runs -/

/-- **Over every run** the chain goes on standing for a ledger, and the pool's balance moves as the
ledger's value does, windfalls apart. -/
theorem Backs.of_run (hz : ZeroTable P) : ∀ {actions : List Action} {env : Env Chain}
    {notes : List Output} {L : NoteLedger} {os : List Opening},
    (∀ a ∈ actions, a.Canonical) → (∀ a ∈ actions, a.NotSignedBy ext.self) →
    Backs P keys Q notes L env → env.store.pool.token = some token →
    List.Forall₂ (Opens P) (accepted ext P env actions) os →
    (∀ o ∈ os, Opening.Within P keys Q o) → Covers P keys Q (notes ++ notesOf os) →
    ∃ L', Backs P keys Q (notes ++ notesOf os) L' (run ext P env actions) ∧
      (run ext P env actions).store.pool.token = some token ∧
      (run ext P env actions).store.balances token ext.self =
        env.store.balances token ext.self + windfalls ext P token env actions + L'.value - L.value
  | [], env, notes, L, os, _, _, h, htoken, hos, _, _ => by
      obtain rfl : os = [] := List.forall₂_nil_left_iff.mp hos
      refine ⟨L, ?_, htoken, ?_⟩
      · rw [notesOf, List.flatMap_nil, List.append_nil]
        exact h
      · rw [windfalls, run, List.foldl_nil]
        omega
  | a :: rest, env, notes, L, os, hcanon, hself, h, htoken, hos, hw, hcov => by
      obtain ⟨hcanon, hcanonRest⟩ := List.forall_mem_cons.mp hcanon
      obtain ⟨hself, hselfRest⟩ := List.forall_mem_cons.mp hself
      obtain ⟨auths, proof, extData, sender, rfl, hproof, hacc⟩ | ⟨hnone, hquiet⟩ :=
        step_cases ext P env a
      · rw [accepted_cons_some hproof] at hos
        obtain ⟨o, os, ho, hosRest, rfl⟩ := List.forall₂_cons_left_iff.mp hos
        obtain ⟨hwo, hwRest⟩ := List.forall_mem_cons.mp hw
        have hmore : notes ++ notesOf (o :: os) =
            notes ++ [o.2.output 0, o.2.output 1] ++ notesOf os := by
          rw [notesOf, List.flatMap_cons, List.append_assoc]
          rfl
        rw [hmore] at hcov ⊢
        have hcovNotes := hcov.of_append.of_append
        have hstep := h.transact hz hcovNotes hacc hcanon ho hwo
        have htoken' : (step ext P env (.transact auths proof extData sender)).store.pool.token =
            some token := by
          rw [hacc.pool]
          exact htoken
        obtain ⟨L', hL', hend, hbalance⟩ :=
          Backs.of_run hz hcanonRest hselfRest hstep htoken' hosRest hwRest hcov
        refine ⟨L', hL', hend, ?_⟩
        have hsubset := h.spentBy_subset hcovNotes hacc.checked hcanon ho hwo
        have hvalue : (L.transact (spentBy o) (madeBy o) hsubset).value +
            ∑ i ∈ spentBy o, L.amount i = L.value + (madeBy o).sum :=
          NoteLedger.value_transact hsubset
        have hsum := h.sum_spentBy hcovNotes hacc.checked ho hwo
        have hbal := h.balanced hcovNotes hacc.checked ho hwo
        have hmade : (madeBy o).sum = ∑ tx, (o.2.output tx).outAmount.val := by
          rw [Fin.sum_univ_two]
          rfl
        rw [hsum, hmade] at hvalue
        have hvalue : ((_ + _ : ℕ) : ℤ) = (_ + _ : ℕ) := congrArg Nat.cast hvalue
        rw [Nat.cast_add, Nat.cast_add] at hvalue
        rw [run_cons, hbalance, hacc.balance htoken hself, windfalls, windfall, hproof]
        simp only [Option.isSome_some, true_and]
        omega
      · have hmerkle : merkleEnv (step ext P env a) = merkleEnv env := by
          rw [merkleEnv, merkleEnv, hquiet.merkle, hquiet.hashed]
        rw [accepted_cons_none hnone] at hos
        obtain ⟨L', hL', hend, hbalance⟩ := Backs.of_run hz hcanonRest hselfRest
          (h.congr hmerkle hquiet.nullifiers) (hquiet.token.trans htoken) hos hw hcov
        refine ⟨L', hL', hend, ?_⟩
        have hgift : windfall ext P token env a = a.gain token ext.self := by
          cases a with
          | transact auths proof extData sender =>
              rw [windfall, hnone, if_neg (fun h => Bool.false_ne_true h.1)]
              rfl
          | _ => rfl
        rw [run_cons, hbalance, hquiet.balances, windfalls, hgift]
        omega

/-! ### What is left, by the nullifier map -/

open Classical in
/-- The integer sum of the notes whose nullifier is not in the map. -/
noncomputable def unspentValue (P : Poseidon2) (keys : Set F) (notes : List Output)
    (env : Env Chain) : ℕ :=
  ∑ i : Fin notes.length,
    if NotSpent P keys env (notes.get i) i then (notes.get i).outAmount.val else 0

/-- A note that is left in the ledger and whose nullifier is in the map has no amount. -/
theorem Backs.outAmount_eq_zero (h : Backs P keys Q notes L env) (hcov : Covers P keys Q notes)
    {i : ℕ} {note : Output} (hnote : notes[i]? = some note) (hi : i ∉ L.spent)
    (hmarked : ¬ NotSpent P keys env note i) : note.outAmount = 0 := by
  unfold NotSpent at hmarked
  push Not at hmarked
  obtain ⟨sk, hsk, -, hspent⟩ := hmarked
  obtain ⟨sk', amount, pubkey, blinding, path, heq, hcommit, hnull, hor⟩ := h.origin _ hspent
  have hmine := hcov.spend sk hsk i note hnote
  rw [spendQueries, List.forall_mem_cons, List.forall_mem_singleton] at hmine
  obtain ⟨hopened, hpath, -⟩ :=
    Query.hash3.inj (hcov.collisionFree hmine.2 hnull (F.val_injective heq))
  obtain ⟨hamount, -⟩ := hcov.note_eq (List.mem_of_getElem? hnote) hcommit hopened.symm
  rw [← hamount]
  refine hor.resolve_right fun hmem => hi ?_
  have hlen := h.holds.length_le
  rw [List.length_map] at hlen
  have hlt := (List.getElem?_eq_some_iff.mp hnote).1
  have hmod : 2 ^ 10 < bn256Modulus := by decide
  rwa [← hpath, F.val_natCast_of_lt (by omega)] at hmem

/-- **The map knows what is left**: notes without an amount apart, a nullifier is in the map if
and only if the ledger has its note as spent. -/
theorem Backs.unspentValue_eq (h : Backs P keys Q notes L env) (hcov : Covers P keys Q notes) :
    unspentValue P keys notes env = L.value := by
  have hlen : L.amounts.length = notes.length := by rw [h.amounts, List.length_map]
  have hsum : L.value = ∑ i ∈ Finset.range notes.length, if i ∈ L.spent then 0 else L.amount i := by
    rw [NoteLedger.value, NoteLedger.unspent, hlen, Finset.sdiff_eq_filter, Finset.sum_filter]
    exact Finset.sum_congr rfl fun i _ => by rw [ite_not]
  rw [hsum, Finset.sum_range, unspentValue]
  refine Finset.sum_congr rfl fun i _ => ?_
  have hnote : notes[(i : ℕ)]? = some (notes.get i) := List.getElem?_eq_getElem i.isLt
  have hamount : L.amount i = (notes.get i).outAmount.val := by
    rw [NoteLedger.amount, h.amounts, List.getD_eq_getElem?_getD, List.getElem?_map, hnote]
    rfl
  by_cases hspent : (i : ℕ) ∈ L.spent
  · rw [if_pos hspent, if_neg (h.spent i hspent _ hnote)]
  · rw [if_neg hspent, hamount]
    by_cases hmarked : NotSpent P keys env (notes.get i) i
    · rw [if_pos hmarked]
    · rw [if_neg hmarked, h.outAmount_eq_zero hcov hnote hspent hmarked, ZMod.val_zero]

/-! ### From the constructor on -/

/-- A pool of ten levels for a token, right after its constructor. -/
def Fresh (token : Address) (env : Env Chain) : Prop :=
  ∃ (admin verifier aspMembership aspNonMembership : Address) (maximumDepositAmount : U256)
    (env₀ : Env Chain), env₀.store.pool.merkle = blank ∧
    constructor admin token verifier aspMembership aspNonMembership maximumDepositAmount 10 env₀ =
      .ok ((), env)

theorem Fresh.backs (hz : ZeroTable P) (h : Fresh token env) (keys : Set F) (Q : Set Query) :
    env.store.pool.token = some token ∧ Backs P keys Q [] NoteLedger.empty env := by
  obtain ⟨admin, verifier, aspMembership, aspNonMembership, max, env₀, hblank, hnew⟩ := h
  rw [constructor_apply hblank (by decide) (by decide), Except.ok.injEq, Prod.mk.injEq] at hnew
  obtain ⟨-, rfl⟩ := hnew
  refine ⟨rfl, rfl, holds_initialised hz (by decide) _, rfl, fun note hnote => ?_, fun i hi => ?_,
    fun n hn => ?_⟩
  · cases hnote
  · cases hi
  · obtain ⟨nulls, hnulls, hn⟩ := hn
    cases hnulls
    cases hn

theorem map_noteCommitment_notesOf {proofs : List Proof} {os : List Opening}
    (h : List.Forall₂ (Opens P) proofs os) :
    (notesOf os).map (noteCommitment P) =
      (proofs.flatMap fun proof => [proof.outputCommitment0, proof.outputCommitment1]).map
        (Nat.cast : ℕ → F) := by
  induction h with
  | nil => rfl
  | @cons proof o proofs os ho _ ih =>
      have henc := encodes_of_toList ho.pub
      rw [List.flatMap_cons, List.map_append, ← ih, List.map_cons, List.map_singleton,
        ← henc.outputCommitment0, ← henc.outputCommitment1,
        ← (ho.satisfies.output 0).commitment, ← (ho.satisfies.output 1).commitment]
      rfl

theorem covers_evaluations {os os' : List Opening} (hsub : os ⊆ os')
    (hholds : Holds P 10 ((notesOf os).map (noteCommitment P)) (merkleEnv env))
    (hc : P.CollisionFree (evaluations P keys (notesOf os) os' env)) :
    Covers P keys (evaluations P keys (notesOf os) os' env) (notesOf os) where
  collisionFree := hc
  tree n hn p hp := by
    rcases hholds.hashed n hn p hp with hlog | ⟨l, hl, rfl⟩
    · exact Or.inl hlog
    · exact Or.inr (Or.inr (Or.inl ⟨l, hl, rfl⟩))
  note note hnote := by
    obtain ⟨o, ho, hmem⟩ := List.mem_flatMap.mp hnote
    refine Or.inr (Or.inl ⟨o, hsub ho, ?_⟩)
    rcases List.mem_pair.mp hmem with rfl | rfl
    · exact Witness.output_query_mem 0
    · exact Witness.output_query_mem 1
  key sk hsk := Or.inr (Or.inr (Or.inr ⟨sk, hsk, Or.inl rfl⟩))
  spend sk hsk i note hnote q hq := Or.inr (Or.inr (Or.inr ⟨sk, hsk, Or.inr ⟨i, note, hnote, hq⟩⟩))

/-- The keys of the openings are in view, and none of their inputs is the zero leaf. -/
def Known (P : Poseidon2) (keys : Set F) (os : List Opening) : Prop :=
  ∀ o ∈ os, ∀ tx, (o.2.input tx).inPrivateKey ∈ keys ∧ (o.2.input tx).inCommitment P ≠ zeroAt 0

theorem within_evaluations {os : List Opening} (h : Known P keys os) :
    ∀ o ∈ os, o.Within P keys (evaluations P keys notes os env) := fun o ho =>
  ⟨fun tx => (h o ho tx).1, fun _ hq => Or.inr (Or.inl ⟨o, ho, hq⟩), fun tx => (h o ho tx).2⟩

/-- A run of a new pool ends in a chain that stands for a ledger, with the ledger's value and the
windfalls as its balance. -/
theorem Fresh.of_run (hz : ZeroTable P) (h : Fresh token env) (hcanon : ∀ a ∈ actions, a.Canonical)
    (hself : ∀ a ∈ actions, a.NotSignedBy ext.self) {os os' : List Opening} (hsub : os ⊆ os')
    (hos : List.Forall₂ (Opens P) (accepted ext P env actions) os) (hknown : Known P keys os')
    (hc : P.CollisionFree (evaluations P keys (notesOf os) os' (run ext P env actions))) :
    Covers P keys (evaluations P keys (notesOf os) os' (run ext P env actions)) (notesOf os) ∧
    ∃ L, Backs P keys (evaluations P keys (notesOf os) os' (run ext P env actions)) (notesOf os) L
        (run ext P env actions) ∧
      (run ext P env actions).store.balances token ext.self =
        env.store.balances token ext.self + windfalls ext P token env actions + L.value := by
  obtain ⟨htoken, hbacks⟩ :=
    h.backs hz keys (evaluations P keys (notesOf os) os' (run ext P env actions))
  have hholds := @holds_inserted ext P env 10 [] hz (by decide) (by decide) hbacks.holds actions
  rw [List.nil_append, inserted, ← map_noteCommitment_notesOf hos] at hholds
  have hcov := covers_evaluations hsub hholds hc
  refine ⟨hcov, ?_⟩
  obtain ⟨L, hL, -, hbalance⟩ := hbacks.of_run hz hcanon hself htoken hos
    (fun o ho => within_evaluations hknown o (hsub ho)) hcov
  refine ⟨L, hL, ?_⟩
  rw [hbalance, NoteLedger.value_empty]
  omega

/-- **Conservation**: after every run of a new pool, with every nullifier canonical and no call
signed by the pool, the openings that the verifier stands for make notes, and the pool holds what
it held, the windfalls, and exactly the amounts of the notes whose nullifier is not in the map. -/
theorem balance_eq_unspent (hv : PolicyVerifier ext P) (hz : ZeroTable P) (h : Fresh token env)
    (hcanon : ∀ a ∈ actions, a.Canonical) (hself : ∀ a ∈ actions, a.NotSignedBy ext.self) :
    (∃ os, List.Forall₂ (Opens P) (accepted ext P env actions) os) ∧
    ∀ (os : List Opening) (keys : Set F),
      List.Forall₂ (Opens P) (accepted ext P env actions) os → Known P keys os →
      P.CollisionFree (evaluations P keys (notesOf os) os (run ext P env actions)) →
      (run ext P env actions).store.balances token ext.self =
        env.store.balances token ext.self + windfalls ext P token env actions +
          unspentValue P keys (notesOf os) (run ext P env actions) := by
  refine ⟨SoundVerifier.exists_openings hv.sound env actions, fun os keys hos hknown hc => ?_⟩
  obtain ⟨hcov, L, hL, hbalance⟩ :=
    h.of_run hz hcanon hself (List.Subset.refl os) hos hknown hc
  rw [hbalance, hL.unspentValue_eq hcov]

/-- **Withdrawals are covered**: whatever passes the checks after such a run has inputs and outputs
that add up over the integers, and takes no more from the pool than its notes are worth. -/
theorem withdrawals_covered (hv : PolicyVerifier ext P) (hz : ZeroTable P) (h : Fresh token env)
    (hcanon : ∀ a ∈ actions, a.Canonical) (hself : ∀ a ∈ actions, a.NotSignedBy ext.self)
    {proof : Proof} {extData : ExtData}
    (hchecks : checks ext proof extData (run ext P env actions) = .ok ((), env'))
    (hproof : proof.Canonical) :
    (∃ o, Opens P proof o) ∧
    ∀ (o : Opening) (os : List Opening) (keys : Set F), Opens P proof o →
      List.Forall₂ (Opens P) (accepted ext P env actions) os → Known P keys (o :: os) →
      P.CollisionFree (evaluations P keys (notesOf os) (o :: os) (run ext P env actions)) →
      (∑ tx, (o.2.input tx).inAmount.val : ℕ) + extData.extAmount.val =
        (∑ tx, (o.2.output tx).outAmount.val : ℕ) ∧
      ∑ tx, (o.2.input tx).inAmount.val ≤
        unspentValue P keys (notesOf os) (run ext P env actions) ∧
      (0 ≤ env.store.balances token ext.self + windfalls ext P token env actions →
        -extData.extAmount.val ≤ (run ext P env actions).store.balances token ext.self) := by
  obtain ⟨-, hchecked⟩ := checks_ok hchecks
  refine ⟨SoundVerifier.exists_opens hv.sound hchecked, fun o os keys ho hos hknown hc => ?_⟩
  obtain ⟨hcov, L, hL, hbalance⟩ :=
    h.of_run hz hcanon hself (List.subset_cons_self o os) hos hknown hc
  have hw : o.Within P keys
      (evaluations P keys (notesOf os) (o :: os) (run ext P env actions)) :=
    within_evaluations hknown o List.mem_cons_self
  have hbalanced := hL.balanced hcov hchecked ho hw
  have hle := hL.inputs_le_value hcov hchecked hproof ho hw
  refine ⟨hbalanced, ?_, fun h0 => ?_⟩
  · rw [hL.unspentValue_eq hcov]
    exact hle
  · rw [hbalance]
    omega

/-! ### A sample run -/

/-- Two inputs and two outputs of the sample's key, with 2 as blinding. -/
def blinded (ins : Fin 2 → F × F × (Fin 10 → F)) (outs : Fin 2 → F) : PolicyWitness where
  input tx := { sampleInput (ins tx).1 (ins tx).2.1 (ins tx).2.2 with inBlinding := (2 : ℕ) }
  output tx := ⟨outs tx, samplePubkey, (2 : ℕ)⟩

/-- What they state. -/
def blindedOpening (root publicAmount : F) (ins : Fin 2 → F × F × (Fin 10 → F))
    (outs : Fin 2 → F) : Opening :=
  (statement root publicAmount (blinded ins outs), blinded ins outs)

/-- A deposit of 7 into the empty tree. -/
def solventDeposit : Opening :=
  blindedOpening (zeroAt 10) (7 : ℕ) ![(0, 0, fun _ => 0), (0, 1, fun _ => 0)] ![(7 : ℕ), 0]

/-- The path of its first output. -/
def solventPath (l : Fin 10) : F :=
  if l.val = 0 then commitment zeroPoseidon2 0 samplePubkey (2 : ℕ) else zeroAt l

/-- A withdrawal of 3 of the 7. -/
def solventWithdrawal : Opening :=
  blindedOpening (rootOf zeroPoseidon2 10 [commitment zeroPoseidon2 (7 : ℕ) samplePubkey (2 : ℕ),
      commitment zeroPoseidon2 0 samplePubkey (2 : ℕ)]) (-(3 : ℕ))
    ![((7 : ℕ), 0, solventPath), (0, (2 : ℕ), fun _ => 0)] ![(4 : ℕ), 0]

theorem satisfies_blindedOpening {root publicAmount : F} {ins : Fin 2 → F × F × (Fin 10 → F)}
    {outs : Fin 2 → F} (hpath : ∀ tx, num2Bits 10 (ins tx).2.1)
    (hroot : ∀ tx, (ins tx).1 = 0 ∨
      root = ((blinded ins outs).input tx).inTreeRoot zeroPoseidon2)
    (houts : ∀ tx, num2Bits 248 (outs tx))
    (hne : ((blinded ins outs).input 0).inNullifier zeroPoseidon2 ≠
      ((blinded ins outs).input 1).inNullifier zeroPoseidon2)
    (hsum : ∑ tx, (ins tx).1 + publicAmount = ∑ tx, outs tx) :
    (blindedOpening root publicAmount ins outs).2.Satisfies zeroPoseidon2
      (blindedOpening root publicAmount ins outs).1 where
  input tx := ⟨rfl, hpath tx, forceEqualIfEnabled_iff.mpr (hroot tx),
    fun _ => membershipProof_sample, fun _ => nonMembershipProof_sample⟩
  output tx := ⟨rfl, houts tx⟩
  sameNullifiers i j hij := by
    obtain ⟨rfl, rfl⟩ : i = 0 ∧ j = 1 := by omega
    rw [isEqual_eq]
    exact if_neg hne
  invariant := hsum

/-- A verifier of the two statements. -/
def solventExternals : Externals where
  self := .contract 0
  token := sampleToken
  verify := fun _ _ xs => some (decide (xs.map (Nat.cast : ℕ → F) = solventDeposit.1.toList ∨
    xs.map (Nat.cast : ℕ → F) = solventWithdrawal.1.toList))
  keccakXdr := fun _ => 0

theorem satisfies_solventDeposit :
    solventDeposit.2.Satisfies zeroPoseidon2 solventDeposit.1 :=
  satisfies_blindedOpening (by decide +kernel) (by decide +kernel) (by decide +kernel)
    (by decide +kernel) (by decide +kernel)

theorem satisfies_solventWithdrawal :
    solventWithdrawal.2.Satisfies zeroPoseidon2 solventWithdrawal.1 :=
  satisfies_blindedOpening (by decide +kernel) (by decide +kernel) (by decide +kernel)
    (by decide +kernel) (by decide +kernel)

theorem policyVerifier_solvent : PolicyVerifier solventExternals zeroPoseidon2 where
  residue _ _ xs ys heq := by
    simp only [solventExternals, heq]
  sound _ _ xs hxs := by
    obtain heq | heq := of_decide_eq_true (Option.some.inj hxs)
    · exact ⟨_, _, heq.symm, satisfies_solventDeposit⟩
    · exact ⟨_, _, heq.symm, satisfies_solventWithdrawal⟩

/-- An amount, zero if it has too many digits. -/
def i256 (v : ℤ) : I256 := if h : -2 ^ 255 ≤ v ∧ v < 2 ^ 255 then ⟨v, h⟩ else default

/-- The transaction of an opening, signed by an account. -/
def solventAction (o : Opening) (extAmount : I256) : Action :=
  .transact [.account 1] (proofOf 0 o.1) ⟨.account 1, extAmount, [], []⟩ (.account 1)

/-- The two transactions. -/
def solventRun : List Action :=
  [solventAction solventDeposit (i256 7), solventAction solventWithdrawal (i256 (-3))]

theorem fresh_samplePool : Fresh (.contract 1) samplePool := by
  have happly := @constructor_apply
    ⟨{ pool := ⟨none, none, none, none, none, none, none, blank, []⟩
       balances := fun _ x => if x = .contract 0 ∨ x = .account 1 then 100 else 0
       aspRoot := fun asp => if asp = .contract 3 then some sampleMembershipRoot.val else some 0 },
      []⟩ (.account 0) (.contract 1) (.contract 2) (.contract 3) (.contract 4) 1000 10 rfl
    (by decide) (by decide)
  rw [samplePool, Host.after_of_ok happly]
  exact ⟨_, _, _, _, _, _, by rfl, happly⟩

theorem canonical_solventRun : ∀ a ∈ solventRun, a.Canonical := by
  rw [solventRun, List.forall_mem_cons, List.forall_mem_singleton]
  unfold solventAction Action.Canonical Proof.Canonical
  decide +kernel

theorem notSignedBy_solventRun : ∀ a ∈ solventRun, a.NotSignedBy solventExternals.self := by
  rw [solventRun, List.forall_mem_cons, List.forall_mem_singleton]
  unfold solventAction Action.NotSignedBy
  decide

/-- The evaluations in view of one key, as a list. -/
def evaluationList (P : Poseidon2) (sk : F) (notes : List Output) (os : List Opening)
    (env : Env Chain) : List Query :=
  env.hashed ++ (os.flatMap fun o => o.2.queries P o.1) ++
    ((List.range 10).map fun l => .compress (zeroAt l) (zeroAt l)) ++
    .hash2 sk 0 (3 : ℕ) :: notes.zipIdx.flatMap fun p => spendQueries P sk p.1 p.2

theorem evaluations_subset (sk : F) (notes : List Output) (os : List Opening) (env : Env Chain) :
    evaluations P {sk} notes os env ⊆ {q | q ∈ evaluationList P sk notes os env} := by
  rintro q (hlog | ⟨o, ho, hq⟩ | ⟨l, hl, rfl⟩ | ⟨sk', rfl, rfl | ⟨i, note, hnote, hq⟩⟩)
  · exact List.mem_append_left _ (List.mem_append_left _ (List.mem_append_left _ hlog))
  · exact List.mem_append_left _ (List.mem_append_left _ (List.mem_append_right _
      (List.mem_flatMap.mpr ⟨o, ho, hq⟩)))
  · exact List.mem_append_left _ (List.mem_append_right _
      (List.mem_map_of_mem (List.mem_range.mpr hl)))
  · exact List.mem_append_right _ List.mem_cons_self
  · refine List.mem_append_right _ (List.mem_cons_of_mem _
      (List.mem_flatMap.mpr ⟨(note, i), ?_, hq⟩))
    exact List.mem_zipIdx_iff_getElem?.mpr hnote

theorem collisionFree_evaluations {sk : F} {os : List Opening}
    (h : cleanLog P (evaluationList P sk notes os env).dedup = true) :
    P.CollisionFree (evaluations P {sk} notes os env) :=
  (collisionFree_of_cleanLog h).1.mono fun _ hq =>
    List.mem_dedup.mpr (evaluations_subset sk notes os env hq)

theorem known_solventRun : Known zeroPoseidon2 {1} [solventDeposit, solventWithdrawal] := by
  unfold Known
  rw [List.forall_mem_cons, List.forall_mem_singleton]
  refine ⟨fun tx => ⟨rfl, ?_⟩, fun tx => ⟨rfl, ?_⟩⟩
  · revert tx
    decide +kernel
  · revert tx
    decide +kernel

theorem acceptedProof_of_isSome {auths : List Address} {sender : Address}
    (h : (acceptedProof ext P env (.transact auths proof extData sender)).isSome) :
    acceptedProof ext P env (.transact auths proof extData sender) = some proof := by
  cases hr : transact ext P auths proof extData sender env with
  | error e =>
      rw [acceptedProof, hr] at h
      cases h
  | ok p => rw [acceptedProof, hr]

theorem opens_solventDeposit :
    Opens zeroPoseidon2 (proofOf 0 solventDeposit.1) solventDeposit :=
  ⟨by decide +kernel, satisfies_solventDeposit⟩

theorem opens_solventWithdrawal :
    Opens zeroPoseidon2 (proofOf 0 solventWithdrawal.1) solventWithdrawal :=
  ⟨by decide +kernel, satisfies_solventWithdrawal⟩

theorem acceptedProof_solventDeposit : acceptedProof solventExternals zeroPoseidon2 samplePool
    (solventAction solventDeposit (i256 7)) = some (proofOf 0 solventDeposit.1) :=
  acceptedProof_of_isSome (by decide +kernel)

theorem accepted_solventRun : List.Forall₂ (Opens zeroPoseidon2)
    (accepted solventExternals zeroPoseidon2 samplePool solventRun)
    [solventDeposit, solventWithdrawal] := by
  rw [solventRun, accepted_cons_some acceptedProof_solventDeposit, solventAction, solventAction,
    accepted_cons_some (acceptedProof_of_isSome (by decide +kernel))]
  exact .cons opens_solventDeposit (.cons opens_solventWithdrawal .nil)

/-- Of the 7 that came in 3 went out, and 4 are left. -/
theorem balance_eq_unspent_sample :
    (run solventExternals zeroPoseidon2 samplePool solventRun).store.balances (.contract 1)
      (.contract 0) = 104 ∧
    unspentValue zeroPoseidon2 {1} (notesOf [solventDeposit, solventWithdrawal])
      (run solventExternals zeroPoseidon2 samplePool solventRun) = 4 := by
  have hend : (run solventExternals zeroPoseidon2 samplePool solventRun).store.balances
      (.contract 1) (.contract 0) = 104 := by decide +kernel
  have hstart : samplePool.store.balances (.contract 1) (.contract 0) = 100 := by decide +kernel
  have hwindfalls : windfalls solventExternals zeroPoseidon2 (.contract 1) samplePool solventRun =
      0 := by decide +kernel
  have hcons := (balance_eq_unspent policyVerifier_solvent zeroTable_zeroPoseidon2
    fresh_samplePool canonical_solventRun notSignedBy_solventRun).2
    [solventDeposit, solventWithdrawal] {1} accepted_solventRun known_solventRun
    (collisionFree_evaluations (by decide +kernel))
  have hself : solventExternals.self = .contract 0 := rfl
  rw [hself, hend, hstart, hwindfalls] at hcons
  exact ⟨hend, by omega⟩

/-- The pool after the deposit. -/
def solventPool : Env Chain :=
  run solventExternals zeroPoseidon2 samplePool [solventAction solventDeposit (i256 7)]

theorem checks_solventWithdrawal : ∃ env', checks solventExternals (proofOf 0 solventWithdrawal.1)
    ⟨.account 1, i256 (-3), [], []⟩ solventPool = .ok ((), env') := by
  have hpass : (checks solventExternals (proofOf 0 solventWithdrawal.1)
      ⟨.account 1, i256 (-3), [], []⟩ solventPool).isOk = true := by decide +kernel
  revert hpass
  cases checks solventExternals (proofOf 0 solventWithdrawal.1)
    ⟨.account 1, i256 (-3), [], []⟩ solventPool with
  | error e => exact fun h => absurd h Bool.false_ne_true
  | ok r => exact fun _ => ⟨r.2, rfl⟩

/-- The withdrawal of 3 is covered by the 7 of the deposit. -/
theorem withdrawals_covered_sample :
    7 ≤ unspentValue zeroPoseidon2 {1} (notesOf [solventDeposit]) solventPool ∧
      3 ≤ solventPool.store.balances (.contract 1) solventExternals.self := by
  obtain ⟨hcanon, hcanon'⟩ := List.forall_mem_cons.mp canonical_solventRun
  obtain ⟨hself, -⟩ := List.forall_mem_cons.mp notSignedBy_solventRun
  obtain ⟨hdeposit, hwithdrawal⟩ := List.forall_mem_cons.mp known_solventRun
  obtain ⟨env', hchecks⟩ := checks_solventWithdrawal
  unfold solventPool at hchecks ⊢
  have hstart : 0 ≤ samplePool.store.balances (.contract 1) solventExternals.self +
      windfalls solventExternals zeroPoseidon2 (.contract 1) samplePool
        [solventAction solventDeposit (i256 7)] := by decide +kernel
  have hins : ∑ tx, (solventWithdrawal.2.input tx).inAmount.val = 7 := by decide +kernel
  obtain ⟨-, hcovered⟩ := withdrawals_covered policyVerifier_solvent zeroTable_zeroPoseidon2
    fresh_samplePool (List.forall_mem_singleton.mpr hcanon) (List.forall_mem_singleton.mpr hself)
    hchecks (hcanon' _ List.mem_cons_self)
  have hopened : List.Forall₂ (Opens zeroPoseidon2)
      (accepted solventExternals zeroPoseidon2 samplePool
        [solventAction solventDeposit (i256 7)]) [solventDeposit] := by
    rw [accepted_cons_some acceptedProof_solventDeposit]
    exact .cons opens_solventDeposit .nil
  have hknown : Known zeroPoseidon2 {1} [solventWithdrawal, solventDeposit] :=
    List.forall_mem_cons.mpr ⟨List.forall_mem_singleton.mp hwithdrawal,
      List.forall_mem_singleton.mpr hdeposit⟩
  obtain ⟨-, hleft, hbalance⟩ := hcovered solventWithdrawal [solventDeposit] {1}
    opens_solventWithdrawal hopened hknown (collisionFree_evaluations (by decide +kernel))
  have hthree := hbalance hstart
  have hval : (i256 (-3)).val = -3 := by decide
  rw [hins] at hleft
  rw [hval, neg_neg] at hthree
  exact ⟨hleft, hthree⟩

end Enclave.Pool

import Enclave.Facilitator.Submission

/-! # Maps that a contract can read

A struct of a contract is a map whose keys come in increasing order; the host takes no other map.
`hashExtData` sorts the fields of the external data, `buildPoolTransactArgs` lists them, and those of
the proof, in the order of their declaration.  So what is submitted is never what was hashed, and
never a map that the host takes (`submitted_maps_never_conform`). -/

namespace Enclave.Facilitator

open Stellar

variable {sdk : Sdk} {proof : ShieldedProofWireFormat} {extData : ExtDataWireFormat}
  {facilitatorAddress : String} {args : TransactArgs} {v : ScVal}

/-- The arguments are the encodings of `Proof` and `ExtData`, and the external data is the map that
was hashed. -/
structure Conforms (sdk : Sdk) (extData : ExtDataWireFormat) (args : TransactArgs) : Prop where
  proofKeys : SortedKeys args.proof.entries
  groth16Keys : ∀ inner, args.proof.field "proof" = some inner → SortedKeys inner.entries
  extDataKeys : SortedKeys args.extData.entries
  hashed : ∃ ext, wireToExtDataLike extData = some ext ∧
    hashedExtDataMap sdk ext = some args.extData

theorem bind_eq_ok {α β : Type} {x : Except String α} {f : α → Except String β} {b : β} :
    x >>= f = .ok b ↔ ∃ a, x = .ok a ∧ f a = .ok b := by
  cases x with
  | error e =>
      constructor
      · intro h
        cases h
      · rintro ⟨a, h, -⟩
        cases h
  | ok a =>
      constructor
      · intro h
        exact ⟨a, rfl, h⟩
      · rintro ⟨a', h, h'⟩
        cases h
        exact h'

theorem keys_proofMap (h : proofMap sdk proof = .ok v) : v.entries.map Prod.fst =
    ["proof", "root", "input_nullifiers", "output_commitment0", "output_commitment1",
      "public_amount", "ext_data_hash", "asp_membership_root", "asp_non_membership_root"] := by
  unfold proofMap at h
  simp only [bind_eq_ok] at h
  obtain ⟨_, -, _, -, _, -, _, -, _, -, _, -, _, -, _, -, _, -, _, -, _, -, h⟩ := h
  cases h
  rfl

theorem keys_extDataMap (h : extDataMap sdk extData = .ok v) : v.entries.map Prod.fst =
    ["recipient", "ext_amount", "encrypted_output0", "encrypted_output1"] := by
  unfold extDataMap at h
  simp only [bind_eq_ok] at h
  obtain ⟨_, -, _, -, _, -, _, -, h⟩ := h
  cases h
  rfl

theorem keys_hashedExtDataMap {ext : ExtDataLike} (h : hashedExtDataMap sdk ext = some v) :
    v.entries.map Prod.fst =
      ["encrypted_output0", "encrypted_output1", "ext_amount", "recipient"] := by
  rw [hashedExtDataMap_eq] at h
  obtain ⟨amount, -, h⟩ := Option.bind_eq_some_iff.mp h
  obtain ⟨recipient, -, rfl⟩ := Option.map_eq_some_iff.mp h
  rfl

/-- The map that is hashed is one that the host takes. -/
theorem sortedKeys_hashedExtDataMap {ext : ExtDataLike} (h : hashedExtDataMap sdk ext = some v) :
    SortedKeys v.entries := by
  rw [SortedKeys, keys_hashedExtDataMap h]
  simp only [List.pairwise_cons, List.mem_cons, List.not_mem_nil, or_false, forall_eq_or_imp,
    forall_eq, false_implies, implies_true, List.Pairwise.nil, and_true]
  decide

theorem buildPoolTransactArgs_ok
    (h : buildPoolTransactArgs sdk proof extData facilitatorAddress = .ok args) :
    proofMap sdk proof = .ok args.proof ∧ extDataMap sdk extData = .ok args.extData := by
  unfold buildPoolTransactArgs at h
  simp only [bind_eq_ok] at h
  obtain ⟨_, -, proofScVal, hproof, extDataScVal, hext, h⟩ := h
  cases h
  exact ⟨hproof, hext⟩

/-- **What is submitted is no map that the host takes, and not the map that was hashed.** -/
theorem submitted_maps_differ
    (h : buildPoolTransactArgs sdk proof extData facilitatorAddress = .ok args) :
    ¬ SortedKeys args.proof.entries ∧ ¬ SortedKeys args.extData.entries ∧
      ∀ ext, hashedExtDataMap sdk ext ≠ some args.extData := by
  obtain ⟨hproof, hext⟩ := buildPoolTransactArgs_ok h
  have hunsorted : ¬ SortedKeys args.extData.entries := by
    rw [SortedKeys, keys_extDataMap hext]
    intro hsorted
    have hfirst := List.rel_of_pairwise_cons hsorted (show "ext_amount" ∈ _ by decide)
    exact absurd hfirst (by decide)
  refine ⟨?_, hunsorted, fun ext hmap => hunsorted (sortedKeys_hashedExtDataMap hmap)⟩
  rw [SortedKeys, keys_proofMap hproof]
  intro hsorted
  -- `root` comes before `input_nullifiers`.
  have hsecond := List.rel_of_pairwise_cons hsorted.of_cons
    (show "input_nullifiers" ∈ _ by decide)
  exact absurd hsecond (by decide)

/-- **No request is submitted as the contract expects it.** -/
theorem submitted_maps_never_conform {requirements : PaymentRequirements}
    (_hcheck : checkRequest sdk ⟨proof, extData, requirements⟩ = some (.ok ()))
    (hargs : buildPoolTransactArgs sdk proof extData facilitatorAddress = .ok args) :
    ¬ Conforms sdk extData args :=
  fun hconforms => (submitted_maps_differ hargs).1 hconforms.proofKeys

theorem submitted_maps_never_conform_sample : ¬ Conforms sampleSdk
    (extDataWire (sampleExtData (-5))) sampleArgs :=
  submitted_maps_never_conform
    (checkRequest_of_meets sampleExtData_meets hashExtData_sample rfl) buildPoolTransactArgs_sample

/-- An honest request that passes the checks, and what is built of it. -/
theorem submitted_out_of_order :
    checkRequest sampleSdk ⟨sampleProof ["5"], extDataWire (sampleExtData (-5)),
      sampleRequirements⟩ = some (.ok ()) ∧
    buildPoolTransactArgs sampleSdk (sampleProof ["5"]) (extDataWire (sampleExtData (-5)))
      sampleFacilitator = .ok sampleArgs ∧
    ¬ Conforms sampleSdk (extDataWire (sampleExtData (-5))) sampleArgs :=
  ⟨checkRequest_of_meets sampleExtData_meets hashExtData_sample rfl, buildPoolTransactArgs_sample,
    fun hconforms => (submitted_maps_differ buildPoolTransactArgs_sample).2.1
      hconforms.extDataKeys⟩

end Enclave.Facilitator

import Enclave.AspNonMembership.Refinement
import Enclave.Circuits.SmtVerifier

/-! # The exclusion circuit against the stored tree

`smtVerifier_agrees`: with the stored root, a key in the tree has no satisfying assignment for
`SMTVerifier`, whatever the siblings and their number, and for an absent key the contract's own
search, its siblings padded with zeros, is one.

Soundness compares two ways down from one root: the tree's path to the leaf of the key and the
assignment's path to another leaf or to zero.  They can only part at a collision. -/

namespace Enclave.AspNonMembership

open Trie Circuits.SMTVerifier

variable {P : Poseidon2} {admin : Address} {env : Env Store} {ops : List Op}

theorem pathInputs_inj {key s s' x x' : F} {i : ℕ}
    (h : pathInputs key i s x = pathInputs key i s' x') : s = s' ∧ x = x' := by
  unfold pathInputs at h
  split_ifs at h
  · exact Prod.mk.inj h
  · exact (Prod.mk.inj h).symm

/-- Two paths of one key from one root end alike: a path to the leaf of the key and a path to
another leaf, or to zero, have different roots unless two evaluations collide. -/
theorem climb_ne {Q : Set Query} (hc : P.CollisionFree Q) (hz : P.NeverZero Q) {key v x : F}
    (hleaf : .hash2 key v 1 ∈ Q)
    (hx : x = 0 ∨ ∃ a b, a ≠ key ∧ .hash2 a b 1 ∈ Q ∧ x = P.digest (.hash2 a b 1)) :
    ∀ {A B : List F} {i : ℕ}, (∀ q ∈ climbQueries P key i A x, q ∈ Q) →
      (∀ q ∈ climbQueries P key i B (P.digest (.hash2 key v 1)), q ∈ Q) →
      climb P key i A x ≠ climb P key i B (P.digest (.hash2 key v 1))
  | [], [], i, _, _ => by
      rw [climb, climb]
      rcases hx with rfl | ⟨a, b, hne, hq, rfl⟩
      · exact (hz _ hleaf).symm
      · intro he
        have := hc hq hleaf he
        injection this with ha
        exact hne ha
  | [], s :: B, i, _, hB => by
      have hB' := hB _ List.mem_cons_self
      rcases hx with rfl | ⟨a, b, -, hq, rfl⟩
      · exact (hz _ hB').symm
      · intro he
        cases hc hq hB' he
  | s :: A, [], i, hA, _ => by
      intro he
      cases hc (hA _ List.mem_cons_self) hleaf he
  | s :: A, s' :: B, i, hA, hB => by
      intro he
      have hq := hc (hA _ List.mem_cons_self) (hB _ List.mem_cons_self) he
      injection hq with h₁ h₂
      obtain ⟨-, hchild⟩ := pathInputs_inj (Prod.ext h₁ h₂)
      exact climb_ne hc hz hleaf hx (fun q hq => hA q (List.mem_cons_of_mem _ hq))
        (fun q hq => hB q (List.mem_cons_of_mem _ hq)) hchild

/-- Climbing from the end of a path is hashing the plugged tree. -/
theorem climb_eq_treeHash (key : F) (e : Tree) : ∀ (i : ℕ) (sibs : List Tree),
    climb P key i (sibs.map (treeHash P)) (treeHash P e) =
      treeHash P (plug (keyBit key) i sibs e)
  | _, [] => rfl
  | i, s :: sibs => by
      rw [List.map_cons, climb, climb_eq_treeHash key e (i + 1) sibs, plug]
      unfold pathInputs keyBit
      cases key.val.testBit i <;> rfl

theorem hashed_branch {b : Bool} {s t : Tree} (h : Hashed P env (branch b s t)) :
    .compress (if b then treeHash P s else treeHash P t)
      (if b then treeHash P t else treeHash P s) ∈ env.hashed ∧ Hashed P env t := by
  cases b
  · exact ⟨h _ List.mem_cons_self,
      fun q hq => h q (List.mem_cons_of_mem _ (List.mem_append_left _ hq))⟩
  · exact ⟨h _ List.mem_cons_self,
      fun q hq => h q (List.mem_cons_of_mem _ (List.mem_append_right _ hq))⟩

theorem climbQueries_hashed (key : F) (e : Tree) : ∀ (i : ℕ) (sibs : List Tree),
    Hashed P env (plug (keyBit key) i sibs e) →
    ∀ q ∈ climbQueries P key i (sibs.map (treeHash P)) (treeHash P e), q ∈ env.hashed
  | _, [], _, _, hq => absurd hq List.not_mem_nil
  | i, s :: sibs, h, q, hq => by
      obtain ⟨htop, hbelow⟩ := hashed_branch h
      rw [List.map_cons, climbQueries, List.mem_cons, climb_eq_treeHash] at hq
      rcases hq with rfl | hq
      · unfold pathInputs
        unfold keyBit at htop
        cases hb : key.val.testBit i <;> rw [hb] at htop <;> exact htop
      · exact climbQueries_hashed key e (i + 1) sibs hbelow q hq

/-- The circuit inputs made from a search: siblings padded with zeros to `n` levels. -/
def exclusionInputs (root key value : F) (find : FindResult) (n : ℕ) : Inputs where
  enabled := 1
  root := root
  siblings := find.siblings.map (Nat.cast : U256 → F) ++
    List.replicate (n - find.siblings.length) 0
  oldKey := find.notFoundKey
  oldValue := find.notFoundValue
  isOld0 := if find.isOld0 then 1 else 0
  key := key
  value := value
  fnc := 1

theorem exclusion_exclusionInputs (root key value : F) (find : FindResult) (n : ℕ) :
    (exclusionInputs root key value find n).Exclusion where
  enabled := rfl
  fnc := rfl
  isOld0 := by
    unfold exclusionInputs
    split_ifs
    · exact Or.inr rfl
    · exact Or.inl rfl

theorem not_satisfies_of_has {t : Tree} {S : Set Tree} (h : Represents P env t S) {key v : F}
    (hk : t.Has key v) {inp : Inputs} (hex : inp.Exclusion) (hkey : inp.key = key)
    (hroot : inp.root = treeHash P t)
    (hc : P.CollisionFree {q | q ∈ env.hashed ∨ q ∈ inp.queries P})
    (hz : P.NeverZero {q | q ∈ env.hashed ∨ q ∈ inp.queries P}) : ¬ inp.Satisfies P := by
  intro hsat
  obtain ⟨-, hkeys, hclimb, hqueries⟩ := hsat.climb_eq P hex
  obtain ⟨hplug, -⟩ := plug_walk_of_has h.canon hk
  have hhashed : Hashed P env t := h.hashed_of_subtries fun _ hw => hw
  rw [← hplug] at hhashed
  have hleaf : .hash2 key v 1 ∈ env.hashed := by
    have hsub : Trie.leaf key v ∈ t.subtries := by
      rw [← hplug]
      exact (mem_subtries_plug _ _ _ _ _).mpr (Or.inr (Or.inr (List.mem_singleton.mpr rfl)))
    exact h.hashed_of_mem hsub _ (List.mem_singleton.mpr rfl)
  refine climb_ne (P := P) hc hz (v := v) (x := inp.start P) (Or.inl hleaf) ?_
    (A := active inp.siblings)
    (B := (walk (keyBit key) 0 t).1.map (treeHash P)) (i := 0) ?_ ?_ ?_
  · rcases hex.isOld0 with h0 | h1
    · refine Or.inr ⟨inp.oldKey, inp.oldValue, hkey ▸ hkeys h0, Or.inr List.mem_cons_self, ?_⟩
      rw [Inputs.start, h0]
      simp [Inputs.hash1Old, Poseidon2.digest]
    · left
      rw [Inputs.start, h1]
      ring
  · intro q hq
    rw [← hkey] at hq
    exact Or.inr (hqueries hq)
  · intro q hq
    exact Or.inl (climbQueries_hashed key (.leaf key v) 0 _ hhashed q hq)
  · have htree := climb_eq_treeHash (P := P) key (.leaf key v) 0 (walk (keyBit key) 0 t).1
    rw [hplug] at htree
    rw [← hkey, hclimb, hroot, hkey]
    exact htree.symm

theorem satisfies_of_search {t : Tree} {S : Set Tree} (h : Represents P env t S)
    (hsep : Separated P env) {key : F} (hk : ∀ v, ¬ t.Has key v) (value : F) {n : ℕ}
    (hn : (walk (keyBit key) 0 t).1.length < n) :
    (exclusionInputs (treeHash P t) key value
      (searchResult P key.val (walk (keyBit key) 0 t)) n).Satisfies P := by
  have hsibs : (searchResult P key.val (walk (keyBit key) 0 t)).siblings.map
      (Nat.cast : U256 → F) =
      (walk (keyBit key) 0 t).1.map (treeHash P) := by
    rw [searchResult_siblings, List.map_map]
    exact List.map_congr_left fun s _ => F.natCast_val _
  have hlen : (searchResult P key.val (walk (keyBit key) 0 t)).siblings.length =
      (walk (keyBit key) 0 t).1.length := by
    rw [searchResult_siblings, List.length_map]
  have hne : ∀ s ∈ ((walk (keyBit key) 0 t).1.map (treeHash P)).getLast?, s ≠ 0 := by
    intro s hs
    rw [List.getLast?_map, Option.mem_map] at hs
    obtain ⟨u, hu, rfl⟩ := hs
    exact fun h0 => h.address_getLast_ne_zero hsep (keyBit key) u hu (F.val_eq_zero_iff.mpr h0)
  have hfound := found_eq_false (P := P) h.canon hk
  refine Inputs.satisfies_of_climb_eq P (exclusion_exclusionInputs _ _ _ _ _) ?_ ?_ ?_
  · obtain ⟨m, hm⟩ : ∃ m, n - (walk (keyBit key) 0 t).1.length = m + 1 :=
      ⟨n - (walk (keyBit key) 0 t).1.length - 1, by omega⟩
    simp only [exclusionInputs, hlen, hm, List.replicate_succ']
    rw [← List.append_assoc, List.getLast?_append]
    rfl
  · intro h0 heq
    rcases walk_end (keyBit key) 0 t with hw | ⟨k', v', hw⟩
    · simp only [exclusionInputs, searchResult, hw, if_true] at h0
      exact absurd h0 (by decide +kernel)
    · have hne : k' ≠ key := by
        rintro rfl
        exact hk v' (h.canon.has_iff_walk.mpr hw)
      have hval : k'.val ≠ key.val := fun he => hne (F.val_injective he)
      simp only [exclusionInputs, searchResult, hw, if_neg hval, F.natCast_val] at heq
      exact hne heq
  · simp only [exclusionInputs, hsibs, hlen, active_append_zeros hne, Inputs.start, Inputs.hash1Old]
    have htree := climb_eq_treeHash (P := P) key (walk (keyBit key) 0 t).2 0
      (walk (keyBit key) 0 t).1
    rw [plug_walk] at htree
    rw [← htree]
    congr 1
    rcases walk_end (keyBit key) 0 t with hw | ⟨k', v', hw⟩
    · simp only [searchResult, hw, if_true]
      rw [sub_self, mul_zero]
      rfl
    · have hval : k'.val ≠ key.val := fun he =>
        hk v' (h.canon.has_iff_walk.mpr (by rw [hw, F.val_injective he]))
      simp only [searchResult, hw, if_neg hval, F.natCast_val, Bool.false_eq_true, if_false,
        sub_zero, mul_one]
      rfl

/-- **The circuit and the contract agree on exclusion.** -/
theorem smtVerifier_agrees (h : Reached P admin ops env) (hch : ValueChanging ops fun _ => none)
    {root : F} (hroot : env.store.root = some root.val) (key : F) :
    (mapOf ops key ≠ none → ∀ inp : Inputs, inp.Exclusion → inp.key = key → inp.root = root →
      P.CollisionFree {q | q ∈ env.hashed ∨ q ∈ inp.queries P} →
      P.NeverZero {q | q ∈ env.hashed ∨ q ∈ inp.queries P} → ¬ inp.Satisfies P) ∧
    (mapOf ops key = none → ∀ find n value, findKey key.val env = .ok (find, env) →
      find.siblings.length < n → (exclusionInputs root key value find n).Satisfies P) := by
  obtain ⟨t, S, hst⟩ := h.stores hch
  have hrep := hst.represents
  have htree : root = treeHash P t := by
    rw [hrep.root, Option.some.injEq] at hroot
    exact F.val_injective hroot.symm
  constructor
  · intro hk inp hex hkey hinp hc hz
    obtain ⟨v, hv, -⟩ := hst.has hk
    exact not_satisfies_of_has hrep hv hex hkey (hinp.trans htree) hc hz
  · intro hk find n value hfind hn
    rw [hrep.findKey_apply h.separated key.val] at hfind
    obtain rfl := (Prod.mk.inj (Except.ok.inj hfind)).1
    rw [searchResult_siblings, List.length_map] at hn
    rw [htree]
    exact satisfies_of_search hrep h.separated (hst.not_has hk) value hn

/-- With 1 and 3 in the tree, the search for 5 satisfies a circuit of four levels and the same
siblings and old leaf do not for the key 1. -/
theorem smtVerifier_agrees_smallRun : ∃ (env : Env Store) (find : FindResult) (root : F),
    env.store.root = some root.val ∧ find.siblings.length = 2 ∧
      (exclusionInputs root 5 0 find 4).Satisfies smallPoseidon2 ∧
      ¬ (exclusionInputs root 1 0 find 4).Satisfies smallPoseidon2 := by
  obtain ⟨env, hr, hp⟩ := @exists_reached smallPoseidon2 (.account 0)
    [.insert 1 5, .insert 3 7] [.account 0]
    (p := fun env =>
      env.store.root == some ((env.store.root.getD 0 : U256) : F).val &&
      match findKey 5 env with
      | .ok (find, _) => find.siblings.length == 2 &&
          cleanLog smallPoseidon2 (env.hashed ++
            (exclusionInputs ((env.store.root.getD 0 : U256) : F) 1 0 find 4).queries smallPoseidon2)
      | .error _ => false) (by decide +kernel)
  have hch : ValueChanging [.insert 1 5, .insert 3 7] fun _ => none := ⟨trivial, trivial, trivial⟩
  have h5 : ((5 : F).val : ℕ) = 5 := by decide +kernel
  obtain ⟨find, hfind, -⟩ := (refines_map hr hch).1 5
  rw [hfind] at hp
  simp only [Bool.and_eq_true, beq_iff_eq] at hp
  obtain ⟨hroot, hlen, hclean⟩ := hp
  obtain ⟨hc, hz⟩ := collisionFree_of_cleanLog hclean
  refine ⟨env, find, _, hroot, hlen, ?_, ?_⟩
  · refine (smtVerifier_agrees hr hch hroot 5).2 ?_ find 4 0 (by rw [h5]; exact hfind) (by omega)
    simp only [mapOf, replay, List.foldl_cons, List.foldl_nil, Op.apply]
    decide +kernel
  · refine (smtVerifier_agrees hr hch hroot 1).1 ?_ _ (exclusion_exclusionInputs _ _ _ _ _) rfl rfl
      ?_ ?_
    · simp only [mapOf, replay, List.foldl_cons, List.foldl_nil, Op.apply]
      decide +kernel
    · exact hc.mono fun q hq => List.mem_append.mpr hq
    · exact fun q hq => hz q (List.mem_append.mpr hq)

end Enclave.AspNonMembership

import Enclave.AspNonMembership.Exclusion

/-! # The search for one key as a proof about another

A caller may ask the contract for one word and prove the absence of another key with the answer,
cut or padded to the levels of its circuit.  `satisfies_iff_of_search` says when the circuit takes
it: the search is shorter than the circuit, and the key has the bits that the search went along.

The climb of the circuit and the tree's path start from one root and have the same siblings.  Where
the key has another bit, the two children of a node would have one hash. -/

namespace Enclave.AspNonMembership

open Trie Circuits.SMTVerifier

variable {P : Poseidon2} {env : Env Store}

theorem canon_of_branch {i : ℕ} {b : Bool} {s t : Tree} (h : (branch b s t).Canon keyBit i) :
    t.Canon keyBit (i + 1) ∧ s ≠ t := by
  cases b
  · exact ⟨h.2.2.2.1, fun heq => h.ne_of_node heq.symm⟩
  · exact ⟨h.2.2.2.2, h.ne_of_node⟩

theorem treeHash_branch (b : Bool) (s t : Tree) : treeHash P (branch b s t) =
    P.digest (.compress (if b then treeHash P s else treeHash P t)
      (if b then treeHash P t else treeHash P s)) := by
  cases b <;> rfl

theorem hashed_sibling {b : Bool} {s t : Tree} (h : Hashed P env (branch b s t)) :
    Hashed P env s := by
  cases b
  · exact fun q hq => h q (List.mem_cons_of_mem _ (List.mem_append_right _ hq))
  · exact fun q hq => h q (List.mem_cons_of_mem _ (List.mem_append_left _ hq))

/-- **Where two climbs are one**: siblings of a path of the tree, from the top, lead to the root
only if they are all there and the key has the bits of the path. -/
theorem agrees_of_climb_eq {Q : Set Query} (hc : P.CollisionFree Q) (hz : P.NeverZero Q)
    (hQ : ∀ q ∈ env.hashed, q ∈ Q) (hsep : Separated P env) {key x : F} {p : ℕ → Bool} {e : Tree}
    (hx : x = 0 ∨ ∃ a b, .hash2 a b 1 ∈ Q ∧ x = P.digest (.hash2 a b 1)) :
    ∀ {A : List F} {sibs : List Tree} {i : ℕ}, (plug p i sibs e).Canon keyBit i →
      Hashed P env (plug p i sibs e) → A <+: sibs.map (treeHash P) →
      (∀ q ∈ climbQueries P key i A x, q ∈ Q) →
      climb P key i A x = treeHash P (plug p i sibs e) →
      A.length = sibs.length ∧ Agrees keyBit p i sibs.length key
  | [], [], i, _, _, _, _, _ => ⟨rfl, agrees_zero p i key⟩
  | [], s :: sibs, i, _, hh, _, _, he => by
      rw [plug_cons] at hh he
      have hq := hQ _ (hashed_branch hh).1
      rw [climb, treeHash_branch] at he
      rcases hx with rfl | ⟨a, b, hab, rfl⟩
      · exact absurd he.symm (hz _ hq)
      · cases hc hab hq he
  | a :: A, [], _, _, _, hpre, _, _ => absurd (List.prefix_nil.mp hpre) (List.cons_ne_nil a A)
  | a :: A, s :: sibs, i, hcanon, hh, hpre, hclimb, he => by
      rw [plug_cons] at hcanon hh he
      obtain ⟨htop, hbelow⟩ := hashed_branch hh
      obtain ⟨hcanon', hne⟩ := canon_of_branch hcanon
      rw [List.map_cons, List.cons_prefix_cons] at hpre
      obtain ⟨rfl, hpre'⟩ := hpre
      rw [treeHash_branch] at he
      have hq := hc (hclimb _ List.mem_cons_self) (hQ _ htop) he
      injection hq with h₁ h₂
      have hbit : keyBit key i = p i := by
        by_contra hdiff
        -- the sibling would have the hash of the subtree on the path
        refine hne (hash_inj hsep (hashed_sibling hh) hbelow ?_)
        unfold pathInputs at h₁ h₂
        unfold keyBit at hdiff
        cases hp : p i <;> rw [hp] at hdiff h₁ h₂
        · rw [Bool.not_eq_false] at hdiff
          rw [if_pos hdiff] at h₁
          exact h₁
        · rw [Bool.not_eq_true] at hdiff
          rw [hdiff] at h₂
          exact h₂
      have hchild : climb P key (i + 1) A x = treeHash P (plug p (i + 1) sibs e) := by
        unfold pathInputs at h₁ h₂
        unfold keyBit at hbit
        rw [hbit] at h₁ h₂
        cases hp : p i <;> rw [hp] at h₁ h₂
        · exact h₁
        · exact h₂
      obtain ⟨hlen, hagrees⟩ := agrees_of_climb_eq hc hz hQ hsep hx hcanon' hbelow hpre'
        (fun q hq => hclimb q (List.mem_cons_of_mem _ hq)) hchild
      exact ⟨congrArg Nat.succ hlen, agrees_succ.mpr ⟨hbit, hagrees⟩⟩

/-! ### The circuit on a search -/

/-- The circuit inputs made of a search: the siblings are cut, or padded with zeros, to `n`
levels. -/
def sizedInputs (root key : F) (find : FindResult) (n : ℕ) : Inputs where
  enabled := 1
  root := root
  siblings := (find.siblings.map (Nat.cast : U256 → F)).take n ++
    List.replicate (n - find.siblings.length) 0
  oldKey := find.notFoundKey
  oldValue := find.notFoundValue
  isOld0 := if find.isOld0 then 1 else 0
  key := key
  value := key
  fnc := 1

theorem exclusion_sizedInputs (root key : F) (find : FindResult) (n : ℕ) :
    (sizedInputs root key find n).Exclusion where
  enabled := rfl
  fnc := rfl
  isOld0 := by
    unfold sizedInputs
    split_ifs
    · exact Or.inr rfl
    · exact Or.inl rfl

section search

variable {t : Tree} {S : Set Tree} {asked : U256}

theorem siblings_searchResult (w : List Tree × Tree) :
    (searchResult P asked w).siblings.map (Nat.cast : U256 → F) = w.1.map (treeHash P) := by
  rw [searchResult_siblings, List.map_map]
  exact List.map_congr_left fun s _ => F.natCast_val _

theorem length_siblings_searchResult (w : List Tree × Tree) :
    (searchResult P asked w).siblings.length = w.1.length := by
  rw [searchResult_siblings, List.length_map]

theorem end_of_not_found (h : (searchResult P asked (walk asked.testBit 0 t)).found = false) :
    (walk asked.testBit 0 t).2 = .empty ∨
      ∃ k v, (walk asked.testBit 0 t).2 = .leaf k v ∧ k.val ≠ asked := by
  rcases walk_end asked.testBit 0 t with hw | ⟨k, v, hw⟩
  · exact Or.inl hw
  · refine Or.inr ⟨k, v, hw, fun heq => ?_⟩
    rw [searchResult, hw] at h
    simp only [if_pos heq] at h
    cases h

theorem start_sizedInputs (h : (searchResult P asked (walk asked.testBit 0 t)).found = false)
    (root key : F) (n : ℕ) :
    (sizedInputs root key (searchResult P asked (walk asked.testBit 0 t)) n).start P =
      treeHash P (walk asked.testBit 0 t).2 := by
  rw [Inputs.start, Inputs.hash1Old, sizedInputs]
  rcases end_of_not_found h with hw | ⟨k, v, hw, hne⟩
  · simp only [searchResult, hw, if_true]
    rw [sub_self, mul_zero]
    rfl
  · simp only [searchResult, hw, if_neg hne, F.natCast_val, Bool.false_eq_true, if_false,
      sub_zero, mul_one]
    rfl

theorem active_prefix_searchResult (h : Represents P env t S) (hsep : Separated P env)
    (root key : F) (n : ℕ) :
    active (sizedInputs root key (searchResult P asked (walk asked.testBit 0 t)) n).siblings <+:
      (walk asked.testBit 0 t).1.map (treeHash P) := by
  simp only [sizedInputs, siblings_searchResult, length_siblings_searchResult]
  rcases Nat.lt_or_ge (walk asked.testBit 0 t).1.length n with hlt | hge
  · rw [List.take_of_length_le (by rw [List.length_map]; omega), active_append_zeros]
    intro s hs
    rw [List.getLast?_map, Option.mem_map] at hs
    obtain ⟨u, hu, rfl⟩ := hs
    exact fun h0 => h.address_getLast_ne_zero hsep asked.testBit u hu (F.val_eq_zero_iff.mpr h0)
  · rw [Nat.sub_eq_zero_of_le hge, List.replicate_zero, List.append_nil]
    refine List.IsPrefix.trans ?_ (List.take_prefix n _)
    exact active_prefix _

theorem length_sizedInputs (root key : F) (find : FindResult) (n : ℕ) :
    (sizedInputs root key find n).siblings.length = n := by
  simp only [sizedInputs, List.length_append, List.length_take, List.length_map,
    List.length_replicate]
  omega

/-- A search that is shorter than the circuit is taken for a key that is not in the tree and has the
bits it went along. -/
theorem satisfies_of_agrees (h : Represents P env t S) (hsep : Separated P env) {key : F}
    (hk : ∀ v, ¬ t.Has key v) {n : ℕ}
    (hfound : (searchResult P asked (walk asked.testBit 0 t)).found = false)
    (hlen : (walk asked.testBit 0 t).1.length < n)
    (hagrees : Agrees keyBit asked.testBit 0 (walk asked.testBit 0 t).1.length key) :
    (sizedInputs (treeHash P t) key (searchResult P asked (walk asked.testBit 0 t)) n).Satisfies
      P := by
  have hplug := plug_walk asked.testBit 0 t
  have hex := exclusion_sizedInputs (treeHash P t) key
    (searchResult P asked (walk asked.testBit 0 t)) n
  have hstart := start_sizedInputs (P := P) hfound (treeHash P t) key n
  have hsibs : (sizedInputs (treeHash P t) key
      (searchResult P asked (walk asked.testBit 0 t)) n).siblings =
      (walk asked.testBit 0 t).1.map (treeHash P) ++
        List.replicate (n - (walk asked.testBit 0 t).1.length) 0 := by
    simp only [sizedInputs, siblings_searchResult, length_siblings_searchResult]
    rw [List.take_of_length_le (by rw [List.length_map]; omega)]
  have hactive : active (sizedInputs (treeHash P t) key
      (searchResult P asked (walk asked.testBit 0 t)) n).siblings =
      (walk asked.testBit 0 t).1.map (treeHash P) := by
    rw [hsibs, active_append_zeros]
    intro s hs
    rw [List.getLast?_map, Option.mem_map] at hs
    obtain ⟨u, hu, rfl⟩ := hs
    exact fun h0 => h.address_getLast_ne_zero hsep asked.testBit u hu (F.val_eq_zero_iff.mpr h0)
  refine Inputs.satisfies_of_climb_eq P hex ?_ ?_ ?_
  · obtain ⟨m, hm⟩ : ∃ m, n - (walk asked.testBit 0 t).1.length = m + 1 :=
      ⟨n - (walk asked.testBit 0 t).1.length - 1, by omega⟩
    rw [hsibs, hm, List.replicate_succ', ← List.append_assoc, List.getLast?_append]
    rfl
  · intro h0 heq
    rcases end_of_not_found hfound with hw | ⟨k, v, hw, hne⟩
    · simp only [sizedInputs, searchResult, hw, if_true] at h0
      exact absurd h0 (by decide +kernel)
    · simp only [sizedInputs, searchResult, hw, if_neg hne, F.natCast_val] at heq
      subst heq
      refine hk v (has_of_mem_subtries (u := .leaf k v) ⟨rfl, rfl⟩ ?_)
      rw [← hplug, hw]
      exact (mem_subtries_plug _ _ _ _ _).mpr (Or.inr (Or.inr (List.mem_singleton.mpr rfl)))
  · rw [hactive, hstart]
    have htree := climb_eq_treeHash (P := P) key (walk asked.testBit 0 t).2 0
      (walk asked.testBit 0 t).1
    have hsame : plug (keyBit key) 0 (walk asked.testBit 0 t).1 (walk asked.testBit 0 t).2 =
        plug asked.testBit 0 (walk asked.testBit 0 t).1 (walk asked.testBit 0 t).2 :=
      plug_congr _ fun j hj hj' => hagrees j hj hj'
    rw [hsame, hplug] at htree
    exact htree

/-- **The circuit takes a search** for a key that is not in the tree exactly if the search is
shorter than the circuit and the key has the bits it went along. -/
theorem satisfies_iff_of_search (h : Represents P env t S) (hsep : Separated P env) {key : F}
    (hk : ∀ v, ¬ t.Has key v) {n : ℕ}
    (hfound : (searchResult P asked (walk asked.testBit 0 t)).found = false)
    (hc : P.CollisionFree {q | q ∈ env.hashed ∨ q ∈ (sizedInputs (treeHash P t) key
      (searchResult P asked (walk asked.testBit 0 t)) n).queries P})
    (hz : P.NeverZero {q | q ∈ env.hashed ∨ q ∈ (sizedInputs (treeHash P t) key
      (searchResult P asked (walk asked.testBit 0 t)) n).queries P}) :
    (sizedInputs (treeHash P t) key (searchResult P asked (walk asked.testBit 0 t)) n).Satisfies P ↔
      (walk asked.testBit 0 t).1.length < n ∧
        Agrees keyBit asked.testBit 0 (walk asked.testBit 0 t).1.length key := by
  have hplug := plug_walk asked.testBit 0 t
  have hex := exclusion_sizedInputs (treeHash P t) key
    (searchResult P asked (walk asked.testBit 0 t)) n
  have hstart := start_sizedInputs (P := P) hfound (treeHash P t) key n
  have hpre : active (sizedInputs (treeHash P t) key
      (searchResult P asked (walk asked.testBit 0 t)) n).siblings <+:
        (walk asked.testBit 0 t).1.map (treeHash P) :=
    active_prefix_searchResult h hsep (treeHash P t) key n
  constructor
  · intro hsat
    obtain ⟨hlast, -, hclimb, hqueries⟩ := hsat.climb_eq P hex
    rw [hstart] at hclimb hqueries
    have hroot : climb P key 0 (active (sizedInputs (treeHash P t) key
        (searchResult P asked (walk asked.testBit 0 t)) n).siblings)
          (treeHash P (walk asked.testBit 0 t).2) =
        treeHash P (plug asked.testBit 0 (walk asked.testBit 0 t).1
          (walk asked.testBit 0 t).2) := by
      rw [hplug]
      exact hclimb
    have hend : treeHash P (walk asked.testBit 0 t).2 = 0 ∨ ∃ a b,
        Query.hash2 a b 1 ∈ {q | q ∈ env.hashed ∨ q ∈ (sizedInputs (treeHash P t) key
          (searchResult P asked (walk asked.testBit 0 t)) n).queries P} ∧
        treeHash P (walk asked.testBit 0 t).2 = P.digest (.hash2 a b 1) := by
      rcases end_of_not_found hfound with hw | ⟨k, v, hw, -⟩
      · left
        rw [hw]
        rfl
      · have hsub : Trie.leaf k v ∈ t.subtries := by
          rw [← hplug, hw]
          exact (mem_subtries_plug _ _ _ _ _).mpr (Or.inr (Or.inr (List.mem_singleton.mpr rfl)))
        refine Or.inr ⟨k, v, Or.inl (h.hashed_of_mem hsub _ (List.mem_singleton.mpr rfl)), ?_⟩
        rw [hw]
        rfl
    obtain ⟨hlength, hagrees⟩ := agrees_of_climb_eq hc hz (fun q hq => Or.inl hq) hsep hend
      (by rw [hplug]; exact h.canon) (by rw [hplug]; exact h.hashed_of_subtries fun _ hw => hw) hpre
      (fun q hq => Or.inr (hqueries hq)) hroot
    refine ⟨?_, hagrees⟩
    have hshort := length_active_lt hlast
    rw [length_sizedInputs, hlength] at hshort
    exact hshort
  · exact fun hsearch => satisfies_of_agrees h hsep hk hfound hsearch.1 hsearch.2

end search

end Enclave.AspNonMembership

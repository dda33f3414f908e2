import Enclave.AspNonMembership.Contract
import Enclave.Lib.HashedTrie

/-! # The tree the contract keeps

The abstract side of the contract: a canonical trie over field keys and values, its digest under
Poseidon2, and the three operations on it.  `insertTree`, `updateTree` and `deleteTree` keep the
canonical form, and their entries are those of the map with the key added, replaced or removed. -/

namespace Enclave.AspNonMembership

open Trie

/-- Trees over field keys and values. -/
abbrev Tree := Trie F F

/-- The input of a node's hash. -/
abbrev Item := NodeInput F F F

/-- Bit `i` of a key, least significant first. -/
def keyBit (k : F) (i : ℕ) : Bool := k.val.testBit i

/-- The Poseidon2 evaluation that hashes a node. -/
def toQuery : Item → Query
  | .leaf k v => .hash2 k v 1
  | .node l r => .compress l r

variable (P : Poseidon2)

def itemHash (q : Item) : F := P.digest (toQuery q)

def treeHash (t : Tree) : F := t.hash (itemHash P) 0

def items (t : Tree) : List Item := t.inputs (itemHash P) 0

/-- The nodes hashed so far. -/
def hashedItems (env : Env Store) : Set Item := {q | toQuery q ∈ env.hashed}

/-- The nodes hashed so far have different nonzero hashes. -/
def Separated (env : Env Store) : Prop := Separates (itemHash P) 0 (hashedItems env)

theorem toQuery_injective : Function.Injective toQuery := by
  intro q q' h
  cases q <;> cases q' <;> simp only [toQuery, Query.hash2.injEq, Query.compress.injEq,
    reduceCtorEq] at h
  · rw [h.1, h.2.1]
  · rw [h.1, h.2]

theorem separated_of_collisionFree {env : Env Store}
    (hc : P.CollisionFree {q | q ∈ env.hashed}) (hz : P.NeverZero {q | q ∈ env.hashed}) :
    Separated P env :=
  ⟨fun _ hq _ hq' h => toQuery_injective (hc hq hq' h), fun _ hq => hz _ hq⟩

/-! ### Bits -/

theorem keyBit_eq_false {k : F} {i : ℕ} (h : 254 ≤ i) : keyBit k i = false :=
  Nat.testBit_lt_two_pow (lt_of_lt_of_le (lt_trans (F.val_lt k) bn256Modulus_lt)
    (Nat.pow_le_pow_right (by decide) h))

theorem exists_keyBit_ne {k k' : F} (h : k ≠ k') : ∃ i, keyBit k i ≠ keyBit k' i := by
  by_contra hall
  push Not at hall
  exact h (F.val_injective (Nat.eq_of_testBit_eq hall))

theorem length_splitBitsFrom : ∀ (n : ℕ) (k : U256), (splitBitsFrom n k).length = n
  | 0, _ => rfl
  | n + 1, k => by rw [splitBitsFrom, List.length_cons, length_splitBitsFrom n]

theorem drop_splitBitsFrom : ∀ (i n : ℕ) (k : U256), i < n →
    (splitBitsFrom n k).drop i = k.testBit i :: (splitBitsFrom n k).drop (i + 1)
  | _, 0, _, h => absurd h (by omega)
  | 0, n + 1, k, _ => by
      rw [splitBitsFrom, List.drop_zero, List.drop_succ_cons, List.drop_zero, Nat.testBit_zero]
      simp [beq_eq_decide]
  | i + 1, n + 1, k, h => by
      rw [splitBitsFrom, List.drop_succ_cons, List.drop_succ_cons, Nat.testBit_succ]
      exact drop_splitBitsFrom i n (k / 2) (by omega)

theorem drop_splitBits {i : ℕ} (h : i < 256) (k : U256) :
    (splitBits k).drop i = k.testBit i :: (splitBits k).drop (i + 1) :=
  drop_splitBitsFrom i 256 k h

theorem getElem?_splitBits {i : ℕ} (h : i < 256) (k : U256) :
    (splitBits k)[i]? = some (k.testBit i) := by
  have := drop_splitBits h k
  rw [← List.head?_drop, this, List.head?_cons]

/-! ### Operations on trees -/

/-- Number of bits two keys share at the front. -/
def sharedBits : List Bool → List Bool → ℕ
  | oldBit :: oldBits, bit :: bits => if oldBit = bit then sharedBits oldBits bits + 1 else 0
  | _, _ => 0

/-- The siblings that part a new key from the leaf its search ended at. -/
def forkSiblings (k : F) (n : ℕ) : Tree → List Tree
  | .leaf k' v' =>
      List.replicate (sharedBits ((splitBits k'.val).drop n) ((splitBits k.val).drop n)) .empty ++
        [.leaf k' v']
  | _ => []

/-- The tree with the new leaf `(k, v)`. -/
def insertTree (k v : F) (t : Tree) : Tree :=
  let w := walk (keyBit k) 0 t
  plug (keyBit k) 0 (w.1 ++ forkSiblings k w.1.length w.2) (.leaf k v)

/-- The tree with the value of `k` replaced. -/
def updateTree (k v : F) (t : Tree) : Tree :=
  plug (keyBit k) 0 (walk (keyBit k) 0 t).1 (.leaf k v)

/-- The tree without `k`. -/
def deleteTree (k : F) (t : Tree) : Tree := prune (keyBit k) 0 (walk (keyBit k) 0 t).1 .empty

theorem sharedBits_spec (k k' : F) : ∀ {d n : ℕ}, n + d = 254 →
    (∃ i, n ≤ i ∧ keyBit k' i ≠ keyBit k i) →
    (∀ j, n ≤ j →
      j < n + sharedBits ((splitBits k'.val).drop n) ((splitBits k.val).drop n) →
      keyBit k' j = keyBit k j) ∧
    keyBit k' (n + sharedBits ((splitBits k'.val).drop n) ((splitBits k.val).drop n)) ≠
      keyBit k (n + sharedBits ((splitBits k'.val).drop n) ((splitBits k.val).drop n))
  | 0, n, hd, ⟨i, hi, hne⟩ => by
      rw [keyBit_eq_false (by omega), keyBit_eq_false (by omega)] at hne
      exact absurd rfl hne
  | d + 1, n, hd, ⟨i, hi, hne⟩ => by
      rw [drop_splitBits (by omega : n < 256), drop_splitBits (by omega : n < 256), sharedBits]
      by_cases heq : k'.val.testBit n = k.val.testBit n
      · rw [if_pos heq]
        have hi' : n + 1 ≤ i := by
          rcases Nat.eq_or_lt_of_le hi with rfl | hlt
          · exact absurd heq hne
          · exact hlt
        obtain ⟨h1, h2⟩ := sharedBits_spec k k' (d := d) (n := n + 1) (by omega) ⟨i, hi', hne⟩
        refine ⟨fun j hj hj' => ?_, ?_⟩
        · rcases Nat.eq_or_lt_of_le hj with rfl | hlt
          · exact heq
          · exact h1 j hlt (by omega)
        · rwa [Nat.add_assoc, Nat.add_comm 1] at h2
      · rw [if_neg heq]
        exact ⟨fun j hj hj' => by omega, heq⟩

theorem extendSiblings_eq (rtOld : U256) : ∀ (old new : List Bool),
    extendSiblings rtOld old new = List.replicate (sharedBits old new) 0 ++ [rtOld]
  | [], _ => by simp [extendSiblings, sharedBits]
  | _ :: _, [] => by simp [extendSiblings, sharedBits]
  | a :: as, b :: bs => by
      rw [extendSiblings, sharedBits]
      split_ifs
      · rw [extendSiblings_eq rtOld as bs, List.replicate_succ, List.cons_append]
      · rfl

theorem keyBit_bound : ∀ (k : F) (j : ℕ), 254 ≤ j → keyBit k j = false :=
  fun _ _ h => keyBit_eq_false h

theorem length_walk_le {t : Tree} (h : t.Canon keyBit 0) (p : ℕ → Bool) :
    (walk p 0 t).1.length ≤ 254 := by
  have := h.length_walk_le keyBit_bound p (Nat.zero_le _)
  omega

section Canonical

variable {k v : F} {t : Tree}

/-- The leaf a search ends at shares the path with the key and differs from it further down. -/
theorem fork_spec (h : t.Canon keyBit 0) (hk : ∀ v, ¬ t.Has k v) {k' v' : F}
    (hw : (walk (keyBit k) 0 t).2 = .leaf k' v') :
    let n := (walk (keyBit k) 0 t).1.length
    let z := sharedBits ((splitBits k'.val).drop n) ((splitBits k.val).drop n)
    (∀ j, j < n → keyBit k' j = keyBit k j) ∧
      (∀ j, n ≤ j → j < n + z → keyBit k' j = keyBit k j) ∧ keyBit k' (n + z) ≠ keyBit k (n + z) := by
  have hplug := plug_walk (keyBit k) 0 t
  rw [hw] at hplug
  have hne : k' ≠ k := by
    rintro rfl
    exact hk v' (h.has_iff_walk.mpr hw)
  have hlow : ∀ j, j < (walk (keyBit k) 0 t).1.length → keyBit k' j = keyBit k j := by
    intro j hj
    refine Canon.agree_of_plug (keyBit k) (t := .leaf k' v') (v := v') ⟨rfl, rfl⟩
      (i := 0) (by rw [hplug]; exact h) j (Nat.zero_le _) ?_
    omega
  obtain ⟨i, hi⟩ := exists_keyBit_ne hne
  have hlen := length_walk_le h (keyBit k)
  obtain ⟨h1, h2⟩ := sharedBits_spec k k' (d := 254 - (walk (keyBit k) 0 t).1.length)
    (n := (walk (keyBit k) 0 t).1.length) (by omega)
    ⟨i, by by_contra hlt; exact hi (hlow i (by omega)), hi⟩
  exact ⟨hlow, h1, h2⟩

theorem canon_insertTree (h : t.Canon keyBit 0) (hk : ∀ v, ¬ t.Has k v) :
    (insertTree k v t).Canon keyBit 0 := by
  have hplug := plug_walk (keyBit k) 0 t
  rw [insertTree, plug_append, Nat.zero_add]
  rcases walk_end (keyBit k) 0 t with hw | ⟨k', v', hw⟩
  · rw [hw] at hplug ⊢
    simp only [forkSiblings, plug]
    refine canon_plug (keyBit k) (Nat.zero_le _) (by rw [hplug]; exact h)
      trivial fun a b hab j _ _ => ?_
    rw [hab.1]
  · obtain ⟨hlow, hmid, hne⟩ := fork_spec h hk hw
    rw [hw] at hplug ⊢
    simp only [forkSiblings]
    refine canon_plug (keyBit k) ?_ (by rw [hplug]; exact h) ?_ ?_
    · exact Nat.succ_le_of_lt (size_pos_of_has (k := k) (v := v)
        ((has_plug _ _ _ _ _ _).mpr (Or.inr ⟨rfl, rfl⟩)))
    · rw [Nat.zero_add]; exact canon_fork v v' hmid hne
    · intro a b hab j _ hj
      rw [Nat.zero_add] at hj
      rcases (has_plug _ _ _ _ _ _).mp hab with ⟨s, hs, hab⟩ | hab
      · rcases List.mem_append.mp hs with hs | hs
        · rw [List.eq_of_mem_replicate hs] at hab; cases hab
        · rw [List.mem_singleton.mp hs] at hab
          rw [← hab.1]; exact hlow j hj
      · rw [hab.1]

theorem has_forkSiblings (k : F) (n : ℕ) (e : Tree) (he : ¬ e.IsNode) (a b : F) :
    (∃ s ∈ forkSiblings k n e, s.Has a b) ↔ e.Has a b := by
  cases e with
  | empty => simp [forkSiblings]
  | leaf k' v' =>
      simp only [forkSiblings, List.mem_append, List.mem_replicate, List.mem_singleton]
      constructor
      · rintro ⟨s, ⟨-, rfl⟩ | rfl, h⟩
        · cases h
        · exact h
      · exact fun h => ⟨_, Or.inr rfl, h⟩
  | node l r => exact absurd trivial he

theorem not_isNode_walk (p : ℕ → Bool) (i : ℕ) (t : Tree) : ¬ (walk p i t).2.IsNode := by
  rcases walk_end p i t with h | ⟨k, v, h⟩ <;> rw [h] <;> exact id

theorem has_insertTree (a b : F) :
    (insertTree k v t).Has a b ↔ t.Has a b ∨ (k = a ∧ v = b) := by
  have hplug := plug_walk (keyBit k) 0 t
  have hmem := has_plug (keyBit k) a b (walk (keyBit k) 0 t).2 0 (walk (keyBit k) 0 t).1
  rw [hplug] at hmem
  rw [insertTree, has_plug, hmem, ← has_forkSiblings k (walk (keyBit k) 0 t).1.length _
    (not_isNode_walk _ _ _) a b]
  simp only [List.mem_append, has_leaf]
  constructor
  · rintro (⟨s, hs | hs, h⟩ | h)
    · exact Or.inl (Or.inl ⟨s, hs, h⟩)
    · exact Or.inl (Or.inr ⟨s, hs, h⟩)
    · exact Or.inr h
  · rintro ((⟨s, hs, h⟩ | ⟨s, hs, h⟩) | h)
    · exact Or.inl ⟨s, Or.inl hs, h⟩
    · exact Or.inl ⟨s, Or.inr hs, h⟩
    · exact Or.inr h

/-- With `(k, w)` in the tree, the search for `k` ends at its leaf and `k` stands nowhere else. -/
theorem plug_walk_of_has (h : t.Canon keyBit 0) {w : F} (hk : t.Has k w) :
    plug (keyBit k) 0 (walk (keyBit k) 0 t).1 (.leaf k w) = t ∧
      ∀ s ∈ (walk (keyBit k) 0 t).1, ∀ b, ¬ s.Has k b := by
  have hw := h.has_iff_walk.mp hk
  have hplug := plug_walk (keyBit k) 0 t
  rw [hw] at hplug
  refine ⟨hplug, fun s hs b hb => ?_⟩
  obtain ⟨a, c, hac⟩ := List.append_of_mem hs
  -- cut the path above `s`: `k` would have to stand on both sides of a branch
  rw [hac, plug_append] at hplug
  have hsub : (plug (keyBit k) (0 + a.length) (s :: c) (.leaf k w)).Canon keyBit (0 + a.length) :=
    Canon.of_plug (keyBit k) (by rw [hplug]; exact h)
  have hin : (plug (keyBit k) (0 + a.length + 1) c (.leaf k w)).Has k w :=
    (has_plug _ _ _ _ _ _).mpr (Or.inr ⟨rfl, rfl⟩)
  cases hp : keyBit k (0 + a.length) <;>
    simp only [plug, hp, if_true, Bool.false_eq_true, if_false, Canon] at hsub
  · have := hsub.2.2.1 k b hb; rw [hp] at this; cases this
  · have := hsub.2.1 k b hb; rw [hp] at this; cases this

theorem canon_updateTree (h : t.Canon keyBit 0) {w : F} (hk : t.Has k w) :
    (updateTree k v t).Canon keyBit 0 := by
  obtain ⟨hplug, -⟩ := plug_walk_of_has h hk
  unfold updateTree
  refine @canon_plug _ _ _ (keyBit k) (.leaf k w) (.leaf k v) le_rfl _ _
    (by rw [hplug]; exact h) trivial ?_
  intro a b hab j _ _
  rw [hab.1]

theorem has_updateTree (h : t.Canon keyBit 0) {w : F} (hk : t.Has k w) (a b : F) :
    (updateTree k v t).Has a b ↔ (k ≠ a ∧ t.Has a b) ∨ (k = a ∧ v = b) := by
  obtain ⟨hplug, hout⟩ := plug_walk_of_has h hk
  have hmem := has_plug (keyBit k) a b (.leaf k w) 0 (walk (keyBit k) 0 t).1
  rw [hplug] at hmem
  rw [updateTree, has_plug, hmem]
  simp only [has_leaf]
  constructor
  · rintro (⟨s, hs, hsab⟩ | hab)
    · refine Or.inl ⟨?_, Or.inl ⟨s, hs, hsab⟩⟩
      rintro rfl
      exact hout s hs b hsab
    · exact Or.inr hab
  · rintro (⟨hne, hs | hab⟩ | hab)
    · exact Or.inl hs
    · exact absurd hab.1 hne
    · exact Or.inr hab

theorem canon_deleteTree (h : t.Canon keyBit 0) : (deleteTree k t).Canon keyBit 0 :=
  canon_prune (keyBit k) (t := (walk (keyBit k) 0 t).2) (by rw [plug_walk]; exact h)

theorem has_deleteTree (h : t.Canon keyBit 0) {w : F} (hk : t.Has k w) (a b : F) :
    (deleteTree k t).Has a b ↔ k ≠ a ∧ t.Has a b := by
  obtain ⟨hplug, hout⟩ := plug_walk_of_has h hk
  have hmem := has_plug (keyBit k) a b (.leaf k w) 0 (walk (keyBit k) 0 t).1
  rw [hplug] at hmem
  rw [deleteTree, has_prune, hmem]
  simp only [has_leaf, has_empty, or_false]
  constructor
  · rintro ⟨s, hs, hsab⟩
    refine ⟨?_, Or.inl ⟨s, hs, hsab⟩⟩
    rintro rfl
    exact hout s hs b hsab
  · rintro ⟨hne, hs | hab⟩
    · exact hs
    · exact absurd hab.1 hne

end Canonical

end Enclave.AspNonMembership

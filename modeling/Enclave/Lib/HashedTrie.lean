import Enclave.Lib.Trie

/-! # Hashed tries and content-addressed stores

`hash` is the Merkle digest of a trie: an empty trie has the digest `zero`, a leaf and a branch
the digest of their `NodeInput`.  Collision freedom is asked only of a set `Q` of inputs
(`Separates`), the inputs somebody really hashed: on such a set a digest determines the trie
(`hash_inj`), although the digest type may be finite.

A content-addressed store keeps an item at the address computed from it.  `Realises` says which
set of items a store holds; writing and removing change the set by one item as long as no two
items in play share an address. -/

namespace Enclave

/-- What the digest of a nonempty trie is computed from. -/
inductive NodeInput (K V D : Type*) where
  | leaf (k : K) (v : V)
  | node (l r : D)
deriving DecidableEq

namespace Trie

variable {K V D : Type*} (dig : NodeInput K V D → D) (zero : D)

/-- The Merkle digest of a trie. -/
def hash : Trie K V → D
  | empty => zero
  | leaf k v => dig (.leaf k v)
  | node l r => dig (.node (hash l) (hash r))

/-- The digest inputs of a trie, the input of its root first. -/
def inputs : Trie K V → List (NodeInput K V D)
  | empty => []
  | leaf k v => [.leaf k v]
  | node l r => .node (l.hash dig zero) (r.hash dig zero) :: (inputs l ++ inputs r)

/-- The digest input of a branch or a leaf. -/
def top : Trie K V → Option (NodeInput K V D)
  | empty => none
  | leaf k v => some (.leaf k v)
  | node l r => some (.node (l.hash dig zero) (r.hash dig zero))

/-- On `Q` different inputs have different digests, and none has the digest of the empty trie. -/
structure Separates (Q : Set (NodeInput K V D)) : Prop where
  inj : Set.InjOn dig Q
  ne_zero : ∀ q ∈ Q, dig q ≠ zero

variable {dig zero}

theorem Separates.mono {Q Q' : Set (NodeInput K V D)} (h : Separates dig zero Q') (hQ : Q ⊆ Q') :
    Separates dig zero Q :=
  ⟨h.inj.mono hQ, fun q hq => h.ne_zero q (hQ hq)⟩

theorem top_mem_inputs {t : Trie K V} {q : NodeInput K V D} (h : t.top dig zero = some q) :
    q ∈ t.inputs dig zero := by
  cases t <;> simp only [top, Option.some.injEq, reduceCtorEq] at h <;> subst h <;> simp [inputs]

theorem mem_inputs_iff {q : NodeInput K V D} : ∀ {t : Trie K V},
    q ∈ t.inputs dig zero ↔ ∃ u ∈ t.subtries, u.top dig zero = some q
  | empty => by simp [inputs, subtries]
  | leaf k v => by simp [inputs, subtries, top, eq_comm]
  | node l r => by
      simp only [inputs, subtries, List.mem_cons, List.mem_append, mem_inputs_iff (t := l),
        mem_inputs_iff (t := r)]
      constructor
      · rintro (rfl | ⟨u, hu, h⟩ | ⟨u, hu, h⟩)
        · exact ⟨_, Or.inl rfl, rfl⟩
        · exact ⟨u, Or.inr (Or.inl hu), h⟩
        · exact ⟨u, Or.inr (Or.inr hu), h⟩
      · rintro ⟨u, rfl | hu | hu, h⟩
        · simp only [top, Option.some.injEq] at h
          exact Or.inl h.symm
        · exact Or.inr (Or.inl ⟨u, hu, h⟩)
        · exact Or.inr (Or.inr ⟨u, hu, h⟩)

theorem inputs_subset_of_mem_subtries {u t : Trie K V} (hu : u ∈ t.subtries) :
    u.inputs dig zero ⊆ t.inputs dig zero := by
  intro q hq
  obtain ⟨w, hw, h⟩ := mem_inputs_iff.mp hq
  exact mem_inputs_iff.mpr ⟨w, subtries_trans hu hw, h⟩

theorem hash_ne_zero {Q : Set (NodeInput K V D)} (hs : Separates dig zero Q) {t : Trie K V}
    (ht : ∀ q ∈ t.inputs dig zero, q ∈ Q) (hne : t ≠ empty) : t.hash dig zero ≠ zero := by
  cases t with
  | empty => exact absurd rfl hne
  | leaf k v => exact hs.ne_zero _ (ht _ (by simp [inputs]))
  | node l r => exact hs.ne_zero _ (ht _ (by simp [inputs]))

/-- On separated inputs the digest determines the trie. -/
theorem hash_inj {Q : Set (NodeInput K V D)} (hs : Separates dig zero Q) :
    ∀ {s t : Trie K V}, (∀ q ∈ s.inputs dig zero, q ∈ Q) → (∀ q ∈ t.inputs dig zero, q ∈ Q) →
      s.hash dig zero = t.hash dig zero → s = t
  | empty, t, _, ht, h => by
      by_contra hne
      exact hash_ne_zero hs ht (Ne.symm hne) h.symm
  | leaf k v, t, hsQ, ht, h => by
      cases t with
      | empty => exact absurd h (hash_ne_zero hs hsQ (by simp))
      | leaf k' v' =>
          have := hs.inj (hsQ _ (by simp [inputs])) (ht _ (by simp [inputs])) h
          injection this with e₁ e₂
          rw [e₁, e₂]
      | node l r =>
          have := hs.inj (hsQ _ (by simp [inputs])) (ht _ (by simp [inputs])) h
          cases this
  | node l r, t, hsQ, ht, h => by
      cases t with
      | empty => exact absurd h (hash_ne_zero hs hsQ (by simp))
      | leaf k v =>
          have := hs.inj (hsQ _ (by simp [inputs])) (ht _ (by simp [inputs])) h
          cases this
      | node l' r' =>
          have := hs.inj (hsQ _ (by simp [inputs])) (ht _ (by simp [inputs])) h
          injection this with e₁ e₂
          rw [hash_inj hs (fun q hq => hsQ q (by simp [inputs, hq]))
              (fun q hq => ht q (by simp [inputs, hq])) e₁,
            hash_inj hs (fun q hq => hsQ q (by simp [inputs, hq]))
              (fun q hq => ht q (by simp [inputs, hq])) e₂]

end Trie

/-! ### Content-addressed stores -/

section ContentStore

variable {ι α β : Type*} {addr : ι → α} {data : ι → β}

variable (addr data) in
/-- The store `m` holds exactly the items of `S`, each at its address. -/
def Realises (m : α → Option β) (S : Set ι) : Prop :=
  ∀ a b, m a = some b ↔ ∃ q ∈ S, addr q = a ∧ data q = b

theorem Realises.get {m : α → Option β} {S : Set ι} (h : Realises addr data m S) {q : ι}
    (hq : q ∈ S) : m (addr q) = some (data q) :=
  (h _ _).mpr ⟨q, hq, rfl, rfl⟩

theorem Realises.set [DecidableEq α] {m : α → Option β} {S : Set ι} (h : Realises addr data m S)
    {q : ι} (inj : Set.InjOn addr (insert q S)) :
    Realises addr data (Function.update m (addr q) (some (data q))) (insert q S) := by
  intro a b
  by_cases ha : a = addr q
  · subst ha
    rw [Function.update_self, Option.some.injEq]
    constructor
    · intro hb
      exact ⟨q, Set.mem_insert q S, rfl, hb⟩
    · rintro ⟨q', hq', he, hb⟩
      rw [inj hq' (Set.mem_insert q S) he] at hb
      exact hb
  · rw [Function.update_of_ne ha, h a b]
    constructor
    · rintro ⟨q', hq', he⟩
      exact ⟨q', Set.mem_insert_of_mem q hq', he⟩
    · rintro ⟨q', hq' | hq', he, hb⟩
      · subst hq'; exact absurd he.symm ha
      · exact ⟨q', hq', he, hb⟩

theorem Realises.remove [DecidableEq α] {m : α → Option β} {S : Set ι}
    (h : Realises addr data m S) {q : ι} (inj : Set.InjOn addr (insert q S)) :
    Realises addr data (Function.update m (addr q) none) (S \ {q}) := by
  intro a b
  by_cases ha : a = addr q
  · subst ha
    rw [Function.update_self]
    simp only [reduceCtorEq, Set.mem_sdiff, Set.mem_singleton_iff, false_iff]
    rintro ⟨q', ⟨hq', hne⟩, he, -⟩
    exact hne (inj (Set.mem_insert_of_mem q hq') (Set.mem_insert q S) he)
  · rw [Function.update_of_ne ha, h a b]
    constructor
    · rintro ⟨q', hq', he, hb⟩
      exact ⟨q', ⟨hq', by rintro rfl; exact ha he.symm⟩, he, hb⟩
    · rintro ⟨q', ⟨hq', -⟩, he⟩
      exact ⟨q', hq', he⟩

end ContentStore

end Enclave

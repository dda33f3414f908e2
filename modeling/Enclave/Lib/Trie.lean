import Mathlib

/-! # Canonical binary tries

A binary trie whose leaves carry their own key: a key is looked up along its bits, and a leaf
stands at the first level where it is alone, so that a branch always holds at least two leaves
(`Canon`).  Nothing here is about hashes or storage.

`walk` is the search, `plug` rebuilds a trie around the place where a search ended and `prune`
does so after that place became empty, pulling a lone leaf up.  The facts the rest is
built from:

* `Canon.length_walk_le_iff`: how far a search goes is a matter of the keys that share its bits;
* `Canon.ext`: a canonical trie is determined by its entries;
* `canon_plug`, `canon_fork`, `canon_prune`: replacing the end of a search by a leaf, by a pair
  of leaves, or by nothing keeps the canonical form;
* `not_mem_subtries_plug`: a branch on the old search path occurs nowhere in the new trie. -/

namespace Enclave

/-- Binary tries with keyed leaves. -/
inductive Trie (K V : Type*) where
  | empty
  | leaf (k : K) (v : V)
  | node (l r : Trie K V)
deriving DecidableEq

namespace Trie

variable {K V : Type*}

/-- The leaf `(k, v)` occurs in the trie. -/
def Has (k : K) (v : V) : Trie K V → Prop
  | empty => False
  | leaf k' v' => k' = k ∧ v' = v
  | node l r => l.Has k v ∨ r.Has k v

def size : Trie K V → ℕ
  | empty => 0
  | leaf _ _ => 1
  | node l r => l.size + r.size

/-- The nonempty subtries, the trie itself first. -/
def subtries : Trie K V → List (Trie K V)
  | empty => []
  | leaf k v => [leaf k v]
  | node l r => node l r :: (l.subtries ++ r.subtries)

/-- A branch. -/
def IsNode : Trie K V → Prop
  | node _ _ => True
  | _ => False

@[simp] theorem has_empty (k : K) (v : V) : (empty : Trie K V).Has k v ↔ False := Iff.rfl

@[simp] theorem has_leaf (k k' : K) (v v' : V) :
    (leaf k' v').Has k v ↔ k' = k ∧ v' = v := Iff.rfl

@[simp] theorem has_node (k : K) (v : V) (l r : Trie K V) :
    (node l r).Has k v ↔ l.Has k v ∨ r.Has k v := Iff.rfl

theorem exists_has_of_size_pos : ∀ {t : Trie K V}, 0 < t.size → ∃ k v, t.Has k v
  | leaf k v, _ => ⟨k, v, rfl, rfl⟩
  | node l r, h => by
      simp only [size] at h
      rcases Nat.lt_or_ge 0 l.size with hl | hl
      · obtain ⟨k, v, hk⟩ := exists_has_of_size_pos hl
        exact ⟨k, v, Or.inl hk⟩
      · obtain ⟨k, v, hk⟩ := exists_has_of_size_pos (t := r) (by omega)
        exact ⟨k, v, Or.inr hk⟩

theorem size_pos_of_has : ∀ {t : Trie K V} {k : K} {v : V}, t.Has k v → 0 < t.size
  | leaf _ _, _, _, _ => Nat.one_pos
  | node l r, _, _, h => by
      simp only [size]
      rcases h with h | h
      · have := size_pos_of_has h; omega
      · have := size_pos_of_has h; omega

theorem has_of_mem_subtries {k : K} {v : V} {u : Trie K V} (hu : u.Has k v) :
    ∀ {t : Trie K V}, u ∈ t.subtries → t.Has k v
  | leaf _ _, h => by rw [subtries, List.mem_singleton] at h; rwa [← h]
  | node l r, h => by
      rw [subtries, List.mem_cons, List.mem_append] at h
      rcases h with rfl | h | h
      · exact hu
      · exact Or.inl (has_of_mem_subtries hu h)
      · exact Or.inr (has_of_mem_subtries hu h)

theorem sizeOf_le_of_mem_subtries {u : Trie K V} :
    ∀ {t : Trie K V}, u ∈ t.subtries → sizeOf u ≤ sizeOf t
  | leaf _ _, h => by rw [subtries, List.mem_singleton] at h; rw [h]
  | node l r, h => by
      rw [subtries, List.mem_cons, List.mem_append] at h
      rw [node.sizeOf_spec]
      rcases h with rfl | h | h
      · rw [node.sizeOf_spec]
      · have := sizeOf_le_of_mem_subtries h; omega
      · have := sizeOf_le_of_mem_subtries h; omega

theorem mem_subtries_self {t : Trie K V} (h : 0 < t.size) : t ∈ t.subtries := by
  cases t with
  | empty => exact absurd h (by simp [size])
  | leaf k v => exact List.mem_singleton.mpr rfl
  | node l r => exact List.mem_cons_self

theorem subtries_trans {s u : Trie K V} :
    ∀ {t : Trie K V}, u ∈ t.subtries → s ∈ u.subtries → s ∈ t.subtries
  | leaf _ _, hu, hs => by rw [subtries, List.mem_singleton] at hu; rwa [hu] at hs
  | node l r, hu, hs => by
      rw [subtries, List.mem_cons, List.mem_append] at hu
      rcases hu with rfl | hu | hu
      · exact hs
      · exact List.mem_cons_of_mem _ (List.mem_append_left _ (subtries_trans hu hs))
      · exact List.mem_cons_of_mem _ (List.mem_append_right _ (subtries_trans hu hs))

/-! ### Search and rebuilding

`p` is the path: the bits of the key that is looked for. -/

/-- Search along `p` from level `i`: the siblings passed, top first, and where the search ends
(an empty trie or a leaf). -/
def walk (p : ℕ → Bool) : ℕ → Trie K V → List (Trie K V) × Trie K V
  | _, empty => ([], empty)
  | _, leaf k v => ([], leaf k v)
  | i, node l r =>
      if p i then (l :: (walk p (i + 1) r).1, (walk p (i + 1) r).2)
      else (r :: (walk p (i + 1) l).1, (walk p (i + 1) l).2)

/-- The trie with `t` at the end of the path `p` from level `i` and `sibs` beside the path. -/
def plug (p : ℕ → Bool) : ℕ → List (Trie K V) → Trie K V → Trie K V
  | _, [], t => t
  | i, s :: sibs, t => if p i then node s (plug p (i + 1) sibs t) else node (plug p (i + 1) sibs t) s

/-- The branches of `plug p i sibs t` on the path, top first. -/
def spine (p : ℕ → Bool) : ℕ → List (Trie K V) → Trie K V → List (Trie K V)
  | _, [], _ => []
  | i, s :: sibs, t => plug p i (s :: sibs) t :: spine p (i + 1) sibs t

/-- A branch, unless at most one leaf is below it. -/
def join : Trie K V → Trie K V → Trie K V
  | empty, empty => empty
  | empty, leaf k v => leaf k v
  | leaf k v, empty => leaf k v
  | l, r => node l r

/-- `plug` with `join` for the branches: the trie left when the end of the path is removed. -/
def prune (p : ℕ → Bool) : ℕ → List (Trie K V) → Trie K V → Trie K V
  | _, [], t => t
  | i, s :: sibs, t =>
      if p i then join s (prune p (i + 1) sibs t) else join (prune p (i + 1) sibs t) s

theorem plug_walk (p : ℕ → Bool) : ∀ (i : ℕ) (t : Trie K V),
    plug p i (walk p i t).1 (walk p i t).2 = t
  | _, empty => rfl
  | _, leaf _ _ => rfl
  | i, node l r => by
      cases hp : p i
      · simp [walk, plug, hp, plug_walk p (i + 1) l]
      · simp [walk, plug, hp, plug_walk p (i + 1) r]

theorem walk_end (p : ℕ → Bool) : ∀ (i : ℕ) (t : Trie K V),
    (walk p i t).2 = empty ∨ ∃ k v, (walk p i t).2 = leaf k v
  | _, empty => Or.inl rfl
  | _, leaf k v => Or.inr ⟨k, v, rfl⟩
  | i, node l r => by
      cases hp : p i
      · simpa [walk, hp] using walk_end p (i + 1) l
      · simpa [walk, hp] using walk_end p (i + 1) r

theorem walk_plug (p : ℕ → Bool) {t : Trie K V} (ht : ¬ t.IsNode) : ∀ (i : ℕ) (sibs : List (Trie K V)),
    walk p i (plug p i sibs t) = (sibs, t)
  | i, [] => by cases t <;> first | rfl | exact absurd trivial ht
  | i, s :: sibs => by
      cases hp : p i <;> simp [plug, walk, hp, walk_plug p ht (i + 1) sibs]

theorem plug_append (p : ℕ → Bool) (t : Trie K V) : ∀ (i : ℕ) (a b : List (Trie K V)),
    plug p i (a ++ b) t = plug p i a (plug p (i + a.length) b t)
  | i, [], b => by simp [plug]
  | i, s :: a, b => by
      simp only [List.cons_append, plug, plug_append p t (i + 1) a b, List.length_cons]
      rw [show i + 1 + a.length = i + (a.length + 1) by omega]

theorem plug_congr {p q : ℕ → Bool} (t : Trie K V) : ∀ {i : ℕ} {sibs : List (Trie K V)},
    (∀ j, i ≤ j → j < i + sibs.length → p j = q j) → plug p i sibs t = plug q i sibs t
  | _, [], _ => rfl
  | i, s :: sibs, h => by
      rw [List.length_cons] at h
      rw [plug, plug, h i le_rfl (by omega),
        plug_congr t fun j hj hj' => h j (by omega) (by omega)]

@[simp] theorem has_plug (p : ℕ → Bool) (k : K) (v : V) (t : Trie K V) :
    ∀ (i : ℕ) (sibs : List (Trie K V)),
      (plug p i sibs t).Has k v ↔ (∃ s ∈ sibs, s.Has k v) ∨ t.Has k v
  | i, [] => by simp [plug]
  | i, s :: sibs => by
      have ih := has_plug p k v t (i + 1) sibs
      cases hp : p i <;> simp [plug, hp, ih, or_comm, or_left_comm]

theorem mem_subtries_plug (p : ℕ → Bool) (u t : Trie K V) : ∀ (i : ℕ) (sibs : List (Trie K V)),
    u ∈ (plug p i sibs t).subtries ↔
      u ∈ spine p i sibs t ∨ (∃ s ∈ sibs, u ∈ s.subtries) ∨ u ∈ t.subtries
  | i, [] => by simp [plug, spine]
  | i, s :: sibs => by
      have ih := mem_subtries_plug p u t (i + 1) sibs
      cases hp : p i <;> simp [plug, spine, subtries, hp, ih, or_assoc, or_comm, or_left_comm]

theorem isNode_of_mem_spine (p : ℕ → Bool) {u t : Trie K V} : ∀ {i : ℕ} {sibs : List (Trie K V)},
    u ∈ spine p i sibs t → u.IsNode
  | i, s :: sibs, h => by
      rw [spine, List.mem_cons] at h
      rcases h with rfl | h
      · cases hp : p i <;> simp [plug, hp, IsNode]
      · exact isNode_of_mem_spine p h

theorem has_of_mem_spine (p : ℕ → Bool) {u t : Trie K V} {k : K} {v : V} (ht : t.Has k v) :
    ∀ {i : ℕ} {sibs : List (Trie K V)}, u ∈ spine p i sibs t → u.Has k v
  | i, s :: sibs, h => by
      rw [spine, List.mem_cons] at h
      rcases h with rfl | h
      · exact (has_plug p k v t i _).mpr (Or.inr ht)
      · exact has_of_mem_spine p ht h

theorem sizeOf_lt_plug (p : ℕ → Bool) {s t : Trie K V} : ∀ {i : ℕ} {sibs : List (Trie K V)},
    s ∈ sibs → sizeOf s < sizeOf (plug p i sibs t)
  | i, s' :: sibs, h => by
      have hpos : sizeOf s' < sizeOf (plug p i (s' :: sibs) t) ∧
          sizeOf (plug p (i + 1) sibs t) < sizeOf (plug p i (s' :: sibs) t) := by
        cases hp : p i <;> simp [plug, hp] <;> omega
      rcases List.mem_cons.mp h with rfl | h
      · exact hpos.1
      · exact (sizeOf_lt_plug p h).trans hpos.2

theorem has_join (k : K) (v : V) (l r : Trie K V) :
    (join l r).Has k v ↔ l.Has k v ∨ r.Has k v := by
  cases l <;> cases r <;> simp [join]

theorem has_prune (p : ℕ → Bool) (k : K) (v : V) (t : Trie K V) :
    ∀ (i : ℕ) (sibs : List (Trie K V)),
      (prune p i sibs t).Has k v ↔ (∃ s ∈ sibs, s.Has k v) ∨ t.Has k v
  | i, [] => by simp [prune]
  | i, s :: sibs => by
      have ih := has_prune p k v t (i + 1) sibs
      cases hp : p i <;> simp [prune, hp, has_join, ih, or_comm, or_left_comm]

/-! ### Levels of a path -/

/-- The branch of `s` and `t`, `t` on the side of `b`. -/
def branch (b : Bool) (s t : Trie K V) : Trie K V := if b then node s t else node t s

/-- `join` with `t` on the side of `b`. -/
def joinAt (b : Bool) (s t : Trie K V) : Trie K V := if b then join s t else join t s

theorem plug_cons (p : ℕ → Bool) (i : ℕ) (s : Trie K V) (sibs : List (Trie K V)) (t : Trie K V) :
    plug p i (s :: sibs) t = branch (p i) s (plug p (i + 1) sibs t) := rfl

theorem prune_cons (p : ℕ → Bool) (i : ℕ) (s : Trie K V) (sibs : List (Trie K V)) (t : Trie K V) :
    prune p i (s :: sibs) t = joinAt (p i) s (prune p (i + 1) sibs t) := rfl

theorem isNode_branch (b : Bool) (s t : Trie K V) : (branch b s t).IsNode := by
  cases b <;> exact trivial

instance : DecidablePred (IsNode (K := K) (V := V))
  | node _ _ => isTrue trivial
  | empty => isFalse id
  | leaf _ _ => isFalse id

/-- A lone leaf is pulled up past an empty sibling; everything else gets a branch. -/
theorem joinAt_eq [DecidableEq (Trie K V)] (b : Bool) {s t : Trie K V} (h : s.IsNode ∨ t ≠ empty) :
    joinAt b s t = if s = empty ∧ ¬ t.IsNode then t else branch b s t := by
  cases b <;> cases s <;> cases t <;> simp_all [joinAt, join, branch, IsNode]

/-- The levels of a path from level `i` on: each with the siblings from there on. -/
def levels : ℕ → List (Trie K V) → List (ℕ × List (Trie K V))
  | _, [] => []
  | i, s :: sibs => (i, s :: sibs) :: levels (i + 1) sibs

theorem spine_eq_map_levels (p : ℕ → Bool) (t : Trie K V) : ∀ (i : ℕ) (sibs : List (Trie K V)),
    spine p i sibs t = (levels i sibs).map fun x => plug p x.1 x.2 t
  | _, [] => rfl
  | i, s :: sibs => by rw [spine, levels, List.map_cons, spine_eq_map_levels p t (i + 1) sibs]

theorem mem_spine_iff (p : ℕ → Bool) (t u : Trie K V) (i : ℕ) (sibs : List (Trie K V)) :
    u ∈ spine p i sibs t ↔ ∃ x ∈ levels i sibs, u = plug p x.1 x.2 t := by
  rw [spine_eq_map_levels, List.mem_map]
  exact exists_congr fun x => and_congr_right fun _ => eq_comm

theorem exists_append_of_mem_levels {x : ℕ × List (Trie K V)} :
    ∀ {i : ℕ} {sibs : List (Trie K V)}, x ∈ levels i sibs →
      ∃ a s r, sibs = a ++ s :: r ∧ x = (i + a.length, s :: r)
  | i, s :: sibs, h => by
      rw [levels, List.mem_cons] at h
      rcases h with rfl | h
      · exact ⟨[], s, sibs, rfl, rfl⟩
      · obtain ⟨a, s', r, hsib, hx⟩ := exists_append_of_mem_levels h
        refine ⟨s :: a, s', r, by rw [hsib]; rfl, ?_⟩
        rw [hx, List.length_cons, Nat.add_right_comm, Nat.add_assoc]

theorem mem_subtries_joinAt (b : Bool) (u s t : Trie K V) :
    u ∈ (joinAt b s t).subtries ↔
      ((joinAt b s t).IsNode ∧ u = joinAt b s t) ∨ u ∈ s.subtries ∨ u ∈ t.subtries := by
  cases b <;> cases s <;> cases t <;>
    simp [joinAt, join, subtries, IsNode, or_assoc, or_comm, or_left_comm]

theorem mem_subtries_prune (p : ℕ → Bool) (u t : Trie K V) : ∀ (i : ℕ) (sibs : List (Trie K V)),
    u ∈ (prune p i sibs t).subtries ↔
      (∃ x ∈ levels i sibs, (prune p x.1 x.2 t).IsNode ∧ u = prune p x.1 x.2 t) ∨
        (∃ s ∈ sibs, u ∈ s.subtries) ∨ u ∈ t.subtries
  | i, [] => by simp [prune, levels]
  | i, s :: sibs => by
      rw [prune_cons, mem_subtries_joinAt, mem_subtries_prune p u t (i + 1) sibs]
      simp only [levels, List.mem_cons, exists_eq_or_imp, prune_cons, or_assoc, or_left_comm]

theorem prune_append (p : ℕ → Bool) (t : Trie K V) : ∀ (i : ℕ) (a b : List (Trie K V)),
    prune p i (a ++ b) t = prune p i a (prune p (i + a.length) b t)
  | i, [], b => by simp [prune]
  | i, s :: a, b => by
      simp only [List.cons_append, prune, prune_append p t (i + 1) a b, List.length_cons]
      rw [show i + 1 + a.length = i + (a.length + 1) by omega]

/-! ### The canonical form -/

section Canonical

variable (bit : K → ℕ → Bool)

/-- Canonical at level `i`: every branch holds at least two leaves and its leaves stand on the
side their own bit names. -/
def Canon : ℕ → Trie K V → Prop
  | _, empty => True
  | _, leaf _ _ => True
  | i, node l r => 2 ≤ l.size + r.size ∧ (∀ k v, l.Has k v → bit k i = false) ∧
      (∀ k v, r.Has k v → bit k i = true) ∧ Canon (i + 1) l ∧ Canon (i + 1) r

variable {bit}

theorem Canon.isNode_iff {i : ℕ} {t : Trie K V} (h : t.Canon bit i) : t.IsNode ↔ 2 ≤ t.size := by
  cases t with
  | empty => simp [IsNode, size]
  | leaf k v => simp [IsNode, size]
  | node l r => simpa [IsNode, size] using h.1

theorem Canon.eq_empty {i : ℕ} {t : Trie K V} (h : t.Canon bit i) (h0 : ∀ k v, ¬ t.Has k v) :
    t = empty := by
  cases t with
  | empty => rfl
  | leaf k v => exact absurd ⟨rfl, rfl⟩ (h0 k v)
  | node l r =>
      obtain ⟨k, v, hk⟩ := exists_has_of_size_pos (t := node l r) (by simp only [size]; have := h.1; omega)
      exact absurd hk (h0 k v)

/-- A branch has two leaves whose keys differ at some level from its own on. -/
theorem Canon.exists_diverge : ∀ {i : ℕ} {t : Trie K V}, t.Canon bit i → 2 ≤ t.size →
    ∃ k v k' v' j, t.Has k v ∧ t.Has k' v' ∧ i ≤ j ∧ bit k j = false ∧ bit k' j = true
  | _, empty, _, h => absurd h (by simp [size])
  | _, leaf _ _, _, h => absurd h (by simp [size])
  | i, node l r, ⟨hsz, hl, hr, cl, cr⟩, _ => by
      rcases Nat.eq_zero_or_pos l.size with h0 | hl0
      · obtain ⟨k, v, k', v', j, h1, h2, hj, hb⟩ := cr.exists_diverge (by omega)
        exact ⟨k, v, k', v', j, Or.inr h1, Or.inr h2, by omega, hb⟩
      · rcases Nat.eq_zero_or_pos r.size with h0 | hr0
        · obtain ⟨k, v, k', v', j, h1, h2, hj, hb⟩ := cl.exists_diverge (by omega)
          exact ⟨k, v, k', v', j, Or.inl h1, Or.inl h2, by omega, hb⟩
        · obtain ⟨k, v, hk⟩ := exists_has_of_size_pos hl0
          obtain ⟨k', v', hk'⟩ := exists_has_of_size_pos hr0
          exact ⟨k, v, k', v', i, Or.inl hk, Or.inr hk', le_rfl, hl k v hk, hr k' v' hk'⟩

/-- If no key has a bit set from level `n` on, branches stand below level `n`. -/
theorem Canon.level_lt {n i : ℕ} (hn : ∀ k j, n ≤ j → bit k j = false) {t : Trie K V}
    (h : t.Canon bit i) (ht : t.IsNode) : i < n := by
  obtain ⟨_, _, k', _, j, -, -, hij, -, hb⟩ := h.exists_diverge (h.isNode_iff.mp ht)
  by_contra hlt
  rw [hn k' j (by omega)] at hb
  cases hb

theorem Canon.length_walk_le {n : ℕ} (hn : ∀ k j, n ≤ j → bit k j = false) (p : ℕ → Bool) :
    ∀ {i : ℕ} {t : Trie K V}, i ≤ n → t.Canon bit i → i + (walk p i t).1.length ≤ n
  | i, empty, hi, _ => by simpa [walk] using hi
  | i, leaf _ _, hi, _ => by simpa [walk] using hi
  | i, node l r, hi, h => by
      have hlt := h.level_lt hn trivial
      obtain ⟨-, -, -, cl, cr⟩ := h
      cases hp : p i
      · have := cl.length_walk_le hn p (by omega : i + 1 ≤ n)
        simp only [walk, hp, Bool.false_eq_true, if_false, List.length_cons]; omega
      · have := cr.length_walk_le hn p (by omega : i + 1 ≤ n)
        simp only [walk, hp, if_true, List.length_cons]; omega

/-- One level of `getLast_walk_ne_empty`: `a` is the side walked into, `b` its sibling. -/
theorem Canon.getLast_cons_walk_ne_empty (p : ℕ → Bool) {i : ℕ} {a b : Trie K V}
    (ca : a.Canon bit i) (hab : 2 ≤ a.size + b.size)
    (ih : ∀ s ∈ (walk p i a).1.getLast?, s ≠ empty) :
    ∀ s ∈ (b :: (walk p i a).1).getLast?, s ≠ empty := by
  intro s hs
  cases hw : (walk p i a).1 with
  | nil =>
      rw [hw] at hs
      have hsb : b = s := by simpa using hs
      subst hsb
      rintro rfl
      have hnode : a.IsNode := ca.isNode_iff.mpr (by simpa [size] using hab)
      cases a with
      | node x y => cases hp : p i <;> simp [walk, hp] at hw
      | empty => exact hnode
      | leaf k v => exact hnode
  | cons x xs =>
      rw [hw, List.getLast?_cons_cons] at hs
      rw [hw] at ih
      exact ih s hs

theorem Canon.getLast_walk_ne_empty (p : ℕ → Bool) : ∀ {i : ℕ} {t : Trie K V}, t.Canon bit i →
    ∀ s ∈ (walk p i t).1.getLast?, s ≠ empty
  | _, empty, _ => by simp [walk]
  | _, leaf _ _, _ => by simp [walk]
  | i, node l r, ⟨hsz, _, _, cl, cr⟩ => by
      cases hp : p i
      · simpa [walk, hp] using
          cl.getLast_cons_walk_ne_empty p hsz (cl.getLast_walk_ne_empty p)
      · simpa [walk, hp] using
          cr.getLast_cons_walk_ne_empty p (by omega) (cr.getLast_walk_ne_empty p)

theorem Canon.agree_of_plug (p : ℕ → Bool) {t : Trie K V} {k : K} {v : V} (ht : t.Has k v) :
    ∀ {i : ℕ} {sibs : List (Trie K V)}, (plug p i sibs t).Canon bit i →
      ∀ j, i ≤ j → j < i + sibs.length → bit k j = p j
  | i, [], _, j, h1, h2 => by simp at h2; omega
  | i, s :: sibs, hc, j, h1, h2 => by
      have hk : (plug p (i + 1) sibs t).Has k v := (has_plug p k v t _ _).mpr (Or.inr ht)
      simp only [List.length_cons] at h2
      cases hp : p i <;> simp only [plug, hp, if_true, Bool.false_eq_true, if_false, Canon] at hc
      all_goals
        rcases Nat.eq_or_lt_of_le h1 with rfl | hlt
        · first | exact (hc.2.1 k v hk).trans hp.symm | exact (hc.2.2.1 k v hk).trans hp.symm
        · first
            | exact agree_of_plug p ht hc.2.2.2.1 j hlt (by omega)
            | exact agree_of_plug p ht hc.2.2.2.2 j hlt (by omega)

theorem Canon.of_plug (p : ℕ → Bool) {t : Trie K V} : ∀ {i : ℕ} {sibs : List (Trie K V)},
    (plug p i sibs t).Canon bit i → t.Canon bit (i + sibs.length)
  | i, [], hc => by simpa [plug] using hc
  | i, s :: sibs, hc => by
      rw [List.length_cons, show i + (sibs.length + 1) = i + 1 + sibs.length by omega]
      cases hp : p i <;> simp only [plug, hp, if_true, Bool.false_eq_true, if_false, Canon] at hc
      · exact of_plug p hc.2.2.2.1
      · exact of_plug p hc.2.2.2.2

theorem Canon.has_iff_walk {k : K} {v : V} : ∀ {i : ℕ} {t : Trie K V}, t.Canon bit i →
    (t.Has k v ↔ (walk (bit k) i t).2 = leaf k v)
  | _, empty, _ => by simp [walk]
  | _, leaf k' v', _ => by simp [walk]
  | i, node l r, ⟨_, hl, hr, cl, cr⟩ => by
      cases hp : bit k i
      · have hno : ¬ r.Has k v := fun h => by have := hr k v h; rw [hp] at this; cases this
        simp [walk, hp, hno, cl.has_iff_walk]
      · have hno : ¬ l.Has k v := fun h => by have := hl k v h; rw [hp] at this; cases this
        simp [walk, hp, hno, cr.has_iff_walk]

/-! ### The length of a search -/

theorem Canon.ne_of_node {i : ℕ} {l r : Trie K V} (h : (node l r).Canon bit i) : l ≠ r := by
  rintro rfl
  obtain ⟨hsize, hl, hr, -, -⟩ := h
  obtain ⟨k, v, hk⟩ := exists_has_of_size_pos (t := l) (by omega)
  have hbit := (hl k v hk).symm.trans (hr k v hk)
  cases hbit

variable (bit) in
/-- The key has the bits of the path in `d` levels from level `i` on. -/
def Agrees (p : ℕ → Bool) (i d : ℕ) (k : K) : Prop := ∀ j, i ≤ j → j < i + d → bit k j = p j

theorem agrees_zero (p : ℕ → Bool) (i : ℕ) (k : K) : Agrees bit p i 0 k :=
  fun j hj hj' => absurd hj' (by omega)

theorem agrees_succ {p : ℕ → Bool} {i d : ℕ} {k : K} :
    Agrees bit p i (d + 1) k ↔ bit k i = p i ∧ Agrees bit p (i + 1) d k := by
  constructor
  · intro h
    exact ⟨h i le_rfl (by omega), fun j hj hj' => h j (by omega) (by omega)⟩
  · rintro ⟨hi, h⟩ j hj hj'
    obtain rfl | hlt := Nat.eq_or_lt_of_le hj
    · exact hi
    · exact h j hlt (by omega)

variable (bit) in
/-- At most one key of the trie has the bits of the path in `d` levels from level `i` on. -/
def AtMostOne (p : ℕ → Bool) (i d : ℕ) (t : Trie K V) : Prop :=
  ∀ k v k' v', t.Has k v → t.Has k' v' → Agrees bit p i d k → Agrees bit p i d k' → k = k'

/-- Only the side that the path goes to matters. -/
theorem atMostOne_succ {p : ℕ → Bool} {i d : ℕ} {a b t : Trie K V}
    (ht : ∀ k v, t.Has k v ↔ a.Has k v ∨ b.Has k v) (ha : ∀ k v, a.Has k v → bit k i = p i)
    (hb : ∀ k v, b.Has k v → bit k i ≠ p i) :
    AtMostOne bit p i (d + 1) t ↔ AtMostOne bit p (i + 1) d a := by
  have hside : ∀ k v, t.Has k v → Agrees bit p i (d + 1) k → a.Has k v := fun k v hk hag =>
    ((ht k v).mp hk).resolve_right fun h => hb k v h (agrees_succ.mp hag).1
  constructor
  · intro h k v k' v' hk hk' hag hag'
    exact h k v k' v' ((ht k v).mpr (Or.inl hk)) ((ht k' v').mpr (Or.inl hk'))
      (agrees_succ.mpr ⟨ha k v hk, hag⟩) (agrees_succ.mpr ⟨ha k' v' hk', hag'⟩)
  · intro h k v k' v' hk hk' hag hag'
    exact h k v k' v' (hside k v hk hag) (hside k' v' hk' hag') (agrees_succ.mp hag).2
      (agrees_succ.mp hag').2

/-- **The length of a search**: it passes at most `d` branches exactly if at most one key has the
bits of the path in `d` levels. -/
theorem Canon.length_walk_le_iff (p : ℕ → Bool) : ∀ {d i : ℕ} {t : Trie K V}, t.Canon bit i →
    ((walk p i t).1.length ≤ d ↔ AtMostOne bit p i d t)
  | d, i, empty, _ => by simp [walk, AtMostOne]
  | d, i, leaf k v, _ => by
      refine ⟨fun _ a x b y ha hb _ _ => ha.1.symm.trans hb.1, fun _ => Nat.zero_le _⟩
  | 0, i, node l r, h => by
      have hlong : ¬ (walk p i (node l r)).1.length ≤ 0 := by
        cases hp : p i <;> simp [walk, hp]
      refine ⟨fun hle => absurd hle hlong, fun hone => ?_⟩
      obtain ⟨k, v, k', v', j, hk, hk', -, h0, h1⟩ := h.exists_diverge (h.isNode_iff.mp trivial)
      rw [hone k v k' v' hk hk' (agrees_zero p i k) (agrees_zero p i k'), h1] at h0
      cases h0
  | d + 1, i, node l r, h => by
      obtain ⟨-, hl, hr, cl, cr⟩ := h
      cases hp : p i
      · rw [atMostOne_succ (has_node · · l r) (fun k v hk => (hl k v hk).trans hp.symm)
          fun k v hk => by simp [hr k v hk, hp],
          ← cl.length_walk_le_iff p]
        simp [walk, hp]
      · rw [atMostOne_succ (fun k v => (has_node k v l r).trans or_comm)
          (fun k v hk => (hr k v hk).trans hp.symm)
          fun k v hk => by simp [hl k v hk, hp],
          ← cr.length_walk_le_iff p]
        simp [walk, hp]

/-! ### Entries -/

/-- **A canonical trie is determined by its entries.** -/
theorem Canon.ext : ∀ {i : ℕ} {t t' : Trie K V}, t.Canon bit i → t'.Canon bit i →
    (∀ k v, t.Has k v ↔ t'.Has k v) → t = t'
  | _, empty, _, _, hc', h => (hc'.eq_empty fun k v hk => (h k v).mpr hk).symm
  | i, leaf k v, t', _, hc', h => by
      have hkv : t'.Has k v := (h k v).mp ⟨rfl, rfl⟩
      cases t' with
      | empty => cases hkv
      | leaf k' v' => rw [hkv.1, hkv.2]
      | node l r =>
          -- two leaves of a branch differ at some level, but both are `k`
          obtain ⟨a, x, b, y, j, ha, hb, -, h0, h1⟩ := Canon.exists_diverge (t := node l r) hc' hc'.1
          have ea := ((h a x).mpr ha).1
          have eb := ((h b y).mpr hb).1
          rw [← ea] at h0; rw [← eb, h0] at h1; cases h1
  | i, node l r, t', hc, hc', h => by
      cases t' with
      | empty =>
          have := hc.eq_empty fun k v hk => (h k v).mp hk
          cases this
      | leaf k v =>
          obtain ⟨a, x, b, y, j, ha, hb, -, h0, h1⟩ := Canon.exists_diverge (t := node l r) hc hc.1
          have ea := ((h a x).mp ha).1
          have eb := ((h b y).mp hb).1
          rw [← ea] at h0; rw [← eb, h0] at h1; cases h1
      | node l' r' =>
          obtain ⟨-, hl, hr, cl, cr⟩ := hc
          obtain ⟨-, hl', hr', cl', cr'⟩ := hc'
          have el : l = l' := by
            refine cl.ext cl' fun k v => ⟨fun hk => ?_, fun hk => ?_⟩
            · rcases (h k v).mp (Or.inl hk) with h' | h'
              · exact h'
              · have := (hl k v hk).symm.trans (hr' k v h'); cases this
            · rcases (h k v).mpr (Or.inl hk) with h' | h'
              · exact h'
              · have := (hl' k v hk).symm.trans (hr k v h'); cases this
          have er : r = r' := by
            refine cr.ext cr' fun k v => ⟨fun hk => ?_, fun hk => ?_⟩
            · rcases (h k v).mp (Or.inr hk) with h' | h'
              · have := (hl' k v h').symm.trans (hr k v hk); cases this
              · exact h'
            · rcases (h k v).mpr (Or.inr hk) with h' | h'
              · have := (hl k v h').symm.trans (hr' k v hk); cases this
              · exact h'
          rw [el, er]

/-! ### Replacing the end of a search -/

/-- Replacing the end of the path by a canonical trie with at least as many leaves, all of them
on the path, keeps the canonical form. -/
theorem canon_plug (p : ℕ → Bool) {old new : Trie K V} (hsz : old.size ≤ new.size) :
    ∀ {i : ℕ} {sibs : List (Trie K V)}, (plug p i sibs old).Canon bit i →
      new.Canon bit (i + sibs.length) →
      (∀ k v, new.Has k v → ∀ j, i ≤ j → j < i + sibs.length → bit k j = p j) →
      (plug p i sibs new).Canon bit i
  | i, [], _, hn, _ => by simpa [plug] using hn
  | i, s :: sibs, hc, hn, hp => by
      have hmono : ∀ (i : ℕ) (sibs : List (Trie K V)),
          (plug p i sibs old).size ≤ (plug p i sibs new).size := by
        intro i sibs
        induction sibs generalizing i with
        | nil => simpa [plug] using hsz
        | cons s sibs ih =>
            have := ih (i + 1)
            cases hp : p i <;> simp [plug, hp, size] <;> omega
      have hm := hmono (i + 1) sibs
      simp only [List.length_cons] at hn hp
      have hn' : new.Canon bit (i + 1 + sibs.length) := by
        rwa [show i + 1 + sibs.length = i + (sibs.length + 1) by omega]
      have hp' : ∀ k v, new.Has k v → ∀ j, i + 1 ≤ j → j < i + 1 + sibs.length → bit k j = p j :=
        fun k v hk j h1 h2 => hp k v hk j (by omega) (by omega)
      -- the leaves below the path after the step are the old siblings' and the new ones
      have hbit : ∀ k v, (plug p (i + 1) sibs new).Has k v →
          (∀ k v, (plug p (i + 1) sibs old).Has k v → bit k i = p i) → bit k i = p i := by
        intro k v hk hold
        rcases (has_plug p k v new _ _).mp hk with hk | hk
        · exact hold k v ((has_plug p k v old _ _).mpr (Or.inl hk))
        · exact hp k v hk i le_rfl (by omega)
      cases hpi : p i <;>
        simp only [plug, hpi, if_true, Bool.false_eq_true, if_false, Canon] at hc hbit ⊢
      · obtain ⟨h2, hl, hr, cl, cr⟩ := hc
        exact ⟨by omega, fun k v hk => hbit k v hk hl, hr, canon_plug p hsz cl hn' hp', cr⟩
      · obtain ⟨h2, hl, hr, cl, cr⟩ := hc
        exact ⟨by omega, hl, fun k v hk => hbit k v hk hr, cl, canon_plug p hsz cr hn' hp'⟩

/-- Two leaves that part after `z` more levels, with empty siblings down to there. -/
theorem canon_fork {k k' : K} (v v' : V) : ∀ {z i : ℕ},
    (∀ j, i ≤ j → j < i + z → bit k' j = bit k j) → bit k' (i + z) ≠ bit k (i + z) →
    (plug (bit k) i (List.replicate z empty ++ [leaf k' v']) (leaf k v)).Canon bit i
  | 0, i, _, hne => by
      simp only [List.replicate_zero, List.nil_append, plug]
      cases hp : bit k i <;> cases hp' : bit k' i <;> simp_all [Canon, size]
  | z + 1, i, hag, hne => by
      have ih : (plug (bit k) (i + 1) (List.replicate z empty ++ [leaf k' v']) (leaf k v)).Canon
          bit (i + 1) :=
        canon_fork v v' (fun j h1 h2 => hag j (by omega) (by omega))
          (by rwa [show i + 1 + z = i + (z + 1) by omega])
      have hsize : ∀ (z i : ℕ), (plug (bit k) i (List.replicate z empty ++ [leaf k' v'])
          (leaf k v)).size = 2 := by
        intro z
        induction z with
        | zero => intro i; cases hp : bit k i <;> simp [plug, hp, size]
        | succ z ih =>
            intro i
            cases hp : bit k i <;> simp [List.replicate_succ, plug, hp, size, ih]
      have hmem : ∀ x y, (plug (bit k) (i + 1) (List.replicate z empty ++ [leaf k' v'])
          (leaf k v)).Has x y → bit x i = bit k i := by
        intro x y h
        rcases (has_plug _ _ _ _ _ _).mp h with ⟨s, hs, h⟩ | h
        · rcases List.mem_append.mp hs with hs | hs
          · rw [List.eq_of_mem_replicate hs] at h; cases h
          · rw [List.mem_singleton.mp hs] at h
            rw [← h.1]; exact hag i le_rfl (by omega)
        · rw [h.1]
      rw [List.replicate_succ, List.cons_append, plug]
      cases hp : bit k i <;> simp only [if_true, Bool.false_eq_true, if_false, Canon]
      · exact ⟨by rw [hsize]; simp [size], fun x y h => (hmem x y h).trans hp,
          fun x y h => (by cases h), ih, trivial⟩
      · exact ⟨by rw [hsize]; simp [size], fun x y h => (by cases h),
          fun x y h => (hmem x y h).trans hp, trivial, ih⟩

theorem canon_join {i : ℕ} {l r : Trie K V} (hl : ∀ k v, l.Has k v → bit k i = false)
    (hr : ∀ k v, r.Has k v → bit k i = true) (cl : l.Canon bit (i + 1)) (cr : r.Canon bit (i + 1)) :
    (join l r).Canon bit i := by
  cases l with
  | empty =>
      cases r with
      | empty => trivial
      | leaf k v => trivial
      | node a b => exact ⟨by have := cr.1; simp only [size]; omega, hl, hr, cl, cr⟩
  | leaf k v =>
      cases r with
      | empty => trivial
      | leaf k' v' => exact ⟨by simp [size], hl, hr, cl, cr⟩
      | node a b => exact ⟨by have := cr.1; simp only [size]; omega, hl, hr, cl, cr⟩
  | node a b =>
      have h2 : 2 ≤ (node a b).size + r.size := by have := cl.1; simp only [size]; omega
      cases r <;> exact ⟨h2, hl, hr, cl, cr⟩

/-- Emptying the end of the path and joining upwards keeps the canonical form. -/
theorem canon_prune (p : ℕ → Bool) {t : Trie K V} : ∀ {i : ℕ} {sibs : List (Trie K V)},
    (plug p i sibs t).Canon bit i → (prune p i sibs (empty : Trie K V)).Canon bit i
  | i, [], _ => trivial
  | i, s :: sibs, hc => by
      have hbit : (∀ k v, (plug p (i + 1) sibs t).Has k v → bit k i = p i) →
          ∀ k v, (prune p (i + 1) sibs (empty : Trie K V)).Has k v → bit k i = p i := by
        intro hold k v hk
        rcases (has_prune p k v _ _ _).mp hk with hk | hk
        · exact hold k v ((has_plug p k v t _ _).mpr (Or.inl hk))
        · cases hk
      cases hpi : p i <;>
        simp only [plug, prune, hpi, if_true, Bool.false_eq_true, if_false, Canon] at hc hbit ⊢
      · obtain ⟨-, hl, hr, cl, cr⟩ := hc
        exact canon_join (hbit hl) hr (canon_prune p cl) cr
      · obtain ⟨-, hl, hr, cl, cr⟩ := hc
        exact canon_join hl (hbit hr) cl (canon_prune p cr)

theorem Canon.exists_of_mem_subtries {u : Trie K V} : ∀ {i : ℕ} {t : Trie K V}, t.Canon bit i →
    u ∈ t.subtries → ∃ j, u.Canon bit j
  | i, leaf k v, hc, h => ⟨i, by rw [subtries, List.mem_singleton] at h; rwa [h]⟩
  | i, node l r, hc, h => by
      rw [subtries, List.mem_cons, List.mem_append] at h
      rcases h with rfl | h | h
      · exact ⟨i, hc⟩
      · exact hc.2.2.2.1.exists_of_mem_subtries h
      · exact hc.2.2.2.2.exists_of_mem_subtries h

/-- The old path's branches occur in no sibling. -/
theorem Canon.not_mem_subtries_of_mem_spine (p : ℕ → Bool) {u s t : Trie K V} :
    ∀ {i : ℕ} {sibs : List (Trie K V)}, (plug p i sibs t).Canon bit i →
      u ∈ spine p i sibs t → s ∈ sibs → u ∉ s.subtries
  | i, s' :: sibs, hc, hu, hs, hmem => by
      rw [spine, List.mem_cons] at hu
      rcases hu with rfl | hu
      · exact absurd (sizeOf_le_of_mem_subtries hmem) (not_le.mpr (sizeOf_lt_plug p hs))
      · have hcut : (plug p (i + 1) sibs t).Canon bit (i + 1) ∧
            (∀ k v, (plug p (i + 1) sibs t).Has k v → bit k i = p i) ∧
            (∀ k v, s'.Has k v → bit k i ≠ p i) := by
          cases hp : p i <;>
            simp only [plug, hp, if_true, Bool.false_eq_true, if_false, Canon] at hc
          · exact ⟨hc.2.2.2.1, hc.2.1, fun k v h => by simp [hc.2.2.1 k v h]⟩
          · exact ⟨hc.2.2.2.2, hc.2.2.1, fun k v h => by simp [hc.2.1 k v h]⟩
        obtain ⟨cc, hin, hout⟩ := hcut
        rcases List.mem_cons.mp hs with rfl | hs
        · -- `u` lies on the path below `s`, so its leaves have the other bit
          have hsub : u ∈ (plug p (i + 1) sibs t).subtries :=
            (mem_subtries_plug p u t _ _).mpr (Or.inl hu)
          have hpos : 0 < u.size := by
            have hn := isNode_of_mem_spine p hu
            obtain ⟨c, hcu⟩ := cc.exists_of_mem_subtries hsub
            have := hcu.isNode_iff.mp hn; omega
          obtain ⟨k, v, hk⟩ := exists_has_of_size_pos hpos
          exact hout k v (has_of_mem_subtries hk hmem) (hin k v (has_of_mem_subtries hk hsub))
        · exact not_mem_subtries_of_mem_spine p cc hu hs hmem

/-- **Old branches are gone**: if every branch of `new` has the key `k`, which is not in the old
trie, no branch on the old path occurs in the trie with `new` at the end of the path. -/
theorem not_mem_subtries_plug (p : ℕ → Bool) {i : ℕ} {sibs : List (Trie K V)} {old new u : Trie K V}
    {k : K} {v : V} (hc : (plug p i sibs old).Canon bit i) (hk : ∀ v, ¬ (plug p i sibs old).Has k v)
    (hnew : ∀ w ∈ new.subtries, w.IsNode → ∃ v, w.Has k v) (hhas : new.Has k v)
    (hu : u ∈ spine p i sibs old) : u ∉ (plug p i sibs new).subtries := by
  have huk : ∀ v, ¬ u.Has k v := fun v h => hk v
    (has_of_mem_subtries h ((mem_subtries_plug p u old _ _).mpr (Or.inl hu)))
  rw [mem_subtries_plug]
  rintro (h | ⟨s, hs, h⟩ | h)
  · exact huk v (has_of_mem_spine p hhas h)
  · exact Canon.not_mem_subtries_of_mem_spine p hc hu hs h
  · obtain ⟨v', hv'⟩ := hnew u h (isNode_of_mem_spine p hu)
    exact huk v' hv'

end Canonical

end Trie

end Enclave

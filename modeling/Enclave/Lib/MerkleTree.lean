import Mathlib

/-! # Complete binary hash trees and their frontiers

`node c f l j` is the value at height `l`, position `j` of the complete binary tree over the
leaves `f`, with `c` to combine two children.

An append-only tree of `L` levels needs no more than a frontier: for every set bit `l` of the
number of leaves, the finished node of height `l` that stands last (`Frontier`).  `climb` is the
loop of such an insertion; entries of the frontier at clear bits are stale and never read.
`climb_insert` says that it computes the root of the complete tree and keeps the frontier.

`treePairs` are the pairs a tree combines.  If `c` has no collision among the pairs of the tree
and of a path that leads to its root, the path starts at a leaf of the tree (`leaf_of_pathRoot`). -/

namespace Enclave.Merkle

variable {α : Type*} (c : α → α → α)

/-- The node of height `l` at position `j`. -/
def node (f : ℕ → α) : ℕ → ℕ → α
  | 0, j => f j
  | l + 1, j => c (node f l (2 * j)) (node f l (2 * j + 1))

/-- The two children at height `l` of the node of height `l + 1` at position `j`. -/
def childPair (f : ℕ → α) (l j : ℕ) : α × α := (node c f l (2 * j), node c f l (2 * j + 1))

/-- The pairs combined in the lowest `L` levels. -/
def treePairs (f : ℕ → α) (L : ℕ) : Set (α × α) := {p | ∃ l < L, ∃ j, p = childPair c f l j}

/-- `z` are the nodes of the tree over `z 0` everywhere, up to height `L`. -/
def ZeroChain (z : ℕ → α) (L : ℕ) : Prop := ∀ l < L, z (l + 1) = c (z l) (z l)

variable {c} {f f' : ℕ → α} {z : ℕ → α}

theorem node_succ (f : ℕ → α) (l j : ℕ) :
    node c f (l + 1) j = c (childPair c f l j).1 (childPair c f l j).2 := rfl

theorem ZeroChain.mono {L L' : ℕ} (h : ZeroChain c z L) (hL : L' ≤ L) : ZeroChain c z L' :=
  fun l hl => h l (by omega)

theorem zeroChain_iterate (x : α) (L : ℕ) : ZeroChain c (fun l => (fun y => c y y)^[l] x) L :=
  fun l _ => Function.iterate_succ_apply' _ l x

theorem div_two_pow_succ (i l : ℕ) : i / 2 ^ (l + 1) = i / 2 ^ l / 2 := by
  rw [pow_succ, Nat.div_div_eq_div_mul]

/-- A node depends on the leaves under it only. -/
theorem node_congr : ∀ {l j : ℕ}, (∀ i, i / 2 ^ l = j → f i = f' i) → node c f l j = node c f' l j
  | 0, j, h => h j (by simp)
  | l + 1, j, h => by
      have hl : node c f l (2 * j) = node c f' l (2 * j) :=
        node_congr fun i hi => h i (by rw [div_two_pow_succ]; omega)
      have hr : node c f l (2 * j + 1) = node c f' l (2 * j + 1) :=
        node_congr fun i hi => h i (by rw [div_two_pow_succ]; omega)
      rw [node, node, hl, hr]

theorem node_zero : ∀ {l j : ℕ}, ZeroChain c z l → (∀ i, i / 2 ^ l = j → f i = z 0) →
    node c f l j = z l
  | 0, j, _, h => h j (by simp)
  | l + 1, j, hz, h => by
      have hl : node c f l (2 * j) = z l := node_zero (hz.mono (by omega)) fun i hi =>
        h i (by rw [div_two_pow_succ]; omega)
      have hr : node c f l (2 * j + 1) = z l := node_zero (hz.mono (by omega)) fun i hi =>
        h i (by rw [div_two_pow_succ]; omega)
      rw [node, hl, hr, hz l (by omega)]

/-! ### Positions -/

section Positions

variable {a n l : ℕ}

/-- A node above the block that starts at `n` and is not on its path does not see the block. -/
theorem not_mem_block (hn : 2 ^ a ∣ n) (hl : a ≤ l) {i : ℕ} (h : i / 2 ^ l ≠ n / 2 ^ l) :
    i < n ∨ n + 2 ^ a ≤ i := by
  by_contra hin
  push Not at hin
  obtain ⟨k, rfl⟩ := Nat.exists_eq_add_of_le hl
  have hi : i / 2 ^ a = n / 2 ^ a := by
    obtain ⟨m, rfl⟩ := hn
    rw [Nat.mul_div_cancel_left _ (by positivity)]
    refine (Nat.div_eq_iff (by positivity)).mpr ⟨by rw [Nat.mul_comm]; exact hin.1, ?_⟩
    have := hin.2
    rw [Nat.mul_comm] at this
    omega
  rw [pow_add, ← Nat.div_div_eq_div_mul, ← Nat.div_div_eq_div_mul, hi] at h
  exact h rfl

theorem lt_of_div_lt {i : ℕ} (h : i / 2 ^ l < n / 2 ^ l) : i < n := by
  by_contra hge
  exact absurd (Nat.div_le_div_right (c := 2 ^ l) (not_lt.mp hge)) (by omega)

theorem lt_of_div_eq_pred {i : ℕ} (hodd : n / 2 ^ l % 2 = 1) (h : i / 2 ^ l = n / 2 ^ l - 1) :
    i < n := by
  apply lt_of_div_lt (l := l)
  rw [h]
  refine Nat.sub_lt (Nat.pos_of_ne_zero fun h0 => ?_) one_pos
  rw [h0] at hodd
  cases hodd

theorem block_le (hn : 2 ^ a ∣ n) (hl : a ≤ l) {i : ℕ} (h : n / 2 ^ l < i / 2 ^ l) :
    n + 2 ^ a ≤ i := by
  rcases not_mem_block hn hl (Nat.ne_of_gt h) with hlt | hge
  · exact absurd (Nat.div_le_div_right (c := 2 ^ l) hlt.le) (by omega)
  · exact hge

theorem div_add_block (hl : a ≤ l) (n : ℕ) :
    (n + 2 ^ a) / 2 ^ l = n / 2 ^ l ∨ (n + 2 ^ a) / 2 ^ l = n / 2 ^ l + 1 := by
  have hlow : n / 2 ^ l ≤ (n + 2 ^ a) / 2 ^ l := Nat.div_le_div_right (Nat.le_add_right _ _)
  have hhigh : (n + 2 ^ a) / 2 ^ l ≤ n / 2 ^ l + 1 := by
    rw [← Nat.add_div_right _ (by positivity)]
    exact Nat.div_le_div_right (Nat.add_le_add_left (Nat.pow_le_pow_right (by omega) hl) _)
  omega

theorem testBit_iff_odd (n l : ℕ) : n.testBit l = true ↔ n / 2 ^ l % 2 = 1 := by
  rw [Nat.testBit_eq_decide_div_mod_eq, decide_eq_true_eq]

end Positions

/-! ### Insertion -/

/-- The state of the insertion loop: the node on the path, the frontier and the pairs combined
so far, last first. -/
structure Climb (α : Type*) where
  hash : α
  filled : ℕ → α
  pairs : List (α × α)

variable (c z)

/-- One level: a right child is combined with the frontier's entry, a left child is put into the
frontier and combined with the zero node. -/
def climbStep (l index : ℕ) (s : Climb α) : Climb α :=
  if index % 2 = 1 then
    { s with hash := c (s.filled l) s.hash, pairs := (s.filled l, s.hash) :: s.pairs }
  else
    { hash := c s.hash (z l), filled := Function.update s.filled l s.hash,
      pairs := (s.hash, z l) :: s.pairs }

/-- The insertion loop over `k` levels from level `l`, at position `index` of level `l`. -/
def climb : ℕ → ℕ → ℕ → Climb α → Climb α
  | 0, _, _, s => s
  | k + 1, l, index, s => climb k (l + 1) (index / 2) (climbStep c z l index s)

/-- The frontier of the first `n` leaves, from level `a` to level `L`. -/
def Frontier (f : ℕ → α) (a L n : ℕ) (filled : ℕ → α) : Prop :=
  ∀ l, a ≤ l → l < L → n.testBit l = true → filled l = node c f l (n / 2 ^ l - 1)

variable {c z} {a L n : ℕ}

/-- What one level does, if the leaves from the block on are zero. -/
theorem climbStep_spec {l : ℕ} {s : Climb α} (hn : 2 ^ a ∣ n) (hl : a ≤ l)
    (hz : ZeroChain c z l) (hzero : ∀ i, n + 2 ^ a ≤ i → f i = z 0)
    (hhash : s.hash = node c f l (n / 2 ^ l))
    (hfill : n.testBit l = true → s.filled l = node c f l (n / 2 ^ l - 1)) :
    (climbStep c z l (n / 2 ^ l) s).hash = node c f (l + 1) (n / 2 ^ (l + 1)) ∧
      (climbStep c z l (n / 2 ^ l) s).filled =
        (if n.testBit l then s.filled else Function.update s.filled l (node c f l (n / 2 ^ l))) ∧
      (climbStep c z l (n / 2 ^ l) s).pairs = childPair c f l (n / 2 ^ (l + 1)) :: s.pairs := by
  unfold climbStep childPair
  rw [div_two_pow_succ]
  by_cases hodd : n / 2 ^ l % 2 = 1
  · have hbit := (testBit_iff_odd n l).mpr hodd
    have hleft : 2 * (n / 2 ^ l / 2) = n / 2 ^ l - 1 := by omega
    have hright : 2 * (n / 2 ^ l / 2) + 1 = n / 2 ^ l := by omega
    simp only [hodd, if_true, hbit, node, hleft, Nat.sub_add_cancel (by omega : 1 ≤ n / 2 ^ l),
      hhash, hfill hbit, and_self]
  · have hbit : n.testBit l = false := by
      rw [← Bool.not_eq_true, testBit_iff_odd]
      exact hodd
    have hleft : 2 * (n / 2 ^ l / 2) = n / 2 ^ l := by omega
    have hright : node c f l (n / 2 ^ l + 1) = z l :=
      node_zero hz fun i hi => hzero i (block_le hn hl (by omega))
    simp only [if_neg hodd, hbit, Bool.false_eq_true, if_false, node, hleft, hright, hhash,
      and_self]

/-- **What the loop computes**, if the leaves from the block on are zero. -/
theorem climb_spec (hn : 2 ^ a ∣ n) (hzero : ∀ i, n + 2 ^ a ≤ i → f i = z 0) :
    ∀ {k l : ℕ} {s : Climb α}, a ≤ l → ZeroChain c z (l + k) →
      s.hash = node c f l (n / 2 ^ l) →
      (∀ m, l ≤ m → m < l + k → n.testBit m = true → s.filled m = node c f m (n / 2 ^ m - 1)) →
      (climb c z k l (n / 2 ^ l) s).hash = node c f (l + k) (n / 2 ^ (l + k)) ∧
        (∀ m, (climb c z k l (n / 2 ^ l) s).filled m =
          if l ≤ m ∧ m < l + k ∧ n.testBit m = false then node c f m (n / 2 ^ m)
          else s.filled m) ∧
        ∀ p, p ∈ (climb c z k l (n / 2 ^ l) s).pairs ↔
          (∃ m, l ≤ m ∧ m < l + k ∧ p = childPair c f m (n / 2 ^ (m + 1))) ∨ p ∈ s.pairs
  | 0, l, s, _, _, hhash, _ => by
      refine ⟨hhash, fun m => ?_, fun p => ?_⟩
      · rw [if_neg (by omega)]
        rfl
      · simp only [climb, Nat.add_zero, iff_or_self]
        rintro ⟨m, h, h', -⟩
        omega
  | k + 1, l, s, hl, hz, hhash, hfill => by
      obtain ⟨h₁, h₂, h₃⟩ := climbStep_spec hn hl (hz.mono (by omega)) hzero hhash
        (hfill l le_rfl (by omega))
      have hrest := climb_spec hn hzero (k := k) (l := l + 1)
        (s := climbStep c z l (n / 2 ^ l) s) (by omega) (hz.mono (by omega)) h₁ ?_
      · rw [show l + 1 + k = l + (k + 1) by omega] at hrest
        obtain ⟨ih₁, ih₂, ih₃⟩ := hrest
        rw [climb, ← div_two_pow_succ]
        refine ⟨ih₁, fun m => ?_, fun p => ?_⟩
        · rw [ih₂ m, h₂]
          rcases eq_or_ne m l with rfl | hne
          · cases hbit : n.testBit m <;> simp
          · have hle : l + 1 ≤ m ↔ l ≤ m := by omega
            cases hbit : n.testBit l <;> simp only [hle, Function.update_of_ne hne, if_true,
              Bool.false_eq_true, if_false]
        · rw [ih₃ p, h₃, List.mem_cons]
          constructor
          · rintro (⟨m, hm, hm', rfl⟩ | rfl | hp)
            · exact Or.inl ⟨m, by omega, hm', rfl⟩
            · exact Or.inl ⟨l, le_rfl, by omega, rfl⟩
            · exact Or.inr hp
          · rintro (⟨m, hm, hm', rfl⟩ | hp)
            · rcases Nat.eq_or_lt_of_le hm with rfl | hlt
              · exact Or.inr (Or.inl rfl)
              · exact Or.inl ⟨m, hlt, hm', rfl⟩
            · exact Or.inr (Or.inr hp)
      · intro m hm hm' hbit
        have hne : m ≠ l := by omega
        rw [h₂]
        cases n.testBit l
        · exact (Function.update_of_ne hne _ _).trans (hfill m (by omega) (by omega) hbit)
        · exact hfill m (by omega) (by omega) hbit

/-- The frontier after a block of `2 ^ a` leaves. -/
theorem Frontier.step {filled filled' : ℕ → α} (hf : ∀ i < n, f' i = f i)
    (h : Frontier c f a L n filled) (hfilled : ∀ m, filled' m =
      if a ≤ m ∧ m < L ∧ n.testBit m = false then node c f' m (n / 2 ^ m) else filled m) :
    Frontier c f' a L (n + 2 ^ a) filled' := by
  intro l hl hL hbit
  rw [testBit_iff_odd] at hbit
  rw [hfilled]
  by_cases hold : n.testBit l = true
  · rw [if_neg (by simp [hold]), h l hl hL hold]
    rw [testBit_iff_odd] at hold
    -- both quotients are odd and differ by at most one
    have hq : (n + 2 ^ a) / 2 ^ l = n / 2 ^ l := by
      rcases div_add_block hl n with hq | hq <;> omega
    rw [hq]
    exact (node_congr fun i hi => hf i (lt_of_div_eq_pred hold hi)).symm
  · have hq : (n + 2 ^ a) / 2 ^ l = n / 2 ^ l + 1 := by
      rw [testBit_iff_odd] at hold
      rcases div_add_block hl n with hq | hq <;> omega
    rw [if_pos ⟨hl, hL, by simpa using hold⟩, hq, Nat.add_sub_cancel]

/-- **An insertion** of the block of leaves `n, …, n + 2 ^ a - 1` computes the root of the
complete tree, keeps the frontier and combines the pairs of the path. -/
theorem climb_insert {filled : ℕ → α} {ps : List (α × α)} (hn : 2 ^ a ∣ n) (haL : a ≤ L)
    (hlt : n < 2 ^ L) (hz : ZeroChain c z L) (hf : ∀ i < n, f' i = f i)
    (hzero : ∀ i, n + 2 ^ a ≤ i → f' i = z 0) (h : Frontier c f a L n filled) :
    let s := climb c z (L - a) a (n / 2 ^ a) ⟨node c f' a (n / 2 ^ a), filled, ps⟩
    s.hash = node c f' L 0 ∧ Frontier c f' a L (n + 2 ^ a) s.filled ∧
      ∀ p, p ∈ s.pairs ↔
        (∃ m, a ≤ m ∧ m < L ∧ p = childPair c f' m (n / 2 ^ (m + 1))) ∨ p ∈ ps := by
  have hL : a + (L - a) = L := by omega
  obtain ⟨h₁, h₂, h₃⟩ := climb_spec (f := f') (c := c) (z := z) hn hzero (k := L - a) (l := a)
    (s := ⟨node c f' a (n / 2 ^ a), filled, ps⟩) le_rfl (by rwa [hL]) rfl (by
      rw [hL]
      intro m hm hm' hbit
      exact (h m hm hm' hbit).trans (node_congr fun i hi =>
        (hf i (lt_of_div_eq_pred ((testBit_iff_odd n m).mp hbit) hi)).symm))
  rw [hL] at h₁ h₂ h₃
  rw [Nat.div_eq_of_lt hlt] at h₁
  exact ⟨h₁, h.step hf h₂, h₃⟩

/-- The pairs of the new tree are those of the old one and of the path. -/
theorem treePairs_insert (hn : 2 ^ a ∣ n) (ha : a ≤ 1) (hf : ∀ i < n, f' i = f i)
    (hrest : ∀ i, n + 2 ^ a ≤ i → f' i = f i) {p : α × α} (hp : p ∈ treePairs c f' L) :
    p ∈ treePairs c f L ∨ ∃ m < L, p = childPair c f' m (n / 2 ^ (m + 1)) := by
  obtain ⟨l, hl, j, rfl⟩ := hp
  by_cases hj : j = n / 2 ^ (l + 1)
  · exact Or.inr ⟨l, hl, by rw [hj]⟩
  · have heq : ∀ i, i / 2 ^ (l + 1) = j → f' i = f i := by
      intro i hi
      rcases not_mem_block (l := l + 1) hn (by omega) (by rw [hi]; exact hj) with h | h
      · exact hf i h
      · exact hrest i h
    refine Or.inl ⟨l, hl, j, ?_⟩
    unfold childPair
    rw [node_congr (l := l) (j := 2 * j) fun i hi => heq i (by rw [div_two_pow_succ]; omega),
      node_congr (l := l) (j := 2 * j + 1) fun i hi => heq i (by rw [div_two_pow_succ]; omega)]

theorem treePairs_zero (hz : ZeroChain c z L) (h : ∀ i, f i = z 0) {p : α × α}
    (hp : p ∈ treePairs c f L) : ∃ l < L, p = (z l, z l) := by
  obtain ⟨l, hl, j, rfl⟩ := hp
  exact ⟨l, hl, Prod.ext (node_zero (hz.mono hl.le) fun i _ => h i)
    (node_zero (hz.mono hl.le) fun i _ => h i)⟩

/-! ### Paths -/

variable (c)

/-- The root a path leads to: at each level the sibling is on the left if the bit is set. -/
def pathRoot (bit : ℕ → Bool) : ℕ → List α → α → α
  | _, [], x => x
  | i, s :: sibs, x => pathRoot bit (i + 1) sibs (if bit i then c s x else c x s)

/-- The pairs a path combines. -/
def pathPairs (bit : ℕ → Bool) : ℕ → List α → α → List (α × α)
  | _, [], _ => []
  | i, s :: sibs, x =>
      (if bit i then (s, x) else (x, s)) ::
        pathPairs bit (i + 1) sibs (if bit i then c s x else c x s)

variable {c}

theorem xor_one_eq (i : ℕ) : i ^^^ 1 = if i % 2 = 0 then i + 1 else i - 1 := by
  split_ifs with h
  · exact Nat.xor_one_of_even (Nat.even_iff.mpr h)
  · exact Nat.xor_one_of_odd (Nat.odd_iff.mpr (by omega))

variable (c) in
/-- The siblings on the path of `idx`, at `k` levels from level `l` on. -/
def siblings (f : ℕ → α) (idx : ℕ) : ℕ → ℕ → List α
  | 0, _ => []
  | k + 1, l => node c f l (idx / 2 ^ l ^^^ 1) :: siblings f idx k (l + 1)

theorem length_siblings (f : ℕ → α) (idx : ℕ) : ∀ k l : ℕ, (siblings c f idx k l).length = k
  | 0, _ => rfl
  | k + 1, l => by rw [siblings, List.length_cons, length_siblings f idx k]

/-- **The siblings of a path lead to its node.** -/
theorem pathRoot_siblings (f : ℕ → α) (idx : ℕ) : ∀ k l : ℕ,
    pathRoot c idx.testBit l (siblings c f idx k l) (node c f l (idx / 2 ^ l)) =
      node c f (l + k) (idx / 2 ^ (l + k))
  | 0, _ => rfl
  | k + 1, l => by
      have hparent : (if idx.testBit l then
            c (node c f l (idx / 2 ^ l ^^^ 1)) (node c f l (idx / 2 ^ l))
          else c (node c f l (idx / 2 ^ l)) (node c f l (idx / 2 ^ l ^^^ 1))) =
          node c f (l + 1) (idx / 2 ^ (l + 1)) := by
        have hbit := testBit_iff_odd idx l
        rw [node, div_two_pow_succ, xor_one_eq]
        generalize idx / 2 ^ l = i at hbit ⊢
        by_cases hodd : i % 2 = 1
        · rw [if_pos (hbit.mpr hodd), if_neg (by omega), show 2 * (i / 2) = i - 1 by omega,
            show i - 1 + 1 = i by omega]
        · rw [if_neg (mt hbit.mp hodd), if_pos (by omega), show 2 * (i / 2) = i by omega]
      rw [siblings, pathRoot, hparent, pathRoot_siblings f idx k (l + 1),
        show l + 1 + k = l + (k + 1) by omega]

/-- **A path to the root starts at a leaf.**  The induction goes up the path; coming back, each
node on it is the tree's. -/
theorem leaf_of_pathRoot {Q : Set (α × α)} (inj : Set.InjOn (fun p : α × α => c p.1 p.2) Q)
    {idx : ℕ} : ∀ {l : ℕ} {sibs : List α} {x : α},
      treePairs c f (l + sibs.length) ⊆ Q →
      (∀ p ∈ pathPairs c idx.testBit l sibs x, p ∈ Q) →
      pathRoot c idx.testBit l sibs x =
        node c f (l + sibs.length) (idx / 2 ^ (l + sibs.length)) →
      x = node c f l (idx / 2 ^ l)
  | l, [], x, _, _, h => h
  | l, s :: sibs, x, htree, hpath, h => by
      have hlen : l + (s :: sibs).length = l + 1 + sibs.length := by
        rw [List.length_cons]
        omega
      rw [hlen] at htree h
      have hup := leaf_of_pathRoot inj (l := l + 1) htree
        (fun p hp => hpath p (List.mem_cons_of_mem _ hp)) h
      have hpair : childPair c f l (idx / 2 ^ (l + 1)) ∈ Q :=
        htree ⟨l, by omega, _, rfl⟩
      have hmine := hpath _ List.mem_cons_self
      rw [node_succ, div_two_pow_succ] at hup
      rw [div_two_pow_succ] at hpair
      cases hbit : idx.testBit l
      · have heven : ¬ idx / 2 ^ l % 2 = 1 := by
          rw [← testBit_iff_odd, hbit]
          exact Bool.false_ne_true
        simp only [hbit, Bool.false_eq_true, if_false] at hup hmine
        have := (Prod.mk.inj (inj hmine hpair hup)).1
        rwa [show 2 * (idx / 2 ^ l / 2) = idx / 2 ^ l by omega] at this
      · have hodd := (testBit_iff_odd idx l).mp hbit
        simp only [hbit, if_true] at hup hmine
        have := (Prod.mk.inj (inj hmine hpair hup)).2
        rwa [show 2 * (idx / 2 ^ l / 2) + 1 = idx / 2 ^ l by omega] at this

end Enclave.Merkle

import Mathlib

/-! # Segments of a list that is sorted by a key

The entries before a key, and those from one key on and before another.  Segments that meet
compose, and a list cut into pages is whole exactly if every page is (`flatMap_prefix_iff`). -/

namespace Enclave

namespace Segments

variable {α β : Type*} (key : α → ℕ)

def before (b : ℕ) (l : List α) : List α := l.filter fun x => key x < b

/-- The entries from one key on and before another. -/
def between (a b : ℕ) (l : List α) : List α := l.filter fun x => a ≤ key x ∧ key x < b

variable {key} {l : List α} {a b c : ℕ}

theorem before_append (h : l.Pairwise fun x y => key x ≤ key y) (hab : a ≤ b) :
    before key b l = before key a l ++ between key a b l := by
  induction l with
  | nil => rfl
  | cons x rest ih =>
      obtain ⟨hx, hrest⟩ := List.pairwise_cons.mp h
      have ih := ih hrest
      unfold before between at ih ⊢
      rcases Nat.lt_or_ge (key x) a with hlt | hge
      · rw [List.filter_cons_of_pos (by simpa using hlt.trans_le hab),
          List.filter_cons_of_pos (by simpa using hlt),
          List.filter_cons_of_neg (by simp; omega), ih, List.cons_append]
      · have hnone : (x :: rest).filter (fun y => key y < a) = [] := by
          refine List.filter_eq_nil_iff.mpr fun y hy => ?_
          obtain rfl | hy := List.mem_cons.mp hy
          · simpa using hge
          · simpa using hge.trans (hx y hy)
        rw [hnone, List.nil_append]
        refine List.filter_congr fun y hy => ?_
        obtain rfl | hy := List.mem_cons.mp hy
        · simp [hge]
        · simp [hge.trans (hx y hy)]

theorem between_append (h : l.Pairwise fun x y => key x ≤ key y) (hab : a ≤ b) (hbc : b ≤ c) :
    between key a c l = between key a b l ++ between key b c l := by
  have hall := before_append h (hab.trans hbc)
  rw [before_append h hbc, before_append h hab, List.append_assoc] at hall
  exact (List.append_cancel_left hall).symm

theorem before_append_rest (h : l.Pairwise fun x y => key x ≤ key y) (b : ℕ) :
    l = before key b l ++ l.filter fun x => b ≤ key x := by
  induction l with
  | nil => rfl
  | cons x rest ih =>
      obtain ⟨hx, hrest⟩ := List.pairwise_cons.mp h
      have ih := ih hrest
      unfold before at ih ⊢
      rcases Nat.lt_or_ge (key x) b with hlt | hge
      · rw [List.filter_cons_of_pos (by simpa using hlt),
          List.filter_cons_of_neg (by simpa using hlt), List.cons_append, ← ih]
      · have hall : ∀ y ∈ x :: rest, b ≤ key y := by
          intro y hy
          obtain rfl | hy := List.mem_cons.mp hy
          · exact hge
          · exact hge.trans (hx y hy)
        rw [List.filter_eq_nil_iff.mpr fun y hy => by simpa using hall y hy, List.nil_append,
          List.filter_eq_self.mpr fun y hy => by simpa using hall y hy]

theorem between_prefix (h : l.Pairwise fun x y => key x ≤ key y) (hab : a ≤ b) (hbc : b ≤ c) :
    between key a b l <+: between key a c l := ⟨_, (between_append h hab hbc).symm⟩

theorem between_succ_eq_nil : between key a (a + 1) l = [] ↔ ∀ x ∈ l, key x ≠ a := by
  rw [between, List.filter_eq_nil_iff]
  refine forall₂_congr fun x _ => ?_
  rw [decide_eq_true_eq]
  omega

/-- **Pages are whole** exactly if each of them is. -/
theorem flatMap_prefix_iff {chunks : List β} {pages entries : β → List α}
    (h : ∀ i ∈ chunks, pages i <+: entries i) :
    chunks.flatMap pages = chunks.flatMap entries ↔ ∀ i ∈ chunks, pages i = entries i := by
  constructor
  · intro heq
    induction chunks with
    | nil => exact fun i hi => absurd hi List.not_mem_nil
    | cons i rest ih =>
        obtain ⟨hi, hrest⟩ := List.forall_mem_cons.mp h
        -- no page is longer than it should be, so both parts have the same length
        have hshort : (rest.flatMap pages).length ≤ (rest.flatMap entries).length := by
          rw [List.length_flatMap, List.length_flatMap]
          exact List.sum_le_sum fun i hi => (hrest i hi).length_le
        rw [List.flatMap_cons, List.flatMap_cons] at heq
        have hlength := congrArg List.length heq
        rw [List.length_append, List.length_append] at hlength
        have hle := hi.length_le
        have hpage : pages i = entries i := hi.eq_of_length (by omega)
        rw [hpage] at heq
        exact List.forall_mem_cons.mpr ⟨hpage, ih hrest (List.append_cancel_left heq)⟩
  · exact fun heq => List.flatMap_congr heq

/-- A page of `n` entries is whole if they are all and no more than that. -/
theorem take_eq_append_iff {n : ℕ} {l₁ l₂ : List α} :
    l₁.take n = l₁ ++ l₂ ↔ (l₁ ++ l₂).length ≤ n ∧ l₂ = [] := by
  constructor
  · intro h
    have hlength := congrArg List.length h
    rw [List.length_take, List.length_append] at hlength
    have hnil : l₂ = [] := List.length_eq_zero_iff.mp (by omega)
    rw [List.length_append]
    exact ⟨by omega, hnil⟩
  · rintro ⟨hle, rfl⟩
    rw [List.append_nil] at hle ⊢
    exact List.take_of_length_le hle

end Segments

end Enclave

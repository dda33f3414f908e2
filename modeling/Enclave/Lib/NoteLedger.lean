import Mathlib

/-! # Ledgers of notes

Notes have amounts and are spent at most once.  A transaction spends some of those that are left
and makes new ones; `value`, the sum of what is left, moves by what the transaction makes less
what it spends (`value_transact`). -/

namespace Enclave

/-- The amounts of the notes in the order they were made, and the positions of the spent ones. -/
structure NoteLedger where
  amounts : List ℕ
  spent : Finset ℕ
  spent_subset : spent ⊆ Finset.range amounts.length

namespace NoteLedger

/-- No notes. -/
def empty : NoteLedger := ⟨[], ∅, Finset.empty_subset _⟩

variable (L : NoteLedger)

def amount (i : ℕ) : ℕ := L.amounts.getD i 0

/-- The positions of the notes that are left. -/
def unspent : Finset ℕ := Finset.range L.amounts.length \ L.spent

/-- The sum of what is left. -/
def value : ℕ := ∑ i ∈ L.unspent, L.amount i

/-- The notes at `ins` are spent, and notes are made. -/
def transact (ins : Finset ℕ) (outs : List ℕ) (h : ins ⊆ L.unspent) : NoteLedger where
  amounts := L.amounts ++ outs
  spent := L.spent ∪ ins
  spent_subset := by
    have hins : ins ⊆ Finset.range L.amounts.length := h.trans Finset.sdiff_subset
    refine (Finset.union_subset L.spent_subset hins).trans (Finset.range_subset_range.mpr ?_)
    rw [List.length_append]
    exact Nat.le_add_right _ _

@[simp] theorem value_empty : empty.value = 0 := rfl

variable {L} {ins : Finset ℕ} {outs : List ℕ}

theorem mem_unspent {i : ℕ} : i ∈ L.unspent ↔ i < L.amounts.length ∧ i ∉ L.spent := by
  rw [unspent, Finset.mem_sdiff, Finset.mem_range]

@[simp] theorem amounts_transact (h : ins ⊆ L.unspent) :
    (L.transact ins outs h).amounts = L.amounts ++ outs := rfl

@[simp] theorem spent_transact (h : ins ⊆ L.unspent) :
    (L.transact ins outs h).spent = L.spent ∪ ins := rfl

theorem amount_transact_of_lt (h : ins ⊆ L.unspent) {i : ℕ} (hi : i < L.amounts.length) :
    (L.transact ins outs h).amount i = L.amount i := List.getD_append _ _ _ _ hi

theorem amount_transact_add (h : ins ⊆ L.unspent) (j : ℕ) :
    (L.transact ins outs h).amount (L.amounts.length + j) = outs.getD j 0 := by
  rw [amount, transact, List.getD_append_right _ _ _ _ (Nat.le_add_right _ _),
    Nat.add_sub_cancel_left]

/-- What is left is what was left and is not spent, and the new notes. -/
theorem unspent_transact (h : ins ⊆ L.unspent) : (L.transact ins outs h).unspent =
    (L.unspent \ ins) ∪ (Finset.range outs.length).map (addLeftEmbedding L.amounts.length) := by
  ext i
  simp only [mem_unspent, transact, Finset.mem_union, Finset.mem_sdiff, Finset.mem_map,
    Finset.mem_range, addLeftEmbedding_apply, List.length_append]
  constructor
  · rintro ⟨hlt, hno⟩
    rw [not_or] at hno
    rcases Nat.lt_or_ge i L.amounts.length with hi | hi
    · exact Or.inl ⟨⟨hi, hno.1⟩, hno.2⟩
    · exact Or.inr ⟨i - L.amounts.length, by omega, by omega⟩
  · rintro (⟨⟨hi, hspent⟩, hins⟩ | ⟨j, hj, rfl⟩)
    · exact ⟨by omega, not_or.mpr ⟨hspent, hins⟩⟩
    · refine ⟨by omega, not_or.mpr ⟨fun hmem => ?_, fun hmem => ?_⟩⟩
      · have := Finset.mem_range.mp (L.spent_subset hmem)
        omega
      · have := (mem_unspent.mp (h hmem)).1
        omega

/-- **A transaction moves the value** by what it makes less what it spends. -/
theorem value_transact (h : ins ⊆ L.unspent) :
    (L.transact ins outs h).value + ∑ i ∈ ins, L.amount i = L.value + outs.sum := by
  have hdisj : Disjoint (L.unspent \ ins)
      ((Finset.range outs.length).map (addLeftEmbedding L.amounts.length)) := by
    rw [Finset.disjoint_left]
    intro i hi hmap
    obtain ⟨j, -, rfl⟩ := Finset.mem_map.mp hmap
    have hlt := (mem_unspent.mp (Finset.mem_sdiff.mp hi).1).1
    rw [addLeftEmbedding_apply] at hlt
    omega
  have hold : ∑ i ∈ L.unspent \ ins, (L.transact ins outs h).amount i =
      ∑ i ∈ L.unspent \ ins, L.amount i :=
    Finset.sum_congr rfl fun i hi =>
      amount_transact_of_lt h (mem_unspent.mp (Finset.mem_sdiff.mp hi).1).1
  have hnew : ∑ j ∈ Finset.range outs.length,
      (L.transact ins outs h).amount (L.amounts.length + j) = outs.sum := by
    rw [← Fin.sum_univ_getElem, Finset.sum_range]
    refine Finset.sum_congr rfl fun j _ => ?_
    rw [amount_transact_add, List.getD_eq_getElem _ _ j.isLt]
  have hsplit := Finset.sum_sdiff (f := L.amount) h
  rw [value, unspent_transact, Finset.sum_union hdisj, Finset.sum_map, hold]
  simp only [addLeftEmbedding_apply]
  rw [hnew, value, ← hsplit]
  omega

theorem sum_le_value (h : ins ⊆ L.unspent) : ∑ i ∈ ins, L.amount i ≤ L.value :=
  Finset.sum_le_sum_of_subset h

end NoteLedger

end Enclave

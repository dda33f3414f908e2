import Mathlib

/-! # Rings of recent values

`N` slots are written round and round; `Ring N slots current recent` says that they hold the last
values written, of which `recent` lists all, the newest first.  Before the first lap is complete,
the slots that were not written yet are empty. -/

namespace Enclave

variable {α : Type*} {N : ℕ} {slots : ℕ → Option α} {current : ℕ} {recent : List α}

/-- Going back from the slot `current`, the slots hold the values `recent`, newest first. -/
structure Ring (N : ℕ) (slots : ℕ → Option α) (current : ℕ) (recent : List α) : Prop where
  current_lt : current < N
  slots_eq : ∀ d < N, slots ((current + N - d) % N) = recent[d]?

namespace Ring

theorem start (hN : 0 < N) (a : α) : Ring N (Function.update (fun _ => none) 0 (some a)) 0 [a] where
  current_lt := hN
  slots_eq d hd := by
    rcases Nat.eq_zero_or_pos d with rfl | hpos
    · rw [Nat.zero_add, Nat.sub_zero, Nat.mod_self, Function.update_self]
      rfl
    · have hne : (0 + N - d) % N ≠ 0 := by
        rw [Nat.zero_add, Nat.mod_eq_of_lt (by omega)]
        omega
      rw [Function.update_of_ne hne, List.getElem?_eq_none]
      exact hpos

theorem mod_next (h : current < N) {d : ℕ} (hd : d < N) :
    ((current + 1) % N + N - (d + 1)) % N = (current + N - d) % N := by
  rcases Nat.lt_or_ge (current + 1) N with hlt | hge
  · rw [Nat.mod_eq_of_lt hlt, show current + 1 + N - (d + 1) = current + N - d by omega]
  · obtain rfl : current + 1 = N := by omega
    rw [Nat.mod_self, Nat.zero_add, show current + (current + 1) - d =
      current + 1 - (d + 1) + (current + 1) by omega, Nat.add_mod_right]

/-- **Writing the next slot** drops the value that is `N` writes old. -/
theorem push (h : Ring N slots current recent) (a : α) :
    Ring N (Function.update slots ((current + 1) % N) (some a)) ((current + 1) % N)
      (a :: recent) where
  current_lt := Nat.mod_lt _ (by have := h.current_lt; omega)
  slots_eq d hd := by
    have hlt : (current + 1) % N < N := Nat.mod_lt _ (by omega)
    cases d with
    | zero =>
        rw [Nat.sub_zero, Nat.add_mod_right, Nat.mod_mod, Function.update_self]
        rfl
    | succ d =>
        have hne : ((current + 1) % N + N - (d + 1)) % N ≠ (current + 1) % N := by
          intro heq
          rcases Nat.lt_or_ge ((current + 1) % N) (d + 1) with hsmall | hlarge
          · rw [Nat.mod_eq_of_lt (by omega)] at heq
            omega
          · rw [show (current + 1) % N + N - (d + 1) = (current + 1) % N - (d + 1) + N by omega,
              Nat.add_mod_right, Nat.mod_eq_of_lt (by omega)] at heq
            omega
        rw [Function.update_of_ne hne, mod_next h.current_lt (by omega),
          h.slots_eq d (by omega), List.getElem?_cons_succ]

theorem slot_current (h : Ring N slots current recent) : slots current = recent.head? := by
  have hslot := h.slots_eq 0 (lt_of_le_of_lt (Nat.zero_le _) h.current_lt)
  rwa [Nat.sub_zero, Nat.add_mod_right, Nat.mod_eq_of_lt h.current_lt,
    ← List.head?_eq_getElem?] at hslot

/-- **What the slots hold**: the last `N` values. -/
theorem exists_slot_iff (h : Ring N slots current recent) {a : α} :
    (∃ j < N, slots j = some a) ↔ a ∈ recent.take N := by
  constructor
  · rintro ⟨j, hj, hslot⟩
    have hlt := h.current_lt
    obtain ⟨d, hd, hdist⟩ : ∃ d < N, (current + N - d) % N = j := by
      rcases Nat.lt_or_ge current j with hafter | hbefore
      · refine ⟨current + N - j, by omega, ?_⟩
        rw [show current + N - (current + N - j) = j by omega, Nat.mod_eq_of_lt hj]
      · refine ⟨current - j, by omega, ?_⟩
        rw [show current + N - (current - j) = j + N by omega, Nat.add_mod_right,
          Nat.mod_eq_of_lt hj]
    rw [← hdist, h.slots_eq d hd] at hslot
    rw [List.mem_iff_getElem?]
    exact ⟨d, by rw [List.getElem?_take_of_lt hd, hslot]⟩
  · intro hmem
    obtain ⟨d, hget⟩ := List.mem_iff_getElem?.mp hmem
    have hd : d < N := by
      by_contra hge
      rw [List.getElem?_take, if_neg hge] at hget
      cases hget
    rw [List.getElem?_take_of_lt hd, ← h.slots_eq d hd] at hget
    exact ⟨_, Nat.mod_lt _ (by omega), hget⟩

end Ring

end Enclave

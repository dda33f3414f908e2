import Enclave.Poseidon2

/-! # Circuit gadgets

A template whose signals are all assigned by `<==` is a function of its inputs; its `===` lines
are the constraint.  The circomlib templates are taken at what they document: `IsZero`, `IsEqual`
and `ForceEqualIfEnabled` on field elements, `Switcher`, the `Num2Bits` family as the bits of the
canonical representative. -/

namespace Enclave.Circuits

/-- `IsZero`. -/
def isZero (x : F) : F := if x = 0 then 1 else 0

/-- `IsEqual`. -/
def isEqual (a b : F) : F := isZero (b - a)

/-- `ForceEqualIfEnabled`. -/
def forceEqualIfEnabled (enabled a b : F) : Prop := (1 - isZero (b - a)) * enabled = 0

instance (enabled a b : F) : Decidable (forceEqualIfEnabled enabled a b) :=
  inferInstanceAs (Decidable (_ = _))

/-- `Switcher`: the inputs, exchanged if `sel` is 1. -/
def switcher (sel L R : F) : F × F := ((R - L) * sel + L, (L - R) * sel + R)

/-- `Num2Bits(n)` can be satisfied: the value has `n` bits. -/
def num2Bits (n : ℕ) (x : F) : Prop := x.val < 2 ^ n

instance (n : ℕ) (x : F) : Decidable (num2Bits n x) := inferInstanceAs (Decidable (_ < _))

/-- An output signal of `Num2Bits` and `Num2Bits_strict`. -/
def bitSignal (x : F) (i : ℕ) : F := if x.val.testBit i then 1 else 0

theorem isEqual_eq (a b : F) : isEqual a b = if a = b then 1 else 0 := by
  unfold isEqual isZero
  rw [if_congr (by rw [sub_eq_zero, eq_comm]) rfl rfl]

theorem forceEqualIfEnabled_iff {enabled a b : F} :
    forceEqualIfEnabled enabled a b ↔ enabled = 0 ∨ a = b := by
  unfold forceEqualIfEnabled isZero
  by_cases h : a = b
  · simp [h]
  · have : ¬ b - a = 0 := fun h' => h (sub_eq_zero.mp h').symm
    simp [h, this]

/-- The children of a level: the value on the path and its sibling, ordered by the path's bit. -/
theorem switcher_bitSignal (x : F) (i : ℕ) (child sibling : F) :
    switcher (bitSignal x i) child sibling =
      if x.val.testBit i then (sibling, child) else (child, sibling) := by
  unfold switcher bitSignal
  split_ifs <;> simp

end Enclave.Circuits

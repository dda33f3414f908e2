import Mathlib

/-! # Groth16 verification

The verification equation over modules with a pairing, written additively.  `inputSum` is the
combination of the key's points with the public inputs behind a leading one; a verifier that adds
up point by point reaches it (`inputSum_succ`), and one that tests a product of four pairings tests
the equation (`pairings_eq_zero_iff`). -/

namespace Enclave.Groth16

variable {R G₁ G₂ T : Type*} [CommRing R] [AddCommGroup G₁] [Module R G₁] [AddCommGroup G₂]
  [Module R G₂] [AddCommGroup T] [Module R T]

structure VerifyingKey (G₁ G₂ : Type*) where
  alpha : G₁
  beta : G₂
  gamma : G₂
  delta : G₂
  ic : List G₁
deriving DecidableEq

structure Proof (G₁ G₂ : Type*) where
  a : G₁
  b : G₂
  c : G₁
deriving DecidableEq

/-- The first `n` terms of the combination of the points with one and the inputs. -/
def inputSum (ic : List G₁) (xs : List R) (n : ℕ) : G₁ :=
  ∑ i ∈ Finset.range n, (1 :: xs).getD i 0 • ic.getD i 0

theorem inputSum_one (p : G₁) (ic : List G₁) (xs : List R) : inputSum (p :: ic) xs 1 = p := by
  rw [inputSum, Finset.sum_range_one]
  exact one_smul R p

theorem inputSum_succ {ic : List G₁} {xs : List R} {n : ℕ} {x : R} {p : G₁} (hx : xs[n]? = some x)
    (hp : ic[n + 1]? = some p) : inputSum ic xs (n + 2) = inputSum ic xs (n + 1) + x • p := by
  rw [inputSum, Finset.sum_range_succ, ← inputSum, List.getD_cons_succ,
    List.getD_eq_getElem?_getD, List.getD_eq_getElem?_getD, hx, hp]
  rfl

/-- The key takes the inputs, and the equation holds. -/
structure Accepts (e : G₁ →ₗ[R] G₂ →ₗ[R] T) (vk : VerifyingKey G₁ G₂) (xs : List R)
    (π : Proof G₁ G₂) : Prop where
  length : xs.length + 1 = vk.ic.length
  pairing : e π.a π.b =
    e vk.alpha vk.beta + e (inputSum vk.ic xs vk.ic.length) vk.gamma + e π.c vk.delta

/-- The product of four pairings, with the first point negated. -/
theorem pairings_eq_zero_iff (e : G₁ →ₗ[R] G₂ →ₗ[R] T) (a alpha x c : G₁)
    (b beta gamma delta : G₂) :
    e (-a) b + e alpha beta + e x gamma + e c delta = 0 ↔
      e a b = e alpha beta + e x gamma + e c delta := by
  rw [map_neg, LinearMap.neg_apply, add_assoc, add_assoc, neg_add_eq_zero, add_assoc]

end Enclave.Groth16

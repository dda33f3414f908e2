import Enclave.Host

/-! # The order of the scalar field

`bn256Modulus` is prime: Lucas's test with the factors of one less, and for the large factors the
same again.  A power whose exponent has an inverse modulo `bn256Modulus - 1` has an inverse
(`pow_injective`). -/

namespace Enclave

/-! ### Lucas's test with a list of factors -/

section test

variable {p : ℕ}

/-- Lucas's test, with the factors of `p - 1` and their exponents in a list. -/
theorem prime_of_factors (a : ZMod p) (factors : List (ℕ × ℕ))
    (hprod : (factors.map fun f => f.1 ^ f.2).prod = p - 1)
    (hprime : ∀ f ∈ factors, f.1.Prime) (hone : a ^ (p - 1) = 1)
    (hne : ∀ f ∈ factors, a ^ ((p - 1) / f.1) ≠ 1) : p.Prime := by
  refine lucas_primality p a hone fun q hq hdvd => ?_
  rw [← hprod] at hdvd
  obtain ⟨x, hx, hdvd⟩ := hq.prime.dvd_prod_iff.mp hdvd
  obtain ⟨f, hf, rfl⟩ := List.mem_map.mp hx
  obtain rfl := (Nat.prime_dvd_prime_iff_eq hq (hprime f hf)).mp (hq.dvd_of_dvd_pow hdvd)
  exact hne f hf

/-- A power is undone by an exponent that is its inverse modulo `p - 1`. -/
theorem pow_injective (hp : p.Prime) {d e k : ℕ} (h : d * e = k * (p - 1) + 1) :
    Function.Injective fun x : ZMod p => x ^ d := by
  have := Fact.mk hp
  have hundo : ∀ x : ZMod p, (x ^ d) ^ e = x := by
    intro x
    rw [← pow_mul, h, pow_succ, mul_comm k, pow_mul]
    by_cases hx : x = 0
    · rw [hx, mul_zero]
    · rw [ZMod.pow_card_sub_one_eq_one hx, one_pow, one_mul]
  intro x y hxy
  rw [← hundo x, ← hundo y]
  exact congrArg (· ^ e) hxy

end test

/-! ### The modulus -/

theorem prime_405928799 : Nat.Prime 405928799 := by
  refine prime_of_factors 22 [(2, 1), (11, 1), (3691, 1), (4999, 1)]
    (by norm_num) ?_ (by reduce_mod_char) ?_
  · simp only [List.forall_mem_cons, List.not_mem_nil, IsEmpty.forall_iff, implies_true, and_true]
    exact ⟨by norm_num, by norm_num, by norm_num, by norm_num⟩
  · simp only [List.forall_mem_cons, List.not_mem_nil, IsEmpty.forall_iff, implies_true, and_true,
      Nat.reduceSub, Nat.reduceDiv]
    refine ⟨?_, ?_, ?_, ?_⟩ <;> reduce_mod_char <;> decide

theorem prime_1593227 : Nat.Prime 1593227 := by
  refine prime_of_factors 2 [(2, 1), (19, 1), (41927, 1)] (by norm_num) ?_ (by reduce_mod_char) ?_
  · simp only [List.forall_mem_cons, List.not_mem_nil, IsEmpty.forall_iff, implies_true, and_true]
    exact ⟨by norm_num, by norm_num, by norm_num⟩
  · simp only [List.forall_mem_cons, List.not_mem_nil, IsEmpty.forall_iff, implies_true, and_true,
      Nat.reduceSub, Nat.reduceDiv]
    refine ⟨?_, ?_, ?_⟩ <;> reduce_mod_char <;> decide

theorem prime_639533339 : Nat.Prime 639533339 := by
  refine prime_of_factors 2 [(2, 1), (229, 1), (853, 1), (1637, 1)]
    (by norm_num) ?_ (by reduce_mod_char) ?_
  · simp only [List.forall_mem_cons, List.not_mem_nil, IsEmpty.forall_iff, implies_true, and_true]
    exact ⟨by norm_num, by norm_num, by norm_num, by norm_num⟩
  · simp only [List.forall_mem_cons, List.not_mem_nil, IsEmpty.forall_iff, implies_true, and_true,
      Nat.reduceSub, Nat.reduceDiv]
    refine ⟨?_, ?_, ?_, ?_⟩ <;> reduce_mod_char <;> decide

theorem prime_12048837557 : Nat.Prime 12048837557 := by
  refine prime_of_factors 2 [(2, 2), (7, 2), (661, 1), (93001, 1)]
    (by norm_num) ?_ (by reduce_mod_char) ?_
  · simp only [List.forall_mem_cons, List.not_mem_nil, IsEmpty.forall_iff, implies_true, and_true]
    exact ⟨by norm_num, by norm_num, by norm_num, by norm_num⟩
  · simp only [List.forall_mem_cons, List.not_mem_nil, IsEmpty.forall_iff, implies_true, and_true,
      Nat.reduceSub, Nat.reduceDiv]
    refine ⟨?_, ?_, ?_, ?_⟩ <;> reduce_mod_char <;> decide

theorem prime_65865678001877903 : Nat.Prime 65865678001877903 := by
  refine prime_of_factors 5 [(2, 1), (83, 1), (379, 1), (1637, 1), (639533339, 1)]
    (by norm_num) ?_ (by reduce_mod_char) ?_
  · simp only [List.forall_mem_cons, List.not_mem_nil, IsEmpty.forall_iff, implies_true, and_true]
    exact ⟨by norm_num, by norm_num, by norm_num, by norm_num, prime_639533339⟩
  · simp only [List.forall_mem_cons, List.not_mem_nil, IsEmpty.forall_iff, implies_true, and_true,
      Nat.reduceSub, Nat.reduceDiv]
    refine ⟨?_, ?_, ?_, ?_, ?_⟩ <;> reduce_mod_char <;> decide

theorem prime_5156902474397 : Nat.Prime 5156902474397 := by
  refine prime_of_factors 2 [(2, 2), (107, 1), (12048837557, 1)]
    (by norm_num) ?_ (by reduce_mod_char) ?_
  · simp only [List.forall_mem_cons, List.not_mem_nil, IsEmpty.forall_iff, implies_true, and_true]
    exact ⟨by norm_num, by norm_num, prime_12048837557⟩
  · simp only [List.forall_mem_cons, List.not_mem_nil, IsEmpty.forall_iff, implies_true, and_true,
      Nat.reduceSub, Nat.reduceDiv]
    refine ⟨?_, ?_, ?_⟩ <;> reduce_mod_char <;> decide

theorem prime_1670836401704629 : Nat.Prime 1670836401704629 := by
  refine prime_of_factors 2 [(2, 2), (3, 4), (5156902474397, 1)]
    (by norm_num) ?_ (by reduce_mod_char) ?_
  · simp only [List.forall_mem_cons, List.not_mem_nil, IsEmpty.forall_iff, implies_true, and_true]
    exact ⟨by norm_num, by norm_num, prime_5156902474397⟩
  · simp only [List.forall_mem_cons, List.not_mem_nil, IsEmpty.forall_iff, implies_true, and_true,
      Nat.reduceSub, Nat.reduceDiv]
    refine ⟨?_, ?_, ?_⟩ <;> reduce_mod_char <;> decide

theorem prime_13818364434197438864469338081 : Nat.Prime 13818364434197438864469338081 := by
  refine prime_of_factors 3 [(2, 5), (5, 1), (823, 1), (1593227, 1), (65865678001877903, 1)]
    (by norm_num) ?_ (by reduce_mod_char) ?_
  · simp only [List.forall_mem_cons, List.not_mem_nil, IsEmpty.forall_iff, implies_true, and_true]
    exact ⟨by norm_num, by norm_num, by norm_num, prime_1593227, prime_65865678001877903⟩
  · simp only [List.forall_mem_cons, List.not_mem_nil, IsEmpty.forall_iff, implies_true, and_true,
      Nat.reduceSub, Nat.reduceDiv]
    refine ⟨?_, ?_, ?_, ?_, ?_⟩ <;> reduce_mod_char <;> decide

theorem prime_bn256Modulus : Nat.Prime bn256Modulus := by
  refine prime_of_factors 5
    [(2, 28), (3, 2), (13, 1), (29, 1), (983, 1), (11003, 1), (237073, 1),
      (405928799, 1), (1670836401704629, 1), (13818364434197438864469338081, 1)]
    (by norm_num [bn256Modulus]) ?_ ?_ ?_
  · simp only [List.forall_mem_cons, List.not_mem_nil, IsEmpty.forall_iff, implies_true, and_true]
    exact ⟨by norm_num, by norm_num, by norm_num, by norm_num, by norm_num, by norm_num,
      by norm_num, prime_405928799, prime_1670836401704629, prime_13818364434197438864469338081⟩
  · unfold bn256Modulus
    reduce_mod_char
  · unfold bn256Modulus
    simp only [List.forall_mem_cons, List.not_mem_nil, IsEmpty.forall_iff, implies_true, and_true,
      Nat.reduceSub, Nat.reduceDiv]
    refine ⟨?_, ?_, ?_, ?_, ?_, ?_, ?_, ?_, ?_, ?_⟩ <;> reduce_mod_char <;> decide +kernel

end Enclave

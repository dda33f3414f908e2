import Enclave.Pool.DoubleSpend
import Enclave.Prover.Flattening

/-! # The public amount

Three encoders turn the signed external amount into a field element: the contract's
`calculate_public_amount`, the browser's `toFieldElement` and `to_field_element` of the witness
crate.  On the amounts that the contract accepts they agree (`publicAmount_agreement`). -/

namespace Enclave

namespace App

/-- `toFieldElement` of the transaction builder. -/
def toFieldElement (amount : ℤ) : ℤ :=
  if amount ≥ 0 then amount
  else bn256Modulus + amount

/-- The witness crate's `BN254_FIELD_MODULUS` is the modulus of the others. -/
example : 21888242871839275222246405745257275088548364400416034343698204186575808495617 =
    bn256Modulus := by decide

end App

namespace Pool

variable {x : I256} {env : Env Chain}

theorem neg_apply (h : x.val ≠ -2 ^ 255) :
    ∃ w : I256, x.neg env = .ok (w, env) ∧ w.val = -x.val := by
  have hfit : -2 ^ 255 ≤ -x.val ∧ -x.val < 2 ^ 255 := by
    have := x.range
    omega
  refine ⟨⟨-x.val, hfit⟩, ?_, rfl⟩
  rw [I256.neg, dif_pos hfit]
  rfl

theorem i256AbsToU256_apply (h : x.val ≠ -2 ^ 255) :
    ∃ a : U256, i256AbsToU256 x env = .ok (a, env) ∧ (a : ℤ) = |x.val| := by
  have happly : ∃ a, i256AbsToU256 x env = .ok (a, env) := by
    unfold i256AbsToU256
    by_cases h0 : x.val ≥ 0
    · rw [if_pos h0]
      exact ⟨_, rfl⟩
    · obtain ⟨w, hw, -⟩ := @neg_apply x env h
      rw [if_neg h0, Host.bind_of_ok hw]
      exact ⟨_, rfl⟩
  obtain ⟨a, ha⟩ := happly
  exact ⟨a, ha, (i256AbsToU256_ok ha).2⟩

/-- An amount of 2²⁴⁸ or more is refused, in either direction. -/
theorem calculatePublicAmount_of_le (h : x.val ≠ -2 ^ 255) (hle : 2 ^ 248 ≤ |x.val|) :
    calculatePublicAmount x env = .error (.error .wrongExtAmount) := by
  obtain ⟨a, ha, habs⟩ := @i256AbsToU256_apply x env h
  have hmax : a ≥ maxExtAmount := by
    have : ((2 ^ 248 : ℕ) : ℤ) ≤ a := by
      rw [habs]
      exact_mod_cast hle
    exact_mod_cast this
  rw [calculatePublicAmount, Host.bind_of_ok ha, if_pos hmax, Host.fail_apply]

theorem calculatePublicAmount_of_lt (hlt : |x.val| < 2 ^ 248) :
    ∃ v : U256, calculatePublicAmount x env = .ok (v, env) ∧
      (v : ℤ) = if 0 ≤ x.val then x.val else bn256Modulus + x.val := by
  obtain ⟨hlow, hhigh⟩ := abs_lt.mp hlt
  have h : x.val ≠ -2 ^ 255 := by omega
  have hmod : (2 : ℤ) ^ 248 < bn256Modulus := by decide
  obtain ⟨a, ha, habs⟩ := @i256AbsToU256_apply x env h
  have hmax : ¬ a ≥ maxExtAmount := by
    intro hge
    have : ((2 ^ 248 : ℕ) : ℤ) ≤ a := by exact_mod_cast hge
    rw [habs] at this
    exact absurd (by exact_mod_cast this) (not_le.mpr hlt)
  rw [calculatePublicAmount, Host.bind_of_ok ha, if_neg hmax]
  by_cases h0 : x.val ≥ 0
  · rw [if_pos h0, if_pos h0]
    exact ⟨_, rfl, toU256_of_nonneg h0⟩
  · obtain ⟨w, hw, hval⟩ := @neg_apply x env h
    have hcast : (w.toU256 : ℤ) = -x.val := by rw [toU256_of_nonneg (by omega), hval]
    have hle : w.toU256 ≤ bn256Modulus := by
      have : (w.toU256 : ℤ) ≤ bn256Modulus := by omega
      exact_mod_cast this
    rw [if_neg h0, if_neg h0, Host.bind_of_ok hw, if_pos hle]
    refine ⟨_, rfl, ?_⟩
    rw [Nat.cast_sub hle, hcast, sub_neg_eq_add]

end Pool

open Pool

/-- The encoding of a small amount is its canonical residue. -/
theorem encoded_eq_emod {z : ℤ} (h : |z| < bn256Modulus) :
    (if 0 ≤ z then z else bn256Modulus + z) = z % bn256Modulus := by
  obtain ⟨hlow, hhigh⟩ := abs_lt.mp h
  split_ifs with h0
  · exact (Int.emod_eq_of_lt h0 hhigh).symm
  · rw [← Int.add_emod_left, Int.emod_eq_of_lt (by omega) (by omega)]

theorem eq_of_emod_eq {z z' : ℤ} (hz : |z| < 2 ^ 248) (hz' : |z'| < 2 ^ 248)
    (h : z % bn256Modulus = z' % bn256Modulus) : z = z' := by
  have hmod : (2 : ℤ) ^ 249 < bn256Modulus := by decide
  obtain ⟨hlow, hhigh⟩ := abs_lt.mp hz
  obtain ⟨hlow', hhigh'⟩ := abs_lt.mp hz'
  have hdvd : (bn256Modulus : ℤ) ∣ z - z' := Int.ModEq.dvd (id h.symm : z' % _ = z % _)
  have habs : |z - z'| < bn256Modulus := by
    rw [abs_lt]
    omega
  exact sub_eq_zero.mp (Int.eq_zero_of_abs_lt_dvd hdvd habs)

/-- **The three encoders agree.**  The contract encodes the amounts below 2²⁴⁸ in absolute value
and refuses the others; the encoding is the canonical residue, different for different amounts,
and what the browser and the witness crate compute. -/
theorem publicAmount_agreement (x : I256) (hx : x.val ≠ -2 ^ 255) (env : Env Chain) :
    ((∃ v env', calculatePublicAmount x env = .ok (v, env')) ↔ |x.val| < 2 ^ 248) ∧
      ∀ v env', calculatePublicAmount x env = .ok (v, env') →
        v < bn256Modulus ∧ (v : ℤ) = x.val % bn256Modulus ∧
          (∀ (y : I256) env₁ env₂, calculatePublicAmount y env₁ = .ok (v, env₂) → y = x) ∧
          App.toFieldElement x.val = v ∧ Prover.toFieldElement x.val = .ok v := by
  have hmod : (2 : ℤ) ^ 248 < bn256Modulus := by decide
  have hvalue : ∀ (y : I256) env₁ v env₂, calculatePublicAmount y env₁ = .ok (v, env₂) →
      |y.val| < 2 ^ 248 ∧ (v : ℤ) = if 0 ≤ y.val then y.val else bn256Modulus + y.val := by
    intro y env₁ v env₂ h
    have hlt := (calculatePublicAmount_ok h).2.1
    obtain ⟨v', happly, hv⟩ := @calculatePublicAmount_of_lt y env₁ hlt
    rw [h] at happly
    obtain ⟨rfl, -⟩ := Prod.mk.inj (Except.ok.inj happly)
    exact ⟨hlt, hv⟩
  refine ⟨⟨fun ⟨v, env', h⟩ => (hvalue x env v env' h).1, fun hlt => ?_⟩, ?_⟩
  · obtain ⟨v, happly, -⟩ := @calculatePublicAmount_of_lt x env hlt
    exact ⟨v, env, happly⟩
  · intro v env' h
    obtain ⟨hlt, hv⟩ := hvalue x env v env' h
    have hres : (v : ℤ) = x.val % bn256Modulus := hv.trans (encoded_eq_emod (hlt.trans hmod))
    refine ⟨(calculatePublicAmount_ok h).2.2.1, hres, ?_, hv.symm, ?_⟩
    · intro y env₁ env₂ hy
      obtain ⟨hylt, hyv⟩ := hvalue y env₁ v env₂ hy
      have hyres := hyv.trans (encoded_eq_emod (hylt.trans hmod))
      have hval := eq_of_emod_eq hylt hlt (hyres.symm.trans hres)
      cases x
      cases y
      cases hval
      rfl
    · have hnat : x.val.natAbs < bn256Modulus := by
        have := hlt.trans hmod
        rw [Int.abs_eq_natAbs] at this
        exact_mod_cast this
      have hfield : (Prover.fieldElement x.val : ℤ) = v := by
        rw [hv, Prover.fieldElement]
        split_ifs <;> omega
      rw [Prover.toFieldElement_eq hnat, Nat.cast_injective hfield]

/-- A withdrawal of 5 is encoded by the field's order less 5. -/
theorem publicAmount_agreement_withdrawal :
    ∃ v env', calculatePublicAmount ⟨-5, by decide⟩ samplePool = .ok (v, env') ∧
      App.toFieldElement (-5) = v ∧ Prover.toFieldElement (-5) = .ok v := by
  have hagree := publicAmount_agreement ⟨-5, by decide⟩ (by decide) samplePool
  obtain ⟨v, env', h⟩ := hagree.1.mpr (by decide)
  exact ⟨v, env', h, (hagree.2 v env' h).2.2.2⟩

end Enclave

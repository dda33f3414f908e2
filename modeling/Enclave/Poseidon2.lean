import Enclave.Host

/-! # Poseidon2

`compress` (two inputs, feed-forward), `hash2` and `hash3` (two and three inputs with a domain
separation) over the field, as the circuits' `PoseidonCompress` and `Poseidon2(n)` templates and
`circuits::core::merkle` compute them, and the contracts' `poseidon2_compress` and
`poseidon2_hash2`, which take words, trap on values outside the field and reduce the
feed-forward sum.  `poseidon2Compress_apply` and `poseidon2Hash2_apply` say that on field
elements the contracts' functions are the field's. -/

namespace Enclave

/-- The Poseidon2 permutation over BN254 at the widths in use, with the round constants fixed. -/
structure Poseidon2 where
  permutation2 : F → F → F × F
  permutation3 : F → F → F → F × F × F
  permutation4 : F → F → F → F → F × F × F × F

namespace Poseidon2

variable (P : Poseidon2)

/-- `PoseidonCompress`, `poseidon2_compression`: the first output plus the first input. -/
def compress (left right : F) : F := (P.permutation2 left right).1 + left

/-- `Poseidon2(2)`, `poseidon2_hash2_internal`. -/
def hash2 (a b sep : F) : F := (P.permutation3 a b sep).1

/-- `Poseidon2(3)`. -/
def hash3 (a b c sep : F) : F := (P.permutation4 a b c sep).1

/-- The digest of an evaluation. -/
def digest : Query → F
  | .compress left right => P.compress left right
  | .hash2 a b sep => P.hash2 a b sep
  | .hash3 a b c sep => P.hash3 a b c sep

/-- No two different inputs in `Q` have one digest. -/
def CollisionFree (Q : Set Query) : Prop := Set.InjOn P.digest Q

/-- No input in `Q` has digest zero. -/
def NeverZero (Q : Set Query) : Prop := ∀ q ∈ Q, P.digest q ≠ 0

end Poseidon2

/-- A permutation without collisions on small inputs, to run the contracts on. -/
def smallPoseidon2 : Poseidon2 where
  permutation2 l r := (1000003 * r + 10007, l)
  permutation3 a b c := (100 * a + 10 * b + c, b, c)
  permutation4 a b c d := (1000 * a + 100 * b + 10 * c + d, b, c, d)

variable {σ ε : Type} (P : Poseidon2)

/-- Distinct evaluations of the log have distinct nonzero digests. -/
def cleanLog (log : List Query) : Bool :=
  log.all fun q => decide (P.digest q ≠ 0) &&
    log.all fun q' => decide (P.digest q = P.digest q' → q = q')

variable {P} in
theorem collisionFree_of_cleanLog {log : List Query} (h : cleanLog P log = true) :
    P.CollisionFree {q | q ∈ log} ∧ P.NeverZero {q | q ∈ log} := by
  simp only [cleanLog, List.all_eq_true, Bool.and_eq_true, decide_eq_true_eq] at h
  exact ⟨fun q hq q' hq' he => (h q hq).2 q' hq' he, fun q hq => (h q hq).1⟩

/-- `soroban_utils::poseidon2_compress`. -/
def poseidon2Compress (left right : U256) : Host σ ε U256 := do
  if left ≥ bn256Modulus ∨ right ≥ bn256Modulus then
    Host.panic "Hash inputs must be within the BN256 range [0.p-1)"
  else
    Host.logQuery (.compress left right)
    let out0 := (P.permutation2 left right).1.val
    let compressed0 := out0 + left
    return if compressed0 ≥ bn256Modulus then compressed0 % bn256Modulus else compressed0

/-- `soroban_utils::poseidon2_hash2`. -/
def poseidon2Hash2 (a b : U256) (sep : Option U256) : Host σ ε U256 := do
  let sep := sep.getD 0
  if a ≥ bn256Modulus ∨ b ≥ bn256Modulus ∨ sep ≥ bn256Modulus then
    Host.panic "Hash inputs must be within the BN256 range [0.p-1)"
  else
    Host.logQuery (.hash2 a b sep)
    return (P.permutation3 a b sep).1.val

theorem grows_poseidon2Compress (left right : U256) :
    (poseidon2Compress P left right : Host σ ε U256).Grows :=
  .ite (.panic _) (.bind (.logQuery _) fun _ => .pure _)

theorem grows_poseidon2Hash2 (a b : U256) (sep : Option U256) :
    (poseidon2Hash2 P a b sep : Host σ ε U256).Grows :=
  .ite (.panic _) (.bind (.logQuery _) fun _ => .pure _)

theorem fixes_poseidon2Compress {τ : Type} (part : σ → τ) (left right : U256) :
    (poseidon2Compress P left right : Host σ ε U256).Fixes part :=
  .ite (.panic _) (.bind (.logQuery _) fun _ => .pure _)

theorem lt_of_poseidon2Compress {left right hash : U256} {env env' : Env σ}
    (h : (poseidon2Compress P left right : Host σ ε U256) env = .ok (hash, env')) :
    left < bn256Modulus ∧ right < bn256Modulus := by
  unfold poseidon2Compress at h
  split_ifs at h with hout
  · cases h
  · obtain ⟨hleft, hright⟩ := not_or.mp hout
    exact ⟨not_le.mp hleft, not_le.mp hright⟩

theorem poseidon2Compress_apply (left right : F) (env : Env σ) :
    (poseidon2Compress P left.val right.val : Host σ ε U256) env =
      .ok ((P.compress left right).val,
        { env with hashed := .compress left right :: env.hashed }) := by
  have hl := F.val_lt left
  have hr := F.val_lt right
  have hin : ¬ (left.val ≥ bn256Modulus ∨ right.val ≥ bn256Modulus) := by omega
  have hval : (if (P.permutation2 left right).1.val + left.val ≥ bn256Modulus then
      ((P.permutation2 left right).1.val + left.val) % bn256Modulus
      else (P.permutation2 left right).1.val + left.val) = (P.compress left right).val := by
    rw [Poseidon2.compress, ZMod.val_add]
    split_ifs with h
    · rfl
    · exact (Nat.mod_eq_of_lt (by omega)).symm
  rw [poseidon2Compress, if_neg hin, Host.bind_of_ok (Host.logQuery_apply _ env)]
  simp only [F.natCast_val, Host.pure_apply]
  rw [hval]

theorem poseidon2Hash2_apply (a b sep : F) (env : Env σ) :
    (poseidon2Hash2 P a.val b.val (some sep.val) : Host σ ε U256) env =
      .ok ((P.hash2 a b sep).val, { env with hashed := .hash2 a b sep :: env.hashed }) := by
  have ha := F.val_lt a
  have hb := F.val_lt b
  have hs := F.val_lt sep
  have hin : ¬ (a.val ≥ bn256Modulus ∨ b.val ≥ bn256Modulus ∨ sep.val ≥ bn256Modulus) := by omega
  simp only [poseidon2Hash2, Option.getD_some, if_neg hin]
  rw [Host.bind_of_ok (Host.logQuery_apply _ env)]
  simp only [F.natCast_val, Host.pure_apply]
  rfl

end Enclave

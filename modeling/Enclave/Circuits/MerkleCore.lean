import Enclave.Frontier

/-! # Full recomputation of Merkle roots and paths

`circuits::core::merkle`: `merkle_root` hashes pairs of nodes level by level until one is left;
`merkle_proof` reads the sibling of each node on the way.  On `2 ^ L` leaves the results are the root
of the complete tree (`merkleRoot_eq`) and the siblings of the leaf's path (`merkleProof_eq`). -/

namespace Enclave.Circuits

open Merkle

variable (P : Poseidon2)

/-- The next level: the pairs of `chunks_exact(2)`, hashed. -/
def nextLevel : List F → List F
  | left :: right :: rest => P.compress left right :: nextLevel rest
  | _ => []

theorem length_nextLevel : ∀ leaves : List F, (nextLevel P leaves).length = leaves.length / 2
  | [] => rfl
  | [_] => by simp [nextLevel]
  | _ :: _ :: rest => by
      rw [nextLevel, List.length_cons, length_nextLevel rest, List.length_cons, List.length_cons]
      omega

/-- The loop of `merkle_root`. -/
def hashLevels (leaves : List F) : List F :=
  if 1 < leaves.length then hashLevels (nextLevel P leaves) else leaves
termination_by leaves.length
decreasing_by
  rw [length_nextLevel]
  omega

/-- `merkle_root`. -/
def merkleRoot (leaves : List F) : Except (Fault String) F :=
  if leaves.isEmpty then .error (.panic "leaves cannot be empty")
  else if 2 ^ leaves.length.log2 ≠ leaves.length then
    .error (.panic "leaves length must be a power of 2")
  else
    match hashLevels P leaves with
    | root :: _ => .ok root
    | [] => .error (.panic "index out of bounds")

/-- All leaves of a tree with `levels` levels: the given ones, then the zero leaf. -/
def padded (zero : F) (levels : ℕ) (leaves : List F) : List F :=
  leaves ++ List.replicate (2 ^ levels - leaves.length) zero

variable {P}

def levelNodes (P : Poseidon2) (f : ℕ → F) (l n : ℕ) : List F :=
  (List.range n).map (node P.compress f l)

theorem nextLevel_levelNodes (f : ℕ → F) (l : ℕ) : ∀ n : ℕ,
    nextLevel P (levelNodes P f l (2 * n)) = levelNodes P f (l + 1) n
  | 0 => rfl
  | n + 1 => by
      have hsplit : ∀ a b : List F, a.length % 2 = 0 →
          nextLevel P (a ++ b) = nextLevel P a ++ nextLevel P b := by
        intro a
        induction a using nextLevel.induct with
        | case1 x y rest ih =>
            intro b h
            rw [List.length_cons, List.length_cons] at h
            rw [List.cons_append, List.cons_append, nextLevel, ih b (by omega), nextLevel]
            rfl
        | case2 a ha =>
            intro b h
            match a, ha with
            | [], _ => rfl
            | [_], _ => cases h
            | x :: y :: rest, ha => exact absurd rfl (ha x y rest)
      have ih := nextLevel_levelNodes f l n
      unfold levelNodes at ih ⊢
      rw [show 2 * (n + 1) = 2 * n + 1 + 1 by omega, List.range_succ, List.range_succ,
        List.range_succ, List.map_append, List.map_append, List.append_assoc,
        hsplit _ _ (by simp), ih, List.map_append]
      rfl

theorem hashLevels_levelNodes (f : ℕ → F) : ∀ k l : ℕ,
    hashLevels P (levelNodes P f l (2 ^ k)) = [node P.compress f (l + k) 0]
  | 0, l => by
      rw [hashLevels]
      simp [levelNodes]
  | k + 1, l => by
      have hlen : 1 < (levelNodes P f l (2 ^ (k + 1))).length := by
        have := Nat.one_le_two_pow (n := k)
        rw [levelNodes, List.length_map, List.length_range, pow_succ]
        omega
      rw [hashLevels, if_pos hlen, pow_succ, Nat.mul_comm, nextLevel_levelNodes,
        hashLevels_levelNodes f k (l + 1), Nat.add_right_comm, Nat.add_assoc]

theorem padded_eq {levels : ℕ} {leaves : List F} (h : leaves.length ≤ 2 ^ levels) :
    padded (zeroAt 0) levels leaves = (List.range (2 ^ levels)).map (leafAt leaves) := by
  refine List.ext_getElem (by simp [padded, h]) fun i hi hi' => ?_
  rw [List.getElem_map, List.getElem_range]
  by_cases hlt : i < leaves.length
  · simp [padded, leafAt, hlt]
  · simp [padded, leafAt, hlt, List.getElem_append]

/-- **Full recomputation gives the root of the complete tree.** -/
theorem merkleRoot_eq {levels : ℕ} {leaves : List F} (h : leaves.length ≤ 2 ^ levels) :
    merkleRoot P (padded (zeroAt 0) levels leaves) = .ok (rootOf P levels leaves) := by
  have hnodes : padded (zeroAt 0) levels leaves = levelNodes P (leafAt leaves) 0 (2 ^ levels) :=
    padded_eq h
  have hlen : (levelNodes P (leafAt leaves) 0 (2 ^ levels)).length = 2 ^ levels := by
    simp [levelNodes]
  have hne : (levelNodes P (leafAt leaves) 0 (2 ^ levels)).isEmpty = false := by
    rw [List.isEmpty_eq_false_iff_exists_mem]
    exact ⟨_, List.mem_map.mpr ⟨0, List.mem_range.mpr (by positivity), rfl⟩⟩
  rw [hnodes, merkleRoot, hne, hlen, Nat.log2_two_pow, hashLevels_levelNodes, Nat.zero_add]
  simp [rootOf]

/-! ### Paths -/

variable (P) in
/-- The loop of `merkle_proof` over `levels` levels: path elements and index bits. -/
def proofLoop : ℕ → List F → ℕ → Except (Fault String) (List F × List ℕ)
  | 0, _, _ => .ok ([], [])
  | levels + 1, levelNodes, index =>
      match levelNodes[if index % 2 = 0 then index + 1 else index - 1]? with
      | none => .error (.panic "index out of bounds")
      | some sibling => do
          let (pathElems, bits) ← proofLoop levels (nextLevel P levelNodes) (index / 2)
          return (sibling :: pathElems, index % 2 :: bits)

/-- The bits, put together from the first one on. -/
def indexOfBits (bits : List ℕ) : ℕ :=
  bits.zipIdx.foldl (fun pathIndices (b, i) => pathIndices ||| b <<< i) 0

variable (P) in
/-- `merkle_proof`. -/
def merkleProof (leaves : List F) (index : ℕ) : Except (Fault String) (List F × ℕ × ℕ) :=
  if leaves.isEmpty ∨ 2 ^ leaves.length.log2 ≠ leaves.length then
    .error (.panic "assertion failed: !leaves.is_empty() && leaves.len().is_power_of_two()")
  else do
    let levels := leaves.length.log2
    let (pathElems, bits) ← proofLoop P levels leaves index
    return (pathElems, indexOfBits bits, levels)

/-- The last `n` binary digits, the lowest first. -/
def indexBits : ℕ → ℕ → List ℕ
  | 0, _ => []
  | n + 1, index => index % 2 :: indexBits n (index / 2)

/-- **The loop** reads the siblings of the path. -/
theorem proofLoop_levelNodes (f : ℕ → F) (idx : ℕ) : ∀ k l : ℕ, idx / 2 ^ l < 2 ^ k →
    proofLoop P k (levelNodes P f l (2 ^ k)) (idx / 2 ^ l) =
      .ok (siblings P.compress f idx k l, indexBits k (idx / 2 ^ l))
  | 0, _, _ => rfl
  | k + 1, l, h => by
      have hsibling : (levelNodes P f l (2 ^ (k + 1)))[if idx / 2 ^ l % 2 = 0 then idx / 2 ^ l + 1
          else idx / 2 ^ l - 1]? = some (node P.compress f l (idx / 2 ^ l ^^^ 1)) := by
        have hlt : idx / 2 ^ l ^^^ 1 < 2 ^ (k + 1) := Nat.xor_lt_two_pow h (by
          have := Nat.one_le_two_pow (n := k)
          rw [pow_succ]
          omega)
        rw [← xor_one_eq, levelNodes, List.getElem?_map, List.getElem?_range hlt, Option.map_some]
      have hnext : idx / 2 ^ (l + 1) < 2 ^ k := by
        rw [pow_succ] at h
        rw [div_two_pow_succ]
        omega
      have ih := proofLoop_levelNodes f idx k (l + 1) hnext
      rw [div_two_pow_succ] at ih
      rw [proofLoop, hsibling]
      simp only []
      rw [pow_succ, Nat.mul_comm, nextLevel_levelNodes, ih]
      rfl

theorem foldl_indexBits : ∀ n i index low : ℕ, low < 2 ^ i → index < 2 ^ n →
    ((indexBits n index).zipIdx i).foldl (fun acc (b, j) => acc ||| b <<< j) low =
      low + 2 ^ i * index
  | 0, i, index, low, _, h => by
      obtain rfl : index = 0 := by simpa using h
      simp [indexBits]
  | n + 1, i, index, low, hlow, h => by
      have hbit : low ||| (index % 2) <<< i = low + 2 ^ i * (index % 2) := by
        rw [Nat.or_comm, ← Nat.shiftLeft_add_eq_or_of_lt hlow, Nat.shiftLeft_eq, Nat.add_comm,
          Nat.mul_comm]
      have hlow' : low + 2 ^ i * (index % 2) < 2 ^ (i + 1) := by
        have hle : 2 ^ i * (index % 2) ≤ 2 ^ i * 1 := Nat.mul_le_mul_left _ (by omega)
        rw [pow_succ]
        omega
      have hindex : index / 2 < 2 ^ n := by
        rw [pow_succ] at h
        omega
      rw [indexBits, List.zipIdx_cons, List.foldl_cons]
      simp only [hbit]
      rw [foldl_indexBits n (i + 1) (index / 2) _ hlow' hindex, pow_succ, Nat.add_assoc,
        Nat.mul_assoc, ← Nat.mul_add, Nat.mod_add_div]

theorem indexOfBits_indexBits {n index : ℕ} (h : index < 2 ^ n) :
    indexOfBits (indexBits n index) = index := by
  rw [indexOfBits, foldl_indexBits n 0 index 0 (by decide) h, pow_zero, Nat.one_mul, Nat.zero_add]

/-- **A recomputed path** has the siblings and the index. -/
theorem merkleProof_eq (f : ℕ → F) {levels index : ℕ} (h : index < 2 ^ levels) :
    merkleProof P (levelNodes P f 0 (2 ^ levels)) index =
      .ok (siblings P.compress f index levels 0, index, levels) := by
  have hlen : (levelNodes P f 0 (2 ^ levels)).length = 2 ^ levels := by
    rw [levelNodes, List.length_map, List.length_range]
  have hne : ¬ ((levelNodes P f 0 (2 ^ levels)).isEmpty = true) := by
    rw [List.isEmpty_iff, ← List.length_eq_zero_iff, hlen]
    exact (Nat.two_pow_pos levels).ne'
  have hloop := @proofLoop_levelNodes P f index levels 0 (by simpa using h)
  rw [pow_zero, Nat.div_one] at hloop
  rw [merkleProof, hlen, Nat.log2_two_pow, if_neg (by simpa using hne)]
  simp only [hloop]
  exact congrArg (fun i => Except.ok (_, i, levels)) (indexOfBits_indexBits h)

end Enclave.Circuits

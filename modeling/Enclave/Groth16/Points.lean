import Enclave.Host
import Enclave.Lib.Bytes

/-! # Points as bytes

The points of proofs and keys cross to the contracts as big-endian coordinates, the imaginary part
first.  `soroban-utils` and the wasm prover crate each write them; the host reads them, and reads
nothing else (`readG1_eq_some_iff`, `readG2_eq_some_iff`). -/

namespace Enclave.Groth16

/-- The order of BN254's coordinate field. -/
def coordinateModulus : ℕ := 0x30644e72e131a029b85045b68181585d97816a916871ca8d3c208c16d87cfd47

/-- `ark_bn254::Fq`. -/
abbrev Fq := ZMod coordinateModulus

/-- `ark_bn254::Fq2`. -/
structure Fq2 where
  c0 : Fq
  c1 : Fq
deriving DecidableEq

/-- Coordinates in the first group; both are zero for the identity. -/
structure G1Affine where
  x : Fq
  y : Fq
deriving DecidableEq

/-- Coordinates in the second group. -/
structure G2Affine where
  x : Fq2
  y : Fq2
deriving DecidableEq

/-! ### Writing -/

/-- `into_bigint().to_bytes_be()`. -/
def toBytesBe (x : Fq) : List UInt8 := (Bytes.leBytes 32 x.val).reverse

/-- `g1_bytes_from_ark`. -/
def g1BytesFromArk (p : G1Affine) : List UInt8 := toBytesBe p.x ++ toBytesBe p.y

/-- `g2_bytes_from_ark`. -/
def g2BytesFromArk (p : G2Affine) : List UInt8 :=
  toBytesBe p.x.c1 ++ (toBytesBe p.x.c0 ++ (toBytesBe p.y.c1 ++ toBytesBe p.y.c0))

/-- `bigint_to_be_32`: what is short is padded on the left. -/
def bigintToBe32 (bytes : List UInt8) : List UInt8 :=
  List.replicate (32 - bytes.length) 0 ++ bytes.take 32

/-- `g1_bytes_uncompressed`. -/
def g1BytesUncompressed (p : G1Affine) : List UInt8 :=
  bigintToBe32 (toBytesBe p.x) ++ bigintToBe32 (toBytesBe p.y)

/-- `g2_bytes_uncompressed`. -/
def g2BytesUncompressed (p : G2Affine) : List UInt8 :=
  bigintToBe32 (toBytesBe p.x.c1) ++ (bigintToBe32 (toBytesBe p.x.c0) ++
    (bigintToBe32 (toBytesBe p.y.c1) ++ bigintToBe32 (toBytesBe p.y.c0)))

@[simp] theorem length_toBytesBe (x : Fq) : (toBytesBe x).length = 32 := by
  rw [toBytesBe, List.length_reverse, Bytes.length_leBytes]

@[simp] theorem length_g1BytesFromArk (p : G1Affine) : (g1BytesFromArk p).length = 64 := by
  rw [g1BytesFromArk, List.length_append, length_toBytesBe, length_toBytesBe]

@[simp] theorem length_g2BytesFromArk (p : G2Affine) : (g2BytesFromArk p).length = 128 := by
  simp only [g2BytesFromArk, List.length_append, length_toBytesBe]

theorem bigintToBe32_toBytesBe (x : Fq) : bigintToBe32 (toBytesBe x) = toBytesBe x := by
  rw [bigintToBe32, length_toBytesBe, Nat.sub_self, List.replicate_zero, List.nil_append,
    List.take_of_length_le (length_toBytesBe x).le]

/-- **The two crates write the same bytes.** -/
theorem g1BytesUncompressed_eq (p : G1Affine) : g1BytesUncompressed p = g1BytesFromArk p := by
  rw [g1BytesUncompressed, bigintToBe32_toBytesBe, bigintToBe32_toBytesBe, g1BytesFromArk]

theorem g2BytesUncompressed_eq (p : G2Affine) : g2BytesUncompressed p = g2BytesFromArk p := by
  simp only [g2BytesUncompressed, bigintToBe32_toBytesBe, g2BytesFromArk]

/-! ### Reading -/

/-- A coordinate, as the host reads it: 32 bytes, below the modulus. -/
def readFq (bytes : List UInt8) : Option Fq :=
  if Bytes.leValue bytes.reverse < coordinateModulus then
    some (Bytes.leValue bytes.reverse : Fq)
  else none

/-- Coordinates in the first group, as the host reads them. -/
def readG1 (bytes : List UInt8) : Option G1Affine :=
  if bytes.length = 64 then do
    let x ← readFq (bytes.take 32)
    let y ← readFq (bytes.drop 32)
    return ⟨x, y⟩
  else none

/-- Coordinates in the second group, as the host reads them. -/
def readG2 (bytes : List UInt8) : Option G2Affine :=
  if bytes.length = 128 then do
    let x1 ← readFq (bytes.take 32)
    let x0 ← readFq ((bytes.drop 32).take 32)
    let y1 ← readFq ((bytes.drop 64).take 32)
    let y0 ← readFq (bytes.drop 96)
    return ⟨⟨x0, x1⟩, ⟨y0, y1⟩⟩
  else none

theorem readFq_eq_some_iff {bytes : List UInt8} (h : bytes.length = 32) {x : Fq} :
    readFq bytes = some x ↔ bytes = toBytesBe x := by
  have : NeZero coordinateModulus := ⟨by decide⟩
  have hrev : bytes.reverse.length = 32 := by rw [List.length_reverse, h]
  unfold readFq toBytesBe
  split_ifs with hlt
  · rw [Option.some.injEq]
    constructor
    · rintro rfl
      rw [ZMod.val_natCast_of_lt hlt, Bytes.leBytes_of_length hrev, List.reverse_reverse]
    · intro heq
      have hwidth : x.val < 256 ^ 32 := (ZMod.val_lt x).trans (by decide)
      rw [heq, List.reverse_reverse, Bytes.leValue_leBytes hwidth, ZMod.natCast_zmod_val]
  · refine iff_of_false (fun hnone => by cases hnone) fun heq => hlt ?_
    have hwidth : x.val < 256 ^ 32 := (ZMod.val_lt x).trans (by decide)
    rw [heq, List.reverse_reverse, Bytes.leValue_leBytes hwidth]
    exact ZMod.val_lt x

/-- **The host reads a point of the first group if and only if its bytes are written.** -/
theorem readG1_eq_some_iff {bytes : List UInt8} {p : G1Affine} :
    readG1 bytes = some p ↔ bytes = g1BytesFromArk p := by
  by_cases hlen : bytes.length = 64
  · have hx : (bytes.take 32).length = 32 := by
      rw [List.length_take]
      omega
    have hy : (bytes.drop 32).length = 32 := by
      rw [List.length_drop]
      omega
    rw [readG1, if_pos hlen]
    constructor
    · intro h
      obtain ⟨x, hreadX, h⟩ := Option.bind_eq_some_iff.mp h
      obtain ⟨y, hreadY, h⟩ := Option.bind_eq_some_iff.mp h
      cases h
      rw [g1BytesFromArk, ← (readFq_eq_some_iff hx).mp hreadX,
        ← (readFq_eq_some_iff hy).mp hreadY, List.take_append_drop]
    · rintro rfl
      rw [g1BytesFromArk, List.take_left' (length_toBytesBe p.x),
        List.drop_left' (length_toBytesBe p.x),
        (readFq_eq_some_iff (length_toBytesBe p.x)).mpr rfl, Option.bind_eq_bind,
        Option.bind_some, (readFq_eq_some_iff (length_toBytesBe p.y)).mpr rfl]
      rfl
  · rw [readG1, if_neg hlen]
    refine iff_of_false (fun h => by cases h) fun h => hlen ?_
    rw [h, length_g1BytesFromArk]

theorem eq_quarters (bytes : List UInt8) : bytes = bytes.take 32 ++ ((bytes.drop 32).take 32 ++
    ((bytes.drop 64).take 32 ++ bytes.drop 96)) := by
  have h96 : bytes.drop 96 = (bytes.drop 64).drop 32 := by rw [List.drop_drop]
  have h64 : bytes.drop 64 = (bytes.drop 32).drop 32 := by rw [List.drop_drop]
  rw [h96, List.take_append_drop, h64, List.take_append_drop, List.take_append_drop]

/-- **So it does with the second group.** -/
theorem readG2_eq_some_iff {bytes : List UInt8} {p : G2Affine} :
    readG2 bytes = some p ↔ bytes = g2BytesFromArk p := by
  by_cases hlen : bytes.length = 128
  · have hx1 : (bytes.take 32).length = 32 := by
      rw [List.length_take]
      omega
    have hx0 : ((bytes.drop 32).take 32).length = 32 := by
      rw [List.length_take, List.length_drop]
      omega
    have hy1 : ((bytes.drop 64).take 32).length = 32 := by
      rw [List.length_take, List.length_drop]
      omega
    have hy0 : (bytes.drop 96).length = 32 := by
      rw [List.length_drop]
      omega
    rw [readG2, if_pos hlen]
    constructor
    · intro h
      obtain ⟨x1, hreadX1, h⟩ := Option.bind_eq_some_iff.mp h
      obtain ⟨x0, hreadX0, h⟩ := Option.bind_eq_some_iff.mp h
      obtain ⟨y1, hreadY1, h⟩ := Option.bind_eq_some_iff.mp h
      obtain ⟨y0, hreadY0, h⟩ := Option.bind_eq_some_iff.mp h
      cases h
      rw [g2BytesFromArk, ← (readFq_eq_some_iff hx1).mp hreadX1,
        ← (readFq_eq_some_iff hx0).mp hreadX0, ← (readFq_eq_some_iff hy1).mp hreadY1,
        ← (readFq_eq_some_iff hy0).mp hreadY0]
      exact eq_quarters bytes
    · intro h
      have hsplit := eq_quarters bytes
      nth_rewrite 1 [h] at hsplit
      rw [g2BytesFromArk] at hsplit
      obtain ⟨h1, hsplit⟩ := List.append_inj hsplit (by rw [hx1, length_toBytesBe])
      obtain ⟨h0, hsplit⟩ := List.append_inj hsplit (by rw [hx0, length_toBytesBe])
      obtain ⟨h1', h0'⟩ := List.append_inj hsplit (by rw [hy1, length_toBytesBe])
      rw [(readFq_eq_some_iff hx1).mpr h1.symm, (readFq_eq_some_iff hx0).mpr h0.symm,
        (readFq_eq_some_iff hy1).mpr h1'.symm, (readFq_eq_some_iff hy0).mpr h0'.symm]
      rfl
  · rw [readG2, if_neg hlen]
    refine iff_of_false (fun h => by cases h) fun h => hlen ?_
    rw [h, length_g2BytesFromArk]

end Enclave.Groth16

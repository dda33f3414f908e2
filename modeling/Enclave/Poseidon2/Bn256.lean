import Enclave.Frontier
import Enclave.ScalarField
import Enclave.Poseidon2.Constants
import Enclave.Poseidon2.Permutation

/-! # Poseidon2 over BN254

The library's three instances, and what the contracts hand to the host's
`poseidon2_permutation`.  A partial round reads one constant of its row (`permutation_congr`), so
that a row of the contracts' table that is one constant short changes nothing
(`permutation_compressParams`).

`bn256Poseidon2` is the permutation that the rest takes as a parameter: at each width the library's
(`permutation2_eq`, `permutation3_eq`, `permutation4_eq`).  The table of zero nodes is right for it
(`zeroTable_bn256Poseidon2`). -/

namespace Enclave.Zkhash

/-! ### Rows that are read -/

section rows

variable {F : Type} [CommRing F] {params params' : Poseidon2Params F}

theorem foldlM_congr {α β : Type} {f g : α → β → Option α} {l : List β}
    (h : ∀ b ∈ l, ∀ a, f a b = g a b) (a : α) : l.foldlM f a = l.foldlM g a := by
  induction l generalizing a with
  | nil => rfl
  | cons b l ih =>
      rw [List.foldlM_cons, List.foldlM_cons, h b List.mem_cons_self]
      exact congrArg (g a b >>= ·) (funext fun a => ih (fun b hb => h b (List.mem_cons_of_mem _ hb)) a)

theorem partialRound_congr (ht : params.t = params'.t) (hd : params.d = params'.d)
    (hdiag : params.matInternalDiagM1 = params'.matInternalDiagM1) {r : ℕ}
    (hrow : (params.roundConstants[r]?.bind fun row => row[0]?) =
      params'.roundConstants[r]?.bind fun row => row[0]?) (x : List F) :
    partialRound params x r = partialRound params' x r := by
  have hread : ∀ p : Poseidon2Params F, partialRound p x r =
      (p.roundConstants[r]?.bind fun row => row[0]?).bind fun c => (x.head?.bind fun a =>
        (sboxP p.d (a + c)).bind fun y =>
          matmulInternal p.t p.matInternalDiagM1 (y :: x.tail)) := by
    intro p
    rw [partialRound]
    cases p.roundConstants[r]? with
    | none => rfl
    | some row =>
        cases x with
        | nil => rfl
        | cons a x => rfl
  rw [hread, hread, ht, hd, hdiag, hrow]

theorem permutation_congr (ht : params.t = params'.t) (hd : params.d = params'.d)
    (hdiag : params.matInternalDiagM1 = params'.matInternalDiagM1)
    (hf : params.roundsFDiv2 = params'.roundsFDiv2) (hp : params.roundsP = params'.roundsP)
    (hrounds : params.rounds = params'.rounds)
    (hfull : ∀ r, r < params.roundsFDiv2 ∨ params.roundsFDiv2 + params.roundsP ≤ r →
      params.roundConstants[r]? = params'.roundConstants[r]?)
    (hmiddle : ∀ r, params.roundsFDiv2 ≤ r → r < params.roundsFDiv2 + params.roundsP →
      (params.roundConstants[r]?.bind fun row => row[0]?) =
        params'.roundConstants[r]?.bind fun row => row[0]?) :
    permutation params = permutation params' := by
  have hround : ∀ r, r < params.roundsFDiv2 ∨ params.roundsFDiv2 + params.roundsP ≤ r →
      ∀ x, fullRound params x r = fullRound params' x r := by
    intro r hr x
    rw [fullRound, fullRound, hfull r hr, hd, ht]
  funext x
  have hfirst := foldlM_congr (l := List.range params.roundsFDiv2) fun r hr =>
    hround r (Or.inl (List.mem_range.mp hr))
  have hmiddle := foldlM_congr (l := List.range' params.roundsFDiv2 params.roundsP)
    fun r hr => partialRound_congr ht hd hdiag
      (hmiddle r (List.mem_range'_1.mp hr).1 (List.mem_range'_1.mp hr).2)
  have hlast := foldlM_congr (l := List.range' (params.roundsFDiv2 + params.roundsP)
      (params.rounds - (params.roundsFDiv2 + params.roundsP))) fun r hr =>
    hround r (Or.inr (List.mem_range'_1.mp hr).1)
  simp only [permutation, hfirst, hmiddle, hlast]
  rw [ht, hf, hp, hrounds]

end rows

/-! ### The instances -/

/-- `from_hex` of every constant, with `d = 5` and 8 full and 56 partial rounds. -/
def bn256Params (t : ℕ) (diag : List ℕ) (rc : List (List ℕ)) : Poseidon2Params F where
  t := t
  d := 5
  roundsFDiv2 := 4
  roundsP := 56
  rounds := 64
  matInternalDiagM1 := diag.map Nat.cast
  roundConstants := rc.map fun row => row.map Nat.cast

theorem new_eq_bn256Params (t : ℕ) (diag : List ℕ) (rc : List (List ℕ)) :
    Poseidon2Params.new t 5 8 56 (diag.map (Nat.cast : ℕ → F))
      (rc.map fun row => row.map (Nat.cast : ℕ → F)) = some (bn256Params t diag rc) := rfl

/-- `POSEIDON2_BN256_PARAMS_2`. -/
def poseidon2Bn256Params2 : Poseidon2Params F := bn256Params 2 matDiag2M1 rc2

/-- `POSEIDON2_BN256_PARAMS_3`. -/
def poseidon2Bn256Params3 : Poseidon2Params F := bn256Params 3 matDiag3M1 rc3

/-- `POSEIDON2_BN256_PARAMS_4`. -/
def poseidon2Bn256Params4 : Poseidon2Params F := bn256Params 4 matDiag4M1 rc4

/-- What `poseidon2_compress` hands to the host. -/
def compressParams : Poseidon2Params F := bn256Params 2 [1, 2] getRoundConstantsT2

/-- What `poseidon2_hash2` hands to the host. -/
def hash2Params : Poseidon2Params F := bn256Params 3 [1, 1, 2] getRoundConstantsT3

/-- The tables, compared: the contracts' one for the width 2 has a row that is short, in a partial
round. -/
theorem tables : (∀ r < 64, (r < 4 ∨ 60 ≤ r → getRoundConstantsT2[r]? = rc2[r]?) ∧
      (getRoundConstantsT2[r]?.bind fun row => row[0]?) = rc2[r]?.bind fun row => row[0]?) ∧
    getRoundConstantsT2.length = 64 ∧ getRoundConstantsT3 = rc3 ∧
    ∀ p ∈ [(2, rc2), (3, rc3), (4, rc4)], p.2.length = 64 ∧ ∀ row ∈ p.2, p.1 ≤ row.length := by
  decide +kernel

/-- The short row changes nothing. -/
theorem permutation_compressParams :
    permutation compressParams = permutation poseidon2Bn256Params2 := by
  obtain ⟨hrows, hshort, -, hall⟩ := tables
  have hlen : getRoundConstantsT2.length = 64 ∧ rc2.length = 64 :=
    ⟨hshort, (hall _ List.mem_cons_self).1⟩
  have hhead : ∀ (rc : List (List ℕ)) (r : ℕ),
      (((bn256Params 2 [1, 2] rc).roundConstants[r]?).bind fun row => row[0]?) =
        (rc[r]?.bind fun row => row[0]?).map Nat.cast := by
    intro rc r
    simp only [bn256Params, List.getElem?_map]
    cases rc[r]? with
    | none => rfl
    | some row => exact List.getElem?_map
  refine permutation_congr rfl rfl rfl rfl rfl rfl (fun r hr => ?_) fun r hr hr' => ?_
  · by_cases hlt : r < 64
    · simp only [compressParams, poseidon2Bn256Params2, bn256Params, List.getElem?_map]
      rw [(hrows r hlt).1 hr]
    · simp only [compressParams, poseidon2Bn256Params2, bn256Params, List.getElem?_map]
      rw [List.getElem?_eq_none (by omega), List.getElem?_eq_none (by omega)]
  · have hlt : r < 64 := by
      have : r < 4 + 56 := hr'
      omega
    rw [compressParams, hhead, (hrows r hlt).2, ← hhead]
    rfl

theorem hash2Params_eq : hash2Params = poseidon2Bn256Params3 := by
  rw [hash2Params, tables.2.2.1]
  rfl

/-! ### The instances permute -/

section field

local instance : Fact bn256Modulus.Prime := ⟨prime_bn256Modulus⟩

theorem pow_five_injective : Function.Injective fun x : F => x ^ 5 :=
  pow_injective (d := 5) (k := 4)
    (e := 17510594297471420177797124596205820070838691520332827474958563349260646796493)
    prime_bn256Modulus (by decide)

theorem diagonal_matDiag4M1 : Diagonal 4 (matDiag4M1.map (Nat.cast : ℕ → F)) := by
  have hinv : ∀ i < 4, (matDiag4M1.map (Nat.cast : ℕ → F)).getD i 0 *
      ([10503307978722032543573858770574947361370925949551134938739460043484274085297,
        17915558130044465897319677871823371759055953799590209244827921585089065412625,
        6860613596825997654445474816140745877247157403640869166290763655149084892844,
        1360303037482974457629461991961993693912879890380628736159110085615008653536].map
          (Nat.cast : ℕ → F)).getD i 0 = 1 := by decide +kernel
  refine ⟨by decide, fun i hi h0 => ?_, ?_⟩
  · have hone := hinv i hi
    rw [h0, zero_mul] at hone
    exact zero_ne_one hone
  · rw [Finset.sum_congr rfl fun i hi =>
      (eq_inv_of_mul_eq_one_right (hinv i (Finset.mem_range.mp hi))).symm]
    decide +kernel

theorem wellFormed_bn256Params {t : ℕ} {diag : List ℕ} {rc : List (List ℕ)}
    (h : (t, rc) ∈ [(2, rc2), (3, rc3), (4, rc4)])
    (ht : t ∈ [2, 3, 4, 8, 12, 16, 20, 24]) (hdiag : 4 ≤ t → Diagonal t (diag.map (Nat.cast : ℕ → F))) :
    (bn256Params t diag rc).WellFormed where
  width := ht
  degree := Or.inr (Or.inl rfl)
  power := pow_five_injective
  rounds_le := show 4 + 56 ≤ 64 by decide
  rounds := by
    rw [bn256Params, List.length_map]
    exact (tables.2.2.2 _ h).1.ge
  rows row hrow := by
    obtain ⟨row, hmem, rfl⟩ := List.mem_map.mp hrow
    rw [List.length_map]
    exact (tables.2.2.2 _ h).2 row hmem
  char := by decide +kernel
  diagonal := hdiag

theorem wellFormed_poseidon2Bn256Params2 : poseidon2Bn256Params2.WellFormed :=
  wellFormed_bn256Params List.mem_cons_self (by simp) fun h => absurd h (by omega)

theorem wellFormed_poseidon2Bn256Params3 : poseidon2Bn256Params3.WellFormed :=
  wellFormed_bn256Params (List.mem_cons_of_mem _ List.mem_cons_self) (by simp)
    fun h => absurd h (by omega)

theorem wellFormed_poseidon2Bn256Params4 : poseidon2Bn256Params4.WellFormed :=
  wellFormed_bn256Params (List.mem_cons_of_mem _ (List.mem_cons_of_mem _ List.mem_cons_self))
    (by simp) fun _ => diagonal_matDiag4M1

/-- One list of width 4 is taken to zeros. -/
theorem permutation_bijective_zeros :
    ∃! x : List F, permutation poseidon2Bn256Params4 x = some [0, 0, 0, 0] :=
  (permutation_bijective wellFormed_poseidon2Bn256Params4).2 [0, 0, 0, 0] rfl

end field

/-! ### The permutation of the development -/

/-- The library's permutation at the three widths. -/
def bn256Poseidon2 : Poseidon2 where
  permutation2 a b :=
    let out := (permutation poseidon2Bn256Params2 [a, b]).getD []
    (out.getD 0 0, out.getD 1 0)
  permutation3 a b c :=
    let out := (permutation poseidon2Bn256Params3 [a, b, c]).getD []
    (out.getD 0 0, out.getD 1 0, out.getD 2 0)
  permutation4 a b c d :=
    let out := (permutation poseidon2Bn256Params4 [a, b, c, d]).getD []
    (out.getD 0 0, out.getD 1 0, out.getD 2 0, out.getD 3 0)

theorem permutation2_eq (a b : F) : permutation poseidon2Bn256Params2 [a, b] =
    some [(bn256Poseidon2.permutation2 a b).1, (bn256Poseidon2.permutation2 a b).2] := by
  have := Fact.mk prime_bn256Modulus
  obtain ⟨y, hy, hlen⟩ := (permutes_permutation wellFormed_poseidon2Bn256Params2).total [a, b] rfl
  obtain ⟨u, v, rfl⟩ := List.length_eq_two.mp hlen
  simp only [bn256Poseidon2, hy]
  rfl

theorem permutation3_eq (a b c : F) : permutation poseidon2Bn256Params3 [a, b, c] =
    some [(bn256Poseidon2.permutation3 a b c).1, (bn256Poseidon2.permutation3 a b c).2.1,
      (bn256Poseidon2.permutation3 a b c).2.2] := by
  have := Fact.mk prime_bn256Modulus
  obtain ⟨y, hy, hlen⟩ := (permutes_permutation wellFormed_poseidon2Bn256Params3).total [a, b, c] rfl
  obtain ⟨u, v, w, rfl⟩ := List.length_eq_three.mp hlen
  simp only [bn256Poseidon2, hy]
  rfl

theorem permutation4_eq (a b c d : F) : permutation poseidon2Bn256Params4 [a, b, c, d] =
    some [(bn256Poseidon2.permutation4 a b c d).1, (bn256Poseidon2.permutation4 a b c d).2.1,
      (bn256Poseidon2.permutation4 a b c d).2.2.1,
      (bn256Poseidon2.permutation4 a b c d).2.2.2] := by
  have := Fact.mk prime_bn256Modulus
  obtain ⟨y, hy, hlen⟩ := (permutes_permutation wellFormed_poseidon2Bn256Params4).total [a, b, c, d] rfl
  obtain ⟨u, v, w, x, rest, rfl, hrest⟩ := exists_block (n := 0) hlen
  obtain rfl := List.length_eq_zero_iff.mp hrest
  simp only [bn256Poseidon2, hy]
  rfl

/-- The table of zero nodes is that of the hash in use, up to the highest tree. -/
theorem zeroTable_bn256Poseidon2 : ZeroTable bn256Poseidon2 := by
  unfold ZeroTable Merkle.ZeroChain
  decide +kernel

/-- The zero leaf is the hash of the three letters of `XLM`. -/
theorem zeroAt_zero : zeroAt 0 = bn256Poseidon2.hash3 (88 : ℕ) (76 : ℕ) (77 : ℕ) 0 := by
  decide +kernel

end Enclave.Zkhash

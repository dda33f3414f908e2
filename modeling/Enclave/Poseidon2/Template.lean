import Enclave.Poseidon2.Bn256

/-! # The circuits' Poseidon2

The templates of `poseidon2_perm.circom` on arrays of the width `t`, with the constants as the
circuits keep them: the full and the partial rounds in tables of their own, one constant for a
partial round.  `permutations_agree`: at every width they compute what the library computes, and
what the contracts have the host compute.  The hashes of the three are therefore one
(`poseidonCompress_eq`, `poseidon2_two`, `poseidon2_three`). -/

namespace Enclave.Circuits

/-- `SBox`. -/
def sBox (inp : F) : F :=
  let x2 := inp * inp
  let x4 := x2 * x2
  inp * x4

/-- `MatMul_M4`. -/
def matMulM4 (inp : List F) : List F :=
  let t_0 := inp.getD 0 0 + inp.getD 1 0
  let t_1 := inp.getD 2 0 + inp.getD 3 0
  let t_2 := (2 : ℕ) * inp.getD 1 0 + t_1
  let t_3 := (2 : ℕ) * inp.getD 3 0 + t_0
  let t_4 := (4 : ℕ) * t_1 + t_3
  let t_5 := (4 : ℕ) * t_0 + t_2
  let t_6 := t_3 + t_5
  let t_7 := t_2 + t_4
  [t_6, t_5, t_7, t_4]

/-- `InternalRound(i, t)`. -/
def internalRound (i t : ℕ) (inp : List F) : List F :=
  let sb := sBox (inp.getD 0 0 + ((poseidonPartialRounds t).getD i 0 : ℕ))
  let total := sb + (inp.drop 1).sum
  List.zipWith (fun x m => total + x * (m : ℕ)) (sb :: inp.drop 1) (poseidonInternalMatDiag t)

/-- `ExternalRound(i, t)`. -/
def externalRound (i t : ℕ) (inp : List F) : List F :=
  let sbExt := List.zipWith (fun x (c : ℕ) => sBox (x + c)) inp ((poseidonFullRounds t).getD i [])
  if t = 4 then matMulM4 sbExt
  else
    let totalExternal := sbExt.sum
    sbExt.map (totalExternal + ·)

/-- `LinearLayer(t)`. -/
def linearLayer (t : ℕ) (inp : List F) : List F :=
  let total := inp.sum
  if t = 4 then matMulM4 inp else inp.map (total + ·)

/-- `Permutation(t)`. -/
def permutation (t : ℕ) (inputs : List F) : List F :=
  let aux := linearLayer t inputs
  let aux := (List.range 4).foldl (fun aux k => externalRound k t aux) aux
  let aux := (List.range 56).foldl (fun aux k => internalRound k t aux) aux
  (List.range 4).foldl (fun aux k => externalRound (k + 4) t aux) aux

/-- `PoseidonCompress`. -/
def poseidonCompress (inputs : List F) : F :=
  let compression := List.zipWith (· + ·) (permutation 2 inputs) inputs
  compression.getD 0 0

/-- `Poseidon2(n)`. -/
def poseidon2 (n : ℕ) (inputs : List F) (domainSeparation : F) : F :=
  (permutation (n + 1) (inputs ++ [domainSeparation])).getD 0 0

/-! ### The layers are the library's -/

/-- The parameters of a width in the library. -/
def libraryParams : ℕ → Zkhash.Poseidon2Params F
  | 2 => Zkhash.poseidon2Bn256Params2
  | 3 => Zkhash.poseidon2Bn256Params3
  | _ => Zkhash.poseidon2Bn256Params4

theorem width_cases {t : ℕ} (ht : t ∈ [2, 3, 4]) {x : List F} (hx : x.length = t) :
    (∃ a b, t = 2 ∧ x = [a, b]) ∨ (∃ a b c, t = 3 ∧ x = [a, b, c]) ∨
      ∃ a b c d, t = 4 ∧ x = [a, b, c, d] := by
  simp only [List.mem_cons, List.not_mem_nil, or_false] at ht
  rcases ht with rfl | rfl | rfl
  · obtain ⟨a, b, rfl⟩ := List.length_eq_two.mp hx
    exact Or.inl ⟨a, b, rfl, rfl⟩
  · obtain ⟨a, b, c, rfl⟩ := List.length_eq_three.mp hx
    exact Or.inr (Or.inl ⟨a, b, c, rfl, rfl⟩)
  · obtain ⟨a, b, c, d, rest, rfl, hrest⟩ := Zkhash.exists_block (n := 0) hx
    obtain rfl := List.length_eq_zero_iff.mp hrest
    exact Or.inr (Or.inr ⟨a, b, c, d, rfl, rfl⟩)

theorem sboxP_five (x : F) : Zkhash.sboxP 5 x = some (sBox x) :=
  congrArg some (mul_comm _ x)

theorem matMulM4_eq (a b c d : F) : matMulM4 [a, b, c, d] = Zkhash.m4Block a b c d := by
  simp only [matMulM4, Zkhash.m4Block, List.getD_cons_zero, List.getD_cons_succ, List.cons.injEq,
    and_true, Nat.cast_ofNat]
  refine ⟨?_, ?_, ?_, ?_⟩ <;> ring

theorem matmulExternal_eq {t : ℕ} (ht : t ∈ [2, 3, 4]) {x : List F} (hx : x.length = t) :
    Zkhash.matmulExternal t x = some (linearLayer t x) := by
  obtain ⟨a, b, rfl, rfl⟩ | ⟨a, b, c, rfl, rfl⟩ | ⟨a, b, c, d, rfl, rfl⟩ := width_cases ht hx
  · refine congrArg some ?_
    simp only [linearLayer, List.sum_cons, List.sum_nil, List.map_cons, List.map_nil,
      List.cons_append, List.nil_append]
    rw [if_neg (by decide)]
    simp only [List.cons.injEq, and_true]
    constructor <;> ring
  · refine congrArg some ?_
    simp only [linearLayer, List.sum_cons, List.sum_nil, List.map_cons, List.map_nil,
      List.cons_append, List.nil_append]
    rw [if_neg (by decide)]
    simp only [List.cons.injEq, and_true]
    refine ⟨?_, ?_, ?_⟩ <;> ring
  · exact congrArg some (matMulM4_eq a b c d).symm

theorem length_linearLayer {t : ℕ} {x : List F} (hx : x.length = t) :
    (linearLayer t x).length = t := by
  rw [linearLayer]
  split_ifs with h
  · exact h.symm
  · rw [List.length_map, hx]

theorem mapIdx_eq_zipWith {diag : List ℕ} {x : List F} (h : x.length ≤ diag.length) (sum : F) :
    (x.mapIdx fun i a => a * (diag.map Nat.cast).getD i 0 + sum) =
      List.zipWith (fun y m => sum + y * (m : ℕ)) x diag := by
  refine List.ext_getElem ?_ fun i hi hi' => ?_
  · rw [List.length_mapIdx, List.length_zipWith, Nat.min_eq_left h]
  · rw [List.length_mapIdx] at hi
    have hlt : i < (diag.map (Nat.cast : ℕ → F)).length := by
      rw [List.length_map]
      omega
    rw [List.getElem_mapIdx, List.getElem_zipWith, List.getD_eq_getElem _ _ hlt, List.getElem_map,
      add_comm]

theorem matmulInternal_eq {t : ℕ} (ht : t ∈ [2, 3, 4]) {x : List F} (hx : x.length = t) :
    Zkhash.matmulInternal t ((poseidonInternalMatDiag t).map Nat.cast) x =
      some (List.zipWith (fun y m => x.sum + y * (m : ℕ)) x (poseidonInternalMatDiag t)) := by
  obtain ⟨a, b, rfl, rfl⟩ | ⟨a, b, c, rfl, rfl⟩ | ⟨a, b, c, d, rfl, rfl⟩ := width_cases ht hx
  · refine congrArg some ?_
    simp only [poseidonInternalMatDiag, List.sum_cons, List.sum_nil, List.zipWith_cons_cons,
      List.zipWith_nil_left, List.cons_append, List.nil_append, List.cons.injEq, and_true]
    push_cast
    constructor <;> ring
  · refine congrArg some ?_
    simp only [poseidonInternalMatDiag, List.sum_cons, List.sum_nil, List.zipWith_cons_cons,
      List.zipWith_nil_left, List.cons_append, List.nil_append, List.cons.injEq, and_true]
    push_cast
    refine ⟨?_, ?_, ?_⟩ <;> ring
  · have hread : ∀ diag : List F, Zkhash.matmulInternal 4 diag [a, b, c, d] =
        Zkhash.addDiagonal diag [a, b, c, d].sum [a, b, c, d] := fun _ => rfl
    rw [hread, Zkhash.addDiagonal_eq (t := 4) (by decide) rfl]
    have hle : [a, b, c, d].length ≤ (poseidonInternalMatDiag 4).length := Nat.le_refl 4
    exact congrArg some (mapIdx_eq_zipWith hle _)

/-! ### The rounds -/

/-- The tables of a width against the library's one. -/
structure RowsAgree (t : ℕ) (rc : List (List ℕ)) : Prop where
  full_length : (poseidonFullRounds t).length = 8
  row_length : ∀ row ∈ poseidonFullRounds t, row.length = t
  partial_length : (poseidonPartialRounds t).length = 56
  diag_length : (poseidonInternalMatDiag t).length = t
  first : ∀ k < 4, rc[k]? = (poseidonFullRounds t)[k]?
  last : ∀ k < 4, rc[60 + k]? = (poseidonFullRounds t)[k + 4]?
  inner : ∀ k < 56, (rc[4 + k]?.bind fun row => row[0]?) = (poseidonPartialRounds t)[k]?

theorem rowsAgree_of_mem {p : ℕ × List (List ℕ)}
    (h : p ∈ [(2, Zkhash.rc2), (3, Zkhash.rc3), (4, Zkhash.rc4)]) : RowsAgree p.1 p.2 := by
  have hall : ∀ p ∈ [(2, Zkhash.rc2), (3, Zkhash.rc3), (4, Zkhash.rc4)],
      (poseidonFullRounds p.1).length = 8 ∧ (∀ row ∈ poseidonFullRounds p.1, row.length = p.1) ∧
      (poseidonPartialRounds p.1).length = 56 ∧ (poseidonInternalMatDiag p.1).length = p.1 ∧
      (∀ k < 4, p.2[k]? = (poseidonFullRounds p.1)[k]?) ∧
      (∀ k < 4, p.2[60 + k]? = (poseidonFullRounds p.1)[k + 4]?) ∧
      ∀ k < 56, (p.2[4 + k]?.bind fun row => row[0]?) = (poseidonPartialRounds p.1)[k]? := by
    decide +kernel
  obtain ⟨hfull, hrow, hmiddle, hdiag, hfirst, hlast, hinner⟩ := hall p h
  exact ⟨hfull, hrow, hmiddle, hdiag, hfirst, hlast, hinner⟩

theorem rowsAgree_two : RowsAgree 2 Zkhash.rc2 := rowsAgree_of_mem List.mem_cons_self

theorem rowsAgree_three : RowsAgree 3 Zkhash.rc3 :=
  rowsAgree_of_mem (List.mem_cons_of_mem _ List.mem_cons_self)

theorem rowsAgree_four : RowsAgree 4 Zkhash.rc4 :=
  rowsAgree_of_mem (List.mem_cons_of_mem _ (List.mem_cons_of_mem _ List.mem_cons_self))

theorem libraryParams_eq {t : ℕ} (ht : t ∈ [2, 3, 4]) : ∃ rc, RowsAgree t rc ∧
    libraryParams t = Zkhash.bn256Params t (poseidonInternalMatDiag t) rc := by
  simp only [List.mem_cons, List.not_mem_nil, or_false] at ht
  rcases ht with rfl | rfl | rfl
  · exact ⟨_, rowsAgree_two, rfl⟩
  · exact ⟨_, rowsAgree_three, rfl⟩
  · exact ⟨_, rowsAgree_four, rfl⟩

section rounds

variable {t : ℕ} {rc : List (List ℕ)} {x : List F}

theorem fullRound_eq (ht : t ∈ [2, 3, 4]) (hrows : RowsAgree t rc) {r k : ℕ} (hk : k < 8)
    (hrow : rc[r]? = (poseidonFullRounds t)[k]?) (hx : x.length = t) (diag : List ℕ) :
    Zkhash.fullRound (Zkhash.bn256Params t diag rc) x r = some (externalRound k t x) ∧
      (externalRound k t x).length = t := by
  have hlt : k < (poseidonFullRounds t).length := by rw [hrows.full_length]; exact hk
  have hget := List.getElem?_eq_getElem hlt
  have hlen := hrows.row_length _ (List.getElem_mem hlt)
  have hboxes : List.zipWith (fun y (c : ℕ) => sBox (y + c)) x (poseidonFullRounds t)[k] =
      (Zkhash.addRc x ((poseidonFullRounds t)[k].map Nat.cast)).map sBox := by
    rw [Zkhash.addRc, List.map_zipWith, List.zipWith_map_right]
  have hround : externalRound k t x = linearLayer t
      ((Zkhash.addRc x ((poseidonFullRounds t)[k].map Nat.cast)).map sBox) := by
    rw [externalRound, List.getD_eq_getElem _ _ hlt, hboxes]
    rfl
  have hlenBox : ((Zkhash.addRc x ((poseidonFullRounds t)[k].map Nat.cast)).map sBox).length =
      t := by
    rw [List.length_map, Zkhash.addRc, List.length_zipWith, List.length_map, hx, hlen, Nat.min_self]
  refine ⟨?_, by rw [hround]; exact length_linearLayer hlenBox⟩
  have hrc : (Zkhash.bn256Params t diag rc : Zkhash.Poseidon2Params F).roundConstants[r]? =
      some ((poseidonFullRounds t)[k].map Nat.cast) := by
    rw [Zkhash.bn256Params, List.getElem?_map, hrow, hget]
    rfl
  have hbox := Zkhash.mapM_eq_some (l := Zkhash.addRc x ((poseidonFullRounds t)[k].map Nat.cast))
    fun y _ => sboxP_five y
  rw [Zkhash.fullRound, hrc, hround, ← matmulExternal_eq ht hlenBox]
  exact congrArg (· >>= Zkhash.matmulExternal t) hbox

theorem partialRound_eq (ht : t ∈ [2, 3, 4]) (hrows : RowsAgree t rc) {k : ℕ} (hk : k < 56)
    (hx : x.length = t) :
    Zkhash.partialRound (Zkhash.bn256Params t (poseidonInternalMatDiag t) rc) x (4 + k) =
        some (internalRound k t x) ∧ (internalRound k t x).length = t := by
  have hlt : k < (poseidonPartialRounds t).length := by rw [hrows.partial_length]; exact hk
  have hinner := hrows.inner k hk
  rw [List.getElem?_eq_getElem hlt, Option.bind_eq_some_iff] at hinner
  obtain ⟨row, hrow, hconst⟩ := hinner
  have hpos : t ≠ 0 := by
    rintro rfl
    exact absurd ht (by decide)
  obtain ⟨a, rest, rfl⟩ := List.exists_of_length_succ (n := t - 1) x (by omega)
  have hround : internalRound k t (a :: rest) = List.zipWith
      (fun y m => (sBox (a + ((poseidonPartialRounds t)[k] : ℕ)) :: rest).sum + y * (m : ℕ))
      (sBox (a + ((poseidonPartialRounds t)[k] : ℕ)) :: rest) (poseidonInternalMatDiag t) := by
    rw [internalRound, List.getD_cons_zero, List.getD_eq_getElem _ _ hlt, List.sum_cons]
    rfl
  have hlen : (sBox (a + ((poseidonPartialRounds t)[k] : ℕ)) :: rest).length = t := hx
  refine ⟨?_, by rw [hround, List.length_zipWith, hlen, hrows.diag_length, Nat.min_self]⟩
  rw [hround, ← matmulInternal_eq ht hlen]
  have hrc : (Zkhash.bn256Params t (poseidonInternalMatDiag t) rc :
      Zkhash.Poseidon2Params F).roundConstants[4 + k]? = some (row.map Nat.cast) := by
    rw [Zkhash.bn256Params, List.getElem?_map, hrow]
    rfl
  have hhead : (row.map (Nat.cast : ℕ → F))[0]? = some (((poseidonPartialRounds t)[k] : ℕ) : F) := by
    rw [List.getElem?_map, hconst]
    rfl
  rw [Zkhash.partialRound, hrc]
  simp only [Option.bind_eq_bind, Option.bind_some, hhead]
  exact congrArg (fun y : Option F => y.bind fun y => Zkhash.matmulInternal t
    ((poseidonInternalMatDiag t).map Nat.cast) (y :: rest)) (sboxP_five _)

end rounds

/-! ### The permutation is the library's -/

theorem foldlM_eq_some {α β : Type} {f : α → β → Option α} {g : α → β → α} (p : α → Prop)
    {l : List β} (h : ∀ b ∈ l, ∀ a, p a → f a b = some (g a b) ∧ p (g a b)) {a : α} (ha : p a) :
    l.foldlM f a = some (l.foldl g a) ∧ p (l.foldl g a) := by
  induction l generalizing a with
  | nil => exact ⟨rfl, ha⟩
  | cons b l ih =>
      obtain ⟨hb, hl⟩ := List.forall_mem_cons.mp h
      obtain ⟨hf, hp⟩ := hb a ha
      rw [List.foldlM_cons, hf, List.foldl_cons]
      exact ih hl hp

theorem permutation_eq {t : ℕ} (ht : t ∈ [2, 3, 4]) {rc : List (List ℕ)} (hrows : RowsAgree t rc)
    {x : List F} (hx : x.length = t) :
    Zkhash.permutation (Zkhash.bn256Params t (poseidonInternalMatDiag t) rc) x =
      some (permutation t x) := by
  have hshift : ∀ s n : ℕ, List.range' s n = (List.range n).map (s + ·) := fun s n =>
    List.range'_eq_map_range
  have hlt : ∀ {k : ℕ}, k ∈ List.range 4 → k < 4 := List.mem_range.mp
  obtain ⟨hfirst, hlen⟩ := foldlM_eq_some (g := fun y k => externalRound k t y)
    (fun y => y.length = t) (fun k hk y hy => fullRound_eq ht hrows (k := k)
      (by have := hlt hk; omega) (hrows.first k (hlt hk)) hy (poseidonInternalMatDiag t))
    (length_linearLayer hx)
  obtain ⟨hinner, hlen⟩ := foldlM_eq_some (g := fun y k => internalRound k t y)
    (fun y => y.length = t)
    (fun k hk y hy => partialRound_eq ht hrows (List.mem_range.mp hk) hy) hlen
  obtain ⟨hlast, -⟩ := foldlM_eq_some (g := fun y k => externalRound (k + 4) t y)
    (fun y => y.length = t) (fun k hk y hy => fullRound_eq ht hrows (r := 60 + k) (k := k + 4)
      (by have := hlt hk; omega) (hrows.last k (hlt hk)) hy (poseidonInternalMatDiag t)) hlen
  have hguard : (guard (x.length = t) : Option Unit) = some () := if_pos hx
  rw [Zkhash.permutation]
  change (guard (x.length = t) >>= fun _ => Zkhash.matmulExternal t x >>= fun y =>
    (List.range 4).foldlM _ y >>= fun y => (List.range' 4 56).foldlM _ y >>= fun y =>
      (List.range' 60 4).foldlM _ y) = _
  rw [hguard, matmulExternal_eq ht hx, hshift, hshift]
  simp only [Option.bind_eq_bind, Option.bind_some, List.foldlM_map]
  rw [hfirst, Option.bind_some, hinner, Option.bind_some, hlast]
  rfl

theorem library_eq {t : ℕ} (ht : t ∈ [2, 3, 4]) {x : List F} (hx : x.length = t) :
    Zkhash.permutation (libraryParams t) x = some (permutation t x) := by
  obtain ⟨rc, hrows, hlibrary⟩ := libraryParams_eq ht
  rw [hlibrary, permutation_eq ht hrows hx]

/-- The parameters that the contracts hand to the host, at the widths they use. -/
def contractParams : ℕ → Option (Zkhash.Poseidon2Params F)
  | 2 => some Zkhash.compressParams
  | 3 => some Zkhash.hash2Params
  | _ => none

/-- **The circuits, the library and the contracts permute alike**, at every width in use. -/
theorem permutations_agree {t : ℕ} (ht : t ∈ [2, 3, 4]) {x : List F} (hx : x.length = t) :
    Zkhash.permutation (libraryParams t) x = some (permutation t x) ∧
      ∀ params ∈ contractParams t, Zkhash.permutation params x = some (permutation t x) := by
  refine ⟨library_eq ht hx, fun params hparams => ?_⟩
  rw [← library_eq ht hx]
  simp only [List.mem_cons, List.not_mem_nil, or_false] at ht
  rcases ht with rfl | rfl | rfl
  · obtain rfl := Option.some.inj hparams
    rw [Zkhash.permutation_compressParams]
    rfl
  · obtain rfl := Option.some.inj hparams
    rw [Zkhash.hash2Params_eq]
    rfl
  · exact absurd hparams (Option.not_mem_none _)

/-- The three at width 3 on 0, 1, 2. -/
theorem permutations_agree_sample :
    let digest : Option (List F) := some
      [0x0bb61d24daca55eebcb1929a82650f328134334da98ea4f847f760054f4a3033,
       0x303b6f7c86d043bfcbcc80214f26a30277a15d3f74ca654992defe7ff8d03570,
       0x1ed25194542b12eef8617361c3ba7c52e660b145994427cc86296242cf766ec8]
    Zkhash.permutation Zkhash.poseidon2Bn256Params3 [0, 1, 2] = digest ∧
      Zkhash.permutation Zkhash.hash2Params [0, 1, 2] = digest := by
  intro digest
  have hdigest : some (permutation 3 [0, 1, 2]) = digest := by decide +kernel
  have hagree := permutations_agree (t := 3) (by decide) (x := [0, 1, 2]) rfl
  exact ⟨hagree.1.trans hdigest, (hagree.2 _ rfl).trans hdigest⟩

/-! ### The hashes -/

theorem poseidonCompress_eq (a b : F) :
    poseidonCompress [a, b] = Zkhash.bn256Poseidon2.compress a b := by
  have hperm := (library_eq (t := 2) (by decide) rfl).symm.trans (Zkhash.permutation2_eq a b)
  rw [poseidonCompress, Option.some.inj hperm]
  rfl

theorem poseidon2_two (a b sep : F) :
    poseidon2 2 [a, b] sep = Zkhash.bn256Poseidon2.hash2 a b sep := by
  have hperm := (library_eq (t := 3) (by decide) rfl).symm.trans (Zkhash.permutation3_eq a b sep)
  have hread : poseidon2 2 [a, b] sep = (permutation 3 [a, b, sep]).getD 0 0 := rfl
  rw [hread, Option.some.inj hperm]
  rfl

theorem poseidon2_three (a b c sep : F) :
    poseidon2 3 [a, b, c] sep = Zkhash.bn256Poseidon2.hash3 a b c sep := by
  have hperm := (library_eq (t := 4) (by decide) rfl).symm.trans (Zkhash.permutation4_eq a b c sep)
  have hread : poseidon2 3 [a, b, c] sep = (permutation 4 [a, b, c, sep]).getD 0 0 := rfl
  rw [hread, Option.some.inj hperm]
  rfl

end Enclave.Circuits

import Enclave.Lib.Permutes

/-! # The Poseidon2 permutation

`poseidon2/src/poseidon2/poseidon2.rs` and `poseidon2_params.rs`: full rounds, partial rounds, full
rounds, over any field and at every width the code has.  A panic (a width, a degree or an index
that the code does not have) is `none`.

`permutes_permutation`, `permutation_bijective`: with parameters that are well formed it is a
permutation of the lists of its width. -/

namespace Enclave.Zkhash

/-- `Poseidon2Params`. -/
structure Poseidon2Params (F : Type) where
  /-- statesize -/
  t : ℕ
  /-- sbox degree -/
  d : ℕ
  /-- Full rounds divided by 2 -/
  roundsFDiv2 : ℕ
  roundsP : ℕ
  rounds : ℕ
  matInternalDiagM1 : List F
  roundConstants : List (List F)

/-- `Poseidon2Params::new`. -/
def Poseidon2Params.new {F : Type} (t d roundsF roundsP : ℕ) (matInternalDiagM1 : List F)
    (roundConstants : List (List F)) : Option (Poseidon2Params F) :=
  if (d = 3 ∨ d = 5 ∨ d = 7 ∨ d = 11) ∧ roundsF % 2 = 0 then
    some {
      t, d, roundsP, matInternalDiagM1, roundConstants
      roundsFDiv2 := roundsF / 2
      rounds := roundsF + roundsP }
  else none

section layers

variable {F : Type} [CommRing F]

/-- `sbox_p`. -/
def sboxP (d : ℕ) (input : F) : Option F :=
  let input2 := input * input
  match d with
  | 3 => some (input2 * input)
  | 5 => some (input2 * input2 * input)
  | 7 => some (input2 * input2 * input2 * input)
  | _ => none

/-- `sbox`. -/
def sbox (d : ℕ) (input : List F) : Option (List F) := input.mapM (sboxP d)

/-- The body of `matmul_m4`. -/
def m4Block (x0 x1 x2 x3 : F) : List F :=
  let t_0 := x0 + x1
  let t_1 := x2 + x3
  let t_2 := x1 + x1 + t_1
  let t_3 := x3 + x3 + t_0
  let t_4 := t_1 + t_1 + (t_1 + t_1) + t_3
  let t_5 := t_0 + t_0 + (t_0 + t_0) + t_2
  let t_6 := t_3 + t_5
  let t_7 := t_2 + t_4
  [t_6, t_5, t_7, t_4]

/-- `matmul_m4` on the first `t4` blocks of four. -/
def matmulM4 : ℕ → List F → Option (List F)
  | 0, input => some input
  | t4 + 1, x0 :: x1 :: x2 :: x3 :: rest => do return m4Block x0 x1 x2 x3 ++ (← matmulM4 t4 rest)
  | _ + 1, _ => none

/-- `stored`: the sums of the blocks' elements at a place. -/
def storedAt (t4 l : ℕ) (input : List F) : Option F := do
  return (← (List.range t4).mapM fun j => input[4 * j + l]?).sum

/-- The second cheap matrix of `matmul_external`: the sums are added. -/
def addStored (t4 : ℕ) (input : List F) : Option (List F) := do
  let stored ← (List.range 4).mapM fun l => storedAt t4 l input
  return input.mapIdx fun i x => x + stored.getD (i % 4) 0

/-- `matmul_external`. -/
def matmulExternal (t : ℕ) (input : List F) : Option (List F) :=
  match t with
  | 2 =>
      match input with
      | x0 :: x1 :: rest =>
          let sum := x0 + x1
          some ([x0 + sum, x1 + sum] ++ rest)
      | _ => none
  | 3 =>
      match input with
      | x0 :: x1 :: x2 :: rest =>
          let sum := x0 + x1 + x2
          some ([x0 + sum, x1 + sum, x2 + sum] ++ rest)
      | _ => none
  | 4 => matmulM4 (t / 4) input
  | 8 | 12 | 16 | 20 | 24 => do addStored (t / 4) (← matmulM4 (t / 4) input)
  | _ => none

/-- The elements times the diagonal, and the sum added. -/
def addDiagonal (matInternalDiagM1 : List F) (sum : F) (input : List F) : Option (List F) :=
  input.zipIdx.mapM fun (x, i) => do return x * (← matInternalDiagM1[i]?) + sum

/-- `matmul_internal`. -/
def matmulInternal (t : ℕ) (matInternalDiagM1 input : List F) : Option (List F) :=
  match t with
  | 2 =>
      match input with
      | x0 :: x1 :: rest =>
          let sum := x0 + x1
          some ([x0 + sum, x1 + x1 + sum] ++ rest)
      | _ => none
  | 3 =>
      match input with
      | x0 :: x1 :: x2 :: rest =>
          let sum := x0 + x1 + x2
          some ([x0 + sum, x1 + sum, x2 + x2 + sum] ++ rest)
      | _ => none
  | 4 | 8 | 12 | 16 | 20 | 24 => do
      let sum := (← input[0]?) + ((input.drop 1).take (t - 1)).sum
      addDiagonal matInternalDiagM1 sum input
  | _ => none

/-- `add_rc`. -/
def addRc (input rc : List F) : List F := List.zipWith (· + ·) input rc

end layers

variable {F : Type} [CommRing F] (params : Poseidon2Params F)

/-- The body of the loops over the full rounds. -/
def fullRound (currentState : List F) (r : ℕ) : Option (List F) := do
  let currentState ← sbox params.d (addRc currentState (← params.roundConstants[r]?))
  matmulExternal params.t currentState

/-- The body of the loop over the partial rounds. -/
def partialRound (currentState : List F) (r : ℕ) : Option (List F) := do
  let c ← (← params.roundConstants[r]?)[0]?
  match currentState with
  | x :: rest =>
      matmulInternal params.t params.matInternalDiagM1 ((← sboxP params.d (x + c)) :: rest)
  | [] => none

/-- `permutation`. -/
def permutation (input : List F) : Option (List F) := do
  guard (input.length = params.t)
  let currentState ← matmulExternal params.t input
  let currentState ← (List.range params.roundsFDiv2).foldlM (fullRound params) currentState
  let pEnd := params.roundsFDiv2 + params.roundsP
  let currentState ← (List.range' params.roundsFDiv2 params.roundsP).foldlM (partialRound params)
    currentState
  (List.range' pEnd (params.rounds - pEnd)).foldlM (fullRound params) currentState

/-! ### Layers that permute -/

theorem mapM_eq_some {α β : Type} {f : α → Option β} {g : α → β} :
    ∀ {l : List α}, (∀ a ∈ l, f a = some (g a)) → l.mapM f = some (l.map g)
  | [], _ => rfl
  | a :: l, h => by
      obtain ⟨ha, hl⟩ := List.forall_mem_cons.mp h
      rw [List.mapM_cons, ha, mapM_eq_some hl]
      rfl

theorem sboxP_eq {d : ℕ} (hd : d = 3 ∨ d = 5 ∨ d = 7) (x : F) : sboxP d x = some (x ^ d) := by
  rcases hd with rfl | rfl | rfl
  · exact congrArg some (by ring)
  · exact congrArg some (by ring)
  · exact congrArg some (by ring)

theorem permutes_sbox {t d : ℕ} (hd : d = 3 ∨ d = 5 ∨ d = 7)
    (hpow : Function.Injective fun x : F => x ^ d) : Permutes t (sbox d : List F → _) :=
  (Permutes.map hpow).congr fun _ _ => (mapM_eq_some fun _ _ => sboxP_eq hd _).symm

/-! ### Linear layers -/

theorem addDiagonal_eq {t : ℕ} {diag x : List F} (hdiag : t ≤ diag.length) (hx : x.length = t)
    (sum : F) : addDiagonal diag sum x = some (x.mapIdx fun i a => a * diag.getD i 0 + sum) := by
  have hget : ∀ p ∈ x.zipIdx, (do return p.1 * (← diag[p.2]?) + sum : Option F) =
      some (p.1 * diag.getD p.2 0 + sum) := by
    intro p hp
    have hlt : p.2 < diag.length := by
      have := List.snd_lt_of_mem_zipIdx hp
      omega
    rw [List.getD_eq_getElem _ _ hlt, List.getElem?_eq_getElem hlt]
    rfl
  rw [addDiagonal, List.mapIdx_eq_zipIdx_map]
  exact mapM_eq_some hget

theorem exists_block {α : Type} {n : ℕ} {x : List α} (hx : x.length = 4 * (n + 1)) :
    ∃ x0 x1 x2 x3 rest, x = x0 :: x1 :: x2 :: x3 :: rest ∧ rest.length = 4 * n := by
  obtain ⟨x0, x, rfl⟩ := List.exists_of_length_succ (n := 4 * n + 3) x (by omega)
  rw [List.length_cons] at hx
  obtain ⟨x1, x, rfl⟩ := List.exists_of_length_succ (n := 4 * n + 2) x (by omega)
  rw [List.length_cons] at hx
  obtain ⟨x2, x, rfl⟩ := List.exists_of_length_succ (n := 4 * n + 1) x (by omega)
  rw [List.length_cons] at hx
  obtain ⟨x3, x, rfl⟩ := List.exists_of_length_succ (n := 4 * n) x (by omega)
  rw [List.length_cons] at hx
  exact ⟨x0, x1, x2, x3, x, rfl, by omega⟩

section linear

variable {F : Type} [Field F]

/-- The block is undone: from the outputs back to `t_3` and `t_2`, then `t_1` and `t_0`, then the
inputs. -/
theorem m4Block_inj (h2 : (2 : F) ≠ 0) {x0 x1 x2 x3 y0 y1 y2 y3 : F}
    (h : m4Block x0 x1 x2 x3 = m4Block y0 y1 y2 y3) : x0 = y0 ∧ x1 = y1 ∧ x2 = y2 ∧ x3 = y3 := by
  have htwo : ∀ {a b : F}, 2 * a = 2 * b → a = b := fun h => mul_left_cancel₀ h2 h
  simp only [m4Block, List.cons.injEq, and_true] at h
  obtain ⟨h6, h5, h7, h4⟩ := h
  have ht3 : x3 + x3 + (x0 + x1) = y3 + y3 + (y0 + y1) := by linear_combination h6 - h5
  have ht2 : x1 + x1 + (x2 + x3) = y1 + y1 + (y2 + y3) := by linear_combination h7 - h4
  have ht1 : x2 + x3 = y2 + y3 := htwo (htwo (by linear_combination h4 - ht3))
  have ht0 : x0 + x1 = y0 + y1 := htwo (htwo (by linear_combination h5 - ht2))
  have h1 : x1 = y1 := htwo (by linear_combination ht2 - ht1)
  have h3 : x3 = y3 := htwo (by linear_combination ht3 - ht0)
  exact ⟨by linear_combination ht0 - h1, h1, by linear_combination ht1 - h3, h3⟩

theorem matmulM4_block (t4 : ℕ) (x0 x1 x2 x3 : F) (rest : List F) :
    matmulM4 (t4 + 1) (x0 :: x1 :: x2 :: x3 :: rest) =
      (matmulM4 t4 rest).map (m4Block x0 x1 x2 x3 ++ ·) := by
  rw [matmulM4]
  cases matmulM4 t4 rest <;> rfl

theorem permutes_matmulM4 (h2 : (2 : F) ≠ 0) : ∀ t4 : ℕ, Permutes (4 * t4) (matmulM4 t4 : List F → _)
  | 0 => Permutes.some
  | t4 + 1 => by
      have ih := permutes_matmulM4 h2 t4
      constructor
      · intro x hx
        obtain ⟨x0, x1, x2, x3, rest, rfl, hrest⟩ := exists_block hx
        obtain ⟨y, hy, hlen⟩ := ih.total rest hrest
        refine ⟨m4Block x0 x1 x2 x3 ++ y, by rw [matmulM4_block, hy]; rfl, ?_⟩
        rw [List.length_append, hlen, m4Block]
        simp only [List.length_cons, List.length_nil]
        omega
      · intro x x' hx hx' h
        obtain ⟨x0, x1, x2, x3, rest, rfl, hrest⟩ := exists_block hx
        obtain ⟨y0, y1, y2, y3, rest', rfl, hrest'⟩ := exists_block hx'
        obtain ⟨y, hy, -⟩ := ih.total rest hrest
        obtain ⟨y', hy', -⟩ := ih.total rest' hrest'
        rw [matmulM4_block, matmulM4_block, hy, hy'] at h
        obtain ⟨hblock, rfl⟩ := List.append_inj (Option.some.inj h) rfl
        obtain ⟨rfl, rfl, rfl, rfl⟩ := m4Block_inj h2 hblock
        rw [ih.injective rest rest' hrest hrest' (hy.trans hy'.symm)]

/-- The sum of the blocks' elements at a place. -/
def columnSum (t4 l : ℕ) (input : List F) : F := ∑ j ∈ Finset.range t4, input.getD (4 * j + l) 0

theorem storedAt_eq {t4 l : ℕ} {input : List F} (hlen : input.length = 4 * t4) (hl : l < 4) :
    storedAt t4 l input = some (columnSum t4 l input) := by
  have hget : ∀ j ∈ List.range t4, input[4 * j + l]? = some (input.getD (4 * j + l) 0) := by
    intro j hj
    have hlt := List.mem_range.mp hj
    rw [List.getD_eq_getElem _ _ (by omega), List.getElem?_eq_getElem (by omega)]
  rw [storedAt, mapM_eq_some hget]
  rfl

theorem addStored_eq {t4 : ℕ} {input : List F} (hlen : input.length = 4 * t4) :
    addStored t4 input = some (input.mapIdx fun i x => x + columnSum t4 (i % 4) input) := by
  have hstored : (List.range 4).mapM (fun l => storedAt t4 l input) =
      some ((List.range 4).map fun l => columnSum t4 l input) :=
    mapM_eq_some fun l hl => storedAt_eq hlen (List.mem_range.mp hl)
  rw [addStored, hstored]
  refine congrArg some (congrArg (fun f => input.mapIdx f) (funext fun i => funext fun x => ?_))
  have hlt : i % 4 < 4 := Nat.mod_lt _ (by decide)
  rw [List.getD_eq_getElem _ _ (by simpa using hlt), List.getElem_map, List.getElem_range]

theorem permutes_addStored {t4 : ℕ} (h : ((t4 + 1 : ℕ) : F) ≠ 0) :
    Permutes (4 * t4) (addStored t4 : List F → _) where
  total x hx := ⟨_, addStored_eq hx, by rw [List.length_mapIdx, hx]⟩
  injective x x' hx hx' heq := by
    rw [addStored_eq hx, addStored_eq hx', Option.some.injEq] at heq
    have hat : ∀ i < 4 * t4, x.getD i 0 + columnSum t4 (i % 4) x =
        x'.getD i 0 + columnSum t4 (i % 4) x' := by
      intro i hi
      have hget := congrArg (fun l => l[i]?) heq
      simp only [List.getElem?_mapIdx, List.getElem?_eq_getElem (show i < x.length by omega),
        List.getElem?_eq_getElem (show i < x'.length by omega), Option.map_some,
        Option.some.injEq] at hget
      rw [List.getD_eq_getElem _ _ (by omega), List.getD_eq_getElem _ _ (by omega)]
      exact hget
    -- a column's sum comes out `t4 + 1` times
    have hsum : ∀ l < 4, columnSum t4 l x = columnSum t4 l x' := by
      intro l hl
      have hcolumn : ∀ y : List F, ∑ j ∈ Finset.range t4,
          (y.getD (4 * j + l) 0 + columnSum t4 l y) = ((t4 + 1 : ℕ) : F) * columnSum t4 l y := by
        intro y
        rw [Finset.sum_add_distrib, Finset.sum_const, Finset.card_range, nsmul_eq_mul,
          ← columnSum, Nat.cast_add, Nat.cast_one]
        ring
      refine mul_left_cancel₀ h ?_
      rw [← hcolumn x, ← hcolumn x']
      refine Finset.sum_congr rfl fun j hj => ?_
      have hlt := Finset.mem_range.mp hj
      have hmod : (4 * j + l) % 4 = l := by omega
      have hj := hat (4 * j + l) (by omega)
      rwa [hmod] at hj
    refine List.ext_getElem (hx.trans hx'.symm) fun i hi hi' => ?_
    have hi4 := hat i (by omega)
    rw [hsum (i % 4) (Nat.mod_lt _ (by decide)), List.getD_eq_getElem _ _ hi,
      List.getD_eq_getElem _ _ hi'] at hi4
    exact add_right_cancel hi4

/-- **The external layer**: the circulant matrices of the widths 2 and 3, and the blocks above. -/
theorem permutes_matmulExternal {t : ℕ} (ht : t ∈ [2, 3, 4, 8, 12, 16, 20, 24])
    (hchar : (210 : F) ≠ 0) : Permutes t (matmulExternal t : List F → _) := by
  have hne : ∀ n m : ℕ, n * m = 210 → ((n : ℕ) : F) ≠ 0 := by
    intro n m hnm h0
    refine hchar ?_
    have hcast : ((210 : ℕ) : F) = (n : F) * m := by rw [← hnm, Nat.cast_mul]
    rw [h0, zero_mul] at hcast
    exact_mod_cast hcast
  have h2 : (2 : F) ≠ 0 := by exact_mod_cast hne 2 105 rfl
  have h3 : (3 : F) ≠ 0 := by exact_mod_cast hne 3 70 rfl
  have h4 : (4 : F) ≠ 0 := by
    rw [show (4 : F) = 2 * 2 by norm_num]
    exact mul_ne_zero h2 h2
  have hblocks : ∀ t4 : ℕ, ((t4 + 1 : ℕ) : F) ≠ 0 → Permutes (4 * t4) fun x : List F =>
      matmulM4 t4 x >>= addStored t4 := fun t4 ht4 =>
    (permutes_matmulM4 h2 t4).bind (permutes_addStored ht4)
  simp only [List.mem_cons, List.not_mem_nil, or_false] at ht
  rcases ht with rfl | rfl | rfl | rfl | rfl | rfl | rfl | rfl
  · constructor
    · intro x hx
      obtain ⟨a, b, rfl⟩ := List.length_eq_two.mp hx
      exact ⟨_, rfl, rfl⟩
    · intro x x' hx hx' h
      obtain ⟨a, b, rfl⟩ := List.length_eq_two.mp hx
      obtain ⟨a', b', rfl⟩ := List.length_eq_two.mp hx'
      simp only [matmulExternal, List.append_nil, Option.some.injEq, List.cons.injEq, and_true] at h
      obtain ⟨ha, hb⟩ := h
      have hsum : a + b = a' + b' := mul_left_cancel₀ h3 (by linear_combination ha + hb)
      rw [show a = a' by linear_combination ha - hsum, show b = b' by linear_combination hb - hsum]
  · constructor
    · intro x hx
      obtain ⟨a, b, c, rfl⟩ := List.length_eq_three.mp hx
      exact ⟨_, rfl, rfl⟩
    · intro x x' hx hx' h
      obtain ⟨a, b, c, rfl⟩ := List.length_eq_three.mp hx
      obtain ⟨a', b', c', rfl⟩ := List.length_eq_three.mp hx'
      simp only [matmulExternal, List.append_nil, Option.some.injEq, List.cons.injEq, and_true] at h
      obtain ⟨ha, hb, hc⟩ := h
      have hsum : a + b + c = a' + b' + c' :=
        mul_left_cancel₀ h4 (by linear_combination ha + hb + hc)
      rw [show a = a' by linear_combination ha - hsum, show b = b' by linear_combination hb - hsum,
        show c = c' by linear_combination hc - hsum]
  · exact permutes_matmulM4 h2 1
  · exact hblocks 2 (hne 3 70 rfl)
  · exact hblocks 3 (by exact_mod_cast h4)
  · exact hblocks 4 (hne 5 42 rfl)
  · exact hblocks 5 (hne 6 35 rfl)
  · exact hblocks 6 (hne 7 30 rfl)

theorem sum_eq_sum_getD {x : List F} {t : ℕ} (hx : x.length = t) :
    x.sum = ∑ i ∈ Finset.range t, x.getD i 0 := by
  subst hx
  rw [← Fin.sum_univ_getElem, Finset.sum_range]
  exact Finset.sum_congr rfl fun i _ => (List.getD_eq_getElem _ _ i.isLt).symm

theorem permutes_addDiagonal {t : ℕ} {diag : List F} (hdiag : t ≤ diag.length)
    (hne : ∀ i < t, diag.getD i 0 ≠ 0)
    (hsum : 1 + ∑ i ∈ Finset.range t, (diag.getD i 0)⁻¹ ≠ 0) :
    Permutes t fun x : List F => addDiagonal diag x.sum x where
  total x hx := ⟨_, addDiagonal_eq hdiag hx _, by rw [List.length_mapIdx, hx]⟩
  injective x x' hx hx' heq := by
    rw [addDiagonal_eq hdiag hx, addDiagonal_eq hdiag hx', Option.some.injEq] at heq
    have hat : ∀ i < t, x.getD i 0 - x'.getD i 0 = (x'.sum - x.sum) * (diag.getD i 0)⁻¹ := by
      intro i hi
      have hget := congrArg (fun l => l[i]?) heq
      simp only [List.getElem?_mapIdx, List.getElem?_eq_getElem (show i < x.length by omega),
        List.getElem?_eq_getElem (show i < x'.length by omega), Option.map_some,
        Option.some.injEq] at hget
      rw [List.getD_eq_getElem x _ (by omega), List.getD_eq_getElem x' _ (by omega),
        eq_mul_inv_iff_mul_eq₀ (hne i hi)]
      linear_combination hget
    -- the difference of the sums is a multiple of itself
    have hdiff : (x.sum - x'.sum) * (1 + ∑ i ∈ Finset.range t, (diag.getD i 0)⁻¹) = 0 := by
      have hall := Finset.sum_congr (rfl : Finset.range t = Finset.range t)
        fun i hi => hat i (Finset.mem_range.mp hi)
      rw [Finset.sum_sub_distrib, ← Finset.mul_sum, ← sum_eq_sum_getD hx,
        ← sum_eq_sum_getD hx'] at hall
      linear_combination hall
    have hzero : x'.sum - x.sum = 0 := by
      rw [← neg_sub, (mul_eq_zero.mp hdiff).resolve_right hsum, neg_zero]
    refine List.ext_getElem (hx.trans hx'.symm) fun i hi hi' => ?_
    have hi0 := hat i (by omega)
    rw [hzero, zero_mul, List.getD_eq_getElem _ _ hi, List.getD_eq_getElem _ _ hi'] at hi0
    exact sub_eq_zero.mp hi0

/-- The diagonal of a width that reads it. -/
structure Diagonal (t : ℕ) (diag : List F) : Prop where
  length_le : t ≤ diag.length
  ne_zero : ∀ i < t, diag.getD i 0 ≠ 0
  sum_ne_zero : 1 + ∑ i ∈ Finset.range t, (diag.getD i 0)⁻¹ ≠ 0

/-- **The internal layer**: the fixed matrices of the widths 2 and 3, and the diagonal above. -/
theorem permutes_matmulInternal {t : ℕ} {diag : List F} (ht : t ∈ [2, 3, 4, 8, 12, 16, 20, 24])
    (hchar : (210 : F) ≠ 0) (hdiag : 4 ≤ t → Diagonal t diag) :
    Permutes t (matmulInternal t diag : List F → _) := by
  have h5 : (5 : F) ≠ 0 := fun h => hchar (by linear_combination 42 * h)
  have h7 : (7 : F) ≠ 0 := fun h => hchar (by linear_combination 30 * h)
  have hread : ∀ k : ℕ, 4 ≤ k → k = t → Permutes k fun x : List F =>
      x[0]? >>= fun x0 => addDiagonal diag (x0 + ((x.drop 1).take (k - 1)).sum) x := by
    rintro k hk rfl
    obtain ⟨hlen, hne, hsum⟩ := hdiag hk
    refine (permutes_addDiagonal hlen hne hsum).congr fun x hx => ?_
    obtain ⟨a, x, rfl⟩ := List.exists_of_length_succ (n := k - 1) x (by omega)
    rw [List.length_cons] at hx
    have hall : x.take (k - 1) = x := List.take_of_length_le (by omega)
    simp only [List.sum_cons, List.getElem?_cons_zero, List.drop_succ_cons, List.drop_zero, hall]
    rfl
  simp only [List.mem_cons, List.not_mem_nil, or_false] at ht
  rcases ht with rfl | rfl | ht
  · constructor
    · intro x hx
      obtain ⟨a, b, rfl⟩ := List.length_eq_two.mp hx
      exact ⟨_, rfl, rfl⟩
    · intro x x' hx hx' h
      obtain ⟨a, b, rfl⟩ := List.length_eq_two.mp hx
      obtain ⟨a', b', rfl⟩ := List.length_eq_two.mp hx'
      simp only [matmulInternal, List.append_nil, Option.some.injEq, List.cons.injEq, and_true] at h
      obtain ⟨ha, hb⟩ := h
      have hb' : b = b' := mul_left_cancel₀ h5 (by linear_combination 2 * hb - ha)
      have ha' : a = a' := mul_left_cancel₀ h5 (by linear_combination 3 * ha - hb)
      rw [ha', hb']
  · constructor
    · intro x hx
      obtain ⟨a, b, c, rfl⟩ := List.length_eq_three.mp hx
      exact ⟨_, rfl, rfl⟩
    · intro x x' hx hx' h
      obtain ⟨a, b, c, rfl⟩ := List.length_eq_three.mp hx
      obtain ⟨a', b', c', rfl⟩ := List.length_eq_three.mp hx'
      simp only [matmulInternal, List.append_nil, Option.some.injEq, List.cons.injEq, and_true] at h
      obtain ⟨ha, hb, hc⟩ := h
      have hsum : a + b + c = a' + b' + c' :=
        mul_left_cancel₀ h7 (by linear_combination 2 * ha + 2 * hb + hc)
      have ha' : a = a' := by linear_combination ha - hsum
      have hb' : b = b' := by linear_combination hb - hsum
      rw [ha', hb', show c = c' by linear_combination hsum - ha' - hb']
  · rcases ht with rfl | rfl | rfl | rfl | rfl | rfl
    · exact hread 4 (by decide) rfl
    · exact hread 8 (by decide) rfl
    · exact hread 12 (by decide) rfl
    · exact hread 16 (by decide) rfl
    · exact hread 20 (by decide) rfl
    · exact hread 24 (by decide) rfl

end linear

/-! ### The permutation -/

section permutation

variable {F : Type} [Field F] {params : Poseidon2Params F}

/-- Parameters that the code can run on, of layers that can be undone. -/
structure Poseidon2Params.WellFormed (params : Poseidon2Params F) : Prop where
  width : params.t ∈ [2, 3, 4, 8, 12, 16, 20, 24]
  degree : params.d = 3 ∨ params.d = 5 ∨ params.d = 7
  power : Function.Injective fun x : F => x ^ params.d
  rounds_le : params.roundsFDiv2 + params.roundsP ≤ params.rounds
  rounds : params.rounds ≤ params.roundConstants.length
  rows : ∀ row ∈ params.roundConstants, params.t ≤ row.length
  char : (210 : F) ≠ 0
  diagonal : 4 ≤ params.t → Diagonal params.t params.matInternalDiagM1

theorem Poseidon2Params.WellFormed.exists_row (h : params.WellFormed) {r : ℕ}
    (hr : r < params.rounds) :
    ∃ row, params.roundConstants[r]? = some row ∧ params.t ≤ row.length := by
  have hlt : r < params.roundConstants.length := hr.trans_le h.rounds
  exact ⟨_, List.getElem?_eq_getElem hlt, h.rows _ (List.getElem_mem hlt)⟩

theorem permutes_fullRound (h : params.WellFormed) {r : ℕ} (hr : r < params.rounds) :
    Permutes params.t fun x => fullRound params x r := by
  obtain ⟨row, hrow, hlen⟩ := h.exists_row hr
  refine ((Permutes.zipWith_add hlen).bind ((permutes_sbox h.degree h.power).bind
    (permutes_matmulExternal h.width h.char))).congr fun x _ => ?_
  rw [fullRound, hrow]
  rfl

theorem permutes_partialRound (h : params.WellFormed) {r : ℕ} (hr : r < params.rounds) :
    Permutes params.t fun x => partialRound params x r := by
  obtain ⟨row, hrow, hlen⟩ := h.exists_row hr
  have hpos : 0 < params.t := by
    have := h.width
    revert this
    generalize params.t = t
    intro ht
    refine Nat.pos_of_ne_zero ?_
    rintro rfl
    revert ht
    decide
  have hinj : Function.Injective fun x : F => (x + row[0]) ^ params.d := fun x y hxy =>
    add_right_cancel (h.power hxy)
  refine ((Permutes.modifyHead hinj).bind
    (permutes_matmulInternal h.width h.char h.diagonal)).congr fun x hx => ?_
  obtain ⟨a, x, rfl⟩ := List.exists_of_length_succ (n := params.t - 1) x (by omega)
  rw [partialRound, hrow]
  simp only [List.getElem?_eq_getElem (show 0 < row.length by omega), Option.bind_eq_bind,
    Option.bind_some, sboxP_eq h.degree, List.modifyHead_cons]

/-- **The permutation permutes.** -/
theorem permutes_permutation (h : params.WellFormed) : Permutes params.t (permutation params) := by
  have hfirst : ∀ r ∈ List.range params.roundsFDiv2, Permutes params.t fun x =>
      fullRound params x r := fun r hr =>
    permutes_fullRound h ((List.mem_range.mp hr).trans_le (by have := h.rounds_le; omega))
  have hmiddle : ∀ r ∈ List.range' params.roundsFDiv2 params.roundsP, Permutes params.t fun x =>
      partialRound params x r := fun r hr => by
    have hlt := (List.mem_range'_1.mp hr).2
    exact permutes_partialRound h (hlt.trans_le h.rounds_le)
  have hlast : ∀ r ∈ List.range' (params.roundsFDiv2 + params.roundsP)
      (params.rounds - (params.roundsFDiv2 + params.roundsP)), Permutes params.t fun x =>
      fullRound params x r := fun r hr => by
    have hlt := (List.mem_range'_1.mp hr).2
    have := h.rounds_le
    exact permutes_fullRound h (by omega)
  refine ((permutes_matmulExternal h.width h.char).bind ((Permutes.foldlM hfirst).bind
    ((Permutes.foldlM hmiddle).bind (Permutes.foldlM hlast)))).congr fun x hx => ?_
  rw [permutation, guard, if_pos hx]
  rfl

/-- **The permutation** runs on the lists of its width, and over a finite field reaches each of them
from one. -/
theorem permutation_bijective [Finite F] (h : params.WellFormed) :
    (∀ x, (permutation params x).isSome ↔ x.length = params.t) ∧
      ∀ y : List F, y.length = params.t → ∃! x, permutation params x = some y := by
  have hlen : ∀ x, (permutation params x).isSome → x.length = params.t := by
    intro x hx
    by_contra hne
    rw [permutation, guard, if_neg hne] at hx
    exact Bool.false_ne_true hx
  have hpermutes := permutes_permutation h
  refine ⟨fun x => ⟨hlen x, fun hx => ?_⟩, fun y hy => ?_⟩
  · obtain ⟨y, hy, -⟩ := hpermutes.total x hx
    rw [hy]
    rfl
  · obtain ⟨x, hx, hxy⟩ := hpermutes.surjective hy
    refine ⟨x, hxy, fun x' hx' => ?_⟩
    exact hpermutes.injective x' x (hlen x' (by rw [hx']; rfl)) hx (hx'.trans hxy.symm)

end permutation

end Enclave.Zkhash

import Enclave.Lib.MerkleTree
import Enclave.Poseidon2

/-! # The frontier of the contracts' Merkle trees

`get_zeroes` and the two loops that the ASP membership contract and the pool share.  Their
constructors store the zero of every level.  `insert_leaf` and `insert_two_leaves` go up from a
level: a right child is combined with the stored left sibling, a left child is stored and
combined with the zero of its level.  The contracts differ in where they keep the entries and in
how they fail on a missing one (`FrontierKeys`).

`insertLoop_apply` says that on entries that are field elements the loop is `Merkle.climb`. -/

namespace Enclave

open Merkle

/-- `get_zeroes`: the zero of each level, from the leaves up. -/
def getZeroes : List U256 :=
  [0x25302288db99350344974183ce310d63b53abb9ef0f8575753eed36e0118f9ce,
   0x21f4ea2492ade006a8ee7fb764060a95a4eef5ca931e037bcdf05fc28067d008,
   0x0ebfb4d2f05bb6a473c9bff72586fec806f1ac237015c570d7c78249cf7d7740,
   0x066882a5dab186d4d63fa6600f9ea3d5cdfef2a2811c89731128a729d7e8b897,
   0x065db3148d8da5329beaec5042785c69f2ce0709e26d468bda1e255c599b5686,
   0x19926faa23b0737d467f9476f0f84b2968ff6666e16a23e4d44898f884504764,
   0x287c485a72ccc8d4d80692d97eb62c164953a0422791f6af6214a9a7ad2279c0,
   0x1f729e103e7d415f728dc945e3b6e2c40ac0cb369e532ba50a569790cdde2acc,
   0x1887e71f92217ffe86620e6ea5a71ad3521fade4c83203ffa3e838fe3d6e7203,
   0x295aa78e56c7a09a864f2f4175100095f3e7b9ef2a911af87cb0f3f7eef27700,
   0x0517032a796b0340dc5f9df28b1fd320daba24d5a45335a137167300ee368828,
   0x15fadf4947d2a40c7b439e83ea3c979ff725aad11c47aaaf892aab413db2dcdd,
   0x00acb7236b6d87f4875b3b9d1720a9e0682c70e4bc6d54edf61faa2bc93841d6,
   0x09836dd9054d560ae60ea6a8033404b3e40309f6ee4d170acb92e6667e86c775,
   0x2198946b17f9ba035d7ee728741ca5f4e5875cb6afb29684a6f5f9a82feec482,
   0x15d4b16830604dbe0b3212e31f9574787c15b0f54e5e24b080687e7a6ef6d455,
   0x2d07f73e04cf0a538037ba07561651ac979bb00e1705c75ddc9516ec4b8a6a76,
   0x02f8731aea289a6b401000487e8c6925c922407eeca58f2e18cc8ad9b6c5d13f,
   0x0a30053c1787c79782e60bc8d825e9e323c8a902f93aa5923c24d17d16db925c,
   0x0ea3058d9958ba5fe441fbd79dc968f449215ddee66146161afcf34c34bfa490,
   0x27b9937e47a65983ad50a5b7f6b9cf0542c91a8dfa1714cef89013438a06f9b7,
   0x2d347be4e547c5837c1b2172322628a0c48d668193196791b310674b0453c039,
   0x03f2461b35b892fc8c589706283d1083f4d2d66be4f97e461abaf2f06f89cffd,
   0x259b8fa0082cf6066f005a0a49006712fe1dcfef6a98d68f7ab445f88adb61a7,
   0x1980a5f7eac09daac7b2d2179ba1d970fb3f0213dd90613128f5d55863d84414,
   0x1cfcd94aabc23cacd4ccab22e87d2303200d09b03042b2047f03d2e0def57e85,
   0x102bdc81acbf8c52d35871a21ff27516ddbe6e31ef51740c49bd2ee2b1980c21,
   0x2fad84f388a263e714c7b39fb0dd24be6158b9e21480aa3a60778707889f76ad,
   0x2ace942d30becb369f1cfd025b5394d6ee4c97f55930048a18fb501128c87777,
   0x0930feccbf762a6b239acee2c369de9a31bd3e232c90c64af141945c1c415463,
   0x1a59e2ba55f1e829bca2c6316a9ccd08017d2e9bf532942c26d82365ca604b58,
   0x1a8e840c84e2fb5212d61f09ad5f91d6a70a83074e942772ef74b42d12a11f50,
   0x134b50df02e2ccb98b59af2c2c55d7a41ff102681730c42ba364dbff1271cf62]

/-- The zero of a level as a field element. -/
def zeroAt (i : ℕ) : F := ((getZeroes.getD i 0 : ℕ) : F)

/-- The table is consistent with the compression: `z(i+1) = compress(z(i), z(i))`. -/
def ZeroTable (P : Poseidon2) : Prop := ZeroChain P.compress zeroAt 32

theorem length_getZeroes : getZeroes.length = 33 := rfl

theorem getZeroes_getElem? {i : ℕ} (h : i ≤ 32) : getZeroes[i]? = some (zeroAt i).val := by
  have hlt : ∀ z ∈ getZeroes, z < bn256Modulus := by decide +kernel
  have hi : i < getZeroes.length := by
    rw [length_getZeroes]
    omega
  rw [zeroAt, List.getD_eq_getElem _ _ hi, F.val_natCast_of_lt (hlt _ (List.getElem_mem hi)),
    List.getElem?_eq_getElem hi]

/-- A small permutation that is consistent with the table. -/
def zeroPoseidon2 : Poseidon2 :=
  { smallPoseidon2 with
    permutation2 := fun l r =>
      match getZeroes.idxOf? l.val with
      | some i => if l = r then (zeroAt (i + 1) - l, r) else smallPoseidon2.permutation2 l r
      | none => smallPoseidon2.permutation2 l r }

theorem zeroTable_zeroPoseidon2 : ZeroTable zeroPoseidon2 := by
  unfold ZeroTable ZeroChain
  decide +kernel

/-! ### The loop -/

variable {σ ε : Type}

/-- Where a contract keeps its frontier, and how it reads an entry. -/
structure FrontierKeys (σ ε : Type) where
  filled : σ → ℕ → Option U256
  setFilled : (ℕ → Option U256) → σ → σ
  zeroes : σ → ℕ → Option U256
  setZeroes : (ℕ → Option U256) → σ → σ
  get : Option U256 → Host σ ε U256

/-- The loop of the constructors over the levels. -/
def FrontierKeys.initLevels (K : FrontierKeys σ ε) : List ℕ → Host σ ε Unit
  | [] => pure ()
  | lvl :: rest => do
      let z ← K.get getZeroes[lvl]?
      Host.modifyStore fun s => K.setFilled (Function.update (K.filled s) lvl (some z)) s
      Host.modifyStore fun s => K.setZeroes (Function.update (K.zeroes s) lvl (some z)) s
      K.initLevels rest

/-- Body of the insertion loop at level `lvl`. -/
def FrontierKeys.insertStep (K : FrontierKeys σ ε) (P : Poseidon2) (lvl currentIndex : ℕ)
    (currentHash : U256) : Host σ ε U256 := do
  let isRight := currentIndex % 2 = 1
  if isRight then
    let left ← K.get (K.filled (← Host.getStore) lvl)
    poseidon2Compress P left currentHash
  else
    Host.modifyStore fun s => K.setFilled (Function.update (K.filled s) lvl (some currentHash)) s
    let zeroVal ← K.get (K.zeroes (← Host.getStore) lvl)
    poseidon2Compress P currentHash zeroVal

/-- The insertion loop over the next levels from `lvl` on. -/
def FrontierKeys.insertLoop (K : FrontierKeys σ ε) (P : Poseidon2) :
    ℕ → ℕ → ℕ → U256 → Host σ ε U256
  | 0, _, _, currentHash => pure currentHash
  | k + 1, lvl, currentIndex, currentHash => do
      let currentHash ← K.insertStep P lvl currentIndex currentHash
      K.insertLoop P k (lvl + 1) (currentIndex / 2) currentHash

/-- The keys are independent entries of the storage. -/
structure FrontierKeys.Lawful (K : FrontierKeys σ ε) : Prop where
  filled_setFilled : ∀ g s, K.filled (K.setFilled g s) = g
  setFilled_setFilled : ∀ g g' s, K.setFilled g (K.setFilled g' s) = K.setFilled g s
  zeroes_setFilled : ∀ g s, K.zeroes (K.setFilled g s) = K.zeroes s
  filled_setZeroes : ∀ g s, K.filled (K.setZeroes g s) = K.filled s
  zeroes_setZeroes : ∀ g s, K.zeroes (K.setZeroes g s) = g
  setZeroes_setZeroes : ∀ g g' s, K.setZeroes g (K.setZeroes g' s) = K.setZeroes g s
  setFilled_setZeroes : ∀ g g' s, K.setFilled g (K.setZeroes g' s) = K.setZeroes g' (K.setFilled g s)
  setFilled_filled : ∀ s, K.setFilled (K.filled s) s = s
  setZeroes_zeroes : ∀ s, K.setZeroes (K.zeroes s) s = s
  get_some : ∀ a, K.get (some a) = pure a

/-- The words of the levels up to `L`. -/
def wordsUpTo (L : ℕ) (g : ℕ → F) (l : ℕ) : Option U256 := if l ≤ L then some (g l).val else none

theorem wordsUpTo_of_le {L l : ℕ} (g : ℕ → F) (h : l ≤ L) : wordsUpTo L g l = some (g l).val :=
  if_pos h

theorem update_wordsUpTo {L l : ℕ} (g : ℕ → F) (x : F) (h : l ≤ L) :
    Function.update (wordsUpTo L g) l (some x.val) = wordsUpTo L (Function.update g l x) := by
  funext m
  rcases eq_or_ne m l with rfl | hne
  · simp [wordsUpTo, h]
  · simp [wordsUpTo, hne]

/-- The words the constructors store for the levels. -/
def zeroWords (levels l : ℕ) : Option U256 :=
  if l ∈ List.range (levels + 1) then some (zeroAt l).val else none

theorem zeroWords_eq (levels : ℕ) : zeroWords levels = wordsUpTo levels zeroAt := by
  funext l
  simp [zeroWords, wordsUpTo]

theorem FrontierKeys.initLevels_apply {K : FrontierKeys σ ε} (hK : K.Lawful) :
    ∀ (lvls : List ℕ) (env : Env σ), (∀ l ∈ lvls, l ≤ 32) →
      K.initLevels lvls env = .ok ((),
        ⟨K.setZeroes (fun l => if l ∈ lvls then some (zeroAt l).val else K.zeroes env.store l)
          (K.setFilled (fun l => if l ∈ lvls then some (zeroAt l).val else K.filled env.store l)
            env.store), env.hashed⟩)
  | [], env, _ => by
      simp only [initLevels, Host.pure_apply, List.not_mem_nil, if_false]
      rw [hK.setFilled_filled, hK.setZeroes_zeroes]
  | lvl :: rest, env, h => by
      rw [initLevels, getZeroes_getElem? (h lvl List.mem_cons_self), hK.get_some, pure_bind,
        Host.bind_of_ok (Host.modifyStore_apply _ _), Host.bind_of_ok (Host.modifyStore_apply _ _),
        initLevels_apply hK rest _ fun l hl => h l (List.mem_cons_of_mem _ hl)]
      have hupd : ∀ g : ℕ → Option U256, (fun l => if l ∈ rest then some (zeroAt l).val
          else Function.update g lvl (some (zeroAt lvl).val) l) =
          fun l => if l ∈ lvl :: rest then some (zeroAt l).val else g l := by
        intro g
        funext l
        rcases eq_or_ne l lvl with rfl | hne
        · simp
        · simp [hne]
      simp only [hK.filled_setFilled, hK.zeroes_setFilled, hK.filled_setZeroes, hK.zeroes_setZeroes,
        hK.setFilled_setZeroes, hK.setZeroes_setZeroes, hK.setFilled_setFilled, hupd]

/-- The evaluation of a pair of nodes. -/
def pairQuery (p : F × F) : Query := .compress p.1 p.2

/-- The environment in the loop: the frontier's entries and the evaluations so far. -/
def FrontierKeys.env (K : FrontierKeys σ ε) (L : ℕ) (base : Env σ) (s : Climb F) : Env σ where
  store := K.setFilled (wordsUpTo L s.filled) base.store
  hashed := s.pairs.map pairQuery ++ base.hashed

variable {K : FrontierKeys σ ε} {P : Poseidon2} {L : ℕ} {base : Env σ}

theorem FrontierKeys.insertStep_apply (hK : K.Lawful)
    (hz : K.zeroes base.store = wordsUpTo L zeroAt) {l : ℕ} (hl : l ≤ L) (index : ℕ)
    (s : Climb F) :
    K.insertStep P l index s.hash.val (K.env L base s) =
      .ok ((climbStep P.compress zeroAt l index s).hash.val,
        K.env L base (climbStep P.compress zeroAt l index s)) := by
  unfold insertStep climbStep
  by_cases hodd : index % 2 = 1
  · simp only [if_pos hodd]
    rw [Host.bind_of_ok (Host.getStore_apply _), env, hK.filled_setFilled, wordsUpTo_of_le _ hl,
      hK.get_some, pure_bind, poseidon2Compress_apply]
    rfl
  · simp only [if_neg hodd]
    rw [Host.bind_of_ok (Host.modifyStore_apply _ _), Host.bind_of_ok (Host.getStore_apply _), env]
    simp only [hK.filled_setFilled, hK.setFilled_setFilled, hK.zeroes_setFilled, hz,
      update_wordsUpTo _ _ hl, wordsUpTo_of_le zeroAt hl, hK.get_some, pure_bind,
      poseidon2Compress_apply]
    rfl

/-- **The contracts' loop is the loop of the frontier.** -/
theorem FrontierKeys.insertLoop_apply (hK : K.Lawful)
    (hz : K.zeroes base.store = wordsUpTo L zeroAt) :
    ∀ (k : ℕ) {l index : ℕ} (s : Climb F), l + k ≤ L →
      K.insertLoop P k l index s.hash.val (K.env L base s) =
        .ok ((climb P.compress zeroAt k l index s).hash.val,
          K.env L base (climb P.compress zeroAt k l index s))
  | 0, _, _, _, _ => rfl
  | k + 1, l, index, s, h => by
      rw [insertLoop, Host.bind_of_ok (insertStep_apply hK hz (by omega) index s),
        insertLoop_apply hK hz k _ (by omega), climb]

theorem FrontierKeys.fixes_insertLoop {τ : Type} {part : σ → τ}
    (hfilled : ∀ g s, part (K.setFilled g s) = part s)
    (hget : ∀ o, (K.get o).Fixes part) : ∀ k lvl currentIndex currentHash,
      (K.insertLoop P k lvl currentIndex currentHash).Fixes part
  | 0, _, _, _ => .pure _
  | k + 1, lvl, currentIndex, currentHash => by
      refine .bind ?_ fun _ => fixes_insertLoop hfilled hget k _ _ _
      refine .ite (.bind .getStore fun s => .bind (hget _) fun _ => fixes_poseidon2Compress P part _ _)
        (.bind (.modifyStore fun s => hfilled _ s) fun _ => .bind .getStore fun s =>
          .bind (hget _) fun _ => fixes_poseidon2Compress P part _ _)

/-! ### Leaves -/

/-- The leaves in order and the zero leaf elsewhere. -/
def leafAt (leaves : List F) (i : ℕ) : F := leaves.getD i (zeroAt 0)

/-- The root of the tree with `levels` levels. -/
def rootOf (P : Poseidon2) (levels : ℕ) (leaves : List F) : F :=
  node P.compress (leafAt leaves) levels 0

theorem leafAt_append_of_lt {a b : List F} {i : ℕ} (h : i < a.length) :
    leafAt (a ++ b) i = leafAt a i := by
  rw [leafAt, leafAt, List.getD_append _ _ _ _ h]

theorem leafAt_of_le {leaves : List F} {i : ℕ} (h : leaves.length ≤ i) :
    leafAt leaves i = zeroAt 0 := List.getD_eq_default _ _ h

/-- The stored entries are the frontier of the leaves from level `a` on. -/
structure FrontierKeys.Keeps (K : FrontierKeys σ ε) (P : Poseidon2) (a L : ℕ) (leaves : List F)
    (s : σ) : Prop where
  filled : ∃ φ, K.filled s = wordsUpTo L φ ∧
    Frontier P.compress (leafAt leaves) a L leaves.length φ
  zeroes : K.zeroes s = wordsUpTo L zeroAt

theorem rootOf_nil (hz : ZeroTable P) (hL : L ≤ 32) : rootOf P L [] = zeroAt L :=
  node_zero (hz.mono hL) fun i _ => leafAt_of_le (Nat.zero_le i)

/-- **A block of `2 ^ a` leaves** is inserted by the loop from level `a` on, started with the
root of the block. -/
theorem FrontierKeys.Keeps.insert {a : ℕ} {leaves block : List F} {env : Env σ} (hK : K.Lawful)
    (h : K.Keeps P a L leaves env.store) (hz : ZeroTable P) (hL : L ≤ 32) (ha : a ≤ L)
    (hlen : block.length = 2 ^ a) (hdvd : 2 ^ a ∣ leaves.length)
    (hle : leaves.length + 2 ^ a ≤ 2 ^ L) :
    ∃ g, ∃ pairs : List (F × F), K.insertLoop P (L - a) a (leaves.length / 2 ^ a)
        (node P.compress (leafAt (leaves ++ block)) a (leaves.length / 2 ^ a)).val env =
          .ok ((rootOf P L (leaves ++ block)).val,
            ⟨K.setFilled g env.store, pairs.map pairQuery ++ env.hashed⟩) ∧
      K.Keeps P a L (leaves ++ block) (K.setFilled g env.store) ∧
      ∀ p, p ∈ pairs ↔ ∃ m, a ≤ m ∧ m < L ∧
        p = childPair P.compress (leafAt (leaves ++ block)) m (leaves.length / 2 ^ (m + 1)) := by
  obtain ⟨φ, hφ, hfr⟩ := h.filled
  have hnew : (leaves ++ block).length = leaves.length + 2 ^ a := by
    rw [List.length_append, hlen]
  have hpos : 0 < 2 ^ a := by positivity
  obtain ⟨h₁, h₂, h₃⟩ := climb_insert (c := P.compress) (z := zeroAt) hdvd ha
    (by omega) (hz.mono hL) (fun i hi => leafAt_append_of_lt hi)
    (fun i hi => leafAt_of_le (by rw [hnew]; exact hi)) hfr
  have henv : K.env L env ⟨node P.compress (leafAt (leaves ++ block)) a (leaves.length / 2 ^ a),
      φ, []⟩ = env := by
    rw [FrontierKeys.env, ← hφ, hK.setFilled_filled]
    rfl
  have hloop := @insertLoop_apply _ _ K P L env hK h.zeroes (L - a) a (leaves.length / 2 ^ a)
    ⟨node P.compress (leafAt (leaves ++ block)) a (leaves.length / 2 ^ a), φ, []⟩ (by omega)
  rw [henv, h₁] at hloop
  refine ⟨_, _, hloop, ⟨⟨_, hK.filled_setFilled _ _, ?_⟩, ?_⟩, fun p => ?_⟩
  · rw [hnew]
    exact h₂
  · rw [hK.zeroes_setFilled]
    exact h.zeroes
  · rw [h₃, or_iff_left List.not_mem_nil]

end Enclave

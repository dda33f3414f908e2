import Enclave.AspNonMembership.Refinement

/-! # Verification of non-membership

`verify_non_membership` compares its arguments with the search and then rebuilds the root from a
starting hash: the hash of the leaf the search ended at if that leaf has another key and a
nonzero value, and zero otherwise.  Zero is right for an empty place; for a leaf with value zero
it is not, and the rebuilt root differs from the stored one.  `verifyNonMembership_iff` says that
this is the only case in which an absent key is not accepted; a present key never is. -/

namespace Enclave.AspNonMembership

open Trie

variable {P : Poseidon2} {admin : Address} {env env' : Env Store} {ops : List Op} {t : Tree}
  {S : Set Tree}

/-- The accesses that rebuild a root. -/
def rootAccesses (p : ℕ → Bool) (e : Tree) (j : ℕ) (r : List Tree) : List Access :=
  [.hash (plug p j r e)]

/-- Rebuilding a root is plugging the end of the path back in. -/
theorem computedRoot_apply {key : U256} {e : Tree} {sibs : List Tree} (hlen : sibs.length ≤ 254)
    (env : Env Store) :
    computedRoot P (splitBits key) 0 (sibs.map (address P)) (address P e) env =
      .ok (address P (plug key.testBit 0 sibs e),
        runAll P (pathTrace (rootAccesses key.testBit e) 0 sibs) env) := by
  refine loop_apply P (computedRoot P (splitBits key))
    (fun i sibling hash => do
      let bit ← Host.unwrap (splitBits key)[i]?
      hashInternal P (children bit sibling hash).1 (children bit sibling hash).2)
    (fun _ _ => rfl) (fun _ _ _ _ => rfl) (rootAccesses key.testBit e)
    (fun j r => address P (plug key.testBit j r e)) env ?_
  intro j s r env hx
  obtain ⟨a, s', r', hcut, he⟩ := exists_append_of_mem_levels hx
  obtain ⟨rfl, -⟩ := Prod.mk.inj he
  have hlt : 0 + a.length < 256 := by
    have := congrArg List.length hcut
    simp only [List.length_append, List.length_cons] at this
    omega
  rw [unwrap_testBit key hlt, rootAccesses, plug_cons]
  cases key.testBit (0 + a.length)
  · exact hashInternal_apply P _ s env
  · exact hashInternal_apply P s _ env

theorem verifyNonMembership_of_found (h : Represents P env t S) (hsep : Separated P env)
    {key : U256} (hfound : (searchResult P key (walk key.testBit 0 t)).found = true)
    (siblings : List U256) (notFoundKey notFoundValue : U256) :
    verifyNonMembership P key siblings notFoundKey notFoundValue env = .ok (false, env) := by
  unfold verifyNonMembership
  rw [Host.bind_of_ok (Host.getStore_apply env)]
  simp only [h.findKeyInternal_eq hsep key, Host.bind_of_ok (Host.ofExcept_ok _ env), hfound,
    if_true, Host.pure_apply]

/-- With the search's own answers only the rebuilt root matters. -/
theorem verifyNonMembership_own (h : Represents P env t S) (hsep : Separated P env)
    {key : U256} (hfound : (searchResult P key (walk key.testBit 0 t)).found = false) :
    let find := searchResult P key (walk key.testBit 0 t)
    verifyNonMembership P key find.siblings find.notFoundKey find.notFoundValue env =
      (do
        let start ←
          if find.notFoundKey ≠ key ∧ find.notFoundValue ≠ 0 then
            hashLeaf P find.notFoundKey find.notFoundValue
          else pure 0
        let computed ← computedRoot P (splitBits key) 0 find.siblings start
        if computed ≠ address P t then Host.fail .invalidProof else return true : Call Bool) env := by
  intro find
  have hfind := h.findKeyInternal_eq hsep key
  rw [h.root, Option.getD_some] at hfind
  unfold verifyNonMembership
  rw [Host.bind_of_ok (Host.getStore_apply env)]
  simp only [h.root, Option.getD_some, hfind, Host.bind_of_ok (Host.ofExcept_ok _ env), hfound, find,
    Bool.false_eq_true, if_false, ne_eq, not_true, or_self]

theorem verify_of_start {key start : U256} {env₁ : Env Store} (hc : t.Canon keyBit 0)
    (hstart : (address P (walk key.testBit 0 t).2) = start) :
    ∃ env', (do
      let computed ← computedRoot P (splitBits key) 0
        ((walk key.testBit 0 t).1.map (address P)) start
      if computed ≠ address P t then Host.fail .invalidProof else return true : Call Bool) env₁ =
      .ok (true, env') := by
  have hroot := @computedRoot_apply P key (walk key.testBit 0 t).2 _
    (length_walk_le hc key.testBit) env₁
  rw [plug_walk, hstart] at hroot
  rw [Host.bind_of_ok hroot]
  simp only [ne_eq, not_true, if_false]
  exact ⟨_, rfl⟩

/-- An absent key is accepted if the search ended at an empty place or a nonzero leaf. -/
theorem verifyNonMembership_own_ok (h : Represents P env t S) (hsep : Separated P env)
    {key : U256} (hfound : (searchResult P key (walk key.testBit 0 t)).found = false)
    (hend : (searchResult P key (walk key.testBit 0 t)).isOld0 = true ∨
      (searchResult P key (walk key.testBit 0 t)).notFoundValue ≠ 0) :
    ∃ env', verifyNonMembership P key (searchResult P key (walk key.testBit 0 t)).siblings
      (searchResult P key (walk key.testBit 0 t)).notFoundKey
      (searchResult P key (walk key.testBit 0 t)).notFoundValue env = .ok (true, env') := by
  rw [verifyNonMembership_own h hsep hfound]
  rcases walk_end key.testBit 0 t with hw | ⟨k, v, hw⟩
  · have hres : (searchResult P key (walk key.testBit 0 t)).notFoundKey = key := by
      simp only [searchResult, hw]
    simp only [searchResult_siblings, hres, ne_eq, not_true, false_and, if_false, pure_bind]
    exact verify_of_start h.canon (by rw [hw, address_empty])
  · have hne : k.val ≠ key := by
      rintro rfl
      simp [searchResult, hw] at hfound
    have hv : v.val ≠ 0 := by
      simpa [searchResult, hw, hne] using hend
    have hk : (searchResult P key (walk key.testBit 0 t)).notFoundKey = k.val := by
      simp only [searchResult, hw, if_neg hne]
    have hval : (searchResult P key (walk key.testBit 0 t)).notFoundValue = v.val := by
      simp only [searchResult, hw, if_neg hne]
    simp only [searchResult_siblings, hk, hval, if_pos (show k.val ≠ key ∧ v.val ≠ 0 from ⟨hne, hv⟩)]
    rw [Host.bind_of_ok (hashLeaf_apply P k v env)]
    exact verify_of_start h.canon (by rw [hw])

/-- An absent key is rejected if the search ended at a leaf with value zero. -/
theorem verifyNonMembership_own_invalid (h : Represents P env t S) (hsep : Separated P env)
    {key : U256} (hfound : (searchResult P key (walk key.testBit 0 t)).found = false)
    (hend : (searchResult P key (walk key.testBit 0 t)).isOld0 = false)
    (hzero : (searchResult P key (walk key.testBit 0 t)).notFoundValue = 0)
    {computed : U256} {envV : Env Store}
    (hver : computedRoot P (splitBits key) 0 (searchResult P key (walk key.testBit 0 t)).siblings 0
      env = .ok (computed, envV)) (hsepV : Separated P envV) :
    verifyNonMembership P key (searchResult P key (walk key.testBit 0 t)).siblings
      (searchResult P key (walk key.testBit 0 t)).notFoundKey
      (searchResult P key (walk key.testBit 0 t)).notFoundValue env =
      .error (.error .invalidProof) := by
  rw [verifyNonMembership_own h hsep hfound]
  simp only [hzero, ne_eq, not_true, and_false, if_false, pure_bind]
  rw [Host.bind_of_ok hver]
  rcases walk_end key.testBit 0 t with hw | ⟨k, v, hw⟩
  · simp [searchResult, hw] at hend
  have hroot := @computedRoot_apply P key .empty _
    (length_walk_le h.canon key.testBit) env
  rw [address_empty, ← searchResult_siblings P key, hver] at hroot
  obtain ⟨rfl, rfl⟩ := Prod.mk.inj (Except.ok.inj hroot)
  have hne : address P (plug key.testBit 0 (walk key.testBit 0 t).1 .empty) ≠ address P t := by
    intro he
    have hlog := hashed_subset_runAll P
      (pathTrace (rootAccesses key.testBit .empty) 0 (walk key.testBit 0 t).1) env
    have hempty : Hashed P (runAll P
        (pathTrace (rootAccesses key.testBit .empty) 0 (walk key.testBit 0 t).1) env)
        (plug key.testBit 0 (walk key.testBit 0 t).1 .empty) := by
      refine hashed_runAll P fun u hu => ?_
      rcases (mem_subtries_plug _ _ _ _ _).mp hu with hu | ⟨s, hs, hu⟩ | hu
      · obtain ⟨x, hx, rfl⟩ := (mem_spine_iff _ _ _ _ _).mp hu
        exact Or.inl (mem_pathTrace.mpr ⟨x, hx, List.mem_singleton.mpr rfl⟩)
      · exact Or.inr (h.hashed_of_mem (mem_subtries_of_walk _ (Or.inl ⟨s, hs, hu⟩)))
      · exact absurd hu List.not_mem_nil
    have htrie := hsepV.injOn hempty
      ((h.hashed_of_subtries fun _ hw => hw).mono hlog) he
    -- the tree has a leaf at the end of the path, the rebuilt one has nothing there
    have hwalk := congrArg (fun u => (walk key.testBit 0 u).2) htrie
    simp only [walk_plug key.testBit (t := .empty) id] at hwalk
    rw [hw] at hwalk
    cases hwalk
  rw [if_pos hne]
  rfl

/-- **When verification agrees with the tree**: with the search's own answers an absent key is
accepted and a present key is not, unless the search ended at another key's leaf with value
zero. -/
theorem verifyNonMembership_iff (h : Reached P admin ops env)
    (hch : ValueChanging ops fun _ => none) {key : U256} {find : FindResult}
    (hfind : findKey key env = .ok (find, env)) {computed : U256} {envV : Env Store}
    (hver : computedRoot P (splitBits key) 0 find.siblings 0 env = .ok (computed, envV))
    (hc : P.CollisionFree {q | q ∈ envV.hashed}) (hz : P.NeverZero {q | q ∈ envV.hashed}) :
    (((∃ env', verifyNonMembership P key find.siblings find.notFoundKey find.notFoundValue env =
        .ok (true, env')) ↔ wordLookup (mapOf ops) key = none) ∧
      (wordLookup (mapOf ops) key ≠ none → ∀ siblings notFoundKey notFoundValue env',
        verifyNonMembership P key siblings notFoundKey notFoundValue env ≠ .ok (true, env'))) ↔
    ¬ (find.found = false ∧ find.isOld0 = false ∧ find.notFoundValue = 0) := by
  obtain ⟨t, S, hst⟩ := h.stores hch
  have hsep := h.separated
  have hrep := hst.represents
  have hreports := hst.reports key
  rw [hrep.findKey_apply hsep key] at hfind
  obtain rfl := (Prod.mk.inj (Except.ok.inj hfind)).1
  cases hm : wordLookup (mapOf ops) key with
  | some v =>
      rw [hm] at hreports
      have hfalse := verifyNonMembership_of_found hrep hsep hreports.1
      simp [hfalse, hreports.1]
  | none =>
      rw [hm] at hreports
      simp only [FindResult.Reports] at hreports
      simp only [hreports, true_and, iff_true, ne_eq, not_true, false_implies, and_true]
      constructor
      · rintro ⟨env', hok⟩ ⟨hend, hzero⟩
        rw [verifyNonMembership_own_invalid hrep hsep hreports hend hzero hver
          (separated_of_collisionFree P hc hz)] at hok
        cases hok
      · intro hcase
        refine verifyNonMembership_own_ok hrep hsep hreports ?_
        by_contra hcon
        push Not at hcon
        exact hcase ⟨by simpa using hcon.1, hcon.2⟩

/-- A run whose search for 4 ends at the leaf `(2, 7)`. -/
theorem verifyNonMembership_iff_smallRun : ∃ env env' find,
    Reached smallPoseidon2 (.account 0) [.insert 1 5, .insert 2 7] env ∧
      findKey 4 env = .ok (find, env) ∧ find.notFoundKey = 2 ∧
      verifyNonMembership smallPoseidon2 4 find.siblings find.notFoundKey find.notFoundValue env =
        .ok (true, env') := by
  obtain ⟨env, hr, hp⟩ := @exists_reached smallPoseidon2 (.account 0)
    [.insert 1 5, .insert 2 7] [.account 0]
    (p := fun env =>
      match findKey 4 env with
      | .ok (find, _) => find.notFoundKey == 2 && find.notFoundValue == 7 &&
          (match computedRoot smallPoseidon2 (splitBits 4) 0 find.siblings 0 env with
          | .ok (_, envV) => cleanLog smallPoseidon2 envV.hashed
          | .error _ => false)
      | .error _ => false) (by decide +kernel)
  have hch : ValueChanging [.insert 1 5, .insert 2 7] fun _ => none := ⟨trivial, trivial, trivial⟩
  obtain ⟨find, hfind, hreports⟩ := (refines_map hr hch).1 4
  rw [hfind] at hp
  simp only [Bool.and_eq_true, beq_iff_eq] at hp
  obtain ⟨⟨hkey, hvalue⟩, hver⟩ := hp
  cases hv : computedRoot smallPoseidon2 (splitBits 4) 0 find.siblings 0 env with
  | error e => rw [hv] at hver; cases hver
  | ok p =>
      rw [hv] at hver
      obtain ⟨hc, hz⟩ := collisionFree_of_cleanLog hver
      have hiff := (verifyNonMembership_iff hr hch hfind hv hc hz).mpr (by rw [hvalue]; simp)
      obtain ⟨env', hok⟩ := hiff.1.mpr (by
        simp only [mapOf, replay, List.foldl_cons, List.foldl_nil, Op.apply, wordLookup]
        decide +kernel)
      exact ⟨env, env', find, hr, hfind, hkey, hok⟩

/-- An absent key whose search ends at a leaf with value zero is rejected. -/
theorem verifyNonMembership_rejects_absent : ∃ env find,
    Reached smallPoseidon2 (.account 0) [.insert 1 5, .insert 2 0] env ∧
      ValueChanging [.insert 1 5, .insert 2 0] (fun _ => none) ∧
      findKey 4 env = .ok (find, env) ∧ find.found = false ∧
      verifyNonMembership smallPoseidon2 4 find.siblings find.notFoundKey find.notFoundValue env =
        .error (.error .invalidProof) := by
  obtain ⟨env, hr, hp⟩ := @exists_reached smallPoseidon2 (.account 0)
    [.insert 1 5, .insert 2 0] [.account 0]
    (p := fun env =>
      match findKeyInternal env.store.node 4 (splitBits 4) (env.store.root.getD 0) with
      | .ok find => !find.found &&
          (match verifyNonMembership smallPoseidon2 4 find.siblings find.notFoundKey
            find.notFoundValue env with
          | .ok _ => false
          | .error e => e == .error .invalidProof)
      | .error _ => false) (by decide +kernel)
  cases hfind : findKeyInternal env.store.node 4 (splitBits 4) (env.store.root.getD 0) with
  | error e => rw [hfind] at hp; cases hp
  | ok find =>
      rw [hfind] at hp
      simp only [Bool.and_eq_true, Bool.not_eq_true'] at hp
      obtain ⟨hfound, hver⟩ := hp
      refine ⟨env, find, hr, ⟨trivial, trivial, trivial⟩, ?_, hfound, ?_⟩
      · rw [findKey, Host.bind_of_ok (Host.getStore_apply env), hfind]
        rfl
      · cases hv : verifyNonMembership smallPoseidon2 4 find.siblings find.notFoundKey
          find.notFoundValue env with
        | ok r => rw [hv] at hver; cases hver
        | error e => rw [hv] at hver; rw [eq_of_beq hver]

end Enclave.AspNonMembership

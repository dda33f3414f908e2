import Enclave.Circuits.Gadgets

/-! # The exclusion circuit

`SMTVerifier(nLevels)` with its two helpers from circomlib, `SMTLevIns` (which finds the level
below the last nonzero sibling) and `SMTVerifierSM` (the state machine of a level: `top` above
that level, `i0`, `iold` or `inew` at it, `na` below).  A level's signals are computed together
with those of the levels below it, from the siblings that are left.

For a non-membership query the constraints say that the last sibling is zero, that an old key with
`isOld0 = 0` differs from the key, and that hashing from the old leaf, or zero, up along the
siblings above the trailing zeros gives the root (`Satisfies.climb_eq`, `satisfies_of_climb_eq`). -/

namespace Enclave.Circuits

namespace SMTVerifier

/-- Signals `levIns` of the levels from a level on, and `done` of the level above.  Above the first
level stands a nonzero sibling by convention: `levIns[0] <== 1 - done[0]`. -/
def smtLevIns (parentIsZero : F) : List F → List F × F
  | [] => ([], 0)
  | sibling :: rest =>
      let below := smtLevIns (isZero sibling) rest
      let levIns := (1 - below.2) * (1 - parentIsZero)
      (levIns :: below.1, levIns + below.2)

structure State where
  top : F
  i0 : F
  iold : F
  inew : F
  na : F
deriving DecidableEq

/-- `SMTVerifierSM`. -/
def smtVerifierSM (is0 fnc levIns : F) (prev : State) : State :=
  let prevTopLevIns := prev.top * levIns
  let prevTopLevInsFnc := prevTopLevIns * fnc
  { top := prev.top - prevTopLevIns
    inew := prevTopLevIns - prevTopLevInsFnc
    iold := prevTopLevInsFnc * (1 - is0)
    i0 := prevTopLevIns * is0
    na := prev.na + prev.inew + prev.iold + prev.i0 }

/-- The states of the levels, given the one before the first. -/
def states (is0 fnc : F) : State → List F → List State
  | _, [] => []
  | prev, levIns :: rest =>
      let st := smtVerifierSM is0 fnc levIns prev
      st :: states is0 fnc st rest

def initial (enabled : F) : State := { top := enabled, i0 := 0, iold := 0, inew := 0, na := 1 - enabled }

variable (P : Poseidon2)

/-- Inputs of a level's `proofHash`. -/
def levelInputs (lrbit child sibling : F) : F × F := switcher lrbit child sibling

/-- `SMTVerifierLevel`. -/
def smtVerifierLevel (st : State) (sibling old1leaf new1leaf lrbit child : F) : F :=
  let inputs := levelInputs lrbit child sibling
  P.compress inputs.1 inputs.2 * st.top + old1leaf * st.iold + new1leaf * st.inew

/-- Signal `root` of the level `i`, given the siblings and states from there on. -/
def levelRoot (old1leaf new1leaf key : F) : ℕ → List (F × State) → F
  | _, [] => 0
  | i, (sibling, st) :: rest =>
      smtVerifierLevel P st sibling old1leaf new1leaf (bitSignal key i)
        (levelRoot old1leaf new1leaf key (i + 1) rest)

/-- The evaluations of the levels' `proofHash` components. -/
def levelQueries (old1leaf new1leaf key : F) : ℕ → List (F × State) → List Query
  | _, [] => []
  | i, (sibling, _) :: rest =>
      let inputs := levelInputs (bitSignal key i)
        (levelRoot P old1leaf new1leaf key (i + 1) rest) sibling
      .compress inputs.1 inputs.2 :: levelQueries old1leaf new1leaf key (i + 1) rest

/-- The inputs of `SMTVerifier(nLevels)`, with `nLevels` siblings. -/
structure Inputs where
  enabled : F
  root : F
  siblings : List F
  oldKey : F
  oldValue : F
  isOld0 : F
  key : F
  value : F
  fnc : F

namespace Inputs

variable (inp : Inputs)

def sm : List State :=
  states inp.isOld0 inp.fnc (initial inp.enabled) (smtLevIns 0 inp.siblings).1

/-- `hash1Old.out`. -/
def hash1Old : F := P.hash2 inp.oldKey inp.oldValue 1

/-- `hash1New.out`. -/
def hash1New : F := P.hash2 inp.key inp.value 1

/-- `levels[0].root`. -/
def computedRoot : F :=
  levelRoot P (inp.hash1Old P) (inp.hash1New P) inp.key 0 (inp.siblings.zip inp.sm)

def queries : List Query :=
  .hash2 inp.oldKey inp.oldValue 1 :: .hash2 inp.key inp.value 1 ::
    levelQueries P (inp.hash1Old P) (inp.hash1New P) inp.key 0 (inp.siblings.zip inp.sm)

/-- The constraints of `SMTVerifier`: the last sibling is zero, the last state is a final one, an
old leaf has another key, and the root is the given one. -/
structure Satisfies : Prop where
  lastSibling : ∀ sibling ∈ inp.siblings.getLast?, (isZero sibling - 1) * inp.enabled = 0
  lastState : ∃ st ∈ inp.sm.getLast?, st.na + st.iold + st.inew + st.i0 = 1
  keysOk : inp.fnc * (1 - inp.isOld0) * isEqual inp.oldKey inp.key * inp.enabled = 0
  checkRoot : forceEqualIfEnabled inp.enabled (inp.computedRoot P) inp.root

end Inputs

/-! ### What the levels compute -/

/-- The siblings above the trailing zeros. -/
def active : List F → List F
  | [] => []
  | s :: rest => if s = 0 ∧ active rest = [] then [] else s :: active rest

/-- Inputs of the hash of a level, `x` on the path of `key`. -/
def pathInputs (key : F) (i : ℕ) (sibling x : F) : F × F :=
  if key.val.testBit i then (sibling, x) else (x, sibling)

/-- Hashing from `x` up along the siblings. -/
def climb (key : F) : ℕ → List F → F → F
  | _, [], x => x
  | i, s :: rest, x =>
      P.compress (pathInputs key i s (climb key (i + 1) rest x)).1
        (pathInputs key i s (climb key (i + 1) rest x)).2

/-- The evaluations of `climb`. -/
def climbQueries (key : F) : ℕ → List F → F → List Query
  | _, [], _ => []
  | i, s :: rest, x =>
      .compress (pathInputs key i s (climb P key (i + 1) rest x)).1
        (pathInputs key i s (climb P key (i + 1) rest x)).2 :: climbQueries key (i + 1) rest x

theorem levelInputs_eq (key : F) (i : ℕ) (child sibling : F) :
    levelInputs (bitSignal key i) child sibling = pathInputs key i sibling child :=
  switcher_bitSignal key i child sibling

theorem active_cons_eq_nil (s : F) (rest : List F) :
    active (s :: rest) = [] ↔ s = 0 ∧ active rest = [] := by
  rw [active]
  split_ifs with h <;> simp [h]

theorem active_append_zeros {sibs : List F} (h : ∀ s ∈ sibs.getLast?, s ≠ 0) (m : ℕ) :
    active (sibs ++ List.replicate m 0) = sibs := by
  induction sibs with
  | nil =>
      induction m with
      | zero => rfl
      | succ m ih =>
          rw [List.nil_append] at ih
          rw [List.nil_append, List.replicate_succ, active, ih, if_pos ⟨rfl, rfl⟩]
  | cons s rest ih =>
      rw [List.cons_append, active]
      cases rest with
      | nil =>
          have hs : s ≠ 0 := h s (by simp)
          rw [if_neg fun hc => hs hc.1, ih (by simp)]
      | cons u rest =>
          rw [List.getLast?_cons_cons] at h
          rw [ih h, if_neg fun hc => by cases hc.2]

theorem active_prefix : ∀ sibs : List F, active sibs <+: sibs
  | [] => List.prefix_rfl
  | s :: rest => by
      rw [active]
      split_ifs
      · exact List.nil_prefix
      · exact List.cons_prefix_cons.mpr ⟨rfl, active_prefix rest⟩

theorem length_active_lt : ∀ {sibs : List F}, sibs.getLast? = some 0 →
    (active sibs).length < sibs.length
  | [], h => by cases h
  | [s], h => by
      rw [List.getLast?_singleton, Option.some.injEq] at h
      simp [active, h]
  | s :: u :: rest, h => by
      rw [List.getLast?_cons_cons] at h
      have ih := length_active_lt h
      rw [active]
      split_ifs
      · exact Nat.succ_pos _
      · exact Nat.succ_lt_succ ih

/-- The signal `levIns` is raised at the level below the last nonzero sibling. -/
theorem smtLevIns_eq : ∀ {sibs : List F} (parentIsZero : F), sibs.getLast? = some 0 →
    (smtLevIns parentIsZero sibs).2 = if active sibs = [] then 1 - parentIsZero else 1
  | [], _, h => by cases h
  | [s], parentIsZero, h => by
      rw [List.getLast?_singleton, Option.some.injEq] at h
      simp [smtLevIns, active, h]
  | s :: u :: rest, parentIsZero, h => by
      rw [List.getLast?_cons_cons] at h
      have ih := smtLevIns_eq (isZero s) h
      rw [smtLevIns, ih, if_congr (active_cons_eq_nil s (u :: rest)) rfl rfl]
      by_cases hrest : active (u :: rest) = []
      · by_cases hs : s = 0 <;> rw [if_pos hrest] <;> simp [hrest, hs, isZero]
      · rw [if_neg hrest, if_neg fun hc => hrest hc.2]
        ring

theorem smtLevIns_cons {s : F} {rest : List F} (parentIsZero : F)
    (h : (s :: rest).getLast? = some 0) :
    (smtLevIns parentIsZero (s :: rest)).1 =
      (if active (s :: rest) = [] then 1 - parentIsZero else 0) ::
        (smtLevIns (isZero s) rest).1 := by
  have hbelow : (smtLevIns (isZero s) rest).2 = if active (s :: rest) = [] then 0 else 1 := by
    cases rest with
    | nil =>
        rw [List.getLast?_singleton, Option.some.injEq] at h
        simp [smtLevIns, active, h]
    | cons u rest =>
        rw [List.getLast?_cons_cons] at h
        rw [smtLevIns_eq _ h, if_congr (active_cons_eq_nil s (u :: rest)) rfl rfl]
        by_cases hrest : active (u :: rest) = []
        · by_cases hs : s = 0 <;> rw [if_pos hrest] <;> simp [hrest, hs, isZero]
        · rw [if_neg hrest, if_neg fun hc => hrest hc.2]
  rw [smtLevIns, hbelow]
  split_ifs <;> simp

/-- The signals that are one in a final state. -/
def State.final (st : State) : F := st.na + st.iold + st.inew + st.i0

theorem top_smtVerifierSM {is0 fnc levIns : F} {prev : State} (h : prev.top = 0) :
    (smtVerifierSM is0 fnc levIns prev).top = 0 := by
  simp [smtVerifierSM, h]

/-- Below the insertion level the state stays final. -/
theorem final_below {is0 fnc : F} : ∀ {levIns : List F} {prev : State}, prev.top = 0 →
    ∀ st ∈ (states is0 fnc prev levIns).getLast?, st.final = prev.final
  | [], _, _, st, hst => by cases hst
  | l :: levIns, prev, h, st, hst => by
      have hfinal : (smtVerifierSM is0 fnc l prev).final = prev.final := by
        simp only [smtVerifierSM, State.final, h]
        ring
      rw [states] at hst
      cases hls : states is0 fnc (smtVerifierSM is0 fnc l prev) levIns with
      | nil =>
          rw [hls, List.getLast?_singleton, Option.mem_some_iff] at hst
          rw [← hst, hfinal]
      | cons x xs =>
          rw [hls, List.getLast?_cons_cons, ← hls] at hst
          exact (final_below (top_smtVerifierSM h) st hst).trans hfinal

/-- **The levels climb the active siblings**, and the last state is final. -/
theorem levels_eq {is0 old1leaf new1leaf key : F} :
    ∀ {sibs : List F} {parentIsZero : F} {i : ℕ}, sibs.getLast? = some 0 →
      parentIsZero = 0 ∨ active sibs ≠ [] →
      levelRoot P old1leaf new1leaf key i
          (sibs.zip (states is0 1 (initial 1) (smtLevIns parentIsZero sibs).1)) =
        climb P key i (active sibs) (old1leaf * (1 - is0)) ∧
      (∃ st ∈ (states is0 1 (initial 1) (smtLevIns parentIsZero sibs).1).getLast?, st.final = 1) ∧
      climbQueries P key i (active sibs) (old1leaf * (1 - is0)) ⊆
        levelQueries P old1leaf new1leaf key i
          (sibs.zip (states is0 1 (initial 1) (smtLevIns parentIsZero sibs).1))
  | [], _, _, h, _ => by cases h
  | s :: rest, parentIsZero, i, h, hp => by
      rw [smtLevIns_cons parentIsZero h, states, List.zip_cons_cons]
      by_cases hact : active (s :: rest) = []
      · -- the insertion level
        have hpz : parentIsZero = 0 := hp.resolve_right fun hne => hne hact
        rw [if_pos hact, hpz, hact]
        have htop : (smtVerifierSM is0 1 (1 - 0) (initial 1)).top = 0 := by
          simp [smtVerifierSM, initial]
        have hfinal : (smtVerifierSM is0 1 (1 - 0) (initial 1)).final = 1 := by
          simp [smtVerifierSM, initial, State.final]
        refine ⟨?_, ?_, by simp [climbQueries]⟩
        · rw [levelRoot, climb]
          simp [smtVerifierLevel, smtVerifierSM, initial]
        · cases hls : states is0 1 (smtVerifierSM is0 1 (1 - 0) (initial 1))
            (smtLevIns (isZero s) rest).1 with
          | nil => exact ⟨_, rfl, hfinal⟩
          | cons x xs =>
              have hlast : (x :: xs).getLast? = some ((x :: xs).getLast (by simp)) :=
                List.getLast?_eq_some_getLast (by simp)
              refine ⟨_, by rw [List.getLast?_cons_cons]; exact hlast, ?_⟩
              rw [← hfinal]
              refine @final_below is0 1 (smtLevIns (isZero s) rest).1 _ htop _ ?_
              rw [hls]
              exact hlast
      · -- above it
        have hrest : rest ≠ [] := by
          rintro rfl
          rw [List.getLast?_singleton, Option.some.injEq] at h
          exact hact (by simp [active, h])
        have hlast : rest.getLast? = some 0 := by
          obtain ⟨u, rest', rfl⟩ := List.exists_cons_of_ne_nil hrest
          rwa [List.getLast?_cons_cons] at h
        have hcons : active (s :: rest) = s :: active rest := by
          rw [active] at hact ⊢
          split_ifs at hact ⊢ with hc
          · exact absurd rfl hact
          · rfl
        have hp' : isZero s = 0 ∨ active rest ≠ [] := by
          by_contra hcon
          rw [not_or, not_not] at hcon
          have hs : s = 0 := by
            by_contra hs
            exact hcon.1 (by simp [isZero, hs])
          exact hact (by rw [active, if_pos ⟨hs, hcon.2⟩])
        obtain ⟨hroot, hfinal, hqueries⟩ := @levels_eq is0 old1leaf new1leaf key _ _ (i + 1)
          hlast hp'
        have hst : smtVerifierSM is0 1 0 (initial 1) = initial 1 := by
          simp [smtVerifierSM, initial]
        rw [if_neg hact, hst, hcons]
        refine ⟨?_, ?_, ?_⟩
        · rw [levelRoot, hroot, climb, smtVerifierLevel, levelInputs_eq]
          simp [initial]
        · obtain ⟨st, hmem, hone⟩ := hfinal
          refine ⟨st, ?_, hone⟩
          cases hls : states is0 1 (initial 1) (smtLevIns (isZero s) rest).1 with
          | nil => rw [hls] at hmem; cases hmem
          | cons x xs => rw [hls] at hmem; rw [List.getLast?_cons_cons]; exact hmem
        · intro q hq
          rw [climbQueries, List.mem_cons] at hq
          rw [levelQueries, List.mem_cons, hroot, levelInputs_eq]
          exact hq.imp_right fun hq => hqueries hq

/-- The inputs of a non-membership query: enabled, `fnc` 1 and a boolean `isOld0`. -/
structure Inputs.Exclusion (inp : Inputs) : Prop where
  enabled : inp.enabled = 1
  fnc : inp.fnc = 1
  isOld0 : inp.isOld0 = 0 ∨ inp.isOld0 = 1

/-- The leaf a query starts from. -/
def Inputs.start (inp : Inputs) : F := inp.hash1Old P * (1 - inp.isOld0)

theorem Inputs.Satisfies.climb_eq {inp : Inputs} (hex : inp.Exclusion) (h : inp.Satisfies P) :
    inp.siblings.getLast? = some 0 ∧ (inp.isOld0 = 0 → inp.oldKey ≠ inp.key) ∧
      climb P inp.key 0 (active inp.siblings) (inp.start P) = inp.root ∧
      climbQueries P inp.key 0 (active inp.siblings) (inp.start P) ⊆ inp.queries P := by
  have hlast : inp.siblings.getLast? = some 0 := by
    cases hs : inp.siblings.getLast? with
    | none =>
        obtain ⟨st, hst, -⟩ := h.lastState
        rw [Inputs.sm, List.getLast?_eq_none_iff.mp hs] at hst
        cases hst
    | some s =>
        have h0 := h.lastSibling s hs
        rw [hex.enabled, mul_one, sub_eq_zero, isZero] at h0
        split_ifs at h0 with hz
        · rw [hz]
        · exact absurd h0 (by decide +kernel)
  obtain ⟨hroot, -, hqueries⟩ := @levels_eq P inp.isOld0 (inp.hash1Old P) (inp.hash1New P)
    inp.key _ _ 0 hlast (Or.inl rfl)
  have hsm : inp.sm = states inp.isOld0 1 (initial 1) (smtLevIns 0 inp.siblings).1 := by
    rw [Inputs.sm, hex.fnc, hex.enabled]
  refine ⟨hlast, ?_, ?_, ?_⟩
  · intro h0 heq
    have hk := h.keysOk
    rw [hex.fnc, hex.enabled, h0, heq, isEqual_eq, if_pos rfl] at hk
    exact absurd hk (by decide +kernel)
  · have hc := forceEqualIfEnabled_iff.mp h.checkRoot
    rw [hex.enabled] at hc
    rw [← hc.resolve_left (by decide +kernel), Inputs.computedRoot, hsm, hroot]
    rfl
  · intro q hq
    rw [Inputs.queries, hsm]
    exact List.mem_cons_of_mem _ (List.mem_cons_of_mem _ (hqueries hq))

theorem Inputs.satisfies_of_climb_eq {inp : Inputs} (hex : inp.Exclusion)
    (hlast : inp.siblings.getLast? = some 0) (hkeys : inp.isOld0 = 0 → inp.oldKey ≠ inp.key)
    (hclimb : climb P inp.key 0 (active inp.siblings) (inp.start P) = inp.root) :
    inp.Satisfies P := by
  have hsm : inp.sm = states inp.isOld0 1 (initial 1) (smtLevIns 0 inp.siblings).1 := by
    rw [Inputs.sm, hex.fnc, hex.enabled]
  obtain ⟨hroot, hfinal, -⟩ := @levels_eq P inp.isOld0 (inp.hash1Old P) (inp.hash1New P)
    inp.key _ _ 0 hlast (Or.inl rfl)
  refine ⟨?_, ?_, ?_, ?_⟩
  · intro s hs
    rw [hlast, Option.mem_some_iff] at hs
    simp [← hs, isZero]
  · rw [hsm]
    exact hfinal
  · rw [hex.fnc, hex.enabled, isEqual_eq]
    rcases hex.isOld0 with h0 | h1
    · rw [if_neg (hkeys h0)]
      ring
    · rw [h1]
      ring
  · rw [forceEqualIfEnabled_iff, ← hclimb, Inputs.computedRoot, hsm, hroot]
    exact Or.inr rfl

end SMTVerifier

end Enclave.Circuits

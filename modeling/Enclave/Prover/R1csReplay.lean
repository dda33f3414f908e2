import Enclave.Prover.R1csCircuit

/-! # The replayed circuit is the parsed R1CS

Allocation keeps one invariant: the variable made for a wire has the wire's value (`Tracks`).  A
combination built over such variables has the value of its terms over the wires, and the system is
satisfied exactly if the constraints of the file hold there (`R1cs.replay`). -/

namespace Enclave.Prover

open Bytes

/-! ### Values -/

namespace ConstraintSystem

variable {cs : ConstraintSystem}

/-- Every value of `cs` is still there. -/
def Extends (cs' cs : ConstraintSystem) : Prop :=
  ∀ v x, cs.assigned v = some x → cs'.assigned v = some x

theorem getElem?_concat_of_some {xs : List F} {i : ℕ} {x y : F} (h : xs[i]? = some x) :
    (xs ++ [y])[i]? = some x := by
  rw [List.getElem?_append_left (List.getElem?_eq_some_iff.mp h).1, h]

theorem extends_newInputVariable (x : F) : (cs.newInputVariable x).2.Extends cs := by
  rintro (_ | i | i) y h
  · exact h
  · exact getElem?_concat_of_some h
  · exact h

theorem extends_newWitnessVariable (x : F) : (cs.newWitnessVariable x).2.Extends cs := by
  rintro (_ | i | i) y h
  · exact h
  · exact h
  · exact getElem?_concat_of_some h

theorem assigned_newInputVariable (x : F) :
    (cs.newInputVariable x).2.assigned (cs.newInputVariable x).1 = some x :=
  List.getElem?_concat_length

theorem assigned_newWitnessVariable (x : F) :
    (cs.newWitnessVariable x).2.assigned (cs.newWitnessVariable x).1 = some x :=
  List.getElem?_concat_length

theorem value_cons {c x y : F} {v : Variable} {lc : Combination} (hv : cs.assigned v = some x)
    (hlc : cs.value lc = some y) : cs.value ((c, v) :: lc) = some (c * x + y) := by
  rw [value, hv, hlc]
  rfl

theorem value_addAssign {c x y : F} {v : Variable} {lc : Combination}
    (hv : cs.assigned v = some x) (hlc : cs.value lc = some y) :
    cs.value (lc.addAssign c v) = some (y + c * x) := by
  induction lc generalizing y with
  | nil =>
      obtain rfl : 0 = y := Option.some.inj hlc
      rw [Combination.addAssign, value_cons hv hlc, add_comm]
  | cons p rest ih =>
      obtain ⟨c', v'⟩ := p
      obtain ⟨x', hv', hlc⟩ := Option.bind_eq_some_iff.mp hlc
      obtain ⟨y', hrest, hlc⟩ := Option.bind_eq_some_iff.mp hlc
      obtain rfl : c' * x' + y' = y := Option.some.inj hlc
      rw [Combination.addAssign]
      split_ifs with h
      · subst h
        obtain rfl := Option.some.inj (hv.symm.trans hv')
        rw [value_cons hv hrest]
        congr 1
        ring
      · rw [value_cons hv' (ih hrest)]
        congr 1
        ring

theorem value_enforce (a b c lc : Combination) : (cs.enforce a b c).value lc = cs.value lc := by
  induction lc with
  | nil => rfl
  | cons p rest ih =>
      rw [value, value, ih]
      rfl

theorem satisfied_enforce {a b c : Combination} {x y z : F} (ha : cs.value a = some x)
    (hb : cs.value b = some y) (hc : cs.value c = some z) :
    (cs.enforce a b c).Satisfied ↔ x * y = z ∧ cs.Satisfied := by
  unfold Satisfied
  simp only [value_enforce]
  rw [enforce, List.forall_mem_append, List.forall_mem_singleton, and_comm]
  refine and_congr_left' ⟨?_, fun h => ⟨x, y, z, ha, hb, hc, h⟩⟩
  rintro ⟨x', y', z', ha', hb', hc', h⟩
  obtain rfl := Option.some.inj (ha.symm.trans ha')
  obtain rfl := Option.some.inj (hb.symm.trans hb')
  obtain rfl := Option.some.inj (hc.symm.trans hc')
  exact h

end ConstraintSystem

open ConstraintSystem

/-! ### Wires -/

/-- The variables of the wires have the wires' values. -/
def Tracks (witness : List F) (vars : List Variable) (cs : ConstraintSystem) : Prop :=
  ∀ (i : ℕ) (v : Variable), vars[i]? = some v → ∃ x, witness[i]? = some x ∧ cs.assigned v = some x

variable {witness : List F} {vars : List Variable} {cs : ConstraintSystem}

theorem Tracks.concat {cs' : ConstraintSystem} {v : Variable} {x : F} (h : Tracks witness vars cs)
    (hext : cs'.Extends cs) (hx : witness[vars.length]? = some x) (hv : cs'.assigned v = some x) :
    Tracks witness (vars ++ [v]) cs' := by
  intro i v' hv'
  obtain hi | hi := Nat.lt_or_ge i vars.length
  · rw [List.getElem?_append_left hi] at hv'
    obtain ⟨x', hx', hassigned⟩ := h i v' hv'
    exact ⟨x', hx', hext v' x' hassigned⟩
  · rw [List.getElem?_append_right hi] at hv'
    obtain ⟨hi', hv'⟩ := List.getElem?_eq_some_iff.mp hv'
    have hlast : i = vars.length := by
      rw [List.length_singleton] at hi'
      omega
    subst hlast
    simp only [Nat.sub_self, List.getElem_cons_zero] at hv'
    exact ⟨x, hx, hv' ▸ hv⟩

theorem allocateInputs_spec {n : ℕ} (h : Tracks witness vars cs)
    (hlen : vars.length + n ≤ witness.length) :
    ∃ vars' cs', allocateInputs witness n vars.length vars cs = .ok (vars', cs') ∧
      Tracks witness vars' cs' ∧ vars'.length = vars.length + n ∧
      cs'.instanceAssignment = cs.instanceAssignment ++ (witness.drop vars.length).take n ∧
      cs'.constraints = cs.constraints := by
  induction n generalizing vars cs with
  | zero => exact ⟨vars, cs, rfl, h, rfl, by rw [List.take_zero, List.append_nil], rfl⟩
  | succ n ih =>
      have hlt : vars.length < witness.length := by omega
      have hx := List.getElem?_eq_getElem hlt
      have hnext := h.concat (extends_newInputVariable _) hx (assigned_newInputVariable _)
      obtain ⟨vars', cs', hok, htracks, hlength, hinstance, hconstraints⟩ := ih hnext (by
        rw [List.length_append, List.length_singleton]
        omega)
      rw [List.length_append, List.length_singleton] at hok hlength hinstance
      refine ⟨vars', cs', ?_, htracks, by omega, ?_, hconstraints⟩
      · rw [allocateInputs, hx]
        exact hok
      · rw [hinstance, List.drop_eq_getElem_cons hlt, List.take_succ_cons]
        exact List.append_assoc _ [_] _

theorem allocateWitnesses_spec {n : ℕ} (h : Tracks witness vars cs)
    (hlen : vars.length + n ≤ witness.length) :
    Tracks witness (allocateWitnesses witness n vars.length vars cs).1
        (allocateWitnesses witness n vars.length vars cs).2 ∧
      (allocateWitnesses witness n vars.length vars cs).1.length = vars.length + n ∧
      (allocateWitnesses witness n vars.length vars cs).2.instanceAssignment =
        cs.instanceAssignment ∧
      (allocateWitnesses witness n vars.length vars cs).2.constraints = cs.constraints := by
  induction n generalizing vars cs with
  | zero => exact ⟨h, rfl, rfl, rfl⟩
  | succ n ih =>
      have hlt : vars.length < witness.length := by omega
      have hx := List.getElem?_eq_getElem hlt
      have hnext := h.concat (extends_newWitnessVariable _) hx (assigned_newWitnessVariable _)
      have hrest := ih hnext (by
        rw [List.length_append, List.length_singleton]
        omega)
      have hstep : allocateWitnesses witness (n + 1) vars.length vars cs = allocateWitnesses witness n
          (vars ++ [(cs.newWitnessVariable witness[vars.length]).1]).length
          (vars ++ [(cs.newWitnessVariable witness[vars.length]).1])
          (cs.newWitnessVariable witness[vars.length]).2 := by
        rw [allocateWitnesses, hx, Option.getD_some, List.length_append, List.length_singleton]
      rw [hstep]
      obtain ⟨htracks, hlength, hinstance, hconstraints⟩ := hrest
      refine ⟨htracks, hlength.trans ?_, hinstance, hconstraints⟩
      rw [List.length_append, List.length_singleton, Nat.add_assoc, Nat.add_comm 1]

/-! ### Constraints -/

/-- The value of a combination over wires. -/
def dot (terms : List Term) (w : ℕ → F) : F :=
  (terms.map fun t => t.coefficient * w t.wireId.toNat).sum

theorem exists_foldlM_terms {w : ℕ → F} {step : Combination → Term → Synthesis Combination}
    (h : Tracks witness vars cs) (hw : ∀ (i : ℕ) x, witness[i]? = some x → w i = x)
    (hstep : ∀ lc t v, vars[t.wireId.toNat]? = some v →
      step lc t = .ok (lc.addAssign t.coefficient v)) (terms : List Term)
    (hterms : ∀ t ∈ terms, t.wireId.toNat < vars.length) (lc : Combination) (y : F)
    (hlc : cs.value lc = some y) :
    ∃ lc', terms.foldlM step lc = .ok lc' ∧ cs.value lc' = some (y + dot terms w) := by
  induction terms generalizing lc y with
  | nil => exact ⟨lc, rfl, by rw [dot, List.map_nil, List.sum_nil, add_zero, hlc]⟩
  | cons t rest ih =>
      rw [List.forall_mem_cons] at hterms
      have hv := List.getElem?_eq_getElem hterms.1
      obtain ⟨x, hx, hassigned⟩ := h _ _ hv
      obtain ⟨lc', hok, hvalue⟩ := ih hterms.2 _ _ (value_addAssign hassigned hlc)
      refine ⟨lc', ?_, ?_⟩
      · rw [List.foldlM_cons, hstep lc t _ hv]
        exact hok
      · rw [hvalue, dot, dot, List.map_cons, List.sum_cons, hw _ _ hx, add_assoc]

theorem buildCombination_spec {w : ℕ → F} {terms : List Term} (h : Tracks witness vars cs)
    (hw : ∀ (i : ℕ) x, witness[i]? = some x → w i = x)
    (hterms : ∀ t ∈ terms, t.wireId.toNat < vars.length) :
    ∃ lc, buildCombination vars terms = .ok lc ∧ cs.value lc = some (dot terms w) := by
  have hsum : ∃ lc, buildCombination vars terms = .ok lc ∧ cs.value lc = some (0 + dot terms w) :=
    exists_foldlM_terms h hw (fun lc t v hv => by rw [hv]) terms hterms [] 0 rfl
  rwa [zero_add] at hsum

/-- The constraint at the values of the wires. -/
def Constraint.HoldsAt (c : Constraint) (w : ℕ → F) : Prop := dot c.a w * dot c.b w = dot c.c w

/-- **Enforcing** asks for the constraints, over the wires. -/
theorem enforceConstraints_spec {w : ℕ → F} {constraints : List Constraint}
    (h : Tracks witness vars cs) (hw : ∀ (i : ℕ) x, witness[i]? = some x → w i = x)
    (hterms : ∀ c ∈ constraints, ∀ t ∈ c.a ++ c.b ++ c.c, t.wireId.toNat < vars.length) :
    ∃ cs', enforceConstraints vars constraints cs = .ok cs' ∧
      cs'.instanceAssignment = cs.instanceAssignment ∧
      (cs'.Satisfied ↔ (∀ c ∈ constraints, c.HoldsAt w) ∧ cs.Satisfied) := by
  induction constraints generalizing cs with
  | nil => exact ⟨cs, rfl, rfl, by simp⟩
  | cons c rest ih =>
      rw [List.forall_mem_cons] at hterms
      obtain ⟨hfirst, hrest⟩ := hterms
      simp only [List.mem_append] at hfirst
      obtain ⟨a, ha, hva⟩ := buildCombination_spec h hw fun t ht => hfirst t (.inl (.inl ht))
      obtain ⟨b, hb, hvb⟩ := buildCombination_spec h hw fun t ht => hfirst t (.inl (.inr ht))
      obtain ⟨c', hc, hvc⟩ := buildCombination_spec h hw fun t ht => hfirst t (.inr ht)
      obtain ⟨cs', hok, hinstance, hsatisfied⟩ := @ih (cs.enforce a b c') h hrest
      refine ⟨cs', ?_, hinstance, ?_⟩
      · rw [enforceConstraints, ha, hb, hc]
        exact hok
      · rw [hsatisfied, satisfied_enforce hva hvb hvc, List.forall_mem_cons]
        unfold Constraint.HoldsAt
        tauto

/-! ### The circuit -/

/-- A witness that the constraints of a file can be replayed over. -/
structure Replayable (r1cs : R1cs) (witness : List F) : Prop where
  one : witness.head? = some 1
  enough : r1cs.numWires.toNat ≤ witness.length
  publicWires : r1cs.numPublic.toNat + 1 ≤ r1cs.numWires.toNat
  wires : ∀ c ∈ r1cs.constraints, ∀ t ∈ c.a ++ c.b ++ c.c, t.wireId.toNat < r1cs.numWires.toNat

variable {target : Target} {r1cs : R1cs}

theorem R1cs.wiresValid_iff : r1cs.wiresValid = true ↔
    ∀ c ∈ r1cs.constraints, ∀ t ∈ c.a ++ c.b ++ c.c, t.wireId.toNat < r1cs.numWires.toNat := by
  simp only [R1cs.wiresValid, List.all_eq_true, decide_eq_true_eq]

/-- The wires' variables, and what allocating them leaves of the system. -/
theorem Replayable.allocate (h : Replayable r1cs witness) :
    ∃ vars cs vars' cs', allocateInputs witness r1cs.numPublic.toNat 1 [.one] .new =
        .ok (vars, cs) ∧
      allocateWitnesses witness (r1cs.numWires.toNat - (r1cs.numPublic.toNat + 1))
        (r1cs.numPublic.toNat + 1) vars cs = (vars', cs') ∧
      Tracks witness vars' cs' ∧ vars'.length = r1cs.numWires.toNat ∧
      cs'.instanceAssignment = 1 :: (witness.drop 1).take r1cs.numPublic.toNat ∧
      cs'.constraints = [] := by
  have henough := h.enough
  have hpublic := h.publicWires
  have hone : Tracks witness [.one] .new := by
    intro i v hv
    obtain ⟨hi, rfl⟩ := List.getElem?_eq_some_iff.mp hv
    obtain rfl : i = 0 := Nat.lt_one_iff.mp hi
    exact ⟨1, by rw [← List.head?_eq_getElem?, h.one], rfl⟩
  obtain ⟨vars, cs, hok, htracks, hlength, hinstance, hconstraints⟩ :=
    @allocateInputs_spec _ _ _ r1cs.numPublic.toNat hone (by
      rw [List.length_singleton]
      omega)
  rw [List.length_singleton, Nat.add_comm] at hlength
  obtain ⟨htracks', hlength', hinstance', hconstraints'⟩ :=
    @allocateWitnesses_spec _ _ _ (r1cs.numWires.toNat - (r1cs.numPublic.toNat + 1)) htracks (by
      rw [hlength]
      omega)
  rw [hlength] at htracks' hlength' hinstance' hconstraints'
  exact ⟨vars, cs, _, _, hok, rfl, htracks', by omega, hinstance'.trans hinstance,
    hconstraints'.trans hconstraints⟩

/-- **Replaying** succeeds on such a witness, and the system it makes asks for the file's
constraints over the wires. -/
theorem Replayable.generateConstraints {w : ℕ → F} (h : Replayable r1cs witness)
    (hw : ∀ (i : ℕ) x, witness[i]? = some x → w i = x) :
    ∃ cs, R1csCircuit.generateConstraints target { r1cs, witness } .new = .ok cs ∧
      (cs.Satisfied ↔ ∀ c ∈ r1cs.constraints, c.HoldsAt w) ∧
      cs.instanceAssignment = 1 :: (witness.drop 1).take r1cs.numPublic.toNat := by
  have henough := h.enough
  have hpublic := h.publicWires
  have hwires := r1cs.numWires.toNat_lt
  obtain ⟨vars, cs, vars', cs', hinputs, hwitnesses, htracks, hlength, hinstance, hnone⟩ :=
    h.allocate
  obtain ⟨cs'', hok, hinstance', hsatisfied⟩ := enforceConstraints_spec htracks hw
    (hlength ▸ h.wires)
  have hempty : cs'.Satisfied := by
    intro p hp
    rw [hnone] at hp
    exact absurd hp List.not_mem_nil
  have husize : ¬ target.usizeMax < r1cs.numPublic.toNat + 1 := by
    cases target <;> simp only [Target.usizeMax] <;> omega
  refine ⟨cs'', ?_, by rw [hsatisfied]; exact and_iff_left hempty, hinstance'.trans hinstance⟩
  unfold R1csCircuit.generateConstraints
  simp only [h.one, hinputs, R1cs.wiresValid_iff.mpr h.wires]
  rw [if_neg (by simp), if_neg (by omega), if_neg (by omega), if_neg (by omega)]
  refine (if_neg husize).trans ?_
  simp only [hwitnesses, if_true]
  exact hok

/-- **Replaying succeeds** only on such a witness. -/
theorem Replayable.of_generateConstraints {cs : ConstraintSystem}
    (h : R1csCircuit.generateConstraints target { r1cs, witness } .new = .ok cs) :
    Replayable r1cs witness := by
  unfold R1csCircuit.generateConstraints at h
  simp only [ne_eq] at h
  have hfail : (do
      let _ ← allocateInputs witness r1cs.numPublic.toNat 1 [.one] .new
      .error (.error .unsatisfiable) : Synthesis ConstraintSystem) ≠ .ok cs := by
    cases allocateInputs witness r1cs.numPublic.toNat 1 [.one] .new <;> exact nofun
  split_ifs at h with hone hlimit hpublic henough _ hwires
  · exact absurd h hfail
  · exact ⟨hone, by omega, by omega, R1cs.wiresValid_iff.mp hwires⟩
  · exact absurd h hfail

/-! ### Witness bytes -/

def wireValue (witnessBytes : List UInt8) (i : ℕ) : F :=
  (leValue ((witnessBytes.drop (fieldSize * i)).take fieldSize) : F)

theorem readWitness_eq (bytes : List UInt8) :
    readWitness bytes = .ok ((List.range (bytes.length / fieldSize)).map (wireValue bytes)) := by
  have hread (l : List ℕ) (h : ∀ i ∈ l, i < bytes.length / fieldSize) :
      (l.map fun i => (bytes.drop (fieldSize * i)).take fieldSize).mapM bytesToScalar =
        .ok (l.map (wireValue bytes)) := by
    induction l with
    | nil => rfl
    | cons i rest ih =>
        rw [List.forall_mem_cons] at h
        have hlength : ((bytes.drop (fieldSize * i)).take fieldSize).length = fieldSize := by
          have hi := h.1
          rw [List.length_take, List.length_drop]
          unfold fieldSize at hi ⊢
          omega
        rw [List.map_cons, List.mapM_cons, bytesToScalar_of_length hlength, ih h.2]
        rfl
  exact hread _ fun i hi => List.mem_range.mp hi

theorem take_drop_range {m n : ℕ} (h : n + 1 ≤ m) :
    ((List.range m).drop 1).take n = (List.range n).map (· + 1) := by
  refine List.ext_getElem ?_ fun i h₁ h₂ => ?_
  · rw [List.length_take, List.length_drop, List.length_map, List.length_range, List.length_range]
    omega
  · rw [List.getElem_take, List.getElem_drop, List.getElem_map, List.getElem_range,
      List.getElem_range, Nat.add_comm]

theorem wireValue_take_drop {bytes : List UInt8} {i n : ℕ} (h : i < n) :
    wireValue ((bytes.drop fieldSize).take (n * fieldSize)) i = wireValue bytes (i + 1) := by
  have hle : fieldSize ≤ n * fieldSize - fieldSize * i := by
    unfold fieldSize
    omega
  rw [wireValue, wireValue, List.drop_take, List.take_take, min_eq_left hle, List.drop_drop,
    Nat.mul_succ, Nat.add_comm]

theorem R1cs.extractPublicInputs_eq (r1cs : R1cs) {bytes : List UInt8}
    (hchunks : bytes.length % fieldSize = 0)
    (hcap : bytes.length ≤ target.usizeMax)
    (henough : r1cs.numPublic.toNat + 1 ≤ bytes.length / fieldSize) :
    ∃ publicBytes, r1cs.extractPublicInputs target bytes = .ok publicBytes ∧
      readWitness publicBytes =
        .ok ((List.range r1cs.numPublic.toNat).map fun i => wireValue bytes (i + 1)) := by
  have hstop : fieldSize + r1cs.numPublic.toNat * fieldSize ≤ bytes.length := by
    unfold fieldSize at henough ⊢
    omega
  refine ⟨(bytes.drop fieldSize).take (r1cs.numPublic.toNat * fieldSize), ?_, ?_⟩
  · unfold R1cs.extractPublicInputs
    simp only []
    rw [if_neg (not_not.mpr hchunks), if_neg (by omega), if_neg (by omega), if_neg (by omega)]
  · have hlength : ((bytes.drop fieldSize).take (r1cs.numPublic.toNat * fieldSize)).length /
        fieldSize = r1cs.numPublic.toNat := by
      rw [List.length_take, List.length_drop, min_eq_left (by omega)]
      exact Nat.mul_div_cancel _ (by decide)
    rw [readWitness_eq, hlength]
    congr 1
    exact List.map_congr_left fun i hi => wireValue_take_drop (List.mem_range.mp hi)

/-- **The replayed circuit is the parsed R1CS.**  Replaying succeeds exactly if the first chunk is
one, the wires are there, the public ones among them, and every term names one; then the system asks
for the file's constraints over the chunks, and its instance is what `extract_public_inputs` cuts
out. -/
theorem R1cs.replay (target : Target) (r1cs : R1cs) (witnessBytes : List UInt8)
    (hchunks : witnessBytes.length % fieldSize = 0) (hcap : witnessBytes.length ≤ target.usizeMax) :
    ∃ witness, readWitness witnessBytes = .ok witness ∧
      ((∃ cs, R1csCircuit.generateConstraints target { r1cs, witness } .new = .ok cs) ↔
        wireValue witnessBytes 0 = 1 ∧
          r1cs.numWires.toNat ≤ witnessBytes.length / fieldSize ∧
          r1cs.numPublic.toNat + 1 ≤ r1cs.numWires.toNat ∧
          ∀ c ∈ r1cs.constraints, ∀ t ∈ c.a ++ c.b ++ c.c,
            t.wireId.toNat < r1cs.numWires.toNat) ∧
      ∀ cs, R1csCircuit.generateConstraints target { r1cs, witness } .new = .ok cs →
        (cs.Satisfied ↔ ∀ c ∈ r1cs.constraints, c.HoldsAt (wireValue witnessBytes)) ∧
        ∃ publicBytes values, r1cs.extractPublicInputs target witnessBytes = .ok publicBytes ∧
          readWitness publicBytes = .ok values ∧ cs.instanceAssignment = 1 :: values := by
  have hlength : ((List.range (witnessBytes.length / fieldSize)).map
      (wireValue witnessBytes)).length = witnessBytes.length / fieldSize := by
    rw [List.length_map, List.length_range]
  have hw (i : ℕ) (x : F) (h : ((List.range (witnessBytes.length / fieldSize)).map
      (wireValue witnessBytes))[i]? = some x) : wireValue witnessBytes i = x := by
    obtain ⟨hi, rfl⟩ := List.getElem?_eq_some_iff.mp h
    rw [List.getElem_map, List.getElem_range]
  refine ⟨_, readWitness_eq witnessBytes, ⟨?_, ?_⟩, fun cs hcs => ?_⟩
  · rintro ⟨cs, hcs⟩
    have h := Replayable.of_generateConstraints hcs
    refine ⟨hw 0 1 (List.head?_eq_getElem?.symm.trans h.one), ?_, h.publicWires, h.wires⟩
    exact hlength ▸ h.enough
  · rintro ⟨hone, henough, hpublic, hwires⟩
    have h : Replayable r1cs ((List.range (witnessBytes.length / fieldSize)).map
        (wireValue witnessBytes)) := by
      refine ⟨?_, hlength.symm ▸ henough, hpublic, hwires⟩
      rw [List.head?_eq_getElem?, List.getElem?_map, List.getElem?_range (by omega), Option.map_some,
        hone]
    obtain ⟨cs, hcs, -⟩ := h.generateConstraints hw
    exact ⟨cs, hcs⟩
  · have h := Replayable.of_generateConstraints hcs
    have henough := h.enough
    have hpublic := h.publicWires
    rw [hlength] at henough
    obtain ⟨cs', hcs', hsatisfied, hinstance⟩ := h.generateConstraints hw
    obtain rfl := Except.ok.inj (hcs.symm.trans hcs')
    obtain ⟨publicBytes, hextract, hread⟩ :=
      R1cs.extractPublicInputs_eq r1cs hchunks hcap (by omega)
    refine ⟨hsatisfied, publicBytes, _, hextract, hread, ?_⟩
    rw [hinstance, ← List.map_drop, ← List.map_take, take_drop_range (hpublic.trans henough),
      List.map_map]
    rfl

/-- One public wire, one private: the public one is the private one's square. -/
def squareR1cs : R1cs where
  numWires := 3
  numPubOut := 1
  numPubIn := 0
  numPrvIn := 1
  numPublic := 1
  constraints := [{ a := [⟨2, 1⟩], b := [⟨2, 1⟩], c := [⟨1, 1⟩] }]

/-- One, nine and three. -/
def squareWitness : List UInt8 := leBytes 32 1 ++ leBytes 32 9 ++ leBytes 32 3

theorem R1cs.replay_squareWitness : ∃ witness cs, readWitness squareWitness = .ok witness ∧
    R1csCircuit.generateConstraints .wasm32 { r1cs := squareR1cs, witness } .new = .ok cs ∧
    cs.Satisfied := by
  obtain ⟨witness, hread, hiff, hok⟩ :=
    R1cs.replay .wasm32 squareR1cs squareWitness (by decide) (by decide)
  obtain ⟨cs, hcs⟩ := hiff.mpr ⟨by decide +kernel, by decide, by decide, by decide⟩
  refine ⟨witness, cs, hread, hcs, (hok cs hcs).1.mpr ?_⟩
  rw [squareR1cs, List.forall_mem_singleton]
  unfold Constraint.HoldsAt
  decide +kernel

end Enclave.Prover

import Enclave.Prover.R1cs

/-! # Replaying an R1CS

`R1CSCircuit` of the wasm prover crate: the constraints of a parsed file, replayed over a witness in
a constraint system of the proving library, and the public inputs cut out of the same witness.

The library's system is its assignments and its constraints; a linear combination is a formal sum
of variables, in which a variable added twice has the sum of its coefficients. -/

namespace Enclave.Prover

open Bytes

/-! ### The constraint system -/

/-- Variables of a constraint system. -/
inductive Variable where
  | one
  | instanceAt (index : ℕ)
  | witnessAt (index : ℕ)
deriving DecidableEq

/-- `LinearCombination` of the library. -/
abbrev Combination := List (F × Variable)

/-- `add_assign` of a coefficient and a variable. -/
def Combination.addAssign (coefficient : F) (v : Variable) : Combination → Combination
  | [] => [(coefficient, v)]
  | (c, v') :: rest =>
      if v' = v then (c + coefficient, v') :: rest
      else (c, v') :: addAssign coefficient v rest

/-- A constraint system with its assignments. -/
structure ConstraintSystem where
  instanceAssignment : List F
  witnessAssignment : List F
  constraints : List (Combination × Combination × Combination)

namespace ConstraintSystem

/-- `ConstraintSystem::new`: the first instance variable is the constant. -/
def new : ConstraintSystem where
  instanceAssignment := [1]
  witnessAssignment := []
  constraints := []

variable (cs : ConstraintSystem)

/-- `new_input_variable`. -/
def newInputVariable (value : F) : Variable × ConstraintSystem :=
  (.instanceAt cs.instanceAssignment.length,
    { cs with instanceAssignment := cs.instanceAssignment ++ [value] })

/-- `new_witness_variable`. -/
def newWitnessVariable (value : F) : Variable × ConstraintSystem :=
  (.witnessAt cs.witnessAssignment.length,
    { cs with witnessAssignment := cs.witnessAssignment ++ [value] })

/-- `enforce_r1cs_constraint`. -/
def enforce (a b c : Combination) : ConstraintSystem :=
  { cs with constraints := cs.constraints ++ [(a, b, c)] }

def assigned : Variable → Option F
  | .one => some 1
  | .instanceAt i => cs.instanceAssignment[i]?
  | .witnessAt i => cs.witnessAssignment[i]?

/-- The value of a linear combination. -/
def value : Combination → Option F
  | [] => some 0
  | (coefficient, v) :: rest => do
      let x ← cs.assigned v
      let y ← value rest
      return coefficient * x + y

/-- `is_satisfied`. -/
def Satisfied : Prop :=
  ∀ p ∈ cs.constraints, ∃ x y z, cs.value p.1 = some x ∧ cs.value p.2.1 = some y ∧
    cs.value p.2.2 = some z ∧ x * y = z

end ConstraintSystem

/-! ### The circuit -/

/-- `SynthesisError`, as far as the circuit raises it. -/
inductive SynthesisError where
  | unsatisfiable
deriving DecidableEq

/-- Results of synthesis. -/
abbrev Synthesis (α : Type) := Except (Fault SynthesisError) α

/-- `R1CSCircuit`. -/
structure R1csCircuit where
  r1cs : R1cs
  witness : List F

/-- `n` instance variables for the wires from `i` on. -/
def allocateInputs (witness : List F) :
    ℕ → ℕ → List Variable → ConstraintSystem → Synthesis (List Variable × ConstraintSystem)
  | 0, _, vars, cs => .ok (vars, cs)
  | n + 1, i, vars, cs =>
      match witness[i]? with
      | none => .error (.error .unsatisfiable)
      | some value =>
          let (var, cs) := cs.newInputVariable value
          allocateInputs witness n (i + 1) (vars ++ [var]) cs

/-- `n` witness variables for the wires from `i` on. -/
def allocateWitnesses (witness : List F) :
    ℕ → ℕ → List Variable → ConstraintSystem → List Variable × ConstraintSystem
  | 0, _, vars, cs => (vars, cs)
  | n + 1, i, vars, cs =>
      let (var, cs) := cs.newWitnessVariable (witness[i]?.getD 0)
      allocateWitnesses witness n (i + 1) (vars ++ [var]) cs

/-- The closure of a linear combination. -/
def buildCombination (vars : List Variable) (terms : List Term) : Synthesis Combination :=
  terms.foldlM (fun lc t =>
    match vars[t.wireId.toNat]? with
    | some v => .ok (lc.addAssign t.coefficient v)
    | none => .error (.panic "index out of bounds")) []

/-- Enforce the constraints. -/
def enforceConstraints (vars : List Variable) :
    List Constraint → ConstraintSystem → Synthesis ConstraintSystem
  | [], cs => .ok cs
  | constraint :: rest, cs => do
      let a ← buildCombination vars constraint.a
      let b ← buildCombination vars constraint.b
      let c ← buildCombination vars constraint.c
      enforceConstraints vars rest (cs.enforce a b c)

/-- Validate wire ids. -/
def R1cs.wiresValid (r1cs : R1cs) : Bool :=
  r1cs.constraints.all fun constraint =>
    (constraint.a ++ constraint.b ++ constraint.c).all fun t =>
      t.wireId.toNat < r1cs.numWires.toNat

/-- `generate_constraints`. -/
def R1csCircuit.generateConstraints (target : Target) (circuit : R1csCircuit)
    (cs : ConstraintSystem) : Synthesis ConstraintSystem :=
  let numPublic := circuit.r1cs.numPublic.toNat
  let numWires := circuit.r1cs.numWires.toNat
  if circuit.witness.head? ≠ some 1 then .error (.error .unsatisfiable)
  else if 2 ^ 32 ≤ numPublic + 1 then
    .error (.panic "R1CS num of public inputs addition failed")
  else if numWires < numPublic + 1 then .error (.error .unsatisfiable)
  else if circuit.witness.length < numWires then .error (.error .unsatisfiable)
  else do
    let (vars, cs) ← allocateInputs circuit.witness numPublic 1 [.one] cs
    if target.usizeMax < numPublic + 1 then .error (.error .unsatisfiable)
    else
      let (vars, cs) := allocateWitnesses circuit.witness (numWires - (numPublic + 1))
        (numPublic + 1) vars cs
      if circuit.r1cs.wiresValid then enforceConstraints vars circuit.r1cs.constraints cs
      else .error (.error .unsatisfiable)

/-! ### Witness bytes -/

/-- `chunks_exact`. -/
def chunksExact (n : ℕ) (bytes : List UInt8) : List (List UInt8) :=
  (List.range (bytes.length / n)).map fun i => (bytes.drop (n * i)).take n

/-- Parse witness elements. -/
def readWitness (witnessBytes : List UInt8) : Result (List F) :=
  (chunksExact fieldSize witnessBytes).mapM bytesToScalar

/-- The circuit that `prove` and `prove_bytes_uncompressed` synthesise. -/
def R1cs.circuit (r1cs : R1cs) (witnessBytes : List UInt8) : Result R1csCircuit :=
  if witnessBytes.length % fieldSize ≠ 0 then
    .error (.error
      s!"Invalid witness size: {witnessBytes.length} bytes (not multiple of {fieldSize})")
  else if witnessBytes.length / fieldSize < r1cs.numWires.toNat then
    .error (.error (s!"Witness too short: {witnessBytes.length / fieldSize} elements, " ++
      s!"circuit needs {r1cs.numWires} wires"))
  else do return { r1cs, witness := ← readWitness witnessBytes }

/-- `extract_public_inputs`. -/
def R1cs.extractPublicInputs (target : Target) (r1cs : R1cs) (witnessBytes : List UInt8) :
    Result (List UInt8) :=
  let publicSize := r1cs.numPublic.toNat * fieldSize
  let stop := fieldSize + publicSize
  if witnessBytes.length % fieldSize ≠ 0 then .error (.error "Invalid witness size")
  else if target.usizeMax < publicSize then
    .error (.error "Overflow calculating public inputs size")
  else if target.usizeMax < stop then .error (.error "Overflow calculating end offset")
  else if witnessBytes.length < stop then
    .error (.error (s!"Witness too short: expected at least {stop} bytes " ++
      s!"for {r1cs.numPublic.toNat} public inputs"))
  else .ok ((witnessBytes.drop fieldSize).take publicSize)

end Enclave.Prover

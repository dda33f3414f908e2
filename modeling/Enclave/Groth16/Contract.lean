import Enclave.Lib.Groth16
import Enclave.Groth16.Points
import Enclave.Pool.Acceptance
import Enclave.Pool.DoubleSpend

/-! # The verifier contract

`circom-groth16-verifier`, over the host's functions of the curve.  The loop adds up the input sum,
and the pairing check is the verification equation: `verify_apply` says what comes of every call
with points of the curve.  A public input counts as its residue only (`verify_congr`). -/

namespace Enclave.Groth16

/-- `Groth16Error`. -/
inductive Groth16Error where
  | invalidProof
  | malformedPublicInputs
  | malformedProof
  | notInitialized
deriving DecidableEq, Repr

/-- `VerificationKeyBytes`. -/
structure VerificationKeyBytes where
  alpha : List UInt8
  beta : List UInt8
  gamma : List UInt8
  delta : List UInt8
  ic : List (List UInt8)
deriving DecidableEq

/-- The contract's storage. -/
structure Store where
  verificationKey : Option VerificationKeyBytes

abbrev Call (α : Type) := Host Store Groth16Error α

/-! ### The host -/

variable {G₁ G₂ T : Type} [AddCommGroup G₁] [Module F G₁] [AddCommGroup G₂] [Module F G₂]
  [AddCommGroup T] [Module F T]

/-- BN254: its groups by coordinates, its pairing, and the SDK's negation of a point's bytes. -/
structure Curve (G₁ G₂ T : Type) [AddCommGroup G₁] [Module F G₁] [AddCommGroup G₂] [Module F G₂]
    [AddCommGroup T] [Module F T] where
  point1 : G1Affine → Option G₁
  affine1 : G₁ → G1Affine
  point2 : G2Affine → Option G₂
  affine2 : G₂ → G2Affine
  pairing : G₁ →ₗ[F] G₂ →ₗ[F] T
  negBytes : List UInt8 → Option (List UInt8)
  point1_eq_some_iff : ∀ c p, point1 c = some p ↔ c = affine1 p
  point2_eq_some_iff : ∀ c p, point2 c = some p ↔ c = affine2 p
  affine1_neg : ∀ p, affine1 (-p) = ⟨(affine1 p).x, -(affine1 p).y⟩
  negBytes_apply : ∀ c, negBytes (g1BytesFromArk c) = some (g1BytesFromArk ⟨c.x, -c.y⟩)

namespace Curve

variable (C : Curve G₁ G₂ T)

def bytes1 (p : G₁) : List UInt8 := g1BytesFromArk (C.affine1 p)

def bytes2 (p : G₂) : List UInt8 := g2BytesFromArk (C.affine2 p)

def read1 (bytes : List UInt8) : Option G₁ := (readG1 bytes).bind C.point1

def read2 (bytes : List UInt8) : Option G₂ := (readG2 bytes).bind C.point2

/-- `bn254_g1_mul`. -/
def g1Mul (bytes : List UInt8) (scalar : U256) : Option (List UInt8) := do
  let p ← C.read1 bytes
  return C.bytes1 ((scalar : F) • p)

/-- `bn254_g1_add`. -/
def g1Add (left right : List UInt8) : Option (List UInt8) := do
  let p ← C.read1 left
  let q ← C.read1 right
  return C.bytes1 (p + q)

/-- `bn254_multi_pairing_check`. -/
def pairingCheck [DecidableEq T] (vp1 vp2 : List (List UInt8)) : Option Bool :=
  if vp1.length ≠ vp2.length ∨ vp1 = [] then none
  else do
    let ps ← vp1.mapM C.read1
    let qs ← vp2.mapM C.read2
    return decide ((ps.zipWith (fun p q => C.pairing p q) qs).sum = 0)

theorem read1_eq_some_iff {bytes : List UInt8} {p : G₁} :
    C.read1 bytes = some p ↔ bytes = C.bytes1 p := by
  rw [read1, Option.bind_eq_some_iff, bytes1]
  constructor
  · rintro ⟨c, hread, hpoint⟩
    rw [readG1_eq_some_iff.mp hread, (C.point1_eq_some_iff c p).mp hpoint]
  · intro h
    exact ⟨_, readG1_eq_some_iff.mpr h, (C.point1_eq_some_iff _ p).mpr rfl⟩

theorem read2_eq_some_iff {bytes : List UInt8} {p : G₂} :
    C.read2 bytes = some p ↔ bytes = C.bytes2 p := by
  rw [read2, Option.bind_eq_some_iff, bytes2]
  constructor
  · rintro ⟨c, hread, hpoint⟩
    rw [readG2_eq_some_iff.mp hread, (C.point2_eq_some_iff c p).mp hpoint]
  · intro h
    exact ⟨_, readG2_eq_some_iff.mpr h, (C.point2_eq_some_iff _ p).mpr rfl⟩

@[simp] theorem read1_bytes1 (p : G₁) : C.read1 (C.bytes1 p) = some p :=
  C.read1_eq_some_iff.mpr rfl

@[simp] theorem read2_bytes2 (p : G₂) : C.read2 (C.bytes2 p) = some p :=
  C.read2_eq_some_iff.mpr rfl

theorem negBytes_bytes1 (p : G₁) : C.negBytes (C.bytes1 p) = some (C.bytes1 (-p)) := by
  rw [bytes1, C.negBytes_apply, bytes1, C.affine1_neg]

theorem g1Mul_bytes1 (p : G₁) (scalar : U256) :
    C.g1Mul (C.bytes1 p) scalar = some (C.bytes1 ((scalar : F) • p)) := by
  rw [g1Mul, read1_bytes1]
  rfl

theorem g1Add_bytes1 (p q : G₁) :
    C.g1Add (C.bytes1 p) (C.bytes1 q) = some (C.bytes1 (p + q)) := by
  rw [g1Add, read1_bytes1, read1_bytes1]
  rfl

theorem pairingCheck_bytes [DecidableEq T] (p₁ p₂ p₃ p₄ : G₁) (q₁ q₂ q₃ q₄ : G₂) :
    C.pairingCheck [C.bytes1 p₁, C.bytes1 p₂, C.bytes1 p₃, C.bytes1 p₄]
        [C.bytes2 q₁, C.bytes2 q₂, C.bytes2 q₃, C.bytes2 q₄] =
      some (decide (C.pairing p₁ q₁ + C.pairing p₂ q₂ + C.pairing p₃ q₃ + C.pairing p₄ q₄ = 0)) := by
  simp [pairingCheck, add_assoc]

def readKey (vk : VerificationKeyBytes) : Option (VerifyingKey G₁ G₂) := do
  let alpha ← C.read1 vk.alpha
  let beta ← C.read2 vk.beta
  let gamma ← C.read2 vk.gamma
  let delta ← C.read2 vk.delta
  let ic ← vk.ic.mapM C.read1
  return ⟨alpha, beta, gamma, delta, ic⟩

def readProof (proof : Pool.Groth16Proof) : Option (Proof G₁ G₂) := do
  let a ← C.read1 proof.a
  let b ← C.read2 proof.b
  let c ← C.read1 proof.c
  return ⟨a, b, c⟩

def writeKey (key : VerifyingKey G₁ G₂) : VerificationKeyBytes where
  alpha := C.bytes1 key.alpha
  beta := C.bytes2 key.beta
  gamma := C.bytes2 key.gamma
  delta := C.bytes2 key.delta
  ic := key.ic.map C.bytes1

def writeProof (π : Proof G₁ G₂) : Pool.Groth16Proof where
  a := C.bytes1 π.a
  b := C.bytes2 π.b
  c := C.bytes1 π.c

variable {C}

theorem mapM_read1_eq_some : ∀ {ic : List (List UInt8)} {ps : List G₁},
    ic.mapM C.read1 = some ps → ic = ps.map C.bytes1
  | [], ps, h => by
      cases h
      rfl
  | bytes :: rest, ps, h => by
      rw [List.mapM_cons] at h
      obtain ⟨p, hp, h⟩ := Option.bind_eq_some_iff.mp h
      obtain ⟨ps, hps, h⟩ := Option.bind_eq_some_iff.mp h
      cases h
      rw [List.map_cons, C.read1_eq_some_iff.mp hp, mapM_read1_eq_some hps]

theorem mapM_read1_map (ps : List G₁) : (ps.map C.bytes1).mapM C.read1 = some ps := by
  induction ps with
  | nil => rfl
  | cons p ps ih =>
      rw [List.map_cons, List.mapM_cons, read1_bytes1, ih]
      rfl

theorem readKey_eq_some_iff {vk : VerificationKeyBytes} {key : VerifyingKey G₁ G₂} :
    C.readKey vk = some key ↔ vk = C.writeKey key := by
  constructor
  · intro h
    obtain ⟨alpha, halpha, h⟩ := Option.bind_eq_some_iff.mp h
    obtain ⟨beta, hbeta, h⟩ := Option.bind_eq_some_iff.mp h
    obtain ⟨gamma, hgamma, h⟩ := Option.bind_eq_some_iff.mp h
    obtain ⟨delta, hdelta, h⟩ := Option.bind_eq_some_iff.mp h
    obtain ⟨ic, hic, h⟩ := Option.bind_eq_some_iff.mp h
    cases h
    rw [writeKey, ← C.read1_eq_some_iff.mp halpha, ← C.read2_eq_some_iff.mp hbeta,
      ← C.read2_eq_some_iff.mp hgamma, ← C.read2_eq_some_iff.mp hdelta,
      ← mapM_read1_eq_some hic]
  · rintro rfl
    simp only [readKey, writeKey, read1_bytes1, read2_bytes2, mapM_read1_map]
    rfl

theorem readProof_eq_some_iff {proof : Pool.Groth16Proof} {π : Proof G₁ G₂} :
    C.readProof proof = some π ↔ proof = C.writeProof π := by
  constructor
  · intro h
    obtain ⟨a, ha, h⟩ := Option.bind_eq_some_iff.mp h
    obtain ⟨b, hb, h⟩ := Option.bind_eq_some_iff.mp h
    obtain ⟨c, hc, h⟩ := Option.bind_eq_some_iff.mp h
    cases h
    rw [writeProof, ← C.read1_eq_some_iff.mp ha, ← C.read2_eq_some_iff.mp hb,
      ← C.read1_eq_some_iff.mp hc]
  · rintro rfl
    simp only [readProof, writeProof, read1_bytes1, read2_bytes2]
    rfl

@[simp] theorem readKey_writeKey (key : VerifyingKey G₁ G₂) :
    C.readKey (C.writeKey key) = some key := readKey_eq_some_iff.mpr rfl

@[simp] theorem readProof_writeProof (π : Proof G₁ G₂) :
    C.readProof (C.writeProof π) = some π := readProof_eq_some_iff.mpr rfl

end Curve

/-! ### The contract -/

section contract

variable (C : Curve G₁ G₂ T) [DecidableEq T]

/-- A host function traps. -/
def orTrap {α : Type} : Option α → Call α
  | some a => pure a
  | none => Host.panic "host"

/-- `__constructor`. -/
def constructor (vk : VerificationKeyBytes) : Call Unit :=
  Host.modifyStore fun _ => ⟨some vk⟩

/-- One pass of the loop in `verify_with_vk`. -/
def addInput (ic : List (List UInt8)) (pubInputs : List U256) (vkX : List UInt8) (i : ℕ) :
    Call (List UInt8) := do
  let s ← Host.unwrap pubInputs[i]?
  let v ← Host.unwrap ic[i + 1]?
  let prod ← orTrap (C.g1Mul v s)
  orTrap (C.g1Add vkX prod)

/-- `verify_with_vk`. -/
def verifyWithVk (vk : VerificationKeyBytes) (proof : Pool.Groth16Proof) (pubInputs : List U256) :
    Call Bool := do
  if pubInputs.length + 1 ≠ vk.ic.length then Host.fail .malformedPublicInputs
  else do
    let vkX ← Host.okOr .malformedPublicInputs vk.ic[0]?
    let vkX ← (List.range pubInputs.length).foldlM (addInput C vk.ic pubInputs) vkX
    let negA ← orTrap (C.negBytes proof.a)
    let accepted ← orTrap (C.pairingCheck [negA, vk.alpha, vkX, proof.c]
      [proof.b, vk.beta, vk.gamma, vk.delta])
    if accepted then return true
    else Host.fail .invalidProof

/-- `verify`. -/
def verify (proof : Pool.Groth16Proof) (publicInputs : List U256) : Call Bool := do
  let vk ← Host.okOr .notInitialized (← Host.getStore).verificationKey
  verifyWithVk C vk proof publicInputs

end contract

/-! ### What comes of a call -/

section results

variable {C : Curve G₁ G₂ T} {env : Env Store}

theorem orTrap_some {α : Type} (a : α) : (orTrap (some a) : Call α) env = .ok (a, env) := rfl

theorem addInput_apply {ps : List G₁} {pubInputs : List U256} {i : ℕ} {s : U256} {p : G₁}
    (hs : pubInputs[i]? = some s) (hp : ps[i + 1]? = some p) (q : G₁) :
    addInput C (ps.map C.bytes1) pubInputs (C.bytes1 q) i env =
      .ok (C.bytes1 (q + (s : F) • p), env) := by
  have hv : (ps.map C.bytes1)[i + 1]? = some (C.bytes1 p) := by
    rw [List.getElem?_map, hp]
    rfl
  rw [addInput, hs, hv, Host.bind_of_ok rfl, Host.bind_of_ok rfl, C.g1Mul_bytes1,
    Host.bind_of_ok (orTrap_some _), C.g1Add_bytes1, orTrap_some]

/-- **The loop adds up the input sum.** -/
theorem foldlM_addInput {p₀ : G₁} {ps : List G₁} {pubInputs : List U256} :
    ∀ n, n ≤ pubInputs.length → n ≤ ps.length →
      (List.range n).foldlM (addInput C ((p₀ :: ps).map C.bytes1) pubInputs) (C.bytes1 p₀) env =
        .ok (C.bytes1 (inputSum (p₀ :: ps) (pubInputs.map (Nat.cast : ℕ → F)) (n + 1)), env)
  | 0, _, _ => by
      rw [inputSum_one]
      rfl
  | n + 1, hn, hps => by
      have hs : pubInputs[n]? = some pubInputs[n] := List.getElem?_eq_getElem hn
      have hp : (p₀ :: ps)[n + 1]? = some ps[n] := List.getElem?_eq_getElem hps
      have hs' : (pubInputs.map (Nat.cast : ℕ → F))[n]? = some (pubInputs[n] : F) := by
        rw [List.getElem?_map, hs]
        rfl
      rw [List.range_succ, List.foldlM_append,
        Host.bind_of_ok (foldlM_addInput n (by omega) (by omega)), List.foldlM_cons,
        Host.bind_of_ok (addInput_apply hs hp _), inputSum_succ hs' hp]
      rfl

theorem addInput_congr {ic : List (List UInt8)} {xs ys : List U256}
    (h : xs.map (Nat.cast : ℕ → F) = ys.map (Nat.cast : ℕ → F)) (vkX : List UInt8) (i : ℕ) :
    addInput C ic xs vkX i = addInput C ic ys vkX i := by
  have hi := congrArg (fun l => l[i]?) h
  simp only [List.getElem?_map] at hi
  unfold addInput
  cases hx : xs[i]? with
  | none =>
      rw [hx, Option.map_none, eq_comm, Option.map_eq_none_iff] at hi
      rw [hi]
  | some x =>
      rw [hx, Option.map_some, eq_comm, Option.map_eq_some_iff] at hi
      obtain ⟨y, hy, heq⟩ := hi
      have hmul : ∀ v, C.g1Mul v x = C.g1Mul v y := fun v => by
        rw [Curve.g1Mul, Curve.g1Mul, heq]
      rw [hy, Host.unwrap, Host.unwrap, pure_bind, pure_bind]
      simp only [hmul]

variable [DecidableEq T]

/-- **What comes of a call** with a key and a proof of points: the equation decides, once there are
as many inputs as the key takes. -/
theorem verify_apply {vk : VerificationKeyBytes} (hvk : env.store.verificationKey = some vk)
    {key : VerifyingKey G₁ G₂} (hkey : C.readKey vk = some key) {proof : Pool.Groth16Proof}
    {π : Proof G₁ G₂} (hproof : C.readProof proof = some π) (publicInputs : List U256) :
    verify C proof publicInputs env =
      if publicInputs.length + 1 ≠ key.ic.length then .error (.error .malformedPublicInputs)
      else if C.pairing π.a π.b = C.pairing key.alpha key.beta + C.pairing
          (inputSum key.ic (publicInputs.map (Nat.cast : ℕ → F)) key.ic.length) key.gamma +
            C.pairing π.c key.delta then .ok (true, env)
      else .error (.error .invalidProof) := by
  obtain rfl := Curve.readKey_eq_some_iff.mp hkey
  obtain rfl := Curve.readProof_eq_some_iff.mp hproof
  rw [verify, Host.bind_of_ok (Host.getStore_apply env), hvk, Host.bind_of_ok rfl, verifyWithVk,
    Curve.writeKey, Curve.writeProof, List.length_map]
  by_cases hlen : publicInputs.length + 1 ≠ key.ic.length
  · rw [if_pos hlen, if_pos hlen]
    rfl
  · rw [if_neg hlen, if_neg hlen]
    rw [not_not] at hlen
    obtain ⟨p₀, ps, hic⟩ : ∃ p₀ ps, key.ic = p₀ :: ps := by
      cases hic : key.ic with
      | nil =>
          rw [hic] at hlen
          cases hlen
      | cons p₀ ps => exact ⟨p₀, ps, rfl⟩
    rw [hic, List.length_cons, Nat.succ_inj] at hlen
    have hfirst : ((p₀ :: ps).map C.bytes1)[0]? = some (C.bytes1 p₀) := rfl
    rw [hic, hfirst, Host.bind_of_ok (Host.okOr_some _ _ env),
      Host.bind_of_ok (foldlM_addInput _ le_rfl hlen.le), C.negBytes_bytes1,
      Host.bind_of_ok (orTrap_some _), C.pairingCheck_bytes, Host.bind_of_ok (orTrap_some _),
      List.length_cons, hlen]
    simp only [decide_eq_true_eq, pairings_eq_zero_iff]
    split_ifs <;> rfl

/-- The answer is never `false`. -/
theorem verify_ne_false {proof : Pool.Groth16Proof} {publicInputs : List U256} {env' : Env Store} :
    verify C proof publicInputs env ≠ .ok (false, env') := by
  intro h
  obtain ⟨_, _, -, h⟩ := Host.bind_eq_ok.mp h
  obtain ⟨vk, _, -, h⟩ := Host.bind_eq_ok.mp h
  unfold verifyWithVk at h
  split_ifs at h
  · cases h
  · obtain ⟨_, _, -, h⟩ := Host.bind_eq_ok.mp h
    obtain ⟨_, _, -, h⟩ := Host.bind_eq_ok.mp h
    obtain ⟨_, _, -, h⟩ := Host.bind_eq_ok.mp h
    obtain ⟨accepted, _, -, h⟩ := Host.bind_eq_ok.mp h
    split_ifs at h <;> cases h

/-- **A public input counts as its residue.** -/
theorem verify_congr {xs ys : List U256}
    (h : xs.map (Nat.cast : ℕ → F) = ys.map (Nat.cast : ℕ → F)) (proof : Pool.Groth16Proof) :
    verify C proof xs = verify C proof ys := by
  have hlen : xs.length = ys.length := by
    have := congrArg List.length h
    rwa [List.length_map, List.length_map] at this
  have hadd : ∀ ic, addInput C ic xs = addInput C ic ys :=
    fun ic => funext₂ fun vkX i => addInput_congr h vkX i
  unfold verify verifyWithVk
  simp only [hlen, hadd]

end results

/-! ### Asked by the pool -/

/-- What the pool sees of a call of the contract at an address: an answer, or a trap. -/
def asked (C : Curve G₁ G₂ T) [DecidableEq T] (stores : Address → Store) (verifier : Address)
    (proof : Pool.Groth16Proof) (publicInputs : List U256) : Option Bool :=
  match verify C proof publicInputs ⟨stores verifier, []⟩ with
  | .ok (isValid, _) => some isValid
  | .error _ => none

section asked

variable {C : Curve G₁ G₂ T} [DecidableEq T] {stores : Address → Store}

/-- What `Pool.PolicyVerifier` asks of the verifier about residues. -/
theorem asked_congr {xs ys : List U256}
    (h : xs.map (Nat.cast : ℕ → F) = ys.map (Nat.cast : ℕ → F)) (verifier : Address)
    (proof : Pool.Groth16Proof) :
    asked C stores verifier proof xs = asked C stores verifier proof ys := by
  rw [asked, asked, verify_congr h]

theorem asked_apply {verifier : Address} {vk : VerificationKeyBytes}
    (hvk : (stores verifier).verificationKey = some vk) {key : VerifyingKey G₁ G₂}
    (hkey : C.readKey vk = some key) {proof : Pool.Groth16Proof} {π : Proof G₁ G₂}
    (hproof : C.readProof proof = some π) (publicInputs : List U256) :
    (Accepts C.pairing key (publicInputs.map (Nat.cast : ℕ → F)) π →
      asked C stores verifier proof publicInputs = some true) ∧
    (¬ Accepts C.pairing key (publicInputs.map (Nat.cast : ℕ → F)) π →
      asked C stores verifier proof publicInputs = none) := by
  have happly := @verify_apply _ _ _ _ _ _ _ _ _ C ⟨stores verifier, []⟩ _ vk hvk key hkey proof π
    hproof publicInputs
  have hlen : (publicInputs.map (Nat.cast : ℕ → F)).length = publicInputs.length :=
    List.length_map _
  constructor
  · intro h
    rw [asked, happly, if_neg (not_not.mpr (hlen ▸ h.length)), if_pos h.pairing]
  · intro h
    rw [asked, happly]
    split_ifs with hne heq
    · rfl
    · exact absurd ⟨hlen.symm ▸ not_not.mp hne, heq⟩ h
    · rfl

theorem verifyProof_of_none (ext : Pool.Externals) {env : Env Pool.Chain} {proof : Pool.Proof}
    {verifier : Address} (hproof : proof.proof.isEmpty = false)
    (hverifier : env.store.pool.verifier = some verifier)
    (h : ext.verify verifier proof.proof (Pool.publicInputs proof) = none) :
    Pool.verifyProof ext proof env = .error (.panic "verifier") := by
  rw [Pool.verifyProof, hproof, if_neg Bool.false_ne_true, Host.bind_of_ok (Pool.getPool_apply env),
    hverifier, Host.bind_of_ok (Host.okOr_some _ _ env), h]
  rfl

/-- **The pool's check of a proof of points** passes if and only if the key accepts the proof with
the public inputs that the pool builds; otherwise it traps, and is never told `false`.  A key for
eleven inputs accepts two nullifiers only. -/
theorem verifyProof_iff {ext : Pool.Externals} {env : Env Pool.Chain} {verifier : Address}
    (hverifier : env.store.pool.verifier = some verifier) {vk : VerificationKeyBytes}
    (hvk : (stores verifier).verificationKey = some vk) {key : VerifyingKey G₁ G₂}
    (hkey : C.readKey vk = some key) {proof : Pool.Proof} {π : Proof G₁ G₂}
    (hproof : C.readProof proof.proof = some π) :
    (Pool.verifyProof { ext with verify := asked C stores } proof env = .ok (true, env) ↔
      Accepts C.pairing key (Pool.residues proof) π) ∧
    (¬ Accepts C.pairing key (Pool.residues proof) π →
      Pool.verifyProof { ext with verify := asked C stores } proof env =
        .error (.panic "verifier")) ∧
    (key.ic.length = 12 → Accepts C.pairing key (Pool.residues proof) π →
      proof.inputNullifiers.length = 2) := by
  have hempty : proof.proof.isEmpty = false := by
    rw [Curve.readProof_eq_some_iff.mp hproof, Pool.Groth16Proof.isEmpty]
    simp [Curve.writeProof, Curve.bytes1, Curve.bytes2, ← List.length_eq_zero_iff]
  have hlen : (Pool.residues proof).length = (Pool.publicInputs proof).length := List.length_map _
  obtain ⟨hyes, hno⟩ := asked_apply hvk hkey hproof (Pool.publicInputs proof)
  by_cases h : Accepts C.pairing key (Pool.residues proof) π
  · refine ⟨iff_of_true (Pool.verifyProof_apply hempty hverifier (hyes h)) h,
      fun hnot => absurd h hnot, fun htwelve _ => ?_⟩
    have hcount := h.length
    rw [hlen, Pool.length_publicInputs, htwelve] at hcount
    omega
  · have htrap := verifyProof_of_none { ext with verify := asked C stores } hempty hverifier (hno h)
    refine ⟨iff_of_false (fun hok => ?_) h, fun _ => htrap, fun _ haccepts => absurd haccepts h⟩
    rw [htrap] at hok
    cases hok

end asked

/-! ### A sample curve -/

section sample

/-- The generator of the second group. -/
def generator2 : G2Affine :=
  ⟨⟨10857046999023057135944570762232829481370756359578518086990519993285655852781,
      11559732032986387107991004021392285783925812861821192530917403151452391805634⟩,
    ⟨8495653923123431417604973247489272438418190587263600148770280649306958101930,
      4082367875863433681332203403145435568316851327593401208105741076214120093531⟩⟩

/-- Coordinates of multiples of `(1, 2)`: those of the identity, `(1, 2)` and its opposite are
BN254's. -/
def sampleAffine1 (k : F) : G1Affine := ⟨k.valMinAbs.natAbs, (2 : ℕ) * k.valMinAbs.sign⟩

/-- Coordinates of multiples of the generator: those of the identity and itself are BN254's. -/
def sampleAffine2 (k : F) : G2Affine := if k = 1 then generator2 else ⟨⟨k.val, 0⟩, ⟨0, 0⟩⟩

theorem coordinate_val_of_lt {n : ℕ} (h : n < bn256Modulus) : (n : Fq).val = n :=
  ZMod.val_natCast_of_lt (h.trans (by decide))

theorem natAbs_valMinAbs_lt (k : F) : k.valMinAbs.natAbs < bn256Modulus :=
  (ZMod.natAbs_valMinAbs_le k).trans_lt (by decide)

theorem natAbs_sampleAffine1 (k : F) : (sampleAffine1 k).x.val = k.valMinAbs.natAbs :=
  coordinate_val_of_lt (natAbs_valMinAbs_lt k)

theorem sampleAffine1_neg (k : F) :
    sampleAffine1 (-k) = ⟨(sampleAffine1 k).x, -(sampleAffine1 k).y⟩ := by
  have hodd : 2 * k.val ≠ bn256Modulus := fun h => by
    have hmod : bn256Modulus % 2 = 1 := by decide
    omega
  have hneg : (-k).valMinAbs = -k.valMinAbs := ZMod.valMinAbs_neg_of_ne_half hodd
  rw [sampleAffine1, hneg, Int.natAbs_neg, Int.sign_neg, Int.cast_neg, mul_neg]
  rfl

theorem sampleAffine1_injective : Function.Injective sampleAffine1 := by
  intro p q h
  have hx : p.valMinAbs.natAbs = q.valMinAbs.natAbs := by
    rw [← natAbs_sampleAffine1, h, natAbs_sampleAffine1]
  have hy : 2 * (p.valMinAbs.sign : Fq) = 2 * (q.valMinAbs.sign : Fq) := congrArg G1Affine.y h
  refine ZMod.injective_valMinAbs ?_
  obtain heq | hopp := Int.natAbs_eq_natAbs_iff.mp hx
  · exact heq
  · obtain hneg | hzero | hpos := lt_trichotomy q.valMinAbs 0
    · rw [hopp, Int.sign_neg, Int.sign_eq_neg_one_of_neg hneg] at hy
      exact absurd hy (by decide)
    · rw [hopp, hzero, neg_zero]
    · rw [hopp, Int.sign_neg, Int.sign_eq_one_of_pos hpos] at hy
      exact absurd hy (by decide)

theorem generator2_ne_zero : generator2.y.c0 ≠ 0 := by decide

theorem sampleAffine2_injective : Function.Injective sampleAffine2 := by
  intro p q h
  unfold sampleAffine2 at h
  split_ifs at h with hp hq hq
  · rw [hp, hq]
  · exact absurd (congrArg (fun c => c.y.c0) h) generator2_ne_zero
  · exact absurd (congrArg (fun c => c.y.c0) h).symm generator2_ne_zero
  · have hx := congrArg (fun c => c.x.c0.val) h
    simp only [coordinate_val_of_lt (F.val_lt _)] at hx
    exact F.val_injective hx

/-- Points by their logarithms. -/
def sampleCurve : Curve F F F where
  point1 c :=
    if c = sampleAffine1 (c.x.val : F) then some (c.x.val : F)
    else if c = sampleAffine1 (-(c.x.val : F)) then some (-(c.x.val : F))
    else none
  affine1 := sampleAffine1
  point2 c :=
    if c = generator2 then some 1
    else if c = sampleAffine2 (c.x.c0.val : F) then some (c.x.c0.val : F)
    else none
  affine2 := sampleAffine2
  pairing := LinearMap.mul F F
  negBytes bytes := (readG1 bytes).map fun c => g1BytesFromArk ⟨c.x, -c.y⟩
  point1_eq_some_iff c p := by
    constructor
    · intro h
      split_ifs at h with hpos hneg
      · rwa [Option.some.inj h] at hpos
      · rwa [Option.some.inj h] at hneg
    · rintro rfl
      have hx := natAbs_sampleAffine1 p
      have hp : ((p.valMinAbs : ℤ) : F) = p := ZMod.coe_valMinAbs p
      split_ifs with hpos hneg
      · exact congrArg some (sampleAffine1_injective hpos).symm
      · exact congrArg some (sampleAffine1_injective hneg).symm
      · rw [hx] at hpos hneg
        obtain habs | habs := Int.natAbs_eq p.valMinAbs
        · refine absurd (congrArg sampleAffine1 ?_) hpos
          rw [← Int.cast_natCast, ← habs, hp]
        · refine absurd (congrArg sampleAffine1 ?_) hneg
          rw [← Int.cast_natCast, ← Int.cast_neg, ← habs, hp]
  point2_eq_some_iff c p := by
    constructor
    · intro h
      split_ifs at h with hgen hother
      · rw [← Option.some.inj h, hgen]
        rfl
      · rwa [Option.some.inj h] at hother
    · rintro rfl
      split_ifs with hgen hother
      · exact congrArg some (sampleAffine2_injective (hgen.trans (if_pos rfl).symm)).symm
      · exact congrArg some (sampleAffine2_injective hother).symm
      · by_cases hp : p = 1
        · rw [hp] at hgen
          exact absurd (if_pos rfl) hgen
        · refine absurd (congrArg sampleAffine2 ?_) hother
          rw [sampleAffine2, if_neg hp]
          exact ((congrArg _ (coordinate_val_of_lt (F.val_lt p))).trans (F.natCast_val p)).symm
  affine1_neg := sampleAffine1_neg
  negBytes_apply c := by
    rw [readG1_eq_some_iff.mpr rfl]
    rfl

/-- A key for inputs of which the first counts. -/
def sampleKey (inputs : ℕ) : VerifyingKey F F where
  alpha := 1
  beta := 1
  gamma := 1
  delta := 1
  ic := 0 :: (List.range inputs).map fun i => if i = 0 then 1 else 0

/-- The proof for a one there. -/
def sampleProof : Proof F F := ⟨1, 1, -1⟩

/-- The contract with that key. -/
def sampleStore (inputs : ℕ) : Store := ⟨some (sampleCurve.writeKey (sampleKey inputs))⟩

/-- A one above the modulus verifies. -/
theorem verify_apply_sample :
    verify sampleCurve (sampleCurve.writeProof sampleProof) [bn256Modulus + 1]
      ⟨sampleStore 1, []⟩ = .ok (true, ⟨sampleStore 1, []⟩) := by
  have happly := @verify_apply _ _ _ _ _ _ _ _ _ sampleCurve ⟨sampleStore 1, []⟩ _ _ rfl _
    (Curve.readKey_writeKey (sampleKey 1)) _ _ (Curve.readProof_writeProof sampleProof)
    [bn256Modulus + 1]
  rw [if_neg (by decide), if_pos (by decide +kernel)] at happly
  exact happly

/-- A proof for the pool, with the one as root. -/
def samplePoolProof : Pool.Proof where
  proof := sampleCurve.writeProof sampleProof
  root := 1
  inputNullifiers := [2, 3]
  outputCommitment0 := 4
  outputCommitment1 := 5
  publicAmount := 6
  extDataHash := 7
  aspMembershipRoot := 8
  aspNonMembershipRoot := 9

/-- The pool accepts it. -/
theorem verifyProof_iff_sample :
    Pool.verifyProof
        { Pool.sampleExternals with verify := asked sampleCurve fun _ => sampleStore 11 }
        samplePoolProof Pool.samplePool = .ok (true, Pool.samplePool) ∧
      samplePoolProof.inputNullifiers.length = 2 := by
  have hverifier : Pool.samplePool.store.pool.verifier = some (.contract 2) := by decide +kernel
  have haccepts : Accepts sampleCurve.pairing (sampleKey 11) (Pool.residues samplePoolProof)
      sampleProof := ⟨by decide +kernel, by decide +kernel⟩
  obtain ⟨hiff, -, hlen⟩ := @verifyProof_iff _ _ _ _ _ _ _ _ _ sampleCurve _
    (fun _ => sampleStore 11) Pool.sampleExternals _ _ hverifier _ rfl _
    (Curve.readKey_writeKey (sampleKey 11)) samplePoolProof _
    (Curve.readProof_writeProof sampleProof)
  exact ⟨hiff.mpr haccepts, hlen rfl haccepts⟩

end sample

end Enclave.Groth16

import Enclave.Facilitator.SettleRoute
import Enclave.Lib.JsValue

/-! # Settling whatever JSON comes

The types of `/settle` are casts: `parseSettle` looks for four properties that are not falsy, and
the body may hold any JSON under them.  This is the route over such a body, up to its first await
(`settle`) and from one await to the next (`resume`).  A method that a value lacks throws, and so
does `BigInt` of what denotes no integer.

What `submitPoolTransaction` does is an answer here; `settle_bodyOf` says that a body of the wire
types is treated as in `SettleRoute`. -/

namespace Enclave.Facilitator.Untyped

open Stellar
open Json (Value)

open JsValue (prop)

variable (num : Numerals)

/-! ### Requests -/

/-- `ParsedSettleRequest`. -/
structure ParsedSettleRequest where
  proof : JsValue
  extData : JsValue
  requirements : JsValue

/-- `parseSettle`. -/
def parseSettle (body : JsValue) : Except String ParsedSettleRequest :=
  if JsValue.falsy num body || !JsValue.isObject body then .error "body must be object"
  else
    let payload := prop body "paymentPayload"
    let requirements := prop body "paymentRequirements"
    if JsValue.falsy num payload || JsValue.falsy num requirements then
      .error "missing paymentPayload or paymentRequirements"
    else if JsValue.falsy num (prop payload "proof") || JsValue.falsy num (prop payload "extData") then
      .error "missing paymentPayload.proof or .extData"
    else .ok ⟨prop payload "proof", prop payload "extData", requirements⟩

/-- `ExtDataLike`. -/
structure ExtDataLike where
  recipient : JsValue
  ext_amount : ℤ
  encrypted_output0 : List UInt8
  encrypted_output1 : List UInt8

/-- `hexToBytes`; only a string has `replace`. -/
def hexToBytes : JsValue → Option (List UInt8)
  | some (.string s) => some (Facilitator.hexToBytes s)
  | _ => none

/-- `wireToExtDataLike`. -/
def wireToExtDataLike (ext : JsValue) : Option ExtDataLike := do
  let amount ← JsValue.bigInt num (prop ext "ext_amount")
  let output0 ← hexToBytes (prop ext "encrypted_output0")
  let output1 ← hexToBytes (prop ext "encrypted_output1")
  return ⟨prop ext "recipient", amount, output0, output1⟩

/-- `checkBinding`. -/
def checkBinding (ext : ExtDataLike) (requirements : JsValue) : Option (Except String Unit) :=
  if ext.encrypted_output0.length ≠ encryptedOutputLength ∨
      ext.encrypted_output1.length ≠ encryptedOutputLength then
    some (.error "encrypted_output_length_invalid")
  else if !JsValue.strictEquals num ext.recipient (prop requirements "payTo") then
    some (.error "recipient_mismatch")
  else (JsValue.bigInt num (prop requirements "maxAmountRequired")).map fun expected =>
    let actualAbs := if ext.ext_amount < 0 then -ext.ext_amount else ext.ext_amount
    if actualAbs ≠ expected then .error "amount_mismatch" else .ok ()

variable (sdk : Sdk)

/-- `hashExtData(ext).hex`; no address comes from a value that is no string. -/
def hashExtData (ext : ExtDataLike) : Option String :=
  match ext.recipient with
  | some (.string recipient) => Facilitator.hashExtData sdk
      ⟨recipient, ext.ext_amount, ext.encrypted_output0, ext.encrypted_output1⟩
  | _ => none

/-- `getProofExtDataHash`; only a string has `toLowerCase`. -/
def getProofExtDataHash (proof : JsValue) : Option String :=
  match prop proof "extDataHash" with
  | none => some (sdk.toLowerCase "")
  | some .null => some (sdk.toLowerCase "")
  | some (.string s) => some (sdk.toLowerCase s)
  | _ => none

/-- Steps 1 and 2: the reason of the first check that fails; `none` if one throws. -/
def checkRequest (parsed : ParsedSettleRequest) : Option (Except String Unit) := do
  let extDataLike ← wireToExtDataLike num parsed.extData
  match ← checkBinding num extDataLike parsed.requirements with
  | .error reason => return .error reason
  | .ok () =>
      let computedHash ← hashExtData sdk extDataLike
      let claimedHash ← getProofExtDataHash sdk parsed.proof
      if sdk.toLowerCase computedHash ≠ claimedHash then return .error "ext_data_hash_mismatch"
      else return .ok ()

/-- `checkSolvency`; the pattern is tested against the value's text. -/
def checkSolvency (snapshot : BalanceSnapshot) (requirements : JsValue) (minXlmStroops : ℤ) :
    Option (Except String Unit) :=
  let required := prop requirements "maxAmountRequired"
  if !isBaseUnitInteger (required.elim "undefined" (JsValue.textOf num)) then none
  else (JsValue.bigInt num required).map fun requiredUsdc =>
    if snapshot.facilitatorXlmStroops < minXlmStroops then .error "insolvent_facilitator_xlm"
    else if snapshot.poolUsdcBaseUnits < requiredUsdc then .error "insolvent_pool_usdc"
    else .ok ()

/-! ### Claims -/

/-- How the loop of claims ends: with all of them, with those that it rolls back, or by an exception
with those made so far. -/
inductive ClaimOutcome where
  | claimed (claimedOrder : List String)
  | conflict (claimedOrder : List String)
  | thrown (claimedOrder : List String)
deriving DecidableEq

/-- The loop of claims; only a string has `toLowerCase`. -/
def claimLoop (toLowerCase : String → String) :
    NullifierCache → List String → List Value → NullifierCache × ClaimOutcome
  | cache, claimedOrder, [] => (cache, .claimed claimedOrder)
  | cache, claimedOrder, .string n :: rest =>
      match NullifierCache.tryClaim toLowerCase cache n with
      | (cache', true) => claimLoop toLowerCase cache' (claimedOrder ++ [n]) rest
      | (cache', false) =>
          (NullifierCache.releaseAll toLowerCase cache' claimedOrder, .conflict claimedOrder)
  | cache, claimedOrder, _ :: _ => (cache, .thrown claimedOrder)

/-! ### Handlers -/

/-- What a handler waits for, or how it has ended. -/
inductive Phase where
  | verifying
  | readingSnapshot
  | submitting
  | appending (transaction : String)
  | answered (response : Response)
  /-- An exception that the route does not catch. -/
  | thrown

/-- A request, with its claims. -/
structure Handler where
  request : Option ParsedSettleRequest
  claimedOrder : List String
  phase : Phase

/-- What an await yields. -/
inductive Answer where
  | verified (outcome : Option Bool)
  | snapshot (outcome : Option BalanceSnapshot)
  /-- `submitPoolTransaction`: the hash, or the reason of its error. -/
  | submitted (outcome : Except String TxHash)
  | appended

/-- What happens at the facilitator. -/
inductive Event where
  | request (body : JsValue)
  | answer (i : ℕ) (a : Answer)

/-- The process. -/
structure Server where
  cache : NullifierCache
  handlers : List Handler

variable (cfg : Config)

/-- A new cache with the entries of `hydrateNullifierCache`. -/
def Server.boot (entries : List (String × String)) : Server :=
  ⟨NullifierCache.hydrate cfg.sdk.toLowerCase (fun _ => none) entries, []⟩

/-- Answer with `reason` after all claims are released. -/
def fail (cache : NullifierCache) (claimedOrder : List String) (status : ℕ) (reason : String) :
    NullifierCache × Phase :=
  (NullifierCache.releaseAll cfg.sdk.toLowerCase cache claimedOrder,
    .answered (.failure status reason))

/-- Commit all claims, then wait for the log. -/
def succeed (cache : NullifierCache) (claimedOrder : List String) (transaction : String) :
    NullifierCache × Phase :=
  (NullifierCache.commitAll cfg.sdk.toLowerCase cache claimedOrder transaction,
    .appending transaction)

/-- `catch (err)` for an error that is no `SubmitError`. -/
def caught (cache : NullifierCache) (claimedOrder : List String) : NullifierCache × Phase :=
  fail cfg cache claimedOrder 500 "pool_rejected_unknown"

/-- `inputNullifiers[0]`, of an array of strings or a string. -/
def firstNullifier (proof : JsValue) : String :=
  match prop proof "inputNullifiers" with
  | some (.array (.string n :: _)) => n
  | some (.string s) => String.ofList ((Js.codeUnits s).take 1)
  | _ => ""

/-- `mockTxHash`. -/
def mockTxHash (proof : JsValue) : String :=
  let first := Js.strip0x (Js.codeUnits (firstNullifier proof))
  "mock_" ++ String.ofList ((Js.codeUnits (cfg.sdk.toLowerCase (String.ofList first))).take 16)

/-- The start of step 4, all claims made. -/
def modeSplit (cache : NullifierCache) (claimedOrder : List String) : NullifierCache × Phase :=
  match cfg.mode with
  | .mock =>
      if !cfg.vKeyLoaded then caught cfg cache claimedOrder
      -- `offChainVerify` throws before it calls the verifier.
      else if claimedOrder = [] then caught cfg cache claimedOrder
      else (cache, .verifying)
  | .onChain =>
      if !cfg.clientConnected then caught cfg cache claimedOrder
      else (cache, .readingSnapshot)

/-- Steps 3 and 4 up to the first await. -/
def claimNullifiers (cache : NullifierCache) (parsed : ParsedSettleRequest)
    (nullifiers : List Value) : NullifierCache × Handler :=
  match claimLoop cfg.sdk.toLowerCase cache [] nullifiers with
  | (cache', .conflict claimedOrder) =>
      (cache', ⟨some parsed, claimedOrder, .answered (.failure 409 "already_spent")⟩)
  | (cache', .thrown claimedOrder) => (cache', ⟨some parsed, claimedOrder, .thrown⟩)
  | (cache', .claimed claimedOrder) =>
      let r := modeSplit cfg cache' claimedOrder
      (r.1, ⟨some parsed, claimedOrder, r.2⟩)

/-- A request up to its first await. -/
def settle (cache : NullifierCache) (body : JsValue) : NullifierCache × Handler :=
  match parseSettle num body with
  | .error _ => (cache, ⟨none, [], .answered (.failure 400 "malformed_payload")⟩)
  | .ok parsed =>
      match checkRequest num cfg.sdk parsed with
      | none => (cache, ⟨some parsed, [], .thrown⟩)
      | some (.error reason) => (cache, ⟨some parsed, [], .answered (.failure 400 reason)⟩)
      | some (.ok ()) =>
          match JsValue.iterate (prop parsed.proof "inputNullifiers") with
          | none => (cache, ⟨some parsed, [], .thrown⟩)
          | some nullifiers => claimNullifiers cfg cache parsed nullifiers

/-- The solvency check, the balances at hand. -/
def afterSnapshot (cache : NullifierCache) (h : Handler) (parsed : ParsedSettleRequest) :
    Option BalanceSnapshot → NullifierCache × Phase
  | none => caught cfg cache h.claimedOrder
  | some snapshot =>
      match checkSolvency num snapshot parsed.requirements cfg.minXlmStroops with
      | none => caught cfg cache h.claimedOrder
      | some (.error reason) => fail cfg cache h.claimedOrder 400 reason
      | some (.ok ()) => (cache, .submitting)

/-- A handler from one await to the next; `none` if it does not wait for this. -/
def resume (cache : NullifierCache) (h : Handler) : Answer → Option (NullifierCache × Phase)
  | .verified outcome =>
      match h.phase, h.request with
      | .verifying, some parsed => some <|
          match outcome with
          | none => caught cfg cache h.claimedOrder
          | some false => fail cfg cache h.claimedOrder 500 "proof_verification_failed"
          | some true => succeed cfg cache h.claimedOrder (mockTxHash cfg parsed.proof)
      | _, _ => none
  | .snapshot outcome =>
      match h.phase, h.request with
      | .readingSnapshot, some parsed => some (afterSnapshot num cfg cache h parsed outcome)
      | _, _ => none
  | .submitted outcome =>
      match h.phase with
      | .submitting => some <|
          match outcome with
          | .error reason => fail cfg cache h.claimedOrder 500 reason
          | .ok txHash => succeed cfg cache h.claimedOrder txHash
      | _ => none
  | .appended =>
      match h.phase with
      | .appending transaction => some (cache, .answered (.success transaction))
      | _ => none

def Server.next (s : Server) : Event → Option Server
  | .request body =>
      let r := settle num cfg s.cache body
      some ⟨r.1, s.handlers ++ [r.2]⟩
  | .answer i a =>
      s.handlers[i]?.bind fun h => (resume num cfg s.cache h a).map fun r =>
        ⟨r.1, s.handlers.set i { h with phase := r.2 }⟩

def Server.Step (s : Server) (e : Event) (s' : Server) : Prop := s.next num cfg e = some s'

/-! ### Bodies of the wire types -/

/-- A property that may be missing. -/
def optional (name : String) (v : JsValue) : List (String × Value) := v.toList.map fun v => (name, v)

/-- The proof as JSON, with any value for its nullifiers. -/
def proofToValue (proof : ShieldedProofWireFormat) (inputNullifiers : JsValue) : Value :=
  .object (optional "inputNullifiers" inputNullifiers ++
    optional "extDataHash" (proof.extDataHash.map .string) ++
    [("a", .string proof.a), ("b", .string proof.b), ("c", .string proof.c),
      ("root", .string proof.root), ("outputCommitment0", .string proof.outputCommitment0),
      ("outputCommitment1", .string proof.outputCommitment1),
      ("publicAmount", .string proof.publicAmount),
      ("aspMembershipRoot", .string proof.aspMembershipRoot),
      ("aspNonMembershipRoot", .string proof.aspNonMembershipRoot)])

/-- The external data as JSON. -/
def extDataToValue (extData : ExtDataWireFormat) : Value :=
  .object [("recipient", .string extData.recipient), ("ext_amount", .string extData.ext_amount),
    ("encrypted_output0", .string extData.encrypted_output0),
    ("encrypted_output1", .string extData.encrypted_output1)]

/-- The requirements as JSON. -/
def requirementsToValue (requirements : PaymentRequirements) : Value :=
  .object [("maxAmountRequired", .string requirements.maxAmountRequired),
    ("payTo", .string requirements.payTo)]

/-- The body of a request, with any value for the nullifiers. -/
def bodyOf (parsed : ParsedRequest) (inputNullifiers : JsValue) : JsValue :=
  some (.object [("paymentPayload", .object [("proof", proofToValue parsed.proof inputNullifiers),
      ("extData", extDataToValue parsed.extData)]),
    ("paymentRequirements", requirementsToValue parsed.requirements)])

/-- The nullifiers of a proof as JSON. -/
def nullifiersToValue (proof : ShieldedProofWireFormat) : JsValue :=
  proof.inputNullifiers.map fun ns => .array (ns.map .string)

variable {num sdk cfg}

theorem prop_inputNullifiers (proof : ShieldedProofWireFormat) (inputNullifiers : JsValue) :
    prop (some (proofToValue proof inputNullifiers)) "inputNullifiers" = inputNullifiers := by
  cases inputNullifiers <;> cases h : proof.extDataHash <;>
    simp [prop, proofToValue, optional, Value.get, h]

theorem prop_extDataHash (proof : ShieldedProofWireFormat) (inputNullifiers : JsValue) :
    prop (some (proofToValue proof inputNullifiers)) "extDataHash" =
      proof.extDataHash.map .string := by
  cases inputNullifiers <;> cases h : proof.extDataHash <;>
    simp [prop, proofToValue, optional, Value.get, h]

theorem parseSettle_bodyOf (parsed : ParsedRequest) (inputNullifiers : JsValue) :
    parseSettle num (bodyOf parsed inputNullifiers) =
      .ok ⟨some (proofToValue parsed.proof inputNullifiers),
        some (extDataToValue parsed.extData), some (requirementsToValue parsed.requirements)⟩ := by
  simp [parseSettle, bodyOf, JsValue.falsy, JsValue.isObject, prop, Value.get, proofToValue,
    extDataToValue, requirementsToValue]

theorem wireToExtDataLike_toValue (extData : ExtDataWireFormat) :
    wireToExtDataLike num (some (extDataToValue extData)) =
      (Facilitator.wireToExtDataLike extData).map fun ext =>
        ⟨some (.string ext.recipient), ext.ext_amount, ext.encrypted_output0,
          ext.encrypted_output1⟩ := by
  have hamount : JsValue.bigInt num (prop (some (extDataToValue extData)) "ext_amount") =
      Js.bigInt extData.ext_amount := by
    simp [extDataToValue, prop, Value.get, JsValue.bigInt_string]
  unfold wireToExtDataLike Facilitator.wireToExtDataLike
  rw [hamount]
  cases Js.bigInt extData.ext_amount with
  | none => rfl
  | some amount => simp [extDataToValue, prop, Value.get, hexToBytes]

theorem checkBinding_toValue (ext : Facilitator.ExtDataLike) (requirements : PaymentRequirements) :
    checkBinding num ⟨some (.string ext.recipient), ext.ext_amount, ext.encrypted_output0,
        ext.encrypted_output1⟩ (some (requirementsToValue requirements)) =
      Facilitator.checkBinding ext requirements := by
  unfold checkBinding Facilitator.checkBinding
  simp [requirementsToValue, prop, Value.get, JsValue.bigInt_string, JsValue.strictEquals]

/-- **The checks of a body of the wire types.** -/
theorem checkRequest_toValue (parsed : ParsedRequest) (inputNullifiers : JsValue) :
    checkRequest num sdk ⟨some (proofToValue parsed.proof inputNullifiers),
        some (extDataToValue parsed.extData), some (requirementsToValue parsed.requirements)⟩ =
      Facilitator.checkRequest sdk parsed := by
  have hhash : getProofExtDataHash sdk (some (proofToValue parsed.proof inputNullifiers)) =
      some (Facilitator.getProofExtDataHash sdk parsed.proof) := by
    unfold getProofExtDataHash Facilitator.getProofExtDataHash
    rw [prop_extDataHash]
    cases parsed.proof.extDataHash <;> rfl
  unfold checkRequest Facilitator.checkRequest
  rw [wireToExtDataLike_toValue]
  cases Facilitator.wireToExtDataLike parsed.extData with
  | none => rfl
  | some ext =>
      rcases hcheck : Facilitator.checkBinding ext parsed.requirements with _ | reason | _ <;>
        simp [checkBinding_toValue, hcheck, hashExtData, hhash]

theorem claimLoop_strings {toLowerCase : String → String} (ns : List String)
    (cache : NullifierCache) (claimed : List String) :
    ∃ outcome, claimLoop toLowerCase cache claimed (ns.map Value.string) =
      ((NullifierCache.claimAll toLowerCase cache claimed ns).1, outcome) ∧
    (∀ order, (NullifierCache.claimAll toLowerCase cache claimed ns).2 = some order →
      outcome = .claimed order) ∧
    ((NullifierCache.claimAll toLowerCase cache claimed ns).2 = none →
      ∃ order, outcome = .conflict order) := by
  induction ns generalizing cache claimed with
  | nil =>
      refine ⟨_, rfl, fun order horder => ?_, fun hnone => by cases hnone⟩
      cases horder
      rfl
  | cons n ns ih =>
      rw [List.map_cons, claimLoop, NullifierCache.claimAll]
      rcases NullifierCache.tryClaim toLowerCase cache n with ⟨cache', _ | _⟩
      · refine ⟨_, rfl, fun order horder => ?_, fun _ => ⟨_, rfl⟩⟩
        cases horder
      · exact ih cache' (claimed ++ [n])

theorem iterate_nullifiersToValue (proof : ShieldedProofWireFormat) :
    JsValue.iterate (nullifiersToValue proof) = some ((getInputNullifiers proof).map Value.string) := by
  unfold nullifiersToValue getInputNullifiers
  cases proof.inputNullifiers <;> rfl

/-- A platform for values in which no number is read. -/
def sampleNumerals : Numerals where
  bigInt _ := none
  toString literal := String.ofList literal
  isZero literal := literal = ['0']
  same l m := l = m
  toUint8 _ := 0
  isFinite _ := true

end Enclave.Facilitator.Untyped

import Enclave.Facilitator.UntypedSettle

/-! # The verify route

`facilitator/src/routes/verify.ts`, over whatever JSON comes: the types of `parseRequest` are casts,
as those of `/settle` are, and the checks before the nullifiers are the same (`Untyped`).  A request
looks at the nullifier cache once, before its first await, and never writes it.  What waits has seen
no committed nullifier (`not_committed_of_open`). -/

namespace Enclave.Facilitator

open Stellar
open Json (Value)
open JsValue (prop)
open Untyped (proofToValue extDataToValue requirementsToValue)

/-! ### The route -/

/-- `ParsedVerifyRequest`. -/
abbrev ParsedVerifyRequest := Untyped.ParsedSettleRequest

/-- A reply of `/verify`. -/
inductive VerifyReply where
  | valid
  | invalid (invalidReason : String)
  | error (status : ℕ)
deriving DecidableEq

/-- What a handler waits for, or its reply. -/
inductive VerifyPhase where
  | verifying
  | readingSnapshot
  | simulating
  | replied (reply : VerifyReply)

/-- A request to `/verify`. -/
structure VerifyHandler where
  request : Option ParsedVerifyRequest
  phase : VerifyPhase

/-- What an await yields; an error that the route catches comes with its message. -/
inductive VerifyAnswer where
  | verified (outcome : Option Bool)
  | snapshot (outcome : Option BalanceSnapshot)
  /-- `simulatePoolTransaction`, the making of the arguments included. -/
  | simulated (outcome : Except String Unit)

variable (num : Numerals) (cfg : Config)

/-- `parseRequest`. -/
def parseRequest (body : JsValue) : Except String ParsedVerifyRequest :=
  if JsValue.falsy num body || !JsValue.isObject body then .error "request body must be an object"
  else
    let payload := prop body "paymentPayload"
    let requirements := prop body "paymentRequirements"
    if JsValue.falsy num payload || JsValue.falsy num requirements then
      .error "missing paymentPayload or paymentRequirements"
    else if JsValue.falsy num (prop payload "scheme") ||
        !JsValue.strictEquals num (prop payload "scheme") (some (.string "shielded-exact")) then
      .error "scheme must be shielded-exact"
    else if JsValue.falsy num (prop payload "proof") || JsValue.falsy num (prop payload "extData") then
      .error "payload must include proof and extData"
    else if JsValue.falsy num (prop (prop payload "proof") "extDataHash") then
      .error "proof must include extDataHash"
    else .ok ⟨prop payload "proof", prop payload "extData", requirements⟩

/-- The loop of step 3: whether one is committed; `none` if it throws, as only a string has
`toLowerCase`. -/
def anyCommitted (cache : NullifierCache) : List Value → Option Bool
  | [] => some false
  | .string n :: rest =>
      if (NullifierCache.peek cfg.sdk.toLowerCase cache n).map (·.state) == some .committed then
        some true
      else anyCommitted cache rest
  | _ :: _ => none

/-- Step 4 up to the first await, no nullifier committed. -/
def verifyMode (nullifiers : List Value) : VerifyPhase :=
  match cfg.mode with
  | .mock =>
      if !cfg.vKeyLoaded then .replied (.error 503)
      -- `offChainVerify` throws before it calls the verifier.
      else if nullifiers.isEmpty then .replied (.invalid "proof_verification_failed")
      else .verifying
  | .onChain => if !cfg.clientConnected then .replied (.error 503) else .readingSnapshot

/-- The nullifiers that `/verify` looks at, in order; `none` if it does not get there. -/
def lookedAt (parsed : ParsedVerifyRequest) : Option (List Value) :=
  JsValue.iterate (prop parsed.proof "inputNullifiers")

/-- A request up to its first await. -/
def verify (cache : NullifierCache) (body : JsValue) : VerifyHandler :=
  match parseRequest num body with
  | .error _ => ⟨none, .replied (.error 400)⟩
  | .ok parsed =>
      match Untyped.checkRequest num cfg.sdk parsed with
      | none => ⟨some parsed, .replied (.error 500)⟩
      | some (.error reason) => ⟨some parsed, .replied (.invalid reason)⟩
      | some (.ok ()) =>
          match lookedAt parsed with
          | none => ⟨some parsed, .replied (.error 500)⟩
          | some nullifiers =>
              match anyCommitted cfg cache nullifiers with
              | none => ⟨some parsed, .replied (.error 500)⟩
              | some true => ⟨some parsed, .replied (.invalid "already_spent")⟩
              | some false => ⟨some parsed, verifyMode cfg nullifiers⟩

/-- Step 6, the balances at hand. -/
def verifySnapshot (parsed : ParsedVerifyRequest) : Option BalanceSnapshot → VerifyPhase
  | none => .replied (.error 500)
  | some snapshot =>
      match Untyped.checkSolvency num snapshot parsed.requirements cfg.minXlmStroops with
      | none => .replied (.error 500)
      | some (.error reason) => .replied (.invalid reason)
      | some (.ok ()) => .simulating

/-- A handler from one await to the next. -/
def resumeVerify (h : VerifyHandler) : VerifyAnswer → Option VerifyPhase
  | .verified outcome =>
      match h.phase with
      | .verifying => some (.replied (if outcome = some true then .valid
          else .invalid "proof_verification_failed"))
      | _ => none
  | .snapshot outcome =>
      match h.phase, h.request with
      | .readingSnapshot, some parsed => some (verifySnapshot num cfg parsed outcome)
      | _, _ => none
  | .simulated outcome =>
      match h.phase with
      | .simulating =>
          match outcome with
          | .ok () => some (.replied .valid)
          | .error message => some (.replied (.invalid (mapSubmitError message)))
      | _ => none

/-! ### What the route looked at -/

/-- The request may still be found valid. -/
def VerifyPhase.Open : VerifyPhase → Prop
  | .replied .valid => True
  | .replied _ => False
  | _ => True

variable {num cfg} {cache : NullifierCache} {body : JsValue}

theorem anyCommitted_eq_false {nullifiers : List Value}
    (h : anyCommitted cfg cache nullifiers = some false) :
    ∀ v ∈ nullifiers, ∃ n, v = .string n ∧
      ¬ cache.Committed (NullifierCache.normalize cfg.sdk.toLowerCase n) := by
  induction nullifiers with
  | nil => exact fun v hv => absurd hv List.not_mem_nil
  | cons w rest ih =>
      cases w with
      | string n =>
          rw [anyCommitted] at h
          split at h
          · cases h
          · rename_i hpeek
            rintro v (_ | hv)
            · refine ⟨n, rfl, fun ⟨tx, he⟩ => hpeek ?_⟩
              rw [NullifierCache.peek, he]
              rfl
            · exact ih h v (by assumption)
      | _ => cases h

/-- The nullifiers of a request to `/verify`. -/
def verifyNullifiers (num : Numerals) (body : JsValue) : List Value :=
  match parseRequest num body with
  | .ok parsed => (lookedAt parsed).getD []
  | .error _ => []

/-- **A request that is not rejected** has texts for nullifiers, and saw none of them committed. -/
theorem not_committed_of_open (h : (verify num cfg cache body).phase.Open) :
    ∀ v ∈ verifyNullifiers num body, ∃ n, v = .string n ∧
      ¬ cache.Committed (NullifierCache.normalize cfg.sdk.toLowerCase n) := by
  unfold verify at h
  unfold verifyNullifiers
  split at h
  · exact h.elim
  · rename_i parsed hparse
    rw [hparse]
    dsimp only
    split at h
    · exact h.elim
    · exact h.elim
    · split at h
      · exact h.elim
      · rename_i nullifiers hlooked
        rw [hlooked, Option.getD_some]
        split at h
        · exact h.elim
        · exact h.elim
        · rename_i hfree
          exact anyCommitted_eq_false hfree

theorem verify_of_passes {parsed : ParsedVerifyRequest} {nullifiers : List Value}
    (hparse : parseRequest num body = .ok parsed)
    (hcheck : Untyped.checkRequest num cfg.sdk parsed = some (.ok ()))
    (hlooked : lookedAt parsed = some nullifiers)
    (hfree : anyCommitted cfg cache nullifiers = some false) :
    verify num cfg cache body = ⟨some parsed, verifyMode cfg nullifiers⟩ := by
  simp only [verify, hparse, hcheck, hlooked, hfree]

theorem open_of_resumeVerify {h : VerifyHandler} {a : VerifyAnswer} {phase' : VerifyPhase}
    (hresume : resumeVerify num cfg h a = some phase') : h.phase.Open := by
  cases a with
  | verified outcome =>
      simp only [resumeVerify] at hresume
      split at hresume
      · rename_i hphase
        rw [hphase]
        trivial
      · cases hresume
  | snapshot outcome =>
      simp only [resumeVerify] at hresume
      split at hresume
      · rename_i hphase _
        rw [hphase]
        trivial
      · cases hresume
  | simulated outcome =>
      simp only [resumeVerify] at hresume
      split at hresume
      · rename_i hphase
        rw [hphase]
        trivial
      · cases hresume

/-! ### Payloads as text -/

/-- A member that is a string. -/
def stringMember (name s : String) : String × List Char := (name, Json.quote s)

/-- `JSON.stringify` of a proof that has nullifiers. -/
def proofText (proof : ShieldedProofWireFormat) (nullifier : String) (nullifiers : List String)
    (extDataHash : String) : List Char :=
  Json.objectText [("inputNullifiers",
      Json.arrayText ((nullifier :: nullifiers).map Json.quote)),
    stringMember "extDataHash" extDataHash, stringMember "a" proof.a, stringMember "b" proof.b,
    stringMember "c" proof.c, stringMember "root" proof.root,
    stringMember "outputCommitment0" proof.outputCommitment0,
    stringMember "outputCommitment1" proof.outputCommitment1,
    stringMember "publicAmount" proof.publicAmount,
    stringMember "aspMembershipRoot" proof.aspMembershipRoot,
    stringMember "aspNonMembershipRoot" proof.aspNonMembershipRoot]

/-- `JSON.stringify` of external data. -/
def extDataText (extData : ExtDataWireFormat) : List Char :=
  Json.objectText [stringMember "recipient" extData.recipient,
    stringMember "ext_amount" extData.ext_amount,
    stringMember "encrypted_output0" extData.encrypted_output0,
    stringMember "encrypted_output1" extData.encrypted_output1]

/-- `JSON.stringify` of a payload. -/
def payloadText (proof extData : List Char) : List Char :=
  Json.objectText [stringMember "scheme" "shielded-exact", ("proof", proof), ("extData", extData)]

/-- A string that is written in quotes as it is. -/
abbrev Plain (s : String) : Prop := Json.isPlain s.toList = true

structure PlainProof (proof : ShieldedProofWireFormat) : Prop where
  a : Plain proof.a
  b : Plain proof.b
  c : Plain proof.c
  root : Plain proof.root
  outputCommitment0 : Plain proof.outputCommitment0
  outputCommitment1 : Plain proof.outputCommitment1
  publicAmount : Plain proof.publicAmount
  aspMembershipRoot : Plain proof.aspMembershipRoot
  aspNonMembershipRoot : Plain proof.aspNonMembershipRoot

structure PlainExtData (extData : ExtDataWireFormat) : Prop where
  recipient : Plain extData.recipient
  ext_amount : Plain extData.ext_amount
  encrypted_output0 : Plain extData.encrypted_output0
  encrypted_output1 : Plain extData.encrypted_output1

/-- The text of a member is read. -/
abbrev MemberRead (fuel : ℕ) (f : String × List Char) (m : String × Json.Value) : Prop :=
  Json.isPlain f.1.toList = true ∧ f.1 = m.1 ∧ Json.Parses (Json.value fuel) f.2 m.2

theorem stringMember_read {name s : String} (hname : Plain name) (hs : Plain s) (fuel : ℕ) :
    MemberRead (fuel + 1) (stringMember name s) (name, .string s) :=
  ⟨hname, rfl, Json.parses_string hs fuel⟩

theorem parses_extDataText {extData : ExtDataWireFormat} (h : PlainExtData extData) (fuel : ℕ) :
    Json.Parses (Json.value (fuel + 2)) (extDataText extData) (extDataToValue extData) := by
  refine Json.parses_object (stringMember_read (by decide) h.recipient fuel) ?_
  refine .cons (stringMember_read (by decide) h.ext_amount fuel) ?_
  refine .cons (stringMember_read (by decide) h.encrypted_output0 fuel) ?_
  exact .cons (stringMember_read (by decide) h.encrypted_output1 fuel) .nil

abbrev withNullifiers (proof : ShieldedProofWireFormat) (nullifiers : List String)
    (extDataHash : String) : ShieldedProofWireFormat :=
  { proof with inputNullifiers := some nullifiers, extDataHash := some extDataHash }

def proofValue (proof : ShieldedProofWireFormat) : Value :=
  proofToValue proof (Untyped.nullifiersToValue proof)

theorem parses_proofText {proof : ShieldedProofWireFormat} {nullifier extDataHash : String}
    {nullifiers : List String} (h : PlainProof proof) (hnullifier : Plain nullifier)
    (hnullifiers : ∀ n ∈ nullifiers, Plain n) (hhash : Plain extDataHash) (fuel : ℕ) :
    Json.Parses (Json.value (fuel + 3)) (proofText proof nullifier nullifiers extDataHash)
      (proofValue (withNullifiers proof (nullifier :: nullifiers) extDataHash)) := by
  have hitems : List.Forall₂ (Json.Parses (Json.value (fuel + 1))) (nullifiers.map Json.quote)
      (nullifiers.map .string) := by
    refine List.forall₂_map_left_iff.mpr (List.forall₂_map_right_iff.mpr ?_)
    exact List.forall₂_same.mpr fun n hn => Json.parses_string (hnullifiers n hn) fuel
  have harray : MemberRead (fuel + 2)
      ("inputNullifiers", Json.arrayText ((nullifier :: nullifiers).map Json.quote))
      ("inputNullifiers", .array ((nullifier :: nullifiers).map .string)) :=
    ⟨(by decide : Plain "inputNullifiers"), rfl,
      Json.parses_array (Json.parses_string hnullifier fuel) hitems rfl⟩
  refine Json.parses_object harray ?_
  refine .cons (stringMember_read (by decide) hhash _) ?_
  refine .cons (stringMember_read (by decide) h.a _) ?_
  refine .cons (stringMember_read (by decide) h.b _) ?_
  refine .cons (stringMember_read (by decide) h.c _) ?_
  refine .cons (stringMember_read (by decide) h.root _) ?_
  refine .cons (stringMember_read (by decide) h.outputCommitment0 _) ?_
  refine .cons (stringMember_read (by decide) h.outputCommitment1 _) ?_
  refine .cons (stringMember_read (by decide) h.publicAmount _) ?_
  refine .cons (stringMember_read (by decide) h.aspMembershipRoot _) ?_
  exact .cons (stringMember_read (by decide) h.aspNonMembershipRoot _) .nil

def payloadValue (proof : ShieldedProofWireFormat) (extData : ExtDataWireFormat) : Value :=
  .object [("scheme", .string "shielded-exact"), ("proof", proofValue proof),
    ("extData", extDataToValue extData)]

theorem rewritten_payloadValue (proof : ShieldedProofWireFormat) (extData : ExtDataWireFormat) :
    JsValue.rewritten num (payloadValue proof extData) = payloadValue proof extData := by
  have hproof : JsValue.rewritten num (proofValue proof) = proofValue proof := by
    unfold proofValue Untyped.nullifiersToValue proofToValue
    cases proof.inputNullifiers <;> cases proof.extDataHash <;>
      simp [Untyped.optional, JsValue.rewritten, JsValue.rewrittenFields, JsValue.rewrittenItems_strings]
  have hextData : JsValue.rewritten num (extDataToValue extData) = extDataToValue extData := by
    simp [extDataToValue, JsValue.rewritten, JsValue.rewrittenFields]
  simp [payloadValue, JsValue.rewritten, JsValue.rewrittenFields, hproof, hextData]

/-- **What an honest client writes is read**: the payload of its text. -/
theorem parse_payloadText {proof : ShieldedProofWireFormat} {extData : ExtDataWireFormat}
    {nullifier extDataHash : String} {nullifiers : List String} (h : PlainProof proof)
    (hnullifier : Plain nullifier) (hnullifiers : ∀ n ∈ nullifiers, Plain n)
    (hhash : Plain extDataHash) (hextData : PlainExtData extData) :
    Json.parse (payloadText (proofText proof nullifier nullifiers extDataHash)
        (extDataText extData)) =
      some (payloadValue (withNullifiers proof (nullifier :: nullifiers) extDataHash) extData) := by
  let text := payloadText (proofText proof nullifier nullifiers extDataHash) (extDataText extData)
  -- The nesting is four deep, and the text is longer than that.
  have hlen : text.length + 1 = text.length - 3 + 3 + 1 := by
    have hfour : 3 ≤ text.length := by
      change 3 ≤ (payloadText _ _).length
      rw [payloadText, Json.objectText, List.length_append, List.length_cons, List.map_cons,
        Json.commas, List.length_append, stringMember, Json.quote, List.length_append]
      simp only [List.length_append, List.length_cons]
      omega
    omega
  have hp := parses_proofText h hnullifier hnullifiers hhash (text.length - 3)
  have he := parses_extDataText hextData (text.length - 3 + 1)
  refine Json.parse_of_parses ?_
  change Json.Parses (Json.value (text.length + 1)) _ _
  rw [hlen]
  refine Json.parses_object (stringMember_read (by decide) (by decide) _) ?_
  exact .cons ⟨(by decide : Plain "proof"), rfl, hp⟩
    (.cons ⟨(by decide : Plain "extData"), rfl, he⟩ .nil)

theorem plain_of_alphanum {cs : List Char} (h : ∀ c ∈ cs, c.isAlphanum = true) :
    Plain (String.ofList cs) := by
  have hne : ∀ {c d : Char}, c.isAlphanum = true → d.isAlphanum = false → c ≠ d := by
    intro c d hc hd hcd
    rw [hcd, hd] at hc
    cases hc
  have hspace : ∀ {c : Char}, c.isAlphanum = true → 0x20 ≤ c.toNat := by
    intro c hc
    by_contra hlt
    have hlow : ∀ n : Fin 32, (Char.ofNat n).isAlphanum = false := by decide
    have hc' := hlow ⟨c.toNat, not_le.mp hlt⟩
    rw [Char.ofNat_toNat, hc] at hc'
    cases hc'
  rw [Plain, String.toList_ofList, Json.isPlain, List.all_eq_true]
  intro c hc
  have hcs := h c hc
  rw [Bool.and_eq_true, Bool.and_eq_true, decide_eq_true_eq, decide_eq_true_eq, decide_eq_true_eq]
  exact ⟨⟨hne hcs (by decide), hne hcs (by decide)⟩, hspace hcs⟩

theorem plain_repr (n : ℕ) : Plain n.repr := by
  have h : n.repr = String.ofList (Nat.toDigits 10 n) := by
    rw [← String.ofList_toList (s := n.repr), Nat.toList_repr]
  rw [h]
  refine plain_of_alphanum fun c hc => ?_
  have hdigit := Nat.isDigit_of_mem_toDigits (by decide) (by decide) hc
  rw [Char.isAlphanum, hdigit, Bool.or_true]

theorem plain_toHex (bytes : List UInt8) : Plain (String.ofList (Hex.toHex bytes)) := by
  refine plain_of_alphanum fun c hc => ?_
  obtain ⟨b, -, hc⟩ := List.mem_flatMap.mp hc
  obtain ⟨n, m, rfl⟩ := Hex.exists_digits b
  have halpha : ∀ k : Fin 16, (Nat.digitChar k).isAlphanum = true := by decide
  rw [Hex.byteToHex_ofNat, List.mem_pair] at hc
  obtain rfl | rfl := hc
  · exact halpha n
  · exact halpha m

theorem plainProof_proofWire (p : Pool.Proof) (inputNullifiers : Option (List String)) :
    PlainProof { proofWire p with inputNullifiers := inputNullifiers } where
  a := plain_toHex _
  b := plain_toHex _
  c := plain_toHex _
  root := plain_repr _
  outputCommitment0 := plain_repr _
  outputCommitment1 := plain_repr _
  publicAmount := plain_repr _
  aspMembershipRoot := plain_repr _
  aspNonMembershipRoot := plain_repr _

/-! ### A request that passes the checks -/

/-- A payload of the wire types under the requirements of a gate. -/
def requestValue (payload : Value) (requirements : PaymentRequirements) : JsValue :=
  some (.object [("x402Version", .number ['1']), ("paymentPayload", payload),
    ("paymentRequirements", requirementsToValue requirements)])

/-- The request of a payload of the wire types, as it is parsed. -/
def parsedOf (parsed : ParsedRequest) : ParsedVerifyRequest :=
  ⟨some (proofValue parsed.proof), some (extDataToValue parsed.extData),
    some (requirementsToValue parsed.requirements)⟩

theorem parseRequest_wire {parsed : ParsedRequest} {extDataHash : String}
    (hhash : parsed.proof.extDataHash = some extDataHash) (hne : extDataHash ≠ "") :
    parseRequest num (requestValue (payloadValue parsed.proof parsed.extData)
      parsed.requirements) = .ok (parsedOf parsed) := by
  have hextDataHash : prop (some (proofValue parsed.proof)) "extDataHash" =
      some (.string extDataHash) := by
    rw [proofValue, Untyped.prop_extDataHash, hhash]
    rfl
  have htrue : JsValue.falsy num (some (.string extDataHash)) = false := decide_eq_false hne
  have hproof : JsValue.falsy num (some (proofValue parsed.proof)) = false := rfl
  have hpayload : ∀ proof extData : Value,
      let payload := Value.object [("scheme", .string "shielded-exact"), ("proof", proof),
        ("extData", extData)]
      prop (some payload) "scheme" = some (.string "shielded-exact") ∧
        prop (some payload) "proof" = some proof ∧ prop (some payload) "extData" = some extData :=
    fun proof extData => ⟨rfl, rfl, rfl⟩
  obtain ⟨hscheme, hp, he⟩ := hpayload (proofValue parsed.proof) (extDataToValue parsed.extData)
  have hbody : ∀ payload : Value,
      prop (requestValue payload parsed.requirements) "paymentPayload" = some payload ∧
        prop (requestValue payload parsed.requirements) "paymentRequirements" =
          some (requirementsToValue parsed.requirements) := fun payload => ⟨rfl, rfl⟩
  obtain ⟨hb, hr⟩ := hbody (payloadValue parsed.proof parsed.extData)
  unfold parseRequest
  rw [hb, hr, payloadValue]
  dsimp only
  rw [hscheme, hp, he, hextDataHash, htrue, hproof]
  rfl

theorem checkRequest_parsedOf (sdk : Sdk) (parsed : ParsedRequest) :
    Untyped.checkRequest num sdk (parsedOf parsed) = checkRequest sdk parsed :=
  Untyped.checkRequest_toValue parsed _

theorem lookedAt_parsedOf (parsed : ParsedRequest) :
    lookedAt (parsedOf parsed) = some ((getInputNullifiers parsed.proof).map .string) := by
  rw [lookedAt, parsedOf, proofValue, Untyped.prop_inputNullifiers,
    Untyped.iterate_nullifiersToValue]

end Enclave.Facilitator

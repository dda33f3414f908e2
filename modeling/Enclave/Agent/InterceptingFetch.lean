import Enclave.Agent.PublicInputs
import Enclave.Gate.Middleware

/-! # The intercepting fetch

`packages/agent/src/fetch-interceptor.ts` and `note-selector.ts`: a request, and on a 402 the
payment, its settlement and a second request.  A call runs from one await to the next (`Call.next`);
what it sends in between is an event of the site.  The prover and the reading of the fixture index
are not part of this: what they yield comes with the events and the agents. -/

namespace Enclave.Agent

open Facilitator Gate Stellar

/-! ### Notes -/

/-- `EnclaveNote`, what is read before the prover starts. -/
structure EnclaveNote where
  nullifier : String
  amount : ℤ
deriving DecidableEq

/-- `selectNote`: the smallest that suffices. -/
def selectNote (notes : List EnclaveNote) (amount : ℤ) (spentNullifiers : List String) :
    Option EnclaveNote :=
  ((notes.filter fun n => n.nullifier ∉ spentNullifiers ∧ amount ≤ n.amount).insertionSort
    fun a b => a.amount ≤ b.amount).head?

/-! ### Agents and calls -/

/-- `proofPayload`. -/
structure ProofPayload where
  proof : Pool.Groth16Proof
  publicInputs : ShieldedProofPublicInputs
  extData : ExtDataLike
  nullifier : String

/-- `ProveResult`. -/
structure ProveResult where
  proofComponents : Pool.Groth16Proof
  publicInputBytes : List UInt8

/-- What `createInterceptingFetch` holds.  An entry of the fixture index is `some none` if it cannot
be decoded. -/
structure Interceptor where
  notes : List EnclaveNote
  fixtures : String → Option (Option ProofPayload)
  captureMode : Bool
  spentNullifiers : List String

/-- The header of `init` that a gate reads; a caller brings no payment of its own. -/
structure RequestInit where
  authorization : Option String

/-- How a call ends: with a response, an `EnclavePaymentError`, or another error. -/
inductive Result where
  | response (outcome : Outcome)
  | paymentError (reason : String)
  | error
deriving DecidableEq

/-- What a call waits for: request `i` at its gate, the prover, request `k` to `/settle`, the second
request; or its end. -/
inductive CallPhase where
  | requesting (i : ℕ)
  | proving (payReqs : PaymentRequirements) (note : EnclaveNote) (extData : ExtDataLike)
  | posting (k : ℕ)
  | retrying (i : ℕ)
  | finished (result : Result)

/-- A call of `interceptingFetch` for a resource behind a gate, and the second request that it has
sent. -/
structure Call where
  agent : ℕ
  url : String
  options : GateOptions
  init : RequestInit
  phase : CallPhase
  retried : Option ℕ

/-- Two results of `dummyEncryptedOutput`. -/
abbrev Outputs := (Fin 112 → UInt8) × (Fin 112 → UInt8)

/-- What an await of a call yields. -/
inductive CallEvent where
  /-- A response has come. -/
  | response (outputs : Outputs)
  | proved (outcome : Option ProveResult)
  /-- `fetch` rejects. -/
  | rejected

/-- A call and its agent after a turn, and the request that it has sent. -/
structure Turn where
  agent : Interceptor
  call : Call
  sends : Option (SiteEvent Event)

/-! ### Between two awaits -/

/-- `parsePaymentRequirements` of a gate's 402. -/
def parsePaymentRequirements (accepts : PaymentRequirements) : Option PaymentRequirements :=
  if accepts.payTo = "" ∨ accepts.maxAmountRequired = "" then none else some accepts

/-- `buildExtData`. -/
def buildExtData (payTo : String) (payAmount : ℤ) (outputs : Outputs) : ExtDataLike :=
  ⟨payTo, -payAmount, List.ofFn outputs.1, List.ofFn outputs.2⟩

/-- The body of the request to `/settle`. -/
def settleBody (payReqs : PaymentRequirements) (payload : ProofPayload) : Option Body :=
  some ⟨some ⟨some "shielded-exact", some (proofWire payload.proof payload.publicInputs),
    some (extDataWire payload.extData)⟩, some payReqs⟩

/-- The request that a gate sees. -/
def Call.request (call : Call) (xPayment : Option String) : SiteEvent Event :=
  .request call.options ⟨call.init.authorization, xPayment⟩

def Call.finish (call : Call) (agent : Interceptor) (result : Result) : Turn :=
  ⟨agent, { call with phase := .finished result }, none⟩

/-- The request to `/settle`. -/
def Call.post (call : Call) (site : Site Server) (agent : Interceptor)
    (payReqs : PaymentRequirements) (payload : ProofPayload) : Turn :=
  ⟨agent, { call with phase := .posting site.server.handlers.length },
    some (.server (.request (settleBody payReqs payload)))⟩

/-- The payment up to the prover or the request to `/settle`. -/
def Call.pay (sdk : Sdk) (call : Call) (site : Site Server) (agent : Interceptor)
    (outputs : Outputs) : Turn :=
  match parsePaymentRequirements call.options.paymentRequirements with
  | none => call.finish agent .error
  | some payReqs =>
      match Js.bigInt payReqs.maxAmountRequired with
      | none => call.finish agent .error
      | some payAmount =>
          match selectNote agent.notes payAmount agent.spentNullifiers with
          | none => call.finish agent (.paymentError "no_funds")
          | some note =>
              match if agent.captureMode then none else agent.fixtures call.url with
              | some (some payload) => call.post site agent payReqs payload
              | some none => call.finish agent .error
              | none =>
                  let extData := buildExtData payReqs.payTo payAmount outputs
                  match hashExtData sdk extData with
                  | none => call.finish agent .error
                  | some _ => ⟨agent, { call with phase := .proving payReqs note extData }, none⟩

def Call.afterFirst (sdk : Sdk) (call : Call) (site : Site Server) (agent : Interceptor)
    (outputs : Outputs) : Outcome → Turn
  | .response 402 _ => call.pay sdk site agent outputs
  | outcome => call.finish agent (.response outcome)

def Call.afterProve (call : Call) (site : Site Server) (agent : Interceptor)
    (payReqs : PaymentRequirements) (note : EnclaveNote) (extData : ExtDataLike) :
    Option ProveResult → Turn
  | none => call.finish agent (.paymentError "proof_failed")
  | some proveResult =>
      let agent := { agent with spentNullifiers := agent.spentNullifiers ++ [note.nullifier] }
      match decomposePublicInputs proveResult.publicInputBytes with
      | .error _ => call.finish agent .error
      | .ok publicInputs => call.post site agent payReqs
          ⟨proveResult.proofComponents, publicInputs, extData, note.nullifier⟩

/-- The response of `/settle`. -/
def Call.afterSettle (call : Call) (site : Site Server) (agent : Interceptor) : Response → Turn
  | .failure 409 _ => call.finish agent (.paymentError "already_spent")
  | .failure _ _ => call.finish agent (.paymentError "facilitator_rejected")
  | .success transaction =>
      let i := site.gates.length
      ⟨agent, { call with phase := .retrying i, retried := some i },
        some (call.request (some transaction))⟩

def Call.afterRetry (call : Call) (agent : Interceptor) : Outcome → Turn
  | .response 402 _ => call.finish agent (.paymentError "retry_402")
  | outcome => call.finish agent (.response outcome)

/-- A request at a gate has its response. -/
def outcomeAt (site : Site Server) (i : ℕ) : Option Outcome :=
  match site.gates[i]?.map GateRequest.phase with
  | some (.done outcome) => some outcome
  | _ => none

/-- A request to `/settle` has its response. -/
def responseAt (site : Site Server) (k : ℕ) : Option Response :=
  match site.server.handlers[k]?.map Handler.phase with
  | some (.answered response) => some response
  | _ => none

/-- A call from one await to the next; `none` if it does not wait for this. -/
def Call.next (sdk : Sdk) (call : Call) (site : Site Server) (agent : Interceptor) :
    CallEvent → Option Turn
  | .response outputs =>
      match call.phase with
      | .requesting i => (outcomeAt site i).map (call.afterFirst sdk site agent outputs)
      | .posting k => (responseAt site k).map (call.afterSettle site agent)
      | .retrying i => (outcomeAt site i).map (call.afterRetry agent)
      | _ => none
  | .proved outcome =>
      match call.phase with
      | .proving payReqs note extData =>
          some (call.afterProve site agent payReqs note extData outcome)
      | _ => none
  | .rejected =>
      match call.phase with
      | .proving _ _ _ => none
      | .finished _ => none
      | _ => some (call.finish agent .error)

/-! ### What a turn sends -/

/-- The request of a turn is to `/settle`, or it is the second request, with the transaction of a
settlement. -/
inductive TurnCase (call : Call) (site : Site Server) (t : Turn) : Prop
  | silent : t.call.retried = call.retried → t.sends = none → TurnCase call site t
  | posts (body : Option Body) : t.call.retried = call.retried →
      t.sends = some (.server (.request body)) → TurnCase call site t
  | retries (k : ℕ) (transaction : String) : responseAt site k = some (.success transaction) →
      t.call.retried = some site.gates.length →
      t.sends = some (call.request (some transaction)) → TurnCase call site t

variable {sdk : Sdk} {call : Call} {site : Site Server} {agent : Interceptor} {e : CallEvent}
  {t : Turn}

theorem pay_case (outputs : Outputs) : TurnCase call site (call.pay sdk site agent outputs) := by
  unfold Call.pay
  split
  · exact .silent rfl rfl
  · split
    · exact .silent rfl rfl
    · split
      · exact .silent rfl rfl
      · split
        · exact .posts _ rfl rfl
        · exact .silent rfl rfl
        · dsimp only
          split
          · exact .silent rfl rfl
          · exact .silent rfl rfl

theorem afterProve_case (payReqs : PaymentRequirements) (note : EnclaveNote)
    (extData : ExtDataLike) (outcome : Option ProveResult) :
    TurnCase call site (call.afterProve site agent payReqs note extData outcome) := by
  unfold Call.afterProve
  split
  · exact .silent rfl rfl
  · dsimp only
    split
    · exact .silent rfl rfl
    · exact .posts _ rfl rfl

/-- **What a turn can do.** -/
theorem turn_cases (hnext : call.next sdk site agent e = some t) : TurnCase call site t := by
  cases e with
  | response outputs =>
      simp only [Call.next] at hnext
      split at hnext
      · obtain ⟨outcome, -, rfl⟩ := Option.map_eq_some_iff.mp hnext
        unfold Call.afterFirst
        split
        · exact pay_case outputs
        · exact .silent rfl rfl
      · obtain ⟨response, hresponse, rfl⟩ := Option.map_eq_some_iff.mp hnext
        unfold Call.afterSettle
        split
        · exact .silent rfl rfl
        · exact .silent rfl rfl
        · exact .retries _ _ hresponse rfl rfl
      · obtain ⟨outcome, -, rfl⟩ := Option.map_eq_some_iff.mp hnext
        unfold Call.afterRetry
        split
        · exact .silent rfl rfl
        · exact .silent rfl rfl
      · cases hnext
  | proved outcome =>
      simp only [Call.next] at hnext
      split at hnext
      · obtain rfl := Option.some.inj hnext
        exact afterProve_case _ _ _ outcome
      · cases hnext
  | rejected =>
      simp only [Call.next] at hnext
      split at hnext
      · cases hnext
      · cases hnext
      · obtain rfl := Option.some.inj hnext
        exact .silent rfl rfl

end Enclave.Agent

import Enclave.Facilitator.ReplayCache
import Enclave.Facilitator.PoolTransaction
import Enclave.Lib.Run

/-! # The settle route

`facilitator/src/routes/settle.ts`, `mock/offChainVerify.ts` and `chain/submitPoolTransaction.ts`
as one process: requests run one at a time between two awaits, and any of them may be resumed
next.  A handler that waits is a `Phase`; what its promise yields is an `Answer`, `none` where the
promise is rejected.  A request is everything up to its first await (`settle`), an answer everything
up to the next one (`resume`).

`resume_cases` says what a handler can do to the cache. -/

namespace Enclave.Facilitator

open Stellar

/-! ### Handlers -/

/-- `FacilitatorMode`. -/
inductive Mode where
  | onChain
  | mock
deriving DecidableEq, Repr

/-- The parts of `FacilitatorState` and `Env` that stay the same. -/
structure Config where
  sdk : Sdk
  mode : Mode
  vKeyLoaded : Bool
  clientConnected : Bool
  facilitatorAddress : String
  minXlmStroops : ℤ

/-- An answer of `/settle`. -/
inductive Response where
  | success (transaction : String)
  | failure (status : ℕ) (errorReason : String)
deriving DecidableEq

/-- `SubmitResult` so far: the transaction's hash. -/
abbrev TxHash := String

/-- What a handler waits for, or its answer. -/
inductive Phase where
  | verifying
  | readingSnapshot
  | preparing (args : TransactArgs)
  | sending (args : TransactArgs)
  | polling (args : TransactArgs) (hash : TxHash)
  | appending (transaction : String)
  | answered (response : Response)

/-- A request that has been parsed, with its claims. -/
structure Handler where
  request : Option ParsedRequest
  claimedOrder : List String
  phase : Phase

/-- `send`: its status and hash, and the name of the error in its result. -/
structure SendAnswer where
  isError : Bool
  hash : TxHash
  errorDetails : String

/-- `confirmation`. -/
inductive Confirmation where
  | success
  | failed (resultXdr : String)
  | notFound

/-- What an await yields. -/
inductive Answer where
  | verified (outcome : Option Bool)
  | snapshot (outcome : Option BalanceSnapshot)
  /-- `getAccount`, `build`, `prepareTransaction` and `sign`. -/
  | prepared (outcome : Option Unit)
  | sent (outcome : Option SendAnswer)
  | polled (outcome : Option Confirmation)
  /-- The deadline has passed. -/
  | timedOut
  /-- `settlementsLog.append`, done or rejected. -/
  | appended

/-- What happens at the facilitator: a request comes in, or a promise settles. -/
inductive Event where
  | request (body : Option Body)
  | answer (i : ℕ) (a : Answer)

/-- The process: its cache, and its requests in the order they came. -/
structure Server where
  cache : NullifierCache
  handlers : List Handler

/-! ### What runs between two awaits -/

variable (cfg : Config)

/-- A new cache with the entries of `hydrateNullifierCache`. -/
def Server.boot (entries : List (String × String)) : Server :=
  ⟨NullifierCache.hydrate cfg.sdk.toLowerCase (fun _ => none) entries, []⟩

/-- Answer with `reason` after all claims are released. -/
def fail (cache : NullifierCache) (claimedOrder : List String) (status : ℕ) (reason : String) :
    NullifierCache × Phase :=
  (NullifierCache.releaseAll cfg.sdk.toLowerCase cache claimedOrder,
    .answered (.failure status reason))

/-- Commit all claims, then wait for the log. -/
def succeed (cache : NullifierCache) (claimedOrder : List String) (transaction : String) :
    NullifierCache × Phase :=
  (NullifierCache.commitAll cfg.sdk.toLowerCase cache claimedOrder transaction,
    .appending transaction)

/-- `catch (err)` for an error that is no `SubmitError`. -/
def caught (cache : NullifierCache) (claimedOrder : List String) : NullifierCache × Phase :=
  fail cfg cache claimedOrder 500 "pool_rejected_unknown"

/-- `publicSignals` of `offChainVerify`. -/
def publicSignals (proof : ShieldedProofWireFormat) : List String :=
  [proof.root, proof.publicAmount, proof.extDataHash.getD ""] ++ getInputNullifiers proof ++
    [proof.outputCommitment0, proof.outputCommitment1, proof.aspMembershipRoot,
      proof.aspNonMembershipRoot]

/-- `mockTxHash`. -/
def mockTxHash (proof : ShieldedProofWireFormat) : String :=
  let first := Js.strip0x (Js.codeUnits ((getInputNullifiers proof).headD ""))
  "mock_" ++ String.ofList ((Js.codeUnits (cfg.sdk.toLowerCase (String.ofList first))).take 16)

/-- The start of step 4, all claims made. -/
def modeSplit (cache : NullifierCache) (proof : ShieldedProofWireFormat)
    (claimedOrder : List String) : NullifierCache × Phase :=
  match cfg.mode with
  | .mock =>
      if !cfg.vKeyLoaded then caught cfg cache claimedOrder
      -- `offChainVerify` throws before it calls the verifier.
      else if getInputNullifiers proof = [] then caught cfg cache claimedOrder
      else (cache, .verifying)
  | .onChain =>
      if !cfg.clientConnected then caught cfg cache claimedOrder
      else (cache, .readingSnapshot)

/-- Steps 3 and 4 up to the first await. -/
def claimNullifiers (cache : NullifierCache) (parsed : ParsedRequest) :
    NullifierCache × Handler :=
  match NullifierCache.claimAll cfg.sdk.toLowerCase cache []
      (getInputNullifiers parsed.proof) with
  | (cache', none) => (cache', ⟨some parsed, [], .answered (.failure 409 "already_spent")⟩)
  | (cache', some claimedOrder) =>
      let r := modeSplit cfg cache' parsed.proof claimedOrder
      (r.1, ⟨some parsed, claimedOrder, r.2⟩)

/-- A request up to its first await. -/
def settle (cache : NullifierCache) (body : Option Body) : NullifierCache × Handler :=
  match parseSettle body with
  | .error _ => (cache, ⟨none, [], .answered (.failure 400 "malformed_payload")⟩)
  | .ok parsed =>
      match checkRequest cfg.sdk parsed with
      | none => (cache, ⟨some parsed, [], .answered (.failure 500 "internal_error")⟩)
      | some (.error reason) => (cache, ⟨some parsed, [], .answered (.failure 400 reason)⟩)
      | some (.ok ()) => claimNullifiers cfg cache parsed

/-- The mock mode, the verifier's answer at hand. -/
def afterVerify (cache : NullifierCache) (h : Handler) (parsed : ParsedRequest) :
    Option Bool → NullifierCache × Phase
  | none => caught cfg cache h.claimedOrder
  | some false => fail cfg cache h.claimedOrder 500 "proof_verification_failed"
  | some true => succeed cfg cache h.claimedOrder (mockTxHash cfg parsed.proof)

/-- The solvency check and the arguments, the balances at hand. -/
def afterSnapshot (cache : NullifierCache) (h : Handler) (parsed : ParsedRequest) :
    Option BalanceSnapshot → NullifierCache × Phase
  | none => caught cfg cache h.claimedOrder
  | some snapshot =>
      match checkSolvency snapshot parsed.requirements cfg.minXlmStroops with
      | none => caught cfg cache h.claimedOrder
      | some (.error reason) => fail cfg cache h.claimedOrder 400 reason
      | some (.ok ()) =>
          match buildPoolTransactArgs cfg.sdk parsed.proof parsed.extData
              cfg.facilitatorAddress with
          | .error _ => caught cfg cache h.claimedOrder
          | .ok args => (cache, .preparing args)

/-- The answer of `sendTransaction`. -/
def afterSend (cache : NullifierCache) (h : Handler) (args : TransactArgs) :
    Option SendAnswer → NullifierCache × Phase
  | none => caught cfg cache h.claimedOrder
  | some send =>
      if send.isError then fail cfg cache h.claimedOrder 500 (mapSubmitError send.errorDetails)
      else (cache, .polling args send.hash)

/-- One turn of the polling loop. -/
def afterPoll (cache : NullifierCache) (h : Handler) (args : TransactArgs) (hash : TxHash) :
    Option Confirmation → NullifierCache × Phase
  | none => caught cfg cache h.claimedOrder
  | some .success => succeed cfg cache h.claimedOrder hash
  | some (.failed resultXdr) => fail cfg cache h.claimedOrder 500 (mapSubmitError resultXdr)
  | some .notFound => (cache, .polling args hash)

/-- A handler from one await to the next; `none` if it does not wait for this. -/
def resume (cache : NullifierCache) (h : Handler) : Answer → Option (NullifierCache × Phase)
  | .verified outcome =>
      match h.phase, h.request with
      | .verifying, some parsed => some (afterVerify cfg cache h parsed outcome)
      | _, _ => none
  | .snapshot outcome =>
      match h.phase, h.request with
      | .readingSnapshot, some parsed => some (afterSnapshot cfg cache h parsed outcome)
      | _, _ => none
  | .prepared outcome =>
      match h.phase with
      | .preparing args =>
          some (if outcome = some () then (cache, .sending args)
            else caught cfg cache h.claimedOrder)
      | _ => none
  | .sent outcome =>
      match h.phase with
      | .sending args => some (afterSend cfg cache h args outcome)
      | _ => none
  | .polled outcome =>
      match h.phase with
      | .polling args hash => some (afterPoll cfg cache h args hash outcome)
      | _ => none
  | .timedOut =>
      match h.phase with
      | .polling _ _ => some (fail cfg cache h.claimedOrder 500 "submit_timeout")
      | _ => none
  | .appended =>
      match h.phase with
      | .appending transaction => some (cache, .answered (.success transaction))
      | _ => none

def Server.next (s : Server) : Event → Option Server
  | .request body =>
      let r := settle cfg s.cache body
      some ⟨r.1, s.handlers ++ [r.2]⟩
  | .answer i a =>
      s.handlers[i]?.bind fun h => (resume cfg s.cache h a).map fun r =>
        ⟨r.1, s.handlers.set i { h with phase := r.2 }⟩

def Server.Step (s : Server) (e : Event) (s' : Server) : Prop := s.next cfg e = some s'

/-! ### What a handler can do -/

/-- The handler has not come to its commits or its answer. -/
def Phase.Pending : Phase → Prop
  | .appending _ => False
  | .answered _ => False
  | _ => True

def Phase.Settled : Phase → Prop
  | .appending _ => True
  | .answered (.success _) => True
  | _ => False

def Phase.Failed : Phase → Prop
  | .answered (.failure _ _) => True
  | _ => False

variable {cfg} {cache cache' : NullifierCache} {h : Handler} {phase' : Phase} {a : Answer}
  {body : Option Body}

/-- A handler that is resumed waits again, gives its claims back, commits them or answers. -/
inductive ResumeCase (cfg : Config) (cache : NullifierCache) (h : Handler) :
    NullifierCache → Phase → Prop
  | waits {phase' : Phase} : h.phase.Pending → phase'.Pending → ResumeCase cfg cache h cache phase'
  | fails {phase' : Phase} : h.phase.Pending → phase'.Failed → ResumeCase cfg cache h
      (NullifierCache.releaseAll cfg.sdk.toLowerCase cache h.claimedOrder) phase'
  | commits (transaction : String) : h.phase.Pending → ResumeCase cfg cache h
      (NullifierCache.commitAll cfg.sdk.toLowerCase cache h.claimedOrder transaction)
      (.appending transaction)
  | answers (transaction : String) : h.phase = .appending transaction →
      ResumeCase cfg cache h cache (.answered (.success transaction))

theorem afterVerify_case (hp : h.phase.Pending) (parsed : ParsedRequest) (outcome : Option Bool) :
    ResumeCase cfg cache h (afterVerify cfg cache h parsed outcome).1
      (afterVerify cfg cache h parsed outcome).2 := by
  match outcome with
  | none => exact .fails hp trivial
  | some false => exact .fails hp trivial
  | some true => exact .commits _ hp

theorem afterSnapshot_case (hp : h.phase.Pending) (parsed : ParsedRequest)
    (outcome : Option BalanceSnapshot) :
    ResumeCase cfg cache h (afterSnapshot cfg cache h parsed outcome).1
      (afterSnapshot cfg cache h parsed outcome).2 := by
  unfold afterSnapshot
  split
  · exact .fails hp trivial
  · split
    · exact .fails hp trivial
    · exact .fails hp trivial
    · split
      · exact .fails hp trivial
      · exact .waits hp trivial

theorem afterSnapshot_of_ok {parsed : ParsedRequest} {snapshot : BalanceSnapshot}
    {args : TransactArgs}
    (hsolvency : checkSolvency snapshot parsed.requirements cfg.minXlmStroops = some (.ok ()))
    (hargs : buildPoolTransactArgs cfg.sdk parsed.proof parsed.extData cfg.facilitatorAddress =
      .ok args) :
    afterSnapshot cfg cache h parsed (some snapshot) = (cache, .preparing args) := by
  simp only [afterSnapshot, hsolvency, hargs]

theorem afterSend_case (hp : h.phase.Pending) (args : TransactArgs)
    (outcome : Option SendAnswer) :
    ResumeCase cfg cache h (afterSend cfg cache h args outcome).1
      (afterSend cfg cache h args outcome).2 := by
  unfold afterSend
  split
  · exact .fails hp trivial
  · split
    · exact .fails hp trivial
    · exact .waits hp trivial

theorem afterPoll_case (hp : h.phase.Pending) (args : TransactArgs) (hash : TxHash)
    (outcome : Option Confirmation) :
    ResumeCase cfg cache h (afterPoll cfg cache h args hash outcome).1
      (afterPoll cfg cache h args hash outcome).2 := by
  match outcome with
  | none => exact .fails hp trivial
  | some .success => exact .commits _ hp
  | some (.failed _) => exact .fails hp trivial
  | some .notFound => exact .waits hp trivial

/-- **What a handler can do** between two awaits. -/
theorem resume_cases (hresume : resume cfg cache h a = some (cache', phase')) :
    ResumeCase cfg cache h cache' phase' := by
  cases a with
  | verified outcome =>
      simp only [resume] at hresume
      split at hresume
      · rename_i parsed hphase hrequest
        have hcase := @afterVerify_case cfg cache h (by rw [hphase]; trivial)
          parsed outcome
        rwa [Option.some.inj hresume] at hcase
      · cases hresume
  | snapshot outcome =>
      simp only [resume] at hresume
      split at hresume
      · rename_i parsed hphase hrequest
        have hcase := @afterSnapshot_case cfg cache h (by rw [hphase]; trivial)
          parsed outcome
        rwa [Option.some.inj hresume] at hcase
      · cases hresume
  | prepared outcome =>
      simp only [resume] at hresume
      split at hresume
      · rename_i args hphase
        have hp : h.phase.Pending := by rw [hphase]; trivial
        split at hresume
        · cases hresume
          exact .waits hp trivial
        · cases hresume
          exact .fails hp trivial
      · cases hresume
  | sent outcome =>
      simp only [resume] at hresume
      split at hresume
      · rename_i args hphase
        have hcase := @afterSend_case cfg cache h (by rw [hphase]; trivial)
          args outcome
        rwa [Option.some.inj hresume] at hcase
      · cases hresume
  | polled outcome =>
      simp only [resume] at hresume
      split at hresume
      · rename_i args hash hphase
        have hcase := @afterPoll_case cfg cache h (by rw [hphase]; trivial)
          args hash outcome
        rwa [Option.some.inj hresume] at hcase
      · cases hresume
  | timedOut =>
      simp only [resume] at hresume
      split at hresume
      · rename_i args hash hphase
        cases hresume
        exact .fails (by rw [hphase]; trivial) trivial
      · cases hresume
  | appended =>
      simp only [resume] at hresume
      split at hresume
      · rename_i transaction hphase
        cases hresume
        exact .answers transaction hphase
      · cases hresume

/-- A request that waits has passed its checks and claimed all its nullifiers. -/
inductive SettleCase (cfg : Config) (cache : NullifierCache) (body : Option Body) :
    NullifierCache → Handler → Prop
  | fails {h : Handler} : h.phase.Failed → SettleCase cfg cache body cache h
  | waits {parsed : ParsedRequest} {cache' : NullifierCache} {phase : Phase} :
      parseSettle body = .ok parsed → checkRequest cfg.sdk parsed = some (.ok ()) →
      NullifierCache.Claimed cfg.sdk.toLowerCase cache (getInputNullifiers parsed.proof) cache' →
      phase = .verifying ∧ cfg.mode = .mock ∧ getInputNullifiers parsed.proof ≠ [] ∨
        phase = .readingSnapshot ∧ cfg.mode = .onChain →
      SettleCase cfg cache body cache' ⟨some parsed, getInputNullifiers parsed.proof, phase⟩

theorem modeSplit_cases (cache : NullifierCache) (proof : ShieldedProofWireFormat)
    (claimedOrder : List String) :
    ((modeSplit cfg cache proof claimedOrder).1 =
        NullifierCache.releaseAll cfg.sdk.toLowerCase cache claimedOrder ∧
      (modeSplit cfg cache proof claimedOrder).2.Failed) ∨
    modeSplit cfg cache proof claimedOrder = (cache, .verifying) ∧ cfg.mode = .mock ∧
      getInputNullifiers proof ≠ [] ∨
    modeSplit cfg cache proof claimedOrder = (cache, .readingSnapshot) ∧ cfg.mode = .onChain := by
  unfold modeSplit
  match hmode : cfg.mode with
  | .mock =>
      dsimp only
      split
      · exact .inl ⟨rfl, trivial⟩
      · split
        · exact .inl ⟨rfl, trivial⟩
        · rename_i hne
          exact .inr (.inl ⟨rfl, rfl, hne⟩)
  | .onChain =>
      dsimp only
      split
      · exact .inl ⟨rfl, trivial⟩
      · exact .inr (.inr ⟨rfl, rfl⟩)

theorem settle_of_passes {parsed : ParsedRequest} (hparse : parseSettle body = .ok parsed)
    (hcheck : checkRequest cfg.sdk parsed = some (.ok ())) :
    settle cfg cache body = claimNullifiers cfg cache parsed := by
  simp only [settle, hparse, hcheck]

/-- **What a request can do** up to its first await. -/
theorem settle_cases (hsettle : settle cfg cache body = (cache', h)) :
    SettleCase cfg cache body cache' h := by
  unfold settle at hsettle
  split at hsettle
  · cases hsettle
    exact .fails trivial
  · rename_i parsed hparse
    split at hsettle
    · cases hsettle
      exact .fails trivial
    · cases hsettle
      exact .fails trivial
    · rename_i hcheck
      unfold claimNullifiers at hsettle
      obtain ⟨claimed, hclaim, hclaimed⟩ | hclaim := NullifierCache.claimAll_spec
        (getInputNullifiers parsed.proof)
      · rw [hclaim] at hsettle
        dsimp only at hsettle
        obtain ⟨hcache, hfailed⟩ | ⟨hsplit, hwhy⟩ | ⟨hsplit, hwhy⟩ := @modeSplit_cases cfg
          claimed parsed.proof (getInputNullifiers parsed.proof)
        · cases hsettle
          rw [hcache, hclaimed.releaseAll]
          exact .fails hfailed
        · rw [hsplit] at hsettle
          cases hsettle
          exact .waits hparse hcheck hclaimed (.inl ⟨rfl, hwhy⟩)
        · rw [hsplit] at hsettle
          cases hsettle
          exact .waits hparse hcheck hclaimed (.inr ⟨rfl, hwhy⟩)
      · rw [hclaim] at hsettle
        cases hsettle
        exact .fails trivial

/-- **What one event can do.** -/
theorem Server.step_cases {s s' : Server} {e : Event} (hstep : s.Step cfg e s') :
    (∃ body h, e = .request body ∧ s'.handlers = s.handlers ++ [h] ∧
      SettleCase cfg s.cache body s'.cache h) ∨
    (∃ i a h phase', e = .answer i a ∧ s.handlers[i]? = some h ∧
      s'.handlers = s.handlers.set i { h with phase := phase' } ∧
      resume cfg s.cache h a = some (s'.cache, phase') ∧
      ResumeCase cfg s.cache h s'.cache phase') := by
  cases e with
  | request body =>
      cases hstep
      exact .inl ⟨body, _, rfl, rfl, settle_cases rfl⟩
  | answer i a =>
      unfold Server.Step Server.next at hstep
      obtain ⟨h, hlookup, hrest⟩ := Option.bind_eq_some_iff.mp hstep
      obtain ⟨⟨cache', phase'⟩, hresume, rfl⟩ := Option.map_eq_some_iff.mp hrest
      exact .inr ⟨i, a, h, phase', rfl, hlookup, rfl, hresume, resume_cases hresume⟩

/-! ### A sample request -/

/-- The words and bytes of a sample proof. -/
def samplePoolProof (inputNullifiers : List U256) : Pool.Proof where
  proof := ⟨List.replicate 64 0, List.replicate 128 0, List.replicate 64 0⟩
  root := 0
  inputNullifiers := inputNullifiers
  outputCommitment0 := 1
  outputCommitment1 := 2
  publicAmount := bn256Modulus - 5
  extDataHash := 0xa009a6ccc646a7ef3ae1fe199e39d54d254c10729a26b44c6b679a9adf517ad
  aspMembershipRoot := 0
  aspNonMembershipRoot := 0

/-- The proof by the wire, its nullifiers spelled in any way. -/
def sampleProof (inputNullifiers : List String) : ShieldedProofWireFormat :=
  { proofWire (samplePoolProof []) with inputNullifiers := some inputNullifiers }

/-- A request to pay 5. -/
def sampleBody (inputNullifiers : List String) : Option Body :=
  some ⟨some ⟨some "shielded-exact", some (sampleProof inputNullifiers),
    some (extDataWire (sampleExtData (-5)))⟩, some sampleRequirements⟩

def sampleConfig (mode : Mode) : Config := ⟨sampleSdk, mode, true, true, sampleFacilitator, 0⟩

theorem checkRequest_sample (mode : Mode) (inputNullifiers : List String) :
    checkRequest (sampleConfig mode).sdk ⟨sampleProof inputNullifiers,
      extDataWire (sampleExtData (-5)), sampleRequirements⟩ = some (.ok ()) :=
  @checkRequest_of_meets sampleSdk _ _ (sampleProof inputNullifiers) _
    sampleExtData_meets hashExtData_sample rfl

theorem next_sample (mode : Mode) (s : Server) (inputNullifiers : List String) :
    s.next (sampleConfig mode) (.request (sampleBody inputNullifiers)) =
      let r := claimNullifiers (sampleConfig mode) s.cache
        ⟨sampleProof inputNullifiers, extDataWire (sampleExtData (-5)), sampleRequirements⟩
      some ⟨r.1, s.handlers ++ [r.2]⟩ := by
  have hsettle : settle (sampleConfig mode) s.cache (sampleBody inputNullifiers) =
      claimNullifiers (sampleConfig mode) s.cache
        ⟨sampleProof inputNullifiers, extDataWire (sampleExtData (-5)), sampleRequirements⟩ :=
    settle_of_passes rfl (checkRequest_sample mode inputNullifiers)
  rw [Server.next, hsettle]

end Enclave.Facilitator

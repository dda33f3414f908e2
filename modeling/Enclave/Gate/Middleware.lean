import Enclave.Facilitator.VerifyRoute

/-! # The gate

`gate/src/middleware.ts` in front of any number of routes, with one facilitator.  A gate keeps
nothing between requests: it asks `/verify`, which looks at the nullifiers that `/settle` has
committed (`Site.next`).  Of the process behind `/settle` only the cache matters (`Settling`). -/

namespace Enclave.Gate

open Facilitator

/-! ### Requests at a gate -/

/-- `EnclaveGateOptions`; `allowedAuthKeys` maps keys to organisations. -/
structure GateOptions where
  orgId : String
  paymentRequirements : PaymentRequirements
  allowedAuthKeys : Option (List (String × String))

/-- The headers that a gate reads. -/
structure HttpRequest where
  authorization : Option String
  xPayment : Option String

/-- `next()`, or a response. -/
inductive Outcome where
  | next
  | response (status : ℕ) (error : String)
deriving DecidableEq

/-- A request to `/verify` on its way, or at `/verify`; or the end. -/
inductive GatePhase where
  | calling (payload : Json.Value)
  | atVerify (h : VerifyHandler)
  | done (outcome : Outcome)

/-- A request at a gate. -/
structure GateRequest where
  options : GateOptions
  request : HttpRequest
  phase : GatePhase

/-- `startsWith("Bearer ")` and `slice(7)`; an empty key counts as none. -/
def bearerKey (authorization : Option String) : Option String :=
  authorization.bind fun header =>
    if header.toList.take 7 = "Bearer ".toList ∧ header.toList.drop 7 ≠ [] then
      some (String.ofList (header.toList.drop 7))
    else none

/-- The check of the authorisation header: the error of the response, if there is one. -/
def authError (options : GateOptions) (request : HttpRequest) : Option String :=
  match options.allowedAuthKeys with
  | none => none
  | some [] => none
  | some keys =>
      match bearerKey request.authorization with
      | none => some "authorization_required"
      | some key =>
          if (keys.find? fun e => e.1 = key).map Prod.snd = some options.orgId then none
          else some "org_not_authorized"

/-- The gate up to its request to `/verify`. -/
def withEnclaveGate (options : GateOptions) (request : HttpRequest) : GatePhase :=
  match authError options request with
  | some error => .done (.response 402 error)
  | none =>
      match request.xPayment with
      | none => .done (.response 402 "X-PAYMENT header required")
      | some header =>
          if header = "" then .done (.response 402 "X-PAYMENT header required")
          else
            match Json.parse header.toList with
            | none => .done (.response 402 "malformed_x_payment")
            | some payload => .calling payload

/-- The body of the request to `/verify`: the payload as it was read, whatever it is. -/
def verifyBody (num : Numerals) (options : GateOptions) (payload : Json.Value) : JsValue :=
  requestValue (JsValue.rewritten num payload) options.paymentRequirements

/-- The end of a request, the reply at hand; `verifyWithFacilitator` throws if it is no success. -/
def afterReply : VerifyReply → Outcome
  | .valid => .next
  | .invalid reason => .response 402 reason
  | .error _ => .response 500 "gate verification failed"

/-! ### The site -/

/-- A process behind `/settle`, and its nullifier cache. -/
structure Settling (S E : Type) where
  next : S → E → Option S
  cache : S → NullifierCache

/-- The facilitator, the requests at the gates, and other requests to `/verify`. -/
structure Site (S : Type) where
  server : S
  gates : List GateRequest
  verifies : List VerifyHandler

/-- What happens. -/
inductive SiteEvent (E : Type) where
  | server (e : E)
  | request (options : GateOptions) (request : HttpRequest)
  | deliver (i : ℕ)
  | verify (i : ℕ) (a : VerifyAnswer)
  | reply (i : ℕ)
  /-- `fetch` rejects. -/
  | lost (i : ℕ)
  | callVerify (body : JsValue)
  | resumeVerify (k : ℕ) (a : VerifyAnswer)

section

variable {S E : Type} (num : Numerals) (cfg : Config) (p : Settling S E)

def Site.boot (server : S) : Site S := ⟨server, [], []⟩

/-- The phase of a request at a gate after an event of its own. -/
def GatePhase.next (cache : NullifierCache) (g : GateRequest) : SiteEvent E → Option GatePhase
  | .deliver _ =>
      match g.phase with
      | .calling payload => some (.atVerify (verify num cfg cache (verifyBody num g.options payload)))
      | _ => none
  | .verify _ a =>
      match g.phase with
      | .atVerify h =>
          (resumeVerify num cfg h a).map fun phase => .atVerify { h with phase := phase }
      | _ => none
  | .reply _ =>
      match g.phase with
      | .atVerify ⟨_, .replied reply⟩ => some (.done (afterReply reply))
      | _ => none
  | .lost _ =>
      match g.phase with
      | .done _ => none
      | _ => some (.done (.response 500 "gate verification failed"))
  | _ => none

/-- The request at a gate that an event is about. -/
def SiteEvent.gate : SiteEvent E → Option ℕ
  | .deliver i => some i
  | .verify i _ => some i
  | .reply i => some i
  | .lost i => some i
  | _ => none

def Site.next (s : Site S) (e : SiteEvent E) : Option (Site S) :=
  match e with
  | .server e => (p.next s.server e).map fun server => { s with server := server }
  | .request options request => some { s with
      gates := s.gates ++ [⟨options, request, withEnclaveGate options request⟩] }
  | .callVerify body => some { s with
      verifies := s.verifies ++ [Facilitator.verify num cfg (p.cache s.server) body] }
  | .resumeVerify k a => do
      let h ← s.verifies[k]?
      let phase ← Facilitator.resumeVerify num cfg h a
      return { s with verifies := s.verifies.set k { h with phase := phase } }
  | e => do
      let i ← e.gate
      let g ← s.gates[i]?
      let phase ← GatePhase.next num cfg (p.cache s.server) g e
      return { s with gates := s.gates.set i { g with phase := phase } }

def Site.Step (s : Site S) (e : SiteEvent E) (s' : Site S) : Prop := s.next num cfg p e = some s'

end

/-! ### What becomes of a request -/

variable {S E : Type} {num : Numerals} {cfg : Config} {p : Settling S E}

theorem withEnclaveGate_cases (options : GateOptions) (request : HttpRequest) :
    (∃ status error, withEnclaveGate options request = .done (.response status error)) ∨
    ∃ payload, withEnclaveGate options request = .calling payload ∧
      (request.xPayment.bind fun header => Json.parse header.toList) = some payload := by
  unfold withEnclaveGate
  split
  · exact .inl ⟨_, _, rfl⟩
  · split
    · exact .inl ⟨_, _, rfl⟩
    · rename_i header hheader
      split
      · exact .inl ⟨_, _, rfl⟩
      · split
        · exact .inl ⟨_, _, rfl⟩
        · rename_i payload hparse
          refine .inr ⟨payload, rfl, ?_⟩
          rw [hheader, Option.bind_some, hparse]

/-- **What an event does at the gates**: nothing, a new request, or the next phase of one. -/
theorem Site.step_cases {s s' : Site S} {e : SiteEvent E} (hstep : s.Step num cfg p e s') :
    s'.gates = s.gates ∨
    (∃ options request, s'.gates = s.gates ++ [⟨options, request, withEnclaveGate options request⟩]) ∨
    ∃ i g phase', e.gate = some i ∧ s.gates[i]? = some g ∧
      GatePhase.next num cfg (p.cache s.server) g e = some phase' ∧
      s'.gates = s.gates.set i { g with phase := phase' } := by
  have hgate : ∀ {e : SiteEvent E}, (do
      let i ← e.gate
      let g ← s.gates[i]?
      let phase ← GatePhase.next num cfg (p.cache s.server) g e
      return { s with gates := s.gates.set i { g with phase := phase } } : Option (Site S)) =
        some s' →
      ∃ i g phase', e.gate = some i ∧ s.gates[i]? = some g ∧
        GatePhase.next num cfg (p.cache s.server) g e = some phase' ∧
        s'.gates = s.gates.set i { g with phase := phase' } := by
    intro e h
    obtain ⟨i, hi, h⟩ := Option.bind_eq_some_iff.mp h
    obtain ⟨g, hg, h⟩ := Option.bind_eq_some_iff.mp h
    obtain ⟨phase', hphase, h⟩ := Option.bind_eq_some_iff.mp h
    cases h
    exact ⟨i, g, phase', hi, hg, hphase, rfl⟩
  cases e with
  | server e =>
      obtain ⟨server, -, rfl⟩ := Option.map_eq_some_iff.mp hstep
      exact .inl rfl
  | request options request =>
      cases hstep
      exact .inr (.inl ⟨options, request, rfl⟩)
  | callVerify body =>
      cases hstep
      exact .inl rfl
  | resumeVerify k a =>
      obtain ⟨h, -, hrest⟩ := Option.bind_eq_some_iff.mp hstep
      obtain ⟨phase, -, hrest⟩ := Option.bind_eq_some_iff.mp hrest
      cases hrest
      exact .inl rfl
  | deliver i => exact .inr (.inr (hgate hstep))
  | verify i a => exact .inr (.inr (hgate hstep))
  | reply i => exact .inr (.inr (hgate hstep))
  | lost i => exact .inr (.inr (hgate hstep))

theorem Site.server_of_step {s s' : Site S} {e : SiteEvent E} (hstep : s.Step num cfg p e s') :
    s'.server = s.server ∨ ∃ e', e = .server e' ∧ p.next s.server e' = some s'.server := by
  have hgate : ∀ {e : SiteEvent E}, (do
      let i ← e.gate
      let g ← s.gates[i]?
      let phase ← GatePhase.next num cfg (p.cache s.server) g e
      return { s with gates := s.gates.set i { g with phase := phase } } : Option (Site S)) =
        some s' → s'.server = s.server := by
    intro e h
    obtain ⟨i, -, h⟩ := Option.bind_eq_some_iff.mp h
    obtain ⟨g, -, h⟩ := Option.bind_eq_some_iff.mp h
    obtain ⟨phase', -, h⟩ := Option.bind_eq_some_iff.mp h
    cases h
    rfl
  cases e with
  | server e =>
      obtain ⟨server, hserver, rfl⟩ := Option.map_eq_some_iff.mp hstep
      exact .inr ⟨e, rfl, hserver⟩
  | request options request =>
      cases hstep
      exact .inl rfl
  | callVerify body =>
      cases hstep
      exact .inl rfl
  | resumeVerify k a =>
      obtain ⟨h, -, hrest⟩ := Option.bind_eq_some_iff.mp hstep
      obtain ⟨phase, -, hrest⟩ := Option.bind_eq_some_iff.mp hrest
      cases hrest
      exact .inl rfl
  | deliver i => exact .inl (hgate hstep)
  | verify i a => exact .inl (hgate hstep)
  | reply i => exact .inl (hgate hstep)
  | lost i => exact .inl (hgate hstep)

theorem Site.step_gate {s : Site S} {e : SiteEvent E} {i : ℕ} {g : GateRequest}
    {phase' : GatePhase} (hgate : e.gate = some i) (hi : s.gates[i]? = some g)
    (hnext : GatePhase.next num cfg (p.cache s.server) g e = some phase') :
    s.Step num cfg p e { s with gates := s.gates.set i { g with phase := phase' } } := by
  have hbind : (do
      let i ← e.gate
      let g ← s.gates[i]?
      let phase ← GatePhase.next num cfg (p.cache s.server) g e
      return { s with gates := s.gates.set i { g with phase := phase } } : Option (Site S)) =
      some { s with gates := s.gates.set i { g with phase := phase' } } := by
    simp only [hgate, hi, hnext, Option.bind_eq_bind, Option.bind_some]
    rfl
  cases e <;> first | exact hbind | cases hgate

end Enclave.Gate

import Enclave.Agent.InterceptingFetch
import Enclave.Gate.Access

/-! # Agents, gates and the facilitator together

After the settlement a call sends its request again, and puts the transaction's hash where the gate
expects the payment.  A hash is no JSON object: whatever happens in between, the second request is
not let through (`retry_never_passes`). -/

namespace Enclave.Agent

open Facilitator Gate Stellar

variable {num : Numerals} {cfg : Config}

/-! ### The system -/

/-- A site, and what runs at its clients. -/
structure System where
  site : Site Server
  agents : List Interceptor
  calls : List Call

/-- What happens: an event of the site, which may be anybody's, a new call, or a turn of one. -/
inductive SystemEvent where
  | site (e : SiteEvent Event)
  | fetch (a : ℕ) (url : String) (options : GateOptions) (init : RequestInit)
  | call (c : ℕ) (e : CallEvent)

def System.boot (cfg : Config) (entries : List (String × String)) (agents : List Interceptor) :
    System :=
  ⟨Site.boot (Server.boot cfg entries), agents, []⟩

/-- `/settle` of bodies of the wire types. -/
def wireSettling (cfg : Config) : Settling Server Event := ⟨Server.next cfg, Server.cache⟩

/-- The site after a turn's request. -/
def send (num : Numerals) (cfg : Config) (site : Site Server) :
    Option (SiteEvent Event) → Option (Site Server)
  | none => some site
  | some e => site.next num cfg (wireSettling cfg) e

def System.next (num : Numerals) (cfg : Config) (s : System) : SystemEvent → Option System
  | .site e => (s.site.next num cfg (wireSettling cfg) e).map fun site => { s with site := site }
  | .fetch a url options init =>
      let call : Call := ⟨a, url, options, init, .requesting s.site.gates.length, none⟩
      (s.site.next num cfg (wireSettling cfg) (call.request none)).map fun site =>
        { s with site := site, calls := s.calls ++ [call] }
  | .call c e => do
      let call ← s.calls[c]?
      let agent ← s.agents[call.agent]?
      let t ← call.next cfg.sdk s.site agent e
      let site ← send num cfg s.site t.sends
      return ⟨site, s.agents.set call.agent t.agent, s.calls.set c t.call⟩

def System.Step (num : Numerals) (cfg : Config) (s : System) (e : SystemEvent) (s' : System) : Prop :=
  s.next num cfg e = some s'

theorem System.step_call {s : System} {c : ℕ} {e : CallEvent} {call : Call} {agent : Interceptor}
    {t : Turn} {site : Site Server} (hcall : s.calls[c]? = some call)
    (hagent : s.agents[call.agent]? = some agent)
    (hturn : call.next cfg.sdk s.site agent e = some t)
    (hsend : send num cfg s.site t.sends = some site) : s.Step num cfg (.call c e)
      ⟨site, s.agents.set call.agent t.agent, s.calls.set c t.call⟩ := by
  simp only [System.Step, System.next, hcall, hagent, hturn, hsend, Option.bind_eq_bind,
    Option.bind_some]
  rfl

/-- `sendTransaction` answers with a hash: 32 bytes in hexadecimal. -/
def SiteEvent.HexHash : SiteEvent Event → Prop
  | .server (.answer _ (.sent (some send))) =>
      ∃ digest : List UInt8, digest.length = 32 ∧ send.hash = String.ofList (Hex.toHex digest)
  | _ => True

def SystemEvent.HexHash : SystemEvent → Prop
  | .site e => SiteEvent.HexHash e
  | _ => True

/-! ### What `/settle` answers with -/

/-- A text that begins with a letter or a digit. -/
def IsTransaction (transaction : String) : Prop :=
  ∃ c cs, transaction.toList = c :: cs ∧ c.isAlphanum = true

/-- The transaction of a handler, if it has one, is a hash. -/
def HasTransaction : Phase → Prop
  | .polling _ hash => IsTransaction hash
  | .appending transaction => IsTransaction transaction
  | .answered (.success transaction) => IsTransaction transaction
  | _ => True

theorem isTransaction_toHex {digest : List UInt8} (hlen : digest.length = 32) :
    IsTransaction (String.ofList (Hex.toHex digest)) := by
  obtain ⟨b, rest, rfl⟩ : ∃ b rest, digest = b :: rest := by
    cases digest with
    | nil => cases hlen
    | cons b rest => exact ⟨b, rest, rfl⟩
  obtain ⟨n, m, rfl⟩ := Hex.exists_digits b
  have halpha : ∀ k : Fin 16, (Nat.digitChar k).isAlphanum = true := by decide
  refine ⟨Nat.digitChar n, Nat.digitChar m :: Hex.toHex rest, ?_, halpha n⟩
  rw [String.toList_ofList, Hex.toHex, List.flatMap_cons, Hex.byteToHex_ofNat]
  rfl

theorem isTransaction_mockTxHash (cfg : Config) (proof : ShieldedProofWireFormat) :
    IsTransaction (mockTxHash cfg proof) := by
  refine ⟨'m', ?_⟩
  rw [mockTxHash]
  simp only [String.toList_append, String.toList_ofList]
  exact ⟨_, rfl, by decide⟩

theorem hasTransaction_of_failed {phase : Phase} (h : phase.Failed) : HasTransaction phase := by
  match phase, h with
  | .answered (.failure _ _), _ => trivial

theorem hasTransaction_resume {cache : NullifierCache} {h : Handler} {i : ℕ} {a : Answer}
    {r : NullifierCache × Phase} (hresume : resume cfg cache h a = some r)
    (hhash : SiteEvent.HexHash (.server (.answer i a))) (hh : HasTransaction h.phase) :
    HasTransaction r.2 := by
  unfold resume at hresume
  cases a with
  | verified outcome =>
      dsimp only at hresume
      split at hresume
      · obtain rfl := Option.some.inj hresume
        match outcome with
        | none => trivial
        | some false => trivial
        | some true => exact isTransaction_mockTxHash cfg _
      · cases hresume
  | snapshot outcome =>
      dsimp only at hresume
      split at hresume
      · rename_i parsed _ _
        obtain rfl := Option.some.inj hresume
        unfold afterSnapshot
        split
        · trivial
        · split
          · trivial
          · trivial
          · split <;> trivial
      · cases hresume
  | prepared outcome =>
      dsimp only at hresume
      split at hresume
      · obtain rfl := Option.some.inj hresume
        split <;> trivial
      · cases hresume
  | sent outcome =>
      dsimp only at hresume
      split at hresume
      · obtain rfl := Option.some.inj hresume
        match outcome, hhash with
        | none, _ => trivial
        | some send, hhash =>
            obtain ⟨digest, hlen, hdigest⟩ := hhash
            unfold afterSend
            dsimp only
            split
            · trivial
            · exact hdigest ▸ isTransaction_toHex hlen
      · cases hresume
  | polled outcome =>
      dsimp only at hresume
      split at hresume
      · rename_i hphase
        obtain rfl := Option.some.inj hresume
        rw [hphase] at hh
        match outcome with
        | none => trivial
        | some .success => exact hh
        | some (.failed _) => trivial
        | some .notFound => exact hh
      · cases hresume
  | timedOut =>
      dsimp only at hresume
      split at hresume
      · obtain rfl := Option.some.inj hresume
        trivial
      · cases hresume
  | appended =>
      dsimp only at hresume
      split at hresume
      · rename_i hphase
        obtain rfl := Option.some.inj hresume
        rw [hphase] at hh
        exact hh
      · cases hresume

theorem hasTransaction_step {s s' : Server} {e : Event} (hstep : s.Step cfg e s')
    (hhash : SiteEvent.HexHash (.server e)) (hs : ∀ h ∈ s.handlers, HasTransaction h.phase) :
    ∀ h ∈ s'.handlers, HasTransaction h.phase := by
  obtain ⟨body, k, -, hhandlers, hcase⟩ | ⟨i, a, k, phase', rfl, hi, hhandlers, hresume, -⟩ :=
    Server.step_cases hstep
  · intro h hh
    rw [hhandlers] at hh
    obtain hh | hh := List.mem_append.mp hh
    · exact hs h hh
    · obtain rfl := List.mem_singleton.mp hh
      generalize s'.cache = cache' at hcase
      cases hcase with
      | fails hfailed => exact hasTransaction_of_failed hfailed
      | waits _ _ _ hphase => obtain ⟨rfl, -⟩ | ⟨rfl, -⟩ := hphase <;> trivial
  · intro h hh
    rw [hhandlers] at hh
    obtain hh | rfl := List.mem_or_eq_of_mem_set hh
    · exact hs h hh
    · exact hasTransaction_resume hresume hhash (hs k (List.mem_of_getElem? hi))

/-! ### What a gate makes of it -/

/-- A value that is no object. -/
def Scalar (v : Json.Value) : Prop :=
  v = .null ∨ (∃ b, v = .bool b) ∨ ∃ literal, v = .number literal

/-- The request does not get through. -/
def Barred : GatePhase → Prop
  | .calling payload => Scalar payload
  | .atVerify h => h.phase = .replied (.error 400)
  | .done outcome => ∃ status error, outcome = .response status error ∧
      (status = 402 ∨ status = 500)

theorem barred_withEnclaveGate {options : GateOptions} {authorization : Option String}
    {transaction : String} (h : IsTransaction transaction) :
    Barred (withEnclaveGate options ⟨authorization, some transaction⟩) := by
  obtain ⟨c, cs, hlist, hc⟩ := h
  unfold withEnclaveGate
  split
  · exact ⟨402, _, rfl, .inl rfl⟩
  · dsimp only
    split
    · exact ⟨402, _, rfl, .inl rfl⟩
    · split
      · exact ⟨402, _, rfl, .inl rfl⟩
      · rename_i payload hparse
        rw [hlist] at hparse
        exact Json.parse_scalar hc hparse

theorem scalar_rewritten {v : Json.Value} (h : Scalar v) : Scalar (JsValue.rewritten num v) := by
  obtain rfl | ⟨b, rfl⟩ | ⟨literal, rfl⟩ := h
  · simp [JsValue.rewritten, Scalar]
  · simp [JsValue.rewritten, Scalar]
  · rw [JsValue.rewritten]
    split
    · exact .inr (.inr ⟨literal, rfl⟩)
    · exact .inl rfl

theorem verify_scalar {cache : NullifierCache} {options : GateOptions} {v : Json.Value}
    (h : Scalar v) :
    (verify num cfg cache (verifyBody num options v)).phase = .replied (.error 400) := by
  have hscheme : ∀ {v : Json.Value}, Scalar v → JsValue.prop (some v) "scheme" = none := by
    rintro v (rfl | ⟨b, rfl⟩ | ⟨literal, rfl⟩) <;> rfl
  have hparse : ∃ error, parseRequest num (verifyBody num options v) = .error error := by
    unfold verifyBody
    have hscalar := hscheme (@scalar_rewritten num _ h)
    generalize JsValue.rewritten num v = payload at hscalar
    have hbody : JsValue.prop (requestValue payload options.paymentRequirements)
        "paymentPayload" = some payload := rfl
    unfold parseRequest
    dsimp only
    rw [hbody, hscalar]
    split
    · exact ⟨_, rfl⟩
    · split
      · exact ⟨_, rfl⟩
      · exact ⟨_, rfl⟩
  obtain ⟨error, herror⟩ := hparse
  unfold verify
  rw [herror]

theorem barred_next {cache : NullifierCache} {g : GateRequest} {e : SiteEvent Event}
    {phase' : GatePhase} (hg : Barred g.phase)
    (hnext : GatePhase.next num cfg cache g e = some phase') : Barred phase' := by
  cases e with
  | deliver i =>
      simp only [GatePhase.next] at hnext
      split at hnext
      · rename_i payload hphase
        rw [hphase] at hg
        rw [← Option.some.inj hnext]
        exact verify_scalar hg
      · cases hnext
  | verify i a =>
      simp only [GatePhase.next] at hnext
      split at hnext
      · rename_i h hphase
        obtain ⟨_, hresume, -⟩ := Option.map_eq_some_iff.mp hnext
        have hopen := open_of_resumeVerify hresume
        rw [hphase] at hg
        rw [Barred] at hg
        rw [hg] at hopen
        exact hopen.elim
      · cases hnext
  | reply i =>
      simp only [GatePhase.next] at hnext
      split at hnext
      · rename_i request reply hphase
        rw [hphase] at hg
        cases hg
        rw [← Option.some.inj hnext]
        exact ⟨500, _, rfl, .inr rfl⟩
      · cases hnext
  | lost i =>
      simp only [GatePhase.next] at hnext
      split at hnext
      · cases hnext
      · rw [← Option.some.inj hnext]
        exact ⟨500, _, rfl, .inr rfl⟩
  | _ => cases hnext

/-- The request of that number does not get through. -/
def BarredAt (site : Site Server) (i : ℕ) : Prop := ∃ g, site.gates[i]? = some g ∧ Barred g.phase

theorem barredAt_step {site site' : Site Server} {e : SiteEvent Event}
    (hstep : site.Step num cfg (wireSettling cfg) e site') {i : ℕ} (h : BarredAt site i) :
    BarredAt site' i := by
  obtain ⟨g, hi, hg⟩ := h
  obtain hsame | ⟨options, request, hgates⟩ | ⟨j, k, phase', -, hj, hnext, hgates⟩ :=
    Site.step_cases hstep
  · exact ⟨g, hsame ▸ hi, hg⟩
  · exact ⟨g, by rw [hgates]; exact getElem?_snoc.mpr (.inl hi), hg⟩
  · by_cases hij : i = j
    · subst hij
      rw [hi] at hj
      cases hj
      exact ⟨_, by rw [hgates]; exact (getElem?_set_some hi).mpr (.inl ⟨rfl, rfl⟩),
        barred_next hg hnext⟩
    · exact ⟨g, by rw [hgates]; exact (getElem?_set_some hj).mpr (.inr ⟨hij, hi⟩), hg⟩

/-! ### Runs -/

/-- Handlers have hashes, and second requests are barred. -/
structure System.Sound (s : System) : Prop where
  handlers : ∀ h ∈ s.site.server.handlers, HasTransaction h.phase
  retried : ∀ call ∈ s.calls, ∀ i, call.retried = some i → BarredAt s.site i

theorem handlers_step {site site' : Site Server} {e : SiteEvent Event}
    (hstep : site.Step num cfg (wireSettling cfg) e site') (hhash : SiteEvent.HexHash e)
    (h : ∀ h ∈ site.server.handlers, HasTransaction h.phase) :
    ∀ h ∈ site'.server.handlers, HasTransaction h.phase := by
  obtain hsame | ⟨e', rfl, hserver⟩ := Site.server_of_step hstep
  · rwa [hsame]
  · exact hasTransaction_step hserver hhash h

theorem isTransaction_of_responseAt {site : Site Server} {k : ℕ} {transaction : String}
    (h : ∀ h ∈ site.server.handlers, HasTransaction h.phase)
    (hresponse : responseAt site k = some (.success transaction)) : IsTransaction transaction := by
  unfold responseAt at hresponse
  split at hresponse
  · rename_i response hphase
    obtain rfl := Option.some.inj hresponse
    obtain ⟨handler, hk, hanswered⟩ := Option.map_eq_some_iff.mp hphase
    have hhandler := h handler (List.mem_of_getElem? hk)
    rwa [hanswered] at hhandler
  · cases hresponse

theorem System.Sound.step {s s' : System} {e : SystemEvent} (hs : s.Sound)
    (hstep : s.Step num cfg e s') (hhash : e.HexHash) : s'.Sound := by
  cases e with
  | site e =>
      obtain ⟨site, hsite, rfl⟩ := Option.map_eq_some_iff.mp hstep
      exact ⟨handlers_step hsite hhash hs.handlers,
        fun call hcall i hi => barredAt_step hsite (hs.retried call hcall i hi)⟩
  | fetch a url options init =>
      simp only [System.Step, System.next] at hstep
      obtain ⟨site, hsite, rfl⟩ := Option.map_eq_some_iff.mp hstep
      refine ⟨handlers_step hsite trivial hs.handlers, fun call hcall i hi => ?_⟩
      obtain hold | hnew := List.mem_append.mp hcall
      · exact barredAt_step hsite (hs.retried call hold i hi)
      · obtain rfl := List.mem_singleton.mp hnew
        cases hi
  | call c e =>
      obtain ⟨call, hcall, hrest⟩ := Option.bind_eq_some_iff.mp hstep
      obtain ⟨agent, -, hrest⟩ := Option.bind_eq_some_iff.mp hrest
      obtain ⟨t, hturn, hrest⟩ := Option.bind_eq_some_iff.mp hrest
      obtain ⟨site, hsend, hrest⟩ := Option.bind_eq_some_iff.mp hrest
      obtain rfl := Option.some.inj hrest
      have hmem : call ∈ s.calls := List.mem_of_getElem? hcall
      -- The other calls, and this one if it has not sent a second request in this turn.
      have hrec : (∀ i, BarredAt s.site i → BarredAt site i) →
          (∀ i, t.call.retried = some i → BarredAt site i) →
          ∀ call' ∈ s.calls.set c t.call, ∀ i, call'.retried = some i → BarredAt site i := by
        intro hkeeps hthis call' hcall' i hi
        obtain hold | rfl := List.mem_or_eq_of_mem_set hcall'
        · exact hkeeps i (hs.retried call' hold i hi)
        · exact hthis i hi
      cases turn_cases hturn with
      | silent hretried hsends =>
          rw [hsends] at hsend
          obtain rfl := Option.some.inj hsend
          exact ⟨hs.handlers, hrec (fun _ h => h) fun i hi =>
            hs.retried call hmem i (hretried ▸ hi)⟩
      | posts body hretried hsends =>
          have hsend : s.site.Step num cfg (wireSettling cfg) (.server (.request body)) site := by
            rw [hsends] at hsend
            exact hsend
          exact ⟨handlers_step hsend trivial hs.handlers,
            hrec (fun _ h => barredAt_step hsend h) fun i hi =>
              barredAt_step hsend (hs.retried call hmem i (hretried ▸ hi))⟩
      | retries k transaction hresponse hretried hsends =>
          have hsend : s.site.Step num cfg (wireSettling cfg) (call.request (some transaction)) site := by
            rw [hsends] at hsend
            exact hsend
          refine ⟨handlers_step hsend trivial hs.handlers,
            hrec (fun _ h => barredAt_step hsend h) fun i hi => ?_⟩
          rw [hretried] at hi
          obtain rfl := Option.some.inj hi
          obtain rfl := Option.some.inj hsend
          exact ⟨_, getElem?_snoc.mpr (.inr ⟨rfl, rfl⟩),
            barred_withEnclaveGate (isTransaction_of_responseAt hs.handlers hresponse)⟩

/-- **The second request never passes its gate**, in any run. -/
theorem retry_never_passes {entries : List (String × String)} {agents : List Interceptor}
    {events : List SystemEvent} {s : System}
    (hrun : Run (fun s e s' => s.Step num cfg e s' ∧ e.HexHash) (System.boot cfg entries agents)
      events s) {call : Call} (hcall : call ∈ s.calls) {i : ℕ} (hretried : call.retried = some i) :
    ∃ g, s.site.gates[i]? = some g ∧ g.phase ≠ .done .next := by
  have hboot : (System.boot cfg entries agents).Sound :=
    ⟨fun h hh => absurd hh List.not_mem_nil, fun call hcall => absurd hcall List.not_mem_nil⟩
  have hs : s.Sound := hrun.invariant (fun _ _ _ hs hstep => hs.step hstep.1 hstep.2) hboot
  obtain ⟨g, hi, hg⟩ := hs.retried call hcall i hretried
  refine ⟨g, hi, fun hdone => ?_⟩
  rw [hdone] at hg
  obtain ⟨_, _, hresponse, -⟩ := hg
  cases hresponse

/-! ### A sample payment -/

/-- A fixture with the nullifier 5. -/
def samplePayload : ProofPayload where
  proof := (samplePoolProof []).proof
  publicInputs :=
    { root := (samplePoolProof []).root.repr
      publicAmount := (samplePoolProof []).publicAmount.repr
      extDataHash := sampleHash
      inputNullifiers := ("5", "6")
      outputCommitment0 := (samplePoolProof []).outputCommitment0.repr
      outputCommitment1 := (samplePoolProof []).outputCommitment1.repr
      aspMembershipRoot := (samplePoolProof []).aspMembershipRoot.repr
      aspNonMembershipRoot := (samplePoolProof []).aspNonMembershipRoot.repr }
  extData := sampleExtData (-5)
  nullifier := "5"

def sampleInterceptor : Interceptor := ⟨[⟨"5", 5⟩], fun _ => some (some samplePayload), false, []⟩

def sampleOutputs : Outputs := (fun _ => 0, fun _ => 0)

/-- A payment in the mock mode: the first request, its settlement and the second request. -/
def sampleEvents : List SystemEvent :=
  [.fetch 0 "/paid" sampleOptions ⟨none⟩, .call 0 (.response sampleOutputs),
    .site (.server (.answer 0 (.verified (some true)))), .site (.server (.answer 0 .appended)),
    .call 0 (.response sampleOutputs)]

theorem settleBody_sample : settleBody sampleRequirements samplePayload = sampleBody ["5", "6"] :=
  rfl

/-- What becomes of it. -/
def System.sampleView (s : System) : Option Response × List (Option ℕ) × Option Outcome :=
  (responseAt s.site 0, s.calls.map Call.retried, outcomeAt s.site 1)

/-- The call in a phase, its first request answered. -/
def sampleSystem (server : Server) (phase : CallPhase) : System :=
  ⟨⟨server, [⟨sampleOptions, ⟨none, none⟩, .done (.response 402 "X-PAYMENT header required")⟩], []⟩,
    [sampleInterceptor], [⟨0, "/paid", sampleOptions, ⟨none⟩, phase, none⟩]⟩

/-- The facilitator with the request for the nullifiers 5 and 6. -/
def sampleServer : Server :=
  let r := claimNullifiers (sampleConfig .mock) (fun _ => none)
    ⟨sampleProof ["5", "6"], extDataWire (sampleExtData (-5)), sampleRequirements⟩
  ⟨r.1, [r.2]⟩

theorem run_sampleEvents : ∃ s, Run (System.Step Untyped.sampleNumerals (sampleConfig .mock))
      (System.boot (sampleConfig .mock) [] [sampleInterceptor]) sampleEvents s ∧
    s.sampleView = (some (.success "mock_5"), [some 1],
      some (.response 402 "malformed_x_payment")) := by
  -- The fixture is posted to `/settle` as it is.
  have hpay : ∀ call : Call, call.options = sampleOptions → ∀ site : Site Server,
      call.pay sampleSdk site sampleInterceptor sampleOutputs =
        call.post site sampleInterceptor sampleRequirements samplePayload := by
    intro call hoptions site
    have hparse : parsePaymentRequirements sampleRequirements = some sampleRequirements := by decide
    have hamount : Js.bigInt sampleRequirements.maxAmountRequired = some 5 := by decide
    have hnote : selectNote sampleInterceptor.notes 5 sampleInterceptor.spentNullifiers =
      some ⟨"5", 5⟩ := by decide
    have hrequirements : call.options.paymentRequirements = sampleRequirements := by
      rw [hoptions]
      rfl
    simp only [Call.pay, hrequirements, hparse, hamount, hnote]
    rfl
  have hfetch : (System.boot (sampleConfig .mock) [] [sampleInterceptor]).Step
      Untyped.sampleNumerals (sampleConfig .mock)
      (.fetch 0 "/paid" sampleOptions ⟨none⟩)
      (sampleSystem (Server.boot (sampleConfig .mock) []) (.requesting 0)) := rfl
  have hsettle : (sampleSystem (Server.boot (sampleConfig .mock) []) (.requesting 0)).Step
      Untyped.sampleNumerals (sampleConfig .mock) (.call 0 (.response sampleOutputs))
      (sampleSystem sampleServer (.posting 0)) := by
    have hturn : Call.next sampleSdk ⟨0, "/paid", sampleOptions, ⟨none⟩, .requesting 0, none⟩
        (sampleSystem (Server.boot (sampleConfig .mock) []) (.requesting 0)).site
        sampleInterceptor (.response sampleOutputs) = _ :=
      congrArg some (hpay ⟨0, "/paid", sampleOptions, ⟨none⟩, .requesting 0, none⟩ rfl _)
    refine @System.step_call Untyped.sampleNumerals (sampleConfig .mock)
      (sampleSystem (Server.boot (sampleConfig .mock) []) (.requesting 0)) _ _ _ _ _ _ rfl rfl hturn ?_
    have hserver : (sampleSystem (Server.boot (sampleConfig .mock) []) (.requesting 0)).site.server.next
      (sampleConfig .mock) (.request (sampleBody ["5", "6"])) = _ :=
        next_sample .mock (Server.boot (sampleConfig .mock) []) ["5", "6"]
    simp only [Call.post, send, Site.next, wireSettling, settleBody_sample, hserver]
    rfl
  have hrest : (Run.exec (System.next Untyped.sampleNumerals (sampleConfig .mock))
      (sampleSystem sampleServer (.posting 0))
      (sampleEvents.drop 2)).map System.sampleView =
      some (some (.success "mock_5"), [some 1], some (.response 402 "malformed_x_payment")) := by
    decide +kernel
  obtain ⟨s, hs, hview⟩ := Option.map_eq_some_iff.mp hrest
  exact ⟨s, .cons hfetch (.cons hsettle (Run.of_exec hs)), hview⟩

theorem retried_of_sampleView {s : System} {response : Option Response} {i : ℕ}
    {outcome : Option Outcome} (h : s.sampleView = (response, [some i], outcome)) :
    ∃ call ∈ s.calls, call.retried = some i := by
  obtain ⟨-, hrest⟩ := Prod.mk.inj h
  obtain ⟨hretried, -⟩ := Prod.mk.inj hrest
  exact List.mem_map.mp (hretried ▸ List.mem_cons_self)

/-- The payment is settled, and the second request is answered with 402. -/
theorem settled_and_refused : ∃ s, Run (System.Step Untyped.sampleNumerals (sampleConfig .mock))
      (System.boot (sampleConfig .mock) [] [sampleInterceptor]) sampleEvents s ∧
    (∃ call ∈ s.calls, call.retried = some 1) ∧ responseAt s.site 0 = some (.success "mock_5") ∧
    outcomeAt s.site 1 = some (.response 402 "malformed_x_payment") := by
  obtain ⟨s, hrun, hview⟩ := run_sampleEvents
  obtain ⟨hresponse, hrest⟩ := Prod.mk.inj hview
  exact ⟨s, hrun, retried_of_sampleView hview, hresponse, (Prod.mk.inj hrest).2⟩

theorem retry_never_passes_sample : ∃ s, Run (System.Step Untyped.sampleNumerals (sampleConfig .mock))
      (System.boot (sampleConfig .mock) [] [sampleInterceptor]) sampleEvents s ∧
    ∃ g, s.site.gates[1]? = some g ∧ g.phase ≠ .done .next := by
  obtain ⟨s, hrun, hview⟩ := run_sampleEvents
  obtain ⟨call, hcall, hretried⟩ := retried_of_sampleView hview
  have hhash : ∀ e ∈ sampleEvents, e.HexHash := by
    simp only [sampleEvents, List.mem_cons, List.not_mem_nil, or_false, forall_eq_or_imp,
      forall_eq]
    exact ⟨trivial, trivial, trivial, trivial, trivial⟩
  exact ⟨s, hrun, retry_never_passes (hrun.with_labels hhash) hcall hretried⟩

end Enclave.Agent

import Enclave.Gate.Middleware
import Enclave.Facilitator.DoubleSettlement

/-! # One payment, one access

A request is admitted when `/verify` has looked at its nullifiers and not rejected it.  Nothing
remembers the admitted requests, so one payment is good for any number of accesses
(`two_accesses`) until a `/settle` commits its nullifiers: `SettledFirst` asks that of every look at
a payment that was admitted before, and then no two accesses share a nullifier
(`one_access_per_payment`).  The payments, and what is sent to `/verify` and `/settle`, are any
JSON. -/

namespace Enclave.Gate

open Facilitator
open Json (Value)

/-! ### Sharing a nullifier -/

section

variable (num : Numerals)

/-- The input nullifiers of the proof that a request carries. -/
def GateRequest.nullifiers (g : GateRequest) : List Value :=
  match g.request.xPayment.bind fun header => Json.parse header.toList with
  | some payload => verifyNullifiers num (verifyBody num g.options payload)
  | none => []

/-- Two values are the same, or denote one integer. -/
def SameNullifier (v w : Value) : Prop :=
  v = w ∨ ∃ x, JsValue.bigInt num (some v) = some x ∧ JsValue.bigInt num (some w) = some x

/-- The proofs have an input nullifier in common. -/
def Shares (g g' : GateRequest) : Prop :=
  ∃ v ∈ g.nullifiers num, ∃ w ∈ g'.nullifiers num, SameNullifier num v w

end

/-- `/verify` has looked, and has not rejected the request. -/
def GatePhase.Admitted : GatePhase → Prop
  | .atVerify h => h.phase.Open
  | .done .next => True
  | _ => False

/-- A look at the nullifiers of a request comes after a commitment of one of them, if an admitted
request shares one; on what is no text, `/verify` throws. -/
def Site.SettledFirst {S E : Type} (num : Numerals) (cfg : Config) (p : Settling S E) (s : Site S) :
    SiteEvent E → Prop
  | .deliver i => ∀ g, s.gates[i]? = some g → ∀ j g', j ≠ i → s.gates[j]? = some g' →
      g'.phase.Admitted → Shares num g g' → ∃ v ∈ g.nullifiers num, ∀ n, v = .string n →
        (p.cache s.server).Committed (NullifierCache.normalize cfg.sdk.toLowerCase n)
  | _ => True

variable {S E : Type} {num : Numerals} {cfg : Config} {p : Settling S E}

theorem Shares.symm {g g' : GateRequest} (h : Shares num g g') : Shares num g' g := by
  obtain ⟨v, hv, w, hw, hsame⟩ := h
  exact ⟨w, hw, v, hv, hsame.imp Eq.symm fun hsame => hsame.imp fun _ hx => hx.symm⟩

theorem nullifiers_of_parse {g : GateRequest} {payload : Value}
    (h : (g.request.xPayment.bind fun header => Json.parse header.toList) = some payload) :
    g.nullifiers num = verifyNullifiers num (verifyBody num g.options payload) := by
  rw [GateRequest.nullifiers, h]

/-! ### What becomes of a request -/

/-- A request is admitted by a look at the cache, and by nothing else. -/
theorem admitted_cases {cache : NullifierCache} {g : GateRequest} {e : SiteEvent E}
    {phase' : GatePhase} (hnext : GatePhase.next num cfg cache g e = some phase')
    (hadmitted : phase'.Admitted) : g.phase.Admitted ∨ ∃ i payload, e = .deliver i ∧
      g.phase = .calling payload ∧
      phase' = .atVerify (verify num cfg cache (verifyBody num g.options payload)) := by
  cases e with
  | deliver i =>
      simp only [GatePhase.next] at hnext
      split at hnext
      · rename_i payload hphase
        exact .inr ⟨i, payload, rfl, hphase, (Option.some.inj hnext).symm⟩
      · cases hnext
  | verify i a =>
      simp only [GatePhase.next] at hnext
      split at hnext
      · rename_i h hphase
        obtain ⟨phase, hresume, -⟩ := Option.map_eq_some_iff.mp hnext
        rw [hphase]
        exact .inl (open_of_resumeVerify hresume)
      · cases hnext
  | reply i =>
      simp only [GatePhase.next] at hnext
      split at hnext
      · rename_i request reply hphase
        rw [← Option.some.inj hnext] at hadmitted
        rw [hphase]
        cases reply with
        | valid => exact .inl trivial
        | invalid reason => exact hadmitted.elim
        | error status => exact hadmitted.elim
      · cases hnext
  | lost i =>
      simp only [GatePhase.next] at hnext
      split at hnext
      · cases hnext
      · rw [← Option.some.inj hnext] at hadmitted
        exact hadmitted.elim
  | _ => cases hnext

theorem not_calling_of_next {cache : NullifierCache} {g : GateRequest} {e : SiteEvent E}
    {phase' : GatePhase} (hnext : GatePhase.next num cfg cache g e = some phase')
    (payload : Value) : phase' ≠ .calling payload := by
  intro hcalling
  subst hcalling
  cases e with
  | deliver i =>
      simp only [GatePhase.next] at hnext
      split at hnext <;> cases hnext
  | verify i a =>
      simp only [GatePhase.next] at hnext
      split at hnext
      · obtain ⟨_, -, h⟩ := Option.map_eq_some_iff.mp hnext
        cases h
      · cases hnext
  | reply i =>
      simp only [GatePhase.next] at hnext
      split at hnext <;> cases hnext
  | lost i =>
      simp only [GatePhase.next] at hnext
      split at hnext <;> cases hnext
  | _ => cases hnext

/-! ### Admitted requests -/

/-- No two admitted requests share a nullifier; what is on its way to `/verify` is the payload of
the request. -/
structure Site.OneEach (num : Numerals) (s : Site S) : Prop where
  disjoint : ∀ {i j : ℕ} {g g' : GateRequest}, s.gates[i]? = some g → s.gates[j]? = some g' →
    i ≠ j → g.phase.Admitted → g'.phase.Admitted → ¬ Shares num g g'
  payload : ∀ {i : ℕ} {g : GateRequest} {payload : Value}, s.gates[i]? = some g →
    g.phase = .calling payload →
      g.nullifiers num = verifyNullifiers num (verifyBody num g.options payload)

variable {s s' : Site S} {e : SiteEvent E}

/-- A request that is admitted now shares no nullifier with those admitted before. -/
theorem not_shares_of_deliver (hs : s.OneEach num) {i j : ℕ} {g g' : GateRequest}
    {payload : Value} (hsettled : s.SettledFirst num cfg p (.deliver i)) (hi : s.gates[i]? = some g)
    (hphase : g.phase = .calling payload)
    (hopen : (verify num cfg (p.cache s.server) (verifyBody num g.options payload)).phase.Open)
    (hj : s.gates[j]? = some g') (hij : j ≠ i) (hadmitted : g'.phase.Admitted) : ¬ Shares num g g' := by
  intro hshares
  obtain ⟨v, hv, hcommitted⟩ := hsettled g hi j g' hij hj hadmitted hshares
  rw [hs.payload hi hphase] at hv
  obtain ⟨n, rfl, hnot⟩ := not_committed_of_open hopen v hv
  exact hnot (hcommitted n rfl)

/-- **Every event keeps admitted requests apart**, where payments are settled first. -/
theorem Site.OneEach.step (hs : s.OneEach num) (hstep : s.Step num cfg p e s')
    (hsettled : s.SettledFirst num cfg p e) : s'.OneEach num := by
  obtain hsame | ⟨options, request, hgates⟩ | ⟨i, g, phase', hi, hg, hnext, hgates⟩ :=
    Site.step_cases hstep
  · exact ⟨fun hi hj => hs.disjoint (hsame ▸ hi) (hsame ▸ hj), fun hi => hs.payload (hsame ▸ hi)⟩
  · have hnew : ∀ payload, withEnclaveGate options request = .calling payload →
        (GateRequest.mk options request (withEnclaveGate options request)).nullifiers num =
          verifyNullifiers num (verifyBody num options payload) := by
      intro payload hcalling
      obtain ⟨status, error, hdone⟩ | ⟨payload', hcalling', hparse⟩ :=
        withEnclaveGate_cases options request
      · rw [hdone] at hcalling
        cases hcalling
      · rw [hcalling'] at hcalling
        cases hcalling
        exact nullifiers_of_parse hparse
    have hnot : ¬ (withEnclaveGate options request).Admitted := by
      obtain ⟨status, error, hdone⟩ | ⟨payload', hcalling', -⟩ :=
        withEnclaveGate_cases options request
      · rw [hdone]
        exact id
      · rw [hcalling']
        exact id
    constructor
    · intro a b k k' ha hb hab hk hk'
      rw [hgates] at ha hb
      obtain ha | ⟨-, rfl⟩ := getElem?_snoc.mp ha
      · obtain hb | ⟨-, rfl⟩ := getElem?_snoc.mp hb
        · exact hs.disjoint ha hb hab hk hk'
        · exact absurd hk' hnot
      · exact absurd hk hnot
    · intro a k payload ha hcalling
      rw [hgates] at ha
      obtain ha | ⟨-, rfl⟩ := getElem?_snoc.mp ha
      · exact hs.payload ha hcalling
      · exact hnew payload hcalling
  · -- The request of the event against any other one.
    have hother : ∀ {j : ℕ} {k : GateRequest}, s.gates[j]? = some k → j ≠ i →
        k.phase.Admitted → phase'.Admitted → ¬ Shares num g k := by
      intro j k hj hji hk hadmitted
      obtain hbefore | ⟨i', payload, rfl, hphase, rfl⟩ := admitted_cases hnext hadmitted
      · exact hs.disjoint hg hj (Ne.symm hji) hbefore hk
      · cases hi
        exact not_shares_of_deliver hs hsettled hg hphase hadmitted hj hji hk
    constructor
    · intro a b k k' ha hb hab hk hk'
      rw [hgates] at ha hb
      obtain ⟨rfl, rfl⟩ | ⟨hai, ha₀⟩ := (getElem?_set_some hg).mp ha
      · obtain ⟨rfl, rfl⟩ | ⟨hbi, hb₀⟩ := (getElem?_set_some hg).mp hb
        · exact absurd rfl hab
        · exact hother hb₀ hbi hk' hk
      · obtain ⟨rfl, rfl⟩ | ⟨hbi, hb₀⟩ := (getElem?_set_some hg).mp hb
        · exact fun hshares => hother ha₀ hai hk hk' hshares.symm
        · exact hs.disjoint ha₀ hb₀ hab hk hk'
    · intro a k payload ha hcalling
      rw [hgates] at ha
      obtain ⟨rfl, rfl⟩ | ⟨hai, ha⟩ := (getElem?_set_some hg).mp ha
      · exact absurd hcalling (not_calling_of_next hnext payload)
      · exact hs.payload ha hcalling

theorem oneEach_boot (server : S) : (Site.boot server).OneEach num where
  disjoint := by
    intro i j g g' hi
    cases hi
  payload := by
    intro i g payload hi
    cases hi

theorem oneEach_of_run {server : S} {events : List (SiteEvent E)}
    (hrun : Run (fun s e s' => s.Step num cfg p e s' ∧ s.SettledFirst num cfg p e)
      (Site.boot server) events s) : s.OneEach num :=
  hrun.invariant (fun _ _ _ hs hstep => hs.step hstep.1 hstep.2) (oneEach_boot server)

/-! ### Accesses -/

/-- `/settle` of any JSON. -/
def settling (num : Numerals) (cfg : Config) : Settling Untyped.Server Untyped.Event :=
  ⟨Untyped.Server.next num cfg, Untyped.Server.cache⟩

/-- **One payment, one access**, where every payment that was admitted is settled before it is
looked at again. -/
theorem one_access_per_payment {entries : List (String × String)}
    {events : List (SiteEvent Untyped.Event)} {s : Site Untyped.Server}
    (hrun : Run (fun s e s' => s.Step num cfg (settling num cfg) e s' ∧
        s.SettledFirst num cfg (settling num cfg) e)
      (Site.boot (Untyped.Server.boot cfg entries)) events s)
    {i j : ℕ} {g g' : GateRequest} (hi : s.gates[i]? = some g) (hj : s.gates[j]? = some g')
    (hij : i ≠ j) (hnext : g.phase = .done .next) (hnext' : g'.phase = .done .next) :
    ¬ Shares num g g' :=
  (oneEach_of_run hrun).disjoint hi hj hij (by rw [hnext]; trivial) (by rw [hnext']; trivial)

/-! ### Sample payments -/

def sampleOptions : GateOptions := ⟨"org", sampleRequirements, none⟩

/-- A request that pays with a proof for one nullifier. -/
def sampleRequest (nullifier : String) : HttpRequest := ⟨none, some (String.ofList
  (payloadText (proofText (sampleProof []) nullifier [] sampleHash)
    (extDataText (extDataWire (sampleExtData (-5))))))⟩

/-- The payload of that request, and it as `/verify` parses it. -/
def samplePayload (nullifier : String) : Value :=
  payloadValue (sampleProof [nullifier]) (extDataWire (sampleExtData (-5)))

def sampleParsed (nullifier : String) : ParsedVerifyRequest :=
  parsedOf ⟨sampleProof [nullifier], extDataWire (sampleExtData (-5)), sampleRequirements⟩

theorem plainProof_sample : PlainProof (sampleProof []) :=
  plainProof_proofWire (samplePoolProof []) (some [])

theorem plainExtData_sample : PlainExtData (extDataWire (sampleExtData (-5))) :=
  ⟨by decide, by decide, plain_toHex _, plain_toHex _⟩

theorem plain_sampleHash : Plain sampleHash := plain_toHex _

theorem parse_sampleRequest {nullifier : String} (h : Plain nullifier) :
    (sampleRequest nullifier).xPayment.bind (fun header => Json.parse header.toList) =
      some (samplePayload nullifier) := by
  rw [sampleRequest, Option.bind_some, String.toList_ofList]
  exact parse_payloadText plainProof_sample h (fun _ hn => absurd hn List.not_mem_nil)
    plain_sampleHash plainExtData_sample

theorem parseRequest_sample (nullifier : String) :
    parseRequest num (verifyBody num sampleOptions (samplePayload nullifier)) =
      .ok (sampleParsed nullifier) := by
  rw [verifyBody, samplePayload, rewritten_payloadValue]
  exact @parseRequest_wire num ⟨sampleProof [nullifier], extDataWire (sampleExtData (-5)),
    sampleRequirements⟩ _ rfl (by decide)

theorem lookedAt_sample (nullifier : String) :
    lookedAt (sampleParsed nullifier) = some [.string nullifier] :=
  lookedAt_parsedOf _

theorem nullifiers_sampleRequest {nullifier : String} (h : Plain nullifier) (phase : GatePhase) :
    (GateRequest.mk sampleOptions (sampleRequest nullifier) phase).nullifiers num =
      [.string nullifier] := by
  rw [nullifiers_of_parse (g := ⟨sampleOptions, sampleRequest nullifier, phase⟩)
    (parse_sampleRequest h), verifyNullifiers]
  dsimp only
  rw [parseRequest_sample]
  dsimp only
  rw [lookedAt_sample]
  rfl

theorem verify_sample (nullifier : String) :
    verify num (sampleConfig .mock) (fun _ => none)
        (verifyBody num sampleOptions (samplePayload nullifier)) =
      ⟨some (sampleParsed nullifier), .verifying⟩ := by
  have hcheck : Untyped.checkRequest num (sampleConfig .mock).sdk (sampleParsed nullifier) =
      some (.ok ()) := by
    rw [sampleParsed, checkRequest_parsedOf]
    exact checkRequest_sample .mock [nullifier]
  exact verify_of_passes (parseRequest_sample nullifier) hcheck (lookedAt_sample nullifier) rfl

theorem gate_sample {nullifier : String} (h : Plain nullifier) :
    withEnclaveGate sampleOptions (sampleRequest nullifier) =
      .calling (samplePayload nullifier) := by
  have hne : String.ofList (payloadText (proofText (sampleProof []) nullifier [] sampleHash)
      (extDataText (extDataWire (sampleExtData (-5))))) ≠ "" := by
    intro heq
    have hnil := congrArg String.toList heq
    rw [String.toList_ofList] at hnil
    cases hnil
  have hparse := parse_sampleRequest h
  rw [sampleRequest, Option.bind_some] at hparse
  simp only [withEnclaveGate, authError, sampleOptions, sampleRequest, hne, if_false, hparse]

/-- The site with nothing settled. -/
def sampleSite (gates : List GateRequest) : Site Untyped.Server :=
  ⟨Untyped.Server.boot (sampleConfig .mock) [], gates, []⟩

/-- One event at the sample site. -/
abbrev SampleStep (s : Site Untyped.Server) (e : SiteEvent Untyped.Event)
    (s' : Site Untyped.Server) : Prop :=
  s.Step Untyped.sampleNumerals (sampleConfig .mock)
    (settling Untyped.sampleNumerals (sampleConfig .mock)) e s'

/-- The condition at the sample site. -/
abbrev SampleSettledFirst (s : Site Untyped.Server) (e : SiteEvent Untyped.Event) : Prop :=
  s.SettledFirst Untyped.sampleNumerals (sampleConfig .mock)
    (settling Untyped.sampleNumerals (sampleConfig .mock)) e

theorem access_sample {nullifier : String} (h : Plain nullifier) (gates : List GateRequest) :
    Run (fun s e s' => SampleStep s e s' ∧
        ((∀ g ∈ gates, ¬ Shares Untyped.sampleNumerals
          ⟨sampleOptions, sampleRequest nullifier, .done .next⟩ g) → SampleSettledFirst s e))
      (sampleSite gates)
      [.request sampleOptions (sampleRequest nullifier), .deliver gates.length,
        .verify gates.length (.verified (some true)), .reply gates.length]
      (sampleSite (gates ++ [⟨sampleOptions, sampleRequest nullifier, .done .next⟩])) := by
  -- The request in one phase after another.
  have hphase : ∀ (e : SiteEvent Untyped.Event) (phase phase' : GatePhase),
      e.gate = some gates.length →
      GatePhase.next Untyped.sampleNumerals (sampleConfig .mock) (fun _ => none)
        ⟨sampleOptions, sampleRequest nullifier, phase⟩ e = some phase' →
      SampleStep (sampleSite (gates ++ [⟨sampleOptions, sampleRequest nullifier, phase⟩])) e
        (sampleSite (gates ++ [⟨sampleOptions, sampleRequest nullifier, phase'⟩])) := by
    intro e phase phase' hgate hnext
    have hlookup : (gates ++ [GateRequest.mk sampleOptions (sampleRequest nullifier)
        phase])[gates.length]? = some ⟨sampleOptions, sampleRequest nullifier, phase⟩ :=
      getElem?_snoc.mpr (.inr ⟨rfl, rfl⟩)
    have hset : (gates ++ [GateRequest.mk sampleOptions (sampleRequest nullifier) phase]).set
        gates.length ⟨sampleOptions, sampleRequest nullifier, phase'⟩ =
        gates ++ [⟨sampleOptions, sampleRequest nullifier, phase'⟩] := by
      rw [List.set_append_right _ _ (Nat.le_refl _), Nat.sub_self, List.set_cons_zero]
    have hstep := Site.step_gate (p := settling Untyped.sampleNumerals (sampleConfig .mock))
      (s := sampleSite (gates ++ [GateRequest.mk sampleOptions (sampleRequest nullifier) phase]))
      hgate hlookup hnext
    rw [← hset]
    exact hstep
  have hrequest : SampleStep (sampleSite gates) (.request sampleOptions (sampleRequest nullifier))
      (sampleSite (gates ++
        [⟨sampleOptions, sampleRequest nullifier, .calling (samplePayload nullifier)⟩])) := by
    rw [← gate_sample h]
    rfl
  have hdeliver := hphase (.deliver gates.length) (.calling (samplePayload nullifier))
    (.atVerify ⟨some (sampleParsed nullifier), .verifying⟩) rfl
    (congrArg (fun h => some (GatePhase.atVerify h)) (verify_sample nullifier))
  have hverify := hphase (.verify gates.length (.verified (some true)))
    (.atVerify ⟨some (sampleParsed nullifier), .verifying⟩)
    (.atVerify ⟨some (sampleParsed nullifier), .replied .valid⟩) rfl rfl
  have hreply := hphase (.reply gates.length)
    (.atVerify ⟨some (sampleParsed nullifier), .replied .valid⟩) (.done .next) rfl rfl
  refine .cons ⟨hrequest, fun _ => trivial⟩ (.cons ⟨hdeliver, fun hnot => ?_⟩
    (.cons ⟨hverify, fun _ => trivial⟩ (.cons ⟨hreply, fun _ => trivial⟩ (.nil _))))
  -- Nobody shares the nullifier.
  intro g hg j g' hj hg' _ hshares
  obtain hnone | ⟨-, rfl⟩ := getElem?_snoc.mp hg
  · exact absurd (List.getElem?_eq_some_iff.mp hnone).1 (lt_irrefl _)
  · obtain hold | ⟨rfl, -⟩ := getElem?_snoc.mp hg'
    · refine absurd ?_ (hnot g' (List.mem_of_getElem? hold))
      obtain ⟨v, hv, w, hw, hsame⟩ := hshares
      rw [nullifiers_sampleRequest h] at hv
      exact ⟨v, by rw [nullifiers_sampleRequest h]; exact hv, w, hw, hsame⟩
    · exact absurd rfl hj

/-- One payment is presented twice, and grants access twice. -/
theorem two_accesses : ∃ s g g', Run SampleStep
    (Site.boot (Untyped.Server.boot (sampleConfig .mock) []))
    [.request sampleOptions (sampleRequest "5"), .deliver 0, .verify 0 (.verified (some true)),
      .reply 0, .request sampleOptions (sampleRequest "5"), .deliver 1,
      .verify 1 (.verified (some true)), .reply 1] s ∧
    s.gates[0]? = some g ∧ s.gates[1]? = some g' ∧ g.phase = .done .next ∧
    g'.phase = .done .next ∧ Shares Untyped.sampleNumerals g g' := by
  have hplain : Plain "5" := by decide
  have hfirst := (access_sample hplain []).mono fun _ _ _ h => h.1
  have hsecond := (access_sample hplain [⟨sampleOptions, sampleRequest "5", .done .next⟩]).mono
    fun _ _ _ h => h.1
  refine ⟨_, _, _, hfirst.append hsecond, rfl, rfl, rfl, rfl, .string "5", ?_, .string "5", ?_,
    .inl rfl⟩
  · rw [nullifiers_sampleRequest hplain]
    exact List.mem_cons_self
  · rw [nullifiers_sampleRequest hplain]
    exact List.mem_cons_self

theorem one_access_per_payment_sample :
    ¬ Shares Untyped.sampleNumerals ⟨sampleOptions, sampleRequest "5", .done .next⟩
      ⟨sampleOptions, sampleRequest "7", .done .next⟩ := by
  have hfive : Plain "5" := by decide
  have hseven : Plain "7" := by decide
  have hfirst : Run (fun s e s' => SampleStep s e s' ∧ SampleSettledFirst s e) _ _ _ :=
    (access_sample hfive []).mono fun _ _ _ h => ⟨h.1, h.2 fun g hg => absurd hg List.not_mem_nil⟩
  have hnot : ∀ g ∈ [GateRequest.mk sampleOptions (sampleRequest "5") (.done .next)],
      ¬ Shares Untyped.sampleNumerals ⟨sampleOptions, sampleRequest "7", .done .next⟩ g := by
    intro g hg hshares
    rw [List.mem_singleton] at hg
    subst hg
    obtain ⟨v, hv, w, hw, hsame⟩ := hshares
    rw [nullifiers_sampleRequest hseven, List.mem_singleton] at hv
    rw [nullifiers_sampleRequest hfive, List.mem_singleton] at hw
    subst hv hw
    obtain heq | ⟨x, hx, hx'⟩ := hsame
    · exact absurd (Value.string.inj heq) (by decide)
    · have h₇ : Js.bigInt "7" = some 7 := by decide
      have h₅ : Js.bigInt "5" = some 5 := by decide
      rw [JsValue.bigInt_string, h₇] at hx
      rw [JsValue.bigInt_string, h₅, ← hx] at hx'
      exact absurd hx' (by decide)
  have hsecond : Run (fun s e s' => SampleStep s e s' ∧ SampleSettledFirst s e) _ _ _ :=
    (access_sample hseven [⟨sampleOptions, sampleRequest "5", .done .next⟩]).mono
      fun _ _ _ h => ⟨h.1, h.2 hnot⟩
  exact one_access_per_payment (hfirst.append hsecond) (i := 0) (j := 1) rfl rfl
    (by decide) rfl rfl

end Enclave.Gate

import Enclave.Facilitator.ContractMaps
import Enclave.Pool.DoubleSpend

/-! # What a settlement pays

A settlement in on-chain mode that ends in success has submitted `pool.transact` with the
facilitator as the sender.  The binding check compares the absolute value of the external amount
with the required one, so the sign is the client's choice: a negative amount is paid by the pool,
a positive one by the facilitator (`settles_exactly_iff`).

The fields of the submitted maps are read by their names; their order is the subject of
`submitted_maps_differ`. -/

namespace Enclave.Facilitator

open Js Hex Stellar
open Pool (I256)

variable {cfg : Config} {s s' : Server} {e : Event} {events : List Event}
  {entries : List (String × String)} {h : Handler} {parsed : ParsedRequest} {args : TransactArgs}

/-! ### What is submitted -/

/-- A field of type `I256`. -/
def i256Field (v : ScVal) (name : String) : Option I256 :=
  match v.field name with
  | some (.i256 n) => some n
  | _ => none

/-- A field of type `Address`. -/
def addressField (v : ScVal) (name : String) : Option Address :=
  match v.field name with
  | some (.address a) => some a
  | _ => none

/-- `ExtData`. -/
def extDataOfScVal (v : ScVal) : Option Pool.ExtData := do
  return {
    recipient := ← addressField v "recipient"
    extAmount := ← i256Field v "ext_amount"
    encryptedOutput0 := ← bytesField v "encrypted_output0"
    encryptedOutput1 := ← bytesField v "encrypted_output1" }

/-- The call was applied, signed by its sender. -/
def TransactArgs.Applied (args : TransactArgs) (ext : Pool.Externals) (P : Poseidon2)
    (env env' : Env Pool.Chain) : Prop :=
  ∃ proof extData sender, proofOfScVal args.proof = some proof ∧
    extDataOfScVal args.extData = some extData ∧ args.sender = .address sender ∧
    Pool.transact ext P [sender] proof extData sender env = .ok ((), env')

/-- The required payment and nothing else: the amount goes from the pool to `payTo`, and the
facilitator loses nothing. -/
structure PaysExactly (cfg : Config) (ext : Pool.Externals) (requirements : PaymentRequirements)
    (env env' : Env Pool.Chain) : Prop where
  moved : ∃ token payTo amount, env.store.pool.token = some token ∧
    cfg.sdk.addressFromString requirements.payTo = some payTo ∧
    bigInt requirements.maxAmountRequired = some amount ∧
    env'.store.balances = Function.update env.store.balances token
      ((env.store.balances token).move ext.self payTo amount)
  kept : ∀ facilitator, cfg.sdk.addressFromString cfg.facilitatorAddress = some facilitator →
    ∀ token, env.store.balances token facilitator ≤ env'.store.balances token facilitator

/-! ### The request of a settlement -/

/-- The arguments were built of a request that passed its checks, for an amount that a balance can
cover. -/
structure Prepared (cfg : Config) (h : Handler) (parsed : ParsedRequest) (args : TransactArgs) :
    Prop where
  request : h.request = some parsed
  checked : checkRequest cfg.sdk parsed = some (.ok ())
  built : buildPoolTransactArgs cfg.sdk parsed.proof parsed.extData cfg.facilitatorAddress =
    .ok args
  covered : ∃ required, bigInt parsed.requirements.maxAmountRequired = some required ∧
    required < 2 ^ 127

/-- What a handler in on-chain mode has done when it waits, or has succeeded. -/
def Handler.Traced (cfg : Config) (h : Handler) : Prop :=
  match h.phase with
  | .verifying => False
  | .readingSnapshot => ∃ parsed, h.request = some parsed ∧
      checkRequest cfg.sdk parsed = some (.ok ())
  | .preparing args => ∃ parsed, Prepared cfg h parsed args
  | .sending args => ∃ parsed, Prepared cfg h parsed args
  | .polling args _ => ∃ parsed, Prepared cfg h parsed args
  | .appending _ => ∃ parsed args, Prepared cfg h parsed args
  | .answered (.success _) => ∃ parsed args, Prepared cfg h parsed args
  | .answered (.failure _ _) => True

/-- The balance in a snapshot is an `i128`. -/
def Event.I128 : Event → Prop
  | .answer _ (.snapshot (some snapshot)) => snapshot.poolUsdcBaseUnits < 2 ^ 127
  | _ => True

theorem Prepared.of_request {h' : Handler} (hp : Prepared cfg h parsed args)
    (hrequest : h'.request = h.request) : Prepared cfg h' parsed args :=
  ⟨hrequest.trans hp.request, hp.checked, hp.built, hp.covered⟩

theorem covered_of_solvent {snapshot : BalanceSnapshot} {requirements : PaymentRequirements}
    {minXlmStroops : ℤ} (hsnapshot : snapshot.poolUsdcBaseUnits < 2 ^ 127)
    (hsolvency : checkSolvency snapshot requirements minXlmStroops = some (.ok ())) :
    ∃ required, bigInt requirements.maxAmountRequired = some required ∧ required < 2 ^ 127 := by
  unfold checkSolvency at hsolvency
  split at hsolvency
  · cases hsolvency
  · obtain ⟨required, hrequired, hok⟩ := Option.map_eq_some_iff.mp hsolvency
    refine ⟨required, hrequired, ?_⟩
    split_ifs at hok
    omega

theorem traced_afterSnapshot (cache : NullifierCache) (hrequest : h.request = some parsed)
    (hcheck : checkRequest cfg.sdk parsed = some (.ok ())) {outcome : Option BalanceSnapshot}
    (hi128 : ∀ snapshot ∈ outcome, snapshot.poolUsdcBaseUnits < 2 ^ 127) :
    Handler.Traced cfg { h with phase := (afterSnapshot cfg cache h parsed outcome).2 } := by
  unfold afterSnapshot
  cases outcome with
  | none => exact trivial
  | some snapshot =>
      dsimp only
      cases hsolvency : checkSolvency snapshot parsed.requirements cfg.minXlmStroops with
      | none => exact trivial
      | some verdict =>
          cases verdict with
          | error reason => exact trivial
          | ok u =>
              dsimp only
              cases hargs : buildPoolTransactArgs cfg.sdk parsed.proof parsed.extData
                  cfg.facilitatorAddress with
              | error message => exact trivial
              | ok args =>
                  exact ⟨parsed, hrequest, hcheck, hargs,
                    covered_of_solvent (hi128 snapshot rfl) hsolvency⟩

/-- **Resuming** a handler keeps the trace. -/
theorem traced_resume {cache cache' : NullifierCache} {a : Answer} {phase' : Phase} {i : ℕ}
    (htraced : h.Traced cfg) (hi128 : (Event.answer i a).I128)
    (hresume : resume cfg cache h a = some (cache', phase')) :
    Handler.Traced cfg { h with phase := phase' } := by
  unfold Handler.Traced at htraced
  cases a with
  | verified outcome =>
      simp only [resume] at hresume
      split at hresume
      · rename_i hphase hrequest
        rw [hphase] at htraced
        exact htraced.elim
      · cases hresume
  | snapshot outcome =>
      simp only [resume] at hresume
      split at hresume
      · rename_i parsed hphase hrequest
        rw [hphase] at htraced
        obtain ⟨parsed', hrequest', hcheck⟩ := htraced
        cases Option.some.inj (hrequest.symm.trans hrequest')
        have hbound : ∀ snapshot ∈ outcome, snapshot.poolUsdcBaseUnits < 2 ^ 127 := by
          intro snapshot hsnapshot
          rw [Option.mem_def.mp hsnapshot] at hi128
          exact hi128
        have hafter := traced_afterSnapshot cache hrequest hcheck hbound
        rwa [Option.some.inj hresume] at hafter
      · cases hresume
  | prepared outcome =>
      simp only [resume] at hresume
      split at hresume
      · rename_i args hphase
        rw [hphase] at htraced
        split at hresume
        · cases hresume
          obtain ⟨parsed, hp⟩ := htraced
          exact ⟨parsed, hp.of_request rfl⟩
        · cases hresume
          exact trivial
      · cases hresume
  | sent outcome =>
      simp only [resume] at hresume
      split at hresume
      · rename_i args hphase
        rw [hphase] at htraced
        obtain ⟨parsed, hp⟩ := htraced
        cases outcome with
        | none =>
            cases hresume
            exact trivial
        | some send =>
            simp only [afterSend] at hresume
            split at hresume
            · cases hresume
              exact trivial
            · cases hresume
              exact ⟨parsed, hp.of_request rfl⟩
      · cases hresume
  | polled outcome =>
      simp only [resume] at hresume
      split at hresume
      · rename_i args hash hphase
        rw [hphase] at htraced
        obtain ⟨parsed, hp⟩ := htraced
        cases outcome with
        | none =>
            cases hresume
            exact trivial
        | some status =>
            cases status with
            | success =>
                cases hresume
                exact ⟨parsed, args, hp.of_request rfl⟩
            | failed resultXdr =>
                cases hresume
                exact trivial
            | notFound =>
                cases hresume
                exact ⟨parsed, hp.of_request rfl⟩
      · cases hresume
  | timedOut =>
      simp only [resume] at hresume
      split at hresume
      · cases hresume
        exact trivial
      · cases hresume
  | appended =>
      simp only [resume] at hresume
      split at hresume
      · rename_i transaction hphase
        rw [hphase] at htraced
        obtain ⟨parsed, args, hp⟩ := htraced
        cases hresume
        exact ⟨parsed, args, hp.of_request rfl⟩
      · cases hresume

/-- **One event** keeps the traces. -/
theorem traced_step (hmode : cfg.mode = .onChain) (hstep : s.Step cfg e s') (hi128 : e.I128)
    (hs : ∀ h ∈ s.handlers, h.Traced cfg) : ∀ h ∈ s'.handlers, h.Traced cfg := by
  intro h hh
  obtain ⟨cache', handlers'⟩ := s'
  obtain ⟨body, k, -, hhandlers, hcase⟩ | ⟨i, a, k, phase', rfl, hi, hhandlers, hresume, -⟩ :=
    Server.step_cases hstep
  all_goals dsimp only at hhandlers hh
  · dsimp only at hcase
    rw [hhandlers, List.mem_append, List.mem_singleton] at hh
    obtain hh | rfl := hh
    · exact hs h hh
    · cases hcase with
      | fails hfailed =>
          unfold Handler.Traced
          cases hphase : h.phase with
          | answered response =>
              rw [hphase] at hfailed
              cases response with
              | success transaction => exact hfailed.elim
              | failure status reason => exact trivial
          | _ =>
              rw [hphase] at hfailed
              exact hfailed.elim
      | waits hparse hcheck hclaimed hphase =>
          obtain ⟨-, hmock, -⟩ | ⟨rfl, -⟩ := hphase
          · rw [hmode] at hmock
            cases hmock
          · exact ⟨_, rfl, hcheck⟩
  · rw [hhandlers] at hh
    obtain hh | rfl := List.mem_or_eq_of_mem_set hh
    · exact hs h hh
    · exact traced_resume (hs k (List.mem_of_getElem? hi)) hi128 hresume

/-- **Run lemma.** -/
theorem traced_run (hmode : cfg.mode = .onChain)
    (hrun : Run (Server.Step cfg) (Server.boot cfg entries) events s)
    (hi128 : ∀ e ∈ events, e.I128) : ∀ h ∈ s.handlers, h.Traced cfg := by
  have hboot : ∀ h ∈ (Server.boot cfg entries).handlers, h.Traced cfg := fun h hh =>
    absurd hh List.not_mem_nil
  refine (hrun.with_labels hi128).invariant (I := fun s => ∀ h ∈ s.handlers, h.Traced cfg) ?_ hboot
  intro s e s' hs hstep
  exact traced_step hmode hstep.1 hstep.2 hs

/-! ### The effect of the call -/

theorem checkRequest_ok {sdk : Sdk} (hcheck : checkRequest sdk parsed = some (.ok ())) :
    ∃ v, bigInt parsed.extData.ext_amount = some v ∧
      parsed.extData.recipient = parsed.requirements.payTo ∧
      bigInt parsed.requirements.maxAmountRequired = some |v| := by
  unfold checkRequest at hcheck
  obtain ⟨ext, hext, hcheck⟩ := Option.bind_eq_some_iff.mp hcheck
  obtain ⟨verdict, hbinding, hcheck⟩ := Option.bind_eq_some_iff.mp hcheck
  obtain ⟨v, hv, rfl⟩ := Option.map_eq_some_iff.mp hext
  cases verdict with
  | error reason => cases hcheck
  | ok u =>
      unfold checkBinding at hbinding
      split at hbinding
      · cases hbinding
      · split at hbinding
        · cases hbinding
        · rename_i hrecipient
          obtain ⟨expected, hexpected, hok⟩ := Option.map_eq_some_iff.mp hbinding
          refine ⟨v, hv, not_not.mp hrecipient, ?_⟩
          rw [hexpected]
          dsimp only at hok
          split_ifs at hok with hneg hne hne
          · rw [abs_of_neg hneg, not_not.mp hne]
          · rw [abs_of_nonneg (not_lt.mp hneg), not_not.mp hne]

theorem orThrow_eq_ok {α : Type} {error : String} {x : Option α} {a : α} :
    orThrow error x = .ok a ↔ x = some a := by
  cases x <;> simp [orThrow]

theorem buildPoolTransactArgs_reads {sdk : Sdk} {facilitatorAddress : String}
    (hargs : buildPoolTransactArgs sdk parsed.proof parsed.extData facilitatorAddress = .ok args)
    {v : ℤ} (hv : bigInt parsed.extData.ext_amount = some v) :
    ∃ facilitator extData, sdk.addressFromString facilitatorAddress = some facilitator ∧
      args.sender = .address facilitator ∧ extDataOfScVal args.extData = some extData ∧
      sdk.addressFromString parsed.extData.recipient = some extData.recipient ∧
      sdk.nativeI256 v = some extData.extAmount := by
  unfold buildPoolTransactArgs at hargs
  simp only [bind_eq_ok] at hargs
  obtain ⟨facilitator, hfacilitator, proof, -, extData, hext, hargs⟩ := hargs
  cases hargs
  unfold extDataMap addressArg i256Arg hexArg at hext
  simp only [bind_eq_ok, orThrow_eq_ok] at hext
  obtain ⟨_, ⟨recipient, hrecipient, hr⟩, _, ⟨v', hv', amount, hamount, ha⟩, _, ⟨o₀, -, h₀⟩, _,
    ⟨o₁, -, h₁⟩, hext⟩ := hext
  cases hr
  cases ha
  cases h₀
  cases h₁
  cases hext
  cases Option.some.inj (hv.symm.trans hv')
  exact ⟨facilitator, ⟨recipient, amount, o₀, o₁⟩, orThrow_eq_ok.mp hfacilitator, rfl, rfl,
    hrecipient, hamount⟩

/-- Without a deposit, the pool pays the absolute value. -/
theorem settled_of_nonpos {v : ℤ} (hle : v ≤ 0) (self sender recipient : Address)
    (b : Pool.Balances) : Pool.settled self v sender recipient b = b.move self recipient |v| := by
  unfold Pool.settled
  obtain hneg | rfl := hle.lt_or_eq
  · rw [if_neg (by omega), if_pos hneg, abs_of_neg hneg]
  · funext x
    simp [Pool.Balances.move]

/-- A deposit is the sender's loss. -/
theorem settled_lt_of_pos {v : ℤ} (hpos : 0 < v) {self sender : Address} (hne : sender ≠ self)
    (recipient : Address) (b : Pool.Balances) :
    Pool.settled self v sender recipient b sender < b sender := by
  unfold Pool.settled Pool.Balances.move
  rw [if_pos hpos, if_pos rfl, if_neg hne]
  omega

/-- **The effect of a submitted call**: the transaction of the amount that the client sent, with
the facilitator as its sender. -/
theorem Prepared.settled {ext : Pool.Externals} {P : Poseidon2} {env env' : Env Pool.Chain}
    (hp : Prepared cfg h parsed args) (hsdk : cfg.sdk.Exact)
    (happlied : args.Applied ext P env env') :
    ∃ v token facilitator payTo, bigInt parsed.extData.ext_amount = some v ∧
      bigInt parsed.requirements.maxAmountRequired = some |v| ∧
      cfg.sdk.addressFromString cfg.facilitatorAddress = some facilitator ∧
      cfg.sdk.addressFromString parsed.requirements.payTo = some payTo ∧
      env.store.pool.token = some token ∧
      env'.store.balances = Function.update env.store.balances token
        (Pool.settled ext.self v facilitator payTo (env.store.balances token)) := by
  obtain ⟨v, hv, hrecipient, hrequired⟩ := checkRequest_ok hp.checked
  obtain ⟨facilitator, extData, hfacilitator, hsender, hext, hpayTo, hamount⟩ :=
    buildPoolTransactArgs_reads hp.built hv
  obtain ⟨proof, extData', sender, -, hext', hsender', htransact⟩ := happlied
  cases Option.some.inj (hext.symm.trans hext')
  cases hsender.symm.trans hsender'
  obtain ⟨token, htoken, hbalances, -, -⟩ := (Pool.transact_accepted htransact).moved
  have hvalue : extData.extAmount.val = v := by
    obtain ⟨required, hrequired', hlt⟩ := hp.covered
    cases Option.some.inj (hrequired.symm.trans hrequired')
    obtain ⟨hlow, hhigh⟩ := abs_lt.mp hlt
    have hexact := hsdk.nativeI256 ⟨v, by omega⟩
    exact congrArg I256.val (Option.some.inj (hamount.symm.trans hexact))
  rw [hrecipient] at hpayTo
  rw [hvalue] at hbalances
  exact ⟨v, token, facilitator, extData.recipient, hv, hrequired, hfacilitator, hpayTo, htoken,
    hbalances⟩

/-- **A settlement pays exactly what was required if and only if** the external amount is not
positive. -/
theorem settles_exactly_iff {ext : Pool.Externals} {P : Poseidon2} {f c i : ℕ}
    {transaction : String} (hmode : cfg.mode = .onChain) (hsdk : cfg.sdk.Exact)
    (hfacilitator : cfg.sdk.addressFromString cfg.facilitatorAddress = some (.account f))
    (hself : ext.self = .contract c)
    (hrun : Run (Server.Step cfg) (Server.boot cfg entries) events s)
    (hi128 : ∀ e ∈ events, e.I128) (hi : s.handlers[i]? = some h)
    (hsuccess : h.phase = .answered (.success transaction)) :
    ∃ parsed args, h.request = some parsed ∧
      buildPoolTransactArgs cfg.sdk parsed.proof parsed.extData cfg.facilitatorAddress =
        .ok args ∧
      ∀ env env', args.Applied ext P env env' →
        (PaysExactly cfg ext parsed.requirements env env' ↔
          ∃ v, bigInt parsed.extData.ext_amount = some v ∧ v ≤ 0) := by
  have htraced := traced_run hmode hrun hi128 h (List.mem_of_getElem? hi)
  unfold Handler.Traced at htraced
  rw [hsuccess] at htraced
  obtain ⟨parsed, args, hp⟩ := htraced
  refine ⟨parsed, args, hp.request, hp.built, fun env env' happlied => ?_⟩
  obtain ⟨v, token, facilitator, payTo, hv, hrequired, hfac, hpayTo, htoken, hbalances⟩ :=
    hp.settled hsdk happlied
  cases Option.some.inj (hfacilitator.symm.trans hfac)
  have hne : (Address.account f) ≠ ext.self := by
    rw [hself]
    exact Address.noConfusion
  constructor
  · intro hpays
    refine ⟨v, hv, ?_⟩
    by_contra hpos
    have hkept := hpays.kept _ hfac token
    rw [hbalances, Function.update_self] at hkept
    exact absurd (settled_lt_of_pos (not_le.mp hpos) hne payTo _) (not_lt.mpr hkept)
  · rintro ⟨v', hv', hle⟩
    cases Option.some.inj (hv.symm.trans hv')
    have hmoved : env'.store.balances = Function.update env.store.balances token
        ((env.store.balances token).move ext.self payTo |v|) := by
      rw [hbalances, settled_of_nonpos hle]
    refine ⟨⟨token, payTo, |v|, htoken, hpayTo, hrequired, hmoved⟩, fun a ha t => ?_⟩
    cases Option.some.inj (ha.symm.trans hfac)
    rw [hmoved]
    obtain rfl | ht := eq_or_ne t token
    · rw [Function.update_self]
      unfold Pool.Balances.move
      rw [if_neg hne]
      split_ifs
      · have := abs_nonneg v
        omega
      · omega
    · rw [Function.update_of_ne ht]

/-! ### A sample settlement

The facilitator and the pool hold 100 each; a client pays, or lets the facilitator pay, 5. -/

/-- The external amount: -5 or 5. -/
def paymentAmount (amount : ℤ) : I256 := if amount = -5 then ⟨-5, by decide⟩ else ⟨5, by decide⟩

def paymentHash (amount : ℤ) : ℕ :=
  sampleKeccak (.map [("ext_amount", .i256 (paymentAmount amount))]) % bn256Modulus

/-- A proof for the sample pool. -/
def paymentProof (amount : ℤ) : Pool.Proof :=
  { samplePoolProof [5] with
    root := (zeroAt 10).val
    publicAmount := (amount % bn256Modulus).toNat
    extDataHash := paymentHash amount
    aspMembershipRoot := Pool.sampleMembershipRoot.val }

def paymentRequest (amount : ℤ) : ParsedRequest :=
  ⟨proofWire (paymentProof amount), extDataWire (sampleExtData amount), sampleRequirements⟩

def paymentBody (amount : ℤ) : Option Body :=
  some ⟨some ⟨some "shielded-exact", some (paymentRequest amount).proof,
    some (paymentRequest amount).extData⟩, some sampleRequirements⟩

/-- The request, and the answers to what the handler waits for. -/
def paymentEvents (amount : ℤ) : List Event :=
  [.request (paymentBody amount), .answer 0 (.snapshot (some ⟨10, 10⟩)),
    .answer 0 (.prepared (some ())), .answer 0 (.sent (some ⟨false, "", ""⟩)),
    .answer 0 (.polled (some .success)), .answer 0 .appended]

def paymentHandler (amount : ℤ) (phase : Phase) : Handler :=
  ⟨some (paymentRequest amount), ["5"], phase⟩

/-- What is submitted. -/
def paymentArgs (amount : ℤ) : TransactArgs :=
  ⟨proofScVal (paymentProof amount), .map [("recipient", .address (.account 1)),
    ("ext_amount", .i256 (paymentAmount amount)),
    ("encrypted_output0", .bytes (List.replicate 112 0)),
    ("encrypted_output1", .bytes (List.replicate 112 0))], .address (.account 0)⟩

theorem paymentAmount_val {amount : ℤ} (hamount : amount ∈ [-5, 5]) :
    (sampleExtData amount).ext_amount = (paymentAmount amount).val := by
  revert amount
  decide

theorem hashExtData_payment {amount : ℤ} (hamount : amount ∈ [-5, 5]) :
    hashExtData sampleSdk (sampleExtData amount) =
      some (String.ofList (toHex (bigIntToBytesBE (paymentHash amount)))) := by
  have hmap : hashedExtDataMap sampleSdk (sampleExtData amount) = some (.map
      [("encrypted_output0", .bytes (List.replicate 112 0)),
        ("encrypted_output1", .bytes (List.replicate 112 0)),
        ("ext_amount", .i256 (paymentAmount amount)), ("recipient", .address (.account 1))]) := by
    rw [hashedExtDataMap_eq]
    have hrecipient : sampleSdk.addressFromString samplePayTo = some (.account 1) := by decide
    rw [paymentAmount_val hamount, sampleSdk_exact.xdrLargeI256, sampleExtData, hrecipient]
    rfl
  have hdigest : sampleKeccak (.map [("encrypted_output0", .bytes (List.replicate 112 0)),
        ("encrypted_output1", .bytes (List.replicate 112 0)),
        ("ext_amount", .i256 (paymentAmount amount)), ("recipient", .address (.account 1))]) %
      bn256Modulus = paymentHash amount := rfl
  rw [hashExtData, hmap, ← hdigest]
  rfl

theorem checkRequest_payment {amount : ℤ} (hamount : amount ∈ [-5, 5]) :
    checkRequest sampleSdk (paymentRequest amount) = some (.ok ()) := by
  have hmeets : (sampleExtData amount).Meets sampleRequirements := by
    refine ⟨List.length_replicate, List.length_replicate, rfl, ?_⟩
    revert amount
    decide
  exact checkRequest_of_meets hmeets (hashExtData_payment hamount) rfl

theorem inRange_payment {amount : ℤ} (hamount : amount ∈ [-5, 5]) :
    InRange (paymentProof amount) := by
  have hmod : bn256Modulus < 2 ^ 256 := by decide
  have hpublic : ∀ amount ∈ [(-5 : ℤ), 5], (amount % bn256Modulus).toNat < 2 ^ 256 := by decide
  have hroot : (zeroAt 10).val < 2 ^ 256 := (F.val_lt (zeroAt 10)).trans hmod
  have hhash : paymentHash amount < 2 ^ 256 := by
    unfold paymentHash
    exact (Nat.mod_lt _ (NeZero.pos _)).trans hmod
  have hmember : Pool.sampleMembershipRoot.val < 2 ^ 256 :=
    (F.val_lt Pool.sampleMembershipRoot).trans hmod
  have hnullifiers : ∀ n ∈ [5], n < 2 ^ 256 := by decide
  unfold paymentProof samplePoolProof
  constructor <;> dsimp only
  · exact hroot
  · exact hnullifiers
  · decide
  · decide
  · exact hpublic amount hamount
  · exact hhash
  · exact hmember
  · decide

theorem buildPoolTransactArgs_payment {amount : ℤ} (hamount : amount ∈ [-5, 5]) :
    buildPoolTransactArgs sampleSdk (paymentRequest amount).proof (paymentRequest amount).extData
      sampleFacilitator = .ok (paymentArgs amount) := by
  have hpayTo : sampleSdk.addressFromString samplePayTo = some (.account 1) := by decide
  have hfacilitator : sampleSdk.addressFromString sampleFacilitator = some (.account 0) := by decide
  exact buildPoolTransactArgs_wire sampleSdk_exact (inRange_payment hamount)
    (paymentAmount_val hamount) hpayTo hfacilitator

/-- The server after the request, with the handler in a phase. -/
def paymentServer (amount : ℤ) (phase : Phase) : Server :=
  ⟨Function.update (fun _ => none) "5" (some ⟨.inFlight, none⟩), [paymentHandler amount phase]⟩

theorem run_payment {amount : ℤ} (hamount : amount ∈ [-5, 5]) : ∃ s,
    Run (Server.Step (sampleConfig .onChain)) (Server.boot (sampleConfig .onChain) [])
      (paymentEvents amount) s ∧
    s.handlers[0]? = some (paymentHandler amount (.answered (.success ""))) := by
  have hkey : NullifierCache.normalize (sampleConfig .onChain).sdk.toLowerCase "5" = "5" := by
    decide
  have hclaim : claimNullifiers (sampleConfig .onChain) (fun _ => none) (paymentRequest amount) =
      (Function.update (fun _ => none) "5" (some ⟨.inFlight, none⟩),
        paymentHandler amount .readingSnapshot) := by
    nth_rewrite 1 [← hkey]
    rfl
  have hsettle : settle (sampleConfig .onChain) (fun _ => none) (paymentBody amount) =
      claimNullifiers (sampleConfig .onChain) (fun _ => none) (paymentRequest amount) :=
    settle_of_passes rfl (checkRequest_payment hamount)
  have hsolvency : checkSolvency ⟨10, 10⟩ sampleRequirements 0 = some (.ok ()) := by decide
  have hrequest : Server.Step (sampleConfig .onChain) (Server.boot (sampleConfig .onChain) [])
      (.request (paymentBody amount)) (paymentServer amount .readingSnapshot) := by
    have hboot : (Server.boot (sampleConfig .onChain) []).cache = fun _ => none := rfl
    unfold Server.Step Server.next
    dsimp only
    rw [hboot, hsettle, hclaim]
    rfl
  have hsnapshot : Server.Step (sampleConfig .onChain) (paymentServer amount .readingSnapshot)
      (.answer 0 (.snapshot (some ⟨10, 10⟩)))
      (paymentServer amount (.preparing (paymentArgs amount))) := by
    have hafter := @afterSnapshot_of_ok (sampleConfig .onChain)
      (paymentServer amount .readingSnapshot).cache (paymentHandler amount .readingSnapshot)
      (paymentRequest amount) ⟨10, 10⟩ (paymentArgs amount) hsolvency
      (buildPoolTransactArgs_payment hamount)
    have hresume : resume (sampleConfig .onChain) (paymentServer amount .readingSnapshot).cache
        (paymentHandler amount .readingSnapshot) (.snapshot (some ⟨10, 10⟩)) =
          some ((paymentServer amount .readingSnapshot).cache,
            .preparing (paymentArgs amount)) := congrArg some hafter
    have hlookup : (paymentServer amount .readingSnapshot).handlers[0]? =
        some (paymentHandler amount .readingSnapshot) := rfl
    unfold Server.Step Server.next
    dsimp only
    rw [hlookup, Option.bind_some, hresume]
    rfl
  exact ⟨_, .cons hrequest (.cons hsnapshot (.cons rfl (.cons rfl (.cons rfl (.single rfl))))), rfl⟩

/-- The pool behind the sample. -/
def settlementExternals : Pool.Externals where
  self := .contract 0
  token := Pool.sampleToken
  verify := fun _ _ _ => some true
  keccakXdr := fun extData => paymentHash extData.extAmount.val

/-- The facilitator and the pool with 100 each. -/
def settlementPool : Env Pool.Chain :=
  ⟨{ Pool.samplePool.store with
    balances := fun _ x => if x = .contract 0 ∨ x = .account 0 then 100 else 0 },
    Pool.samplePool.hashed⟩

theorem applied_payment {amount : ℤ} (hamount : amount ∈ [-5, 5]) : ∃ env',
    (paymentArgs amount).Applied settlementExternals zeroPoseidon2 settlementPool env' := by
  have hok : ∀ amount ∈ [(-5 : ℤ), 5], (Pool.transact settlementExternals zeroPoseidon2
      [.account 0] (paymentProof amount) ⟨.account 1, paymentAmount amount, List.replicate 112 0,
        List.replicate 112 0⟩ (.account 0) settlementPool).isOk = true := by
    decide +kernel
  have happlied := hok amount hamount
  cases hresult : Pool.transact settlementExternals zeroPoseidon2 [.account 0]
      (paymentProof amount) ⟨.account 1, paymentAmount amount, List.replicate 112 0,
        List.replicate 112 0⟩ (.account 0) settlementPool with
  | error fault =>
      rw [hresult] at happlied
      cases happlied
  | ok result =>
      exact ⟨result.2, paymentProof amount, ⟨.account 1, paymentAmount amount,
        List.replicate 112 0, List.replicate 112 0⟩, .account 0,
        proofOfScVal_proofScVal (inRange_payment hamount), rfl, rfl, hresult⟩

theorem i128_payment (amount : ℤ) : ∀ e ∈ paymentEvents amount, e.I128 := by
  intro e he
  simp only [paymentEvents, List.mem_cons, List.not_mem_nil, or_false] at he
  obtain rfl | rfl | rfl | rfl | rfl | rfl := he
  · exact trivial
  · exact (by decide : (10 : ℤ) < 2 ^ 127)
  all_goals exact trivial

/-- The client has 5 paid by the pool. -/
theorem settles_exactly_iff_payment : ∃ s h,
    Run (Server.Step (sampleConfig .onChain)) (Server.boot (sampleConfig .onChain) [])
      (paymentEvents (-5)) s ∧ s.handlers[0]? = some h ∧
    ∃ parsed args, h.request = some parsed ∧
      buildPoolTransactArgs sampleSdk parsed.proof parsed.extData sampleFacilitator = .ok args ∧
      ∀ env env', args.Applied settlementExternals zeroPoseidon2 env env' →
        (PaysExactly (sampleConfig .onChain) settlementExternals parsed.requirements env env' ↔
          ∃ v, bigInt parsed.extData.ext_amount = some v ∧ v ≤ 0) := by
  obtain ⟨s, hrun, hi⟩ := run_payment (show (-5 : ℤ) ∈ [-5, 5] by decide)
  have hfacilitator : sampleSdk.addressFromString sampleFacilitator = some (.account 0) := by decide
  exact ⟨s, _, hrun, hi, settles_exactly_iff rfl sampleSdk_exact hfacilitator rfl hrun
    (i128_payment (-5)) hi rfl⟩

/-- **The client has 5 paid by the facilitator**: the settlement succeeds, its call is applied, and
the facilitator's tokens are gone. -/
theorem settles_deposit : ∃ s h env',
    Run (Server.Step (sampleConfig .onChain)) (Server.boot (sampleConfig .onChain) [])
      (paymentEvents 5) s ∧ s.handlers[0]? = some h ∧ h.phase = .answered (.success "") ∧
    h.request = some (paymentRequest 5) ∧
    buildPoolTransactArgs sampleSdk (paymentRequest 5).proof (paymentRequest 5).extData
      sampleFacilitator = .ok (paymentArgs 5) ∧
    (paymentArgs 5).Applied settlementExternals zeroPoseidon2 settlementPool env' ∧
    ¬ PaysExactly (sampleConfig .onChain) settlementExternals sampleRequirements settlementPool
      env' := by
  have hamount : (5 : ℤ) ∈ [-5, 5] := by decide
  obtain ⟨s, hrun, hi⟩ := run_payment hamount
  obtain ⟨env', happlied⟩ := applied_payment hamount
  have hfacilitator : sampleSdk.addressFromString sampleFacilitator = some (.account 0) := by decide
  refine ⟨s, _, env', hrun, hi, rfl, rfl, buildPoolTransactArgs_payment hamount, happlied, ?_⟩
  intro hpays
  have htraced := traced_run rfl hrun (i128_payment 5) _ (List.mem_of_getElem? hi)
  obtain ⟨parsed, args, hp⟩ := htraced
  obtain rfl : parsed = paymentRequest 5 := (Option.some.inj hp.request).symm
  obtain rfl : args = paymentArgs 5 :=
    Except.ok.inj (hp.built.symm.trans (buildPoolTransactArgs_payment hamount))
  obtain ⟨v, token, facilitator, payTo, hv, -, hfac, -, -, hbalances⟩ :=
    hp.settled sampleSdk_exact happlied
  cases Option.some.inj (hfacilitator.symm.trans hfac)
  have hv' : bigInt (paymentRequest 5).extData.ext_amount = some 5 := bigInt_bigIntToString 5
  cases Option.some.inj (hv.symm.trans hv')
  have hkept := hpays.kept _ hfacilitator token
  rw [hbalances, Function.update_self] at hkept
  exact absurd (settled_lt_of_pos (by decide) (by decide) payTo _) (not_lt.mpr hkept)

end Enclave.Facilitator

import Enclave.Facilitator.Claims

/-! # Double settlement

Two requests that succeeded share no cache key.  The key is the text of a nullifier, and an integer
has several: the keys tell integers apart only where every integer comes in one spelling
(`settles_once`).  `5` and `0x5` are both settled (`settles_two_spellings`). -/

namespace Enclave.Facilitator

open Stellar

variable {cfg : Config} {s s' : Server} {e : Event} {events : List Event}
  {entries : List (String × String)}

/-! ### Requests and their outcome -/

/-- The texts denote one integer. -/
def SameInteger (n m : String) : Prop := ∃ x, Js.bigInt n = some x ∧ Js.bigInt m = some x

/-- No integer has two spellings, up to case, among the nullifiers of the requests. -/
def OneSpelling (cfg : Config) (events : List Event) : Prop :=
  ∀ e ∈ events, ∀ e' ∈ events, ∀ n ∈ e.nullifiers, ∀ m ∈ e'.nullifiers, SameInteger n m →
    NullifierCache.normalize cfg.sdk.toLowerCase n =
      NullifierCache.normalize cfg.sdk.toLowerCase m

/-- The request was answered with success. -/
def Server.Succeeded (s : Server) (i : ℕ) (parsed : ParsedRequest) : Prop :=
  ∃ (h : Handler) (transaction : String), s.handlers[i]? = some h ∧ h.request = some parsed ∧
    h.phase = .answered (.success transaction)

theorem Server.Succeeded.origin {i : ℕ} {parsed : ParsedRequest} (h : s.Succeeded i parsed)
    (hrun : Run (Server.Step cfg) (Server.boot cfg entries) events s) :
    ∃ k, s.handlers[i]? = some k ∧ k.phase.Settled ∧
      k.claimedOrder = getInputNullifiers parsed.proof ∧
      ∃ e ∈ events, e.nullifiers = getInputNullifiers parsed.proof := by
  obtain ⟨k, transaction, hi, hrequest, hphase⟩ := h
  have hsettled : k.phase.Settled := by rw [hphase]; trivial
  obtain ⟨e, parsed', he, hparsed, hclaimed, hnulls⟩ := origin_of_run hrun
    (fun _ he => he) (fun _ _ hnone => by cases hnone) i k hi hsettled.not_failed
  cases Option.some.inj (hparsed.symm.trans hrequest)
  exact ⟨k, hi, hsettled, hclaimed, e, he, hnulls.trans hclaimed⟩

/-- **No double settlement**, where no integer comes in two spellings. -/
theorem settles_once (hrun : Run (Server.Step cfg) (Server.boot cfg entries) events s)
    (hspelling : OneSpelling cfg events) {i j : ℕ} {parsed parsed' : ParsedRequest}
    (hi : s.Succeeded i parsed) (hj : s.Succeeded j parsed') (hij : i ≠ j) :
    ∀ n ∈ getInputNullifiers parsed.proof, ∀ m ∈ getInputNullifiers parsed'.proof,
      ¬ SameInteger n m := by
  intro n hn m hm hsame
  obtain ⟨k, hk, hsettled, hclaimed, e, he, hnulls⟩ := hi.origin hrun
  obtain ⟨k', hk', hsettled', hclaimed', e', he', hnulls'⟩ := hj.origin hrun
  have hkey := hspelling e he e' he' n (hnulls ▸ hn) m (hnulls' ▸ hm) hsame
  have hmem : NullifierCache.normalize cfg.sdk.toLowerCase n ∈ k.keys cfg := by
    rw [Handler.keys, hclaimed]
    exact List.mem_map_of_mem hn
  have hmem' : NullifierCache.normalize cfg.sdk.toLowerCase n ∈ k'.keys cfg := by
    rw [hkey, Handler.keys, hclaimed']
    exact List.mem_map_of_mem hm
  exact hij ((exclusive_of_run hrun).unique hk hk' hsettled.not_failed hsettled'.not_failed
    hmem hmem')

/-- The answers of the verifier are those of a function of the signals' numbers. -/
def Event.ofVerifier (verify : List (Option ℤ) → Bool) (s : Server) : Event → Bool
  | .answer i (.verified (some b)) =>
      match (s.handlers[i]?).bind Handler.request with
      | some parsed => b == verify ((publicSignals parsed.proof).map Js.bigInt)
      | none => true
  | _ => true

/-- One event, with such a verifier. -/
def Server.nextVerified (cfg : Config) (verify : List (Option ℤ) → Bool) (s : Server) (e : Event) :
    Option Server :=
  if e.ofVerifier verify s then s.next cfg e else none

/-- A verifier that accepts proofs for the nullifiers 5 and 7. -/
def sampleVerify (signals : List (Option ℤ)) : Bool :=
  signals[3]? == some (some 5) || signals[3]? == some (some 7)

/-- The request, the verifier's answer and the log's. -/
def sampleSettlement (i : ℕ) (nullifier : String) : List Event :=
  [.request (sampleBody [nullifier]), .answer i (.verified (some true)), .answer i .appended]

def Phase.transaction : Phase → Option String
  | .answered (.success transaction) => some transaction
  | _ => none

theorem Phase.eq_of_transaction {phase : Phase} {transaction : String}
    (h : phase.transaction = some transaction) : phase = .answered (.success transaction) := by
  cases phase with
  | answered r =>
      cases r with
      | success t => rw [Option.some.inj h]
      | failure status reason => cases h
  | _ => cases h

/-- The nullifiers of a request, and the transaction it was answered with. -/
def Server.outcome (s : Server) (i : ℕ) : Option (List String × Option String) :=
  (s.handlers[i]?).bind fun h => h.request.map fun parsed =>
    (getInputNullifiers parsed.proof, h.phase.transaction)

theorem succeeded_of_outcome {i : ℕ} {ns : List String} {transaction : String}
    (h : s.outcome i = some (ns, some transaction)) :
    ∃ parsed, s.Succeeded i parsed ∧ getInputNullifiers parsed.proof = ns := by
  obtain ⟨k, hi, hrest⟩ := Option.bind_eq_some_iff.mp h
  obtain ⟨parsed, hrequest, heq⟩ := Option.map_eq_some_iff.mp hrest
  obtain ⟨hns, htx⟩ := Prod.mk.inj heq
  exact ⟨parsed, ⟨k, transaction, hi, hrequest, Phase.eq_of_transaction htx⟩, hns⟩

theorem run_sampleSettlements {m : String} (hm : m = "0x5" ∨ m = "7") : ∃ s t t',
    Run (fun s e s' => s.nextVerified (sampleConfig .mock) sampleVerify e = some s')
      (Server.boot (sampleConfig .mock) []) (sampleSettlement 0 "5" ++ sampleSettlement 1 m) s ∧
    s.outcome 0 = some (["5"], some t) ∧ s.outcome 1 = some ([m], some t') := by
  have hrequest : ∀ s n, Server.nextVerified (sampleConfig .mock) sampleVerify s
      (.request (sampleBody [n])) = s.next (sampleConfig .mock) (.request (sampleBody [n])) :=
    fun s n => if_pos rfl
  have h : ∃ t t', ((Run.exec (Server.nextVerified (sampleConfig .mock) sampleVerify)
      (Server.boot (sampleConfig .mock) [])
      (sampleSettlement 0 "5" ++ sampleSettlement 1 m)).map fun s =>
        (s.outcome 0, s.outcome 1)) = some (some (["5"], some t), some ([m], some t')) := by
    simp only [sampleSettlement, List.cons_append, List.nil_append, Run.exec, hrequest,
      next_sample]
    obtain rfl | rfl := hm
    · exact ⟨"mock_5", "mock_5", by decide +kernel⟩
    · exact ⟨"mock_5", "mock_7", by decide +kernel⟩
  obtain ⟨t, t', h⟩ := h
  obtain ⟨s, hs, houtcome⟩ := Option.map_eq_some_iff.mp h
  obtain ⟨h₀, h₁⟩ := Prod.mk.inj houtcome
  exact ⟨s, t, t', Run.of_exec hs, h₀, h₁⟩

/-- `5` and `0x5` are settled one after the other. -/
theorem settles_two_spellings : ∃ s parsed parsed',
    Run (fun s e s' => s.nextVerified (sampleConfig .mock) sampleVerify e = some s')
      (Server.boot (sampleConfig .mock) []) (sampleSettlement 0 "5" ++ sampleSettlement 1 "0x5") s ∧
    s.Succeeded 0 parsed ∧ s.Succeeded 1 parsed' ∧
    ∃ n ∈ getInputNullifiers parsed.proof, ∃ m ∈ getInputNullifiers parsed'.proof,
      SameInteger n m := by
  obtain ⟨s, t, t', hrun, h₀, h₁⟩ := run_sampleSettlements (.inl rfl)
  obtain ⟨parsed, hs, hns⟩ := succeeded_of_outcome h₀
  obtain ⟨parsed', hs', hns'⟩ := succeeded_of_outcome h₁
  refine ⟨s, parsed, parsed', hrun, hs, hs', "5", ?_, "0x5", ?_, 5, by decide, by decide⟩
  · rw [hns]
    exact List.mem_cons_self
  · rw [hns']
    exact List.mem_cons_self

theorem oneSpelling_sample : OneSpelling (sampleConfig .mock)
    (sampleSettlement 0 "5" ++ sampleSettlement 1 "7") := by
  have hnulls : ∀ e ∈ sampleSettlement 0 "5" ++ sampleSettlement 1 "7", ∀ n ∈ e.nullifiers,
      n = "5" ∨ n = "7" := by decide
  have hne : ¬ SameInteger "5" "7" := by
    intro hsame
    obtain ⟨x, hx, hx'⟩ := hsame
    have h₅ : Js.bigInt "5" = some 5 := by decide
    have h₇ : Js.bigInt "7" = some 7 := by decide
    rw [h₅] at hx
    rw [h₇, ← hx] at hx'
    exact absurd hx' (by decide)
  intro e he e' he' n hn m hm hsame
  obtain rfl | rfl := hnulls e he n hn <;> obtain rfl | rfl := hnulls e' he' m hm
  · rfl
  · exact absurd hsame hne
  · exact absurd (hsame.imp fun _ h => h.symm) hne
  · rfl

theorem settles_once_sample : ∃ s parsed parsed',
    Run (Server.Step (sampleConfig .mock)) (Server.boot (sampleConfig .mock) [])
      (sampleSettlement 0 "5" ++ sampleSettlement 1 "7") s ∧
    s.Succeeded 0 parsed ∧ s.Succeeded 1 parsed' ∧
    ∀ n ∈ getInputNullifiers parsed.proof, ∀ m ∈ getInputNullifiers parsed'.proof,
      ¬ SameInteger n m := by
  obtain ⟨s, t, t', hverified, h₀, h₁⟩ := run_sampleSettlements (.inr rfl)
  obtain ⟨parsed, hs, -⟩ := succeeded_of_outcome h₀
  obtain ⟨parsed', hs', -⟩ := succeeded_of_outcome h₁
  have hrun := hverified.mono fun s e s' hnext => by
    unfold Server.nextVerified at hnext
    split at hnext
    · exact hnext
    · cases hnext
  exact ⟨s, parsed, parsed', hrun, hs, hs',
    settles_once hrun oneSpelling_sample hs hs' (by decide)⟩

end Enclave.Facilitator

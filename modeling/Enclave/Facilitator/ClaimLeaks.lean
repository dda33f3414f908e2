import Enclave.Facilitator.Claims
import Enclave.Facilitator.UntypedSettle

/-! # Claims that are never given back

The loop of claims stands before the `try` of `/settle`.  A nullifier that is no string ends the
request by an exception there, and the claims made before it stay in flight (`Interrupted`).  A run
without such requests leaves no claim behind, and every such request does (`rolls_back_iff`).

A handler over untyped requests is one of `SettleRoute` as far as claims go (`Handler.typed`), so
ownership is kept by the rules of `Claims`. -/

namespace Enclave.Facilitator.Untyped

open Stellar
open Json (Value)
open JsValue (prop)

variable {cfg : Config} {num : Numerals} {cache cache' : NullifierCache} {body : JsValue}

/-! ### The loop of claims -/

/-- A value that is not a string comes after strings that are claimed. -/
def Interrupted (toLowerCase : String → String) (cache : NullifierCache) (items : List Value) :
    Prop :=
  ∃ ns x rest, items = ns.map Value.string ++ x :: rest ∧ ns ≠ [] ∧ (∀ s, x ≠ .string s) ∧
    (∀ key ∈ NullifierCache.keys toLowerCase ns, cache key = none) ∧
    (NullifierCache.keys toLowerCase ns).Nodup

/-- How the loop goes on from some claims. -/
inductive LoopCase (toLowerCase : String → String) (cache₀ : NullifierCache)
    (claimed : List String) (items : List Value) : NullifierCache × ClaimOutcome → Prop
  | claimed {ns : List String} {cache' : NullifierCache} :
      NullifierCache.Claimed toLowerCase cache₀ (claimed ++ ns) cache' →
      LoopCase toLowerCase cache₀ claimed items (cache', .claimed (claimed ++ ns))
  | conflict {order : List String} :
      (∀ key ∈ NullifierCache.keys toLowerCase order, cache₀ key = none) →
      LoopCase toLowerCase cache₀ claimed items (cache₀, .conflict order)
  | thrown {ns : List String} {x : Value} {rest : List Value} {cache' : NullifierCache} :
      items = ns.map Value.string ++ x :: rest → (∀ s, x ≠ .string s) →
      NullifierCache.Claimed toLowerCase cache₀ (claimed ++ ns) cache' →
      (NullifierCache.keys toLowerCase (claimed ++ ns)).Nodup →
      LoopCase toLowerCase cache₀ claimed items (cache', .thrown (claimed ++ ns))

variable {toLowerCase : String → String} {cache₀ : NullifierCache}

theorem nodup_keys_snoc {claimed : List String} {n : String}
    (h : NullifierCache.Claimed toLowerCase cache₀ claimed cache)
    (hnodup : (NullifierCache.keys toLowerCase claimed).Nodup)
    (hnone : cache (NullifierCache.normalize toLowerCase n) = none) :
    (NullifierCache.keys toLowerCase (claimed ++ [n])).Nodup := by
  have hnew : NullifierCache.normalize toLowerCase n ∉
      NullifierCache.keys toLowerCase claimed := by
    intro hmem
    rw [h.entry, if_pos hmem] at hnone
    cases hnone
  unfold NullifierCache.keys at hnodup hnew ⊢
  rw [List.map_append, List.map_singleton]
  apply List.nodup_append.mpr
  refine ⟨hnodup, List.nodup_singleton _, ?_⟩
  intro a ha b hb hab
  rw [List.mem_singleton] at hb
  subst hab hb
  exact hnew ha

theorem claimLoop_of_not_string {x : Value} (hx : ∀ s, x ≠ .string s) (cache : NullifierCache)
    (claimed : List String) (rest : List Value) :
    claimLoop toLowerCase cache claimed (x :: rest) = (cache, .thrown claimed) := by
  cases x with
  | string s => exact absurd rfl (hx s)
  | _ => rfl

theorem string_or_not (x : Value) : (∃ s, x = .string s) ∨ ∀ s, x ≠ .string s := by
  cases x with
  | string s => exact .inl ⟨s, rfl⟩
  | _ => exact .inr fun _ => Value.noConfusion

theorem claimLoop_cases (items : List Value) {cache : NullifierCache} {claimed : List String}
    (h : NullifierCache.Claimed toLowerCase cache₀ claimed cache)
    (hnodup : (NullifierCache.keys toLowerCase claimed).Nodup) :
    LoopCase toLowerCase cache₀ claimed items (claimLoop toLowerCase cache claimed items) := by
  induction items generalizing cache claimed with
  | nil =>
      have hcase := @LoopCase.claimed toLowerCase cache₀ claimed [] [] cache
      rw [List.append_nil] at hcase
      exact hcase h
  | cons x rest ih =>
      obtain ⟨n, rfl⟩ | hx := string_or_not x
      · rw [claimLoop]
        obtain ⟨-, hrefused⟩ | ⟨hnone, hmade⟩ := @NullifierCache.tryClaim_cases toLowerCase cache n
        · rw [hrefused]
          dsimp only
          rw [h.releaseAll]
          exact .conflict h.absent
        · rw [hmade]
          dsimp only
          have hcase := ih (h.snoc hmade) (nodup_keys_snoc h hnodup hnone)
          generalize claimLoop toLowerCase _ _ rest = r at hcase ⊢
          cases hcase with
          | claimed hclaimed =>
              rw [List.append_assoc] at hclaimed ⊢
              exact .claimed hclaimed
          | conflict habsent => exact .conflict habsent
          | @thrown ns x rest' cache' hitems hx hclaimed hnodup' =>
              rw [List.append_assoc] at hclaimed hnodup' ⊢
              have hsplit : Value.string n :: rest =
                  ([n] ++ ns).map Value.string ++ x :: rest' := by
                rw [hitems]
                rfl
              exact .thrown hsplit hx hclaimed hnodup'
      · rw [claimLoop_of_not_string hx]
        have hcase := @LoopCase.thrown toLowerCase cache₀ claimed (x :: rest) [] x rest cache
        rw [List.append_nil] at hcase
        exact hcase rfl hx h hnodup

theorem claimLoop_of_fresh {ns : List String} (rest : List Value) {cache : NullifierCache}
    {claimed : List String} (h : NullifierCache.Claimed toLowerCase cache₀ claimed cache)
    (habsent : ∀ key ∈ NullifierCache.keys toLowerCase ns, cache₀ key = none)
    (hnodup : (NullifierCache.keys toLowerCase (claimed ++ ns)).Nodup) :
    ∃ cache', NullifierCache.Claimed toLowerCase cache₀ (claimed ++ ns) cache' ∧
      claimLoop toLowerCase cache claimed (ns.map Value.string ++ rest) =
        claimLoop toLowerCase cache' (claimed ++ ns) rest := by
  induction ns generalizing cache claimed with
  | nil =>
      refine ⟨cache, ?_, ?_⟩
      · rwa [List.append_nil]
      · rw [List.append_nil]
        rfl
  | cons n ns ih =>
      have happend : claimed ++ n :: ns = claimed ++ [n] ++ ns := by
        rw [List.append_assoc, List.singleton_append]
      have hnone : cache (NullifierCache.normalize toLowerCase n) = none := by
        have hnew : NullifierCache.normalize toLowerCase n ∉
            NullifierCache.keys toLowerCase claimed := by
          intro hmem
          unfold NullifierCache.keys at hnodup hmem
          rw [List.map_append, List.map_cons] at hnodup
          exact (List.nodup_append.mp hnodup).2.2 _ hmem _ List.mem_cons_self rfl
        rw [h.entry, if_neg hnew]
        exact habsent _ List.mem_cons_self
      obtain ⟨hsome, -⟩ | ⟨-, hmade⟩ := @NullifierCache.tryClaim_cases toLowerCase cache n
      · rw [hnone] at hsome
        cases hsome
      · rw [happend] at hnodup ⊢
        obtain ⟨cache', hclaimed, hloop⟩ := ih (h.snoc hmade)
          (fun key hkey => habsent key (List.mem_cons_of_mem _ hkey)) hnodup
        refine ⟨cache', hclaimed, ?_⟩
        rw [List.map_cons, List.cons_append, claimLoop, hmade]
        exact hloop

/-! ### Ownership -/

/-- A handler has ended. -/
def Phase.Ended : Phase → Prop
  | .answered _ => True
  | .thrown => True
  | _ => False

/-- The phase as one of `SettleRoute`. -/
def Phase.typed : Phase → Facilitator.Phase
  | .verifying => .verifying
  | .readingSnapshot => .readingSnapshot
  | .submitting => .readingSnapshot
  | .appending transaction => .appending transaction
  | .answered response => .answered response
  | .thrown => .answered (.failure 500 "internal_error")

/-- The handler as one of `SettleRoute`. -/
def Handler.typed (h : Handler) : Facilitator.Handler := ⟨none, h.claimedOrder, h.phase.typed⟩

/-- The process as one of `SettleRoute`. -/
def Server.typed (s : Server) : Facilitator.Server := ⟨s.cache, s.handlers.map Handler.typed⟩

def Handler.keys (cfg : Config) (h : Handler) : List String :=
  NullifierCache.keys cfg.sdk.toLowerCase h.claimedOrder

/-- A handler that has not ended has claimed the key. -/
def Server.Holds (cfg : Config) (s : Server) (i : ℕ) (key : String) : Prop :=
  ∃ h, s.handlers[i]? = some h ∧ ¬ h.phase.Ended ∧ key ∈ h.keys cfg

/-- Every claim in flight is held by a handler that has not ended. -/
def Server.NoLeak (cfg : Config) (s : Server) : Prop :=
  ∀ key, s.cache.InFlight key → ∃ i, s.Holds cfg i key

theorem Phase.typed_answered {phase : Phase} : phase.typed.Answered ↔ phase.Ended := by
  cases phase <;> exact Iff.rfl

theorem getElem?_typed {s : Server} {i : ℕ} {h : Handler} (hi : s.handlers[i]? = some h) :
    s.typed.handlers[i]? = some h.typed := by
  unfold Server.typed
  rw [List.getElem?_map, hi]
  rfl

theorem modeSplit_typed (cache : NullifierCache) (proof : ShieldedProofWireFormat) :
    Facilitator.modeSplit cfg cache proof (getInputNullifiers proof) =
      ((modeSplit cfg cache (getInputNullifiers proof)).1,
        (modeSplit cfg cache (getInputNullifiers proof)).2.typed) := by
  unfold modeSplit Facilitator.modeSplit
  cases cfg.mode with
  | mock =>
      dsimp only
      split_ifs <;> rfl
  | onChain =>
      dsimp only
      split_ifs <;> rfl

/-- **A body of the wire types** is settled as in `SettleRoute`. -/
theorem settle_bodyOf (cache : NullifierCache) (parsed : ParsedRequest) (scheme : Option String) :
    let u := settle num cfg cache (bodyOf parsed (nullifiersToValue parsed.proof))
    let r := Facilitator.settle cfg cache (some ⟨some ⟨scheme, some parsed.proof,
      some parsed.extData⟩, some parsed.requirements⟩)
    r.1 = u.1 ∧ r.2.phase = u.2.phase.typed := by
  have hparse : Facilitator.parseSettle (some ⟨some ⟨scheme, some parsed.proof,
      some parsed.extData⟩, some parsed.requirements⟩) = .ok parsed := rfl
  dsimp only
  unfold settle Facilitator.settle
  rw [hparse, parseSettle_bodyOf]
  dsimp only
  rw [checkRequest_toValue]
  cases Facilitator.checkRequest cfg.sdk parsed with
  | none => exact ⟨rfl, rfl⟩
  | some verdict =>
      cases verdict with
      | error reason => exact ⟨rfl, rfl⟩
      | ok u =>
          dsimp only
          rw [prop_inputNullifiers, iterate_nullifiersToValue]
          unfold claimNullifiers Facilitator.claimNullifiers
          obtain ⟨outcome, hloop, hclaimed, hconflict⟩ := @claimLoop_strings cfg.sdk.toLowerCase
            (getInputNullifiers parsed.proof) cache []
          dsimp only
          rw [hloop]
          obtain ⟨cache', hall, -⟩ | hall := @NullifierCache.claimAll_spec cfg.sdk.toLowerCase
            cache (getInputNullifiers parsed.proof)
          · rw [hall] at hclaimed ⊢
            cases hclaimed _ rfl
            dsimp only
            rw [modeSplit_typed]
            exact ⟨rfl, rfl⟩
          · rw [hall] at hconflict ⊢
            obtain ⟨order, rfl⟩ := hconflict rfl
            exact ⟨rfl, rfl⟩

theorem noLeak_of_exclusive {s : Server} (hs : s.typed.Exclusive cfg) : s.NoLeak cfg := by
  intro key hin
  obtain ⟨i, h, hi, hp, hkey⟩ := hs.owned hin
  unfold Server.typed at hi
  rw [List.getElem?_map] at hi
  obtain ⟨h', hi', rfl⟩ := Option.map_eq_some_iff.mp hi
  exact ⟨i, h', hi', fun hended => hp.not_answered (Phase.typed_answered.mpr hended), hkey⟩

/-! ### What a request can do -/

/-- The request passes its checks with these nullifiers. -/
def Claims (num : Numerals) (cfg : Config) (body : JsValue) (items : List Value) : Prop :=
  ∃ parsed, parseSettle num body = .ok parsed ∧
    checkRequest num cfg.sdk parsed = some (.ok ()) ∧
    JsValue.iterate (prop parsed.proof "inputNullifiers") = some items

/-- A request waits with new claims, or has ended and given its claims back; or it is interrupted. -/
inductive SettleCase (num : Numerals) (cfg : Config) (cache : NullifierCache) (body : JsValue) :
    NullifierCache → Handler → Prop
  | ended {h : Handler} : h.phase.typed.Failed → (∀ key ∈ h.keys cfg, cache key = none) →
      SettleCase num cfg cache body cache h
  | waits {h : Handler} {cache' : NullifierCache} : h.phase.typed.Pending →
      NullifierCache.Claimed cfg.sdk.toLowerCase cache h.claimedOrder cache' →
      SettleCase num cfg cache body cache' h
  | interrupted {h : Handler} {items : List Value} {cache' : NullifierCache} :
      Claims num cfg body items → Interrupted cfg.sdk.toLowerCase cache items →
      SettleCase num cfg cache body cache' h

theorem modeSplit_case {parsed : ParsedSettleRequest} {ns : List String}
    (hclaimed : NullifierCache.Claimed cfg.sdk.toLowerCase cache ns cache') :
    SettleCase num cfg cache body (modeSplit cfg cache' ns).1
      ⟨some parsed, ns, (modeSplit cfg cache' ns).2⟩ := by
  have hcaught : SettleCase num cfg cache body (caught cfg cache' ns).1
      ⟨some parsed, ns, (caught cfg cache' ns).2⟩ := by
    unfold caught fail
    dsimp only
    rw [hclaimed.releaseAll]
    exact .ended trivial hclaimed.absent
  unfold modeSplit
  split
  · split
    · exact hcaught
    · split
      · exact hcaught
      · exact .waits trivial hclaimed
  · split
    · exact hcaught
    · exact .waits trivial hclaimed

theorem Claimed.eq_of_nil (h : NullifierCache.Claimed toLowerCase cache₀ [] cache) :
    cache = cache₀ := by
  funext key
  rw [h.entry key]
  exact if_neg List.not_mem_nil

/-- **What a request can do** up to its first await. -/
theorem settle_cases (num : Numerals) (cfg : Config) (cache : NullifierCache) (body : JsValue) :
    SettleCase num cfg cache body (settle num cfg cache body).1 (settle num cfg cache body).2 := by
  have hnone : ∀ key ∈ NullifierCache.keys cfg.sdk.toLowerCase [], cache key = none :=
    fun _ hkey => absurd hkey List.not_mem_nil
  unfold settle
  split
  · exact .ended trivial hnone
  · rename_i parsed hparse
    split
    · exact .ended trivial hnone
    · exact .ended trivial hnone
    · rename_i hcheck
      split
      · exact .ended trivial hnone
      · rename_i items hitems
        have hloop := claimLoop_cases items
          (@NullifierCache.Claimed.nil cfg.sdk.toLowerCase cache) List.nodup_nil
        unfold claimNullifiers
        generalize claimLoop cfg.sdk.toLowerCase cache [] items = r at hloop ⊢
        cases hloop with
        | claimed hclaimed => exact modeSplit_case hclaimed
        | conflict habsent => exact .ended trivial habsent
        | @thrown ns x rest cache' hsplit hx hclaimed hnodup =>
            rw [List.nil_append] at hclaimed hnodup ⊢
            by_cases hns : ns = []
            · subst hns
              dsimp only
              rw [Claimed.eq_of_nil hclaimed]
              exact .ended trivial hnone
            · exact .interrupted ⟨parsed, hparse, hcheck, hitems⟩
                ⟨ns, x, rest, hsplit, hns, hx, hclaimed.absent, hnodup⟩

/-- **What a handler can do** between two awaits. -/
theorem resume_cases {h : Handler} {a : Answer} {phase' : Phase}
    (hresume : resume num cfg cache h a = some (cache', phase')) :
    ResumeCase cfg cache h.typed cache' phase'.typed := by
  have hpending : ∀ {phase : Phase}, h.phase = phase → phase.typed.Pending →
      h.typed.phase.Pending := by
    intro phase hphase hp
    have htyped : h.typed.phase = phase.typed := congrArg Phase.typed hphase
    rwa [htyped]
  cases a with
  | verified outcome =>
      simp only [resume] at hresume
      split at hresume
      · rename_i hphase hrequest
        have hp := hpending hphase trivial
        split at hresume
        · cases hresume
          exact .fails hp trivial
        · cases hresume
          exact .fails hp trivial
        · cases hresume
          exact .commits _ hp
      · cases hresume
  | snapshot outcome =>
      simp only [resume] at hresume
      split at hresume
      · rename_i hphase hrequest
        have hp := hpending hphase trivial
        unfold afterSnapshot at hresume
        split at hresume
        · cases hresume
          exact .fails hp trivial
        · split at hresume
          · cases hresume
            exact .fails hp trivial
          · cases hresume
            exact .fails hp trivial
          · cases hresume
            exact .waits hp trivial
      · cases hresume
  | submitted outcome =>
      simp only [resume] at hresume
      split at hresume
      · rename_i hphase
        have hp := hpending hphase trivial
        split at hresume
        · cases hresume
          exact .fails hp trivial
        · cases hresume
          exact .commits _ hp
      · cases hresume
  | appended =>
      simp only [resume] at hresume
      split at hresume
      · rename_i transaction hphase
        cases hresume
        have htyped : h.typed.phase = .appending transaction := congrArg Phase.typed hphase
        exact .answers transaction htyped
      · cases hresume

/-- **What one event can do.** -/
theorem Server.step_cases {s s' : Server} {e : Event} (hstep : s.Step num cfg e s') :
    (∃ body h, e = .request body ∧ s'.handlers = s.handlers ++ [h] ∧
      (s'.cache, h) = settle num cfg s.cache body ∧
      SettleCase num cfg s.cache body s'.cache h) ∨
    (∃ i a h phase', e = .answer i a ∧ s.handlers[i]? = some h ∧
      s'.handlers = s.handlers.set i { h with phase := phase' } ∧
      ResumeCase cfg s.cache h.typed s'.cache phase'.typed) := by
  cases e with
  | request body =>
      cases hstep
      exact .inl ⟨body, _, rfl, rfl, rfl, settle_cases num cfg s.cache body⟩
  | answer i a =>
      unfold Server.Step Server.next at hstep
      obtain ⟨h, hlookup, hrest⟩ := Option.bind_eq_some_iff.mp hstep
      obtain ⟨⟨cache', phase'⟩, hresume, rfl⟩ := Option.map_eq_some_iff.mp hrest
      exact .inr ⟨i, a, h, phase', rfl, hlookup, rfl, resume_cases hresume⟩

/-! ### Runs -/

/-- The event is no request that is interrupted. -/
def Event.Sound (num : Numerals) (cfg : Config) (s : Server) : Event → Prop
  | .request body => ∀ items, Claims num cfg body items →
      ¬ Interrupted cfg.sdk.toLowerCase s.cache items
  | .answer _ _ => True

/-- One event that is no request that is interrupted. -/
def Server.SoundStep (num : Numerals) (cfg : Config) (s : Server) (e : Event) (s' : Server) : Prop :=
  s.Step num cfg e s' ∧ e.Sound num cfg s

theorem typed_set (s : Server) (i : ℕ) (h : Handler) (cache' : NullifierCache) :
    (Server.mk cache' (s.handlers.set i h)).typed =
      ⟨cache', s.typed.handlers.set i h.typed⟩ := by
  unfold Server.typed
  rw [List.map_set]

theorem typed_append (s : Server) (h : Handler) (cache' : NullifierCache) :
    (Server.mk cache' (s.handlers ++ [h])).typed = ⟨cache', s.typed.handlers ++ [h.typed]⟩ := by
  unfold Server.typed
  rw [List.map_append, List.map_singleton]

variable {s s' : Server} {e : Event} {events : List Event} {entries : List (String × String)}

/-- **Every sound event keeps ownership.** -/
theorem exclusive_step (hs : s.typed.Exclusive cfg) (hstep : s.SoundStep num cfg e s') :
    s'.typed.Exclusive cfg := by
  obtain ⟨hstep, hsound⟩ := hstep
  obtain ⟨cache', handlers'⟩ := s'
  obtain ⟨body, h, rfl, hhandlers, -, hcase⟩ | ⟨i, a, h, phase', -, hi, hhandlers, hcase⟩ :=
    Server.step_cases hstep
  · dsimp only at hhandlers hcase
    subst hhandlers
    rw [typed_append]
    cases hcase with
    | ended hfailed _ => exact hs.arrives_failed hfailed
    | waits hp hclaimed => exact hs.arrives_waiting hp hclaimed
    | interrupted hclaims hinterrupted => exact absurd hinterrupted (hsound _ hclaims)
  · dsimp only at hhandlers hcase
    subst hhandlers
    rw [typed_set]
    exact hs.resumed (getElem?_typed hi) hcase

theorem exclusive_of_run
    (hrun : Run (Server.SoundStep num cfg) (Server.boot cfg entries) events s) :
    s.typed.Exclusive cfg := by
  refine hrun.invariant (I := fun s => s.typed.Exclusive cfg) ?_ (exclusive_boot cfg entries)
  intro s e s' hs hstep
  exact exclusive_step hs hstep

/-- A request that is interrupted leaves its claims in flight. -/
theorem settle_of_interrupted {items : List Value} (hclaims : Claims num cfg body items)
    (hinterrupted : Interrupted cfg.sdk.toLowerCase cache items) :
    ∃ parsed n ns cache', settle num cfg cache body = (cache', ⟨some parsed, n :: ns, .thrown⟩) ∧
      NullifierCache.Claimed cfg.sdk.toLowerCase cache (n :: ns) cache' := by
  obtain ⟨parsed, hparse, hcheck, hitems⟩ := hclaims
  obtain ⟨ns, x, rest, rfl, hne, hx, habsent, hnodup⟩ := hinterrupted
  obtain ⟨cache', hclaimed, hloop⟩ := claimLoop_of_fresh (x :: rest)
    (NullifierCache.Claimed.nil cache) habsent hnodup
  rw [List.nil_append, claimLoop_of_not_string hx] at hloop
  rw [List.nil_append] at hclaimed
  obtain ⟨n, ns, rfl⟩ := List.exists_cons_of_ne_nil hne
  refine ⟨parsed, n, ns, cache', ?_, hclaimed⟩
  simp only [settle, hparse, hcheck, hitems, claimNullifiers, hloop]

/-- **An interrupted request leaks a claim**: nobody who has not ended holds it. -/
theorem leaks_of_interrupted (hs : s.typed.Exclusive cfg) (hstep : s.Step num cfg e s')
    (hunsound : ¬ e.Sound num cfg s) : ¬ s'.NoLeak cfg := by
  cases e with
  | answer i a => exact absurd trivial hunsound
  | request body =>
      obtain ⟨items, hitems⟩ := not_forall.mp hunsound
      obtain ⟨hclaims, hinterrupted⟩ := Classical.not_imp.mp hitems
      obtain ⟨parsed, n, ns, cache', hsettle, hclaimed⟩ :=
        settle_of_interrupted hclaims (not_not.mp hinterrupted)
      have hnext : s.next num cfg (.request body) =
          some ⟨cache', s.handlers ++ [⟨some parsed, n :: ns, .thrown⟩]⟩ := by
        simp only [Server.next, hsettle]
      cases Option.some.inj (hnext.symm.trans hstep)
      intro hnoleak
      have hmem : NullifierCache.normalize cfg.sdk.toLowerCase n ∈
          NullifierCache.keys cfg.sdk.toLowerCase (n :: ns) := List.mem_cons_self
      obtain ⟨i, h, hi, hunended, hkey⟩ := hnoleak _ (hclaimed.inFlight_iff.mpr (.inl hmem))
      obtain hi | ⟨-, rfl⟩ := getElem?_snoc.mp hi
      · have hnotFailed : ¬ h.typed.phase.Failed := fun hf =>
          hunended (Phase.typed_answered.mp hf.answered)
        have hsome := hs.isSome (getElem?_typed hi) hnotFailed hkey
        change (s.cache _).isSome = true at hsome
        rw [hclaimed.absent _ hmem] at hsome
        cases hsome
      · exact hunended trivial

/-- The handlers that end in a step leave none of their claims in flight. -/
def Restores (cfg : Config) (s s' : Server) : Prop :=
  ∀ (i : ℕ) (h : Handler), s'.handlers[i]? = some h → h.phase.Ended →
    (∀ h₀, s.handlers[i]? = some h₀ → ¬ h₀.phase.Ended) →
    ∀ key ∈ h.keys cfg, s'.cache key = none ∨ s'.cache.Committed key

/-- **What ends in a sound step** has its claims committed or given back. -/
theorem restores_step (hs : s.typed.Exclusive cfg) (hstep : s.SoundStep num cfg e s') :
    Restores cfg s s' := by
  obtain ⟨hstep, hsound⟩ := hstep
  obtain ⟨cache', handlers'⟩ := s'
  intro j k hk hended hnew key hkey
  obtain ⟨body, h, rfl, hhandlers, -, hcase⟩ | ⟨i, a, h, phase', -, hi, hhandlers, hcase⟩ :=
    Server.step_cases hstep
  all_goals
    dsimp only at hhandlers hcase hk ⊢
    subst hhandlers
  · obtain hk | ⟨-, rfl⟩ := getElem?_snoc.mp hk
    · exact absurd hended (hnew k hk)
    · cases hcase with
      | ended _ habsent => exact .inl (habsent key hkey)
      | waits hp _ => exact absurd (Phase.typed_answered.mpr hended) hp.not_answered
      | interrupted hclaims hinterrupted => exact absurd hinterrupted (hsound _ hclaims)
  · obtain ⟨rfl, rfl⟩ | ⟨-, hk⟩ := (getElem?_set_some hi).mp hk
    · have htyped := getElem?_typed hi
      have hanswered : phase'.typed.Answered := Phase.typed_answered.mpr hended
      generalize phase'.typed = q at hcase hanswered
      cases hcase with
      | waits _ hp' => exact absurd hanswered hp'.not_answered
      | fails hp _ =>
          obtain ⟨tx, hin⟩ := hs.pending htyped hp hkey
          have hentry : s.cache key = some ⟨.inFlight, tx⟩ := hin
          refine .inl ?_
          rw [NullifierCache.releaseAll_apply]
          exact if_pos ⟨hkey, by rw [hentry]; rfl⟩
      | commits transaction hp => exact hanswered.elim
      | answers transaction hphase =>
          exact .inr (hs.settled htyped (by rw [hphase]; trivial) hkey)
    · exact absurd hended (hnew k hk)

/-- **No claim is left behind** in a run of sound events, and what ends in one gives back its claims
or has them committed; an event leaves a claim behind exactly if it is not sound. -/
theorem rolls_back_iff
    (hrun : Run (Server.SoundStep num cfg) (Server.boot cfg entries) events s) :
    s.NoLeak cfg ∧
    (∀ e s', s.SoundStep num cfg e s' → Restores cfg s s') ∧
    ∀ e s', s.Step num cfg e s' → (s'.NoLeak cfg ↔ e.Sound num cfg s) := by
  have hs := exclusive_of_run hrun
  refine ⟨noLeak_of_exclusive hs, fun e s' hstep => restores_step hs hstep, fun e s' hstep => ?_⟩
  constructor
  · intro hnoleak
    by_contra hunsound
    exact leaks_of_interrupted hs hstep hunsound hnoleak
  · intro hsound
    exact noLeak_of_exclusive (exclusive_step hs ⟨hstep, hsound⟩)

/-! ### Sample requests -/

/-- A request to pay 5, with any nullifiers. -/
def sampleRequest (items : List Value) : JsValue :=
  bodyOf ⟨sampleProof [], extDataWire (sampleExtData (-5)), sampleRequirements⟩
    (some (.array items))

theorem claims_sample (mode : Mode) (items : List Value) :
    Claims sampleNumerals (sampleConfig mode) (sampleRequest items) items := by
  refine ⟨_, parseSettle_bodyOf _ _, ?_, ?_⟩
  · rw [checkRequest_toValue]
    exact checkRequest_sample mode []
  · rw [prop_inputNullifiers]
    rfl

theorem settle_of_claims {items : List Value} (h : Claims num cfg body items) :
    ∃ parsed, settle num cfg cache body = claimNullifiers cfg cache parsed items := by
  obtain ⟨parsed, hparse, hcheck, hitems⟩ := h
  exact ⟨parsed, by simp only [settle, hparse, hcheck, hitems]⟩

theorem claims_unique {items items' : List Value} (h : Claims num cfg body items)
    (h' : Claims num cfg body items') : items = items' := by
  obtain ⟨parsed, hparse, -, hitems⟩ := h
  obtain ⟨parsed', hparse', -, hitems'⟩ := h'
  cases Except.ok.inj (hparse.symm.trans hparse')
  exact Option.some.inj (hitems.symm.trans hitems')

theorem not_interrupted_strings (ns : List String) :
    ¬ Interrupted toLowerCase cache (ns.map Value.string) := by
  rintro ⟨ms, x, rest, hsplit, -, hx, -⟩
  have hmem : x ∈ ns.map Value.string := by
    rw [hsplit]
    exact List.mem_append_right _ List.mem_cons_self
  obtain ⟨n, -, rfl⟩ := List.mem_map.mp hmem
  exact hx n rfl

theorem step_of_settle {s : Server} {h : Handler}
    (hsettle : settle num cfg s.cache body = (cache, h)) :
    s.Step num cfg (.request body) ⟨cache, s.handlers ++ [h]⟩ := by
  simp only [Server.Step, Server.next, hsettle]

/-- Two strings are claimed without an interruption. -/
theorem rolls_back_iff_sample : ∃ s, Run (Server.SoundStep sampleNumerals (sampleConfig .mock))
    (Server.boot (sampleConfig .mock) []) [.request (sampleRequest [.string "5", .string "7"])] s ∧
    s.NoLeak (sampleConfig .mock) := by
  have hsound : (Event.request (sampleRequest [.string "5", .string "7"])).Sound sampleNumerals
      (sampleConfig .mock) (Server.boot (sampleConfig .mock) []) := by
    intro items hclaims
    rw [claims_unique hclaims (claims_sample .mock _)]
    exact not_interrupted_strings ["5", "7"]
  have hstep : (Server.boot (sampleConfig .mock) []).SoundStep sampleNumerals (sampleConfig .mock)
      (.request (sampleRequest [.string "5", .string "7"])) _ :=
    ⟨step_of_settle (Prod.eta _).symm, hsound⟩
  have hrun := Run.single hstep
  exact ⟨_, hrun, (rolls_back_iff hrun).1⟩

theorem claimLoop_of_inFlight {n : String} (rest : List Value)
    (h : cache.InFlight (NullifierCache.normalize toLowerCase n)) :
    claimLoop toLowerCase cache [] (.string n :: rest) = (cache, .conflict []) := by
  obtain ⟨-, hrefused⟩ | ⟨hnone, -⟩ := @NullifierCache.tryClaim_cases toLowerCase cache n
  · rw [claimLoop, hrefused]
    rfl
  · obtain ⟨tx, hin⟩ := h
    rw [hnone] at hin
    cases hin

/-- A number after a string: the request ends by an exception, the string stays in flight, and its
owner is told that it is spent. -/
theorem claim_leaks : ∃ s s' h h',
    (Server.boot (sampleConfig .mock) []).Step sampleNumerals (sampleConfig .mock)
      (.request (sampleRequest [.string "5", .number ['7']])) s ∧
    s.handlers = [h] ∧ h.phase = .thrown ∧ "5" ∈ h.keys (sampleConfig .mock) ∧
    s.cache.InFlight "5" ∧ ¬ s.NoLeak (sampleConfig .mock) ∧
    s.Step sampleNumerals (sampleConfig .mock) (.request (sampleRequest [.string "5"])) s' ∧
    s'.handlers = [h, h'] ∧ h'.phase = .answered (.failure 409 "already_spent") := by
  obtain ⟨parsed, hsettle⟩ := @settle_of_claims _ _ (fun _ => none) _ _
    (claims_sample .mock [.string "5", .number ['7']])
  obtain ⟨cache, hthrown, hin⟩ : ∃ cache, claimNullifiers (sampleConfig .mock) (fun _ => none) parsed
      [.string "5", .number ['7']] = (cache, ⟨some parsed, ["5"], .thrown⟩) ∧
      cache.InFlight "5" := ⟨_, rfl, none, rfl⟩
  have hstep := @step_of_settle _ _ _ _ (Server.boot (sampleConfig .mock) []) _
    (hsettle.trans hthrown)
  obtain ⟨parsed', hsettle'⟩ := @settle_of_claims _ _ cache _ _
    (claims_sample .mock [.string "5"])
  have hrefused : claimNullifiers (sampleConfig .mock) cache parsed' [.string "5"] =
      (cache, ⟨some parsed', [], .answered (.failure 409 "already_spent")⟩) := by
    rw [claimNullifiers, @claimLoop_of_inFlight _ _ "5" [] hin]
  have hstep' := @step_of_settle _ _ _ _
    ⟨cache, [⟨some parsed, ["5"], .thrown⟩]⟩ _ (hsettle'.trans hrefused)
  refine ⟨_, _, _, _, hstep, rfl, rfl, List.mem_singleton.mpr rfl, hin, ?_, hstep', rfl, rfl⟩
  intro hnoleak
  obtain ⟨i, h, hi, hunended, -⟩ := hnoleak "5" hin
  obtain hi | ⟨-, rfl⟩ := getElem?_snoc.mp (show ([] ++ [_])[i]? = some h from hi)
  · cases hi
  · exact hunended trivial

end Enclave.Facilitator.Untyped

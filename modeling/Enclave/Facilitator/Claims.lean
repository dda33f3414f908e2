import Enclave.Facilitator.SettleRoute

/-! # Claims on nullifiers

Every key in flight belongs to one request that waits, and a request that has not failed owns its
keys alone (`Server.Exclusive`).  So claims exclude each other (`claims_exclusive`). -/

namespace Enclave.Facilitator

open Stellar

variable {cfg : Config}

/-! ### Ownership -/

def Handler.keys (cfg : Config) (h : Handler) : List String :=
  NullifierCache.keys cfg.sdk.toLowerCase h.claimedOrder

/-- The handler has answered. -/
def Phase.Answered : Phase → Prop
  | .answered _ => True
  | _ => False

/-- An unfinished request has claimed the key. -/
def Server.Holds (cfg : Config) (s : Server) (i : ℕ) (key : String) : Prop :=
  ∃ h : Handler, s.handlers[i]? = some h ∧ ¬ h.phase.Answered ∧ key ∈ h.keys cfg

/-- The request that an event runs. -/
def Event.actor (s : Server) : Event → ℕ
  | .request _ => s.handlers.length
  | .answer i _ => i

/-- Who owns which key. -/
structure Server.Exclusive (cfg : Config) (s : Server) : Prop where
  unique : ∀ {i j : ℕ} {h h' : Handler} {key : String}, s.handlers[i]? = some h →
    s.handlers[j]? = some h' → ¬ h.phase.Failed → ¬ h'.phase.Failed → key ∈ h.keys cfg →
    key ∈ h'.keys cfg → i = j
  pending : ∀ {i : ℕ} {h : Handler} {key : String}, s.handlers[i]? = some h → h.phase.Pending →
    key ∈ h.keys cfg → s.cache.InFlight key
  settled : ∀ {i : ℕ} {h : Handler} {key : String}, s.handlers[i]? = some h → h.phase.Settled →
    key ∈ h.keys cfg → s.cache.Committed key
  owned : ∀ {key : String}, s.cache.InFlight key →
    ∃ (i : ℕ) (h : Handler), s.handlers[i]? = some h ∧ h.phase.Pending ∧ key ∈ h.keys cfg

theorem Phase.Pending.not_failed {phase : Phase} (h : phase.Pending) : ¬ phase.Failed := by
  cases phase <;> first | exact id | exact fun _ => h

theorem Phase.Settled.not_failed {phase : Phase} (h : phase.Settled) : ¬ phase.Failed := by
  cases phase with
  | answered r => cases r <;> first | exact id | exact fun _ => h
  | _ => exact id

theorem Phase.cases (phase : Phase) : phase.Pending ∨ phase.Settled ∨ phase.Failed := by
  cases phase with
  | answered r =>
      cases r with
      | success => exact .inr (.inl trivial)
      | failure => exact .inr (.inr trivial)
  | appending => exact .inr (.inl trivial)
  | _ => exact .inl trivial

theorem Phase.Settled.not_pending {phase : Phase} (h : phase.Settled) : ¬ phase.Pending := by
  cases phase <;> first | exact id | exact fun _ => h

theorem Phase.Failed.not_pending {phase : Phase} (h : phase.Failed) : ¬ phase.Pending :=
  fun hp => hp.not_failed h

theorem Phase.Pending.not_answered {phase : Phase} (h : phase.Pending) : ¬ phase.Answered := by
  cases phase <;> first | exact id | exact fun _ => h

theorem Phase.Failed.answered {phase : Phase} (h : phase.Failed) : phase.Answered := by
  cases phase <;> first | exact h | trivial

theorem Server.Exclusive.isSome {s : Server} (hs : s.Exclusive cfg) {i : ℕ} {h : Handler}
    {key : String} (hi : s.handlers[i]? = some h) (hf : ¬ h.phase.Failed)
    (hkey : key ∈ h.keys cfg) : (s.cache key).isSome = true := by
  obtain hp | hset | hfail := h.phase.cases
  · exact NullifierCache.isSome_iff.mpr (.inl (hs.pending hi hp hkey))
  · exact NullifierCache.isSome_iff.mpr (.inr (hs.settled hi hset hkey))
  · exact absurd hfail hf

/-! ### Every event keeps ownership -/

section Resume

variable {s : Server} {i : ℕ} {h : Handler} {phase' : Phase}

theorem handler_before (hi : s.handlers[i]? = some h) (hf : ¬ h.phase.Failed) {j : ℕ}
    {k : Handler} (hk : (s.handlers.set i { h with phase := phase' })[j]? = some k) :
    ∃ k₀, s.handlers[j]? = some k₀ ∧ k₀.keys cfg = k.keys cfg ∧
      (¬ k.phase.Failed → ¬ k₀.phase.Failed) := by
  obtain ⟨rfl, rfl⟩ | ⟨-, hk⟩ := (getElem?_set_some hi).mp hk
  · exact ⟨h, hi, rfl, fun _ => hf⟩
  · exact ⟨k, hk, rfl, id⟩

theorem Server.Exclusive.unique_set (hs : s.Exclusive cfg) (hi : s.handlers[i]? = some h)
    (hf : ¬ h.phase.Failed) {j j' : ℕ} {k k' : Handler} {key : String}
    (hk : (s.handlers.set i { h with phase := phase' })[j]? = some k)
    (hk' : (s.handlers.set i { h with phase := phase' })[j']? = some k')
    (hkf : ¬ k.phase.Failed) (hkf' : ¬ k'.phase.Failed) (hkey : key ∈ k.keys cfg)
    (hkey' : key ∈ k'.keys cfg) : j = j' := by
  obtain ⟨k₀, hj, hkeys, hnf⟩ := handler_before hi hf hk
  obtain ⟨k₁, hj', hkeys', hnf'⟩ := handler_before hi hf hk'
  exact hs.unique hj hj' (hnf hkf) (hnf' hkf') (hkeys ▸ hkey) (hkeys' ▸ hkey')

theorem Server.Exclusive.not_mem_keys (hs : s.Exclusive cfg) (hi : s.handlers[i]? = some h)
    (hf : ¬ h.phase.Failed) {j : ℕ} {k : Handler} {key : String} (hj : s.handlers[j]? = some k)
    (hkf : ¬ k.phase.Failed) (hne : j ≠ i) (hkey : key ∈ k.keys cfg) : key ∉ h.keys cfg :=
  fun hmem => hne (hs.unique hj hi hkf hf hkey hmem)

theorem Server.Exclusive.waits (hs : s.Exclusive cfg) (hi : s.handlers[i]? = some h)
    (hp : h.phase.Pending) (hp' : phase'.Pending) :
    Server.Exclusive cfg ⟨s.cache, s.handlers.set i { h with phase := phase' }⟩ where
  unique := hs.unique_set hi hp.not_failed
  pending := by
    intro j k key hk hkp hkey
    obtain ⟨rfl, rfl⟩ | ⟨-, hk⟩ := (getElem?_set_some hi).mp hk
    · exact hs.pending hi hp hkey
    · exact hs.pending hk hkp hkey
  settled := by
    intro j k key hk hks hkey
    obtain ⟨rfl, rfl⟩ | ⟨-, hk⟩ := (getElem?_set_some hi).mp hk
    · exact absurd hp' hks.not_pending
    · exact hs.settled hk hks hkey
  owned := by
    intro key hin
    obtain ⟨j, k, hj, hkp, hkey⟩ := hs.owned hin
    by_cases hij : j = i
    · subst hij
      cases Option.some.inj (hi.symm.trans hj)
      exact ⟨j, _, (getElem?_set_some hi).mpr (.inl ⟨rfl, rfl⟩), hp', hkey⟩
    · exact ⟨j, k, (getElem?_set_some hi).mpr (.inr ⟨hij, hj⟩), hkp, hkey⟩

theorem Server.Exclusive.fails (hs : s.Exclusive cfg) (hi : s.handlers[i]? = some h)
    (hp : h.phase.Pending) (hf' : phase'.Failed) :
    Server.Exclusive cfg ⟨NullifierCache.releaseAll cfg.sdk.toLowerCase s.cache h.claimedOrder,
      s.handlers.set i { h with phase := phase' }⟩ where
  unique := hs.unique_set hi hp.not_failed
  pending := by
    intro j k key hk hkp hkey
    obtain ⟨rfl, rfl⟩ | ⟨hij, hk⟩ := (getElem?_set_some hi).mp hk
    · exact absurd hkp hf'.not_pending
    · exact (hs.pending hk hkp hkey).releaseAll
        (hs.not_mem_keys hi hp.not_failed hk hkp.not_failed hij hkey)
  settled := by
    intro j k key hk hks hkey
    obtain ⟨rfl, rfl⟩ | ⟨-, hk⟩ := (getElem?_set_some hi).mp hk
    · exact absurd hf' hks.not_failed
    · exact (hs.settled hk hks hkey).releaseAll h.claimedOrder
  owned := by
    intro key hin
    obtain ⟨hin, hnot⟩ := NullifierCache.inFlight_of_releaseAll hin
    obtain ⟨j, k, hj, hkp, hkey⟩ := hs.owned hin
    have hij : j ≠ i := by
      intro hij
      subst hij
      cases Option.some.inj (hi.symm.trans hj)
      exact hnot hkey
    exact ⟨j, k, (getElem?_set_some hi).mpr (.inr ⟨hij, hj⟩), hkp, hkey⟩

theorem Server.Exclusive.commits (hs : s.Exclusive cfg) (hi : s.handlers[i]? = some h)
    (hp : h.phase.Pending) (transaction : String) :
    Server.Exclusive cfg
      ⟨NullifierCache.commitAll cfg.sdk.toLowerCase s.cache h.claimedOrder transaction,
        s.handlers.set i { h with phase := .appending transaction }⟩ where
  unique := hs.unique_set hi hp.not_failed
  pending := by
    intro j k key hk hkp hkey
    obtain ⟨rfl, rfl⟩ | ⟨hij, hk⟩ := (getElem?_set_some hi).mp hk
    · exact hkp.elim
    · exact (hs.pending hk hkp hkey).commitAll
        (hs.not_mem_keys hi hp.not_failed hk hkp.not_failed hij hkey) transaction
  settled := by
    intro j k key hk hks hkey
    obtain ⟨rfl, rfl⟩ | ⟨-, hk⟩ := (getElem?_set_some hi).mp hk
    · exact NullifierCache.committed_commitAll hkey transaction
    · exact (hs.settled hk hks hkey).commitAll h.claimedOrder transaction
  owned := by
    intro key hin
    obtain ⟨hin, hnot⟩ := NullifierCache.inFlight_of_commitAll hin
    obtain ⟨j, k, hj, hkp, hkey⟩ := hs.owned hin
    have hij : j ≠ i := by
      intro hij
      subst hij
      cases Option.some.inj (hi.symm.trans hj)
      exact hnot hkey
    exact ⟨j, k, (getElem?_set_some hi).mpr (.inr ⟨hij, hj⟩), hkp, hkey⟩

theorem Server.Exclusive.answers (hs : s.Exclusive cfg) (hi : s.handlers[i]? = some h)
    {transaction : String} (hphase : h.phase = .appending transaction) :
    Server.Exclusive cfg
      ⟨s.cache, s.handlers.set i { h with phase := .answered (.success transaction) }⟩ where
  unique := hs.unique_set hi (by rw [hphase]; exact id)
  pending := by
    intro j k key hk hkp hkey
    obtain ⟨rfl, rfl⟩ | ⟨-, hk⟩ := (getElem?_set_some hi).mp hk
    · exact hkp.elim
    · exact hs.pending hk hkp hkey
  settled := by
    intro j k key hk hks hkey
    obtain ⟨rfl, rfl⟩ | ⟨-, hk⟩ := (getElem?_set_some hi).mp hk
    · exact hs.settled hi (by rw [hphase]; trivial) hkey
    · exact hs.settled hk hks hkey
  owned := by
    intro key hin
    obtain ⟨j, k, hj, hkp, hkey⟩ := hs.owned hin
    have hij : j ≠ i := by
      intro hij
      subst hij
      cases Option.some.inj (hi.symm.trans hj)
      rw [hphase] at hkp
      exact hkp.elim
    exact ⟨j, k, (getElem?_set_some hi).mpr (.inr ⟨hij, hj⟩), hkp, hkey⟩

end Resume

/-! ### Requests that come in -/

section Arrival

variable {s : Server} {h : Handler}

theorem Server.Exclusive.arrives_failed (hs : s.Exclusive cfg) (hf : h.phase.Failed) :
    Server.Exclusive cfg ⟨s.cache, s.handlers ++ [h]⟩ where
  unique := by
    intro j j' k k' key hk hk' hkf hkf' hkey hkey'
    obtain hk | ⟨-, rfl⟩ := getElem?_snoc.mp hk
    · obtain hk' | ⟨-, rfl⟩ := getElem?_snoc.mp hk'
      · exact hs.unique hk hk' hkf hkf' hkey hkey'
      · exact absurd hf hkf'
    · exact absurd hf hkf
  pending := by
    intro j k key hk hkp hkey
    obtain hk | ⟨-, rfl⟩ := getElem?_snoc.mp hk
    · exact hs.pending hk hkp hkey
    · exact absurd hkp hf.not_pending
  settled := by
    intro j k key hk hks hkey
    obtain hk | ⟨-, rfl⟩ := getElem?_snoc.mp hk
    · exact hs.settled hk hks hkey
    · exact absurd hf hks.not_failed
  owned := by
    intro key hin
    obtain ⟨j, k, hj, hkp, hkey⟩ := hs.owned hin
    exact ⟨j, k, getElem?_snoc.mpr (.inl hj), hkp, hkey⟩

theorem Server.Exclusive.arrives_waiting (hs : s.Exclusive cfg) (hp : h.phase.Pending)
    {cache' : NullifierCache}
    (hclaimed : NullifierCache.Claimed cfg.sdk.toLowerCase s.cache h.claimedOrder cache') :
    Server.Exclusive cfg ⟨cache', s.handlers ++ [h]⟩ where
  unique := by
    -- A key that the cache has is none of the new request's.
    have hnew : ∀ {j : ℕ} {k : Handler} {key : String}, s.handlers[j]? = some k →
        ¬ k.phase.Failed → key ∈ k.keys cfg → key ∈ h.keys cfg → False := by
      intro j k key hk hkf hkey hmem
      have hsome := hs.isSome hk hkf hkey
      rw [hclaimed.absent key hmem] at hsome
      cases hsome
    intro j j' k k' key hk hk' hkf hkf' hkey hkey'
    obtain hk | ⟨hj, rfl⟩ := getElem?_snoc.mp hk
    · obtain hk' | ⟨-, rfl⟩ := getElem?_snoc.mp hk'
      · exact hs.unique hk hk' hkf hkf' hkey hkey'
      · exact (hnew hk hkf hkey hkey').elim
    · obtain hk' | ⟨hj', -⟩ := getElem?_snoc.mp hk'
      · exact (hnew hk' hkf' hkey' hkey).elim
      · exact hj.trans hj'.symm
  pending := by
    intro j k key hk hkp hkey
    obtain hk | ⟨-, rfl⟩ := getElem?_snoc.mp hk
    · exact hclaimed.inFlight_iff.mpr (.inr (hs.pending hk hkp hkey))
    · exact hclaimed.inFlight_iff.mpr (.inl hkey)
  settled := by
    intro j k key hk hks hkey
    obtain hk | ⟨-, rfl⟩ := getElem?_snoc.mp hk
    · exact hclaimed.committed (hs.settled hk hks hkey)
    · exact absurd hp hks.not_pending
  owned := by
    intro key hin
    obtain hmem | hin := hclaimed.inFlight_iff.mp hin
    · exact ⟨s.handlers.length, h, getElem?_snoc.mpr (.inr ⟨rfl, rfl⟩), hp, hmem⟩
    · obtain ⟨j, k, hj, hkp, hkey⟩ := hs.owned hin
      exact ⟨j, k, getElem?_snoc.mpr (.inl hj), hkp, hkey⟩

end Arrival

/-! ### Runs -/

variable {s s' : Server} {e : Event} {events : List Event} {entries : List (String × String)}

theorem exclusive_boot (cfg : Config) (entries : List (String × String)) :
    (Server.boot cfg entries).Exclusive cfg where
  unique := by
    intro i j h h' key hi
    cases hi
  pending := by
    intro i h key hi
    cases hi
  settled := by
    intro i h key hi
    cases hi
  owned := by
    intro key hin
    refine absurd hin (NullifierCache.not_inFlight_hydrate entries key ?_)
    intro hin
    obtain ⟨tx, he⟩ := hin
    cases he

theorem Server.Exclusive.resumed {i : ℕ} {h : Handler} {cache' : NullifierCache} {phase' : Phase}
    (hs : s.Exclusive cfg) (hi : s.handlers[i]? = some h)
    (hcase : ResumeCase cfg s.cache h cache' phase') :
    Server.Exclusive cfg ⟨cache', s.handlers.set i { h with phase := phase' }⟩ := by
  cases hcase with
  | waits hp hp' => exact hs.waits hi hp hp'
  | fails hp hf' => exact hs.fails hi hp hf'
  | commits transaction hp => exact hs.commits hi hp transaction
  | answers transaction hphase => exact hs.answers hi hphase

/-- **Every event keeps ownership.** -/
theorem Server.Exclusive.step (hs : s.Exclusive cfg) (hstep : s.Step cfg e s') :
    s'.Exclusive cfg := by
  obtain ⟨cache', handlers'⟩ := s'
  obtain ⟨body, h, -, hhandlers, hcase⟩ | ⟨i, a, h, phase', -, hi, hhandlers, -, hcase⟩ :=
    Server.step_cases hstep
  · dsimp only at hhandlers hcase
    subst hhandlers
    cases hcase with
    | fails hf => exact hs.arrives_failed hf
    | waits hparse hcheck hclaimed hphase =>
        apply hs.arrives_waiting _ hclaimed
        obtain ⟨rfl, -⟩ | ⟨rfl, -⟩ := hphase <;> trivial
  · dsimp only at hhandlers hcase
    subst hhandlers
    exact hs.resumed hi hcase

theorem exclusive_of_run (hrun : Run (Server.Step cfg) (Server.boot cfg entries) events s) :
    s.Exclusive cfg :=
  hrun.invariant (fun _ _ _ hs hstep => hs.step hstep) (exclusive_boot cfg entries)

theorem committed_step {key : String} (h : s.cache.Committed key) (hstep : s.Step cfg e s') :
    s'.cache.Committed key := by
  obtain ⟨cache', handlers'⟩ := s'
  obtain ⟨body, k, -, -, hcase⟩ | ⟨i, a, k, phase', -, -, -, -, hcase⟩ := Server.step_cases hstep
  all_goals dsimp only at hcase
  · cases hcase with
    | fails _ => exact h
    | waits _ _ hclaimed _ => exact hclaimed.committed h
  · cases hcase with
    | waits _ _ => exact h
    | fails _ _ => exact h.releaseAll k.claimedOrder
    | commits transaction _ => exact h.commitAll k.claimedOrder transaction
    | answers _ _ => exact h

theorem committed_run {key : String} (h : s.cache.Committed key)
    (hrun : Run (Server.Step cfg) s events s') : s'.cache.Committed key :=
  hrun.invariant (I := fun s => s.cache.Committed key)
    (fun _ _ _ hs hstep => committed_step hs hstep) h

/-! ### Where claims come from -/

def Event.nullifiers : Event → List String
  | .request body =>
      match parseSettle body with
      | .ok parsed => getInputNullifiers parsed.proof
      | .error _ => []
  | .answer _ _ => []

/-- The handler claimed the nullifiers of a request that came in. -/
def Handler.Origin (came : Event → Prop) (h : Handler) : Prop :=
  ∃ e parsed, came e ∧ h.request = some parsed ∧
    h.claimedOrder = getInputNullifiers parsed.proof ∧ e.nullifiers = h.claimedOrder

theorem origin_step {came : Event → Prop} (hstep : s.Step cfg e s') (hcame : came e)
    (hs : ∀ (i : ℕ) (h : Handler), s.handlers[i]? = some h → ¬ h.phase.Failed → h.Origin came)
    (i : ℕ) (h : Handler) (hi : s'.handlers[i]? = some h) (hnf : ¬ h.phase.Failed) :
    h.Origin came := by
  obtain ⟨cache', handlers'⟩ := s'
  obtain ⟨body, k, rfl, hhandlers, hcase⟩ | ⟨j, a, k, phase', rfl, hj, hhandlers, -, hcase⟩ :=
    Server.step_cases hstep
  all_goals
    dsimp only at hhandlers hcase hi
    subst hhandlers
  · obtain hi | ⟨-, rfl⟩ := getElem?_snoc.mp hi
    · exact hs i h hi hnf
    · cases hcase with
      | fails hf => exact absurd hf hnf
      | waits hparse hcheck hclaimed hphase =>
          refine ⟨_, _, hcame, rfl, rfl, ?_⟩
          simp only [Event.nullifiers, hparse]
  · obtain ⟨rfl, rfl⟩ | ⟨-, hi⟩ := (getElem?_set_some hj).mp hi
    · have hkf : ¬ k.phase.Failed := by
        cases hcase with
        | waits hp _ => exact hp.not_failed
        | fails hp _ => exact hp.not_failed
        | commits _ hp => exact hp.not_failed
        | answers _ hphase => rw [hphase]; exact id
      exact hs i k hj hkf
    · exact hs i h hi hnf

theorem origin_of_run {came : Event → Prop} (hrun : Run (Server.Step cfg) s events s')
    (hcame : ∀ e ∈ events, came e)
    (hs : ∀ (i : ℕ) (h : Handler), s.handlers[i]? = some h → ¬ h.phase.Failed → h.Origin came)
    (i : ℕ) (h : Handler) (hi : s'.handlers[i]? = some h) (hnf : ¬ h.phase.Failed) :
    h.Origin came := by
  induction hrun with
  | nil _ => exact hs i h hi hnf
  | cons hstep _ ih =>
      exact ih (fun e he => hcame e (List.mem_cons_of_mem _ he))
        (origin_step hstep (hcame _ List.mem_cons_self) hs) hi

/-! ### Mutual exclusion -/

/-- A claim in flight is held by a request that waits, and stays until that request goes on. -/
theorem inFlight_step (hs : s.Exclusive cfg) (hstep : s.Step cfg e s') {i : ℕ} {key : String}
    (hholds : s.Holds cfg i key) (hin : s.cache.InFlight key) (hne : e.actor s ≠ i) :
    s'.cache.InFlight key ∧ s'.Holds cfg i key := by
  obtain ⟨h, hi, hunanswered, hkey⟩ := hholds
  have hnf : ¬ h.phase.Failed := fun hf => hunanswered hf.answered
  obtain ⟨cache', handlers'⟩ := s'
  obtain ⟨body, k, rfl, hhandlers, hcase⟩ | ⟨j, a, k, phase', rfl, hj, hhandlers, -, hcase⟩ :=
    Server.step_cases hstep
  all_goals
    dsimp only at hhandlers hcase
    subst hhandlers
  · refine ⟨?_, h, getElem?_snoc.mpr (.inl hi), hunanswered, hkey⟩
    cases hcase with
    | fails _ => exact hin
    | waits _ _ hclaimed _ => exact hclaimed.inFlight_iff.mpr (.inr hin)
  · have hij : i ≠ j := fun hij => hne hij.symm
    refine ⟨?_, h, (getElem?_set_some hj).mpr (.inr ⟨hij, hi⟩), hunanswered, hkey⟩
    cases hcase with
    | waits _ _ => exact hin
    | fails hp _ =>
        exact hin.releaseAll (hs.not_mem_keys hj hp.not_failed hi hnf hij hkey)
    | commits transaction hp =>
        exact hin.commitAll (hs.not_mem_keys hj hp.not_failed hi hnf hij hkey) transaction
    | answers _ _ => exact hin

/-- **Claims exclude each other**: a key in flight is held by exactly one unfinished request, no
two requests hold one key, a committed key stays committed and is never claimed again, and what
another request does, rollbacks included, leaves a claim alone. -/
theorem claims_exclusive
    (hrun : Run (Server.Step cfg) (Server.boot cfg entries) events s) :
    (∀ key, s.cache.InFlight key → ∃! i, s.Holds cfg i key) ∧
    (∀ i j key, s.Holds cfg i key → s.Holds cfg j key → i = j) ∧
    (∀ key, s.cache.Committed key → ∀ events' s', Run (Server.Step cfg) s events' s' →
      s'.cache.Committed key ∧
      ∀ n, NullifierCache.normalize cfg.sdk.toLowerCase n = key →
        (NullifierCache.tryClaim cfg.sdk.toLowerCase s'.cache n).2 = false) ∧
    (∀ e s', s.Step cfg e s' → ∀ i key, s.Holds cfg i key → s.cache.InFlight key →
      e.actor s ≠ i → s'.cache.InFlight key ∧ s'.Holds cfg i key) := by
  have hs := exclusive_of_run hrun
  have hunique : ∀ i j key, s.Holds cfg i key → s.Holds cfg j key → i = j := by
    intro i j key hi hj
    obtain ⟨h, hi, hunanswered, hkey⟩ := hi
    obtain ⟨h', hj, hunanswered', hkey'⟩ := hj
    exact hs.unique hi hj (fun hf => hunanswered hf.answered) (fun hf => hunanswered' hf.answered)
      hkey hkey'
  refine ⟨?_, hunique, ?_, ?_⟩
  · intro key hin
    obtain ⟨i, h, hi, hp, hkey⟩ := hs.owned hin
    have hholds : s.Holds cfg i key := ⟨h, hi, hp.not_answered, hkey⟩
    exact ⟨i, hholds, fun j hj => hunique j i key hj hholds⟩
  · intro key hcommitted events' s' hrun'
    have hstays := committed_run hcommitted hrun'
    refine ⟨hstays, fun n hn => ?_⟩
    rw [NullifierCache.tryClaim_of_committed (hn ▸ hstays)]
  · intro e s' hstep i key hholds hin hne
    exact inFlight_step hs hstep hholds hin hne

/-! ### A sample run -/

theorem settle_sample : ∃ s, Run (Server.Step (sampleConfig .mock))
    (Server.boot (sampleConfig .mock) [])
      [.request (sampleBody ["5", "7"]), .request (sampleBody ["9", "7"])] s ∧
    s.cache.InFlight "7" ∧ s.cache "9" = none := by
  have h : ((Run.exec (Server.next (sampleConfig .mock)) (Server.boot (sampleConfig .mock) [])
      [.request (sampleBody ["5", "7"]), .request (sampleBody ["9", "7"])]).map fun s =>
        (s.cache "7", s.cache "9")) = some (some ⟨.inFlight, none⟩, none) := by
    simp only [Run.exec, next_sample]
    decide +kernel
  obtain ⟨s, hs, hcache⟩ := Option.map_eq_some_iff.mp h
  obtain ⟨hseven, hnine⟩ := Prod.mk.inj hcache
  exact ⟨s, Run.of_exec hs, ⟨none, hseven⟩, hnine⟩

theorem claims_exclusive_sample : ∃ s, Run (Server.Step (sampleConfig .mock))
    (Server.boot (sampleConfig .mock) [])
      [.request (sampleBody ["5", "7"]), .request (sampleBody ["9", "7"])] s ∧
    (∃! i, s.Holds (sampleConfig .mock) i "7") ∧ ∀ i, ¬ s.Holds (sampleConfig .mock) i "9" := by
  obtain ⟨s, hrun, hin, hnone⟩ := settle_sample
  refine ⟨s, hrun, (claims_exclusive hrun).1 "7" hin, ?_⟩
  rintro i ⟨h, hi, hunanswered, hkey⟩
  have hsome := (exclusive_of_run hrun).isSome hi (fun hf => hunanswered hf.answered) hkey
  rw [hnone] at hsome
  cases hsome

end Enclave.Facilitator

import Enclave.App.ProverClient

/-! # Requests that the prover client loses

`Effect` lists what an event can do to requests, entries and numbers; the invariant `Inv` says how
these belong together in any run.  In a sound state every unsettled request has its entry, or the
worker it waits for will be heard of; nothing is settled twice, and a reply settles its own request
only.  A `terminate` that finds an unsettled entry ends this for good (`Lost.step`); nothing else
does (`Entered.step`). -/

namespace Enclave.App.ProverClient

variable {δ : Type} {c c' : Client δ} {e : Event δ}

/-! ### What an event can do -/

/-- Requests, entries and numbers stay, and workers get nothing. -/
structure Quiet (c c' : Client δ) : Prop where
  messageId : c'.messageId = c.messageId
  pendingRequests : c'.pendingRequests = c.pendingRequests
  requests : c'.requests = c.requests
  received : ∀ x' ∈ c'.workers, x'.received = [] ∨ ∃ x ∈ c.workers, x.received = x'.received
  /-- Who is new or changed, and starts, has its timer. -/
  armed : ∀ x' ∈ c'.workers, x' ∈ c.workers ∨ (x'.promise = .pending → x'.timeoutArmed = true)
  grows : c.workers.length ≤ c'.workers.length
  starting : ∀ p, c'.workerReadyPromise = some p →
    p < c'.workers.length ∨ c.workerReadyPromise = some p

theorem Quiet.of_eq (hid : c'.messageId = c.messageId)
    (hpending : c'.pendingRequests = c.pendingRequests) (hrequests : c'.requests = c.requests)
    (hworkers : c'.workers = c.workers) (hready : c'.workerReadyPromise = c.workerReadyPromise) :
    Quiet c c' where
  messageId := hid
  pendingRequests := hpending
  requests := hrequests
  received _ hx' := .inr ⟨_, hworkers ▸ hx', rfl⟩
  armed _ hx' := .inl (hworkers ▸ hx')
  grows := hworkers ▸ Nat.le_refl _
  starting _ hp := .inr (hready ▸ hp)

theorem Quiet.refl (c : Client δ) : Quiet c c := .of_eq rfl rfl rfl rfl rfl

inductive Effect (c : Client δ) : Event δ → Client δ → Prop
  | opened {e : Event δ} {c₁ c' : Client δ} (request : Request δ) (a : Awaited)
      (hrequest : request = ⟨request.type, .awaiting a, false, []⟩)
      (ha : ∀ p, a = .creation p → p < c₁.workers.length ∨ c₁.workerReadyPromise = some p)
      (hquiet : Quiet c c₁) (h : Quiet { c₁ with requests := c₁.requests ++ [request] } c') :
      Effect c e c'
  | posted {i : ℕ} {r : Request δ} {a : Awaited} (w : ℕ) (clones : Bool)
      (hr : c.requests[i]? = some r) (hstage : r.stage = .awaiting a) :
      Effect c (.resume i clones) (c.post i w clones)
  | abandoned {i : ℕ} {r : Request δ} {a : Awaited} (clones : Bool) (message : String)
      (hr : c.requests[i]? = some r) (hstage : r.stage = .awaiting a) :
      Effect c (.resume i clones) (c.abandon i message)
  | replied {w id i : ℕ} (reply : Reply δ) (hpending : c.pendingRequests id = some i)
      (hreceived : ∃ x ∈ c.workers, id ∈ x.received) :
      Effect c (.reply w id reply) (c.settleEntry id i reply.outcome)
  | expired {i id : ℕ} {r : Request δ} (hr : c.requests[i]? = some r) (hstage : r.stage = .posted id)
      (htimer : r.timer = true) : Effect c (.requestTimeout i) (c.handleRequestTimeout i id r.type)
  | terminated : Effect c .terminate c.terminate
  | quiet {e : Event δ} {c' : Client δ} (h : Quiet c c') : Effect c e c'

theorem mem_modify {α : Type} {f : α → α} {xs : List α} {i : ℕ} {y : α} (h : y ∈ xs.modify i f) :
    ∃ x ∈ xs, y = x ∨ y = f x := by
  obtain ⟨j, hj⟩ := List.mem_iff_getElem?.mp h
  rw [List.getElem?_modify, Option.map_eq_map, Option.map_eq_some_iff] at hj
  obtain ⟨x, hx, hy⟩ := hj
  refine ⟨x, List.mem_of_getElem? hx, ?_⟩
  split_ifs at hy
  · exact .inr hy.symm
  · exact .inl hy.symm

theorem settle_ne_pending {outcome : WorkerPromise} (h : outcome ≠ .pending) (x : WorkerState) :
    (x.settle outcome).promise ≠ .pending := by
  unfold WorkerState.settle WorkerPromise.settle
  cases x.promise with
  | pending => exact h
  | resolved => exact WorkerPromise.noConfusion
  | rejected message => exact WorkerPromise.noConfusion

theorem quiet_settle {w : ℕ} {outcome : WorkerPromise} (houtcome : outcome ≠ .pending)
    (hid : c'.messageId = c.messageId) (hpending : c'.pendingRequests = c.pendingRequests)
    (hrequests : c'.requests = c.requests)
    (hworkers : c'.workers = c.workers.modify w (·.settle outcome))
    (hready : c'.workerReadyPromise = none) : Quiet c c' := by
  refine ⟨hid, hpending, hrequests, ?_, ?_, ?_, ?_⟩
  · rw [hworkers]
    intro x' hx'
    obtain ⟨x, hx, rfl | rfl⟩ := mem_modify hx'
    · exact .inr ⟨_, hx, rfl⟩
    · exact .inr ⟨_, hx, rfl⟩
  · rw [hworkers]
    intro x' hx'
    obtain ⟨x, hx, rfl | rfl⟩ := mem_modify hx'
    · exact .inl hx
    · exact .inr fun hstart => absurd hstart (settle_ne_pending houtcome x)
  · rw [hworkers, List.length_modify]
  · rw [hready]
    intro p hp
    cases hp

theorem quiet_ensureWorker (c : Client δ) (constructs : Bool) :
    Quiet c (c.ensureWorker constructs).1 ∧ ∀ p, (c.ensureWorker constructs).2 = .creation p →
      p < (c.ensureWorker constructs).1.workers.length ∨
        (c.ensureWorker constructs).1.workerReadyPromise = some p := by
  have hwaits : ∀ {p q : ℕ}, c.workerReadyPromise = some p → Awaited.creation p = .creation q →
      q < c.workers.length ∨ c.workerReadyPromise = some q := by
    intro p q hp hq
    rw [← Awaited.creation.inj hq]
    exact .inr hp
  unfold Client.ensureWorker
  cases c.worker with
  | some w =>
      cases hready : c.workerReadyPromise with
      | none => exact ⟨.refl c, fun p hp => by cases hp⟩
      | some p => exact ⟨.refl c, fun q hq => hwaits hready hq⟩
  | none =>
      cases hready : c.workerReadyPromise with
      | some p => exact ⟨.refl c, fun q hq => hwaits hready hq⟩
      | none =>
          have hlast : c.workers.length < (c.workers ++ [WorkerState.started constructs]).length := by
            rw [List.length_append]
            exact Nat.lt_succ_self _
          refine ⟨⟨rfl, rfl, rfl, fun x' hx' => ?_, fun x' hx' => ?_, hlast.le, ?_⟩, ?_⟩
          · obtain hx' | hx' := List.mem_append.mp hx'
            · exact .inr ⟨x', hx', rfl⟩
            · rw [List.mem_singleton.mp hx', WorkerState.started]
              cases constructs <;> exact .inl rfl
          · obtain hx' | hx' := List.mem_append.mp hx'
            · exact .inl hx'
            · rw [List.mem_singleton.mp hx', WorkerState.started]
              cases constructs with
              | true => exact .inr fun _ => rfl
              | false => exact .inr fun hstart => by cases hstart
          · intro p hp
            rw [← Option.some.inj hp]
            exact .inl hlast
          · intro p hp
            rw [← Awaited.creation.inj hp]
            exact .inl hlast

theorem effect_sendMessage (c : Client δ) (type : String) (constructs : Bool)
    (h : Quiet (c.sendMessage type constructs) c') : Effect c e c' :=
  .opened _ _ rfl (quiet_ensureWorker c constructs).2 (quiet_ensureWorker c constructs).1 h

/-- **Inversion of a step.** -/
theorem effect_of_step (h : c.Step e c') : Effect c e c' := by
  unfold Client.Step at h
  cases e with
  | sendMessage type constructs =>
      cases Option.some.inj h
      exact effect_sendMessage c type constructs (.refl _)
  | initializeProver constructs =>
      cases Option.some.inj h
      unfold Client.initializeProver
      split_ifs
      · exact .quiet (.refl c)
      · exact .quiet (.refl c)
      · exact effect_sendMessage c "INIT_PROVER" constructs (.of_eq rfl rfl rfl rfl rfl)
  | resume i clones =>
      obtain ⟨r, hr, h⟩ := Option.bind_eq_some_iff.mp h
      cases hstage : r.stage with
      | awaiting a =>
          rw [hstage] at h
          cases a with
          | ready w =>
              cases Option.some.inj h
              exact .posted w clones hr hstage
          | creation p =>
              obtain ⟨x, hx, h⟩ := Option.bind_eq_some_iff.mp h
              cases hpromise : x.promise with
              | pending =>
                  rw [hpromise] at h
                  cases h
              | resolved =>
                  rw [hpromise] at h
                  cases Option.some.inj h
                  exact .posted p clones hr hstage
              | rejected message =>
                  rw [hpromise] at h
                  cases Option.some.inj h
                  exact .abandoned clones message hr hstage
      | posted id =>
          rw [hstage] at h
          cases h
      | abandoned =>
          rw [hstage] at h
          cases h
  | resumeInit =>
      obtain ⟨i, hi, h⟩ := Option.bind_eq_some_iff.mp h
      obtain ⟨r, hr, h⟩ := Option.bind_eq_some_iff.mp h
      obtain ⟨outcome, houtcome, h⟩ := Option.bind_eq_some_iff.mp h
      cases Option.some.inj h
      cases outcome <;> exact .quiet (.of_eq rfl rfl rfl rfl rfl)
  | ready w =>
      obtain ⟨-, h⟩ := Option.ite_none_right_eq_some.mp h
      cases Option.some.inj h
      exact .quiet (quiet_settle WorkerPromise.noConfusion rfl rfl rfl rfl rfl)
  | progress w =>
      obtain ⟨-, h⟩ := Option.ite_none_right_eq_some.mp h
      cases Option.some.inj h
      exact .quiet (.refl c)
  | reply w id reply =>
      obtain ⟨⟨-, x, hx, hid⟩, h⟩ := Option.ite_none_right_eq_some.mp h
      cases Option.some.inj h
      unfold Client.handleReply
      cases hpending : c.pendingRequests id with
      | none => exact .quiet (.refl c)
      | some i => exact .replied reply hpending ⟨x, List.mem_of_getElem? hx, hid⟩
  | workerError w error =>
      obtain ⟨-, h⟩ := Option.ite_none_right_eq_some.mp h
      cases Option.some.inj h
      exact .quiet (quiet_settle WorkerPromise.noConfusion rfl rfl rfl rfl rfl)
  | workerTimeout w =>
      obtain ⟨-, h⟩ := Option.ite_none_right_eq_some.mp h
      cases Option.some.inj h
      exact .quiet (quiet_settle WorkerPromise.noConfusion rfl rfl rfl rfl rfl)
  | requestTimeout i =>
      obtain ⟨r, hr, h⟩ := Option.bind_eq_some_iff.mp h
      cases hstage : r.stage with
      | awaiting a =>
          rw [hstage] at h
          cases h
      | posted id =>
          rw [hstage] at h
          obtain ⟨htimer, h⟩ := Option.ite_none_right_eq_some.mp h
          cases Option.some.inj h
          exact .expired hr hstage htimer
      | abandoned =>
          rw [hstage] at h
          cases h
  | terminate =>
      cases Option.some.inj h
      exact .terminated

/-! ### The invariant -/

/-- A request: nothing has happened to it, it has a number in use, or it is over. -/
def Request.Ok (n : ℕ) (r : Request δ) : Prop :=
  match r.stage with
  | .awaiting _ => r.settled = [] ∧ r.timer = false
  | .posted id => id ≤ n ∧ r.settled.length ≤ 1
  | .abandoned => r.settled.length ≤ 1 ∧ r.timer = false

/-- How requests, entries and numbers belong together. -/
structure Inv (c : Client δ) : Prop where
  ok : ∀ (i : ℕ) (r : Request δ), c.requests[i]? = some r → r.Ok c.messageId
  distinct : ∀ (i j : ℕ) (r r' : Request δ) (id : ℕ), c.requests[i]? = some r →
    c.requests[j]? = some r' → r.stage = .posted id → r'.stage = .posted id → i = j
  /-- An entry of a settled promise is one that was never posted. -/
  entry : ∀ id i : ℕ, c.pendingRequests id = some i → ∃ r, c.requests[i]? = some r ∧
    r.stage = .posted id ∧ (r.settled = [] ∨ r.timer = false ∧ ∀ x ∈ c.workers, id ∉ x.received)
  received : ∀ x ∈ c.workers, ∀ id ∈ x.received, id ≤ c.messageId
  /-- A start that is not settled has its timer. -/
  armed : ∀ x ∈ c.workers, x.promise = .pending → x.timeoutArmed = true
  starting : ∀ p, c.workerReadyPromise = some p → p < c.workers.length
  awaited : ∀ (i : ℕ) (r : Request δ) (p : ℕ), c.requests[i]? = some r →
    r.stage = .awaiting (.creation p) → p < c.workers.length

theorem inv_new : Inv (Client.new : Client δ) := by
  constructor <;> simp [Client.new]

theorem Request.Ok.mono {n m : ℕ} {r : Request δ} (h : r.Ok n) (hle : n ≤ m) : r.Ok m := by
  unfold Request.Ok at h ⊢
  cases hstage : r.stage with
  | awaiting a => simpa only [hstage] using h
  | posted id =>
      simp only [hstage] at h ⊢
      exact ⟨h.1.trans hle, h.2⟩
  | abandoned => simpa only [hstage] using h

theorem Request.Ok.id_le {n id : ℕ} {r : Request δ} (h : r.Ok n) (hstage : r.stage = .posted id) :
    id ≤ n := by
  simp only [Request.Ok, hstage] at h
  exact h.1

theorem Request.Ok.once {n : ℕ} {r : Request δ} (h : r.Ok n) : r.settled.length ≤ 1 := by
  unfold Request.Ok at h
  cases hstage : r.stage with
  | awaiting a =>
      simp only [hstage] at h
      rw [h.1]
      exact Nat.zero_le 1
  | posted id =>
      simp only [hstage] at h
      exact h.2
  | abandoned =>
      simp only [hstage] at h
      exact h.1

theorem Request.Ok.awaiting {n : ℕ} {r : Request δ} {a : Awaited} (h : r.Ok n)
    (hstage : r.stage = .awaiting a) : r.settled = [] ∧ r.timer = false := by
  simpa only [Request.Ok, hstage] using h

theorem getElem?_modify_eq_some {α : Type} {f : α → α} {xs : List α} {i j : ℕ} {y : α} :
    (xs.modify i f)[j]? = some y ↔
      i = j ∧ (∃ x, xs[j]? = some x ∧ f x = y) ∨ i ≠ j ∧ xs[j]? = some y := by
  rw [List.getElem?_modify, Option.map_eq_map, Option.map_eq_some_iff]
  by_cases hij : i = j
  · simp [hij]
  · simp [hij]

theorem Inv.quiet (h : Inv c) (hquiet : Quiet c c') : Inv c' := by
  have hreceived : ∀ x' ∈ c'.workers, ∀ id ∈ x'.received, ∃ x ∈ c.workers, id ∈ x.received := by
    intro x' hx' id hid
    obtain hnone | ⟨x, hx, hsame⟩ := hquiet.received x' hx'
    · rw [hnone] at hid
      cases hid
    · exact ⟨x, hx, hsame ▸ hid⟩
  refine ⟨?_, ?_, ?_, ?_, fun x' hx' hstart => ?_, fun p hp => ?_, ?_⟩
  · rw [hquiet.requests, hquiet.messageId]
    exact h.ok
  · rw [hquiet.requests]
    exact h.distinct
  · rw [hquiet.requests, hquiet.pendingRequests]
    intro id i hpending
    obtain ⟨r, hr, hstage, hsettled⟩ := h.entry id i hpending
    refine ⟨r, hr, hstage, hsettled.imp_right fun hunposted => ⟨hunposted.1, fun x' hx' hid => ?_⟩⟩
    obtain ⟨x, hx, hid⟩ := hreceived x' hx' id hid
    exact hunposted.2 x hx hid
  · rw [hquiet.messageId]
    intro x' hx' id hid
    obtain ⟨x, hx, hid⟩ := hreceived x' hx' id hid
    exact h.received x hx id hid
  · obtain hx | harmed := hquiet.armed x' hx'
    · exact h.armed x' hx hstart
    · exact harmed hstart
  · obtain hlt | hp := hquiet.starting p hp
    · exact hlt
    · exact (h.starting p hp).trans_le hquiet.grows
  · rw [hquiet.requests]
    exact fun i r p hr hp => (h.awaited i r p hr hp).trans_le hquiet.grows

theorem getElem?_concat_eq_some {α : Type} {xs : List α} {x y : α} {i : ℕ} :
    (xs ++ [x])[i]? = some y ↔ xs[i]? = some y ∨ i = xs.length ∧ x = y := by
  rcases lt_trichotomy i xs.length with hlt | rfl | hgt
  · rw [List.getElem?_append_left hlt]
    simp [hlt.ne]
  · simp
  · rw [List.getElem?_eq_none (by simp; omega), List.getElem?_eq_none (by omega)]
    simp [hgt.ne']

theorem Inv.open (h : Inv c) (request : Request δ) (a : Awaited)
    (hrequest : request = ⟨request.type, .awaiting a, false, []⟩)
    (ha : ∀ p, a = .creation p → p < c.workers.length ∨ c.workerReadyPromise = some p) :
    Inv { c with requests := c.requests ++ [request] } := by
  have hstage : ∀ id, request.stage ≠ .posted id := by
    intro id
    rw [hrequest]
    exact Stage.noConfusion
  refine ⟨?_, ?_, ?_, h.received, h.armed, h.starting, ?_⟩
  · intro i r hr
    obtain hr | ⟨-, rfl⟩ := getElem?_concat_eq_some.mp hr
    · exact h.ok i r hr
    · rw [hrequest]
      exact ⟨rfl, rfl⟩
  · intro i j r r' id hr hr' hid hid'
    obtain hr | ⟨-, rfl⟩ := getElem?_concat_eq_some.mp hr
    · obtain hr' | ⟨-, rfl⟩ := getElem?_concat_eq_some.mp hr'
      · exact h.distinct i j r r' id hr hr' hid hid'
      · exact absurd hid' (hstage id)
    · exact absurd hid (hstage id)
  · intro id i hpending
    obtain ⟨r, hr, hrest⟩ := h.entry id i hpending
    exact ⟨r, getElem?_concat_eq_some.mpr (.inl hr), hrest⟩
  · intro i r p hr hp
    obtain hr | ⟨-, rfl⟩ := getElem?_concat_eq_some.mp hr
    · exact h.awaited i r p hr hp
    · rw [hrequest] at hp
      exact (ha p (Stage.awaiting.inj hp)).elim id (h.starting p)

variable {i id : ℕ} {r : Request δ}

theorem Inv.modify (h : Inv c) {f : Request δ → Request δ} {pending : ℕ → Option ℕ}
    (hstage : ∀ r, (f r).stage = r.stage)
    (hok : ∀ r, c.requests[i]? = some r → (f r).Ok c.messageId)
    (hentry : ∀ id j, pending id = some j → c.pendingRequests id = some j)
    (hkeep : ∀ id r, pending id = some i → c.requests[i]? = some r →
      (f r).settled = r.settled ∧ (r.timer = false → (f r).timer = false)) :
    Inv { c with pendingRequests := pending, requests := c.requests.modify i f } := by
  have hsame : ∀ (j : ℕ) (r : Request δ), (c.requests.modify i f)[j]? = some r →
      ∃ x, c.requests[j]? = some x ∧ x.stage = r.stage := by
    intro j r hr
    obtain ⟨rfl, x, hx, rfl⟩ | ⟨-, hr⟩ := getElem?_modify_eq_some.mp hr
    · exact ⟨x, hx, (hstage x).symm⟩
    · exact ⟨r, hr, rfl⟩
  refine ⟨?_, ?_, ?_, h.received, h.armed, h.starting, ?_⟩
  · intro j r hr
    obtain ⟨rfl, x, hx, rfl⟩ | ⟨-, hr⟩ := getElem?_modify_eq_some.mp hr
    · exact hok x hx
    · exact h.ok j r hr
  · intro j k r r' id hr hr' hid hid'
    obtain ⟨x, hx, hxr⟩ := hsame j r hr
    obtain ⟨x', hx', hxr'⟩ := hsame k r' hr'
    exact h.distinct j k x x' id hx hx' (hxr.trans hid) (hxr'.trans hid')
  · intro id j hpending
    obtain ⟨r, hr, hid, hrest⟩ := h.entry id j (hentry id j hpending)
    by_cases hij : i = j
    · subst hij
      obtain ⟨hsettled, htimer⟩ := hkeep id r hpending hr
      refine ⟨f r, getElem?_modify_eq_some.mpr (.inl ⟨rfl, r, hr, rfl⟩), (hstage r).trans hid, ?_⟩
      rw [hsettled]
      exact hrest.imp_right (And.imp_left htimer)
    · exact ⟨r, getElem?_modify_eq_some.mpr (.inr ⟨hij, hr⟩), hid, hrest⟩
  · intro j r p hr hp
    obtain ⟨x, hx, hxr⟩ := hsame j r hr
    exact h.awaited j x p hx (hxr.trans hp)

theorem Inv.timerOff (h : Inv c) (hr : c.requests[i]? = some r) (hstage : r.stage = .posted id) :
    Inv { c with requests := c.requests.modify i fun r => { r with timer := false } } := by
  refine h.modify (f := fun r => { r with timer := false }) (fun _ => rfl) ?_ ?_ ?_
  · intro x hx
    obtain rfl := Option.some.inj (hr.symm.trans hx)
    have hok := h.ok i r hr
    simpa only [Request.Ok, hstage] using hok
  · exact fun _ _ hpending => hpending
  · exact fun _ _ _ _ => ⟨rfl, fun _ => rfl⟩

theorem Inv.settleEntry (h : Inv c) (hpending : c.pendingRequests id = some i)
    (hr : c.requests[i]? = some r) (hsettled : r.settled = []) (outcome : Outcome δ) :
    Inv (c.settleEntry id i outcome) := by
  obtain ⟨x, hx, hstage, -⟩ := h.entry id i hpending
  obtain rfl := Option.some.inj (hr.symm.trans hx)
  refine h.modify (f := fun r => r.settle outcome) (fun _ => rfl) ?_ ?_ ?_
  · intro x hx
    obtain rfl := Option.some.inj (hr.symm.trans hx)
    have hok := h.ok i r hr
    simp only [Request.Ok, Request.settle, hstage, hsettled] at hok ⊢
    exact ⟨hok.1, Nat.le_refl 1⟩
  · intro id' j hentry
    rw [Function.update_apply] at hentry
    split_ifs at hentry
    exact hentry
  · -- the number of `i` is `id`, whose entry is gone
    intro id' x hentry hx
    rw [Function.update_apply] at hentry
    split_ifs at hentry with hne
    obtain ⟨y, hy, hstage', -⟩ := h.entry id' i hentry
    obtain rfl := Option.some.inj (hr.symm.trans hy)
    rw [hstage] at hstage'
    injection hstage' with hid
    exact absurd hid.symm hne

theorem Inv.abandon (h : Inv c) {a : Awaited} (hr : c.requests[i]? = some r)
    (hstage : r.stage = .awaiting a) (message : String) : Inv (c.abandon i message) := by
  obtain ⟨hsettled, htimer⟩ := (h.ok i r hr).awaiting hstage
  have hposted : ∀ (j : ℕ) (x : Request δ) (id : ℕ),
      (c.abandon i message).requests[j]? = some x → x.stage = .posted id →
        c.requests[j]? = some x := by
    intro j x id hx hid
    obtain ⟨rfl, y, hy, rfl⟩ | ⟨-, hx⟩ := getElem?_modify_eq_some.mp hx
    · cases hid
    · exact hx
  refine ⟨?_, ?_, ?_, h.received, h.armed, h.starting, fun j x p hx hp => ?_⟩
  · intro j x hx
    obtain ⟨rfl, y, hy, rfl⟩ | ⟨-, hx⟩ := getElem?_modify_eq_some.mp hx
    · obtain rfl := Option.some.inj (hr.symm.trans hy)
      simp only [Request.Ok, Request.settle, hsettled, htimer]
      exact ⟨Nat.le_refl 1, trivial⟩
    · exact h.ok j x hx
  · intro j k x x' id hx hx' hid hid'
    exact h.distinct j k x x' id (hposted j x id hx hid) (hposted k x' id hx' hid') hid hid'
  · intro id j hpending
    obtain ⟨x, hx, hid, hrest⟩ := h.entry id j hpending
    refine ⟨x, getElem?_modify_eq_some.mpr (.inr ⟨?_, hx⟩), hid, hrest⟩
    rintro rfl
    obtain rfl := Option.some.inj (hr.symm.trans hx)
    rw [hstage] at hid
    cases hid
  · obtain ⟨rfl, y, hy, rfl⟩ | ⟨-, hx⟩ := getElem?_modify_eq_some.mp hx
    · cases hp
    · exact h.awaited j x p hx hp

theorem requests_post (c : Client δ) (i w : ℕ) (clones : Bool) :
    (c.post i w clones).requests = c.requests.modify i fun r =>
      { r with
        stage := .posted (c.messageId + 1)
        timer := if clones then true else r.timer
        settled := if clones then r.settled else r.settled ++ [.rejected "DataCloneError"] } := by
  cases clones <;> rfl

theorem pendingRequests_post (c : Client δ) (i w : ℕ) (clones : Bool) :
    (c.post i w clones).pendingRequests =
      Function.update c.pendingRequests (c.messageId + 1) (some i) := by
  cases clones <;> rfl

theorem messageId_post (c : Client δ) (i w : ℕ) (clones : Bool) :
    (c.post i w clones).messageId = c.messageId + 1 := by
  cases clones <;> rfl

theorem length_workers_post (c : Client δ) (i w : ℕ) (clones : Bool) :
    (c.post i w clones).workers.length = c.workers.length := by
  cases clones with
  | true => exact List.length_modify _ _ _
  | false => rfl

/-- A worker gets at most the new number, and nothing if `postMessage` throws. -/
theorem mem_received_post {w : ℕ} {clones : Bool} {x' : WorkerState}
    (hx' : x' ∈ (c.post i w clones).workers) (hid : id ∈ x'.received) :
    (∃ x ∈ c.workers, id ∈ x.received) ∨ id = c.messageId + 1 ∧ clones = true := by
  cases clones with
  | false => exact .inl ⟨x', hx', hid⟩
  | true =>
      obtain ⟨x, hx, rfl | rfl⟩ := mem_modify hx'
      · exact .inl ⟨_, hx, hid⟩
      · obtain hid | hid := List.mem_append.mp hid
        · exact .inl ⟨x, hx, hid⟩
        · exact .inr ⟨List.mem_singleton.mp hid, rfl⟩

theorem Inv.post (h : Inv c) {a : Awaited} (hr : c.requests[i]? = some r)
    (hstage : r.stage = .awaiting a) (w : ℕ) (clones : Bool) : Inv (c.post i w clones) := by
  obtain ⟨hsettled, htimer⟩ := (h.ok i r hr).awaiting hstage
  -- the number is new
  have hfresh : ∀ (j : ℕ) (x : Request δ), c.requests[j]? = some x →
      x.stage ≠ .posted (c.messageId + 1) := by
    intro j x hx hid
    have := (h.ok j x hx).id_le hid
    omega
  refine ⟨?_, ?_, ?_, ?_, fun x' hx' hstart => ?_, ?_, ?_⟩
  · rw [requests_post, messageId_post]
    intro j x hx
    obtain ⟨rfl, y, hy, rfl⟩ | ⟨-, hx⟩ := getElem?_modify_eq_some.mp hx
    · obtain rfl := Option.some.inj (hr.symm.trans hy)
      simp only [Request.Ok, hsettled]
      cases clones <;> simp
    · exact (h.ok j x hx).mono (Nat.le_succ _)
  · rw [requests_post]
    intro j k x x' id hx hx' hid hid'
    obtain ⟨rfl, y, hy, rfl⟩ | ⟨-, hx⟩ := getElem?_modify_eq_some.mp hx
    · obtain ⟨rfl, -⟩ | ⟨-, hx'⟩ := getElem?_modify_eq_some.mp hx'
      · rfl
      · rw [← hid] at hid'
        exact absurd hid' (hfresh k x' hx')
    · obtain ⟨rfl, y', hy', rfl⟩ | ⟨-, hx'⟩ := getElem?_modify_eq_some.mp hx'
      · rw [← hid'] at hid
        exact absurd hid (hfresh j x hx)
      · exact h.distinct j k x x' id hx hx' hid hid'
  · rw [requests_post, pendingRequests_post]
    intro id j hpending
    rw [Function.update_apply] at hpending
    split_ifs at hpending with hid
    · obtain rfl := Option.some.inj hpending
      refine ⟨_, getElem?_modify_eq_some.mpr (.inl ⟨rfl, r, hr, rfl⟩), by rw [hid], ?_⟩
      cases clones with
      | true => exact .inl hsettled
      | false =>
          refine .inr ⟨htimer, fun x hx hmem => ?_⟩
          have := h.received x hx id hmem
          omega
    · obtain ⟨x, hx, hid', hrest⟩ := h.entry id j hpending
      refine ⟨x, getElem?_modify_eq_some.mpr (.inr ⟨?_, hx⟩), hid', ?_⟩
      · rintro rfl
        obtain rfl := Option.some.inj (hr.symm.trans hx)
        rw [hstage] at hid'
        cases hid'
      · refine hrest.imp_right fun hunposted => ⟨hunposted.1, fun x' hx' hmem => ?_⟩
        obtain ⟨y, hy, hmem⟩ | ⟨hnew, -⟩ := mem_received_post hx' hmem
        · exact hunposted.2 y hy hmem
        · exact hid hnew
  · rw [messageId_post]
    intro x' hx' id hmem
    obtain ⟨y, hy, hmem⟩ | ⟨rfl, -⟩ := mem_received_post hx' hmem
    · exact (h.received y hy id hmem).trans (Nat.le_succ _)
    · exact Nat.le_refl _
  · cases clones with
    | false => exact h.armed x' hx' hstart
    | true =>
        obtain ⟨x, hx, rfl | rfl⟩ := mem_modify hx'
        · exact h.armed _ hx hstart
        · exact h.armed x hx hstart
  · rw [length_workers_post]
    cases clones <;> exact h.starting
  · rw [requests_post, length_workers_post]
    intro j x p hx hp
    obtain ⟨rfl, y, hy, rfl⟩ | ⟨-, hx⟩ := getElem?_modify_eq_some.mp hx
    · cases hp
    · exact h.awaited j x p hx hp

theorem Inv.terminate (h : Inv c) : Inv c.terminate := by
  unfold Client.terminate
  cases c.worker with
  | none => exact h
  | some w =>
      refine ⟨h.ok, h.distinct, fun id j hpending => ?_, fun x' hx' id hmem => ?_,
        fun x' hx' hstart => ?_, ?_, ?_⟩
      · cases hpending
      · obtain ⟨x, hx, rfl | rfl⟩ := mem_modify hx'
        · exact h.received _ hx id hmem
        · exact h.received x hx id hmem
      · obtain ⟨x, hx, rfl | rfl⟩ := mem_modify hx'
        · exact h.armed _ hx hstart
        · exact h.armed x hx hstart
      · exact (List.length_modify _ _ _).symm ▸ h.starting
      · exact (List.length_modify _ _ _).symm ▸ h.awaited

theorem Inv.own (h : Inv c) {j : ℕ} (hr : c.requests[i]? = some r) (hstage : r.stage = .posted id)
    (hpending : c.pendingRequests id = some j) : j = i := by
  obtain ⟨x, hx, hid, -⟩ := h.entry id j hpending
  exact h.distinct j i x r id hx hr hid hstage

theorem Inv.unsettled_of_timer (h : Inv c) (hr : c.requests[i]? = some r)
    (hpending : c.pendingRequests id = some i) (htimer : r.timer = true) : r.settled = [] := by
  obtain ⟨x, hx, -, hrest⟩ := h.entry id i hpending
  obtain rfl := Option.some.inj (hr.symm.trans hx)
  refine hrest.resolve_right fun hunposted => ?_
  rw [hunposted.1] at htimer
  cases htimer

theorem Inv.unsettled_of_received (h : Inv c) (hr : c.requests[i]? = some r)
    (hpending : c.pendingRequests id = some i) (hreceived : ∃ x ∈ c.workers, id ∈ x.received) :
    r.settled = [] := by
  obtain ⟨x, hx, -, hrest⟩ := h.entry id i hpending
  obtain rfl := Option.some.inj (hr.symm.trans hx)
  obtain ⟨y, hy, hmem⟩ := hreceived
  exact hrest.resolve_right fun hunposted => hunposted.2 y hy hmem

/-- **Step lemma.** -/
theorem Inv.step (h : Inv c) (hstep : c.Step e c') : Inv c' := by
  cases effect_of_step hstep with
  | opened request a hrequest ha hquiet hquiet' =>
      exact ((h.quiet hquiet).open request a hrequest ha).quiet hquiet'
  | posted w clones hr hstage => exact h.post hr hstage w clones
  | abandoned clones message hr hstage => exact h.abandon hr hstage message
  | replied reply hpending hreceived =>
      obtain ⟨r, hr, -⟩ := h.entry _ _ hpending
      exact h.settleEntry hpending hr (h.unsettled_of_received hr hpending hreceived) _
  | expired hr hstage htimer =>
      have hoff := h.timerOff hr hstage
      unfold Client.handleRequestTimeout
      dsimp only
      split_ifs with hsome
      · obtain ⟨j, hpending⟩ := Option.isSome_iff_exists.mp hsome
        obtain rfl := h.own hr hstage hpending
        have hsettled := h.unsettled_of_timer hr hpending htimer
        have hr' := (getElem?_modify_eq_some (f := fun r : Request δ =>
          { r with timer := false })).mpr (.inl ⟨rfl, _, hr, rfl⟩)
        exact hoff.settleEntry hpending hr' hsettled _
      · exact hoff
  | terminated => exact h.terminate
  | quiet hquiet => exact h.quiet hquiet

/-! ### Entries -/

theorem pendingRequests_settleEntry (c : Client δ) (id i : ℕ) (outcome : Outcome δ) :
    (c.settleEntry id i outcome).pendingRequests = Function.update c.pendingRequests id none := rfl

/-- Every request with a number that is not settled has its own entry, and its timer. -/
def Entered (c : Client δ) : Prop :=
  ∀ (i : ℕ) (r : Request δ) (id : ℕ), c.requests[i]? = some r → r.stage = .posted id →
    r.settled = [] → c.pendingRequests id = some i ∧ r.timer = true

/-- The request has a number and no entry, and is not settled. -/
def Lost (i : ℕ) (c : Client δ) : Prop :=
  ∃ r id, c.requests[i]? = some r ∧ r.stage = .posted id ∧ r.settled = [] ∧
    c.pendingRequests id = none

/-- `terminate` is not called while a worker is there and an unsettled request is entered. -/
def Safe (c : Client δ) (e : Event δ) : Prop :=
  e = .terminate → c.worker ≠ none → ∀ (id i : ℕ) (r : Request δ),
    c.pendingRequests id = some i → c.requests[i]? = some r → r.settled ≠ []

theorem Entered.not_lost (h : Entered c) (i : ℕ) : ¬ Lost i c := by
  rintro ⟨r, id, hr, hstage, hsettled, hnone⟩
  rw [(h i r id hr hstage hsettled).1] at hnone
  cases hnone

theorem Entered.quiet (h : Entered c) (hquiet : Quiet c c') : Entered c' := by
  unfold Entered
  rw [hquiet.requests, hquiet.pendingRequests]
  exact h

theorem Lost.quiet (h : Lost i c) (hquiet : Quiet c c') : Lost i c' := by
  unfold Lost
  rw [hquiet.requests, hquiet.pendingRequests]
  exact h

/-- **Step lemma**: entries stay as long as `terminate` drops none. -/
theorem Entered.step (h : Entered c) (hinv : Inv c) (hsafe : Safe c e) (hstep : c.Step e c') :
    Entered c' := by
  cases effect_of_step hstep with
  | opened request a hrequest ha hquiet hquiet' =>
      refine Entered.quiet (fun j r id hr hstage hsettled => ?_) hquiet'
      obtain hr | ⟨-, rfl⟩ := getElem?_concat_eq_some.mp hr
      · exact h.quiet hquiet j r id hr hstage hsettled
      · rw [hrequest] at hstage
        cases hstage
  | posted w clones hr hstage =>
      unfold Entered
      rw [requests_post, pendingRequests_post]
      intro j x id hx hid hsettled
      obtain ⟨rfl, y, hy, rfl⟩ | ⟨-, hx⟩ := getElem?_modify_eq_some.mp hx
      · cases clones with
        | true =>
            rw [← Stage.posted.inj hid, Function.update_self]
            exact ⟨rfl, rfl⟩
        | false => simp at hsettled
      · have hle := (hinv.ok j x hx).id_le hid
        rw [Function.update_of_ne (by omega)]
        exact h j x id hx hid hsettled
  | abandoned clones message hr hstage =>
      intro j x id hx hid hsettled
      obtain ⟨rfl, y, hy, rfl⟩ | ⟨-, hx⟩ := getElem?_modify_eq_some.mp hx
      · cases hid
      · exact h j x id hx hid hsettled
  | replied reply hpending hreceived =>
      intro j x id hx hid hsettled
      obtain ⟨rfl, y, hy, rfl⟩ | ⟨hne, hx⟩ := getElem?_modify_eq_some.mp hx
      · simp [Request.settle] at hsettled
      · obtain ⟨hentry, htimer⟩ := h j x id hx hid hsettled
        refine ⟨?_, htimer⟩
        rw [pendingRequests_settleEntry, Function.update_of_ne, hentry]
        rintro rfl
        exact hne (Option.some.inj (hpending.symm.trans hentry))
  | expired hr hstage htimer =>
      unfold Client.handleRequestTimeout
      dsimp only
      split_ifs with hsome
      · intro j x id hx hid hsettled
        obtain ⟨rfl, y, hy, rfl⟩ | ⟨hne, hx⟩ := getElem?_modify_eq_some.mp hx
        · simp [Request.settle] at hsettled
        · obtain ⟨rfl, -⟩ | ⟨-, hx⟩ := getElem?_modify_eq_some.mp hx
          · exact absurd rfl hne
          · obtain ⟨hentry, htimer⟩ := h j x id hx hid hsettled
            refine ⟨?_, htimer⟩
            rw [pendingRequests_settleEntry, Function.update_of_ne, hentry]
            rintro rfl
            exact hne (hinv.own hr hstage hentry).symm
      · intro j x id hx hid hsettled
        obtain ⟨rfl, y, hy, rfl⟩ | ⟨-, hx⟩ := getElem?_modify_eq_some.mp hx
        · -- without an entry the request was settled before
          obtain rfl := Option.some.inj (hr.symm.trans hy)
          rw [(h _ _ _ hr hstage hsettled).1] at hsome
          exact absurd rfl hsome
        · exact h j x id hx hid hsettled
  | terminated =>
      unfold Client.terminate
      cases hworker : c.worker with
      | none => exact h
      | some w =>
          intro j x id hx hid hsettled
          have hne : c.worker ≠ none := by
            rw [hworker]
            exact Option.some_ne_none w
          exact absurd hsettled (hsafe rfl hne id j x (h j x id hx hid hsettled).1 hx)
  | quiet hquiet => exact h.quiet hquiet

/-- **A lost request stays lost.** -/
theorem Lost.step (h : Lost i c) (hinv : Inv c) (hstep : c.Step e c') : Lost i c' := by
  cases effect_of_step hstep with
  | opened request a hrequest ha hquiet hquiet' =>
      obtain ⟨r, id, hr, hrest⟩ := h.quiet hquiet
      refine Lost.quiet ?_ hquiet'
      exact ⟨r, id, getElem?_concat_eq_some.mpr (.inl hr), hrest⟩
  | @posted j x a w clones hx hawaiting =>
      obtain ⟨r, id, hr, hstage, hsettled, hnone⟩ := h
      have hle := (hinv.ok i r hr).id_le hstage
      unfold Lost
      rw [requests_post, pendingRequests_post]
      refine ⟨r, id, getElem?_modify_eq_some.mpr (.inr ⟨?_, hr⟩), hstage, hsettled, ?_⟩
      · rintro rfl
        obtain rfl := Option.some.inj (hr.symm.trans hx)
        rw [hstage] at hawaiting
        cases hawaiting
      · rw [Function.update_of_ne (by omega), hnone]
  | @abandoned j x a clones message hx hawaiting =>
      obtain ⟨r, id, hr, hstage, hrest⟩ := h
      refine ⟨r, id, getElem?_modify_eq_some.mpr (.inr ⟨?_, hr⟩), hstage, hrest⟩
      rintro rfl
      obtain rfl := Option.some.inj (hr.symm.trans hx)
      rw [hstage] at hawaiting
      cases hawaiting
  | @replied w id' j reply hpending hreceived =>
      obtain ⟨r, id, hr, hstage, hsettled, hnone⟩ := h
      have hid : id ≠ id' := by
        rintro rfl
        rw [hnone] at hpending
        cases hpending
      refine ⟨r, id, getElem?_modify_eq_some.mpr (.inr ⟨?_, hr⟩), hstage, hsettled, ?_⟩
      · rintro rfl
        obtain ⟨x, hx, hstage', -⟩ := hinv.entry id' _ hpending
        obtain rfl := Option.some.inj (hr.symm.trans hx)
        exact hid (Stage.posted.inj (hstage.symm.trans hstage'))
      · rw [pendingRequests_settleEntry, Function.update_of_ne hid, hnone]
  | @expired j id' x hx hstage' htimer =>
      obtain ⟨r, id, hr, hstage, hsettled, hnone⟩ := h
      unfold Client.handleRequestTimeout
      dsimp only
      split_ifs with hsome
      · have hid : id ≠ id' := by
          rintro rfl
          rw [hnone] at hsome
          cases hsome
        have hij : j ≠ i := by
          rintro rfl
          obtain rfl := Option.some.inj (hr.symm.trans hx)
          exact hid (Stage.posted.inj (hstage.symm.trans hstage'))
        refine ⟨r, id, getElem?_modify_eq_some.mpr (.inr ⟨hij, ?_⟩), hstage, hsettled, ?_⟩
        · exact getElem?_modify_eq_some.mpr (.inr ⟨hij, hr⟩)
        · rw [pendingRequests_settleEntry, Function.update_of_ne hid, hnone]
      · by_cases hij : j = i
        · subst hij
          exact ⟨_, id, getElem?_modify_eq_some.mpr (.inl ⟨rfl, r, hr, rfl⟩), hstage, hsettled, hnone⟩
        · exact ⟨r, id, getElem?_modify_eq_some.mpr (.inr ⟨hij, hr⟩), hstage, hsettled, hnone⟩
  | terminated =>
      obtain ⟨r, id, hr, hstage, hsettled, hnone⟩ := h
      unfold Client.terminate
      cases c.worker with
      | none => exact ⟨r, id, hr, hstage, hsettled, hnone⟩
      | some w => exact ⟨r, id, hr, hstage, hsettled, rfl⟩
  | quiet hquiet => exact h.quiet hquiet

/-- `terminate` loses the requests that are entered. -/
theorem exists_lost_of_not_safe (hinv : Inv c) (hstep : c.Step e c') (hsafe : ¬ Safe c e) :
    ∃ i, Lost i c' := by
  unfold Safe at hsafe
  push Not at hsafe
  obtain ⟨rfl, hworker, id, i, r, hpending, hr, hsettled⟩ := hsafe
  obtain ⟨x, hx, hstage, -⟩ := hinv.entry id i hpending
  obtain rfl := Option.some.inj (hr.symm.trans hx)
  obtain ⟨w, hw⟩ := Option.ne_none_iff_exists'.mp hworker
  obtain rfl : c.terminate = c' := Option.some.inj hstep
  refine ⟨i, r, id, ?_⟩
  unfold Client.terminate
  rw [hw]
  exact ⟨hr, hstage, hsettled, rfl⟩

/-! ### Runs -/

variable {es : List (Event δ)}

theorem Inv.run (h : Inv c) (hrun : Run Client.Step c es c') : Inv c' :=
  hrun.invariant (fun _ _ _ h hstep => h.step hstep) h

/-- **Run lemma**: a request lost on the way is lost at the end. -/
theorem Lost.run (h : Lost i c) (hinv : Inv c) (hrun : Run Client.Step c es c') : Lost i c' := by
  have hboth : Inv c' ∧ Lost i c' := hrun.invariant (I := fun c => Inv c ∧ Lost i c)
    (fun _ _ _ h hstep => ⟨h.1.step hstep, h.2.step h.1 hstep⟩) ⟨hinv, h⟩
  exact hboth.2

/-- Steps at which `terminate` finds no unsettled entry. -/
def SafeStep (c : Client δ) (e : Event δ) (c' : Client δ) : Prop := c.Step e c' ∧ Safe c e

/-- **Run lemma**: without such a `terminate` every request keeps its entry. -/
theorem Entered.run (h : Entered c) (hinv : Inv c) (hrun : Run SafeStep c es c') : Entered c' := by
  have hboth : Inv c' ∧ Entered c' := hrun.invariant (I := fun c => Inv c ∧ Entered c)
    (fun _ _ _ h hstep => ⟨h.1.step hstep.1, h.2.step h.1 hstep.2 hstep.1⟩) ⟨hinv, h⟩
  exact hboth.2

theorem run_safe_of_entered (hinv : Inv c) (hrun : Run Client.Step c es c') (h : Entered c') :
    Run SafeStep c es c' := by
  induction hrun with
  | nil c => exact .nil c
  | cons hstep hrun ih =>
      have hinv' := hinv.step hstep
      refine .cons ⟨hstep, ?_⟩ (ih hinv' h)
      by_contra hsafe
      obtain ⟨i, hlost⟩ := exists_lost_of_not_safe hinv hstep hsafe
      exact h.not_lost i (hlost.run hinv' hrun)

/-- Nothing is lost: who waits for a worker will hear of it, an unsettled request has its own entry
and timer, nothing is settled twice, and a reply settles the request that it answers. -/
structure Sound (c : Client δ) : Prop where
  waiting : ∀ (i : ℕ) (r : Request δ) (p : ℕ), c.requests[i]? = some r →
    r.stage = .awaiting (.creation p) →
      ∃ x, c.workers[p]? = some x ∧ (x.promise = .pending → x.timeoutArmed = true)
  entered : Entered c
  once : ∀ r ∈ c.requests, r.settled.length ≤ 1
  replies : ∀ (w id : ℕ) (reply : Reply δ) (c' : Client δ), c.Step (.reply w id reply) c' →
    ∀ (i : ℕ) (r : Request δ), c.requests[i]? = some r → r.stage ≠ .posted id →
      c'.requests[i]? = some r

theorem Inv.sound (h : Inv c) (hentered : Entered c) : Sound c := by
  refine ⟨fun i r p hr hp => ?_, hentered, fun r hr => ?_, fun w id reply c' hstep i r hr hne => ?_⟩
  · have hlt := h.awaited i r p hr hp
    exact ⟨_, List.getElem?_eq_getElem hlt, h.armed _ (List.getElem_mem hlt)⟩
  · obtain ⟨i, hi⟩ := List.mem_iff_getElem?.mp hr
    exact (h.ok i r hi).once
  · cases effect_of_step hstep with
    | opened request a hrequest ha hquiet hquiet' =>
        rw [hquiet'.requests]
        apply getElem?_concat_eq_some.mpr
        rw [hquiet.requests]
        exact .inl hr
    | replied reply hpending hreceived =>
        refine getElem?_modify_eq_some.mpr (.inr ⟨?_, hr⟩)
        rintro rfl
        obtain ⟨x, hx, hstage, -⟩ := h.entry id _ hpending
        obtain rfl := Option.some.inj (hr.symm.trans hx)
        exact hne hstage
    | quiet hquiet => rw [hquiet.requests, hr]

theorem entered_new : Entered (Client.new : Client δ) := by
  intro i r id hr
  simp [Client.new] at hr

/-- **No request is lost exactly in the runs** where `terminate` finds no unsettled entry. -/
theorem sound_iff (hrun : Run Client.Step Client.new es c) :
    Sound c ↔ Run SafeStep Client.new es c := by
  constructor
  · exact fun h => run_safe_of_entered inv_new hrun h.entered
  · exact fun h => (inv_new.run hrun).sound (entered_new.run inv_new h)

/-! ### Initialisation -/

theorem initPromise_of_step (hstep : c.Step e c') (hinit : c.initPromise = some i)
    (hlost : Lost i c) : c'.initPromise = some i := by
  obtain ⟨r, id, hr, -, hsettled, -⟩ := hlost
  have hsend : ∀ (type : String) (constructs : Bool),
      (c.sendMessage type constructs).initPromise = c.initPromise := by
    intro type constructs
    unfold Client.sendMessage Client.ensureWorker
    cases c.worker <;> cases c.workerReadyPromise <;> rfl
  have hpost : ∀ (j w : ℕ) (clones : Bool), (c.post j w clones).initPromise = c.initPromise := by
    intro j w clones
    cases clones <;> rfl
  unfold Client.Step at hstep
  cases e with
  | sendMessage type constructs => rw [← Option.some.inj hstep, hsend, hinit]
  | initializeProver constructs =>
      have hsome : c.initPromise.isSome = true := by
        rw [hinit]
        rfl
      rw [← Option.some.inj hstep, Client.initializeProver, if_pos hsome]
      split_ifs <;> exact hinit
  | resume j clones =>
      obtain ⟨x, hx, hstep⟩ := Option.bind_eq_some_iff.mp hstep
      split at hstep
      · rw [← Option.some.inj hstep, hpost, hinit]
      · obtain ⟨y, hy, hstep⟩ := Option.bind_eq_some_iff.mp hstep
        split at hstep
        · cases hstep
        · rw [← Option.some.inj hstep, hpost, hinit]
        · rw [← Option.some.inj hstep, Client.abandon, hinit]
      · cases hstep
  | resumeInit =>
      -- the promise it awaits is not settled
      obtain ⟨j, hj, hstep⟩ := Option.bind_eq_some_iff.mp hstep
      obtain ⟨x, hx, hstep⟩ := Option.bind_eq_some_iff.mp hstep
      obtain ⟨outcome, houtcome, -⟩ := Option.bind_eq_some_iff.mp hstep
      obtain rfl := Option.some.inj (hinit.symm.trans hj)
      obtain rfl := Option.some.inj (hr.symm.trans hx)
      rw [hsettled] at houtcome
      cases houtcome
  | ready w =>
      obtain ⟨-, hstep⟩ := Option.ite_none_right_eq_some.mp hstep
      rw [← Option.some.inj hstep, Client.handleReady, hinit]
  | progress w =>
      obtain ⟨-, hstep⟩ := Option.ite_none_right_eq_some.mp hstep
      rw [← Option.some.inj hstep, hinit]
  | reply w id reply =>
      obtain ⟨-, hstep⟩ := Option.ite_none_right_eq_some.mp hstep
      rw [← Option.some.inj hstep, Client.handleReply]
      cases c.pendingRequests id <;> exact hinit
  | workerError w error =>
      obtain ⟨-, hstep⟩ := Option.ite_none_right_eq_some.mp hstep
      rw [← Option.some.inj hstep, Client.handleError, hinit]
  | workerTimeout w =>
      obtain ⟨-, hstep⟩ := Option.ite_none_right_eq_some.mp hstep
      rw [← Option.some.inj hstep, Client.handleWorkerTimeout, hinit]
  | requestTimeout j =>
      obtain ⟨x, hx, hstep⟩ := Option.bind_eq_some_iff.mp hstep
      split at hstep
      · obtain ⟨-, hstep⟩ := Option.ite_none_right_eq_some.mp hstep
        rw [← Option.some.inj hstep, Client.handleRequestTimeout]
        dsimp only
        split_ifs <;> exact hinit
      · cases hstep
  | terminate =>
      rw [← Option.some.inj hstep, Client.terminate]
      cases c.worker <;> exact hinit

/-- **An initialisation whose request is lost never ends**, and no other can start. -/
theorem init_stuck (hinv : Inv c) (hinit : c.initPromise = some i) (hlost : Lost i c)
    (hrun : Run Client.Step c es c') : c'.initPromise = some i := by
  have hall : Inv c' ∧ Lost i c' ∧ c'.initPromise = some i :=
    hrun.invariant (I := fun c => Inv c ∧ Lost i c ∧ c.initPromise = some i)
      (fun _ _ _ h hstep => ⟨h.1.step hstep, h.2.1.step h.1 hstep,
        initPromise_of_step hstep h.2.2 h.2.1⟩) ⟨hinv, hlost, hinit⟩
  exact hall.2.2

/-! ### A sample -/

/-- A request is posted, and the client terminated. -/
def sampleEvents : List (Event Unit) :=
  [.sendMessage "PING" true, .ready 0, .resume 0 true, .terminate]

theorem sound_iff_sample : ∃ c : Client Unit, Run Client.Step Client.new sampleEvents c ∧
    (Sound c ↔ Run SafeStep Client.new sampleEvents c) := by
  have hrun : Run Client.Step Client.new sampleEvents _ :=
    .cons rfl (.cons rfl (.cons rfl (.cons rfl (.nil _))))
  exact ⟨_, hrun, sound_iff hrun⟩

/-- The posted request has no entry any more, and is not settled. -/
theorem terminate_loses_request : ∃ c : Client Unit, Run Client.Step Client.new sampleEvents c ∧
    (∃ r, c.requests[0]? = some r ∧ r.stage = .posted 1 ∧ r.settled = []) ∧
      c.pendingRequests 1 = none ∧ ¬ Sound c := by
  refine ⟨_, .cons rfl (.cons rfl (.cons rfl (.cons rfl (.nil _)))), ⟨_, rfl, rfl, rfl⟩, rfl,
    fun hsound => ?_⟩
  exact hsound.entered.not_lost 0 ⟨_, 1, rfl, rfl, rfl, rfl⟩

end Enclave.App.ProverClient

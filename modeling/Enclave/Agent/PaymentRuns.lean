import Enclave.Agent.Payments
import Enclave.Agent.Retry

/-! # The payments of a system

`interceptingFetch` stands here twice: as the calls of a `System`, with gates and a facilitator, and
as the payments of a `Session`, with the inputs for the prover.  For an agent without fixtures every
run of the system is a run of a session: its calls select the notes of the payments, the same
nullifiers count as spent, and what is posted is the same (`session_of_run`). -/

namespace Enclave.Agent

open Facilitator Gate Stellar

/-! ### What is posted -/

/-- The note with which a call waits for the prover. -/
def Call.proves (call : Call) : Option EnclaveNote :=
  match call.phase with
  | .proving _ note _ => some note
  | _ => none

/-- A turn sends a request to `/settle`. -/
def Turn.settles (t : Turn) : Bool :=
  match t.sends with
  | some (.server (.request _)) => true
  | _ => false

/-- The note for which an agent posts a proof in a turn. -/
def System.postedNote (sdk : Sdk) (a : ℕ) (s : System) : SystemEvent → Option EnclaveNote
  | .call c e => do
      let call ← s.calls[c]?
      let agent ← s.agents[call.agent]?
      let t ← call.next sdk s.site agent e
      if call.agent = a ∧ t.settles then call.proves else none
  | _ => none

/-- The notes for which an agent posts proofs in a run. -/
def System.postedNotes (num : Numerals) (cfg : Config) (a : ℕ) :
    System → List SystemEvent → List EnclaveNote
  | _, [] => []
  | s, e :: events => (s.postedNote cfg.sdk a e).toList ++
      (s.next num cfg e).elim [] fun s' => s'.postedNotes num cfg a events

def Session.postedNotes (s : Session) : List EnclaveNote :=
  s.posted.map fun p => p.note.toEnclaveNote

/-! ### What a turn pays -/

/-- What a turn does to the payments of its agent. -/
inductive PaymentTurn (sdk : Sdk) (call : Call) (agent : Interceptor) (t : Turn) : Prop
  /-- It pays nothing, or with a fixture. -/
  | idle : t.call.agent = call.agent → call.proves = none → t.call.proves = none →
      t.agent = agent →
      (t.settles = true → agent.captureMode = false ∧ agent.fixtures call.url ≠ none) →
      PaymentTurn sdk call agent t
  | selects (payAmount : ℤ) (extDataHash : String) (note : EnclaveNote) :
      t.call.agent = call.agent → call.proves = none →
      selectNote agent.notes payAmount agent.spentNullifiers = some note →
      t.call.proves = some note → t.agent = agent → t.settles = false →
      PaymentTurn sdk call agent t
  | fails (note : EnclaveNote) : t.call.agent = call.agent → call.proves = some note →
      t.call.proves = none → t.agent = agent → t.settles = false → PaymentTurn sdk call agent t
  /-- The note counts as spent, whether its proof is posted or not. -/
  | spends (note : EnclaveNote) : t.call.agent = call.agent → call.proves = some note →
      t.call.proves = none →
      t.agent = { agent with spentNullifiers := agent.spentNullifiers ++ [note.nullifier] } →
      PaymentTurn sdk call agent t

section Turns

variable {sdk : Sdk} {call : Call} {site : Site Server} {agent : Interceptor} {e : CallEvent}
  {t : Turn}

theorem PaymentTurn.agent_eq (h : PaymentTurn sdk call agent t) : t.call.agent = call.agent := by
  cases h <;> assumption

theorem idle_finish (hcall : call.proves = none) (result : Result) :
    PaymentTurn sdk call agent (call.finish agent result) :=
  .idle rfl hcall rfl rfl nofun

theorem pay_payment (hcall : call.proves = none) (outputs : Outputs) :
    PaymentTurn sdk call agent (call.pay sdk site agent outputs) := by
  unfold Call.pay
  split
  · exact idle_finish hcall _
  · split
    · exact idle_finish hcall _
    · rename_i payAmount _
      split
      · exact idle_finish hcall _
      · rename_i note hnote
        split
        · rename_i payload hfixture
          refine .idle rfl hcall rfl rfl fun _ => ?_
          split_ifs at hfixture with hcapture
          rw [hfixture]
          exact ⟨Bool.eq_false_iff.mpr hcapture, nofun⟩
        · exact idle_finish hcall _
        · dsimp only
          split
          · exact idle_finish hcall _
          · rename_i hex _
            exact .selects payAmount hex note rfl hcall hnote rfl rfl rfl

theorem afterProve_payment {payReqs : PaymentRequirements} {note : EnclaveNote}
    {extData : ExtDataLike} (hphase : call.phase = .proving payReqs note extData)
    (outcome : Option ProveResult) :
    PaymentTurn sdk call agent (call.afterProve site agent payReqs note extData outcome) := by
  have hcall : call.proves = some note := by rw [Call.proves, hphase]
  unfold Call.afterProve
  split
  · exact .fails note rfl hcall rfl rfl rfl
  · dsimp only
    split
    · exact .spends note rfl hcall rfl rfl
    · exact .spends note rfl hcall rfl rfl

/-- **What a turn pays.** -/
theorem turn_payment (hnext : call.next sdk site agent e = some t) :
    PaymentTurn sdk call agent t := by
  cases e with
  | response outputs =>
      simp only [Call.next] at hnext
      split at hnext
      · rename_i hphase
        have hcall : call.proves = none := by rw [Call.proves, hphase]
        obtain ⟨outcome, -, rfl⟩ := Option.map_eq_some_iff.mp hnext
        unfold Call.afterFirst
        split
        · exact pay_payment hcall outputs
        · exact idle_finish hcall _
      · rename_i hphase
        have hcall : call.proves = none := by rw [Call.proves, hphase]
        obtain ⟨response, -, rfl⟩ := Option.map_eq_some_iff.mp hnext
        unfold Call.afterSettle
        split
        · exact idle_finish hcall _
        · exact idle_finish hcall _
        · exact .idle rfl hcall rfl rfl fun hsettles => absurd hsettles Bool.false_ne_true
      · rename_i hphase
        have hcall : call.proves = none := by rw [Call.proves, hphase]
        obtain ⟨outcome, -, rfl⟩ := Option.map_eq_some_iff.mp hnext
        unfold Call.afterRetry
        split
        · exact idle_finish hcall _
        · exact idle_finish hcall _
      · cases hnext
  | proved outcome =>
      simp only [Call.next] at hnext
      split at hnext
      · rename_i hphase
        obtain rfl := Option.some.inj hnext
        exact afterProve_payment hphase outcome
      · cases hnext
  | rejected =>
      simp only [Call.next] at hnext
      split at hnext
      · cases hnext
      · cases hnext
      · rename_i hproving _
        obtain rfl := Option.some.inj hnext
        refine idle_finish ?_ _
        unfold Call.proves
        split
        · rename_i hphase
          exact absurd hphase (hproving _ _ _)
        · rfl

end Turns

/-! ### What an event pays -/

section Payments

variable {holdings : Holdings} {session : Session} {p : Payment} {k : ℕ}

theorem Session.run_append (agent : Holdings) (s : Session) (events events' : List PaymentEvent) :
    s.run agent (events ++ events') = (s.run agent events).run agent events' :=
  List.foldl_append

theorem Session.run_prove (hk : session.payments[k]? = some p) (hp : p.stage = .proving) :
    session.run holdings [.prove k .failed] = session.setStage k .ended ∧
      session.run holdings [.prove k .undecodable] =
        { session with spentNullifiers := session.spentNullifiers ++ [p.note.nullifier] }.setStage k
          .ended ∧
      session.run holdings [.prove k .proved] =
        { session with spentNullifiers := session.spentNullifiers ++ [p.note.nullifier] }.setStage k
          .posted := by
  obtain ⟨note, inputs, stage⟩ := p
  obtain rfl : stage = .proving := hp
  have hrun (outcome : ProofOutcome) :
      session.run holdings [.prove k outcome] = session.prove k outcome := rfl
  rw [hrun, hrun, hrun, Session.prove, Session.prove, Session.prove, hk]
  exact ⟨rfl, rfl, rfl⟩

theorem Session.exists_split (hk : session.payments[k]? = some p) (stage : PaymentStage) :
    ∃ before after, session.payments = before ++ p :: after ∧
      (session.setStage k stage).payments = before ++ { p with stage := stage } :: after := by
  obtain ⟨hlt, hget⟩ := List.getElem?_eq_some_iff.mp hk
  refine ⟨session.payments.take k, session.payments.drop (k + 1), ?_, ?_⟩
  · rw [← hget, List.cons_getElem_drop_succ, List.take_append_drop]
  · rw [Session.setStage, List.modify_eq_take_cons_drop hlt, hget]

/-- A payment that was waiting is posted with its stage. -/
theorem Session.postedNotes_setStage (hk : session.payments[k]? = some p) (hp : p.stage = .proving)
    (stage : PaymentStage) : (session.setStage k stage).postedNotes.Perm
      (session.postedNotes ++ if stage = .posted then [p.note.toEnclaveNote] else []) := by
  obtain ⟨before, after, hold, hnew⟩ := Session.exists_split hk stage
  have hwaits : ¬ decide (p.stage = .posted) = true := by
    rw [hp]
    nofun
  unfold Session.postedNotes Session.posted
  rw [hnew, hold, List.filter_append, List.filter_append, List.filter_cons, List.filter_cons,
    if_neg hwaits]
  by_cases hstage : stage = .posted
  · rw [if_pos (decide_eq_true hstage), if_pos hstage, List.map_append, List.map_append,
      List.map_cons, List.append_assoc]
    exact (List.perm_append_singleton _ _).symm.append_left _
  · rw [if_neg (fun h => hstage (of_decide_eq_true h)), if_neg hstage, List.append_nil]

/-- The agent has these notes with a key that can be read, and does not take fixtures. -/
structure Interceptor.Holds (agent : Interceptor) (holdings : Holdings) : Prop where
  notes : agent.notes = holdings.notes.map WitnessNote.toEnclaveNote
  key : (normalizeField holdings.orgSpendingPrivKey).isSome
  live : agent.captureMode = true ∨ ∀ url, agent.fixtures url = none

/-- The session has the spent nullifiers of agent `a`, and a payment for each of its calls that
waits for the prover; payment `k` is that of call `payer k`. -/
structure Follows (holdings : Holdings) (a : ℕ) (payer : ℕ → ℕ) (s : System) (session : Session) :
    Prop where
  agent : ∃ agent, s.agents[a]? = some agent ∧ agent.Holds holdings ∧
    agent.spentNullifiers = session.spentNullifiers
  proves : ∀ (c : ℕ) (call : Call) (note : EnclaveNote), s.calls[c]? = some call →
    call.agent = a → call.proves = some note →
    ∃ k p, payer k = c ∧ session.payments[k]? = some p ∧ p.stage = .proving ∧
      p.note.toEnclaveNote = note

variable {num : Numerals} {cfg : Config} {a c : ℕ} {payer : ℕ → ℕ} {s s' : System}
  {call : Call} {agent : Interceptor} {t : Turn} {e : SystemEvent}

/-- The agent is as before, and none of its calls has come to wait for the prover. -/
theorem Follows.frame (h : Follows holdings a payer s session)
    (hagent : s'.agents[a]? = s.agents[a]?)
    (hcalls : ∀ (c : ℕ) (call : Call) (note : EnclaveNote), s'.calls[c]? = some call →
      call.agent = a → call.proves = some note → s.calls[c]? = some call) :
    Follows holdings a payer s' session where
  agent := hagent ▸ h.agent
  proves c call note hcall ha hnote :=
    h.proves c call note (hcalls c call note hcall ha hnote) ha hnote

/-- `selectNote` of the agent's notes is `selectWitnessNote` of those of the session, and the inputs
can be built. -/
theorem Interceptor.Holds.step_pay (h : agent.Holds holdings)
    (hspent : agent.spentNullifiers = session.spentNullifiers) {payAmount : ℤ} {note : EnclaveNote}
    (hnote : selectNote agent.notes payAmount agent.spentNullifiers = some note)
    (extDataHash : String) : ∃ p, p.stage = .proving ∧ p.note.toEnclaveNote = note ∧
      session.step holdings (.pay payAmount extDataHash) =
        { session with payments := session.payments ++ [p] } := by
  rw [h.notes, hspent, ← selectNote_eq] at hnote
  obtain ⟨witnessNote, hselect, rfl⟩ := Option.map_eq_some_iff.mp hnote
  obtain ⟨key, hkey⟩ := Option.isSome_iff_exists.mp h.key
  exact ⟨⟨witnessNote, _, .proving⟩, rfl, rfl,
    Session.step_pay hselect (Option.map_eq_some_iff.mpr ⟨key, hkey, rfl⟩)⟩

theorem Follows.selects (h : Follows holdings a payer s session)
    (hagent : s.agents[a]? = some agent) (hcall : s.calls[c]? = some call) {payAmount : ℤ}
    {note : EnclaveNote} (hnote : selectNote agent.notes payAmount agent.spentNullifiers = some note)
    (hproves : t.call.proves = some note) (extDataHash : String) (site : Site Server) :
    Follows holdings a (Function.update payer session.payments.length c)
      ⟨site, s.agents, s.calls.set c t.call⟩
      (session.step holdings (.pay payAmount extDataHash)) ∧
    (session.step holdings (.pay payAmount extDataHash)).postedNotes = session.postedNotes := by
  obtain ⟨agent', hagent', hholds, hspent⟩ := h.agent
  obtain rfl : agent = agent' := Option.some.inj (hagent.symm.trans hagent')
  obtain ⟨p, hp, hpnote, hstep⟩ := hholds.step_pay hspent hnote extDataHash
  rw [hstep]
  refine ⟨⟨⟨agent, hagent, hholds, hspent⟩, fun c' call' note' hcall' ha' hnote' => ?_⟩, ?_⟩
  · obtain ⟨rfl, rfl⟩ | ⟨hc, hold⟩ := (getElem?_set_some hcall).mp hcall'
    · refine ⟨session.payments.length, p, Function.update_self .., ?_, hp, ?_⟩
      · exact getElem?_snoc.mpr (.inr ⟨rfl, rfl⟩)
      · rw [hpnote]
        exact Option.some.inj (hproves.symm.trans hnote')
    · obtain ⟨k, q, hk, hq, hqstage, hqnote⟩ := h.proves c' call' note' hold ha' hnote'
      have hlt := (List.getElem?_eq_some_iff.mp hq).1
      exact ⟨k, q, by rw [Function.update_of_ne hlt.ne, hk], getElem?_snoc.mpr (.inl hq), hqstage,
        hqnote⟩
  · unfold Session.postedNotes Session.posted
    rw [List.filter_append, List.filter_cons_of_neg (by rw [hp]; nofun), List.filter_nil,
      List.append_nil]

theorem Follows.answered (h : Follows holdings a payer s session) (hcall : s.calls[c]? = some call)
    (hproves : t.call.proves = none) (hk : payer k = c) {agents : List Interceptor}
    {agent' : Interceptor} (hagents : agents[a]? = some agent') (hholds : agent'.Holds holdings)
    {spent : List String} (hspent : agent'.spentNullifiers = spent) (site : Site Server) (stage : PaymentStage) :
    Follows holdings a payer ⟨site, agents, s.calls.set c t.call⟩
      ({ session with spentNullifiers := spent }.setStage k stage) where
  agent := ⟨agent', hagents, hholds, hspent⟩
  proves c' call' note' hcall' ha' hnote' := by
    obtain ⟨rfl, rfl⟩ | ⟨hc, hold⟩ := (getElem?_set_some hcall).mp hcall'
    · rw [hproves] at hnote'
      cases hnote'
    · obtain ⟨k', q, hk', hq, hqstage, hqnote⟩ := h.proves c' call' note' hold ha' hnote'
      -- another call has another payment
      have hne : k ≠ k' := fun heq => hc (by rw [← hk', ← heq, hk])
      refine ⟨k', q, hk', ?_, hqstage, hqnote⟩
      exact (List.getElem?_modify_ne _ _ hne).trans hq

theorem System.postedNote_call {e : CallEvent} (hcall : s.calls[c]? = some call)
    (hagent : s.agents[call.agent]? = some agent)
    (hturn : call.next cfg.sdk s.site agent e = some t) :
    s.postedNote cfg.sdk a (.call c e) =
      if call.agent = a ∧ t.settles = true then call.proves else none := by
  simp only [System.postedNote, hcall, hagent, hturn, Option.bind_eq_bind, Option.bind_some]

theorem Follows.turn (h : Follows holdings a payer s session) (hcall : s.calls[c]? = some call)
    (hagent : s.agents[a]? = some agent) (ha : call.agent = a)
    (hturn : PaymentTurn cfg.sdk call agent t) (site : Site Server) :
    ∃ payer' payments, Follows holdings a payer'
        ⟨site, s.agents.set a t.agent, s.calls.set c t.call⟩ (session.run holdings payments) ∧
      (session.run holdings payments).postedNotes.Perm
        (session.postedNotes ++ (if t.settles = true then call.proves else none).toList) := by
  obtain ⟨agent', hagent', hholds, hspent⟩ := h.agent
  obtain rfl : agent = agent' := Option.some.inj (hagent.symm.trans hagent')
  have hkeep : s.agents.set a agent = s.agents := by
    obtain ⟨hlt, rfl⟩ := List.getElem?_eq_some_iff.mp hagent
    exact List.set_getElem_self hlt
  cases hturn with
  | idle _ hbefore hafter hsame hsettles =>
      refine ⟨payer, [], h.frame ?_ fun c' call' note' hcall' _ hnote' => ?_, ?_⟩
      · rw [hsame, hkeep]
      · obtain ⟨rfl, rfl⟩ | ⟨-, hold⟩ := (getElem?_set_some hcall).mp hcall'
        · rw [hafter] at hnote'
          cases hnote'
        · exact hold
      · rw [hbefore, ite_self, Option.toList_none, List.append_nil]
        exact .refl _
  | selects payAmount extDataHash note _ hbefore hnote hafter hsame hsettles =>
      obtain ⟨hfollows, hposted⟩ := h.selects hagent hcall hnote hafter extDataHash site
      refine ⟨Function.update payer session.payments.length c, [.pay payAmount extDataHash], ?_, ?_⟩
      · rw [hsame, hkeep]
        exact hfollows
      · rw [hbefore, ite_self, Option.toList_none, List.append_nil]
        exact .of_eq hposted
  | fails note _ hbefore hafter hsame hsettles =>
      obtain ⟨k, p, hk, hp, hproving, hpnote⟩ := h.proves c call note hcall ha hbefore
      have hrun := (@Session.run_prove holdings session p k hp hproving).1
      refine ⟨payer, [.prove k .failed], ?_, ?_⟩
      · rw [hrun, hsame, hkeep]
        exact h.answered hcall hafter hk hagent hholds hspent site .ended
      · rw [hrun, if_neg (Bool.eq_false_iff.mp hsettles)]
        exact Session.postedNotes_setStage hp hproving .ended
  | spends note _ hbefore hafter hspends =>
      obtain ⟨k, p, hk, hp, hproving, rfl⟩ := h.proves c call note hcall ha hbefore
      obtain ⟨-, hundecodable, hproved⟩ := @Session.run_prove holdings session p k hp hproving
      have hagents : (s.agents.set a t.agent)[a]? = some t.agent :=
        (getElem?_set_some hagent).mpr (.inl ⟨rfl, rfl⟩)
      have hholds' : t.agent.Holds holdings := hspends ▸ ⟨hholds.notes, hholds.key, hholds.live⟩
      have hspent' : t.agent.spentNullifiers = session.spentNullifiers ++ [p.note.nullifier] := by
        rw [hspends, ← hspent]
      have hfollows := h.answered hcall hafter hk hagents hholds' hspent' site
      have hposted := @Session.postedNotes_setStage
        { session with spentNullifiers := session.spentNullifiers ++ [p.note.nullifier] } p k hp
        hproving
      by_cases hsettles : t.settles = true
      · refine ⟨payer, [.prove k .proved], ?_, ?_⟩
        · exact hproved ▸ hfollows .posted
        · rw [if_pos hsettles, hbefore]
          exact hproved ▸ hposted .posted
      · refine ⟨payer, [.prove k .undecodable], ?_, ?_⟩
        · exact hundecodable ▸ hfollows .ended
        · rw [if_neg hsettles]
          exact hundecodable ▸ hposted .ended

/-- **Every event of the system** is one of the session, or none. -/
theorem Follows.step (h : Follows holdings a payer s session) (hstep : s.Step num cfg e s') :
    ∃ payer' payments, Follows holdings a payer' s' (session.run holdings payments) ∧
      (session.run holdings payments).postedNotes.Perm
        (session.postedNotes ++ (s.postedNote cfg.sdk a e).toList) := by
  have hnone (hfollows : Follows holdings a payer s' session)
      (hposted : s.postedNote cfg.sdk a e = none) :
      ∃ payer' payments, Follows holdings a payer' s' (session.run holdings payments) ∧
        (session.run holdings payments).postedNotes.Perm
          (session.postedNotes ++ (s.postedNote cfg.sdk a e).toList) := by
    refine ⟨payer, [], hfollows, ?_⟩
    rw [hposted, Option.toList_none, List.append_nil]
    exact .refl _
  cases e with
  | site e =>
      obtain ⟨site, -, rfl⟩ := Option.map_eq_some_iff.mp hstep
      exact hnone (h.frame rfl fun _ _ _ hcall _ _ => hcall) rfl
  | fetch a' url options init =>
      simp only [System.Step, System.next] at hstep
      obtain ⟨site, -, rfl⟩ := Option.map_eq_some_iff.mp hstep
      refine hnone (h.frame rfl fun c call note hcall _ hnote => ?_) rfl
      obtain hold | ⟨-, rfl⟩ := getElem?_snoc.mp hcall
      · exact hold
      · cases hnote
  | call c e =>
      obtain ⟨call, hcall, hrest⟩ := Option.bind_eq_some_iff.mp hstep
      obtain ⟨agent, hagent, hrest⟩ := Option.bind_eq_some_iff.mp hrest
      obtain ⟨t, hturn, hrest⟩ := Option.bind_eq_some_iff.mp hrest
      obtain ⟨site, -, hrest⟩ := Option.bind_eq_some_iff.mp hrest
      obtain rfl := Option.some.inj hrest
      have hposted := @System.postedNote_call cfg a c s call agent t e hcall hagent hturn
      by_cases ha : call.agent = a
      · subst ha
        rw [hposted, if_congr (and_iff_right rfl) rfl rfl]
        exact h.turn hcall hagent rfl (turn_payment hturn) site
      · refine hnone (h.frame ?_ fun c' call' note' hcall' ha' _ => ?_) ?_
        · exact List.getElem?_set_ne ha
        · obtain ⟨-, rfl⟩ | ⟨-, hold⟩ := (getElem?_set_some hcall).mp hcall'
          · exact absurd ((turn_payment hturn).agent_eq.symm.trans ha') ha
          · exact hold
        · rw [hposted, if_neg fun h => ha h.1]

theorem Follows.run (h : Follows holdings a payer s session) {events : List SystemEvent}
    (hrun : Run (System.Step num cfg) s events s') :
    ∃ payer' payments, Follows holdings a payer' s' (session.run holdings payments) ∧
      (session.run holdings payments).postedNotes.Perm
        (session.postedNotes ++ s.postedNotes num cfg a events) := by
  induction hrun generalizing payer session with
  | nil s =>
      refine ⟨payer, [], h, ?_⟩
      rw [System.postedNotes, List.append_nil]
      exact .refl _
  | cons hstep _ ih =>
      obtain ⟨payer₁, payments₁, hfollows₁, hposted₁⟩ := h.step hstep
      obtain ⟨payer₂, payments₂, hfollows₂, hposted₂⟩ := ih hfollows₁
      refine ⟨payer₂, payments₁ ++ payments₂, ?_, ?_⟩
      · rw [Session.run_append]
        exact hfollows₂
      · rw [Session.run_append, System.postedNotes, hstep, Option.elim_some, ← List.append_assoc]
        exact hposted₂.trans (hposted₁.append_right _)

/-- **The calls of an agent are payments of a session**: in any run of the system, with other agents
and anybody's requests in between, some session of its notes posts what its calls post. -/
theorem session_of_run {entries : List (String × String)} {agents : List Interceptor}
    (hagent : agents[a]? = some agent) (hholds : agent.Holds holdings)
    (hnew : agent.spentNullifiers = []) {events : List SystemEvent}
    (hrun : Run (System.Step num cfg) (System.boot cfg entries agents) events s) :
    ∃ payer payments, Follows holdings a payer s (Session.start.run holdings payments) ∧
      (Session.start.run holdings payments).postedNotes.Perm
        ((System.boot cfg entries agents).postedNotes num cfg a events) := by
  have hstart : Follows holdings a id (System.boot cfg entries agents) Session.start :=
    ⟨⟨agent, hagent, hholds, hnew⟩, nofun⟩
  exact hstart.run hrun

/-- The notes of the sample payments, without fixtures. -/
example (null : List WitnessNote) :
    (Interceptor.mk ((sampleHoldings null).notes.map WitnessNote.toEnclaveNote) (fun _ => none) false
      []).Holds (sampleHoldings null) :=
  ⟨rfl, Option.isSome_iff_exists.mpr ⟨_, normalizeField_bytesToHex (List.cons_ne_nil _ _)⟩,
    .inr fun _ => rfl⟩

end Payments

end Enclave.Agent

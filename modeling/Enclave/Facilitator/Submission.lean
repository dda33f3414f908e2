import Enclave.Facilitator.Claims

/-! # Submitted transactions

The facilitator with the network around it.  A transaction is submitted when `sendTransaction` is
called, and the network may apply it then or at any later time; RPC answers may be late, missing or
errors, but `SUCCESS` is said of a transaction that was applied, and `FAILED` or `ERROR` of one that
never will be.

A handler that gives up (`GivesUp`) releases its claims without knowing what becomes of its
transaction.  Where it does not, a transaction that is applied keeps its nullifiers in the cache
(`submitted_keeps_nullifiers`). -/

namespace Enclave.Facilitator

open Stellar

/-! ### The network -/

/-- The facilitator, with the transactions by the request they are for. -/
structure Network where
  server : Server
  submitted : List ℕ
  applied : List ℕ
  dead : List ℕ

/-- An event of the facilitator, or the fate of a transaction. -/
inductive NetworkEvent where
  | server (e : Event)
  | apply (i : ℕ)
  | reject (i : ℕ)

/-- What an RPC answer says is so. -/
def Network.allows (n : Network) : Event → Bool
  | .answer i (.polled (some .success)) => i ∈ n.applied
  | .answer i (.polled (some (.failed _))) => i ∈ n.dead
  | .answer i (.sent (some send)) => !send.isError || !decide (i ∈ n.applied)
  | _ => true

/-- The transactions submitted after an event. -/
def Network.submittedBy (n : Network) : Event → List ℕ
  | .answer i (.prepared (some ())) => i :: n.submitted
  | _ => n.submitted

/-- The transactions that will not be applied, after an event. -/
def Network.deadBy (n : Network) : Event → List ℕ
  | .answer i (.sent (some send)) => if send.isError then i :: n.dead else n.dead
  | _ => n.dead

/-- A transaction whose fate is open. -/
def Network.Open (n : Network) (i : ℕ) : Prop :=
  i ∈ n.submitted ∧ i ∉ n.applied ∧ i ∉ n.dead

instance (n : Network) (i : ℕ) : Decidable (n.Open i) := inferInstanceAs (Decidable (_ ∧ _ ∧ _))

variable (cfg : Config)

def Network.next (n : Network) : NetworkEvent → Option Network
  | .server e =>
      if n.allows e then
        (n.server.next cfg e).map fun s => ⟨s, n.submittedBy e, n.applied, n.deadBy e⟩
      else none
  | .apply i => if n.Open i then some { n with applied := i :: n.applied } else none
  | .reject i => if n.Open i then some { n with dead := i :: n.dead } else none

def Network.Step (n : Network) (e : NetworkEvent) (n' : Network) : Prop := n.next cfg e = some n'

def Network.boot (entries : List (String × String)) : Network :=
  ⟨Server.boot cfg entries, [], [], []⟩

/-- The handler of a submitted transaction ends without knowing its fate: the deadline passed, or
`sendTransaction` or `getTransaction` threw. -/
def GivesUp (i : ℕ) : NetworkEvent → Prop
  | .server (.answer j .timedOut) => j = i
  | .server (.answer j (.sent none)) => j = i
  | .server (.answer j (.polled none)) => j = i
  | _ => False

/-- `sendTransaction` was called, and the handler has not failed. -/
def Phase.Submitted : Phase → Prop
  | .sending _ => True
  | .polling _ _ => True
  | .appending _ => True
  | .answered (.success _) => True
  | _ => False

/-! ### What is known of a submitted transaction -/

/-- The handler of a submitted transaction is still at it, or the transaction is dead; and no
transaction is both applied and dead. -/
structure Network.Tracks (n : Network) (i : ℕ) : Prop where
  handler : i ∈ n.submitted →
    i ∈ n.dead ∨ ∃ h : Handler, n.server.handlers[i]? = some h ∧ h.phase.Submitted
  disjoint : ∀ j ∈ n.applied, j ∉ n.dead

variable {cfg} {n n' n'' : Network} {e : NetworkEvent} {i : ℕ}
  {entries : List (String × String)} {events events' : List NetworkEvent}

theorem Phase.Submitted.not_failed {phase : Phase} (h : phase.Submitted) : ¬ phase.Failed := by
  cases phase with
  | answered r => cases r <;> first | exact id | exact fun _ => h
  | _ => exact id

theorem Network.step_server {e : Event} (hstep : n.Step cfg (.server e) n') :
    n.allows e = true ∧ n.server.Step cfg e n'.server ∧ n'.submitted = n.submittedBy e ∧
      n'.applied = n.applied ∧ n'.dead = n.deadBy e := by
  simp only [Network.Step, Network.next] at hstep
  split at hstep
  · rename_i hallows
    obtain ⟨s, hs, rfl⟩ := Option.map_eq_some_iff.mp hstep
    exact ⟨hallows, hs, rfl, rfl, rfl⟩
  · cases hstep

theorem Network.step_apply (hstep : n.Step cfg (.apply i) n') :
    n.Open i ∧ n' = { n with applied := i :: n.applied } := by
  simp only [Network.Step, Network.next] at hstep
  split at hstep
  · rename_i hopen
    exact ⟨hopen, (Option.some.inj hstep).symm⟩
  · cases hstep

theorem Network.step_reject (hstep : n.Step cfg (.reject i) n') :
    n.Open i ∧ n' = { n with dead := i :: n.dead } := by
  simp only [Network.Step, Network.next] at hstep
  split at hstep
  · rename_i hopen
    exact ⟨hopen, (Option.some.inj hstep).symm⟩
  · cases hstep

theorem server_run (hrun : Run (Network.Step cfg) n events n') :
    ∃ es, Run (Server.Step cfg) n.server es n'.server := by
  induction hrun with
  | nil n => exact ⟨[], .nil n.server⟩
  | @cons n n₁ n₂ e es hstep _ ih =>
      obtain ⟨rest, hrest⟩ := ih
      cases e with
      | server e => exact ⟨e :: rest, .cons (Network.step_server hstep).2.1 hrest⟩
      | apply i =>
          obtain ⟨-, rfl⟩ := Network.step_apply hstep
          exact ⟨rest, hrest⟩
      | reject i =>
          obtain ⟨-, rfl⟩ := Network.step_reject hstep
          exact ⟨rest, hrest⟩

/-- A handler whose transaction is submitted goes on with it, unless it gives up or the transaction
is dead. -/
theorem submitted_resume {cache cache' : NullifierCache} {h : Handler} {a : Answer}
    {phase' : Phase} (hn : n.allows (.answer i a) = true) (hgives : ¬ GivesUp i (.server (.answer i a)))
    (hphase : h.phase.Submitted) (hresume : resume cfg cache h a = some (cache', phase')) :
    phase'.Submitted ∨ i ∈ n.deadBy (.answer i a) := by
  cases a with
  | verified outcome =>
      simp only [resume] at hresume
      split at hresume
      · rename_i hp _
        rw [hp] at hphase
        exact hphase.elim
      · cases hresume
  | snapshot outcome =>
      simp only [resume] at hresume
      split at hresume
      · rename_i hp _
        rw [hp] at hphase
        exact hphase.elim
      · cases hresume
  | prepared outcome =>
      simp only [resume] at hresume
      split at hresume
      · rename_i hp
        rw [hp] at hphase
        exact hphase.elim
      · cases hresume
  | sent outcome =>
      simp only [resume] at hresume
      split at hresume
      · cases outcome with
        | none => exact absurd rfl hgives
        | some send =>
            unfold afterSend at hresume
            dsimp only at hresume
            split at hresume
            · rename_i herror
              refine .inr ?_
              rw [Network.deadBy, if_pos herror]
              exact List.mem_cons_self
            · cases hresume
              exact .inl trivial
      · cases hresume
  | polled outcome =>
      simp only [resume] at hresume
      split at hresume
      · cases outcome with
        | none => exact absurd rfl hgives
        | some status =>
            cases status with
            | success =>
                cases hresume
                exact .inl trivial
            | failed resultXdr => exact .inr (of_decide_eq_true hn)
            | notFound =>
                cases hresume
                exact .inl trivial
      · cases hresume
  | timedOut => exact absurd rfl hgives
  | appended =>
      simp only [resume] at hresume
      split at hresume
      · cases hresume
        exact .inl trivial
      · cases hresume

theorem dead_subset_deadBy (n : Network) (e : Event) : ∀ j ∈ n.dead, j ∈ n.deadBy e := by
  intro j hj
  unfold Network.deadBy
  split
  · split
    · exact List.mem_cons_of_mem _ hj
    · exact hj
  · exact hj

theorem not_mem_deadBy {e : Event} (hallows : n.allows e = true) {j : ℕ} (hj : j ∈ n.applied)
    (hdead : j ∉ n.dead) : j ∉ n.deadBy e := by
  unfold Network.deadBy
  split
  · rename_i k send
    split
    · rename_i herror
      intro hmem
      obtain rfl | hmem := List.mem_cons.mp hmem
      · simp only [Network.allows, herror, hj] at hallows
        cases hallows
      · exact hdead hmem
    · exact hdead
  · exact hdead

/-- A transaction is submitted by its own handler, which then waits for the answer. -/
theorem submittedBy_cases {e : Event} (hstep : n.server.Step cfg e n'.server)
    (hmem : i ∈ n.submittedBy e) : i ∈ n.submitted ∨
      ∃ h : Handler, n'.server.handlers[i]? = some h ∧ h.phase.Submitted := by
  unfold Network.submittedBy at hmem
  split at hmem
  · rename_i j
    obtain rfl | hmem := List.mem_cons.mp hmem
    · refine .inr ?_
      obtain ⟨body, h, he, -⟩ | ⟨k, a, h, phase', he, hk, hhandlers, hresume, -⟩ :=
        Server.step_cases hstep
      · cases he
      · cases he
        simp only [resume] at hresume
        split at hresume
        · rename_i args _
          rw [if_pos trivial] at hresume
          obtain ⟨-, rfl⟩ := Prod.mk.inj (Option.some.inj hresume)
          refine ⟨⟨h.request, h.claimedOrder, .sending args⟩, ?_, trivial⟩
          rw [hhandlers]
          exact (getElem?_set_some hk).mpr (.inl ⟨rfl, rfl⟩)
        · cases hresume
    · exact .inl hmem
  · exact .inl hmem

theorem disjoint_step (hn : ∀ j ∈ n.applied, j ∉ n.dead) (hstep : n.Step cfg e n') :
    ∀ j ∈ n'.applied, j ∉ n'.dead := by
  intro k hk
  cases e with
  | server e =>
      obtain ⟨hallows, -, -, happlied, hdead⟩ := Network.step_server hstep
      rw [happlied] at hk
      rw [hdead]
      exact not_mem_deadBy hallows hk (hn k hk)
  | apply j =>
      obtain ⟨hopen, rfl⟩ := Network.step_apply hstep
      obtain rfl | hk := List.mem_cons.mp hk
      · exact hopen.2.2
      · exact hn k hk
  | reject j =>
      obtain ⟨hopen, rfl⟩ := Network.step_reject hstep
      intro hdead
      obtain rfl | hdead := List.mem_cons.mp hdead
      · exact hopen.2.1 hk
      · exact hn k hk hdead

/-- **Every event keeps track** of a transaction, unless its handler gives up. -/
theorem Network.Tracks.step (hn : n.Tracks i) (hgives : ¬ GivesUp i e)
    (hstep : n.Step cfg e n') : n'.Tracks i := by
  refine ⟨fun hmem => ?_, disjoint_step hn.disjoint hstep⟩
  cases e with
  | server e =>
      obtain ⟨hallows, hserver, hsubmitted, -, hdead⟩ := Network.step_server hstep
      rw [hsubmitted] at hmem
      rw [hdead]
      obtain hold | hnew := submittedBy_cases hserver hmem
      · obtain hold | ⟨h, hi, hphase⟩ := hn.handler hold
        · exact .inl (dead_subset_deadBy n e i hold)
        · obtain ⟨body, k, -, hhandlers, -⟩ | ⟨j, a, k, phase', rfl, hj, hhandlers, hresume, -⟩ :=
            Server.step_cases hserver
          · refine .inr ⟨h, ?_, hphase⟩
            rw [hhandlers]
            exact getElem?_snoc.mpr (.inl hi)
          · by_cases hij : i = j
            · subst hij
              cases Option.some.inj (hi.symm.trans hj)
              obtain hphase' | hdies := submitted_resume hallows hgives hphase hresume
              · refine .inr ⟨⟨h.request, h.claimedOrder, phase'⟩, ?_, hphase'⟩
                rw [hhandlers]
                exact (getElem?_set_some hj).mpr (.inl ⟨rfl, rfl⟩)
              · exact .inl hdies
            · refine .inr ⟨h, ?_, hphase⟩
              rw [hhandlers]
              exact (getElem?_set_some hj).mpr (.inr ⟨hij, hi⟩)
      · exact .inr hnew
  | apply j =>
      obtain ⟨-, rfl⟩ := Network.step_apply hstep
      exact hn.handler hmem
  | reject j =>
      obtain ⟨-, rfl⟩ := Network.step_reject hstep
      exact (hn.handler hmem).imp_left (List.mem_cons_of_mem _)

theorem Network.Tracks.run (hn : n.Tracks i) (hrun : Run (Network.Step cfg) n events n')
    (hgives : ∀ e ∈ events, ¬ GivesUp i e) : n'.Tracks i := by
  induction hrun with
  | nil _ => exact hn
  | cons hstep _ ih =>
      exact ih (hn.step (hgives _ List.mem_cons_self) hstep)
        fun e he => hgives e (List.mem_cons_of_mem _ he)

theorem tracks_boot (cfg : Config) (entries : List (String × String)) (i : ℕ) :
    (Network.boot cfg entries).Tracks i :=
  ⟨fun hmem => absurd hmem List.not_mem_nil, fun _ hj => absurd hj List.not_mem_nil⟩

theorem dead_run (hrun : Run (Network.Step cfg) n events n') (hdead : i ∈ n.dead) :
    i ∈ n'.dead := by
  refine hrun.invariant (I := fun n => i ∈ n.dead) ?_ hdead
  intro n e n' hn hstep
  cases e with
  | server e =>
      rw [(Network.step_server hstep).2.2.2.2]
      exact dead_subset_deadBy n e i hn
  | apply j =>
      obtain ⟨-, rfl⟩ := Network.step_apply hstep
      exact hn
  | reject j =>
      obtain ⟨-, rfl⟩ := Network.step_reject hstep
      exact List.mem_cons_of_mem _ hn

/-! ### Applied transactions -/

/-- **The cache does not forget a submitted spend**: a transaction that is applied, then or later,
has its nullifiers in the cache as long as its handler does not give up. -/
theorem submitted_keeps_nullifiers
    (hrun : Run (Network.Step cfg) (Network.boot cfg entries) events n)
    (hrun' : Run (Network.Step cfg) n events' n') (hsubmitted : i ∈ n.submitted)
    (happlied : i ∈ n'.applied) (hgives : ∀ e ∈ events, ¬ GivesUp i e) :
    ∃ (h : Handler) (parsed : ParsedRequest), n.server.handlers[i]? = some h ∧
      h.request = some parsed ∧ ∀ m ∈ getInputNullifiers parsed.proof,
        (NullifierCache.peek cfg.sdk.toLowerCase n.server.cache m).isSome = true := by
  have htracks := (tracks_boot cfg entries i).run hrun hgives
  have hdisjoint : i ∉ n'.dead := by
    refine (hrun'.invariant (I := fun n => ∀ j ∈ n.applied, j ∉ n.dead) ?_ htracks.disjoint) i
      happlied
    intro n e n' hn hstep
    exact disjoint_step hn hstep
  obtain hdead | ⟨h, hi, hphase⟩ := htracks.handler hsubmitted
  · exact absurd (dead_run hrun' hdead) hdisjoint
  · obtain ⟨es, hserver⟩ := server_run hrun
    obtain ⟨_, parsed, -, hrequest, hclaimed, -⟩ := origin_of_run hserver
      (fun _ _ => trivial) (fun _ _ hnone => by cases hnone) i h hi hphase.not_failed
    refine ⟨h, parsed, hi, hrequest, fun m hm => ?_⟩
    apply (exclusive_of_run hserver).isSome hi hphase.not_failed
    rw [Handler.keys, hclaimed]
    exact List.mem_map_of_mem hm

/-! ### A sample transaction -/

/-- A sample request up to its answer from `sendTransaction`. -/
def sampleSubmission : List NetworkEvent :=
  [.server (.request (sampleBody ["5"])), .server (.answer 0 (.snapshot (some ⟨10, 10⟩))),
    .server (.answer 0 (.prepared (some ()))), .server (.answer 0 (.sent (some ⟨false, "", ""⟩)))]

theorem sampleAmount_range : -2 ^ 255 ≤ (-5 : ℤ) ∧ (-5 : ℤ) < 2 ^ 255 := by decide

def sampleArgs : TransactArgs :=
  ⟨proofScVal (samplePoolProof [5]), .map [("recipient", .address (.account 1)),
    ("ext_amount", .i256 ⟨-5, sampleAmount_range⟩), ("encrypted_output0", .bytes (List.replicate 112 0)),
    ("encrypted_output1", .bytes (List.replicate 112 0))], .address (.account 0)⟩

theorem buildPoolTransactArgs_sample :
    buildPoolTransactArgs sampleSdk (sampleProof ["5"]) (extDataWire (sampleExtData (-5)))
      sampleFacilitator = .ok sampleArgs := by
  have hrange : InRange (samplePoolProof [5]) := by
    constructor <;> decide
  exact buildPoolTransactArgs_wire sampleSdk_exact hrange rfl
    (by decide) (by decide)

/-- The network with one request, for the nullifier 5, that has not answered. -/
def sampleAt (phase : Phase) (submitted : List ℕ) : Network where
  server := ⟨Function.update (fun _ => none) "5" (some ⟨.inFlight, none⟩),
    [⟨some ⟨sampleProof ["5"], extDataWire (sampleExtData (-5)), sampleRequirements⟩, ["5"],
      phase⟩]⟩
  submitted := submitted
  applied := []
  dead := []

theorem run_sampleSubmission : Run (Network.Step (sampleConfig .onChain))
    (Network.boot (sampleConfig .onChain) []) sampleSubmission
    (sampleAt (.polling sampleArgs "") [0]) := by
  have hkey : NullifierCache.normalize (sampleConfig .onChain).sdk.toLowerCase "5" = "5" := by
    decide
  have hclaim : claimNullifiers (sampleConfig .onChain) (fun _ => none)
      ⟨sampleProof ["5"], extDataWire (sampleExtData (-5)), sampleRequirements⟩ =
      (Function.update (fun _ => none) "5" (some ⟨.inFlight, none⟩),
        ⟨some ⟨sampleProof ["5"], extDataWire (sampleExtData (-5)), sampleRequirements⟩, ["5"],
          .readingSnapshot⟩) := by
    nth_rewrite 1 [← hkey]
    rfl
  have hsolvency : checkSolvency ⟨10, 10⟩ sampleRequirements 0 = some (.ok ()) := by decide
  -- The states between, by what the handler waits for.
  have hanswer : ∀ (phase phase' : Phase) (a : Answer) (submitted : List ℕ),
      (sampleAt phase submitted).allows (.answer 0 a) = true →
      resume (sampleConfig .onChain) (sampleAt phase submitted).server.cache
        ⟨some ⟨sampleProof ["5"], extDataWire (sampleExtData (-5)), sampleRequirements⟩, ["5"],
          phase⟩ a = some ((sampleAt phase submitted).server.cache, phase') →
      (sampleAt phase submitted).deadBy (.answer 0 a) = [] →
      Network.Step (sampleConfig .onChain) (sampleAt phase submitted) (.server (.answer 0 a))
        (sampleAt phase' ((sampleAt phase submitted).submittedBy (.answer 0 a))) := by
    intro phase phase' a submitted hallows hresume hdead
    rw [Network.Step, Network.next, if_pos hallows, Server.next]
    change Option.map _ ((resume _ _ _ _).map _) = _
    rw [hresume, Option.map_some, Option.map_some, hdead]
    rfl
  have hrequest : Network.Step (sampleConfig .onChain) (Network.boot (sampleConfig .onChain) [])
      (.server (.request (sampleBody ["5"]))) (sampleAt .readingSnapshot []) := by
    have hallows : (Network.boot (sampleConfig .onChain) []).allows
        (.request (sampleBody ["5"])) = true := rfl
    rw [Network.Step, Network.next, if_pos hallows, next_sample]
    change Option.map _ (some (Server.mk (claimNullifiers _ (fun _ => none) _).1 _)) = _
    rw [hclaim]
    rfl
  refine .cons hrequest (.cons (hanswer _ (.preparing sampleArgs) _ _ rfl ?_ rfl)
    (.cons (hanswer _ (.sending sampleArgs) _ _ rfl rfl rfl)
      (.cons (hanswer _ (.polling sampleArgs "") _ _ rfl rfl rfl) (.nil _))))
  exact congrArg some (afterSnapshot_of_ok hsolvency buildPoolTransactArgs_sample)

theorem submitted_keeps_nullifiers_sample : ∃ h parsed,
    (sampleAt (.polling sampleArgs "") [0]).server.handlers[0]? = some h ∧
      h.request = some parsed ∧ ∀ m ∈ getInputNullifiers parsed.proof,
        (NullifierCache.peek sampleSdk.toLowerCase
          (sampleAt (.polling sampleArgs "") [0]).server.cache m).isSome = true :=
  submitted_keeps_nullifiers run_sampleSubmission
    (.single (show Network.Step (sampleConfig .onChain) _ (.apply 0) _ from rfl))
    List.mem_cons_self List.mem_cons_self fun e he hgives => by
      obtain rfl | rfl | rfl | rfl | he := by
        simpa only [sampleSubmission, List.mem_cons] using he
      all_goals first | exact hgives | cases he

/-- The deadline passes, the claim is released, and the transaction is applied. -/
theorem applied_after_timeout : ∃ n n' h parsed,
    Run (Network.Step (sampleConfig .onChain)) (Network.boot (sampleConfig .onChain) [])
      (sampleSubmission ++ [.server (.answer 0 .timedOut)]) n ∧
    Run (Network.Step (sampleConfig .onChain)) n [.apply 0] n' ∧
    0 ∈ n.submitted ∧ 0 ∈ n'.applied ∧ n.server.handlers[0]? = some h ∧ h.request = some parsed ∧
    ∃ m ∈ getInputNullifiers parsed.proof,
      NullifierCache.peek sampleSdk.toLowerCase n.server.cache m = none := by
  refine ⟨_, _, _, _, run_sampleSubmission.append (.single rfl), .single rfl, List.mem_cons_self,
    List.mem_cons_self, rfl, rfl, "5", List.mem_cons_self, ?_⟩
  decide

end Enclave.Facilitator

import Enclave.App.AspConsistency
import Enclave.App.CreateOrg
import Enclave.AspMembership.Tree

/-! # The recorded index of an organisation

The SDK hands out neither a return value nor metadata where `extractLeafAddedIndex` looks, and
`createOrg` records the number of rows of its own registry.  In any run that is the index of its leaf
exactly if as many leaves were in the tree before as rows are in the registry (`recorded_iff`); then
what `exportEnclaveNotes` writes opens the leaf to the contract's root. -/

namespace Enclave.App

open Prover

variable {P : Poseidon2} {number : String → Option ℤ} {signAndSend : SignAndSend}

/-! ### What the SDK answers -/

/-- `SentTransaction`, as the SDK documents it: `getTransactionResponse` has what the call returned
and its metadata. -/
structure SentTransaction (sent : Native) : Prop where
  returnValue : sent.prop "returnValue" = .undefined
  resultMetaXdr : sent.prop "resultMetaXdr" = .undefined
  result_meta_xdr : sent.prop "result_meta_xdr" = .undefined
  response : (sent.prop "sendTransactionResponse").prop "resultMetaXdr" = .undefined

/-- **The rows are counted.** -/
theorem SentTransaction.chosenIndex_eq {sent : Native} (h : SentTransaction sent) (orgs : Orgs) :
    chosenIndex number sent orgs = some orgs.records.length := by
  have hindex : extractLeafAddedIndex number sent = some (-1) := by
    unfold extractLeafAddedIndex
    rw [h.returnValue, h.response, h.resultMetaXdr, h.result_meta_xdr]
    rfl
  unfold chosenIndex
  rw [hindex]
  rfl

/-! ### The leaf of an organisation -/

def insertedLeaf : AspMembership.Event → F
  | .leafAdded leaf _ _ => (leaf : F)

def leavesOf (contract : Env AspMembership.Store) : List F := contract.store.events.map insertedLeaf

def SessionKeys.pubkey (keys : SessionKeys P) : F := (leValue keys.orgSpendingPubKey : F)

def SessionKeys.leaf (keys : SessionKeys P) : F := membershipLeaf P keys.pubkey

theorem SessionKeys.orgSpendingPubKey_scalar (keys : SessionKeys P) :
    keys.orgSpendingPubKey = scalarToBytes keys.pubkey := by
  obtain ⟨sk, -, hpub⟩ := Result.bind_eq_ok.mp keys.derived
  rw [SessionKeys.pubkey, ← Except.ok.inj hpub, leValue_scalarToBytes, F.natCast_val]

theorem SessionKeys.leaf_eq (keys : SessionKeys P) :
    computeEnclaveAspLeaf P keys.orgSpendingPubKey = .ok (scalarToBytes keys.leaf) := by
  rw [keys.orgSpendingPubKey_scalar]
  exact computeEnclaveAspLeaf_scalarToBytes keys.pubkey

/-! ### What an event can do -/

inductive OrgEffect (number : String → Option ℤ) (signAndSend : SignAndSend) (w : World P) :
    OrgEvent P → World P → Prop
  | nothing {e : OrgEvent P} : OrgEffect number signAndSend w e w
  | transact (call : ContractCall) : OrgEffect number signAndSend w (.transact call)
      { w with contract := Host.after (call.call P) w.contract }
  | opened (params : OrgParams) (keys : SessionKeys P) :
      OrgEffect number signAndSend w (.createOrg params keys)
        { w with calls := w.calls ++ [⟨params.adminAddress, keys, .started⟩] }
  | inserted {i : ℕ} {call : OrgCall P} {auths : List Address} {hash : String}
      {env : Env AspMembership.Store} {leaf root : U256} {index : ℕ}
      (hcall : w.calls[i]? = some call) (hstage : call.stage = .started)
      (hins : AspMembership.insertLeaf P auths call.keys.leaf.val w.contract = .ok ((), env))
      (hevent : env.store.events.getLast? = some (.leafAdded leaf index root)) :
      OrgEffect number signAndSend w (.insertLeaf i auths hash)
        ({ w with contract := env }.setStage i
          (.inserted index (signAndSend hash (.leafAdded leaf index root))))
  | indexed {i index : ℕ} {call : OrgCall P} {sent : Native} (hcall : w.calls[i]? = some call)
      (hstage : call.stage = .inserted index sent) :
      OrgEffect number signAndSend w (.readIndex i)
        (w.setStage i (.indexed index sent (chosenIndex number sent w.orgs)))
  | stored {i index : ℕ} {call : OrgCall P} {sent : Native} {aspLeafIndex : Option ℕ}
      {createdAt : String} {row : CreatedOrg} {orgs : Orgs} (hcall : w.calls[i]? = some call)
      (hstage : call.stage = .indexed index sent aspLeafIndex)
      (hrow : createdRow call sent aspLeafIndex createdAt = .ok row)
      (hput : putOrg w.orgs row = .ok orgs) :
      OrgEffect number signAndSend w (.putOrg i createdAt)
        ({ w with orgs := orgs }.setStage i (.stored index row))
  | failed {e : OrgEvent P} {i : ℕ} {call : OrgCall P} (hcall : w.calls[i]? = some call)
      (hstage : ∀ index row, call.stage ≠ .stored index row) :
      OrgEffect number signAndSend w e (w.setStage i .failed)

theorem effect_insertLeaf {w : World P} {i : ℕ} {call : OrgCall P}
    (hcall : w.calls[i]? = some call) (hstage : call.stage = .started) (auths : List Address)
    (hash : String) : OrgEffect number signAndSend w (.insertLeaf i auths hash)
      (w.insertLeaf signAndSend i call auths hash) := by
  have hfailed : OrgEffect number signAndSend w (.insertLeaf i auths hash) (w.setStage i .failed) := by
    refine .failed hcall fun index row => ?_
    rw [hstage]
    exact OrgStage.noConfusion
  unfold World.insertLeaf
  rw [call.keys.leaf_eq]
  dsimp only
  rw [bytesToBigIntLE_scalarToBytes]
  split
  · exact hfailed
  · rename_i env hins
    split
    · rename_i leaf index root hevent
      exact .inserted hcall hstage hins hevent
    · exact hfailed

theorem effect_putOrg {w : World P} {i index : ℕ} {call : OrgCall P} {sent : Native}
    {aspLeafIndex : Option ℕ} (hcall : w.calls[i]? = some call)
    (hstage : call.stage = .indexed index sent aspLeafIndex) (createdAt : String) :
    OrgEffect number signAndSend w (.putOrg i createdAt)
      (w.putOrg i call index sent aspLeafIndex createdAt) := by
  have hfailed : OrgEffect number signAndSend w (.putOrg i createdAt) (w.setStage i .failed) := by
    refine .failed hcall fun index row => ?_
    rw [hstage]
    exact OrgStage.noConfusion
  unfold World.putOrg
  split
  · exact hfailed
  · rename_i row hrow
    split
    · exact hfailed
    · rename_i orgs hput
      exact .stored hcall hstage hrow hput

/-- **An event has one of the effects.** -/
theorem effect_step (w : World P) (e : OrgEvent P) :
    OrgEffect number signAndSend w e (w.step number signAndSend e) := by
  cases e with
  | transact call => exact .transact call
  | createOrg params keys =>
      unfold World.step
      dsimp only
      split
      · exact .nothing
      · exact .opened params keys
  | insertLeaf i auths hash =>
      unfold World.step
      dsimp only
      split
      · rename_i adminAddress keys hcall
        exact effect_insertLeaf hcall rfl auths hash
      · exact .nothing
  | readIndex i =>
      unfold World.step
      dsimp only
      split
      · rename_i hcall
        exact .indexed hcall rfl
      · exact .nothing
  | putOrg i createdAt =>
      unfold World.step
      dsimp only
      split
      · rename_i hcall
        exact effect_putOrg hcall rfl createdAt
      · exact .nothing

/-! ### One call -/

inductive CallMove (number : String → Option ℤ) (signAndSend : SignAndSend) (w : World P)
    (e : OrgEvent P) (w' : World P) (i : ℕ) (call : OrgCall P) : OrgStage → Prop
  | stays : CallMove number signAndSend w e w' i call call.stage
  | inserted {auths : List Address} {hash : String} {leaf root : U256} {index : ℕ}
      (hstage : call.stage = .started)
      (hins : AspMembership.insertLeaf P auths call.keys.leaf.val w.contract =
        .ok ((), w'.contract))
      (hevent : w'.contract.store.events.getLast? = some (.leafAdded leaf index root)) :
      CallMove number signAndSend w e w' i call
        (.inserted index (signAndSend hash (.leafAdded leaf index root)))
  | indexed {index : ℕ} {sent : Native} (hstage : call.stage = .inserted index sent)
      (he : e = .readIndex i) :
      CallMove number signAndSend w e w' i call
        (.indexed index sent (chosenIndex number sent w.orgs))
  | stored {index : ℕ} {sent : Native} {row : CreatedOrg}
      (hstage : call.stage = .indexed index sent row.aspLeafIndex)
      (haddress : row.adminAddress = call.adminAddress)
      (hput : putOrg w.orgs row = .ok w'.orgs) :
      CallMove number signAndSend w e w' i call (.stored index row)
  | failed (hstage : ∀ index row, call.stage ≠ .stored index row) :
      CallMove number signAndSend w e w' i call .failed

section Steps

variable {w w' : World P} {e : OrgEvent P} {i j : ℕ} {call call' : OrgCall P}

theorem getElem?_setStage (w : World P) (i j : ℕ) (stage : OrgStage) :
    (w.setStage i stage).calls[j]? =
      if i = j then w.calls[j]?.map fun call => { call with stage := stage } else w.calls[j]? := by
  rw [World.setStage, List.getElem?_modify]
  split_ifs
  · rfl
  · rw [Option.map_eq_map, Option.map_id']

theorem moves_setStage (w₁ : World P) (hcalls : w₁.calls = w.calls) {stage : OrgStage}
    {moved : OrgCall P} (hmoved : w.calls[i]? = some moved)
    (hmove : CallMove number signAndSend w e (w₁.setStage i stage) i moved stage)
    (hcall : w.calls[j]? = some call) :
    ∃ stage', (w₁.setStage i stage).calls[j]? = some { call with stage := stage' } ∧
      CallMove number signAndSend w e (w₁.setStage i stage) j call stage' := by
  rw [getElem?_setStage, hcalls]
  by_cases hij : i = j
  · subst hij
    rw [hmoved, Option.some.injEq] at hcall
    subst hcall
    exact ⟨stage, by rw [if_pos rfl, hmoved]; rfl, hmove⟩
  · exact ⟨call.stage, by rw [if_neg hij, hcall], .stays⟩

theorem createdRow_ok {sent : Native} {aspLeafIndex : Option ℕ} {createdAt : String}
    {row : CreatedOrg} (h : createdRow call sent aspLeafIndex createdAt = .ok row) :
    row.aspLeafIndex = aspLeafIndex ∧ row.adminAddress = call.adminAddress := by
  obtain ⟨leaf, -, h⟩ := Result.bind_eq_ok.mp h
  obtain ⟨hex, -, h⟩ := Result.bind_eq_ok.mp h
  obtain ⟨orgId, -, h⟩ := Result.bind_eq_ok.mp h
  obtain ⟨pubKey, -, h⟩ := Result.bind_eq_ok.mp h
  cases h
  exact ⟨rfl, rfl⟩

/-- **Every call is still there**, and moved or stayed. -/
theorem OrgEffect.moves (h : OrgEffect number signAndSend w e w') (hcall : w.calls[i]? = some call) :
    ∃ stage, w'.calls[i]? = some { call with stage := stage } ∧
      CallMove number signAndSend w e w' i call stage := by
  cases h with
  | nothing => exact ⟨_, hcall, .stays⟩
  | transact => exact ⟨_, hcall, .stays⟩
  | opened params keys =>
      refine ⟨_, ?_, .stays⟩
      rw [List.getElem?_append_left (List.getElem?_eq_some_iff.mp hcall).1]
      exact hcall
  | @inserted _ _ _ _ env _ _ _ hmoved hstage hins hevent =>
      exact moves_setStage (w := w) { w with contract := env } rfl hmoved
        (.inserted hstage hins hevent) hcall
  | indexed hmoved hstage => exact moves_setStage w rfl hmoved (.indexed hstage rfl) hcall
  | @stored _ _ _ _ _ _ _ orgs hmoved hstage hrow hput =>
      obtain ⟨hindex, haddress⟩ := createdRow_ok hrow
      rw [← hindex] at hstage
      exact moves_setStage (w := w) { w with orgs := orgs } rfl hmoved
        (.stored hstage haddress hput) hcall
  | failed hmoved hstage => exact moves_setStage w rfl hmoved (.failed hstage) hcall

theorem OrgEffect.started (h : OrgEffect number signAndSend w e w') (hnone : w.calls[i]? = none)
    (hcall : w'.calls[i]? = some call) : call.stage = .started := by
  have hset : ∀ (w₁ : World P) (j : ℕ) (stage : OrgStage), w₁.calls = w.calls →
      (w₁.setStage j stage).calls[i]? ≠ some call := by
    intro w₁ j stage hcalls hsome
    rw [getElem?_setStage, hcalls, hnone, Option.map_none, ite_self] at hsome
    cases hsome
  cases h with
  | nothing => cases hnone.symm.trans hcall
  | transact => cases hnone.symm.trans hcall
  | opened params keys =>
      rw [List.getElem?_append_right (List.getElem?_eq_none_iff.mp hnone)] at hcall
      rw [List.getElem?_singleton] at hcall
      split_ifs at hcall
      cases hcall
      rfl
  | inserted => exact absurd hcall (hset _ _ _ rfl)
  | indexed => exact absurd hcall (hset _ _ _ rfl)
  | stored => exact absurd hcall (hset _ _ _ rfl)
  | failed => exact absurd hcall (hset _ _ _ rfl)

end Steps

/-! ### The invariant -/

def OrgStage.index? : OrgStage → Option ℕ
  | .inserted index _ => some index
  | .indexed index _ _ => some index
  | .stored index _ => some index
  | _ => none

/-- The contract has the leaves that it published, those of the calls under their indices, and a
stored row is in the registry. -/
structure World.Inv (w : World P) : Prop where
  tree : AspMembership.Holds P treeDepth (leavesOf w.contract) w.contract
  placed : ∀ {i : ℕ} {call : OrgCall P} {index : ℕ}, w.calls[i]? = some call →
    call.stage.index? = some index → (leavesOf w.contract)[index]? = some call.keys.leaf
  answered : ∀ {i : ℕ} {call : OrgCall P} {index : ℕ} {sent : Native}, w.calls[i]? = some call →
    call.stage = .inserted index sent → SentTransaction sent
  stored : ∀ {i : ℕ} {call : OrgCall P} {index : ℕ} {row : CreatedOrg}, w.calls[i]? = some call →
    call.stage = .stored index row → w.orgs.get call.adminAddress = some row

section Invariant

variable {w w' : World P} {e : OrgEvent P} {admin : Address}

theorem leavesOf_insertLeaf {env env' : Env AspMembership.Store} {auths : List Address} {leaf : U256}
    (hz : ZeroTable P) (h : AspMembership.Holds P treeDepth (leavesOf env) env)
    (hins : AspMembership.insertLeaf P auths leaf env = .ok ((), env')) :
    leavesOf env' = leavesOf env ++ [(leaf : F)] ∧
      AspMembership.Holds P treeDepth (leavesOf env') env' ∧
      ∃ root, env'.store.events.getLast? = some (.leafAdded leaf (leavesOf env).length root) := by
  obtain ⟨x, rfl, hholds, hevents⟩ := h.of_insertLeaf hz (by decide) (by decide) hins
  have hleaves : leavesOf env' = leavesOf env ++ [x] := by
    rw [leavesOf, hevents, List.map_append, List.map_singleton, insertedLeaf, F.natCast_val]
    rfl
  refine ⟨?_, hleaves ▸ hholds, (rootOf P treeDepth (leavesOf env ++ [x])).val, ?_⟩
  · rw [hleaves, F.natCast_val]
  · rw [hevents, List.getLast?_concat]

/-- **Leaves are only added.** -/
theorem OrgEffect.contract (hz : ZeroTable P) (h : OrgEffect number signAndSend w e w')
    (hinv : w.Inv) : leavesOf w.contract <+: leavesOf w'.contract ∧
      AspMembership.Holds P treeDepth (leavesOf w'.contract) w'.contract := by
  have hsame : leavesOf w.contract <+: leavesOf w.contract ∧
      AspMembership.Holds P treeDepth (leavesOf w.contract) w.contract :=
    ⟨List.prefix_rfl, hinv.tree⟩
  have hinsert : ∀ {auths : List Address} {leaf : U256} {env : Env AspMembership.Store},
      AspMembership.insertLeaf P auths leaf w.contract = .ok ((), env) →
        leavesOf w.contract <+: leavesOf env ∧
          AspMembership.Holds P treeDepth (leavesOf env) env := by
    intro auths leaf env hins
    obtain ⟨hleaves, hholds, -⟩ := leavesOf_insertLeaf hz hinv.tree hins
    exact ⟨hleaves ▸ List.prefix_append _ _, hholds⟩
  cases h with
  | nothing => exact hsame
  | transact call =>
      cases hcall : call.call P w.contract with
      | error fault =>
          rw [Host.after_of_error hcall]
          exact hsame
      | ok result =>
          obtain ⟨⟨⟩, env⟩ := result
          rw [Host.after_of_ok hcall]
          cases call with
          | insertLeaf auths leaf => exact hinsert hcall
          | updateAdmin auths newAdmin =>
              obtain rfl := AspMembership.updateAdmin_ok hcall
              exact ⟨List.prefix_rfl, hinv.tree.withAdmin _ _⟩
          | setAdminInsertOnly auths adminOnly =>
              obtain rfl := AspMembership.setAdminInsertOnly_ok hcall
              exact ⟨List.prefix_rfl, hinv.tree.withAdmin _ _⟩
  | opened => exact hsame
  | inserted hcall hstage hins hevent => exact hinsert hins
  | indexed => exact hsame
  | stored => exact hsame
  | failed => exact hsame

theorem putOrg_ok {orgs orgs' : Orgs} {row : CreatedOrg} (h : putOrg orgs row = .ok orgs') :
    orgs.get row.adminAddress = none ∧ orgs.put row = some orgs' := by
  unfold putOrg at h
  split at h
  · cases h
  · rename_i hnone
    split at h
    · rename_i hput
      cases h
      exact ⟨hnone, hput⟩
    · cases h

/-- **Rows stay.** -/
theorem OrgEffect.orgs (h : OrgEffect number signAndSend w e w') {key : String} {row : CreatedOrg}
    (hrow : w.orgs.get key = some row) : w'.orgs.get key = some row := by
  cases h with
  | nothing => exact hrow
  | transact => exact hrow
  | opened => exact hrow
  | inserted => exact hrow
  | indexed => exact hrow
  | stored hcall hstage hcreated hput =>
      obtain ⟨hnone, hput⟩ := putOrg_ok hput
      refine (ObjectStore.get_of_put hput).trans ?_
      rw [if_neg, hrow]
      rintro rfl
      cases hnone.symm.trans hrow
  | failed => exact hrow

theorem OrgEffect.call_cases (h : OrgEffect number signAndSend w e w') {i : ℕ} {call' : OrgCall P}
    (hcall' : w'.calls[i]? = some call') : call'.stage = .started ∨
      ∃ call stage, w.calls[i]? = some call ∧ call' = { call with stage := stage } ∧
        CallMove number signAndSend w e w' i call stage := by
  cases hcall : w.calls[i]? with
  | none => exact .inl (h.started hcall hcall')
  | some call =>
      obtain ⟨stage, hsome, hmove⟩ := h.moves hcall
      exact .inr ⟨call, stage, rfl, Option.some.inj (hcall'.symm.trans hsome), hmove⟩

theorem getElem?_of_prefix {α : Type} {xs ys : List α} (h : xs <+: ys) {i : ℕ} {x : α}
    (hx : xs[i]? = some x) : ys[i]? = some x := by
  obtain ⟨zs, rfl⟩ := h
  rw [List.getElem?_append_left (List.getElem?_eq_some_iff.mp hx).1, hx]

/-- **An event keeps the invariant.** -/
theorem World.Inv.step (hz : ZeroTable P)
    (hsdk : ∀ hash event, SentTransaction (signAndSend hash event))
    (hinv : w.Inv) (h : OrgEffect number signAndSend w e w') : w'.Inv := by
  obtain ⟨hgrows, htree⟩ := h.contract hz hinv
  refine ⟨htree, ?_, ?_, ?_⟩
  · intro i call' index hcall' hindex
    obtain hstarted | ⟨call, stage, hcall, rfl, hmove⟩ := h.call_cases hcall'
    · rw [hstarted] at hindex
      cases hindex
    · cases hmove with
      | stays => exact getElem?_of_prefix hgrows (hinv.placed hcall hindex)
      | inserted hstage hins hevent =>
          obtain ⟨hleaves, -, root, hlast⟩ := leavesOf_insertLeaf hz hinv.tree hins
          rw [hevent] at hlast
          cases hlast
          cases hindex
          rw [hleaves, List.getElem?_concat_length, F.natCast_val]
      | indexed hstage he =>
          have hbefore : call.stage.index? = some index := by
            rw [hstage]
            exact hindex
          have hplaced := hinv.placed hcall hbefore
          exact getElem?_of_prefix hgrows hplaced
      | stored hstage haddress hput =>
          have hbefore : call.stage.index? = some index := by
            rw [hstage]
            exact hindex
          have hplaced := hinv.placed hcall hbefore
          exact getElem?_of_prefix hgrows hplaced
      | failed hstage => cases hindex
  · intro i call' index sent hcall' hinserted
    obtain hstarted | ⟨call, stage, hcall, rfl, hmove⟩ := h.call_cases hcall'
    · cases hstarted.symm.trans hinserted
    · cases hmove with
      | stays => exact hinv.answered hcall hinserted
      | inserted hstage hins hevent =>
          cases hinserted
          exact hsdk _ _
      | indexed hstage he => cases hinserted
      | stored hstage haddress hput => cases hinserted
      | failed hstage => cases hinserted
  · intro i call' index row hcall' hstored
    obtain hstarted | ⟨call, stage, hcall, rfl, hmove⟩ := h.call_cases hcall'
    · cases hstarted.symm.trans hstored
    · cases hmove with
      | stays => exact h.orgs (hinv.stored hcall hstored)
      | inserted hstage hins hevent => cases hstored
      | indexed hstage he => cases hstored
      | stored hstage haddress hput =>
          cases hstored
          exact (ObjectStore.get_of_put (putOrg_ok hput).2).trans (if_pos haddress)
      | failed hstage => cases hstored

/-! ### Runs -/

/-- A new contract and a new browser. -/
def World.start (P : Poseidon2) (admin : Address) : World P :=
  ⟨AspMembership.deployed admin treeDepth, .empty, []⟩

theorem World.inv_start (hz : ZeroTable P) (admin : Address) : (World.start P admin).Inv where
  tree := AspMembership.holds_deployed hz admin (by decide)
  placed hcall := by cases hcall
  answered hcall := by cases hcall
  stored hcall := by cases hcall

theorem World.run_concat (w : World P) (events : List (OrgEvent P)) (e : OrgEvent P) :
    w.run number signAndSend (events ++ [e]) =
      (w.run number signAndSend events).step number signAndSend e := by
  rw [World.run, List.foldl_concat]
  rfl

theorem World.run_append (w : World P) (events events' : List (OrgEvent P)) :
    w.run number signAndSend (events ++ events') =
      (w.run number signAndSend events).run number signAndSend events' := List.foldl_append

/-- **A run keeps the invariant.** -/
theorem World.Inv.run (hz : ZeroTable P)
    (hsdk : ∀ hash event, SentTransaction (signAndSend hash event)) (hinv : w.Inv)
    (events : List (OrgEvent P)) : (w.run number signAndSend events).Inv := by
  induction events using List.reverseRecOn with
  | nil => exact hinv
  | append_singleton events e ih =>
      rw [World.run_concat]
      exact ih.step hz hsdk (effect_step _ e)

/-- The index that a call has chosen, beside that of its leaf. -/
def OrgStage.Chose (index : ℕ) (aspLeafIndex : Option ℕ) : OrgStage → Prop
  | .indexed i _ a => i = index ∧ a = aspLeafIndex
  | .stored i row => i = index ∧ row.aspLeafIndex = aspLeafIndex
  | _ => False

/-- **What a call has chosen** it keeps, unless it fails. -/
theorem World.chose_run (number : String → Option ℤ) (signAndSend : SignAndSend) {i index : ℕ}
    {aspLeafIndex : Option ℕ} (events : List (OrgEvent P)) :
    ∀ {w : World P} {call : OrgCall P}, w.calls[i]? = some call →
      call.stage.Chose index aspLeafIndex ∨ call.stage = .failed →
      ∃ call', (w.run number signAndSend events).calls[i]? = some call' ∧
        (call'.stage.Chose index aspLeafIndex ∨ call'.stage = .failed) := by
  induction events with
  | nil => exact fun hcall hchose => ⟨_, hcall, hchose⟩
  | cons e events ih =>
      intro w call hcall hchose
      obtain ⟨stage, hcall', hmove⟩ := (effect_step w e).moves hcall
      refine ih hcall' ?_
      cases hmove with
      | stays => exact hchose
      | inserted hstage hins hevent =>
          rw [hstage] at hchose
          obtain hchose | hfailed := hchose
          · cases hchose
          · cases hfailed
      | indexed hstage he =>
          rw [hstage] at hchose
          obtain hchose | hfailed := hchose
          · cases hchose
          · cases hfailed
      | stored hstage haddress hput =>
          rw [hstage] at hchose
          obtain hchose | hfailed := hchose
          · exact .inl hchose
          · cases hfailed
      | failed hstage => exact .inr rfl

/-- **A choice was made** by a `readIndex` of the run. -/
theorem World.exists_readIndex {i index : ℕ} {aspLeafIndex : Option ℕ}
    (events : List (OrgEvent P)) : ∀ {call : OrgCall P},
      ((World.start P admin).run number signAndSend events).calls[i]? = some call →
      call.stage.Chose index aspLeafIndex →
      ∃ before after call₀ sent, events = before ++ .readIndex i :: after ∧
        ((World.start P admin).run number signAndSend before).calls[i]? = some call₀ ∧
        call₀.stage = .inserted index sent ∧
        aspLeafIndex = chosenIndex number sent
          ((World.start P admin).run number signAndSend before).orgs := by
  induction events using List.reverseRecOn with
  | nil =>
      intro call hcall
      cases hcall
  | append_singleton events e ih =>
      intro call' hcall' hchose
      rw [World.run_concat] at hcall'
      obtain hstarted | ⟨call, stage, hcall, rfl, hmove⟩ := (effect_step _ e).call_cases hcall'
      · rw [hstarted] at hchose
        cases hchose
      · cases hmove with
        | stays =>
            obtain ⟨before, after, call₀, sent, rfl, hfound⟩ := ih hcall hchose
            exact ⟨before, after ++ [e], call₀, sent, by simp, hfound⟩
        | inserted hstage hins hevent => cases hchose
        | indexed hstage he =>
            obtain ⟨rfl, rfl⟩ := hchose
            exact ⟨events, [], call, _, by rw [he], hcall, hstage, rfl⟩
        | stored hstage haddress hput =>
            have hbefore : call.stage.Chose index aspLeafIndex := by
              rw [hstage]
              exact hchose
            obtain ⟨before, after, call₀, sent, rfl, hfound⟩ := ih hcall hbefore
            exact ⟨before, after ++ [e], call₀, sent, by simp, hfound⟩
        | failed hstage => cases hchose

end Invariant

/-! ### The export -/

theorem sliceFieldElementsDecimal_flatMap (xs : List F) :
    sliceFieldElementsDecimal (xs.flatMap scalarToBytes) xs.length =
      xs.map fun x => x.val.repr := by
  induction xs with
  | nil => rfl
  | cons x xs ih =>
      have hlen : (scalarToBytes x).length = 32 := length_scalarToBytes x
      have hrest : ∀ i, ((x :: xs).flatMap scalarToBytes).drop ((i + 1) * 32) =
          (xs.flatMap scalarToBytes).drop (i * 32) := by
        intro i
        rw [List.flatMap_cons, Nat.succ_mul, Nat.add_comm, ← List.drop_drop, List.drop_left' hlen]
      have hfirst : (((x :: xs).flatMap scalarToBytes).drop (0 * 32)).take 32 = scalarToBytes x := by
        rw [Nat.zero_mul, List.drop_zero, List.flatMap_cons, List.take_left' hlen]
      rw [List.map_cons, ← ih, sliceFieldElementsDecimal, List.length_cons, List.range_succ_eq_map,
        List.map_cons, hfirst, bytesToBigIntLE_scalarToBytes, List.map_map]
      exact congrArg _ (List.map_congr_left fun i _ => by
        rw [Function.comp_apply, Nat.succ_eq_add_one, hrest])

theorem modField_val (x : F) : modField x.val = x.val := by
  have hlt : (x.val : ℤ) < bn256Modulus := Int.ofNat_lt.mpr (F.val_lt x)
  rw [modField, Int.emod_eq_of_lt (Int.natCast_nonneg _) hlt, Int.toNat_natCast]

theorem modFieldText_val (x : F) : modFieldText x.val.repr = .ok x.val.repr := by
  rw [modFieldText, Js.bigInt_repr]
  exact congrArg (fun n => Except.ok (Nat.repr n)) (modField_val x)

theorem mapM_modFieldText (xs : List F) :
    (xs.map fun x => x.val.repr).mapM modFieldText = .ok (xs.map fun x => x.val.repr) := by
  induction xs with
  | nil => rfl
  | cons x xs ih =>
      rw [List.map_cons, List.mapM_cons, modFieldText_val, Result.ok_bind, ih]
      rfl

theorem proofText_eq {proof : Prover.MerkleProof} {siblings : List F} {index : F}
    (helements : proof.pathElements = siblings.flatMap scalarToBytes)
    (hindices : proof.pathIndices = scalarToBytes index) :
    proofText proof siblings.length =
      .ok (siblings.map fun x => x.val.repr, index.val.repr) := by
  rw [proofText, helements, sliceFieldElementsDecimal_flatMap, mapM_modFieldText, hindices,
    bytesToBigIntLE_scalarToBytes, modField_val]
  rfl

theorem mem_of_mapM_ok {α β : Type} {f : α → Result β} {xs : List α} {ys : List β}
    (h : xs.mapM f = .ok ys) {y : β} (hy : y ∈ ys) : ∃ x, f x = .ok y := by
  induction xs generalizing ys with
  | nil =>
      cases h
      cases hy
  | cons x xs ih =>
      rw [List.mapM_cons] at h
      obtain ⟨z, hz, h⟩ := Result.bind_eq_ok.mp h
      obtain ⟨zs, hzs, h⟩ := Result.bind_eq_ok.mp h
      cases h
      obtain rfl | hy := List.mem_cons.mp hy
      · exact ⟨x, hz⟩
      · exact ih hzs hy

theorem exportNote_asp {source : ExportSource} {tags : List NoteTag} {aspLeaf : String}
    {asp : List String × String} {depth : ℕ} {note : UserNote} {notes : List ExportedNote}
    (h : exportNote source tags aspLeaf asp depth note = .ok notes) :
    ∀ n ∈ notes, n.aspLeaf = aspLeaf ∧ n.aspPathElements = asp.1 ∧ n.aspPathIndex = asp.2 := by
  unfold exportNote at h
  split at h
  · cases h
    exact fun n hn => absurd hn List.not_mem_nil
  · split at h
    · cases h
      exact fun n hn => absurd hn List.not_mem_nil
    · split at h
      · cases h
        exact fun n hn => absurd hn List.not_mem_nil
      · obtain ⟨path, -, h⟩ := Result.bind_eq_ok.mp h
        obtain ⟨commitment, -, h⟩ := Result.bind_eq_ok.mp h
        obtain ⟨nullifier, -, h⟩ := Result.bind_eq_ok.mp h
        cases h
        intro n hn
        rw [List.mem_singleton.mp hn]
        exact ⟨rfl, rfl, rfl⟩

/-- The path of an index opens a leaf to a root. -/
def ExportedNote.Opens (P : Poseidon2) (note : ExportedNote) (index : ℕ) (leaf root : F) : Prop :=
  ∃ siblings : List F, siblings.length = treeDepth ∧ note.aspLeaf = leaf.val.repr ∧
    note.aspPathElements = siblings.map (fun x => x.val.repr) ∧ note.aspPathIndex = index.repr ∧
    Circuits.MerkleProof.root P (index : F) 0 siblings leaf = root

/-- An export succeeds in getting its membership path, and each of its notes opens the leaf to the
contract's root, for whatever copy of the tree that agrees with the contract. -/
def ExportOpens (contract : Env AspMembership.Store) (keys : SessionKeys P) (index : ℕ) : Prop :=
  ∀ source : ExportSource, source.asp.Mirrors P (leavesOf contract) →
    (getMerkleProof source.asp.merkleTree index).isSome ∧
    ∀ ownerAddress orgId notes,
      exportEnclaveNotes P source ownerAddress orgId keys.orgSpendingPubKey index = .ok notes →
      ∀ note ∈ notes, ∃ root : F, contract.store.root = some root.val ∧
        note.Opens P index keys.leaf root

theorem exists_getMerkleProof {leaves : List F} {asp : AspMembershipStore} {index : ℕ} {leaf : F}
    (hmirrors : asp.Mirrors P leaves) (hleaf : leaves[index]? = some leaf) :
    ∃ proof siblings, getMerkleProof asp.merkleTree index = some proof ∧
      siblings.length = treeDepth ∧ proofText proof treeDepth =
        .ok (siblings.map fun x => x.val.repr, index.repr) ∧
      Circuits.MerkleProof.root P (index : F) 0 siblings leaf = rootOf P treeDepth leaves := by
  obtain ⟨tree, hsome, hholds⟩ := hmirrors.tree
  have hlt : index < leaves.length := (List.getElem?_eq_some_iff.mp hleaf).1
  have hdepth : index < 2 ^ treeDepth := hlt.trans_le hholds.length_le
  have hval : ((index : ℕ) : F).val = index :=
    F.val_natCast_of_lt (MerkleTree.index_lt_modulus (show treeDepth ≤ 32 by decide) hdepth)
  have hlen : (Merkle.siblings P.compress (leafAt leaves) index treeDepth 0).length = treeDepth :=
    Merkle.length_siblings (leafAt leaves) index treeDepth 0
  obtain ⟨proof, hproof, helements, hindices⟩ : ∃ proof, tree.getProof 32 index = .ok proof ∧
      proof.pathElements =
        (Merkle.siblings P.compress (leafAt leaves) index treeDepth 0).flatMap scalarToBytes ∧
      proof.pathIndices = scalarToBytes (index : F) :=
    ⟨_, hholds.getProof_apply (show treeDepth < 32 by decide) hdepth, rfl, rfl⟩
  refine ⟨proof, _, ?_, hlen, ?_, ?_⟩
  · rw [hsome, getMerkleProof, if_neg (by rw [hholds.nextIndex]; omega), hproof]
    rfl
  · have htext := proofText_eq helements hindices
    rwa [hlen, hval] at htext
  · have hroot := @Merkle.pathRoot_siblings _ P.compress (leafAt leaves) index treeDepth 0
    have hnode : Merkle.node P.compress (leafAt leaves) 0 index = leaf := by
      rw [Merkle.node, leafAt, List.getD_eq_getElem?_getD, hleaf, Option.getD_some]
    rw [pow_zero, Nat.div_one, Nat.zero_add, Nat.div_eq_of_lt hdepth, hnode] at hroot
    rw [Circuits.MerkleProof.root_eq, hval]
    exact hroot

/-- The notes of an export carry the leaf and the path of the index. -/
theorem exportEnclaveNotes_asp {source : ExportSource} {ownerAddress orgId : String}
    {keys : SessionKeys P} {index : ℕ} {proof : Prover.MerkleProof} {asp : List String × String}
    {notes : List ExportedNote} (hproof : getMerkleProof source.asp.merkleTree index = some proof)
    (hasp : proofText proof treeDepth = .ok asp)
    (h : exportEnclaveNotes P source ownerAddress orgId keys.orgSpendingPubKey index = .ok notes) :
    ∀ note ∈ notes, note.aspLeaf = keys.leaf.val.repr ∧ note.aspPathElements = asp.1 ∧
      note.aspPathIndex = asp.2 := by
  unfold exportEnclaveNotes at h
  rw [keys.leaf_eq, hproof] at h
  split at h
  · cases h
  · split at h
    · cases h
    · simp only [Result.ok_bind, hasp] at h
      obtain ⟨exported, hmap, h⟩ := Result.bind_eq_ok.mp h
      cases h
      intro note hnote
      obtain ⟨ofNote, hmem, hnote⟩ := List.mem_flatten.mp hnote
      obtain ⟨userNote, hexport⟩ := mem_of_mapM_ok hmap hmem
      obtain ⟨hleaf, hpath⟩ := exportNote_asp hexport note hnote
      rw [bytesToBigIntLE_scalarToBytes, modField_val] at hleaf
      exact ⟨hleaf, hpath⟩

/-- **The index of the leaf** is enough for the export. -/
theorem exportOpens {contract : Env AspMembership.Store} {keys : SessionKeys P} {index : ℕ}
    (htree : AspMembership.Holds P treeDepth (leavesOf contract) contract)
    (hleaf : (leavesOf contract)[index]? = some keys.leaf) : ExportOpens contract keys index := by
  intro source hmirrors
  obtain ⟨proof, siblings, hproof, hlen, htext, hroot⟩ := exists_getMerkleProof hmirrors hleaf
  refine ⟨by rw [hproof]; rfl, fun ownerAddress orgId notes hexport note hnote => ?_⟩
  obtain ⟨haspLeaf, helements, hindex⟩ := exportEnclaveNotes_asp hproof htext hexport note hnote
  exact ⟨_, htree.root, siblings, hlen, haspLeaf, helements, hindex, hroot⟩

/-! ### The recorded index -/

/-- The row of a call is in the registry, with the index of the call's leaf in the contract, and an
export with that index opens the leaf. -/
structure IndexRecorded (w : World P) (call : OrgCall P) (index : ℕ) (row : CreatedOrg) : Prop where
  registered : w.orgs.get call.adminAddress = some row
  inserted : (leavesOf w.contract)[index]? = some call.keys.leaf
  recorded : row.aspLeafIndex = some index
  opens : ∀ aspLeafIndex, row.aspLeafIndex = some aspLeafIndex →
    ExportOpens w.contract call.keys aspLeafIndex

/-- Every call of `createOrg` that succeeded has recorded the index of its leaf. -/
def AllRecorded (w : World P) : Prop :=
  ∀ (i : ℕ) (call : OrgCall P) (index : ℕ) (row : CreatedOrg), w.calls[i]? = some call →
    call.stage = .stored index row → IndexRecorded w call index row

/-- Call `i` has succeeded. -/
def Succeeded (w : World P) (i : ℕ) : Prop :=
  ∃ (call : OrgCall P) (index : ℕ) (row : CreatedOrg),
    w.calls[i]? = some call ∧ call.stage = .stored index row

/-- The registry has as many rows as leaves were in the contract before that of call `i`, if the call
is about to look for its index. -/
def Counts (w : World P) (i : ℕ) : Prop :=
  ∀ (call : OrgCall P) (index : ℕ) (sent : Native), w.calls[i]? = some call →
    call.stage = .inserted index sent → w.orgs.records.length = index

theorem step_readIndex (number : String → Option ℤ) (signAndSend : SignAndSend) {w : World P}
    {i index : ℕ} {call : OrgCall P} {sent : Native}
    (hcall : w.calls[i]? = some call) (hstage : call.stage = .inserted index sent) :
    (w.step number signAndSend (.readIndex i)).calls[i]? =
      some { call with stage := .indexed index sent (chosenIndex number sent w.orgs) } := by
  obtain ⟨adminAddress, keys, stage⟩ := call
  obtain rfl : stage = _ := hstage
  unfold World.step
  dsimp only
  rw [hcall]
  dsimp only
  rw [getElem?_setStage, if_pos rfl, hcall]
  rfl

/-- **The recorded index is that of the leaf**, for each call that succeeds in a run, exactly if the
registry had as many rows, when the call looked for the index, as leaves were in the contract before
its own. -/
theorem recorded_iff (number : String → Option ℤ) (hz : ZeroTable P)
    (hsdk : ∀ hash event, SentTransaction (signAndSend hash event)) (admin : Address)
    (events : List (OrgEvent P)) :
    AllRecorded ((World.start P admin).run number signAndSend events) ↔
      ∀ before i after, events = before ++ .readIndex i :: after →
        Succeeded ((World.start P admin).run number signAndSend events) i →
        Counts ((World.start P admin).run number signAndSend before) i := by
  have hinv : ∀ es, ((World.start P admin).run number signAndSend es).Inv := fun es =>
    (World.inv_start hz admin).run hz hsdk es
  constructor
  · intro hrecorded before i after hevents hsucceeded call₀ index₀ sent hcall₀ hstage₀
    obtain ⟨call, index, row, hcall, hstage⟩ := hsucceeded
    have hrow := (hrecorded i call index row hcall hstage).recorded
    have hrun : (World.start P admin).run number signAndSend events =
        (((World.start P admin).run number signAndSend before).step number signAndSend
          (.readIndex i)).run number signAndSend after := by
      rw [hevents, World.run_append]
      rfl
    obtain ⟨call', hcall', hchose⟩ := World.chose_run number signAndSend after
      (step_readIndex number signAndSend hcall₀ hstage₀) (.inl ⟨rfl, rfl⟩)
    rw [← hrun, hcall, Option.some.injEq] at hcall'
    subst hcall'
    rw [hstage] at hchose
    obtain ⟨rfl, hchosen⟩ | hfailed := hchose
    · rw [((hinv before).answered hcall₀ hstage₀).chosenIndex_eq, hrow] at hchosen
      exact (Option.some.inj hchosen).symm
    · cases hfailed
  · intro hcounts i call index row hcall hstage
    have hchose : call.stage.Chose index row.aspLeafIndex := by
      rw [hstage]
      exact ⟨rfl, rfl⟩
    obtain ⟨before, after, call₀, sent, rfl, hcall₀, hstage₀, hindex⟩ :=
      World.exists_readIndex events hcall hchose
    have hcount := hcounts before i after rfl ⟨call, index, row, hcall, hstage⟩ call₀ index sent
      hcall₀ hstage₀
    have hrow : row.aspLeafIndex = some index := by
      rw [hindex, ((hinv before).answered hcall₀ hstage₀).chosenIndex_eq, hcount]
    have hplaced := (hinv _).placed hcall (show call.stage.index? = some index by rw [hstage]; rfl)
    refine ⟨(hinv _).stored hcall hstage, hplaced, hrow, fun aspLeafIndex hasp => ?_⟩
    obtain rfl := Option.some.inj (hasp.symm.trans hrow)
    exact exportOpens (hinv _).tree hplaced

/-! ### A sample history -/

/-- What the SDK resolves to. -/
def sampleSignAndSend : SignAndSend := fun hash _ => .object [
  ("sendTransactionResponse", .object [("status", .string "PENDING"), ("hash", .string hash)]),
  ("getTransactionResponse", .object [("status", .string "SUCCESS"), ("txHash", .string hash)])]

theorem sentTransaction_sample (hash : String) (event : AspMembership.Event) :
    SentTransaction (sampleSignAndSend hash event) := by
  refine ⟨?_, ?_, ?_, ?_⟩ <;> simp [sampleSignAndSend, Native.prop]

def sampleOrgKeys : SessionKeys zeroPoseidon2 where
  orgSpendingPrivKey := scalarToBytes 1
  orgSpendingPubKey := scalarToBytes (Circuits.publicKey zeroPoseidon2 1)
  derived := derivePublicKey_scalarToBytes 1
  encryptionPublicKey := List.replicate 32 2
  encryptionPrivateKey := List.replicate 32 3

/-- `createOrg`, without anything in between. -/
def sampleCreateOrg : List (OrgEvent zeroPoseidon2) := [
  .createOrg ⟨"GADMIN", "CASP", true⟩ sampleOrgKeys, .insertLeaf 0 [.account 1] "hash",
  .readIndex 0, .putOrg 0 "2026-01-01T00:00:00.000Z"]

/-- A leaf of another party, then `createOrg`. -/
def sampleHistory : List (OrgEvent zeroPoseidon2) :=
  .transact (.insertLeaf [.account 1] 7) :: sampleCreateOrg

theorem recorded_iff_sample :
    AllRecorded ((World.start zeroPoseidon2 (.account 1)).run (fun _ => none) sampleSignAndSend
      sampleHistory) ↔
      ∀ before i after, sampleHistory = before ++ .readIndex i :: after →
        Succeeded ((World.start zeroPoseidon2 (.account 1)).run (fun _ => none) sampleSignAndSend
          sampleHistory) i →
        Counts ((World.start zeroPoseidon2 (.account 1)).run (fun _ => none) sampleSignAndSend
          before) i :=
  recorded_iff (fun _ => none) zeroTable_zeroPoseidon2 sentTransaction_sample (.account 1)
    sampleHistory

theorem exists_createdRow (call : OrgCall P) (sent : Native) (aspLeafIndex : Option ℕ)
    (createdAt : String) : ∃ row, createdRow call sent aspLeafIndex createdAt = .ok row := by
  unfold createdRow deriveOrgId
  rw [call.keys.leaf_eq]
  simp only [Result.ok_bind, fieldToHex_scalarToBytes, call.keys.orgSpendingPubKey_scalar]
  exact ⟨_, rfl⟩

theorem putOrg_empty (row : CreatedOrg) : ∃ orgs, putOrg .empty row = .ok orgs := by
  have hnone : (ObjectStore.empty : Orgs).get row.adminAddress = none := rfl
  obtain ⟨orgs, hput, -⟩ := ObjectStore.exists_put_of_lt (s := (.empty : Orgs)) (r := row)
    (fun x hx => by cases hx) (fun f hf x hx => by cases hx)
  refine ⟨orgs, ?_⟩
  unfold putOrg
  rw [hnone]
  dsimp only
  rw [hput]

/-- `createOrg` in a new browser, with nothing in between, records the index 0. -/
theorem createOrg_alone (number : String → Option ℤ) {contract env : Env AspMembership.Store}
    {keys : SessionKeys P} {auths : List Address} {leaf root : U256} {index : ℕ}
    (hins : AspMembership.insertLeaf P auths keys.leaf.val contract = .ok ((), env))
    (hevent : env.store.events.getLast? = some (.leafAdded leaf index root)) :
    ∃ call row, (World.run number sampleSignAndSend ⟨contract, .empty, []⟩ [
        .createOrg ⟨"GADMIN", "CASP", true⟩ keys, .insertLeaf 0 auths "hash", .readIndex 0,
        .putOrg 0 "2026-01-01T00:00:00.000Z"]).calls[0]? = some call ∧
      call.stage = .stored index row ∧ row.aspLeafIndex = some 0 := by
  have hcheck : checkCreateOrg .empty ⟨"GADMIN", "CASP", true⟩ = .ok () := by
    unfold checkCreateOrg
    rw [if_neg (by decide), if_neg (by decide), if_neg (by decide)]
    rfl
  have hopened : World.step number sampleSignAndSend (⟨contract, .empty, []⟩ : World P)
      (.createOrg ⟨"GADMIN", "CASP", true⟩ keys) =
        ⟨contract, .empty, [⟨"GADMIN", keys, .started⟩]⟩ := by
    unfold World.step
    dsimp only
    rw [hcheck]
    rfl
  have hinserted : World.step number sampleSignAndSend
      (⟨contract, .empty, [⟨"GADMIN", keys, .started⟩]⟩ : World P) (.insertLeaf 0 auths "hash") =
        ⟨env, .empty, [⟨"GADMIN", keys, .inserted index
          (sampleSignAndSend "hash" (.leafAdded leaf index root))⟩]⟩ := by
    change World.insertLeaf sampleSignAndSend ⟨contract, .empty, [⟨"GADMIN", keys, .started⟩]⟩ 0
      ⟨"GADMIN", keys, .started⟩ auths "hash" = _
    unfold World.insertLeaf
    rw [keys.leaf_eq]
    dsimp only
    rw [bytesToBigIntLE_scalarToBytes, hins]
    dsimp only
    rw [hevent]
    rfl
  generalize hsent : sampleSignAndSend "hash" (.leafAdded leaf index root) = sent at hinserted
  have hshape : SentTransaction sent := hsent ▸ sentTransaction_sample _ _
  have hindexed : World.step number sampleSignAndSend
      (⟨env, .empty, [⟨"GADMIN", keys, .inserted index sent⟩]⟩ : World P) (.readIndex 0) =
        ⟨env, .empty, [⟨"GADMIN", keys, .indexed index sent (some 0)⟩]⟩ := by
    change World.setStage _ 0 (.indexed index sent (chosenIndex number sent .empty)) = _
    rw [hshape.chosenIndex_eq]
    rfl
  obtain ⟨row, hrow⟩ := exists_createdRow (⟨"GADMIN", keys, .indexed index sent (some 0)⟩ : OrgCall P)
    sent (some 0) "2026-01-01T00:00:00.000Z"
  obtain ⟨orgs, hput⟩ := putOrg_empty row
  have hstored : World.step number sampleSignAndSend
      (⟨env, .empty, [⟨"GADMIN", keys, .indexed index sent (some 0)⟩]⟩ : World P)
      (.putOrg 0 "2026-01-01T00:00:00.000Z") =
        ⟨env, orgs, [⟨"GADMIN", keys, .stored index row⟩]⟩ := by
    change World.putOrg _ 0 ⟨"GADMIN", keys, .indexed index sent (some 0)⟩ index sent (some 0)
      "2026-01-01T00:00:00.000Z" = _
    unfold World.putOrg
    rw [hrow]
    dsimp only
    rw [hput]
    rfl
  refine ⟨⟨"GADMIN", keys, .stored index row⟩, row, ?_, rfl, (createdRow_ok hrow).1⟩
  rw [World.run, List.foldl_cons, hopened, List.foldl_cons, hinserted, List.foldl_cons, hindexed,
    List.foldl_cons, hstored]
  rfl

/-- **A leaf of another party first**: the leaf has the index 1, and 0 is recorded. -/
theorem foreign_leaf_first : ∃ call row,
    ((World.start zeroPoseidon2 (.account 1)).run (fun _ => none) sampleSignAndSend
      sampleHistory).calls[0]? = some call ∧ call.stage = .stored 1 row ∧
    row.aspLeafIndex = some 0 ∧
    ¬ AllRecorded ((World.start zeroPoseidon2 (.account 1)).run (fun _ => none) sampleSignAndSend
      sampleHistory) := by
  have hseven : ((7 : ℕ) : F).val = 7 := F.val_natCast_of_lt (by decide)
  have hmay : AspMembership.MayInsert [.account 1] (AspMembership.deployed (.account 1) treeDepth) :=
    AspMembership.mayInsert_deployed List.mem_cons_self
  have hstart := AspMembership.holds_deployed zeroTable_zeroPoseidon2 (.account 1)
    (show treeDepth ≤ 32 by decide)
  obtain ⟨env, hins, hholds, hmay, -⟩ := hstart.insertLeaf_apply zeroTable_zeroPoseidon2
    (by decide) hmay (by decide) ((7 : ℕ) : F)
  obtain ⟨env', hins', -, -, hevents⟩ := hholds.insertLeaf_apply zeroTable_zeroPoseidon2
    (by decide) hmay (by decide) sampleOrgKeys.leaf
  have hlast := congrArg List.getLast? hevents
  rw [List.getLast?_concat] at hlast
  obtain ⟨call, row, hcall, hstage, hrow⟩ := createOrg_alone (fun _ => none) hins' hlast
  have hforeign : World.step (fun _ => none) sampleSignAndSend
      (World.start zeroPoseidon2 (.account 1)) (.transact (.insertLeaf [.account 1] 7)) =
        ⟨env, .empty, []⟩ := by
    rw [hseven] at hins
    change World.mk (Host.after (AspMembership.insertLeaf zeroPoseidon2 [.account 1] 7)
      (AspMembership.deployed (.account 1) treeDepth)) _ _ = _
    rw [Host.after_of_ok hins]
    rfl
  have hrun : (World.start zeroPoseidon2 (.account 1)).run (fun _ => none) sampleSignAndSend
      sampleHistory = World.run (fun _ => none) sampleSignAndSend ⟨env, .empty, []⟩
        sampleCreateOrg := by
    rw [sampleHistory, World.run, List.foldl_cons, hforeign, World.run]
  rw [hrun]
  refine ⟨call, row, hcall, hstage, hrow, fun hrecorded => ?_⟩
  have hindex := (hrecorded 0 call _ row hcall hstage).recorded
  rw [hrow] at hindex
  cases hindex

end Enclave.App

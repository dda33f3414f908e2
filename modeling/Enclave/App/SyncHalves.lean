import Enclave.App.SyncStatus

/-! # The pool's half of a synchronisation

`startSync` stands here twice: with the pool alone (`SyncController`) and with both contracts and
the notes (`SyncStatus`).  Where the first is given what the second is answered about the pool, they
leave the same records, tree and last ledgers, and report the same status (`startSync_session`). -/

namespace Enclave.App

open Prover

/-! ### Two fetches -/

section Fetches

variable {σ σ' ε : Type} {R : σ → σ' → Prop} {rpc rpc' : EventRpc ε} {options : FetchOptions σ ε}
  {options' : FetchOptions σ' ε} {latest current : ℕ}

/-- Two fetches ask for the same, and their callbacks do the same. -/
structure Alike (R : σ → σ' → Prop) (rpc rpc' : EventRpc ε) (options : FetchOptions σ ε)
    (options' : FetchOptions σ' ε) : Prop where
  getEvents : rpc.getEvents = rpc'.getEvents
  pageSize : options.pageSize = options'.pageSize
  onPage : ∃ f f', options.onPage = some f ∧ options'.onPage = some f' ∧
    ∀ page cursor cursor', Wasm.Simulates R (f page cursor) (f' page cursor')

theorem Alike.takePage (h : Alike R rpc rpc' options options') (page : List ε)
    (cursor : Option String) (p p' : Progress ε) :
    Wasm.Simulates R (takePage rpc options page cursor p) (takePage rpc' options' page cursor p') := by
  obtain ⟨f, f', hf, hf', hpage⟩ := h.onPage
  unfold App.takePage
  rw [hf, hf']
  exact Wasm.simulates_bind (hpage _ _ _) fun _ _ => Wasm.simulates_pure _ _

/-- **The loops do the same.** -/
theorem Alike.fetchChunks (h : Alike R rpc rpc' options options') (p p' : Progress ε) :
    Wasm.Simulates R (fetchChunks rpc options latest current p)
      (fetchChunks rpc' options' latest current p') := by
  induction hd : latest + 1 - current using Nat.strong_induction_on generalizing current p p' with
  | _ d ih =>
  rcases Nat.lt_or_ge latest current with hend | hle
  · rw [fetchChunks_done hend, fetchChunks_done hend]
    exact Wasm.simulates_pure p p'
  · have hnext := le_chunkEnd hle
    cases hanswer : rpc.getEvents current (chunkEnd latest current) options.pageSize with
    | error message =>
        rw [fetchChunks_error hle hanswer]
        rw [h.getEvents, h.pageSize] at hanswer
        rw [fetchChunks_error hle hanswer]
        exact Wasm.simulates_throw _ _
    | outOfRange oldest newest =>
        by_cases hlt : current < oldest
        · rw [fetchChunks_early hle hlt hanswer]
          rw [h.getEvents, h.pageSize] at hanswer
          rw [fetchChunks_early hle hlt hanswer]
          exact ih _ (by omega) p p' rfl
        · rw [fetchChunks_late hle (not_lt.mp hlt) hanswer]
          rw [h.getEvents, h.pageSize] at hanswer
          rw [fetchChunks_late hle (not_lt.mp hlt) hanswer]
          exact Wasm.simulates_throw _ _
    | events page cursor =>
        rw [fetchChunks_events hle hanswer]
        rw [h.getEvents, h.pageSize] at hanswer
        rw [fetchChunks_events hle hanswer]
        refine Wasm.simulates_bind ?_ fun q q' => ih _ (by omega) q q' rfl
        unfold handPage
        split_ifs
        · exact Wasm.simulates_pure p p'
        · exact h.takePage page cursor p p'

theorem Alike.fetchAllContractEvents (h : Alike R rpc rpc' options options') {start : ℕ}
    (hstart : options.startLedger = some start) (hstart' : options'.startLedger = some start)
    (hpos : start ≠ 0) (hlast : lastLedger rpc options = lastLedger rpc' options') {s : σ} {s' : σ'}
    (hR : R s s') :
    (fetchAllContractEvents rpc options s).1.success =
        (fetchAllContractEvents rpc' options' s').1.success ∧
      R (fetchAllContractEvents rpc options s).2 (fetchAllContractEvents rpc' options' s').2 := by
  have hloop := @h.fetchChunks _ _ _ _ _ _ _ _ (lastLedger rpc options) start
    ⟨options.cursor, 0, []⟩ ⟨options'.cursor, 0, []⟩ s s' hR
  rw [App.fetchAllContractEvents, App.fetchAllContractEvents, hstart, hstart',
    if_neg (fun h => hpos h.1), if_neg (fun h => hpos h.1), ← hlast]
  dsimp only [Option.elim_some]
  generalize (App.fetchChunks rpc options (lastLedger rpc options) start
    ⟨options.cursor, 0, []⟩).exec s = x at hloop
  generalize (App.fetchChunks rpc' options' (lastLedger rpc options) start
    ⟨options'.cursor, 0, []⟩).exec s' = x' at hloop
  obtain ⟨r, t⟩ := x
  obtain ⟨r', t'⟩ := x'
  obtain ⟨hok, hR'⟩ := hloop
  cases r with
  | error e =>
      cases r' with
      | error e' => exact ⟨rfl, hR'⟩
      | ok q' => cases hok
  | ok q =>
      cases r' with
      | error e' => cases hok
      | ok q' => exact ⟨rfl, hR'⟩

theorem latestLedger_of_success {s : σ}
    (h : (fetchAllContractEvents rpc options s).1.success = true) :
    (fetchAllContractEvents rpc options s).1.latestLedger = some (lastLedger rpc options) := by
  unfold App.fetchAllContractEvents at h ⊢
  split_ifs at h ⊢
  dsimp only at h ⊢
  split at h
  · rfl
  · cases h

end Fetches

namespace Controller

/-! ### The two models -/

/-- What a session without ASP membership keeps of the app. -/
def AppState.session (s : AppState) : Session where
  stores := s.stores
  metadata := s.metadata.map fun m => ⟨m.poolSync.lastLedger, m.aspMembershipSync.lastLedger⟩

def reported : App.SyncStatus → Status
  | .broken => .broken
  | .complete => .complete
  | .error _ => .error

variable {P : Poseidon2} {addressText : Address → String} {q : SyncRun} {r : SyncInput}
  {s : AppState} {config : RetentionConfig} {m : SyncMetadata} {stores : AppStore} {x : Run}

/-- A run with both contracts is answered as one with the pool alone: every answer comes, and the
fetch of the membership succeeds if it is said to. -/
structure Extends (P : Poseidon2) (addressText : Address → String) (s : AppState) (q : SyncRun)
    (r : SyncInput) : Prop where
  latestLedger : r.latestLedger = .ok q.latestLedger
  retention : ∃ config, r.retention = .ok config ∧ config.window = q.window ∧
    fetchSucceeds r.aspRpc (aspOptions P r config q.latestLedger s.startMetadata) s.run =
      q.aspSuccess
  checked : ∃ config, r.checkedRetention = .ok config ∧ config.window = q.window ∧
    r.checkedLedger = .ok q.checkedLedger
  poolRpc : ∃ rpc, r.poolRpc = some rpc ∧ rpc.latestLedger = q.latestLedger ∧
    rpc.getEvents = (q.rpc addressText).getEvents
  aspRpc : ∀ rpc ∈ r.aspRpc, rpc.latestLedger = q.latestLedger
  notes : ∃ notes, r.notes = .ok notes

/-- The run has these stores; the rest of the app is as before. -/
def OnStores (s : AppState) (x : Run) (stores : AppStore) : Prop :=
  x.app = { s with stores := stores }

/-- The runs have the same membership leaves, and the first these stores and the app's metadata. -/
def OnAsp (s : AppState) (stores : AppStore) (x x' : Run) : Prop :=
  x.app = { s with stores := stores, asp := x'.app.asp }

theorem gapBroken_iff (hwindow : config.window = q.window) :
    s.session.GapBroken q ↔ (checkSyncGap s.metadata config q.checkedLedger).status = .broken := by
  have hlast : s.session.lastSyncedLedger = s.metadata.elim 0 SyncMetadata.lastSyncedLedger := by
    unfold Session.lastSyncedLedger AppState.session
    cases s.metadata <;> rfl
  rw [checkSyncGap_broken_iff, Session.GapBroken, hlast, ← hwindow]
  omega

/-! ### The fetches -/

theorem simulates_onStores {α : Type} (m : Wasm AppStore α) :
    Wasm.Simulates (OnStores s) (onStores m) m := by
  intro x stores h
  have hexec : (onStores m).exec x = ((m.exec x.app.stores).1,
    { x with app := { x.app with stores := (m.exec x.app.stores).2 } }) := rfl
  rw [hexec, h]
  exact ⟨rfl, rfl⟩

theorem simulates_onAsp {α : Type} (m : Wasm AspMembershipStore α) :
    Wasm.Simulates (OnAsp s stores) (onAsp m) (onAsp m) := by
  intro x x' h
  have hexec (x : Run) : (onAsp m).exec x = ((m.exec x.app.asp).1,
    { x with app := { x.app with asp := (m.exec x.app.asp).2 } }) := rfl
  rw [hexec, hexec, h]
  exact ⟨rfl, rfl⟩

theorem alike_pool {rpc : EventRpc NativeEvent}
    (hevents : rpc.getEvents = (q.rpc addressText).getEvents) :
    Alike (OnStores s) rpc (q.rpc addressText) (poolOptions P r config q.latestLedger m)
      (q.options P) := by
  refine ⟨hevents, rfl, _, _, rfl, rfl, fun page cursor cursor' => ?_⟩
  have hcount : Wasm.Simulates (OnStores s)
      (modify fun x => { x with poolEventCount := x.poolEventCount + page.length })
      (pure () : Wasm AppStore Unit) := fun _ _ h => ⟨rfl, h⟩
  have hpage := Wasm.simulates_bind (simulates_onStores (s := s) (onPage P page cursor))
    fun _ _ => hcount
  rw [bind_pure_unit] at hpage
  exact hpage

theorem alike_asp (rpc : EventRpc NativeEvent) (latestLedger : ℕ) :
    Alike (OnAsp s stores) rpc rpc (aspOptions P r config latestLedger m)
      (aspOptions P r config latestLedger m) :=
  ⟨rfl, rfl, _, _, rfl, rfl, fun _ _ _ => Wasm.simulates_bind (simulates_onAsp _)
    fun _ _ _ _ h => ⟨rfl, h⟩⟩

/-- **The fetch of the pool** is that of the pool alone. -/
theorem Extends.exec_fetchAll_pool (h : Extends P addressText s q r)
    (hwindow : config.window = q.window) : ∃ result x,
    (fetchAll r.poolRpc (poolOptions P r config q.latestLedger m)).exec s.run = (.ok result, x) ∧
      result.success = (fetchAllPoolEvents P addressText q s.stores).1.success ∧
      OnStores s x (fetchAllPoolEvents P addressText q s.stores).2 ∧
      (result.success = true → result.latestLedger = some q.latestLedger) := by
  obtain ⟨rpc, hrpc, hledger, hevents⟩ := h.poolRpc
  have hpos : q.startLedger ≠ 0 := Nat.ne_of_gt (Nat.lt_of_lt_of_le Nat.one_pos (le_max_left _ _))
  have hstart : (poolOptions P r config q.latestLedger m).startLedger = some q.startLedger := by
    rw [poolOptions, fetchOptions, hwindow]
    rfl
  have hlast : lastLedger rpc (poolOptions P r config q.latestLedger m) = q.latestLedger := by
    rw [lastLedger, hledger, poolOptions, fetchOptions, Option.filter_some]
    split_ifs <;> rfl
  have hlast' : lastLedger (q.rpc addressText) (q.options P) = q.latestLedger := by
    rw [lastLedger, SyncRun.options, Option.filter_some]
    split_ifs <;> rfl
  obtain ⟨hsuccess, hstores⟩ := (alike_pool hevents).fetchAllContractEvents hstart rfl hpos
    (hlast.trans hlast'.symm) (show OnStores s s.run s.stores from rfl)
  rw [hrpc]
  exact ⟨_, _, rfl, hsuccess, hstores, fun h =>
    (latestLedger_of_success h).trans (congrArg some hlast)⟩

/-- The half of the pool, if the events were fetched: it throws if the tree cannot be rebuilt. -/
theorem exec_syncPool_of_success {result : FetchResult NativeEvent}
    (hexec : (fetchAll r.poolRpc (poolOptions P r config q.latestLedger m)).exec s.run =
      (.ok result, x)) (hsuccess : result.success = true)
    (hlast : result.latestLedger = some q.latestLedger) (hx : OnStores s x stores) : ∃ x',
    OnStores s x' ((onPool (rebuildTree P)).exec stores).2 ∧
      (((onPool (rebuildTree P)).exec stores).1.isOk = false ∧
          (∃ e, (syncPool P r config q.latestLedger m).exec s.run = (.error e, x')) ∨
        ((onPool (rebuildTree P)).exec stores).1.isOk = true ∧
          (syncPool P r config q.latestLedger m).exec s.run = (.ok (true,
            ⟨⟨q.latestLedger, result.cursor, false⟩, m.aspMembershipSync⟩), x')) := by
  obtain ⟨hok, hx'⟩ := simulates_onStores (onPool (rebuildTree P)) x stores hx
  refine ⟨_, hx', ?_⟩
  rw [syncPool, Wasm.exec_bind_of_ok hexec, if_pos hsuccess, ← hok]
  cases hrebuild : (onStores (onPool (rebuildTree P))).exec x with
  | mk rebuilt x₁ =>
      cases rebuilt with
      | error e =>
          rw [Wasm.exec_bind_of_error hrebuild]
          exact .inl ⟨rfl, e, rfl⟩
      | ok count =>
          rw [Wasm.exec_bind_of_ok hrebuild, hlast]
          exact .inr ⟨rfl, rfl⟩

/-- **The fetch of the membership** leaves the stores alone. -/
theorem Extends.exec_fetchAll_asp (h : Extends P addressText s q r) (hx : OnStores s x stores)
    (hsuccess : fetchSucceeds r.aspRpc (aspOptions P r config q.latestLedger m) s.run =
      q.aspSuccess) : ∃ result asp x',
    (fetchAll r.aspRpc (aspOptions P r config q.latestLedger m)).exec x = (.ok result, x') ∧
      x'.app = { s with stores := stores, asp := asp } ∧ result.success = q.aspSuccess ∧
      (result.success = true → result.latestLedger = some q.latestLedger) := by
  cases hrpc : r.aspRpc with
  | none =>
      rw [hrpc] at hsuccess
      exact ⟨_, s.asp, x, rfl, hx, hsuccess, nofun⟩
  | some rpc =>
      have hpos : max 1 (q.latestLedger + 1 - config.window) ≠ 0 :=
        Nat.ne_of_gt (Nat.lt_of_lt_of_le Nat.one_pos (le_max_left _ _))
      have hlast : lastLedger rpc (aspOptions P r config q.latestLedger m) = q.latestLedger := by
        rw [lastLedger, h.aspRpc rpc hrpc, aspOptions, fetchOptions, Option.filter_some]
        split_ifs <;> rfl
      obtain ⟨hsame, hasp⟩ := (@alike_asp P r s config m stores rpc
        q.latestLedger).fetchAllContractEvents rfl rfl hpos rfl (show OnAsp s stores x s.run from hx)
      rw [hrpc] at hsuccess
      exact ⟨_, _, _, rfl, hasp, hsame.trans hsuccess, fun h =>
        (latestLedger_of_success h).trans (congrArg some hlast)⟩

theorem Extends.exec_syncAsp (h : Extends P addressText s q r) (hx : OnStores s x stores)
    (hsuccess : fetchSucceeds r.aspRpc (aspOptions P r config q.latestLedger s.startMetadata)
      s.run = q.aspSuccess)
    (hm : m.aspMembershipSync = s.startMetadata.aspMembershipSync) : ∃ c asp x',
    (syncAsp P r config q.latestLedger m).exec x =
      (.ok (q.aspSuccess, { m with aspMembershipSync := c }), x') ∧
      x'.app = { s with stores := stores, asp := asp } ∧
      c.lastLedger = (if q.aspSuccess then q.latestLedger else m.aspMembershipSync.lastLedger) := by
  have hoptions : aspOptions P r config q.latestLedger m =
      aspOptions P r config q.latestLedger s.startMetadata := by
    rw [aspOptions, hm, aspOptions]
  rw [← hoptions] at hsuccess
  obtain ⟨result, asp, x', hexec, hx', hresult, hlast⟩ := h.exec_fetchAll_asp hx hsuccess
  rw [syncAsp, Wasm.exec_bind_of_ok hexec, ← hresult]
  cases hcase : result.success with
  | false => exact ⟨m.aspMembershipSync, asp, x', rfl, hx', rfl⟩
  | true =>
      refine ⟨_, asp, x', rfl, hx', ?_⟩
      rw [hlast hcase]
      rfl

/-! ### The runs -/

theorem Extends.exec_syncRun_broken (h : Extends P addressText s q r) (hgap : s.session.GapBroken q) :
    ∃ status x, (syncRun P r).exec s.run = (.ok status, x) ∧ status.status = .broken ∧
      x.app = { s with metadata := some { s.startMetadata with
        poolSync := { s.startMetadata.poolSync with syncBroken := true }
        aspMembershipSync := { s.startMetadata.aspMembershipSync with syncBroken := true } } } := by
  obtain ⟨config, hconfig, -, -⟩ := h.retention
  obtain ⟨checked, hchecked, hwindow, hledger⟩ := h.checked
  have hmetadata : s.run.app.metadata = s.metadata := rfl
  rw [syncRun, Wasm.exec_bind_of_ok (Wasm.exec_get _)]
  simp only [h.latestLedger, hconfig, hchecked, hledger, Wasm.ofResult, pure_bind]
  rw [Wasm.exec_bind_of_ok (Wasm.exec_get _), hmetadata, if_pos ((gapBroken_iff hwindow).mp hgap)]
  exact ⟨_, _, rfl, rfl, rfl⟩

theorem Extends.exec_syncContracts (h : Extends P addressText s q r) {m' : SyncMetadata} {b : Bool}
    (hasp : fetchSucceeds r.aspRpc (aspOptions P r config q.latestLedger s.startMetadata) s.run =
      q.aspSuccess)
    (hpool : (syncPool P r config q.latestLedger m).exec s.run = (.ok (b, m'), x))
    (hm : m'.aspMembershipSync = s.startMetadata.aspMembershipSync) (hx : OnStores s x stores) :
    ∃ status x', (syncContracts P r config q.latestLedger m).exec s.run = (.ok status, x') ∧
      status.status = .complete ∧ x'.app.session = ⟨stores, some ⟨m'.poolSync.lastLedger,
        if q.aspSuccess then q.latestLedger else s.startMetadata.aspMembershipSync.lastLedger⟩⟩ := by
  obtain ⟨notes, hnotes⟩ := h.notes
  obtain ⟨c, asp, x', hexec, hx', hlast⟩ := h.exec_syncAsp hx hasp hm
  rw [syncContracts, Wasm.exec_bind_of_ok hpool]
  dsimp only
  rw [Wasm.exec_bind_of_ok hexec, hnotes]
  refine ⟨_, _, rfl, rfl, ?_⟩
  rw [← hm, ← hlast]
  change AppState.session { x'.app with metadata := _ } = _
  rw [hx']
  rfl

/-- **Both models of `startSync` agree** on the stores, the last ledgers and the status. -/
theorem startSync_session (h : Extends P addressText s q r) :
    (startSync P r s).1.status = reported (App.startSync P addressText q s.session).1 ∧
      (startSync P r s).2.session = (App.startSync P addressText q s.session).2 := by
  have hlasts : s.session.metadata.getD ⟨0, 0⟩ =
      ⟨s.startMetadata.poolSync.lastLedger, s.startMetadata.aspMembershipSync.lastLedger⟩ := by
    unfold AppState.session AppState.startMetadata
    cases s.metadata <;> rfl
  by_cases hgap : s.session.GapBroken q
  · obtain ⟨status, x, hexec, hstatus, hx⟩ := h.exec_syncRun_broken hgap
    rw [startSync, hexec, App.startSync, if_pos hgap, hlasts]
    refine ⟨hstatus, ?_⟩
    change x.app.session = _
    rw [hx]
    rfl
  · obtain ⟨config, hconfig, hwindow, hasp⟩ := h.retention
    obtain ⟨checked, hchecked, hcheckedWindow, hledger⟩ := h.checked
    have hstarts : Starts r s q.latestLedger config := ⟨h.latestLedger, hconfig, checked,
      q.checkedLedger, hchecked, hledger, fun hbroken => hgap ((gapBroken_iff hcheckedWindow).mpr
        hbroken)⟩
    obtain ⟨result, x, hexec, hsuccess, hx, hlast⟩ :=
      @Extends.exec_fetchAll_pool P addressText q r s config s.startMetadata h hwindow
    have hstores : s.session.stores = s.stores := rfl
    rw [startSync, hstarts.exec_syncRun, App.startSync, if_neg hgap, hlasts, hstores]
    generalize fetchAllPoolEvents P addressText q s.stores = fetched at hsuccess hx
    obtain ⟨fetched, stores⟩ := fetched
    dsimp only at hsuccess hx ⊢
    rw [← hsuccess]
    cases hcase : result.success with
    | false =>
        have hpool : (syncPool P r config q.latestLedger s.startMetadata).exec s.run =
            (.ok (false, s.startMetadata), x) := by
          rw [syncPool, Wasm.exec_bind_of_ok hexec, hcase]
          rfl
        obtain ⟨status, x', hrun, hstatus, hsession⟩ := h.exec_syncContracts hasp hpool rfl hx
        rw [hrun, if_neg Bool.false_ne_true]
        exact ⟨hstatus, hsession⟩
    | true =>
        obtain ⟨x', hx', houtcome⟩ := exec_syncPool_of_success hexec hcase (hlast hcase) hx
        rw [if_pos rfl]
        generalize (onPool (rebuildTree P)).exec stores = rebuilt at hx' houtcome
        obtain ⟨rebuilt, stores₁⟩ := rebuilt
        cases rebuilt with
        | error e =>
            obtain ⟨-, e', hpool⟩ | ⟨hok, -⟩ := houtcome
            · rw [syncContracts, Wasm.exec_bind_of_error hpool]
              refine ⟨rfl, ?_⟩
              change x'.app.session = _
              rw [hx']
              rfl
            · cases hok
        | ok count =>
            obtain ⟨hok, -⟩ | ⟨-, hpool⟩ := houtcome
            · cases hok
            · obtain ⟨status, x'', hrun, hstatus, hsession⟩ :=
                h.exec_syncContracts hasp hpool rfl hx'
              rw [hrun]
              exact ⟨hstatus, hsession⟩

example : Extends zeroPoseidon2 addressText sampleState
    ⟨110, 110, 20, fun _ _ _ => .error "timeout", fetchSucceeds sampleInput.aspRpc
      (aspOptions zeroPoseidon2 sampleInput sampleConfig 110 sampleState.startMetadata)
      sampleState.run⟩ sampleInput where
  latestLedger := rfl
  retention := ⟨sampleConfig, rfl, rfl, rfl⟩
  checked := ⟨sampleConfig, rfl, rfl, rfl⟩
  poolRpc := ⟨_, rfl, rfl, rfl⟩
  aspRpc rpc hrpc := by
    cases hrpc
    rfl
  notes := ⟨_, rfl⟩

end Controller

end Enclave.App

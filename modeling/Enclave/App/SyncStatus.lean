import Enclave.App.SyncController
import Enclave.App.AspConsistency
import Enclave.Prover.Frames

/-! # The status of a synchronisation

`checkSyncGap` and `startSync` of `app/js/state/sync-controller.js` with both contracts: the events
of the pool and of ASP membership are fetched one after the other, and each has a ledger of its own
up to which it is synchronised.

Both functions report on the two contracts by one status.  The gap is that of the one which is ahead
(`gap_truthful_iff`), and a run is complete whether its fetches succeed or not
(`sync_status_truthful_iff`). -/

namespace Enclave.App

open Prover

/-! ### Requests that are served -/

section Served

variable {σ ε : Type} (rpc : EventRpc ε) (options : FetchOptions σ ε)

/-- A page, handed to the callback. -/
def handOver (page : List ε) (cursor : Option String) : Wasm σ Unit :=
  options.onPage.elim (pure ()) fun onPage =>
    onPage page ((cursor.filter (· ≠ "")).orElse fun _ => page.getLast?.map rpc.id)

/-- Every request from `current` on is answered by events that the callback takes, or by the oldest
ledger, from where the requests are served. -/
inductive Served (latest : ℕ) : ℕ → σ → σ → Prop
  | done {current : ℕ} {s : σ} : latest < current → Served latest current s s
  | early {current oldest newest : ℕ} {s s' : σ} : current ≤ latest →
      rpc.getEvents current (chunkEnd latest current) options.pageSize =
        .outOfRange oldest newest → current < oldest → Served latest oldest s s' →
      Served latest current s s'
  | empty {current : ℕ} {cursor : Option String} {s s' : σ} : current ≤ latest →
      rpc.getEvents current (chunkEnd latest current) options.pageSize = .events [] cursor →
      Served latest (chunkEnd latest current + 1) s s' → Served latest current s s'
  | page {current : ℕ} {event : ε} {rest : List ε} {cursor : Option String} {s s₁ s' : σ} :
      current ≤ latest →
      rpc.getEvents current (chunkEnd latest current) options.pageSize =
        .events (event :: rest) cursor →
      (handOver rpc options (event :: rest) cursor).exec s = (.ok (), s₁) →
      Served latest (chunkEnd latest current + 1) s₁ s' → Served latest current s s'

variable {rpc options} {latest current : ℕ} {p p' : Progress ε} {s s' s₁ : σ}

theorem exec_takePage_iff {page : List ε} {cursor : Option String} :
    (∃ p', (takePage rpc options page cursor p).exec s = (.ok p', s₁)) ↔
      (handOver rpc options page cursor).exec s = (.ok (), s₁) := by
  unfold takePage handOver
  cases options.onPage with
  | none =>
      constructor
      · rintro ⟨p', h⟩
        cases h
        rfl
      · intro h
        cases h
        exact ⟨_, rfl⟩
  | some onPage =>
      constructor
      · rintro ⟨p', h⟩
        obtain ⟨⟨⟩, s₂, hpage, h⟩ := Wasm.exec_bind_eq_ok.mp h
        cases h
        exact hpage
      · intro h
        exact ⟨_, (Wasm.exec_bind_of_ok h _).trans rfl⟩

/-- **The loop returns** exactly if it is served. -/
theorem fetchChunks_ok_iff : (∃ p', (fetchChunks rpc options latest current p).exec s =
    (.ok p', s')) ↔ Served rpc options latest current s s' := by
  induction hd : latest + 1 - current using Nat.strong_induction_on generalizing current p s with
  | _ d ih =>
  rcases Nat.lt_or_ge latest current with hend | hle
  · rw [fetchChunks_done hend]
    constructor
    · rintro ⟨p', h⟩
      cases h
      exact .done hend
    · intro h
      cases h with
      | done => exact ⟨p, rfl⟩
      | early hle => exact absurd hend (not_lt.mpr hle)
      | empty hle => exact absurd hend (not_lt.mpr hle)
      | page hle => exact absurd hend (not_lt.mpr hle)
  · have hnext := le_chunkEnd hle
    cases hanswer : rpc.getEvents current (chunkEnd latest current) options.pageSize with
    | error message =>
        rw [fetchChunks_error hle hanswer]
        constructor
        · rintro ⟨p', h⟩
          cases h
        · intro h
          cases h with
          | done hend => exact absurd hend (not_lt.mpr hle)
          | early _ h => cases hanswer.symm.trans h
          | empty _ h => cases hanswer.symm.trans h
          | page _ h => cases hanswer.symm.trans h
    | outOfRange oldest newest =>
        by_cases hlt : current < oldest
        · rw [fetchChunks_early hle hlt hanswer, ih _ (by omega) rfl]
          constructor
          · exact .early hle hanswer hlt
          · intro h
            cases h with
            | done hend => exact absurd hend (not_lt.mpr hle)
            | early _ h _ hrest =>
                cases hanswer.symm.trans h
                exact hrest
            | empty _ h => cases hanswer.symm.trans h
            | page _ h => cases hanswer.symm.trans h
        · rw [fetchChunks_late hle (not_lt.mp hlt) hanswer]
          constructor
          · rintro ⟨p', h⟩
            cases h
          · intro h
            cases h with
            | done hend => exact absurd hend (not_lt.mpr hle)
            | early _ h hlt' =>
                cases hanswer.symm.trans h
                exact absurd hlt' hlt
            | empty _ h => cases hanswer.symm.trans h
            | page _ h => cases hanswer.symm.trans h
    | events page cursor =>
        rw [fetchChunks_events hle hanswer]
        cases page with
        | nil =>
            have hrest : (∃ p', (fetchChunks rpc options latest (chunkEnd latest current + 1) p).exec
                s = (.ok p', s')) ↔
                  Served rpc options latest (chunkEnd latest current + 1) s s' :=
              ih _ (by omega) rfl
            constructor
            · intro h
              exact .empty hle hanswer (hrest.mp h)
            · intro h
              cases h with
              | done hend => exact absurd hend (not_lt.mpr hle)
              | early _ h => cases hanswer.symm.trans h
              | empty _ _ h => exact hrest.mpr h
              | page _ h => cases hanswer.symm.trans h
        | cons event rest =>
            have hpage : handPage rpc options (event :: rest) cursor p =
                takePage rpc options (event :: rest) cursor p := if_neg (List.cons_ne_nil _ _)
            rw [hpage]
            constructor
            · rintro ⟨p', h⟩
              obtain ⟨p₁, s₁, htake, h⟩ := Wasm.exec_bind_eq_ok.mp h
              exact .page hle hanswer (exec_takePage_iff.mp ⟨p₁, htake⟩)
                ((ih _ (by omega) rfl).mp ⟨p', h⟩)
            · intro h
              cases h with
              | done hend => exact absurd hend (not_lt.mpr hle)
              | early _ h => cases hanswer.symm.trans h
              | empty _ h => cases hanswer.symm.trans h
              | page _ h hover hserved =>
                  cases hanswer.symm.trans h
                  obtain ⟨p₁, htake⟩ := exec_takePage_iff.mpr hover
                  obtain ⟨p', hp'⟩ := (ih (p := p₁) _ (by omega) rfl).mpr hserved
                  exact ⟨p', (Wasm.exec_bind_of_ok htake _).trans hp'⟩

/-- **A fetch succeeds** exactly if it is served. -/
theorem fetchAll_success_iff {start : ℕ} (hstart : options.startLedger = some start)
    (hpos : start ≠ 0) : (fetchAllContractEvents rpc options s).1.success = true ∧
      (fetchAllContractEvents rpc options s).2 = s' ↔
    Served rpc options (lastLedger rpc options) start s s' := by
  rw [fetchAllContractEvents, hstart, if_neg (fun h => hpos h.1)]
  dsimp only [Option.elim_some]
  rw [← fetchChunks_ok_iff (p := ⟨options.cursor, 0, []⟩)]
  cases hexec : (fetchChunks rpc options (lastLedger rpc options) start
      ⟨options.cursor, 0, []⟩).exec s with
  | mk r s₁ =>
      cases r with
      | error e =>
          constructor
          · intro h
            cases h.1
          · rintro ⟨p', h⟩
            cases h
      | ok p =>
          constructor
          · rintro ⟨-, rfl⟩
            exact ⟨p, rfl⟩
          · rintro ⟨p', h⟩
            cases h
            exact ⟨rfl, rfl⟩

end Served

namespace Controller

/-! ### The gap -/

/-- `RetentionConfig`. -/
structure RetentionConfig where
  window : ℕ
  description : String
  warningThreshold : ℕ

/-- What is known of a contract. -/
structure ContractSync where
  lastLedger : ℕ
  lastCursor : Option String
  syncBroken : Bool

/-- `SyncMetadata`. -/
structure SyncMetadata where
  poolSync : ContractSync
  aspMembershipSync : ContractSync

/-- `createDefaultMetadata`. -/
def createDefaultMetadata : SyncMetadata := ⟨⟨0, none, false⟩, ⟨0, none, false⟩⟩

inductive GapStatus where
  | ok
  | warning
  | broken
deriving DecidableEq

/-- What `checkSyncGap` returns. -/
structure GapCheck where
  status : GapStatus
  message : String
  gap : ℤ

/-- `ledgersToDuration`. -/
def ledgersToDuration (ledgers : ℤ) : String :=
  let seconds := ledgers * 5
  let hours := seconds / 3600
  let days := hours / 24
  if days > 0 then
    let remainingHours := hours % 24
    if remainingHours > 0 then s!"{days}d {remainingHours}h" else s!"{days}d"
  else if hours > 0 then
    let minutes := seconds % 3600 / 60
    if minutes > 0 then s!"{hours}h {minutes}m" else s!"{hours}h"
  else s!"{seconds / 60}m"

/-- `lastSyncedLedger`. -/
def SyncMetadata.lastSyncedLedger (m : SyncMetadata) : ℕ :=
  max m.poolSync.lastLedger m.aspMembershipSync.lastLedger

/-- `checkSyncGap`. -/
def checkSyncGap (metadata : Option SyncMetadata) (config : RetentionConfig) (latestLedger : ℕ) :
    GapCheck :=
  let lastSyncedLedger := metadata.elim 0 SyncMetadata.lastSyncedLedger
  let gap : ℤ := latestLedger - lastSyncedLedger
  if lastSyncedLedger = 0 then ⟨.ok, "First sync - starting from scratch", gap⟩
  else if gap > config.window then
    ⟨.broken, s!"Offline for more than {config.description}. " ++
      s!"Some notes may be inaccessible. Last sync: {ledgersToDuration gap} ago.", gap⟩
  else if gap > config.warningThreshold then
    ⟨.warning, s!"Last sync was {ledgersToDuration gap} ago. " ++
      s!"Sync within {ledgersToDuration (config.window - gap)} to avoid data loss.", gap⟩
  else ⟨.ok, s!"Last sync: {ledgersToDuration gap} ago", gap⟩

/-- The last ledger of a contract is out of the window. -/
def ContractSync.Behind (c : ContractSync) (config : RetentionConfig) (latestLedger : ℕ) : Prop :=
  (latestLedger : ℤ) - c.lastLedger > config.window

instance (c : ContractSync) (config : RetentionConfig) (latestLedger : ℕ) :
    Decidable (c.Behind config latestLedger) := inferInstanceAs (Decidable (_ > _))

/-- An answer other than `broken` says that no contract was left behind. -/
def GapTruthful (metadata : Option SyncMetadata) (config : RetentionConfig) (latestLedger : ℕ) :
    Prop :=
  (checkSyncGap metadata config latestLedger).status ≠ .broken →
    ∀ m ∈ metadata, ∀ c ∈ [m.poolSync, m.aspMembershipSync], c.lastLedger ≠ 0 →
      ¬ c.Behind config latestLedger

/-- One contract was left behind, the other one was not. -/
def OneBehind (metadata : Option SyncMetadata) (config : RetentionConfig) (latestLedger : ℕ) :
    Prop :=
  ∃ m ∈ metadata, ∃ c ∈ [m.poolSync, m.aspMembershipSync], c.lastLedger ≠ 0 ∧
    c.Behind config latestLedger ∧
    ∃ c' ∈ [m.poolSync, m.aspMembershipSync], ¬ c'.Behind config latestLedger

variable {metadata : Option SyncMetadata} {config : RetentionConfig} {latestLedger : ℕ}

theorem checkSyncGap_broken_iff : (checkSyncGap metadata config latestLedger).status = .broken ↔
    metadata.elim 0 SyncMetadata.lastSyncedLedger ≠ 0 ∧
      (latestLedger : ℤ) - metadata.elim 0 SyncMetadata.lastSyncedLedger > config.window := by
  unfold checkSyncGap
  dsimp only
  split_ifs with hzero hgap hwarning
  · exact iff_of_false (by decide) fun h => h.1 hzero
  · exact iff_of_true rfl ⟨hzero, hgap⟩
  · exact iff_of_false (by decide) fun h => hgap h.2
  · exact iff_of_false (by decide) fun h => hgap h.2

/-- The later one of the contracts is behind exactly if both are. -/
theorem broken_iff_behind {m : SyncMetadata} :
    (checkSyncGap (some m) config latestLedger).status = .broken ↔ m.lastSyncedLedger ≠ 0 ∧
      ∀ c ∈ [m.poolSync, m.aspMembershipSync], c.Behind config latestLedger := by
  rw [checkSyncGap_broken_iff]
  refine and_congr_right fun _ => ?_
  simp only [List.forall_mem_cons, List.not_mem_nil, false_implies, implies_true, and_true,
    ContractSync.Behind, Option.elim_some, SyncMetadata.lastSyncedLedger]
  omega

/-- **The gap is truthful** unless one contract was left behind alone. -/
theorem gap_truthful_iff (metadata : Option SyncMetadata) (config : RetentionConfig)
    (latestLedger : ℕ) :
    GapTruthful metadata config latestLedger ↔ ¬ OneBehind metadata config latestLedger := by
  cases metadata with
  | none =>
      refine iff_of_true (fun _ m hm => by cases hm) ?_
      rintro ⟨m, hm, -⟩
      cases hm
  | some m =>
      constructor
      · rintro htruthful ⟨m', hm', c, hc, hpos, hbehind, c', hc', hahead⟩
        cases hm'
        refine htruthful (fun hbroken => ?_) m rfl c hc hpos hbehind
        exact hahead ((broken_iff_behind.mp hbroken).2 c' hc')
      · intro hnone hstatus m' hm' c hc hpos hbehind
        cases hm'
        refine hstatus (broken_iff_behind.mpr ⟨?_, fun c' hc' => ?_⟩)
        · have hle : c.lastLedger ≤ m.lastSyncedLedger := by
            obtain rfl | rfl := List.mem_pair.mp hc
            · exact le_max_left _ _
            · exact le_max_right _ _
          omega
        · by_contra hahead
          exact hnone ⟨m, rfl, c, hc, hpos, hbehind, c', hc', hahead⟩

/-! ### A run -/

/-- The app between runs. -/
structure AppState where
  stores : AppStore
  asp : AspMembershipStore
  metadata : Option SyncMetadata

/-- The app during a run, and the events of the run. -/
structure Run where
  app : AppState
  poolEventCount : ℕ
  aspEventCount : ℕ

/-- What a run is answered: the latest ledger and the retention, at first and when the gap is
checked; the events of the contracts, if the deployments are loaded; the number of leaves that ASP
membership has, if it can be read; and how many notes the scanner finds and marks as spent. -/
structure SyncInput where
  forceRefresh : Bool
  latestLedger : Result ℕ
  retention : Result RetentionConfig
  checkedRetention : Result RetentionConfig
  checkedLedger : Result ℕ
  poolRpc : Option (EventRpc NativeEvent)
  aspRpc : Option (EventRpc NativeEvent)
  onChainLeafCount : Option ℕ
  notes : Result (ℕ × ℕ)

inductive Status where
  | complete
  | broken
  | error
deriving DecidableEq

/-- `SyncStatus`; a run that throws reports no numbers. -/
structure SyncStatus where
  status : Status
  message : String
  syncBroken : Bool
  poolLeavesCount : Option ℕ := none
  aspMembershipLeavesCount : Option ℕ := none
  lastSyncedLedger : Option ℕ := none
  latestLedger : Option ℕ := none
  gap : Option ℤ := none
  notesFound : ℕ := 0
  notesMarkedSpent : ℕ := 0

/-- A function of the stores of pool and public keys. -/
def onStores {α : Type} (m : Wasm AppStore α) : Wasm Run α := fun x =>
  ((m.exec x.app.stores).1, { x with app := { x.app with stores := (m.exec x.app.stores).2 } })

/-- A function of the membership store. -/
def onAsp {α : Type} (m : Wasm AspMembershipStore α) : Wasm Run α := fun x =>
  ((m.exec x.app.asp).1, { x with app := { x.app with asp := (m.exec x.app.asp).2 } })

variable (P : Poseidon2)

/-- `onPage` of the pool. -/
def poolPage (events : List NativeEvent) (cursor : Option String) : Wasm Run Unit := do
  onStores (onPage P events cursor)
  modify fun x => { x with poolEventCount := x.poolEventCount + events.length }

/-- `onPage` of ASP membership. -/
def aspPage (events : List NativeEvent) (_cursor : Option String) : Wasm Run Unit := do
  let _ ← onAsp (AspMembershipStore.processEvents P events)
  modify fun x => { x with aspEventCount := x.aspEventCount + events.length }

def fetchOptions (config : RetentionConfig) (latestLedger : ℕ) (cursor : Option String)
    (onPage : List NativeEvent → Option String → Wasm Run Unit) : FetchOptions Run NativeEvent where
  startLedger := some (max 1 (latestLedger + 1 - config.window))
  endLedger := some latestLedger
  cursor := cursor
  pageSize := pageSize
  onPage := some onPage

/-- `fetchAllPoolEvents` and `fetchAllASPMembershipEvents`. -/
def fetchAll (rpc : Option (EventRpc NativeEvent)) (options : FetchOptions Run NativeEvent) :
    Wasm Run (FetchResult NativeEvent) := fun x =>
  match rpc with
  | none => (.ok ⟨false, [], none, none, 0, some (.error "Deployments not loaded")⟩, x)
  | some rpc =>
      (.ok (fetchAllContractEvents rpc options x).1, (fetchAllContractEvents rpc options x).2)

def SyncInput.cursor (r : SyncInput) (c : ContractSync) : Option String :=
  if r.forceRefresh then none else c.lastCursor

def poolOptions (r : SyncInput) (config : RetentionConfig) (latestLedger : ℕ) (m : SyncMetadata) :
    FetchOptions Run NativeEvent :=
  fetchOptions config latestLedger (r.cursor m.poolSync) (poolPage P)

def aspOptions (r : SyncInput) (config : RetentionConfig) (latestLedger : ℕ) (m : SyncMetadata) :
    FetchOptions Run NativeEvent :=
  fetchOptions config latestLedger (r.cursor m.aspMembershipSync) (aspPage P)

/-- The events of the pool: the result of the fetch, and the metadata. -/
def syncPool (r : SyncInput) (config : RetentionConfig) (latestLedger : ℕ) (m : SyncMetadata) :
    Wasm Run (Bool × SyncMetadata) := do
  let poolResult ← fetchAll r.poolRpc (poolOptions P r config latestLedger m)
  if poolResult.success then do
    let _ ← onStores (onPool (rebuildTree P))
    return (true,
      { m with poolSync := ⟨poolResult.latestLedger.getD 0, poolResult.cursor, false⟩ })
  else return (false, m)

/-- The events of ASP membership: the result of the fetch, and the metadata. -/
def syncAsp (r : SyncInput) (config : RetentionConfig) (latestLedger : ℕ) (m : SyncMetadata) :
    Wasm Run (Bool × SyncMetadata) := do
  let aspResult ← fetchAll r.aspRpc (aspOptions P r config latestLedger m)
  if aspResult.success then do
    let localLeafCount := (← get).app.asp.leaves.records.length
    return (true, { m with aspMembershipSync := ⟨aspResult.latestLedger.getD 0, aspResult.cursor,
      r.onChainLeafCount.any (localLeafCount < ·)⟩ })
  else return (false, m)

/-- `saveSyncMetadata`. -/
def saveSyncMetadata (m : SyncMetadata) : Wasm Run Unit :=
  modify fun x => { x with app := { x.app with metadata := some m } }

/-- The numbers that are reported at the end. -/
def report (status : Status) (message : String) (syncBroken : Bool) (m : SyncMetadata)
    (latestLedger : ℕ) (gap : ℤ) (notes : ℕ × ℕ) : Wasm Run SyncStatus := do
  let app := (← get).app
  return {
    status, message, syncBroken
    poolLeavesCount := some app.stores.pool.poolLeaves.records.length
    aspMembershipLeavesCount := some app.asp.leaves.records.length
    lastSyncedLedger := some m.lastSyncedLedger
    latestLedger := some latestLedger
    gap := some gap
    notesFound := notes.1
    notesMarkedSpent := notes.2 }

/-- The synchronisation after the gap was checked. -/
def syncContracts (r : SyncInput) (config : RetentionConfig) (latestLedger : ℕ)
    (m : SyncMetadata) : Wasm Run SyncStatus := do
  let (_, m) ← syncPool P r config latestLedger m
  let (_, m) ← syncAsp P r config latestLedger m
  saveSyncMetadata m
  let notes ← Wasm.ofResult r.notes
  let x ← get
  report .complete
    s!"Synced {x.poolEventCount} pool events, {x.aspEventCount} ASP membership events" false m
    latestLedger 0 notes

/-- The body of `startSync`. -/
def syncRun (r : SyncInput) : Wasm Run SyncStatus := do
  let m := (← get).app.metadata.getD createDefaultMetadata
  let latestLedger ← Wasm.ofResult r.latestLedger
  let config ← Wasm.ofResult r.retention
  let checkedConfig ← Wasm.ofResult r.checkedRetention
  let checkedLedger ← Wasm.ofResult r.checkedLedger
  let gapCheck := checkSyncGap (← get).app.metadata checkedConfig checkedLedger
  if gapCheck.status = .broken then do
    let m := { m with
      poolSync := { m.poolSync with syncBroken := true }
      aspMembershipSync := { m.aspMembershipSync with syncBroken := true } }
    saveSyncMetadata m
    report .broken gapCheck.message true m latestLedger gapCheck.gap (0, 0)
  else syncContracts P r config latestLedger m

/-- The message of an exception. -/
def messageOf : Fault String → String
  | .error message => message
  | .panic message => message

/-- What a run returns, an exception included. -/
def finish : Result SyncStatus × Run → SyncStatus × AppState
  | (.ok status, x) => (status, x.app)
  | (.error e, x) => ({ status := .error, message := messageOf e, syncBroken := false }, x.app)

def AppState.run (s : AppState) : Run := ⟨s, 0, 0⟩

/-- `startSync`. -/
def startSync (r : SyncInput) (s : AppState) : SyncStatus × AppState :=
  finish ((syncRun P r).exec s.run)

/-! ### Fetches of a run -/

/-- A fetch reports success. -/
def fetchSucceeds (rpc : Option (EventRpc NativeEvent)) (options : FetchOptions Run NativeEvent)
    (x : Run) : Bool :=
  rpc.any fun rpc => (fetchAllContractEvents rpc options x).1.success

/-- The network is there and serves every request of the fetch. -/
def ServedFrom (rpc : Option (EventRpc NativeEvent)) (options : FetchOptions Run NativeEvent)
    (x x' : Run) : Prop :=
  ∃ rpc' ∈ rpc, Served rpc' options (lastLedger rpc' options) (options.startLedger.getD 0) x x'

variable {P} {r : SyncInput} {m : SyncMetadata} {s : AppState} {x x' : Run}
  {rpc : Option (EventRpc NativeEvent)} {cursor : Option String}
  {onPage : List NativeEvent → Option String → Wasm Run Unit}

theorem exec_fetchAll (rpc : Option (EventRpc NativeEvent)) (options : FetchOptions Run NativeEvent)
    (x : Run) : ∃ result x', (fetchAll rpc options).exec x = (.ok result, x') ∧
      result.success = fetchSucceeds rpc options x ∧
      ∀ rpc' ∈ rpc, (fetchAllContractEvents rpc' options x).2 = x' := by
  cases rpc with
  | none => exact ⟨_, _, rfl, rfl, fun rpc' hrpc => by cases hrpc⟩
  | some rpc =>
      refine ⟨_, _, rfl, rfl, fun rpc' hrpc => ?_⟩
      cases hrpc
      rfl

theorem served_iff : ServedFrom rpc (fetchOptions config latestLedger cursor onPage) x x' ↔
    ∃ result, (fetchAll rpc (fetchOptions config latestLedger cursor onPage)).exec x =
      (.ok result, x') ∧ result.success = true := by
  have hpos : max 1 (latestLedger + 1 - config.window) ≠ 0 :=
    Nat.ne_of_gt (Nat.lt_of_lt_of_le Nat.one_pos (le_max_left _ _))
  cases rpc with
  | none =>
      constructor
      · rintro ⟨rpc', hrpc, -⟩
        cases hrpc
      · rintro ⟨result, h, hsuccess⟩
        cases h
        cases hsuccess
  | some rpc =>
      have hiff := @fetchAll_success_iff _ _ rpc
        (fetchOptions config latestLedger cursor onPage) x x' _ rfl hpos
      constructor
      · rintro ⟨rpc', hrpc, h⟩
        cases hrpc
        obtain ⟨hsuccess, hstate⟩ := hiff.mpr h
        refine ⟨_, ?_, hsuccess⟩
        rw [← hstate]
        rfl
      · rintro ⟨result, h, hsuccess⟩
        cases h
        exact ⟨rpc, rfl, hiff.mp ⟨hsuccess, rfl⟩⟩

theorem fetchSucceeds_iff :
    fetchSucceeds rpc (fetchOptions config latestLedger cursor onPage) x = true ↔
      ∃ x', ServedFrom rpc (fetchOptions config latestLedger cursor onPage) x x' := by
  obtain ⟨result, x', hexec, hsuccess, -⟩ :=
    exec_fetchAll rpc (fetchOptions config latestLedger cursor onPage) x
  simp only [served_iff, hexec, ← hsuccess]
  constructor
  · exact fun h => ⟨x', result, rfl, h⟩
  · rintro ⟨_, result', h, h'⟩
    cases h
    exact h'

/-- The half of the pool: without success it goes on, and else the tree is rebuilt. -/
theorem exec_syncPool_of_not (h : fetchSucceeds r.poolRpc (poolOptions P r config latestLedger m) x
    = false) : ∃ x', (syncPool P r config latestLedger m).exec x = (.ok (false, m), x') := by
  obtain ⟨result, x', hexec, hsuccess, -⟩ :=
    exec_fetchAll r.poolRpc (poolOptions P r config latestLedger m) x
  refine ⟨x', (Wasm.exec_bind_of_ok hexec _).trans ?_⟩
  rw [hsuccess, h]
  rfl

theorem exec_syncPool_of_served
    (h : ServedFrom r.poolRpc (poolOptions P r config latestLedger m) x x') :
    ∃ m', m'.aspMembershipSync = m.aspMembershipSync ∧
      (syncPool P r config latestLedger m).exec x =
        (((onStores (onPool (rebuildTree P))).exec x').1.map fun _ => (true, m'),
          ((onStores (onPool (rebuildTree P))).exec x').2) := by
  obtain ⟨result, hexec, hsuccess⟩ := served_iff.mp h
  refine ⟨{ m with poolSync := ⟨result.latestLedger.getD 0, result.cursor, false⟩ }, rfl,
    (Wasm.exec_bind_of_ok hexec _).trans ?_⟩
  rw [if_pos hsuccess]
  cases hrebuild : (onStores (onPool (rebuildTree P))).exec x' with
  | mk result' x₂ =>
      cases result' with
      | error e => exact Wasm.exec_bind_of_error hrebuild _
      | ok count => exact Wasm.exec_bind_of_ok hrebuild _

theorem exec_syncAsp (r : SyncInput) (config : RetentionConfig) (latestLedger : ℕ)
    (m : SyncMetadata) (x : Run) : ∃ m' x', (syncAsp P r config latestLedger m).exec x =
      (.ok (fetchSucceeds r.aspRpc (aspOptions P r config latestLedger m) x, m'), x') := by
  obtain ⟨result, x', hexec, hsuccess, -⟩ :=
    exec_fetchAll r.aspRpc (aspOptions P r config latestLedger m) x
  rw [syncAsp, Wasm.exec_bind_of_ok hexec, ← hsuccess]
  cases result.success with
  | false => exact ⟨_, _, rfl⟩
  | true => exact ⟨_, _, rfl⟩

/-! ### The status -/

/-- The checks before the fetches pass, with these answers. -/
structure Starts (r : SyncInput) (s : AppState) (latestLedger : ℕ) (config : RetentionConfig) :
    Prop where
  latestLedger : r.latestLedger = .ok latestLedger
  retention : r.retention = .ok config
  checked : ∃ checkedConfig checkedLedger, r.checkedRetention = .ok checkedConfig ∧
    r.checkedLedger = .ok checkedLedger ∧
    (checkSyncGap s.metadata checkedConfig checkedLedger).status ≠ .broken

def AppState.startMetadata (s : AppState) : SyncMetadata := s.metadata.getD createDefaultMetadata

theorem Starts.exec_syncRun (h : Starts r s latestLedger config) :
    (syncRun P r).exec s.run =
      (syncContracts P r config latestLedger s.startMetadata).exec s.run := by
  obtain ⟨hlatest, hretention, checkedConfig, checkedLedger, hconfig, hledger, hgap⟩ := h
  rw [syncRun, hlatest, hretention, hconfig, hledger, Wasm.exec_bind_of_ok (Wasm.exec_get _)]
  refine (Wasm.exec_bind_of_ok (Wasm.exec_pure latestLedger _) _).trans ?_
  refine (Wasm.exec_bind_of_ok (Wasm.exec_pure config _) _).trans ?_
  refine (Wasm.exec_bind_of_ok (Wasm.exec_pure checkedConfig _) _).trans ?_
  refine (Wasm.exec_bind_of_ok (Wasm.exec_pure checkedLedger _) _).trans ?_
  refine (Wasm.exec_bind_of_ok (Wasm.exec_get _) _).trans ?_
  have hmetadata : s.run.app.metadata = s.metadata := rfl
  dsimp only
  rw [hmetadata, if_neg hgap]
  rfl

theorem exists_starts {status : SyncStatus} (h : (syncRun P r).exec s.run = (.ok status, x'))
    (hcomplete : status.status = .complete) :
    ∃ latestLedger config, Starts r s latestLedger config := by
  rw [syncRun, Wasm.exec_bind_of_ok (Wasm.exec_get _)] at h
  obtain ⟨latestLedger, x₁, h₁, h⟩ := Wasm.exec_bind_eq_ok.mp h
  obtain ⟨hlatest, rfl⟩ := Wasm.exec_ofResult_eq_ok.mp h₁
  obtain ⟨config, x₂, h₂, h⟩ := Wasm.exec_bind_eq_ok.mp h
  obtain ⟨hretention, rfl⟩ := Wasm.exec_ofResult_eq_ok.mp h₂
  obtain ⟨checkedConfig, x₃, h₃, h⟩ := Wasm.exec_bind_eq_ok.mp h
  obtain ⟨hconfig, rfl⟩ := Wasm.exec_ofResult_eq_ok.mp h₃
  obtain ⟨checkedLedger, x₄, h₄, h⟩ := Wasm.exec_bind_eq_ok.mp h
  obtain ⟨hledger, rfl⟩ := Wasm.exec_ofResult_eq_ok.mp h₄
  rw [Wasm.exec_bind_of_ok (Wasm.exec_get _)] at h
  dsimp only at h
  split_ifs at h with hgap
  · cases h
    cases hcomplete
  · exact ⟨latestLedger, config, hlatest, hretention, checkedConfig, checkedLedger, hconfig, hledger,
      hgap⟩

theorem syncContracts_ok_iff : (∃ status x', (syncContracts P r config latestLedger m).exec x =
      (.ok status, x')) ↔
    (∃ result x', (syncPool P r config latestLedger m).exec x = (.ok result, x')) ∧
      ∃ notes, r.notes = .ok notes := by
  constructor
  · rintro ⟨status, x', h⟩
    obtain ⟨⟨b, m₁⟩, x₁, hpool, h⟩ := Wasm.exec_bind_eq_ok.mp h
    obtain ⟨⟨b', m₂⟩, x₂, hasp, h⟩ := Wasm.exec_bind_eq_ok.mp h
    obtain ⟨⟨⟩, x₃, hsave, h⟩ := Wasm.exec_bind_eq_ok.mp h
    obtain ⟨notes, x₄, hnotes, h⟩ := Wasm.exec_bind_eq_ok.mp h
    exact ⟨⟨_, x₁, hpool⟩, notes, (Wasm.exec_ofResult_eq_ok.mp hnotes).1⟩
  · rintro ⟨⟨⟨b, m₁⟩, x₁, hpool⟩, notes, hnotes⟩
    obtain ⟨m₂, x₂, hasp⟩ := @exec_syncAsp P r config latestLedger m₁ x₁
    rw [syncContracts, Wasm.exec_bind_of_ok hpool]
    dsimp only
    rw [Wasm.exec_bind_of_ok hasp, hnotes]
    exact ⟨_, _, rfl⟩

theorem syncContracts_complete {status : SyncStatus}
    (h : (syncContracts P r config latestLedger m).exec x = (.ok status, x')) :
    status.status = .complete ∧ status.syncBroken = false := by
  obtain ⟨⟨b, m₁⟩, x₁, hpool, h⟩ := Wasm.exec_bind_eq_ok.mp h
  obtain ⟨⟨b', m₂⟩, x₂, hasp, h⟩ := Wasm.exec_bind_eq_ok.mp h
  obtain ⟨⟨⟩, x₃, hsave, h⟩ := Wasm.exec_bind_eq_ok.mp h
  obtain ⟨notes, x₄, hnotes, h⟩ := Wasm.exec_bind_eq_ok.mp h
  cases h
  exact ⟨rfl, rfl⟩

theorem complete_iff : ((startSync P r s).1.status = .complete ∧
      (startSync P r s).1.syncBroken = false) ↔
    ∃ latestLedger config, Starts r s latestLedger config ∧
      (∃ result x', (syncPool P r config latestLedger s.startMetadata).exec s.run =
        (.ok result, x')) ∧ ∃ notes, r.notes = .ok notes := by
  constructor
  · rintro ⟨hcomplete, -⟩
    rw [startSync] at hcomplete
    cases hexec : (syncRun P r).exec s.run with
    | mk result x =>
        rw [hexec] at hcomplete
        cases result with
        | error e => cases hcomplete
        | ok status =>
            obtain ⟨latestLedger, config, hstarts⟩ := exists_starts hexec hcomplete
            refine ⟨latestLedger, config, hstarts, syncContracts_ok_iff.mp ⟨status, x, ?_⟩⟩
            rw [← hstarts.exec_syncRun, hexec]
  · rintro ⟨latestLedger, config, hstarts, hpool, hnotes⟩
    obtain ⟨status, x, h⟩ := syncContracts_ok_iff.mpr ⟨hpool, hnotes⟩
    rw [startSync, hstarts.exec_syncRun, h]
    exact syncContracts_complete h

variable (P r s)

def BothFetched : Prop :=
  ∀ latestLedger config b m x, r.latestLedger = .ok latestLedger → r.retention = .ok config →
    (syncPool P r config latestLedger s.startMetadata).exec s.run = (.ok (b, m), x) →
    b = true ∧ ((syncAsp P r config latestLedger m).exec x).1.toOption.any Prod.fst = true

/-- A run that is reported complete, with nothing broken, has fetched both. -/
def RunTruthful : Prop :=
  (startSync P r s).1.status = .complete ∧ (startSync P r s).1.syncBroken = false →
    BothFetched P r s

/-- A fetch is not served, and nothing ends the run: it starts, the tree of the pool is rebuilt
where the pool is served, and the notes are scanned. -/
def Hides : Prop :=
  ∃ latestLedger config, Starts r s latestLedger config ∧ (∃ notes, r.notes = .ok notes) ∧
    ((¬ ∃ x, ServedFrom r.poolRpc (poolOptions P r config latestLedger s.startMetadata) s.run x) ∨
      ∃ x x' count, ServedFrom r.poolRpc (poolOptions P r config latestLedger s.startMetadata)
          s.run x ∧ (onStores (onPool (rebuildTree P))).exec x = (.ok count, x') ∧
        ¬ ∃ x'', ServedFrom r.aspRpc (aspOptions P r config latestLedger s.startMetadata) x' x'')

variable {P r s}

/-- **A run is truthful** unless it hides a fetch that failed. -/
theorem run_truthful_iff : RunTruthful P r s ↔ ¬ Hides P r s := by
  constructor
  · rintro htruthful ⟨latestLedger, config, hstarts, hnotes, hfailed⟩
    obtain hpool | ⟨x, x', count, hpool, hrebuild, hasp⟩ := hfailed
    · have hfalse : fetchSucceeds r.poolRpc
          (poolOptions P r config latestLedger s.startMetadata) s.run = false :=
        Bool.eq_false_iff.mpr fun h => hpool (fetchSucceeds_iff.mp h)
      obtain ⟨x', hexec⟩ := exec_syncPool_of_not hfalse
      have hboth := htruthful (complete_iff.mpr ⟨_, _, hstarts, ⟨_, _, hexec⟩, hnotes⟩)
      cases (hboth _ _ _ _ _ hstarts.latestLedger hstarts.retention hexec).1
    · obtain ⟨m', hm', hexec⟩ := exec_syncPool_of_served hpool
      rw [hrebuild] at hexec
      have hboth := htruthful (complete_iff.mpr ⟨_, _, hstarts, ⟨_, _, hexec⟩, hnotes⟩)
      have hfetched := (hboth _ _ _ _ _ hstarts.latestLedger hstarts.retention hexec).2
      obtain ⟨m'', x'', haspExec⟩ := @exec_syncAsp P r config latestLedger m' x'
      rw [haspExec] at hfetched
      rw [aspOptions, ← hm'] at hasp
      exact hasp (fetchSucceeds_iff.mp hfetched)
  · intro hnone hcomplete latestLedger config b m x hlatest hretention hexec
    obtain ⟨latestLedger', config', hstarts, -, hnotes⟩ := complete_iff.mp hcomplete
    obtain rfl := Except.ok.inj (hlatest.symm.trans hstarts.latestLedger)
    obtain rfl := Except.ok.inj (hretention.symm.trans hstarts.retention)
    obtain ⟨x₁, hpool⟩ : ∃ x, ServedFrom r.poolRpc
        (poolOptions P r config latestLedger s.startMetadata) s.run x :=
      by_contra fun h => hnone ⟨_, _, hstarts, hnotes, .inl h⟩
    obtain ⟨m', hm', hexec'⟩ := exec_syncPool_of_served hpool
    rw [hexec] at hexec'
    cases hrebuild : (onStores (onPool (rebuildTree P))).exec x₁ with
    | mk result x' =>
        rw [hrebuild] at hexec'
        cases result with
        | error e => cases hexec'
        | ok count =>
            cases hexec'
            refine ⟨rfl, ?_⟩
            obtain ⟨m'', x'', haspExec⟩ := @exec_syncAsp P r config latestLedger m x'
            rw [haspExec]
            refine fetchSucceeds_iff.mpr (by_contra fun h => hnone ⟨_, _, hstarts, hnotes,
              .inr ⟨x₁, x', count, hpool, hrebuild, ?_⟩⟩)
            rwa [aspOptions, ← hm']

/-- **The status of a synchronisation is truthful**: the gap unless one contract was left behind
alone, and a run unless it hides a fetch that failed. -/
theorem sync_status_truthful_iff (metadata : Option SyncMetadata) (config : RetentionConfig)
    (latestLedger : ℕ) (P : Poseidon2) (r : SyncInput) (s : AppState) :
    (GapTruthful metadata config latestLedger ↔ ¬ OneBehind metadata config latestLedger) ∧
      (RunTruthful P r s ↔ ¬ Hides P r s) :=
  ⟨gap_truthful_iff metadata config latestLedger, run_truthful_iff⟩

/-! ### Runs that report too much -/

/-- The pool was synchronised ten ledgers ago, ASP membership a hundred ledgers ago. -/
def sampleMetadata : SyncMetadata := ⟨⟨100, none, false⟩, ⟨10, none, false⟩⟩

def sampleConfig : RetentionConfig := ⟨20, "20 ledgers", 16⟩

/-- A network without events that fails for the pool. -/
def sampleInput : SyncInput where
  forceRefresh := false
  latestLedger := .ok 110
  retention := .ok sampleConfig
  checkedRetention := .ok sampleConfig
  checkedLedger := .ok 110
  poolRpc := some ⟨110, fun _ _ _ => .error "timeout", fun _ => ""⟩
  aspRpc := some ⟨110, fun _ _ _ => .events [] none, fun _ => ""⟩
  onChainLeafCount := some 0
  notes := .ok (0, 0)

/-- The app before its first run. -/
def sampleState : AppState := ⟨⟨PoolStore.blank, .empty⟩, ⟨.empty, none⟩, none⟩

theorem starts_sample : Starts sampleInput sampleState 110 sampleConfig :=
  ⟨rfl, rfl, sampleConfig, 110, rfl, rfl, by decide⟩

theorem not_served_sample (P : Poseidon2) (x : Run) :
    ¬ ServedFrom sampleInput.poolRpc (poolOptions P sampleInput sampleConfig 110
      sampleState.startMetadata) sampleState.run x := by
  rintro ⟨rpc, hrpc, h⟩
  cases hrpc
  cases h with
  | done hend => exact absurd hend (show ¬ 110 < 91 by decide)
  | early _ h => cases h
  | empty _ h => cases h
  | page _ h => cases h

/-- A gap of 100 ledgers passes for one of 10, and a run without the events of the pool is
complete. -/
theorem status_hides :
    (checkSyncGap (some sampleMetadata) sampleConfig 110).status = .ok ∧
      ¬ GapTruthful (some sampleMetadata) sampleConfig 110 ∧
      (startSync zeroPoseidon2 sampleInput sampleState).1.status = .complete ∧
      (startSync zeroPoseidon2 sampleInput sampleState).1.syncBroken = false ∧
      ¬ RunTruthful zeroPoseidon2 sampleInput sampleState := by
  have hpool : fetchSucceeds sampleInput.poolRpc (poolOptions zeroPoseidon2 sampleInput sampleConfig
      110 sampleState.startMetadata) sampleState.run = false :=
    Bool.eq_false_iff.mpr fun h => by
      obtain ⟨x, hx⟩ := fetchSucceeds_iff.mp h
      exact not_served_sample zeroPoseidon2 x hx
  obtain ⟨x', hexec⟩ := exec_syncPool_of_not hpool
  have hcomplete := complete_iff.mpr ⟨_, _, starts_sample, ⟨_, _, hexec⟩, (0, 0), rfl⟩
  refine ⟨by decide, ?_, hcomplete.1, hcomplete.2, ?_⟩
  · intro htruthful
    exact htruthful (by decide) sampleMetadata rfl _ (List.mem_cons_of_mem _ List.mem_cons_self)
      (by decide) (by decide)
  · intro htruthful
    cases (htruthful hcomplete _ _ _ _ _ rfl rfl hexec).1

end Controller

end Enclave.App

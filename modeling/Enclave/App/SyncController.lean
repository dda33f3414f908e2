import Enclave.App.Bridge
import Enclave.App.PoolStore
import Enclave.App.FetchEvents

/-! # Synchronisation of the app

`startSync` of `app/js/state/sync-controller.js` with what it calls: the events of the pool are
fetched from the start of the retention window to the latest ledger, and handed to the stores of the
pool and of the public keys, page by page.  Cursors decide nothing, and are left out.

The half of a run that is about ASP membership is an input here, and so are the answers of the
network. -/

namespace Enclave.App

open Prover Rpc

/-! ### Public keys -/

/-- A record of `registered_public_keys`. -/
structure PublicKeyRecord where
  address : String
  encryptionKey : String
  noteKey : String
  ledger : ℕ
deriving DecidableEq

/-- `STORES.registered_public_keys`; the index by ledger is not unique. -/
def registeredPublicKeysSchema : StoreSchema PublicKeyRecord String String where
  keyPath := PublicKeyRecord.address
  uniqueIndexes := []

/-- The stores that a synchronisation writes. -/
structure AppStore where
  pool : PoolStore
  registeredPublicKeys : ObjectStore registeredPublicKeysSchema

/-- A function of the pool store. -/
def onPool {α : Type} (m : Task α) : Wasm AppStore α := fun s =>
  ((m.exec s.pool).1, { s with pool := (m.exec s.pool).2 })

def keyText : Native → Result String
  | .string s => .ok (normalizeHex s)
  | .bytes b => .ok (bytesToHex b)
  | _ => .error (.error "TypeError")

/-- A key that is a field element. -/
def fieldKeyText : Native → Result String
  | .string s => .ok (normalizeHex s)
  | .bytes b => fieldToHex b
  | _ => .error (.error "TypeError")

/-- The two keys of an event, of either format; `none` if there are none. -/
def keysOf (encryptionKey noteKey key : Native) : Result (Option (String × String)) :=
  if encryptionKey.truthy && noteKey.truthy then do
    let encryptionKey ← keyText encryptionKey
    let noteKey ← fieldKeyText noteKey
    return some (encryptionKey, noteKey)
  else if key.truthy then do
    let legacyKey ← keyText key
    return some (legacyKey, legacyKey)
  else return none

/-- `processPublicKeyEvent`. -/
def processPublicKeyEvent (owner encryptionKey noteKey key : Native) (ledger : ℕ) :
    Wasm AppStore Unit := do
  match ← Wasm.ofResult (keysOf encryptionKey noteKey key), owner with
  | none, _ => pure ()
  | some (encryptionKey, noteKey), .string address =>
      match (← get).registeredPublicKeys.put ⟨address, encryptionKey, noteKey, ledger⟩ with
      | some records => modify fun s => { s with registeredPublicKeys := records }
      | none => throw (.error "ConstraintError")
  | some _, _ => throw (.error "DataError")

/-- `processEvents` of the public key store. -/
def processKeyEvents : List NativeEvent → Wasm AppStore Unit
  | [] => pure ()
  | event :: rest => do
      if isNamed (event.topicAt 0) ["PublicKeyEvent", "public_key_event"] then do
        let owner := if (event.value.prop "owner").truthy then event.value.prop "owner"
          else event.topicAt 1
        let encryptionKey := event.value.prop "encryption_key"
        let noteKey := event.value.prop "note_key"
        let legacyKey := event.value.prop "key"
        if owner.truthy && (encryptionKey.truthy || legacyKey.truthy) then
          processPublicKeyEvent owner encryptionKey noteKey legacyKey event.ledger
        processKeyEvents rest
      else processKeyEvents rest

/-! ### Fetching events -/

/-- What the network answers during a run: the latest ledger, at first and when the gap is checked,
the retention window, the events of the pool from one ledger to another, and whether the membership
half succeeds. -/
structure SyncRun where
  latestLedger : ℕ
  checkedLedger : ℕ
  window : ℕ
  getEvents : ℕ → ℕ → ℕ → RpcAnswer RpcEvent
  aspSuccess : Bool

/-- `pageSize`. -/
def pageSize : ℕ := 100

variable (P : Poseidon2) (addressText : Address → String)

/-- The events of an answer, decoded. -/
def RpcAnswer.decode : RpcAnswer RpcEvent → RpcAnswer NativeEvent
  | .events page cursor => .events (page.map (decodeEvent addressText)) cursor
  | .outOfRange oldest newest => .outOfRange oldest newest
  | .error message => .error message

/-- `onPage` of the pool's half. -/
def onPage (events : List NativeEvent) (_cursor : Option String) : Wasm AppStore Unit := do
  let _ ← onPool (processEvents P events)
  processKeyEvents events

def SyncRun.rpc (r : SyncRun) : EventRpc NativeEvent where
  latestLedger := r.latestLedger
  getEvents start stop limit := (r.getEvents start stop limit).decode addressText
  id _ := ""

/-! ### A run -/

/-- The ledgers up to which the halves have been synchronised. -/
structure SyncMetadata where
  poolLastLedger : ℕ
  aspLastLedger : ℕ
deriving DecidableEq

/-- The app between runs. -/
structure Session where
  stores : AppStore
  metadata : Option SyncMetadata

/-- What `startSync` returns. -/
inductive SyncStatus where
  | broken
  | complete
  | error (e : Fault String)
deriving DecidableEq

/-- `lastSyncedLedger`. -/
def Session.lastSyncedLedger (s : Session) : ℕ :=
  s.metadata.elim 0 fun m => max m.poolLastLedger m.aspLastLedger

/-- `checkSyncGap` finds the session broken. -/
def Session.GapBroken (s : Session) (r : SyncRun) : Prop :=
  s.lastSyncedLedger ≠ 0 ∧ r.checkedLedger - s.lastSyncedLedger > r.window

instance (s : Session) (r : SyncRun) : Decidable (s.GapBroken r) :=
  inferInstanceAs (Decidable (_ ∧ _))

/-- `retentionStartLedger`. -/
def SyncRun.startLedger (r : SyncRun) : ℕ := max 1 (r.latestLedger + 1 - r.window)

def SyncRun.options (r : SyncRun) : FetchOptions AppStore NativeEvent where
  startLedger := some r.startLedger
  endLedger := some r.latestLedger
  cursor := none
  pageSize := pageSize
  onPage := some (onPage P)

/-- `fetchAllPoolEvents`. -/
def fetchAllPoolEvents (r : SyncRun) (s : AppStore) : FetchResult NativeEvent × AppStore :=
  fetchAllContractEvents (r.rpc addressText) (r.options P) s

def SyncMetadata.synced (m : SyncMetadata) (r : SyncRun) (poolSuccess : Bool) : SyncMetadata where
  poolLastLedger := if poolSuccess then r.latestLedger else m.poolLastLedger
  aspLastLedger := if r.aspSuccess then r.latestLedger else m.aspLastLedger

/-- `startSync`, of the pool. -/
def startSync (r : SyncRun) (s : Session) : SyncStatus × Session :=
  let metadata := s.metadata.getD ⟨0, 0⟩
  if s.GapBroken r then (.broken, { s with metadata := some metadata })
  else
    let (poolResult, stores) := fetchAllPoolEvents P addressText r s.stores
    let rebuilt := if poolResult.success then (onPool (rebuildTree P)).exec stores else (.ok 0, stores)
    match rebuilt with
    | (.error e, stores) => (.error e, { s with stores := stores })
    | (.ok _, stores) => (.complete, ⟨stores, some (metadata.synced r poolResult.success)⟩)

end Enclave.App

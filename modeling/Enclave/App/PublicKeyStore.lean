import Enclave.App.PoolEvents
import Enclave.App.SyncController
import Enclave.Facilitator.Requests
import Enclave.Prover.Frames

/-! # The address book

`app/js/state/public-key-store.js`: the keys that the accounts of the pool registered.
`processEvents` stores what the events of a sync carry, under the owner's address, the latest
registration over the others; `searchByAddress` looks an address up, in the store or else among
the events of the chain.  The two read an event differently, and choose different ones
(`pathsAgree_iff`). -/

namespace Enclave.App

open Prover Pool Rpc

theorem uniqueIndexes_registeredPublicKeys : registeredPublicKeysSchema.uniqueIndexes = [] := rfl

/-- `db.put`, over the record of the address. -/
def AppStore.putKeys (s : AppStore) (record : PublicKeyRecord) : AppStore :=
  { s with registeredPublicKeys :=
      s.registeredPublicKeys.putPlain uniqueIndexes_registeredPublicKeys record }

/-- `getByAddress`. -/
def AppStore.getByAddress (s : AppStore) (address : String) : Option PublicKeyRecord :=
  s.registeredPublicKeys.get address

/-- A database without records. -/
def AppStore.fresh : AppStore := ⟨.blank, .empty⟩

/-! ### The search -/

/-- The event is a registration, by its type. -/
def isPublicKeyEvent (event : NativeEvent) : Bool :=
  isNamed (event.topicAt 0) ["PublicKeyEvent", "public_key_event"]

/-- `event.value?.owner || event.topic?.[1]`. -/
def eventOwner (event : NativeEvent) : Native :=
  if (event.value.prop "owner").truthy then event.value.prop "owner" else event.topicAt 1

/-- What the search asks the network: the deployed pool, the latest ledger, and the page of events
of a contract from a ledger on, up to a limit. -/
structure KeyRpc where
  pool : Option String
  latestLedger : Result ℕ
  getContractEvents : String → ℕ → ℕ → Option (List NativeEvent)

/-- Where a record was found. -/
inductive KeySource where
  | fromStore
  | onchain
  | none
deriving DecidableEq

/-- What `searchByAddress` returns. -/
structure KeySearch where
  found : Bool
  record : Option PublicKeyRecord
  source : KeySource
deriving DecidableEq

def KeySearch.nothing : KeySearch := ⟨false, none, .none⟩

/-- The keys of an event, both as they stand there; `none` if there are none. -/
def onchainKeys (event : NativeEvent) : Option (Result (String × String)) :=
  let rawEncKey := event.value.prop "encryption_key"
  let rawNoteKey := event.value.prop "note_key"
  let rawLegacyKey := event.value.prop "key"
  if rawEncKey.truthy ∧ rawNoteKey.truthy then
    some do return (← keyText rawEncKey, ← keyText rawNoteKey)
  else if rawLegacyKey.truthy then
    some do
      let legacyKey ← keyText rawLegacyKey
      return (legacyKey, legacyKey)
  else none

/-- `owner === address`. -/
def ownedBy (address : String) (event : NativeEvent) : Bool :=
  match eventOwner event with
  | .string s => s = address
  | _ => false

/-- The loop over the events of the page: the first registration of the address that has keys. -/
def searchEvents (address : String) : List NativeEvent → Wasm AppStore KeySearch
  | [] => pure .nothing
  | event :: rest =>
      if isPublicKeyEvent event ∧ ownedBy address event then
        match onchainKeys event with
        | none => searchEvents address rest
        | some keys => do
            let (encryptionKey, noteKey) ← Wasm.ofResult keys
            let record : PublicKeyRecord :=
              ⟨address, encryptionKey, noteKey, event.ledger⟩
            modify fun s => AppStore.putKeys s record
            return ⟨true, some record, .onchain⟩
      else searchEvents address rest

/-- The search on the chain, within the retention window; its `catch` answers `none`. -/
def searchOnchain (rpc : KeyRpc) (address : String) : Wasm AppStore KeySearch :=
  match rpc.pool, rpc.latestLedger with
  | some pool, .ok latestLedger =>
      match rpc.getContractEvents pool (max 1 (latestLedger - 200000)) 100 with
      | some events => tryCatch (searchEvents address events) fun _ => pure .nothing
      | none => pure .nothing
  | _, _ => pure .nothing

/-- `searchByAddress`. -/
def searchByAddress (rpc : KeyRpc) (address : String) : Wasm AppStore KeySearch := do
  match (← get).getByAddress address with
  | some record => return ⟨true, some record, .fromStore⟩
  | none => searchOnchain rpc address

/-! ### Registrations -/

/-- A registration as the pool publishes it. -/
structure Registration where
  address : String
  encryptionKey : List UInt8
  noteKey : List UInt8
  ledger : ℕ
deriving DecidableEq

variable (addressText : Address → String)

def registration? : LedgerEvent → Option Registration
  | (ledger, .publicKey owner encryptionKey noteKey) =>
      some ⟨addressText owner, encryptionKey, noteKey, ledger⟩
  | _ => none

def registrationsOf (evs : List LedgerEvent) : List Registration :=
  evs.filterMap (registration? addressText)

def registrationsBy (evs : List LedgerEvent) (address : String) : List Registration :=
  (registrationsOf addressText evs).filter fun x => x.address = address

/-- The canonical bytes of a note key, the highest first. -/
def Registration.canonicalNoteKey (x : Registration) : List UInt8 :=
  (scalarToBytes (leValue x.noteKey : F)).reverse

/-- What `processEvents` stores. -/
def Registration.stored (x : Registration) : PublicKeyRecord :=
  ⟨x.address, bytesToHex x.encryptionKey, bytesToHex x.canonicalNoteKey, x.ledger⟩

/-- What the search finds. -/
def Registration.onchain (x : Registration) : PublicKeyRecord :=
  ⟨x.address, bytesToHex x.encryptionKey, bytesToHex x.noteKey, x.ledger⟩

variable {addressText} {evs : List LedgerEvent} {owner : Address} {ledger : ℕ}
  {encryptionKey noteKey : List UInt8} {address : String}

theorem registrationsOf_publicKey (rest : List LedgerEvent) :
    registrationsOf addressText ((ledger, .publicKey owner encryptionKey noteKey) :: rest) =
      ⟨addressText owner, encryptionKey, noteKey, ledger⟩ :: registrationsOf addressText rest :=
  rfl

theorem fieldToHex_of_length {bytes : List UInt8} (h : bytes.length = fieldSize) :
    fieldToHex bytes = .ok (bytesToHex (scalarToBytes (leValue bytes : F)).reverse) := by
  rw [fieldToHex, bytesToScalar_of_length h]
  rfl

theorem fieldToHex_of_length_ne {bytes : List UInt8} (h : bytes.length ≠ fieldSize) :
    ∃ e, fieldToHex bytes = .error e := by
  rw [fieldToHex, bytesToScalar, if_pos h]
  exact ⟨_, rfl⟩

/-! ### Processing -/

theorem processKeyEvents_register (htext : ∀ a, addressText a ≠ "") (rest : List NativeEvent) :
    processKeyEvents
        (native addressText (ledger, .publicKey owner encryptionKey noteKey) :: rest) = (do
      processPublicKeyEvent (.string (addressText owner)) (.bytes encryptionKey) (.bytes noteKey)
        .undefined ledger
      processKeyEvents rest) := by
  have howner : ((Native.string (addressText owner)).truthy && true) = true := by
    rw [Bool.and_true]
    exact decide_eq_true (htext owner)
  change (if ((Native.string (addressText owner)).truthy && true) = true then (do
      processPublicKeyEvent (.string (addressText owner)) (.bytes encryptionKey) (.bytes noteKey)
        .undefined ledger
      processKeyEvents rest) else processKeyEvents rest) = _
  rw [if_pos howner]

theorem processPublicKeyEvent_stores (hlen : noteKey.length = fieldSize) (s : AppStore) :
    (processPublicKeyEvent (.string address) (.bytes encryptionKey) (.bytes noteKey) .undefined
        ledger).exec s =
      (.ok (), s.putKeys (Registration.stored ⟨address, encryptionKey, noteKey, ledger⟩)) := by
  have hkeys : keysOf (.bytes encryptionKey) (.bytes noteKey) .undefined =
      .ok (some (bytesToHex encryptionKey,
        bytesToHex (scalarToBytes (leValue noteKey : F)).reverse)) := by
    change (fieldToHex noteKey >>= fun key => _) = _
    rw [fieldToHex_of_length hlen]
    rfl
  rw [processPublicKeyEvent, hkeys]
  refine (Wasm.exec_bind_of_ok (Wasm.exec_pure _ s) _).trans ?_
  refine (Wasm.exec_bind_of_ok (Wasm.exec_get s) _).trans ?_
  rw [ObjectStore.put_eq_putPlain uniqueIndexes_registeredPublicKeys]
  rfl

/-- A registration with another note key makes the processing throw. -/
theorem processPublicKeyEvent_throws (hlen : noteKey.length ≠ fieldSize) (s : AppStore) : ∃ e,
    (processPublicKeyEvent (.string address) (.bytes encryptionKey) (.bytes noteKey) .undefined
        ledger).exec s = (.error e, s) := by
  obtain ⟨e, he⟩ := fieldToHex_of_length_ne hlen
  have hkeys : keysOf (.bytes encryptionKey) (.bytes noteKey) .undefined = .error e := by
    change (fieldToHex noteKey >>= fun key => _) = _
    rw [he]
    rfl
  refine ⟨e, ?_⟩
  rw [processPublicKeyEvent, hkeys]
  exact Wasm.exec_bind_of_error (Wasm.exec_throw e s) _

/-- **Run lemma.**  If every note key has 32 bytes, the registrations are stored in order. -/
theorem processKeyEvents_stores (htext : ∀ a, addressText a ≠ "")
    (hlen : ∀ x ∈ registrationsOf addressText evs, x.noteKey.length = fieldSize) (s : AppStore) :
    (processKeyEvents (evs.map (native addressText))).exec s =
      (.ok (), ((registrationsOf addressText evs).map Registration.stored).foldl
        AppStore.putKeys s) := by
  induction evs generalizing s with
  | nil => rfl
  | cons x rest ih =>
      obtain ⟨ledger, event⟩ := x
      cases event with
      | newCommitment commitment index output => exact ih hlen s
      | newNullifier nullifier => exact ih hlen s
      | publicKey owner encryptionKey noteKey =>
          have hhead := @processPublicKeyEvent_stores ledger encryptionKey noteKey
            (addressText owner) (hlen _ List.mem_cons_self) s
          have hrest := ih (fun x hx => hlen x (List.mem_cons_of_mem _ hx))
          rw [List.map_cons, processKeyEvents_register htext, Wasm.exec_bind_of_ok hhead, hrest]
          rfl

/-- A note key of another length stops the processing. -/
theorem processKeyEvents_throws (htext : ∀ a, addressText a ≠ "") {x : Registration}
    (hx : x ∈ registrationsOf addressText evs) (hlen : x.noteKey.length ≠ fieldSize)
    (s : AppStore) :
    ∃ e s', (processKeyEvents (evs.map (native addressText))).exec s = (.error e, s') := by
  induction evs generalizing s with
  | nil => cases hx
  | cons y rest ih =>
      obtain ⟨ledger, event⟩ := y
      cases event with
      | newCommitment commitment index output => exact ih hx s
      | newNullifier nullifier => exact ih hx s
      | publicKey owner encryptionKey noteKey =>
          rw [List.map_cons, processKeyEvents_register htext]
          by_cases hhead : noteKey.length = fieldSize
          · have hmem : x ∈ registrationsOf addressText rest := by
              obtain rfl | hmem := List.mem_cons.mp hx
              · exact absurd hhead hlen
              · exact hmem
            rw [Wasm.exec_bind_of_ok (processPublicKeyEvent_stores hhead s)]
            exact ih hmem _
          · obtain ⟨e, he⟩ := processPublicKeyEvent_throws hhead s
            exact ⟨e, s, Wasm.exec_bind_of_error he _⟩

theorem registeredPublicKeys_foldl (records : List PublicKeyRecord) (s : AppStore) :
    (records.foldl AppStore.putKeys s).registeredPublicKeys =
      records.foldl (ObjectStore.putPlain uniqueIndexes_registeredPublicKeys)
        s.registeredPublicKeys := by
  induction records generalizing s with
  | nil => rfl
  | cons record rest ih => exact ih _

/-- **What is stored under an address**: its last registration. -/
theorem getByAddress_processed (address : String) :
    (((registrationsOf addressText evs).map Registration.stored).foldl AppStore.putKeys
      .fresh).getByAddress address =
      (registrationsBy addressText evs address).getLast?.map Registration.stored := by
  rw [AppStore.getByAddress, registeredPublicKeys_foldl, ObjectStore.get_foldl_putPlain,
    List.filter_map, List.getLast?_map, registrationsBy]
  exact Option.or_none

/-! ### Searching -/

/-- **The search finds the first registration** of the address. -/
theorem exec_searchEvents (addressText : Address → String) (evs : List LedgerEvent)
    (address : String) (s : AppStore) :
    ∃ s', (searchEvents address (evs.map (native addressText))).exec s =
      (.ok ((registrationsBy addressText evs address).head?.elim .nothing fun x =>
        ⟨true, some x.onchain, .onchain⟩), s') := by
  induction evs with
  | nil => exact ⟨s, rfl⟩
  | cons x rest ih =>
      obtain ⟨ledger, event⟩ := x
      cases event with
      | newCommitment commitment index output => exact ih
      | newNullifier nullifier => exact ih
      | publicKey owner encryptionKey noteKey =>
          rw [List.map_cons, searchEvents, registrationsBy, registrationsOf_publicKey,
            List.filter_cons]
          by_cases howner : addressText owner = address
          · have hif : isPublicKeyEvent (native addressText
                (ledger, .publicKey owner encryptionKey noteKey)) ∧
                ownedBy address (native addressText
                (ledger, .publicKey owner encryptionKey noteKey)) :=
              ⟨rfl, decide_eq_true howner⟩
            rw [if_pos hif, if_pos (decide_eq_true howner)]
            refine ⟨s.putKeys
              (Registration.onchain ⟨addressText owner, encryptionKey, noteKey, ledger⟩), ?_⟩
            subst howner
            rfl
          · have hif : ¬ (isPublicKeyEvent (native addressText
                (ledger, .publicKey owner encryptionKey noteKey)) ∧
                ownedBy address (native addressText
                (ledger, .publicKey owner encryptionKey noteKey))) :=
              fun h => howner (of_decide_eq_true h.2)
            rw [if_neg hif, if_neg fun h => howner (of_decide_eq_true h)]
            exact ih

theorem exec_searchByAddress {rpc : KeyRpc} {pool : String} {latestLedger : ℕ}
    (hpool : rpc.pool = some pool) (hledger : rpc.latestLedger = .ok latestLedger)
    (hpage : rpc.getContractEvents pool (max 1 (latestLedger - 200000)) 100 =
      some (evs.map (native addressText))) (address : String) :
    ∃ s', (searchByAddress rpc address).exec .fresh =
      (.ok ((registrationsBy addressText evs address).head?.elim .nothing fun x =>
        ⟨true, some x.onchain, .onchain⟩), s') := by
  obtain ⟨s', hsearch⟩ := exec_searchEvents addressText evs address .fresh
  refine ⟨s', ?_⟩
  have hget : AppStore.fresh.getByAddress address = none := rfl
  rw [searchByAddress, Wasm.exec_bind_of_ok (Wasm.exec_get _), hget]
  change (searchOnchain rpc address).exec .fresh = _
  unfold searchOnchain
  rw [hpool, hledger]
  dsimp only
  rw [hpage]
  exact Wasm.exec_tryCatch_of_ok hsearch _

/-! ### Agreement -/

def PublicKeyRecord.keys (record : PublicKeyRecord) : String × String :=
  (record.encryptionKey, record.noteKey)

/-- The two paths agree on an address: the events are processed, and the search finds the keys that
are then stored. -/
def PathsAgree (addressText : Address → String) (rpc : KeyRpc) (evs : List LedgerEvent)
    (address : String) : Prop :=
  ∃ store search s,
    (processKeyEvents (evs.map (native addressText))).exec .fresh = (.ok (), store) ∧
      (searchByAddress rpc address).exec .fresh = (.ok search, s) ∧
      search.record.map PublicKeyRecord.keys = (store.getByAddress address).map PublicKeyRecord.keys

/-- Every note key has 32 bytes, and the first registration of the address has the encryption key
of the last one, and for its note key the canonical bytes of the last one, the highest first. -/
def ReadAlike (addressText : Address → String) (evs : List LedgerEvent) (address : String) :
    Prop :=
  (∀ x ∈ registrationsOf addressText evs, x.noteKey.length = fieldSize) ∧
    ∀ first ∈ (registrationsBy addressText evs address).head?,
      ∀ last ∈ (registrationsBy addressText evs address).getLast?,
        first.encryptionKey = last.encryptionKey ∧ first.noteKey = last.canonicalNoteKey

theorem bytesToHex_inj {bytes bytes' : List UInt8} :
    bytesToHex bytes = bytesToHex bytes' ↔ bytes = bytes' := by
  refine ⟨fun h => ?_, fun h => h ▸ rfl⟩
  have htail := (List.cons.inj (List.cons.inj (String.ofList_inj.mp h)).2).2
  rw [← Hex.fromHex_toHex bytes, htail, Hex.fromHex_toHex]

/-- **The two paths of the address book agree on an address exactly if** its registrations read
alike. -/
theorem pathsAgree_iff (htext : ∀ a, addressText a ≠ "") {rpc : KeyRpc} {pool : String}
    {latestLedger : ℕ} (hpool : rpc.pool = some pool)
    (hledger : rpc.latestLedger = .ok latestLedger)
    (hpage : rpc.getContractEvents pool (max 1 (latestLedger - 200000)) 100 =
      some (evs.map (native addressText))) (address : String) :
    PathsAgree addressText rpc evs address ↔ ReadAlike addressText evs address := by
  obtain ⟨s', hsearch⟩ := exec_searchByAddress hpool hledger hpage address
  unfold PathsAgree ReadAlike
  by_cases hlen : ∀ x ∈ registrationsOf addressText evs, x.noteKey.length = fieldSize
  · have hprocess := processKeyEvents_stores htext hlen .fresh
    have hkeys : (((registrationsBy addressText evs address).head?.elim KeySearch.nothing
        fun x => ⟨true, some x.onchain, .onchain⟩).record.map PublicKeyRecord.keys =
          ((registrationsBy addressText evs address).getLast?.map Registration.stored).map
            PublicKeyRecord.keys) ↔
        ∀ first ∈ (registrationsBy addressText evs address).head?,
          ∀ last ∈ (registrationsBy addressText evs address).getLast?,
            first.encryptionKey = last.encryptionKey ∧ first.noteKey = last.canonicalNoteKey := by
      cases hregs : registrationsBy addressText evs address with
      | nil => exact iff_of_true rfl fun first hfirst => by cases hfirst
      | cons first rest =>
          obtain ⟨last, hlast⟩ : ∃ last, (first :: rest).getLast? = some last :=
            ⟨_, List.getLast?_cons⟩
          rw [hlast]
          constructor
          · intro h first' hfirst last' hlast'
            cases hfirst
            cases hlast'
            obtain ⟨henc, hnote⟩ := Prod.mk.inj (Option.some.inj h)
            exact ⟨bytesToHex_inj.mp henc, bytesToHex_inj.mp hnote⟩
          · intro h
            obtain ⟨henc, hnote⟩ := h first rfl last rfl
            exact congrArg some (Prod.ext (bytesToHex_inj.mpr henc) (bytesToHex_inj.mpr hnote))
    rw [← hkeys]
    constructor
    · rintro ⟨store, search, s, hrun, hfound, heq⟩
      rw [hprocess] at hrun
      rw [hsearch] at hfound
      cases hrun
      cases hfound
      rw [getByAddress_processed] at heq
      exact ⟨hlen, heq⟩
    · rintro ⟨-, heq⟩
      refine ⟨_, _, s', hprocess, hsearch, ?_⟩
      rw [getByAddress_processed]
      exact heq
  · refine iff_of_false ?_ fun h => hlen h.1
    rintro ⟨store, search, s, hrun, -, -⟩
    obtain ⟨x, hx, hne⟩ : ∃ x ∈ registrationsOf addressText evs, x.noteKey.length ≠ fieldSize := by
      simpa using hlen
    obtain ⟨e, store', herror⟩ := processKeyEvents_throws htext hx hne .fresh
    rw [herror] at hrun
    cases hrun

theorem Registration.canonicalNoteKey_of_lt {x : Registration}
    (hlen : x.noteKey.length = fieldSize) (hlt : leValue x.noteKey < bn256Modulus) :
    x.canonicalNoteKey = x.noteKey.reverse := by
  rw [canonicalNoteKey, scalarToBytes, F.val_natCast_of_lt hlt, Bytes.leBytes_of_length hlen]

/-! ### Samples

An account registers note keys, one after the other. -/

def sampleText (a : Address) : String :=
  if a = .account 1 then Facilitator.samplePayTo else Facilitator.sampleFacilitator

def sampleRegistrations (noteKeys : List (List UInt8)) : List LedgerEvent :=
  noteKeys.map fun noteKey => (5, .publicKey (.account 1) (List.replicate 32 7) noteKey)

/-- The network after the registrations. -/
def sampleKeyRpc (noteKeys : List (List UInt8)) : KeyRpc where
  pool := some "pool"
  latestLedger := .ok 9
  getContractEvents _ _ _ := some ((sampleRegistrations noteKeys).map (native sampleText))

/-- A note key that reads the same from both ends. -/
def samplePalindrome : List UInt8 := 1 :: List.replicate 30 0 ++ [1]

theorem sampleText_ne (a : Address) : sampleText a ≠ "" := by
  unfold sampleText
  split_ifs <;> decide

theorem readAlike_palindrome : ReadAlike sampleText
    (sampleRegistrations [samplePalindrome, samplePalindrome]) Facilitator.samplePayTo := by
  refine ⟨by decide, fun first hfirst last hlast => ?_⟩
  have hregs : registrationsBy sampleText
      (sampleRegistrations [samplePalindrome, samplePalindrome]) Facilitator.samplePayTo =
        List.replicate 2 ⟨Facilitator.samplePayTo, List.replicate 32 7, samplePalindrome, 5⟩ := by
    decide
  rw [hregs] at hfirst hlast
  cases hfirst
  cases hlast
  exact ⟨rfl, ((Registration.canonicalNoteKey_of_lt (by decide) (by decide)).trans
    (by decide)).symm⟩

/-- The note key is registered twice. -/
theorem pathsAgree_iff_palindrome :
    PathsAgree sampleText (sampleKeyRpc [samplePalindrome, samplePalindrome])
      (sampleRegistrations [samplePalindrome, samplePalindrome]) Facilitator.samplePayTo :=
  (pathsAgree_iff sampleText_ne rfl rfl rfl Facilitator.samplePayTo).mpr readAlike_palindrome

/-- **The search finds the note key turned around.** -/
theorem not_pathsAgree_one : ¬ PathsAgree sampleText (sampleKeyRpc [leBytes 32 1])
    (sampleRegistrations [leBytes 32 1]) Facilitator.samplePayTo := by
  rintro ⟨store, search, s, hrun, hfound, heq⟩
  have hregs : registrationsBy sampleText (sampleRegistrations [leBytes 32 1])
      Facilitator.samplePayTo =
        [⟨Facilitator.samplePayTo, List.replicate 32 7, leBytes 32 1, 5⟩] := by decide
  have hlen : ∀ x ∈ registrationsOf sampleText (sampleRegistrations [leBytes 32 1]),
      x.noteKey.length = fieldSize := by decide
  rw [processKeyEvents_stores sampleText_ne hlen] at hrun
  have hpage : (sampleKeyRpc [leBytes 32 1]).getContractEvents "pool" (max 1 (9 - 200000)) 100 =
      some ((sampleRegistrations [leBytes 32 1]).map (native sampleText)) := rfl
  obtain ⟨s', hsearch⟩ := exec_searchByAddress rfl rfl hpage Facilitator.samplePayTo
  rw [hsearch, hregs] at hfound
  cases hrun
  cases hfound
  rw [getByAddress_processed, hregs] at heq
  have hnote := bytesToHex_inj.mp (Prod.mk.inj (Option.some.inj heq)).2
  rw [Registration.canonicalNoteKey_of_lt (by decide) (by decide)] at hnote
  revert hnote
  decide

end Enclave.App

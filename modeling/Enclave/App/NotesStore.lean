import Enclave.App.Bridge
import Enclave.App.PoolStore

/-! # Notes and keys of the wallet

`app/js/state/notes-store.js`.  Notes are records under the text of their commitment, of whatever
owner; secrets and blindings are kept as text.  The two keypairs of the connected account are
derived from signatures that the wallet makes if its user approves, and are cached. -/

namespace Enclave.App

open Prover Js

/-! ### Notes -/

/-- `String.prototype.toLowerCase`, of ASCII text. -/
def toLowerCase (s : String) : String := String.ofList (s.toList.map Char.toLower)

/-- `normalizeHex(commitment).toLowerCase()`. -/
def noteId (commitment : String) : String := toLowerCase (normalizeHex commitment)

/-- A value that is text or bytes. -/
inductive HexValue where
  | text (s : String)
  | bytes (b : List UInt8)

/-- `toHex`. -/
def toHex : HexValue → String
  | .text s => normalizeHex s
  | .bytes b => bytesToHex b

/-- `UserNote`. -/
structure UserNote where
  id : String
  owner : String
  privateKey : String
  blinding : String
  amount : String
  leafIndex : ℕ
  createdAtLedger : ℕ
  spent : Bool
  spentAtLedger : Option ℕ
  isReceived : Bool
deriving DecidableEq

/-- `STORES.user_notes`; no index is unique. -/
def userNotesSchema : StoreSchema UserNote String String where
  keyPath := UserNote.id
  uniqueIndexes := []

theorem uniqueIndexes_userNotes : userNotesSchema.uniqueIndexes = [] := rfl

/-- The parameters of `saveNote`; the amount as `String(params.amount)`. -/
structure SaveParams where
  commitment : String
  privateKey : HexValue
  blinding : HexValue
  amount : String
  leafIndex : ℕ
  ledger : ℕ
  owner : Option String
  isReceived : Bool

/-- `publicKey` and `privateKey`. -/
structure Keypair where
  publicKey : List UInt8
  privateKey : List UInt8
deriving DecidableEq

/-- The database, the owner, the cached keys and the ledger up to which the scanner has come. -/
structure Wallet where
  pool : PoolStore
  userNotes : ObjectStore userNotesSchema
  currentOwner : Option String
  cachedEncryptionKeypair : Option Keypair
  cachedNoteKeypair : Option Keypair
  lastScannedLedger : ℕ

/-- Functions of the modules. -/
abbrev WalletTask (α : Type) := Wasm Wallet α

/-- `db.put('user_notes', note)`. -/
def putNote (note : UserNote) (w : Wallet) : Wallet :=
  { w with userNotes := w.userNotes.putPlain uniqueIndexes_userNotes note }

/-- The note that `saveNote` stores. -/
def savedNote (currentOwner : Option String) (params : SaveParams) : UserNote where
  id := noteId params.commitment
  owner := ((params.owner.filter (· ≠ "")).or currentOwner).getD ""
  privateKey := toHex params.privateKey
  blinding := toHex params.blinding
  amount := params.amount
  leafIndex := params.leafIndex
  createdAtLedger := params.ledger
  spent := false
  spentAtLedger := none
  isReceived := params.isReceived

/-- `saveNote`. -/
def saveNote (params : SaveParams) : WalletTask UserNote := do
  let note := savedNote (← get).currentOwner params
  modify (putNote note)
  return note

/-- `getNoteByCommitment`. -/
def Wallet.getNoteByCommitment (w : Wallet) (commitment : String) : Option UserNote :=
  w.userNotes.get (noteId commitment)

/-- `markNoteSpent`. -/
def markNoteSpent (commitment : String) (ledger : ℕ) (w : Wallet) : Wallet :=
  match w.getNoteByCommitment commitment with
  | none => w
  | some note => putNote { note with spent := true, spentAtLedger := some ledger } w

/-- `getUnspentNotes`: those of the current owner. -/
def Wallet.getUnspentNotes (w : Wallet) : List UserNote :=
  match w.currentOwner.filter (· ≠ "") with
  | none => []
  | some owner => w.userNotes.records.filter fun note => note.owner = owner ∧ !note.spent

/-! ### Keys -/

/-- `ENCRYPTION_MESSAGE`. -/
def encryptionMessage : String := "Sign to access Privacy Pool [v1]"

/-- `SPENDING_KEY_MESSAGE`. -/
def spendingKeyMessage : String := "Privacy Pool Spending Key [v1]"

/-- Hash functions, ciphers, and the signature of each account under each message. -/
structure Crypto where
  poseidon2 : Poseidon2
  cipher : Cipher
  sha256 : List UInt8 → List UInt8
  sign : Option String → String → List UInt8

variable (k : Crypto)

/-- `deriveEncryptionKeypairFromSignature`. -/
def deriveEncryptionKeypairFromSignature (signature : List UInt8) : Result Keypair := do
  let result ← deriveKeypairFromSignature k.cipher k.sha256 signature
  return ⟨result.take 32, (result.drop 32).take 32⟩

/-- What `getUserNoteKeypair` derives from a signature. -/
def deriveNoteKeypair (signature : List UInt8) : Result Keypair := do
  let privateKey ← deriveNotePrivateKey k.sha256 signature
  let publicKey ← derivePublicKey k.poseidon2 privateKey
  return ⟨publicKey, privateKey⟩

/-- `requestSignature`; nothing comes back if the user does not approve. -/
def requestSignature (owner : Option String) (message : String) (approves : Bool) :
    Option (List UInt8) :=
  if approves ∧ (k.sign owner message).length = 64 then some (k.sign owner message) else none

/-- `getUserEncryptionKeypair`. -/
def getUserEncryptionKeypair (approves : Bool) : WalletTask (Option Keypair) := do
  let w ← get
  if w.cachedEncryptionKeypair.isSome then return w.cachedEncryptionKeypair
  else
    match requestSignature k w.currentOwner encryptionMessage approves with
    | none => return none
    | some signature => do
        let keypair ← Wasm.ofResult (deriveEncryptionKeypairFromSignature k signature)
        modify fun w => { w with cachedEncryptionKeypair := some keypair }
        return some keypair

/-- `getUserNoteKeypair`. -/
def getUserNoteKeypair (approves : Bool) : WalletTask (Option Keypair) := do
  let w ← get
  if w.cachedNoteKeypair.isSome then return w.cachedNoteKeypair
  else
    match requestSignature k w.currentOwner spendingKeyMessage approves with
    | none => return none
    | some signature => do
        let keypair ← Wasm.ofResult (deriveNoteKeypair k signature)
        modify fun w => { w with cachedNoteKeypair := some keypair }
        return some keypair

/-- `clearKeypairCaches`. -/
def clearKeypairCaches (w : Wallet) : Wallet :=
  { w with cachedEncryptionKeypair := none, cachedNoteKeypair := none }

/-- `handleAccountChange`. -/
def handleAccountChange (newAddress : Option String) (w : Wallet) : Wallet :=
  if w.currentOwner = newAddress then w
  else clearKeypairCaches { w with currentOwner := newAddress }

/-- `setAuthenticatedKeys`. -/
def setAuthenticatedKeys (encryptionKeypair noteKeypair : Keypair) (w : Wallet) : Wallet :=
  { w with cachedEncryptionKeypair := some encryptionKeypair, cachedNoteKeypair := some noteKeypair }

/-! ### Text of commitments -/

theorem toLower_of_mem_toHex {bytes : List UInt8} {ch : Char} (h : ch ∈ Hex.toHex bytes) :
    ch.toLower = ch := by
  have hdigit : ∀ n : Fin 16, (Nat.digitChar n).toLower = Nat.digitChar n := by decide
  obtain ⟨b, -, hch⟩ := List.mem_flatMap.mp h
  obtain ⟨n, m, rfl⟩ := Hex.exists_digits b
  rw [Hex.byteToHex_ofNat, List.mem_cons, List.mem_singleton] at hch
  obtain rfl | rfl := hch
  · exact hdigit n
  · exact hdigit m

theorem normalizeHex_bytesToHex (bytes : List UInt8) :
    normalizeHex (bytesToHex bytes) = bytesToHex bytes := by
  have htake : (codeUnits (bytesToHex bytes)).take 2 = ['0', 'x'] := by
    rw [codeUnits_bytesToHex]
    rfl
  rw [normalizeHex, if_pos htake]

/-- **The text of bytes is its own key.** -/
theorem noteId_bytesToHex (bytes : List UInt8) : noteId (bytesToHex bytes) = bytesToHex bytes := by
  have hlower : ('0' :: 'x' :: Hex.toHex bytes).map Char.toLower = '0' :: 'x' :: Hex.toHex bytes := by
    rw [List.map_cons, List.map_cons, List.map_congr_left fun ch hch => toLower_of_mem_toHex hch,
      List.map_id']
    rfl
  rw [noteId, normalizeHex_bytesToHex, toLowerCase, bytesToHex, String.toList_ofList, hlower]

theorem toList_of_take_codeUnits {s : String} (h : (codeUnits s).take 2 = ['0', 'x']) :
    ∃ rest, s.toList = '0' :: 'x' :: rest := by
  have hfirst : ∀ {cs : List Char} {n : ℕ} {ch : Char} {chs : List Char}, ch ≠ '\uFFFD' →
      (cs.flatMap fun c => if c.toNat < 0x10000 then [c] else ['\uFFFD', '\uFFFD']).take (n + 1) =
        ch :: chs → ∃ rest, cs = ch :: rest ∧
      (rest.flatMap fun c => if c.toNat < 0x10000 then [c] else ['\uFFFD', '\uFFFD']).take n =
        chs := by
    intro cs n ch chs hch hcs
    cases cs with
    | nil => cases hcs
    | cons c rest =>
        rw [List.flatMap_cons] at hcs
        split_ifs at hcs with hlt
        · obtain ⟨rfl, htail⟩ := List.cons.inj hcs
          exact ⟨rest, rfl, htail⟩
        · exact absurd (List.cons.inj hcs).1.symm hch
  obtain ⟨rest, hrest, htail⟩ := hfirst (by decide) h
  obtain ⟨rest', rfl, -⟩ := hfirst (by decide) htail
  exact ⟨rest', hrest⟩

theorem toList_normalizeHex (commitment : String) :
    ∃ rest, (normalizeHex commitment).toList = '0' :: 'x' :: rest := by
  unfold normalizeHex
  split_ifs with h
  · exact toList_of_take_codeUnits h
  · exact ⟨commitment.toList, by rw [String.toList_append]; rfl⟩

/-- **The key of a note is its own key.** -/
theorem noteId_noteId (commitment : String) : noteId (noteId commitment) = noteId commitment := by
  obtain ⟨rest, hrest⟩ := toList_normalizeHex commitment
  have hid : noteId commitment = String.ofList ('0' :: 'x' :: rest.map Char.toLower) := by
    rw [noteId, toLowerCase, hrest]
    rfl
  have htake : (codeUnits (noteId commitment)).take 2 = ['0', 'x'] := by
    rw [hid, codeUnits, String.toList_ofList, List.flatMap_cons, List.flatMap_cons]
    rfl
  have hlower : ('0' :: 'x' :: rest.map Char.toLower).map Char.toLower =
      '0' :: 'x' :: rest.map Char.toLower := by
    have hrest' : (rest.map Char.toLower).map Char.toLower = rest.map Char.toLower := by
      rw [List.map_map]
      exact List.map_congr_left fun c _ => Char.toLower_toLower_eq_toLower c
    have hzero : Char.toLower '0' = '0' := by decide
    have hx : Char.toLower 'x' = 'x' := by decide
    rw [List.map_cons, List.map_cons, hrest', hzero, hx]
  rw [noteId, normalizeHex, if_pos htake, toLowerCase, hid, String.toList_ofList, hlower]

theorem noteId_hex64 {n : ℕ} (h : n < 2 ^ 256) : noteId (hex64 n) = hex64 n := by
  rw [hex64_natCast h, noteId_bytesToHex]

end Enclave.App

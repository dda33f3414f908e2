import Enclave.Lib.Run
import Enclave.App.PoolEvents
import Enclave.App.PoolFrames
import Enclave.App.SavedNotes

/-! # Spent notes

`checkSpentNotes` derives the nullifier of a note from the text of its key, and looks for its bytes
among the texts of the nullifiers that the pool has published.  Both go through the other byte
order, so that a spent note is recognised exactly if that makes no difference
(`spent_note_recognised_iff`). -/

namespace Enclave.App

open Prover Pool Js Bytes

variable {P : Poseidon2}

/-! ### Marking -/

/-- The note under a text is marked spent. -/
def Wallet.Marked (w : Wallet) (id : String) : Prop :=
  ∃ note ∈ w.userNotes.records, note.id = id ∧ note.spent = true

/-- A note is stored under a text. -/
def Wallet.HasNote (w : Wallet) (id : String) : Prop := (w.userNotes.get id).isSome

/-- The nullifier that is derived for a note is stored. -/
def NullifierStored (P : Poseidon2) (s : PoolStore) (note : UserNote) : Prop :=
  ∃ nullifierHex, spentNullifierHex P note = .ok (some nullifierHex) ∧
    s.HasNullifier (normalizeHex nullifierHex)

theorem hasNote_putNote {w : Wallet} {note : UserNote} {id : String} :
    (putNote note w).HasNote id ↔ note.id = id ∨ w.HasNote id := by
  unfold Wallet.HasNote putNote
  rw [ObjectStore.isSome_get, ObjectStore.isSome_get]
  have h := @ObjectStore.exists_mem_putPlain_iff _ _ _ _ note _ w.userNotes uniqueIndexes_userNotes
    (fun _ => True) trivial id
  simp only [and_true] at h
  exact h

theorem marked_putNote {w : Wallet} {note : UserNote} (hspent : note.spent = true) {id : String} :
    (putNote note w).Marked id ↔ note.id = id ∨ w.Marked id :=
  ObjectStore.exists_mem_putPlain_iff (h := uniqueIndexes_userNotes)
    (p := fun note : UserNote => note.spent = true) hspent

theorem markNoteSpent_spec {w : Wallet} {id : String} (hid : noteId id = id)
    (hstored : w.HasNote id) (ledger : ℕ) :
    (markNoteSpent id ledger w).pool = w.pool ∧
      (∀ other, (markNoteSpent id ledger w).HasNote other ↔ w.HasNote other) ∧
      ∀ other, (markNoteSpent id ledger w).Marked other ↔ w.Marked other ∨ id = other := by
  obtain ⟨note, hget⟩ := Option.isSome_iff_exists.mp hstored
  have hkey : note.id = id := (ObjectStore.get_eq_some.mp hget).2
  rw [markNoteSpent, Wallet.getNoteByCommitment, hid, hget]
  refine ⟨rfl, fun other => ?_, fun other => ?_⟩
  · rw [hasNote_putNote]
    refine or_iff_right_of_imp fun hsame => ?_
    obtain rfl : id = other := hkey.symm.trans hsame
    exact hstored
  · rw [marked_putNote rfl, or_comm]
    exact or_congr_right (by rw [hkey])

theorem checkSpentNote_spec {w : Wallet} {note : UserNote} (hid : noteId note.id = note.id)
    (hstored : w.HasNote note.id) :
    (checkSpentNote P note w).pool = w.pool ∧
      (∀ id, (checkSpentNote P note w).HasNote id ↔ w.HasNote id) ∧
      ∀ id, (checkSpentNote P note w).Marked id ↔
        w.Marked id ∨ note.id = id ∧ NullifierStored P w.pool note := by
  unfold checkSpentNote NullifierStored
  cases hhex : spentNullifierHex P note with
  | error e => simp
  | ok hex =>
      cases hex with
      | none => simp
      | some nullifierHex =>
          cases hget : w.pool.poolNullifiers.get (normalizeHex nullifierHex) with
          | none => simp [PoolStore.HasNullifier, hget]
          | some record =>
              obtain ⟨hpool, hnotes, hmarked⟩ := markNoteSpent_spec hid hstored record.ledger
              have hkey : w.pool.HasNullifier (normalizeHex nullifierHex) := by
                rw [PoolStore.HasNullifier, hget]
                rfl
              dsimp only
              rw [hget]
              refine ⟨hpool, hnotes, fun id => (hmarked id).trans (or_congr_right ?_)⟩
              simp [hkey]

theorem foldl_checkSpentNote_spec {notes : List UserNote} {w : Wallet}
    (hid : ∀ note ∈ notes, noteId note.id = note.id)
    (hstored : ∀ note ∈ notes, w.HasNote note.id) (id : String) :
    (notes.foldl (fun w note => checkSpentNote P note w) w).Marked id ↔
      w.Marked id ∨ ∃ note ∈ notes, note.id = id ∧ NullifierStored P w.pool note := by
  induction notes generalizing w with
  | nil => simp
  | cons note rest ih =>
      rw [List.forall_mem_cons] at hid hstored
      obtain ⟨hpool, hnotes, hmarked⟩ := checkSpentNote_spec (P := P) hid.1 hstored.1
      rw [List.foldl_cons, ih hid.2 fun n hn => (hnotes _).mpr (hstored.2 n hn), hmarked, hpool]
      simp [or_assoc]

/-- **A note is marked** exactly if the nullifier that is derived for it is stored. -/
theorem marked_checkSpentNotes {w : Wallet} {note : UserNote}
    (hids : ∀ n ∈ w.userNotes.records, noteId n.id = n.id) (hnote : note ∈ w.getUnspentNotes) :
    (checkSpentNotes P w).Marked note.id ↔ NullifierStored P w.pool note := by
  have hmem : ∀ n ∈ w.getUnspentNotes, n ∈ w.userNotes.records ∧ n.spent = false := by
    intro n hn
    unfold Wallet.getUnspentNotes at hn
    cases howner : w.currentOwner.filter (· ≠ "") with
    | none =>
        rw [howner] at hn
        cases hn
    | some owner =>
        rw [howner] at hn
        obtain ⟨hn, hcond⟩ := List.mem_filter.mp hn
        exact ⟨hn, by simpa using (of_decide_eq_true hcond).2⟩
  have hsame : ∀ n ∈ w.userNotes.records, n.id = note.id → n = note := fun n hn hkey =>
    List.inj_on_of_nodup_map w.userNotes.nodup_keys hn (hmem note hnote).1 hkey
  have hunmarked : ¬ w.Marked note.id := by
    rintro ⟨n, hn, hkey, hspent⟩
    obtain rfl := hsame n hn hkey
    rw [(hmem n hnote).2] at hspent
    cases hspent
  rw [checkSpentNotes, foldl_checkSpentNote_spec (fun n hn => hids n (hmem n hn).1)
    fun n hn => ObjectStore.isSome_get.mpr ⟨n, (hmem n hn).1, rfl⟩]
  constructor
  · rintro (hmarked | ⟨n, hn, hkey, hstored⟩)
    · exact absurd hmarked hunmarked
    · rwa [← hsame n (hmem n hn).1 hkey]
  · exact fun hstored => .inr ⟨note, hnote, rfl, hstored⟩

/-! ### The derived nullifier -/

/-- A field element whose bytes are read in the other order. -/
def reversed (x : F) : F := (reverseBytes 32 x.val : ℕ)

theorem bytesToHex_scalarToBytes (x : F) :
    bytesToHex (scalarToBytes x) = hex64 (reverseBytes 32 x.val) := by
  have hlt : reverseBytes 32 x.val < 2 ^ 256 := by
    rw [show (2 : ℕ) ^ 256 = 256 ^ 32 by norm_num]
    exact reverseBytes_lt 32 x.val
  rw [hex64_natCast hlt, leBytes_reverseBytes, List.reverse_reverse]
  rfl

/-- **What the check looks for**: the nullifier under the key in the other order, in the other
order. -/
theorem spentNullifierHex_eq {note : UserNote} {sk c : F}
    (hkey : note.privateKey = bytesToHex (scalarToBytes sk)) (hid : note.id = hex64 c.val)
    (hleaf : note.leafIndex < 2 ^ 256) :
    spentNullifierHex P note = .ok (some (hex64 (reverseBytes 32
      (Circuits.nullifier P (reversed sk) c note.leafIndex).val))) := by
  have hlength : (codeUnits note.privateKey).length = 66 := by
    rw [hkey, codeUnits_bytesToHex, List.length_cons, List.length_cons, Hex.length_toHex,
      length_scalarToBytes, fieldSize]
  have hlong : ¬ (note.privateKey = "" ∨ note.privateKey = "0x" ∨
      (codeUnits note.privateKey).length < 66) := by
    rintro (hempty | hempty | hshort)
    · rw [hempty] at hlength
      cases hlength
    · rw [hempty] at hlength
      cases hlength
    · omega
  have hread : hexToFieldBytes note.privateKey = .ok (scalarToBytes (reversed sk)) := by
    rw [hkey, hexToFieldBytes_bytesToHex (length_scalarToBytes sk)]
    rfl
  have hcommitment : hexToFieldBytes note.id = .ok (scalarToBytes c) := by
    rw [hid, hexToFieldBytes, hexToScalar_hex64 (F.val_lt_word c), F.natCast_val]
    rfl
  have hderive : deriveNullifierForNote P (scalarToBytes (reversed sk)) (scalarToBytes c)
      note.leafIndex =
        .ok (scalarToBytes (Circuits.nullifier P (reversed sk) c note.leafIndex)) := by
    rw [deriveNullifierForNote, bigintToField_natCast hleaf, Result.ok_bind,
      computeNullifier_scalarToBytes]
  unfold spentNullifierHex
  rw [if_neg hlong, hread, Result.ok_bind, hcommitment, Result.ok_bind, length_scalarToBytes,
    length_scalarToBytes, if_neg (by simp [fieldSize]), hderive, Result.ok_bind,
    bytesToHex_scalarToBytes]
  rfl

/-! ### Published nullifiers -/

def nullifier? : LedgerEvent → Option U256
  | (_, .newNullifier nullifier) => some nullifier
  | _ => none

def nullifiersOf (evs : List LedgerEvent) : List U256 := evs.filterMap nullifier?

def Processes (P : Poseidon2) (addressText : Address → String) (s : PoolStore)
    (evs : List LedgerEvent) (s' : PoolStore) : Prop :=
  ∃ counts, (processEvents P (evs.map (native addressText))).exec s = (.ok counts, s')

variable {addressText : Address → String}

theorem nullifierText_native (x : LedgerEvent) :
    (native addressText x).nullifierText = (nullifier? x).map fun n : U256 => hex64 n := by
  obtain ⟨ledger, event⟩ := x
  cases event <;> rfl

theorem hasNullifier_of_processes {s s' : PoolStore} {evs : List LedgerEvent}
    (h : Processes P addressText s evs s') (key : String) :
    s'.HasNullifier key ↔ s.HasNullifier key ∨ ∃ n ∈ nullifiersOf evs, hex64 n = key := by
  obtain ⟨counts, h⟩ := h
  rw [nullifiers_processEvents h]
  refine or_congr_right ⟨?_, ?_⟩
  · rintro ⟨event, hevent, htext⟩
    obtain ⟨x, hx, rfl⟩ := List.mem_map.mp hevent
    rw [nullifierText_native] at htext
    obtain ⟨n, hn, hkey⟩ := Option.map_eq_some_iff.mp htext
    exact ⟨n, List.mem_filterMap.mpr ⟨x, hx, hn⟩, hkey⟩
  · rintro ⟨n, hn, hkey⟩
    obtain ⟨x, hx, hn⟩ := List.mem_filterMap.mp hn
    refine ⟨_, List.mem_map_of_mem hx, ?_⟩
    rw [nullifierText_native, hn, Option.map_some, hkey]

/-- **What a run of batches adds.** -/
theorem hasNullifier_of_run {s s' : PoolStore} {batches : List (List LedgerEvent)}
    (h : Run (Processes P addressText) s batches s') (key : String) :
    s'.HasNullifier key ↔
      s.HasNullifier key ∨ ∃ n ∈ nullifiersOf batches.flatten, hex64 n = key := by
  induction h with
  | nil s => simp [nullifiersOf]
  | @cons s s₁ s₂ evs batches hstep hrun ih =>
      have happend : nullifiersOf (evs :: batches).flatten =
          nullifiersOf evs ++ nullifiersOf batches.flatten := by
        rw [nullifiersOf, List.flatten_cons, List.filterMap_append]
        rfl
      rw [ih, hasNullifier_of_processes hstep, happend]
      simp only [List.mem_append, or_and_right, exists_or, or_assoc]

theorem exists_processes (addressText : Address → String) (s : PoolStore) (nullifier : U256) :
    ∃ s', Processes P addressText s [(0, .newNullifier nullifier)] s' := by
  obtain ⟨t, hexec⟩ := exec_processNewNullifier nullifier 0 s
  have hbatch : (processEvents P ([(0, .newNullifier nullifier)].map (native addressText))).exec s =
      (.ok ⟨0, 1⟩, { s with poolNullifiers := t }) := by
    rw [List.map_cons, processEvents_newNullifier, Wasm.exec_bind_of_ok hexec]
    rfl
  exact ⟨_, _, hbatch⟩

/-! ### Recognition -/

/-- Whatever has been processed, the next check marks a note exactly if the nullifier of its spend
has been published. -/
def Recognised (P : Poseidon2) (addressText : Address → String) (w : Wallet) (note : UserNote)
    (nullifier : F) : Prop :=
  ∀ batches s, Run (Processes P addressText) w.pool batches s →
    (∀ n ∈ nullifiersOf batches.flatten, n < 2 ^ 256) →
    ((checkSpentNotes P { w with pool := s }).Marked note.id ↔
      nullifier.val ∈ nullifiersOf batches.flatten)

/-- The check finds a nullifier exactly if the one that it derives has been published. -/
theorem marked_iff_of_run {w : Wallet} {note : UserNote} {sk c : F}
    (hkey : note.privateKey = bytesToHex (scalarToBytes sk)) (hid : note.id = hex64 c.val)
    (hleaf : note.leafIndex < 2 ^ 256) (hids : ∀ n ∈ w.userNotes.records, noteId n.id = n.id)
    (hnote : note ∈ w.getUnspentNotes) (hblank : ∀ key, ¬ w.pool.HasNullifier key)
    {batches : List (List LedgerEvent)} {s : PoolStore}
    (hrun : Run (Processes P addressText) w.pool batches s)
    (hwords : ∀ n ∈ nullifiersOf batches.flatten, n < 2 ^ 256) :
    (checkSpentNotes P { w with pool := s }).Marked note.id ↔
      reverseBytes 32 (Circuits.nullifier P (reversed sk) c note.leafIndex).val ∈
        nullifiersOf batches.flatten := by
  have hlt : reverseBytes 32 (Circuits.nullifier P (reversed sk) c note.leafIndex).val <
      2 ^ 256 := by
    rw [show (2 : ℕ) ^ 256 = 256 ^ 32 by norm_num]
    exact reverseBytes_lt 32 _
  rw [marked_checkSpentNotes (w := { w with pool := s }) hids hnote]
  unfold NullifierStored
  rw [spentNullifierHex_eq hkey hid hleaf]
  constructor
  · rintro ⟨hex, hhex, hstored⟩
    obtain rfl := Option.some.inj (Except.ok.inj hhex)
    rw [normalizeHex_hex64 hlt, hasNullifier_of_run hrun] at hstored
    obtain hbefore | ⟨n, hn, htext⟩ := hstored
    · exact absurd hbefore (hblank _)
    · rwa [← hex64_injective (hwords n hn) hlt htext]
  · intro hmem
    refine ⟨_, rfl, ?_⟩
    rw [normalizeHex_hex64 hlt, hasNullifier_of_run hrun]
    exact .inr ⟨_, hmem, rfl⟩

theorem recognised_iff {w : Wallet} {note : UserNote} {sk c : F}
    (hkey : note.privateKey = bytesToHex (scalarToBytes sk)) (hid : note.id = hex64 c.val)
    (hleaf : note.leafIndex < 2 ^ 256) (hids : ∀ n ∈ w.userNotes.records, noteId n.id = n.id)
    (hnote : note ∈ w.getUnspentNotes) (hblank : ∀ key, ¬ w.pool.HasNullifier key) :
    Recognised P addressText w note (Circuits.nullifier P sk c note.leafIndex) ↔
      reverseBytes 32 (Circuits.nullifier P (reversed sk) c note.leafIndex).val =
        (Circuits.nullifier P sk c note.leafIndex).val := by
  constructor
  · intro h
    obtain ⟨s, hstep⟩ := exists_processes addressText w.pool
      (Circuits.nullifier P sk c note.leafIndex).val
    have hrun := Run.single hstep
    have hone : nullifiersOf [[((0 : ℕ), Event.newNullifier
        (Circuits.nullifier P sk c note.leafIndex).val)]].flatten =
          [(Circuits.nullifier P sk c note.leafIndex).val] := rfl
    have hwords : ∀ n ∈ nullifiersOf [[((0 : ℕ), Event.newNullifier
        (Circuits.nullifier P sk c note.leafIndex).val)]].flatten, n < 2 ^ 256 := by
      intro n hn
      rw [hone, List.mem_singleton] at hn
      rw [hn]
      exact F.val_lt_word _
    have hboth := h _ s hrun hwords
    rw [marked_iff_of_run hkey hid hleaf hids hnote hblank hrun hwords, hone, List.mem_singleton,
      List.mem_singleton] at hboth
    exact hboth.mpr rfl
  · intro heq batches s hrun hwords
    rw [marked_iff_of_run hkey hid hleaf hids hnote hblank hrun hwords, heq]

/-- **A spent note is recognised exactly if its nullifier survives two reversals**: of the bytes of
the key, and of its own. -/
theorem spent_note_recognised_iff (numberText : ℤ → String) (writer : Writer) {amount : ℕ}
    {blinding sk : F} {outputNote : OutputNote} (hamount : amount < 2 ^ 256)
    (houtput : createOutput P amount (scalarToBytes (Circuits.publicKey P sk)) blinding.val =
      .ok outputNote) {leafIndex ledger : ℕ} (hleaf : leafIndex < 2 ^ 32) {owner : String}
    {params : SaveParams}
    (hparams : writer.params numberText outputNote (keypairOf P sk) leafIndex ledger owner =
      .ok params) {w : Wallet} {savedBy : Option String}
    (hsaved : ∀ n ∈ w.userNotes.records, ∃ o p, n.id = (savedNote o p).id)
    (hnote : savedNote savedBy params ∈ w.getUnspentNotes)
    (hblank : ∀ key, ¬ w.pool.HasNullifier key) :
    Recognised P addressText w (savedNote savedBy params) (Circuits.nullifier P sk
        (Circuits.commitment P amount (Circuits.publicKey P sk) blinding) leafIndex) ↔
      reverseBytes 32 (Circuits.nullifier P (reversed sk)
        (Circuits.commitment P amount (Circuits.publicKey P sk) blinding) leafIndex).val =
      (Circuits.nullifier P sk
        (Circuits.commitment P amount (Circuits.publicKey P sk) blinding) leafIndex).val := by
  obtain ⟨params', hparams', hcommitment, hkey, -, -, hindex⟩ :=
    Writer.exists_params numberText writer hamount houtput (keypairOf P sk) leafIndex ledger owner
  obtain rfl := Except.ok.inj (hparams.symm.trans hparams')
  have hid : (savedNote savedBy params).id =
      hex64 (Circuits.commitment P amount (Circuits.publicKey P sk) blinding).val := by
    rw [savedNote, hcommitment, noteId_hex64 (F.val_lt_word _)]
  have hkeyText : (savedNote savedBy params).privateKey = bytesToHex (scalarToBytes sk) := by
    rw [savedNote, hkey]
    rfl
  have hindexText : (savedNote savedBy params).leafIndex = leafIndex := hindex
  rw [Recognised, ← hindexText]
  exact recognised_iff hkeyText hid (hindexText ▸ hleaf.trans (by decide)) (fun n hn => by
    obtain ⟨o, p, hsame⟩ := hsaved n hn
    rw [hsame]
    exact noteId_noteId _) hnote hblank

/-! ### A note that is not recognised -/

/-- The output of a deposit of 7 under the private key 1. -/
def sampleOutputNote : OutputNote where
  amount := (7 : ℕ)
  blinding := ((5 : ℕ) : F).val
  blindingBytes := scalarToBytes (((5 : ℕ) : F).val : F)
  pubKeyBytes := scalarToBytes (Circuits.publicKey smallPoseidon2 1)
  commitmentBytes := scalarToBytes (Circuits.commitment smallPoseidon2 ((7 : ℕ) : F)
    (Circuits.publicKey smallPoseidon2 1) (((5 : ℕ) : F).val : F))
  commitmentBig := (Circuits.commitment smallPoseidon2 ((7 : ℕ) : F)
    (Circuits.publicKey smallPoseidon2 1) (((5 : ℕ) : F).val : F)).val

theorem createOutput_sample : createOutput smallPoseidon2 (7 : ℕ)
    (scalarToBytes (Circuits.publicKey smallPoseidon2 1)) ((5 : ℕ) : F).val =
      .ok sampleOutputNote :=
  createOutput_natCast (by decide) (F.val_lt_word _) _

/-- What `depositForOrg` saves of it. -/
def sampleParams : SaveParams where
  commitment := hex64 sampleOutputNote.commitmentBig
  privateKey := .bytes (scalarToBytes 1)
  blinding := .bytes (scalarToBytes ((5 : ℕ) : F))
  amount := bigIntToString (7 : ℕ)
  leafIndex := 4
  ledger := 0
  owner := some "owner"
  isReceived := false

theorem params_sample (numberText : ℤ → String) :
    Writer.depositForOrg.params numberText sampleOutputNote (keypairOf smallPoseidon2 1) 4 0
      "owner" = .ok sampleParams := by
  rw [Writer.params, depositForOrgParams, sampleOutputNote, bigintToField_val]
  rfl

/-- A wallet with this note. -/
def sampleWallet : Wallet where
  pool := .blank
  userNotes := ObjectStore.empty.putPlain uniqueIndexes_userNotes (savedNote none sampleParams)
  currentOwner := some "owner"
  cachedEncryptionKeypair := none
  cachedNoteKeypair := none
  lastScannedLedger := 0

theorem sample_unspent : savedNote none sampleParams ∈ sampleWallet.getUnspentNotes := by
  have howner : sampleWallet.currentOwner.filter (· ≠ "") = some "owner" := rfl
  rw [Wallet.getUnspentNotes, howner]
  exact List.mem_filter.mpr
    ⟨(ObjectStore.mem_putPlain (h := uniqueIndexes_userNotes)).mpr (.inl rfl), rfl⟩

theorem sample_saved : ∀ n ∈ sampleWallet.userNotes.records, n = savedNote none sampleParams := by
  intro n hn
  obtain hn | ⟨hn, -⟩ := (ObjectStore.mem_putPlain (h := uniqueIndexes_userNotes)).mp hn
  · exact hn
  · cases hn

theorem spent_note_recognised_iff_sample :
    Recognised smallPoseidon2 (fun _ => "") sampleWallet (savedNote none sampleParams)
        (Circuits.nullifier smallPoseidon2 1 (Circuits.commitment smallPoseidon2 ((7 : ℕ) : F)
          (Circuits.publicKey smallPoseidon2 1) ((5 : ℕ) : F)) (4 : ℕ)) ↔
      reverseBytes 32 (Circuits.nullifier smallPoseidon2 (reversed 1)
        (Circuits.commitment smallPoseidon2 ((7 : ℕ) : F)
          (Circuits.publicKey smallPoseidon2 1) ((5 : ℕ) : F)) (4 : ℕ)).val =
      (Circuits.nullifier smallPoseidon2 1 (Circuits.commitment smallPoseidon2 ((7 : ℕ) : F)
        (Circuits.publicKey smallPoseidon2 1) ((5 : ℕ) : F)) (4 : ℕ)).val :=
  spent_note_recognised_iff bigIntToString .depositForOrg (by decide) createOutput_sample (by decide)
    (params_sample _) (fun n hn => ⟨_, _, congrArg UserNote.id (sample_saved n hn)⟩) sample_unspent
    fun key h => by cases h

/-- The nullifier of this note is published, and the note is not marked. -/
theorem published_nullifier_missed : ¬ Recognised smallPoseidon2 (fun _ => "")
    sampleWallet (savedNote none sampleParams)
    (Circuits.nullifier smallPoseidon2 1 (Circuits.commitment smallPoseidon2 ((7 : ℕ) : F)
      (Circuits.publicKey smallPoseidon2 1) ((5 : ℕ) : F)) (4 : ℕ)) := by
  have hne : reverseBytes 32 (Circuits.nullifier smallPoseidon2 (reversed 1)
      (Circuits.commitment smallPoseidon2 ((7 : ℕ) : F) (Circuits.publicKey smallPoseidon2 1)
        ((5 : ℕ) : F)) (4 : ℕ)).val ≠
      (Circuits.nullifier smallPoseidon2 1 (Circuits.commitment smallPoseidon2 ((7 : ℕ) : F)
        (Circuits.publicKey smallPoseidon2 1) ((5 : ℕ) : F)) (4 : ℕ)).val := by
    decide +kernel
  have hids : ∀ n ∈ sampleWallet.userNotes.records, noteId n.id = n.id := by
    intro n hn
    rw [sample_saved n hn]
    exact noteId_noteId _
  have hid : (savedNote none sampleParams).id = hex64 sampleOutputNote.commitmentBig :=
    noteId_hex64 (F.val_lt_word _)
  intro h
  refine hne ((@recognised_iff smallPoseidon2 (fun _ => "") sampleWallet (savedNote none sampleParams)
    1 _ rfl ?_ (by decide) hids sample_unspent fun key h => by cases h).mp h)
  rw [hid, sampleOutputNote, F.natCast_val]

end Enclave.App

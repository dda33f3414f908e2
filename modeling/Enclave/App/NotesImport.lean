import Enclave.App.NotesStore

/-! # Importing notes

`exportNotes` and `importNotes` of `notes-store.js`; a file stands here as parsed.  Every other
function of the module takes a commitment to its key first, `importNotes` looks a note up and
stores it under the key that the file has.  A file with a key of another spelling leaves a record
that `getNoteByCommitment` does not find, or a second one of the commitment
(`not_safeMerge_of_spelling`); otherwise the import is a safe merge (`safeMerge_iff`). -/

namespace Enclave.App

/-- What `exportNotes` writes. -/
structure ExportFile where
  version : ℕ
  notes : List UserNote

/-- `exportNotes`. -/
def exportNotes (w : Wallet) : ExportFile := ⟨1, w.userNotes.records⟩

/-- The loop of `importNotes`, with the number of notes added. -/
def importNote (s : Wallet × ℕ) (note : UserNote) : Wallet × ℕ :=
  match s.1.userNotes.get note.id with
  | none => (putNote note s.1, s.2 + 1)
  | some existing =>
      if !existing.spent && note.spent then
        (putNote { existing with spent := true, spentAtLedger := note.spentAtLedger } s.1, s.2)
      else s

/-- `importNotes`. -/
def importNotes (file : ExportFile) (w : Wallet) : Except String (Wallet × ℕ) :=
  if file.version ≠ 1 then .error s!"Unsupported export version: {file.version}"
  else .ok (file.notes.foldl importNote (w, 0))

/-! ### Stores that the app builds -/

/-- A call of `saveNote` or `markNoteSpent`, or another account. -/
inductive NoteCall where
  | saveNote (params : SaveParams)
  | markNoteSpent (commitment : String) (ledger : ℕ)
  | handleAccountChange (newAddress : Option String)

def NoteCall.run (w : Wallet) : NoteCall → Wallet
  | .saveNote params => ((App.saveNote params).exec w).2
  | .markNoteSpent commitment ledger => App.markNoteSpent commitment ledger w
  | .handleAccountChange newAddress => App.handleAccountChange newAddress w

/-- Calls on a wallet without notes. -/
def Built (w : Wallet) : Prop :=
  ∃ (w₀ : Wallet) (calls : List NoteCall), w₀.userNotes = .empty ∧ w = calls.foldl NoteCall.run w₀

/-- Every note stands under the key of its commitment. -/
def Normal (w : Wallet) : Prop := ∀ note ∈ w.userNotes.records, noteId note.id = note.id

variable {w w' : Wallet} {file : ExportFile} {note : UserNote} {notes : List UserNote} {n : ℕ}

theorem mem_putNote {x : UserNote} : x ∈ (putNote note w).userNotes.records ↔
    x = note ∨ x ∈ w.userNotes.records ∧ x.id ≠ note.id :=
  ObjectStore.mem_putPlain (h := uniqueIndexes_userNotes)

theorem get_putNote {key : String} : (putNote note w).userNotes.get key =
    if note.id = key then some note else w.userNotes.get key :=
  ObjectStore.get_putPlain (h := uniqueIndexes_userNotes)

theorem id_of_get {key : String} (h : w.userNotes.get key = some note) : note.id = key :=
  (ObjectStore.get_eq_some.mp h).2

theorem Normal.putNote (h : Normal w) (hnote : noteId note.id = note.id) :
    Normal (putNote note w) := by
  intro x hx
  obtain rfl | ⟨hx, -⟩ := mem_putNote.mp hx
  · exact hnote
  · exact h x hx

theorem Normal.run (h : Normal w) (call : NoteCall) : Normal (call.run w) := by
  cases call with
  | saveNote params => exact h.putNote (noteId_noteId params.commitment)
  | markNoteSpent commitment ledger =>
      change Normal (App.markNoteSpent commitment ledger w)
      unfold App.markNoteSpent
      cases hget : w.getNoteByCommitment commitment with
      | none => exact h
      | some note => exact h.putNote (h note (ObjectStore.get_eq_some.mp hget).1)
  | handleAccountChange newAddress =>
      change Normal (App.handleAccountChange newAddress w)
      unfold App.handleAccountChange
      split_ifs
      · exact h
      · exact h

/-- **The app stores notes under their keys only.** -/
theorem Built.normal (h : Built w) : Normal w := by
  obtain ⟨w₀, calls, hempty, rfl⟩ := h
  have hnormal : Normal w₀ := by
    intro note hnote
    rw [hempty] at hnote
    cases hnote
  clear hempty
  induction calls generalizing w₀ with
  | nil => exact hnormal
  | cons call calls ih => exact ih _ (hnormal.run call)

/-! ### One note -/

/-- A record may change in whether it is spent, and be spent from then on. -/
def KeptBy (x y : UserNote) : Prop :=
  y = { x with spent := y.spent, spentAtLedger := y.spentAtLedger } ∧
    (x.spent = true → y.spent = true)

theorem KeptBy.refl (x : UserNote) : KeptBy x x := ⟨rfl, id⟩

theorem KeptBy.trans {x y z : UserNote} (h : KeptBy x y) (h' : KeptBy y z) : KeptBy x z := by
  obtain ⟨hy, hspent⟩ := h
  obtain ⟨hz, hspent'⟩ := h'
  refine ⟨?_, hspent' ∘ hspent⟩
  rw [hz, hy]

/-- The store holds the note's key, and the spent mark if the note has it. -/
def Covers (w : Wallet) (note : UserNote) : Prop :=
  ∃ existing, w.userNotes.get note.id = some existing ∧ (note.spent = true → existing.spent = true)

/-- Every record of the first wallet is kept in the second. -/
def Grows (w w' : Wallet) : Prop :=
  ∀ key x, w.userNotes.get key = some x → ∃ y, w'.userNotes.get key = some y ∧ KeptBy x y

theorem Grows.refl (w : Wallet) : Grows w w := fun _ x h => ⟨x, h, .refl x⟩

theorem Grows.trans {w'' : Wallet} (h : Grows w w') (h' : Grows w' w'') : Grows w w'' := by
  intro key x hx
  obtain ⟨y, hy, hxy⟩ := h key x hx
  obtain ⟨z, hz, hyz⟩ := h' key y hy
  exact ⟨z, hz, hxy.trans hyz⟩

theorem Grows.covers (h : Grows w w') (hcovers : Covers w note) : Covers w' note := by
  obtain ⟨x, hx, hspent⟩ := hcovers
  obtain ⟨y, hy, hkept⟩ := h note.id x hx
  exact ⟨y, hy, hkept.2 ∘ hspent⟩

/-- **Step lemma**: a note of the file comes in, and nothing goes out. -/
theorem importNote_spec (w : Wallet) (n : ℕ) (note : UserNote) :
    Grows w (importNote (w, n) note).1 ∧ Covers (importNote (w, n) note).1 note ∧
      ∀ x ∈ (importNote (w, n) note).1.userNotes.records,
        x.id = note.id ∨ x ∈ w.userNotes.records := by
  unfold importNote
  cases hget : w.userNotes.get note.id with
  | none =>
      refine ⟨fun key x hx => ⟨x, ?_, .refl x⟩, ⟨note, ?_, id⟩, fun x hx => ?_⟩
      · rw [get_putNote, if_neg, hx]
        rintro rfl
        rw [hget] at hx
        cases hx
      · rw [get_putNote, if_pos rfl]
      · obtain rfl | ⟨hx, -⟩ := mem_putNote.mp hx
        · exact .inl rfl
        · exact .inr hx
  | some existing =>
      have hid := id_of_get hget
      dsimp only
      split_ifs with hspent
      · rw [Bool.and_eq_true] at hspent
        refine ⟨fun key x hx => ?_, ⟨{ existing with
          spent := true, spentAtLedger := note.spentAtLedger }, ?_, fun _ => rfl⟩, fun x hx => ?_⟩
        · by_cases hkey : existing.id = key
          · obtain rfl : x = existing := by
              rw [← hkey, hid] at hx
              exact Option.some.inj (hx.symm.trans hget)
            refine ⟨{ x with spent := true, spentAtLedger := note.spentAtLedger }, ?_, rfl,
              fun _ => rfl⟩
            rw [get_putNote, if_pos hkey]
          · exact ⟨x, by rw [get_putNote, if_neg hkey, hx], .refl x⟩
        · rw [get_putNote, if_pos hid]
        · obtain rfl | ⟨hx, -⟩ := mem_putNote.mp hx
          · exact .inl hid
          · exact .inr hx
      · refine ⟨.refl w, ⟨existing, hget, fun hnote => ?_⟩, fun x hx => .inr hx⟩
        rw [hnote, Bool.and_true, Bool.not_eq_true, Bool.not_eq_false'] at hspent
        exact hspent

theorem importNote_of_covers (h : Covers w note) : importNote (w, n) note = (w, n) := by
  obtain ⟨existing, hget, hspent⟩ := h
  unfold importNote
  rw [hget]
  dsimp only
  rw [if_neg]
  rw [Bool.and_eq_true, not_and]
  intro hunspent hnote
  rw [hspent hnote] at hunspent
  cases hunspent

/-! ### The whole file -/

/-- **Run lemma.** -/
theorem foldl_importNote_spec (notes : List UserNote) (w : Wallet) (n : ℕ) :
    Grows w (notes.foldl importNote (w, n)).1 ∧
      (∀ note ∈ notes, Covers (notes.foldl importNote (w, n)).1 note) ∧
      ∀ x ∈ (notes.foldl importNote (w, n)).1.userNotes.records,
        (∃ note ∈ notes, x.id = note.id) ∨ x ∈ w.userNotes.records := by
  induction notes generalizing w n with
  | nil =>
      refine ⟨.refl w, fun note hnote => ?_, fun x hx => Or.inr hx⟩
      cases hnote
  | cons note notes ih =>
      obtain ⟨hgrows, hcovers, hmem⟩ := importNote_spec w n note
      obtain ⟨hgrows', hcovers', hmem'⟩ := ih (importNote (w, n) note).1 (importNote (w, n) note).2
      refine ⟨hgrows.trans hgrows', ?_, fun x hx => ?_⟩
      · rw [List.forall_mem_cons]
        exact ⟨hgrows'.covers hcovers, hcovers'⟩
      · obtain ⟨note', hnote', hid⟩ | hx := hmem' x hx
        · exact .inl ⟨note', List.mem_cons_of_mem _ hnote', hid⟩
        · obtain hid | hx := hmem x hx
          · exact .inl ⟨note, List.mem_cons_self, hid⟩
          · exact .inr hx

theorem foldl_importNote_of_covers (h : ∀ note ∈ notes, Covers w note) :
    notes.foldl importNote (w, n) = (w, n) := by
  induction notes with
  | nil => rfl
  | cons note notes ih =>
      obtain ⟨hnote, hnotes⟩ := List.forall_mem_cons.mp h
      rw [List.foldl_cons, importNote_of_covers hnote, ih hnotes]

/-! ### Safe merges -/

/-- The import of a file into a wallet is a safe merge. -/
structure SafeMerge (file : ExportFile) (w w' : Wallet) : Prop where
  idempotent : importNotes file w' = .ok (w', 0)
  staysSpent : ∀ key x, w.userNotes.get key = some x → x.spent = true →
    ∃ y, w'.userNotes.get key = some y ∧ y.spent = true
  keeps : ∀ key x, w.userNotes.get key = some x → ∃ y, w'.userNotes.get key = some y ∧
    y = { x with spent := y.spent, spentAtLedger := y.spentAtLedger }
  unique : ∀ x ∈ w'.userNotes.records, ∀ y ∈ w'.userNotes.records,
    noteId x.id = noteId y.id → x = y
  retrievable : ∀ note ∈ file.notes, (w'.getNoteByCommitment note.id).isSome = true

/-- Every commitment of the file is spelled as the app's keys are: lower case, after `0x`. -/
def Spelled (file : ExportFile) : Prop := ∀ note ∈ file.notes, noteId note.id = note.id

/-- **Another spelling**: the record cannot be found, or is the second of its commitment. -/
theorem not_safeMerge_of_spelling (hcovers : ∀ note ∈ file.notes, Covers w' note)
    (hspelled : ¬ Spelled file) : ¬ SafeMerge file w w' := by
  unfold Spelled at hspelled
  push Not at hspelled
  obtain ⟨note, hnote, hne⟩ := hspelled
  intro hsafe
  obtain ⟨x, hx, -⟩ := hcovers note hnote
  obtain ⟨y, hy⟩ := Option.isSome_iff_exists.mp (hsafe.retrievable note hnote)
  obtain ⟨hxmem, hxid⟩ := ObjectStore.get_eq_some.mp hx
  obtain ⟨hymem, hyid⟩ := ObjectStore.get_eq_some.mp hy
  change x.id = note.id at hxid
  change y.id = noteId note.id at hyid
  have hsame := hsafe.unique x hxmem y hymem (by rw [hxid, hyid, noteId_noteId])
  exact hne (by rw [← hyid, ← hsame, hxid])

/-- **The import of a file is a safe merge exactly if** the file spells commitments as keys. -/
theorem safeMerge_iff (hbuilt : Built w) (hversion : file.version = 1) :
    ∃ w' n, importNotes file w = .ok (w', n) ∧ (SafeMerge file w w' ↔ Spelled file) := by
  obtain ⟨hgrows, hcovers, hmem⟩ := foldl_importNote_spec file.notes w 0
  have himport : ∀ u : Wallet, importNotes file u = .ok (file.notes.foldl importNote (u, 0)) :=
    fun u => if_neg (not_not.mpr hversion)
  refine ⟨_, _, himport w, ?_⟩
  constructor
  · intro hsafe
    by_contra hspelled
    exact not_safeMerge_of_spelling hcovers hspelled hsafe
  · intro hspelled
    have hnormal : Normal (file.notes.foldl importNote (w, 0)).1 := by
      intro x hx
      obtain ⟨note, hnote, hid⟩ | hx := hmem x hx
      · rw [hid, hspelled note hnote]
      · exact hbuilt.normal x hx
    refine ⟨?_, ?_, ?_, ?_, ?_⟩
    · rw [himport, foldl_importNote_of_covers hcovers]
    · intro key x hx hspent
      obtain ⟨y, hy, hkept⟩ := hgrows key x hx
      exact ⟨y, hy, hkept.2 hspent⟩
    · intro key x hx
      obtain ⟨y, hy, hkept⟩ := hgrows key x hx
      exact ⟨y, hy, hkept.1⟩
    · intro x hx y hy hid
      rw [hnormal x hx, hnormal y hy] at hid
      exact List.inj_on_of_nodup_map (ObjectStore.nodup_keys _) hx hy hid
    · intro note hnote
      obtain ⟨x, hx, -⟩ := hcovers note hnote
      rw [Wallet.getNoteByCommitment, hspelled note hnote, hx]
      rfl

/-- What the app exports is spelled so. -/
theorem spelled_exportNotes (h : Built w) : Spelled (exportNotes w) := h.normal

/-! ### A sample -/

def blankWallet : Wallet where
  pool := .blank
  userNotes := .empty
  currentOwner := some "owner"
  cachedEncryptionKeypair := none
  cachedNoteKeypair := none
  lastScannedLedger := 0

/-- A note of 5 under a given key. -/
def importedNote (id : String) : UserNote where
  id := id
  owner := "owner"
  privateKey := "0x01"
  blinding := "0x02"
  amount := "5"
  leafIndex := 0
  createdAtLedger := 0
  spent := false
  spentAtLedger := none
  isReceived := false

/-- A note of 5 that the app saves. -/
def sampleSave (commitment : String) : SaveParams where
  commitment := commitment
  privateKey := .text "0x01"
  blinding := .text "0x02"
  amount := "5"
  leafIndex := 0
  ledger := 0
  owner := none
  isReceived := false

/-- A wallet with two notes, of which the first is spent. -/
def importingWallet : Wallet :=
  [NoteCall.saveNote (sampleSave "AB"), .saveNote (sampleSave "0xcd"),
    .markNoteSpent "0xab" 7].foldl NoteCall.run blankWallet

/-- The same two notes, of which the second is spent, and another one. -/
def sampleExport : ExportFile where
  version := 1
  notes := [importedNote "0xab",
    { importedNote "0xcd" with spent := true, spentAtLedger := some 9 }, importedNote "0xef"]

theorem safeMerge_sample : ∃ w' n, importNotes sampleExport importingWallet = .ok (w', n) ∧
    SafeMerge sampleExport importingWallet w' := by
  obtain ⟨w', n, himport, hsafe⟩ := @safeMerge_iff importingWallet sampleExport
    ⟨blankWallet, _, rfl, rfl⟩ rfl
  refine ⟨w', n, himport, hsafe.mpr ?_⟩
  unfold Spelled
  decide

/-- Both stay spent. -/
example : (importNotes sampleExport importingWallet).toOption.map
    (fun r => r.1.userNotes.records.map fun x => (x.id, x.spentAtLedger)) =
      some [("0xab", some 7), ("0xcd", some 9), ("0xef", none)] := by
  decide

/-- A note whose key has a capital is imported and not found. -/
theorem imported_not_found : ∃ w' n,
    importNotes ⟨1, [importedNote "0xAB"]⟩ blankWallet = .ok (w', n) ∧
      w'.getNoteByCommitment "0xAB" = none ∧
      ¬ SafeMerge ⟨1, [importedNote "0xAB"]⟩ blankWallet w' := by
  refine ⟨putNote (importedNote "0xAB") blankWallet, 1, rfl, rfl, fun hsafe => ?_⟩
  have hfound := hsafe.retrievable _ List.mem_cons_self
  cases hfound

end Enclave.App

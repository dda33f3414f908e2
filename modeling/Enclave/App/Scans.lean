import Enclave.App.PoolFrames
import Enclave.App.SavedNotes

/-! # What a scan finds

A scan never throws.  Afterwards a note is stored if it was before, or if its output was examined,
opens with the keypairs of the account, and the encryption keypair was there when its turn came
(`exec_scanForNotes`). -/

namespace Enclave.App

open Prover Js

variable {k : Crypto} {w w' : Wallet} {owner : Option String} {nk : Keypair}
  {output : PoolEncryptedOutput} {result : ScanResult}

/-! ### Keypairs of an account -/

/-- The encryption keypair of an account, if its wallet signs. -/
def encryptionKeypairOf (k : Crypto) (owner : Option String) : Option Keypair :=
  (requestSignature k owner encryptionMessage true).bind fun signature =>
    (deriveEncryptionKeypairFromSignature k signature).toOption

def noteKeypairOf (k : Crypto) (owner : Option String) : Option Keypair :=
  (requestSignature k owner spendingKeyMessage true).bind fun signature =>
    (deriveNoteKeypair k signature).toOption

theorem length_of_requestSignature {message : String} {approves : Bool} {signature : List UInt8}
    (h : requestSignature k owner message approves = some signature) : signature.length = 64 := by
  unfold requestSignature at h
  split_ifs at h with happroves
  rw [← Option.some.inj h]
  exact happroves.2

theorem exists_encryptionKeypair {signature : List UInt8} (h : signature.length = 64) :
    ∃ keypair, deriveEncryptionKeypairFromSignature k signature = .ok keypair := by
  unfold deriveEncryptionKeypairFromSignature deriveKeypairFromSignature
  rw [if_neg (not_not.mpr h)]
  exact ⟨_, rfl⟩

theorem deriveNoteKeypair_eq {signature : List UInt8} (h : signature.length = 64) :
    deriveNoteKeypair k signature =
      .ok (keypairOf k.poseidon2 (leValue (k.sha256 signature) : F)) := by
  unfold deriveNoteKeypair deriveNotePrivateKey
  rw [if_neg (not_not.mpr h), Result.ok_bind, derivePublicKey_scalarToBytes]
  rfl

theorem exists_keypairOf (h : noteKeypairOf k owner = some nk) :
    ∃ sk, nk = keypairOf k.poseidon2 sk := by
  obtain ⟨signature, hsignature, h⟩ := Option.bind_eq_some_iff.mp h
  rw [deriveNoteKeypair_eq (length_of_requestSignature hsignature)] at h
  exact ⟨_, (Option.some.inj h).symm⟩

/-- Cached keypairs are those of the current account. -/
structure Wallet.KeysFit (k : Crypto) (w : Wallet) : Prop where
  encryption : ∀ keypair, w.cachedEncryptionKeypair = some keypair →
    encryptionKeypairOf k w.currentOwner = some keypair
  note : ∀ keypair, w.cachedNoteKeypair = some keypair →
    noteKeypairOf k w.currentOwner = some keypair

/-- What `getUserEncryptionKeypair` returns. -/
def Wallet.encryptionKeypair (k : Crypto) (approves : Bool) (w : Wallet) : Option Keypair :=
  w.cachedEncryptionKeypair.or (if approves then encryptionKeypairOf k w.currentOwner else none)

/-- What `getUserNoteKeypair` returns. -/
def Wallet.noteKeypair (k : Crypto) (approves : Bool) (w : Wallet) : Option Keypair :=
  w.cachedNoteKeypair.or (if approves then noteKeypairOf k w.currentOwner else none)

theorem exec_getUserEncryptionKeypair (k : Crypto) (approves : Bool) (w : Wallet) :
    (getUserEncryptionKeypair k approves).exec w =
      (.ok (w.encryptionKeypair k approves),
        { w with cachedEncryptionKeypair := w.encryptionKeypair k approves }) := by
  obtain ⟨pool, notes, owner, cached, note, ledger⟩ := w
  cases cached with
  | some keypair => rfl
  | none =>
      cases approves with
      | false => rfl
      | true =>
          unfold Wallet.encryptionKeypair encryptionKeypairOf getUserEncryptionKeypair
          rw [Wasm.exec_bind_of_ok (Wasm.exec_get _)]
          dsimp only [Option.isSome_none, Bool.false_eq_true, if_false, Option.none_or, if_true]
          cases hsignature : requestSignature k owner encryptionMessage true with
          | none => rfl
          | some signature =>
              obtain ⟨keypair, hkeypair⟩ :=
                exists_encryptionKeypair (k := k) (length_of_requestSignature hsignature)
              dsimp only [Option.bind_some]
              rw [hkeypair]
              rfl

theorem exec_getUserNoteKeypair (k : Crypto) (approves : Bool) (w : Wallet) :
    (getUserNoteKeypair k approves).exec w =
      (.ok (w.noteKeypair k approves),
        { w with cachedNoteKeypair := w.noteKeypair k approves }) := by
  obtain ⟨pool, notes, owner, cached, note, ledger⟩ := w
  cases note with
  | some keypair => rfl
  | none =>
      cases approves with
      | false => rfl
      | true =>
          unfold Wallet.noteKeypair noteKeypairOf getUserNoteKeypair
          rw [Wasm.exec_bind_of_ok (Wasm.exec_get _)]
          dsimp only [Option.isSome_none, Bool.false_eq_true, if_false, Option.none_or, if_true]
          cases hsignature : requestSignature k owner spendingKeyMessage true with
          | none => rfl
          | some signature =>
              dsimp only [Option.bind_some]
              rw [deriveNoteKeypair_eq (length_of_requestSignature hsignature)]
              rfl

/-! ### One output -/

/-- The output decrypts with one keypair to an amount other than zero, and its commitment is that of
the other. -/
def PoolEncryptedOutput.Opens (k : Crypto) (ek nk : Keypair) (output : PoolEncryptedOutput) :
    Prop :=
  ∃ encrypted decrypted, hexToBytes output.encryptedOutput = .ok encrypted ∧
    decryptNoteData k.cipher ek.privateKey encrypted = some decrypted ∧ decrypted.amount ≠ 0 ∧
    verifyNoteCommitment k.poseidon2 decrypted nk.publicKey output.commitment = true

/-- A note is stored for a commitment. -/
def Wallet.Knows (w : Wallet) (commitment : String) : Prop :=
  (w.getNoteByCommitment commitment).isSome

/-- Text of an encrypted output. -/
def IsCiphertext (text : String) (encrypted : List UInt8) : Prop :=
  hexToBytes text = .ok encrypted ∧ 112 ≤ encrypted.length

/-- A scan asks for the encryption keypair to try the output. -/
def Wallet.Tries (w : Wallet) (output : PoolEncryptedOutput) : Prop :=
  ¬ w.Knows output.commitment ∧ ∃ encrypted, IsCiphertext output.encryptedOutput encrypted

theorem le_length_of_decryptNoteData {c : Cipher} {priv encrypted : List UInt8} {note : NoteData}
    (h : decryptNoteData c priv encrypted = some note) : 112 ≤ encrypted.length := by
  by_contra hlen
  unfold decryptNoteData Prover.decryptNoteData at h
  split_ifs at h with hpriv hshort
  exact hshort (not_le.mp hlen)

theorem PoolEncryptedOutput.Opens.exists_isCiphertext {ek : Keypair} (h : output.Opens k ek nk) :
    ∃ encrypted, IsCiphertext output.encryptedOutput encrypted := by
  obtain ⟨encrypted, decrypted, hbytes, hdecrypt, -, -⟩ := h
  exact ⟨encrypted, hbytes, le_length_of_decryptNoteData hdecrypt⟩

theorem opens_iff {ek : Keypair} {encrypted : List UInt8}
    (h : IsCiphertext output.encryptedOutput encrypted) : output.Opens k ek nk ↔
      ∃ decrypted, decryptNoteData k.cipher ek.privateKey encrypted = some decrypted ∧
        decrypted.amount ≠ 0 ∧
        verifyNoteCommitment k.poseidon2 decrypted nk.publicKey output.commitment = true := by
  constructor
  · rintro ⟨encrypted', decrypted, hbytes, hopens⟩
    rw [Except.ok.inj (hbytes.symm.trans h.1)] at hopens
    exact ⟨decrypted, hopens⟩
  · rintro ⟨decrypted, hopens⟩
    exact ⟨encrypted, decrypted, h.1, hopens⟩

theorem exec_tryDecryptNote {text : String} {encrypted : List UInt8}
    (h : IsCiphertext text encrypted) (approves : Bool) (w : Wallet) :
    (tryDecryptNote k text approves).exec w =
      (.ok ((w.encryptionKeypair k approves).bind fun keypair =>
          decryptNoteData k.cipher keypair.privateKey encrypted),
        { w with cachedEncryptionKeypair := w.encryptionKeypair k approves }) := by
  unfold tryDecryptNote
  refine Wasm.exec_tryCatch_of_ok ?_ _
  rw [h.1]
  refine (Wasm.exec_bind_of_ok (Wasm.exec_pure encrypted w) _).trans ?_
  rw [if_neg (not_lt.mpr h.2), Wasm.exec_bind_of_ok (exec_getUserEncryptionKeypair k approves w)]
  cases w.encryptionKeypair k approves with
  | none => rfl
  | some keypair => rfl

theorem exec_tryDecryptNote_skipped {text : String} (h : ¬ ∃ encrypted, IsCiphertext text encrypted)
    (approves : Bool) (w : Wallet) : (tryDecryptNote k text approves).exec w = (.ok none, w) := by
  unfold tryDecryptNote
  cases hbytes : hexToBytes text with
  | error message => rfl
  | ok encrypted =>
      have hlen : encrypted.length < 112 := not_le.mp fun hlen => h ⟨encrypted, hbytes, hlen⟩
      refine Wasm.exec_tryCatch_of_ok ?_ _
      refine (Wasm.exec_bind_of_ok (Wasm.exec_pure encrypted w) _).trans ?_
      rw [if_pos hlen]
      rfl

theorem exists_discoveredParams {decrypted : NoteData}
    (h : verifyNoteCommitment k.poseidon2 decrypted nk.publicKey output.commitment = true) :
    ∃ params, discoveredParams nk decrypted output = .ok params ∧
      params.commitment = output.commitment := by
  have hlength : decrypted.blinding.length = 32 := by
    by_contra hlength
    unfold verifyNoteCommitment commitmentMatches at h
    cases hamount : bigintToField decrypted.amount with
    | error e =>
        rw [hamount] at h
        cases h
    | ok amountBytes =>
        rw [hamount, Result.ok_bind, if_pos (.inr (.inr hlength))] at h
        cases h
  unfold discoveredParams fieldToHex
  rw [bytesToScalar_of_length hlength]
  exact ⟨_, rfl, rfl⟩

structure Scanned (k : Crypto) (nk : Keypair) (approves : Bool) (output : PoolEncryptedOutput)
    (w w' : Wallet) : Prop where
  pool : w'.pool = w.pool
  currentOwner : w'.currentOwner = w.currentOwner
  cachedNoteKeypair : w'.cachedNoteKeypair = w.cachedNoteKeypair
  lastScannedLedger : w'.lastScannedLedger = w.lastScannedLedger
  tried : w.Tries output → w'.cachedEncryptionKeypair = w.encryptionKeypair k approves
  skipped : ¬ w.Tries output → w'.cachedEncryptionKeypair = w.cachedEncryptionKeypair
  knows : ∀ commitment, w'.Knows commitment ↔ w.Knows commitment ∨
    noteId commitment = noteId output.commitment ∧
      ∃ ek, w'.cachedEncryptionKeypair = some ek ∧ output.Opens k ek nk

theorem knows_congr {commitment : String} (h : w'.userNotes = w.userNotes) :
    w'.Knows commitment ↔ w.Knows commitment := by
  rw [Wallet.Knows, Wallet.getNoteByCommitment, h]
  rfl

theorem knows_putNote {note : UserNote} {commitment : String} :
    (putNote note w).Knows commitment ↔
      w.Knows commitment ∨ noteId commitment = note.id := by
  unfold Wallet.Knows Wallet.getNoteByCommitment putNote
  dsimp only
  rw [ObjectStore.get_putPlain]
  split_ifs with hid
  · exact iff_of_true rfl (.inr hid.symm)
  · exact (or_iff_left fun h => hid h.symm).symm

/-- **One output.** -/
theorem exec_scanOutput (k : Crypto) (nk : Keypair) (approves : Bool)
    (output : PoolEncryptedOutput) (result : ScanResult) (w : Wallet) : ∃ result' w',
    (scanOutput k nk approves output result).exec w = (.ok result', w') ∧
      result'.scanned = result.scanned + 1 ∧ Scanned k nk approves output w w' := by
  unfold scanOutput
  rw [Wasm.exec_bind_of_ok (Wasm.exec_get w)]
  by_cases hknown : (w.getNoteByCommitment output.commitment).isSome = true
  · rw [if_pos hknown]
    refine ⟨_, w, rfl, rfl, rfl, rfl, rfl, rfl, fun h => absurd hknown h.1, fun _ => rfl, ?_⟩
    refine fun commitment => (or_iff_left_of_imp ?_).symm
    rintro ⟨hid, -⟩
    unfold Wallet.Knows Wallet.getNoteByCommitment
    rwa [hid]
  · rw [if_neg hknown]
    by_cases hcipher : ∃ encrypted, IsCiphertext output.encryptedOutput encrypted
    · obtain ⟨encrypted, hencrypted⟩ := hcipher
      rw [Wasm.exec_bind_of_ok (exec_tryDecryptNote hencrypted approves w)]
      have htries : w.Tries output := ⟨hknown, encrypted, hencrypted⟩
      -- nothing is saved if the output does not open
      have hclosed (result' : ScanResult) (hscanned : result'.scanned = result.scanned + 1)
          (h : ∀ ek, w.encryptionKeypair k approves = some ek → ¬ output.Opens k ek nk) :
          result'.scanned = result.scanned + 1 ∧ Scanned k nk approves output w
            { w with cachedEncryptionKeypair := w.encryptionKeypair k approves } := by
        refine ⟨hscanned, rfl, rfl, rfl, rfl, fun _ => rfl, fun h => absurd htries h, ?_⟩
        refine fun commitment => (or_iff_left_of_imp ?_).symm
        rintro ⟨-, ek, hek, hopens⟩
        exact absurd hopens (h ek hek)
      cases hek : w.encryptionKeypair k approves with
      | none =>
          rw [hek] at hclosed
          exact ⟨_, _, rfl, hclosed _ rfl nofun⟩
      | some ek =>
          rw [hek] at hclosed
          rw [Option.bind_some]
          cases hdecrypt : decryptNoteData k.cipher ek.privateKey encrypted with
          | none =>
              refine ⟨_, _, rfl, hclosed _ rfl fun ek' hek' hopens => ?_⟩
              obtain ⟨decrypted, h, -⟩ := (opens_iff hencrypted).mp (Option.some.inj hek' ▸ hopens)
              cases hdecrypt.symm.trans h
          | some decrypted =>
              have hopens : output.Opens k ek nk ↔ decrypted.amount ≠ 0 ∧ verifyNoteCommitment
                  k.poseidon2 decrypted nk.publicKey output.commitment = true := by
                refine (opens_iff hencrypted).trans ⟨?_, fun h => ⟨decrypted, hdecrypt, h⟩⟩
                rintro ⟨decrypted', h, hchecks⟩
                rwa [Option.some.inj (h.symm.trans hdecrypt)] at hchecks
              dsimp only
              split_ifs with hzero hverify
              · exact ⟨_, _, rfl, hclosed _ rfl fun ek' hek' h =>
                  (hopens.mp (Option.some.inj hek' ▸ h)).1 hzero⟩
              · refine ⟨_, _, rfl, hclosed _ rfl fun ek' hek' h => ?_⟩
                rw [(hopens.mp (Option.some.inj hek' ▸ h)).2] at hverify
                cases hverify
              · rw [Bool.not_eq_true, Bool.not_eq_false'] at hverify
                obtain ⟨params, hparams, hcommitment⟩ := exists_discoveredParams hverify
                have hstill : ¬ (({ w with cachedEncryptionKeypair := some ek } :
                    Wallet).getNoteByCommitment output.commitment).isSome = true := hknown
                rw [Wasm.exec_bind_of_ok (Wasm.exec_get _), if_neg hstill, hparams]
                refine ⟨_, _, rfl, rfl, rfl, rfl, rfl, rfl, fun _ => hek.symm,
                  fun h => absurd htries h, fun commitment => ?_⟩
                rw [knows_putNote]
                refine or_congr (knows_congr rfl) ?_
                rw [savedNote, hcommitment]
                exact (and_iff_left ⟨ek, rfl, hopens.mpr ⟨hzero, hverify⟩⟩).symm
    · rw [Wasm.exec_bind_of_ok (exec_tryDecryptNote_skipped hcipher approves w)]
      refine ⟨_, w, rfl, rfl, rfl, rfl, rfl, rfl, fun h => absurd h.2 hcipher, fun _ => rfl, ?_⟩
      refine fun commitment => (or_iff_left_of_imp ?_).symm
      rintro ⟨-, ek, -, hopens⟩
      exact absurd hopens.exists_isCiphertext hcipher

/-! ### Many outputs -/

theorem Wallet.KeysFit.congr (h : w.KeysFit k) (howner : w'.currentOwner = w.currentOwner)
    (henc : w'.cachedEncryptionKeypair = w.cachedEncryptionKeypair)
    (hnote : w'.cachedNoteKeypair = w.cachedNoteKeypair) : w'.KeysFit k where
  encryption keypair hkeypair := by
    rw [howner]
    exact h.encryption keypair (henc ▸ hkeypair)
  note keypair hkeypair := by
    rw [howner]
    exact h.note keypair (hnote ▸ hkeypair)

theorem Wallet.KeysFit.encryptionKeypair_eq (h : w.KeysFit k) {approves : Bool} {ek : Keypair}
    (hek : w.encryptionKeypair k approves = some ek) :
    encryptionKeypairOf k w.currentOwner = some ek := by
  obtain hcached | ⟨-, hnew⟩ := Option.or_eq_some_iff.mp hek
  · exact h.encryption ek hcached
  · split_ifs at hnew
    exact hnew

theorem Wallet.KeysFit.noteKeypair_eq (h : w.KeysFit k) {approves : Bool}
    (hnk : w.noteKeypair k approves = some nk) : noteKeypairOf k w.currentOwner = some nk := by
  obtain hcached | ⟨-, hnew⟩ := Option.or_eq_some_iff.mp hnk
  · exact h.note nk hcached
  · split_ifs at hnew
    exact hnew

variable {approves : Bool}

theorem Scanned.fits (h : Scanned k nk approves output w w') (hfit : w.KeysFit k) :
    w'.KeysFit k where
  encryption keypair hkeypair := by
    rw [h.currentOwner]
    by_cases htries : w.Tries output
    · exact hfit.encryptionKeypair_eq ((h.tried htries).symm.trans hkeypair)
    · exact hfit.encryption keypair ((h.skipped htries).symm.trans hkeypair)
  note keypair hkeypair := by
    rw [h.currentOwner]
    exact hfit.note keypair (h.cachedNoteKeypair ▸ hkeypair)

theorem Scanned.keeps (h : Scanned k nk approves output w w') {ek : Keypair}
    (hek : w.cachedEncryptionKeypair = some ek) : w'.cachedEncryptionKeypair = some ek := by
  by_cases htries : w.Tries output
  · rw [h.tried htries, Wallet.encryptionKeypair, hek, Option.some_or]
  · rw [h.skipped htries, hek]

/-- The encryption keypair is cached, or the output is tried and the user approves. -/
theorem Scanned.isSome_iff (h : Scanned k nk approves output w w') {ek : Keypair}
    (hek : encryptionKeypairOf k w.currentOwner = some ek) :
    w'.cachedEncryptionKeypair.isSome ↔
      w.cachedEncryptionKeypair.isSome ∨ w.Tries output ∧ approves = true := by
  by_cases htries : w.Tries output
  · rw [h.tried htries, Wallet.encryptionKeypair, Option.isSome_or, Bool.or_eq_true]
    refine or_congr Iff.rfl ?_
    rw [and_iff_right htries, hek]
    cases approves with
    | false => exact Iff.rfl
    | true => exact Iff.rfl
  · rw [h.skipped htries]
    exact (or_iff_left fun htried => htries htried.1).symm

/-- The encryption keypair is there when the output at `j` has its turn: it was cached, or the user
has approved. -/
def Wallet.Ready (w : Wallet) (approves : ℕ → Bool) (outputs : List PoolEncryptedOutput) (j : ℕ) :
    Prop :=
  w.cachedEncryptionKeypair.isSome ∨
    ∃ i ≤ j, ∃ output, outputs[i]? = some output ∧ w.Tries output ∧ approves i = true

/-- A scan of the outputs comes upon the note of a commitment. -/
def Wallet.Finds (k : Crypto) (nk : Keypair) (approves : ℕ → Bool)
    (outputs : List PoolEncryptedOutput) (w : Wallet) (commitment : String) : Prop :=
  ∃ j output, outputs[j]? = some output ∧ noteId commitment = noteId output.commitment ∧
    w.Ready approves outputs j ∧
    ∃ ek, encryptionKeypairOf k w.currentOwner = some ek ∧ output.Opens k ek nk

variable {approvals : ℕ → Bool} {rest : List PoolEncryptedOutput} {ek : Keypair} {j : ℕ}

theorem Scanned.ready_zero (h : Scanned k nk (approvals 0) output w w')
    (hek : encryptionKeypairOf k w.currentOwner = some ek) :
    w.Ready approvals (output :: rest) 0 ↔ w'.cachedEncryptionKeypair.isSome := by
  rw [h.isSome_iff hek, Wallet.Ready]
  refine or_congr Iff.rfl ⟨?_, fun htries => ⟨0, le_rfl, output, rfl, htries⟩⟩
  rintro ⟨i, hi, output', houtput, htries⟩
  obtain rfl := Nat.le_zero.mp hi
  obtain rfl := Option.some.inj houtput
  exact htries

theorem Scanned.tries_of_tries (h : Scanned k nk approves output w w')
    {output' : PoolEncryptedOutput} (htries : w'.Tries output') : w.Tries output' :=
  ⟨fun hknown => htries.1 ((h.knows _).mpr (.inl hknown)), htries.2⟩

theorem Scanned.ready_succ (h : Scanned k nk (approvals 0) output w w')
    (hek : encryptionKeypairOf k w.currentOwner = some ek) :
    w.Ready approvals (output :: rest) (j + 1) ↔
      w'.Ready (fun i => approvals (i + 1)) rest j := by
  constructor
  · rintro (hcached | ⟨i, hi, output', houtput, htries, happroves⟩)
    · exact .inl ((h.isSome_iff hek).mpr (.inl hcached))
    · cases i with
      | zero =>
          obtain rfl := Option.some.inj houtput
          exact .inl ((h.isSome_iff hek).mpr (.inr ⟨htries, happroves⟩))
      | succ i =>
          -- if the note is there by now, the keypair is as well
          by_cases hknown : w'.Knows output'.commitment
          · obtain hold | ⟨-, ek', hek', -⟩ := (h.knows _).mp hknown
            · exact absurd hold htries.1
            · exact .inl (Option.isSome_iff_exists.mpr ⟨ek', hek'⟩)
          · exact .inr ⟨i, Nat.le_of_succ_le_succ hi, output', houtput, ⟨hknown, htries.2⟩,
              happroves⟩
  · rintro (hcached | ⟨i, hi, output', houtput, htries, happroves⟩)
    · obtain hcached | ⟨htries, happroves⟩ := (h.isSome_iff hek).mp hcached
      · exact .inl hcached
      · exact .inr ⟨0, Nat.zero_le _, output, rfl, htries, happroves⟩
    · exact .inr ⟨i + 1, Nat.succ_le_succ hi, output', houtput, h.tries_of_tries htries, happroves⟩

structure ScannedAll (k : Crypto) (nk : Keypair) (approvals : ℕ → Bool)
    (outputs : List PoolEncryptedOutput) (w w' : Wallet) : Prop where
  pool : w'.pool = w.pool
  currentOwner : w'.currentOwner = w.currentOwner
  cachedNoteKeypair : w'.cachedNoteKeypair = w.cachedNoteKeypair
  lastScannedLedger : w'.lastScannedLedger = w.lastScannedLedger
  keeps : ∀ ek, w.cachedEncryptionKeypair = some ek → w'.cachedEncryptionKeypair = some ek
  fits : w'.KeysFit k
  knows : ∀ commitment, w'.Knows commitment ↔
    w.Knows commitment ∨ w.Finds k nk approvals outputs commitment

theorem Scanned.finds_cons (approvals : ℕ → Bool) (h : Scanned k nk (approvals 0) output w w')
    (hfit : w.KeysFit k) (commitment : String) :
    w.Finds k nk approvals (output :: rest) commitment ↔
      (noteId commitment = noteId output.commitment ∧
        ∃ ek, w'.cachedEncryptionKeypair = some ek ∧ output.Opens k ek nk) ∨
      w'.Finds k nk (fun i => approvals (i + 1)) rest commitment := by
  unfold Wallet.Finds
  rw [← Nat.or_exists_add_one]
  refine or_congr ⟨?_, ?_⟩ (exists_congr fun j => exists_congr fun output' =>
    and_congr Iff.rfl (and_congr Iff.rfl ?_))
  · rintro ⟨output', houtput, hid, hready, ek, hek, hopens⟩
    obtain rfl := Option.some.inj houtput
    obtain ⟨ek', hek'⟩ := Option.isSome_iff_exists.mp ((h.ready_zero hek).mp hready)
    have hsame := (h.fits hfit).encryption ek' hek'
    rw [h.currentOwner, hek] at hsame
    exact ⟨hid, ek, hek'.trans hsame.symm, hopens⟩
  · rintro ⟨hid, ek, hek, hopens⟩
    have hown := (h.fits hfit).encryption ek hek
    rw [h.currentOwner] at hown
    exact ⟨output, rfl, hid, (h.ready_zero hown).mpr (Option.isSome_iff_exists.mpr ⟨ek, hek⟩), ek,
      hown, hopens⟩
  · rw [h.currentOwner]
    refine and_congr_left ?_
    rintro ⟨ek, hek, -⟩
    exact h.ready_succ hek

/-- **All outputs**, one after the other. -/
theorem exec_scanOutputs (k : Crypto) (nk : Keypair) (approvals : ℕ → Bool)
    (outputs : List PoolEncryptedOutput) (i : ℕ) (result : ScanResult) (hfit : w.KeysFit k) :
    ∃ result' w', (scanOutputs k nk approvals i outputs result).exec w = (.ok result', w') ∧
      result'.scanned = result.scanned + outputs.length ∧
      ScannedAll k nk (fun j => approvals (i + j)) outputs w w' := by
  induction outputs generalizing i result w with
  | nil =>
      refine ⟨result, w, rfl, rfl, rfl, rfl, rfl, rfl, fun _ => id, hfit, fun commitment => ?_⟩
      refine (or_iff_left ?_).symm
      rintro ⟨j, output, houtput, -⟩
      cases houtput
  | cons output rest ih =>
      obtain ⟨result₁, w₁, hexec₁, hscanned₁, h₁⟩ :=
        exec_scanOutput k nk (approvals i) output result w
      obtain ⟨result₂, w₂, hexec₂, hscanned₂, h₂⟩ := ih (i + 1) result₁ (h₁.fits hfit)
      refine ⟨result₂, w₂, ?_, ?_, h₂.pool.trans h₁.pool, h₂.currentOwner.trans h₁.currentOwner,
        h₂.cachedNoteKeypair.trans h₁.cachedNoteKeypair,
        h₂.lastScannedLedger.trans h₁.lastScannedLedger, fun ek hek => h₂.keeps ek (h₁.keeps hek),
        h₂.fits, fun commitment => ?_⟩
      · rw [scanOutputs, Wasm.exec_bind_of_ok hexec₁, hexec₂]
      · rw [hscanned₂, hscanned₁, List.length_cons]
        omega
      · rw [h₂.knows, h₁.knows, or_assoc,
          Scanned.finds_cons (fun j => approvals (i + j)) h₁ hfit]
        simp only [Nat.add_assoc, Nat.add_comm 1]

/-! ### A scan -/

/-- The ledger up to which a scan of the outputs has come. -/
def scannedLedger (outputs : List PoolEncryptedOutput) (ledger : ℕ) : ℕ :=
  (outputs.map PoolEncryptedOutput.ledger).foldl max ledger

theorem exec_scanForNotes_none {options : ScanOptions} {approvals : Approvals}
    (h : w.noteKeypair k approvals.spending = none) :
    (scanForNotes k options approvals).exec w = (.ok ⟨0, 0, [], 0⟩, w) := by
  obtain ⟨hcached, -⟩ := Option.or_eq_none_iff.mp h
  unfold scanForNotes
  have hsame : ({ w with cachedNoteKeypair := none } : Wallet) = w := by rw [← hcached]
  rw [Wasm.exec_bind_of_ok (exec_getUserNoteKeypair k approvals.spending w), h, hsame]
  rfl

structure ScanDone (k : Crypto) (nk : Keypair) (options : ScanOptions) (approvals : ℕ → Bool)
    (w w' : Wallet) : Prop where
  pool : w'.pool = w.pool
  currentOwner : w'.currentOwner = w.currentOwner
  lastScannedLedger : w'.lastScannedLedger =
    scannedLedger (outputsToScan options w) w.lastScannedLedger
  keeps : ∀ ek, w.cachedEncryptionKeypair = some ek → w'.cachedEncryptionKeypair = some ek
  fits : w'.KeysFit k
  knows : ∀ commitment, w'.Knows commitment ↔
    w.Knows commitment ∨ w.Finds k nk approvals (outputsToScan options w) commitment

/-- **A scan** with a note keypair. -/
theorem exec_scanForNotes (options : ScanOptions) {approvals : Approvals} (hfit : w.KeysFit k)
    (h : w.noteKeypair k approvals.spending = some nk) : ∃ result w',
    (scanForNotes k options approvals).exec w = (.ok result, w') ∧
      result.scanned = (outputsToScan options w).length ∧ w'.cachedNoteKeypair = some nk ∧
      ScanDone k nk options approvals.encryption w w' := by
  let w₁ : Wallet := { w with cachedNoteKeypair := some nk }
  have hfit₁ : w₁.KeysFit k := by
    refine ⟨hfit.encryption, fun keypair hkeypair => ?_⟩
    exact hfit.noteKeypair_eq (h.trans hkeypair)
  obtain ⟨result, w₂, hexec, hscanned, hdone⟩ := exec_scanOutputs k nk approvals.encryption
    (outputsToScan options w₁) 0 ⟨0, 0, [], 0⟩ hfit₁
  simp only [Nat.zero_add] at hdone hscanned
  obtain ⟨sk, rfl⟩ := exists_keypairOf (hfit.noteKeypair_eq h)
  let ledger := scannedLedger (outputsToScan options w₁) w₂.lastScannedLedger
  refine ⟨result, { w₂ with lastScannedLedger := ledger }, ?_, hscanned,
    hdone.cachedNoteKeypair, hdone.pool, hdone.currentOwner, ?_, hdone.keeps,
    hdone.fits.congr rfl rfl rfl, hdone.knows⟩
  · unfold scanForNotes
    rw [Wasm.exec_bind_of_ok (exec_getUserNoteKeypair k approvals.spending w), h]
    dsimp only
    rw [show fieldToHex (keypairOf k.poseidon2 sk).publicKey = _ from fieldToHex_scalarToBytes _]
    refine (Wasm.exec_bind_of_ok (Wasm.exec_pure _ w₁) _).trans ?_
    rw [Wasm.exec_bind_of_ok (Wasm.exec_get w₁), Wasm.exec_bind_of_ok hexec]
    rfl
  · exact congrArg (scannedLedger (outputsToScan options w₁)) hdone.lastScannedLedger

end Enclave.App

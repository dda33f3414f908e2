import Enclave.App.PoolEvents
import Enclave.App.Scans

/-! # The discovery of notes

One ledger is remembered of all scans, for whatever account they were and whether they could
decrypt.  A scan finds the notes of its account exactly if the outputs that it has not found before
lie at the ledger where it starts or later, and the encryption keypair is there when their turn
comes (`discovers_iff`). -/

namespace Enclave.App

open Prover Js

variable {k : Crypto} {w w' : Wallet} {owner : Option String} {nk : Keypair}
  {output : PoolEncryptedOutput}

/-! ### Runs -/

inductive WalletEvent where
  | sync (index : ℕ) (emission : Emission)
  | scan (options : ScanOptions) (approvals : Approvals)
  | managerScan (privateKey : List UInt8) (options : ScanOptions) (approvals : Approvals)
  | deriveKeys
  | clearKeys
  | changeAccount (newAddress : Option String)

/-- `deriveKeysFromWallet`, the user approving both signatures. -/
def deriveKeysFromWallet (k : Crypto) (w : Wallet) : Wallet :=
  match encryptionKeypairOf k w.currentOwner, noteKeypairOf k w.currentOwner with
  | some ek, some nk => setAuthenticatedKeys ek nk w
  | _, _ => w

/-- The wallet after an event; a synchronisation stores one commitment after the other. -/
def Wallet.step (k : Crypto) (w : Wallet) : WalletEvent → Wallet
  | .sync index emission =>
      { w with pool := ((emission.process k.poseidon2 index).exec w.pool).2 }
  | .scan options approvals => ((scanForNotes k options approvals).exec w).2
  | .managerScan privateKey options approvals =>
      ((stateManagerScanForNotes k privateKey options approvals).exec w).2
  | .deriveKeys => deriveKeysFromWallet k w
  | .clearKeys => clearKeypairCaches w
  | .changeAccount newAddress => handleAccountChange newAddress w

def Wallet.run (k : Crypto) (w : Wallet) (events : List WalletEvent) : Wallet :=
  events.foldl (Wallet.step k) w

/-- The app has been opened: its database has outputs of the pool, no scan was made. -/
structure Wallet.Opened (w : Wallet) : Prop where
  outputs : ∀ o ∈ w.pool.poolEncryptedOutputs.records, ∃ index emission,
    o = Emission.encrypted index emission
  cachedEncryptionKeypair : w.cachedEncryptionKeypair = none
  cachedNoteKeypair : w.cachedNoteKeypair = none
  lastScannedLedger : w.lastScannedLedger = 0

/-! ### What is to be found -/

def Wallet.outputs (w : Wallet) : List PoolEncryptedOutput := w.pool.poolEncryptedOutputs.records

theorem outputs_congr (h : w'.pool = w.pool) : w'.outputs = w.outputs := by
  rw [Wallet.outputs, h]
  rfl

/-- The output was encrypted to, and committed for, an account. -/
def PoolEncryptedOutput.Owned (k : Crypto) (owner : Option String) (output : PoolEncryptedOutput) :
    Prop :=
  ∃ ek nk, encryptionKeypairOf k owner = some ek ∧ noteKeypairOf k owner = some nk ∧
    output.Opens k ek nk

/-- No note of the current account is missing. -/
def Wallet.Complete (k : Crypto) (w : Wallet) : Prop :=
  ∀ o ∈ w.outputs, o.Owned k w.currentOwner → w.Knows o.commitment

/-- A scan comes to the output, with the encryption keypair. -/
def Wallet.Reaches (options : ScanOptions) (approvals : Approvals) (w : Wallet)
    (output : PoolEncryptedOutput) : Prop :=
  startLedger options w ≤ output.ledger ∧ ∀ j, (outputsToScan options w)[j]? = some output →
    w.Ready approvals.encryption (outputsToScan options w) j

/-- The keypairs are those of the account, and the outputs those of the pool. -/
structure Wallet.Sound (k : Crypto) (w : Wallet) : Prop where
  fits : w.KeysFit k
  outputs : ∀ o ∈ w.outputs, ∃ index emission, o = Emission.encrypted index emission

theorem mem_outputsToScan {options : ScanOptions} : output ∈ outputsToScan options w ↔
    output ∈ w.outputs ∧ startLedger options w ≤ output.ledger := by
  unfold outputsToScan
  split_ifs with hstart
  · unfold PoolStore.getEncryptedOutputs
    rw [List.mem_filter, decide_eq_true_eq]
    exact Iff.rfl
  · have hzero : startLedger options w = 0 := Nat.eq_zero_of_not_pos hstart
    rw [hzero]
    exact (and_iff_left (Nat.zero_le _)).symm

theorem nodup_outputsToScan (options : ScanOptions) (w : Wallet) :
    (outputsToScan options w).Nodup := by
  have hnodup : w.outputs.Nodup := List.Nodup.of_map _ w.pool.poolEncryptedOutputs.nodup_keys
  unfold outputsToScan
  split_ifs with hstart
  · exact hnodup.filter _
  · exact hnodup

theorem Wallet.Sound.eq_of_noteId (h : w.Sound k) {o o' : PoolEncryptedOutput} (ho : o ∈ w.outputs)
    (ho' : o' ∈ w.outputs) (hid : noteId o.commitment = noteId o'.commitment) : o = o' := by
  have hfixed : ∀ o ∈ w.outputs, noteId o.commitment = o.commitment := by
    intro o ho
    obtain ⟨index, emission, rfl⟩ := h.outputs o ho
    exact noteId_hex64 (F.val_lt_word _)
  rw [hfixed o ho, hfixed o' ho'] at hid
  exact List.inj_on_of_nodup_map w.pool.poolEncryptedOutputs.nodup_keys ho ho' hid

theorem Wallet.Sound.finds_iff (h : w.Sound k) {options : ScanOptions} {approvals : Approvals}
    (hnk : noteKeypairOf k w.currentOwner = some nk) (ho : output ∈ w.outputs)
    (howned : output.Owned k w.currentOwner) :
    w.Finds k nk approvals.encryption (outputsToScan options w) output.commitment ↔
      w.Reaches options approvals output := by
  constructor
  · rintro ⟨j, o, hj, hid, hready, -⟩
    have hmem := List.mem_of_getElem? hj
    obtain rfl := h.eq_of_noteId ho (mem_outputsToScan.mp hmem).1 hid
    refine ⟨(mem_outputsToScan.mp hmem).2, fun i hi => ?_⟩
    obtain ⟨hilt, hi⟩ := List.getElem?_eq_some_iff.mp hi
    obtain ⟨hjlt, hj⟩ := List.getElem?_eq_some_iff.mp hj
    rwa [(nodup_outputsToScan options w).getElem_inj_iff.mp (hi.trans hj.symm)]
  · rintro ⟨hstart, hready⟩
    obtain ⟨j, hj⟩ := List.mem_iff_getElem?.mp (mem_outputsToScan.mpr ⟨ho, hstart⟩)
    obtain ⟨ek, nk', hek, hnk', hopens⟩ := howned
    obtain rfl := Option.some.inj (hnk.symm.trans hnk')
    exact ⟨j, output, hj, rfl, hready j hj, ek, hek, hopens⟩

/-- **What a scan finds.** -/
theorem Wallet.Sound.complete_iff (h : w.Sound k) {options : ScanOptions} {approvals : Approvals}
    (hnk : noteKeypairOf k w.currentOwner = some nk)
    (hdone : ScanDone k nk options approvals.encryption w w') : w'.Complete k ↔
      ∀ o ∈ w.outputs, o.Owned k w.currentOwner →
        w.Knows o.commitment ∨ w.Reaches options approvals o := by
  unfold Wallet.Complete
  rw [outputs_congr hdone.pool, hdone.currentOwner]
  refine forall_congr' fun o => forall_congr' fun ho => forall_congr' fun howned => ?_
  rw [hdone.knows, h.finds_iff hnk ho howned]

/-! ### One event -/

variable {index : ℕ} {emission : Emission}

theorem outputsFrom_process (P : Poseidon2) (index : ℕ) (emission : Emission) :
    Wasm.Keeps (OutputsFrom {emission.encrypted index}) (emission.process P index) := by
  refine keeps_processNewCommitment (OutputsFrom.refl _) OutputsFrom.trans
    (fun s _ => OutputsFrom.refl _ s) (fun s _ => OutputsFrom.refl _ s) ?_
  intro text i output htext hindex houtput s t hput o ho
  obtain rfl : hex64 emission.commitment.val = text := Except.ok.inj htext
  obtain rfl : index = i := Option.some.inj hindex
  obtain rfl : bytesToHex emission.output = output := Except.ok.inj houtput
  obtain ⟨t', hput', hmem⟩ := ObjectStore.exists_put rfl s.poolEncryptedOutputs
    (emission.encrypted index)
  obtain rfl := Option.some.inj (hput'.symm.trans hput)
  obtain rfl | ⟨ho, -⟩ := (hmem o).mp ho
  · exact .inr rfl
  · exact .inl ho

theorem outputs_sync (h : output ∈ (w.step k (.sync index emission)).outputs) :
    output ∈ w.outputs ∨ output = emission.encrypted index :=
  outputsFrom_process k.poseidon2 index emission w.pool output h

theorem step_scan (hfit : w.KeysFit k) (options : ScanOptions) (approvals : Approvals) :
    w.step k (.scan options approvals) = w ∨ ∃ nk,
      noteKeypairOf k w.currentOwner = some nk ∧
      ScanDone k nk options approvals.encryption w (w.step k (.scan options approvals)) := by
  cases hnk : w.noteKeypair k approvals.spending with
  | none => exact .inl (congrArg Prod.snd (exec_scanForNotes_none hnk))
  | some nk =>
      obtain ⟨result, w', hexec, -, -, hdone⟩ := exec_scanForNotes options hfit hnk
      refine .inr ⟨nk, hfit.noteKeypair_eq hnk, ?_⟩
      rw [Wallet.step, hexec]
      exact hdone

theorem fits_deriveKeysFromWallet (h : w.KeysFit k) : (deriveKeysFromWallet k w).KeysFit k := by
  unfold deriveKeysFromWallet
  split
  · rename_i ek nk hek hnk
    refine ⟨fun keypair hkeypair => ?_, fun keypair hkeypair => ?_⟩
    · exact Option.some.inj hkeypair ▸ hek
    · exact Option.some.inj hkeypair ▸ hnk
  · exact h

theorem deriveKeysFromWallet_frame (k : Crypto) (w : Wallet) :
    (deriveKeysFromWallet k w).pool = w.pool ∧
      (deriveKeysFromWallet k w).currentOwner = w.currentOwner ∧
      (deriveKeysFromWallet k w).lastScannedLedger = w.lastScannedLedger ∧
      (deriveKeysFromWallet k w).userNotes = w.userNotes := by
  unfold deriveKeysFromWallet
  split
  · exact ⟨rfl, rfl, rfl, rfl⟩
  · exact ⟨rfl, rfl, rfl, rfl⟩

theorem fits_of_none (hencryption : w.cachedEncryptionKeypair = none)
    (hnote : w.cachedNoteKeypair = none) : w.KeysFit k := by
  refine ⟨fun keypair hkeypair => ?_, fun keypair hkeypair => ?_⟩
  · cases hencryption.symm.trans hkeypair
  · cases hnote.symm.trans hkeypair

theorem Wallet.Sound.scan (h : w.Sound k) (options : ScanOptions) (approvals : Approvals) :
    (w.step k (.scan options approvals)).Sound k := by
  obtain heq | ⟨nk, -, hdone⟩ := step_scan h.fits options approvals
  · rw [heq]
    exact h
  · refine ⟨hdone.fits, fun o ho => h.outputs o ?_⟩
    exact outputs_congr hdone.pool ▸ ho

theorem Wallet.Sound.step (h : w.Sound k) (e : WalletEvent) : (w.step k e).Sound k := by
  cases e with
  | sync index emission =>
      refine ⟨h.fits.congr rfl rfl rfl, fun o ho => ?_⟩
      obtain ho | rfl := outputs_sync ho
      · exact h.outputs o ho
      · exact ⟨index, emission, rfl⟩
  | scan options approvals => exact h.scan options approvals
  | managerScan privateKey options approvals => exact h.scan ⟨none, false⟩ approvals
  | deriveKeys =>
      refine ⟨fits_deriveKeysFromWallet h.fits, fun o ho => h.outputs o ?_⟩
      exact outputs_congr (deriveKeysFromWallet_frame k w).1 ▸ ho
  | clearKeys => exact ⟨fits_of_none rfl rfl, h.outputs⟩
  | changeAccount newAddress =>
      unfold Wallet.step handleAccountChange
      dsimp only
      split_ifs
      · exact h
      · exact ⟨fits_of_none rfl rfl, h.outputs⟩

theorem Wallet.Sound.run (h : w.Sound k) (events : List WalletEvent) :
    (w.run k events).Sound k := by
  induction events generalizing w with
  | nil => exact h
  | cons e events ih => exact ih (h.step e)

theorem Wallet.Opened.sound (h : w.Opened) : w.Sound k :=
  ⟨fits_of_none h.cachedEncryptionKeypair h.cachedNoteKeypair, h.outputs⟩

/-! ### Runs that miss nothing -/

/-- What the current account has below the ledger up to which scans have come is known. -/
def Wallet.CaughtUp (k : Crypto) (w : Wallet) : Prop :=
  ∀ o ∈ w.outputs, o.Owned k w.currentOwner → o.ledger < w.lastScannedLedger →
    w.Knows o.commitment

/-- The encryption keypair is there in all of a scan. -/
def Wallet.CanDecrypt (w : Wallet) (approvals : Approvals) : Prop :=
  w.cachedEncryptionKeypair.isSome ∨ ∀ j, approvals.encryption j = true

/-- Outputs come in order, scans start where others have ended or before and can decrypt, and no
account is connected that misses a note below. -/
def Wallet.Careful (k : Crypto) (w : Wallet) : WalletEvent → Prop
  | .sync _ emission => w.lastScannedLedger ≤ emission.ledger
  | .scan options approvals =>
      startLedger options w ≤ w.lastScannedLedger ∧ w.CanDecrypt approvals
  | .managerScan _ _ approvals => w.CanDecrypt approvals
  | .deriveKeys => True
  | .clearKeys => True
  | .changeAccount newAddress => ∀ o ∈ w.outputs, o.Owned k newAddress →
      o.ledger < w.lastScannedLedger → w.Knows o.commitment

def Wallet.CarefulRun (k : Crypto) : Wallet → List WalletEvent → Prop
  | _, [] => True
  | w, e :: events => w.Careful k e ∧ Wallet.CarefulRun k (w.step k e) events

/-- A careful scan reaches what is not known. -/
theorem Wallet.CaughtUp.reaches (h : w.CaughtUp k) {options : ScanOptions} {approvals : Approvals}
    (hcareful : w.Careful k (.scan options approvals)) (ho : output ∈ w.outputs)
    (howned : output.Owned k w.currentOwner) (hunknown : ¬ w.Knows output.commitment) :
    w.Reaches options approvals output := by
  obtain ⟨hstart, hdecrypt⟩ := hcareful
  have hledger : w.lastScannedLedger ≤ output.ledger :=
    not_lt.mp fun hlt => hunknown (h output ho howned hlt)
  refine ⟨hstart.trans hledger, fun j hj => ?_⟩
  obtain hcached | happroves := hdecrypt
  · exact .inl hcached
  · obtain ⟨ek, nk, -, -, hopens⟩ := howned
    exact .inr ⟨j, le_rfl, output, hj, ⟨hunknown, hopens.exists_isCiphertext⟩, happroves j⟩

theorem Wallet.CaughtUp.complete (h : w.CaughtUp k) (hsound : w.Sound k) {options : ScanOptions}
    {approvals : Approvals} (hcareful : w.Careful k (.scan options approvals))
    (hnk : noteKeypairOf k w.currentOwner = some nk)
    (hdone : ScanDone k nk options approvals.encryption w w') : w'.Complete k := by
  refine (hsound.complete_iff hnk hdone).mpr fun o ho howned => ?_
  by_cases hknown : w.Knows o.commitment
  · exact .inl hknown
  · exact .inr (h.reaches hcareful ho howned hknown)

theorem Wallet.CaughtUp.scan (h : w.CaughtUp k) (hsound : w.Sound k) {options : ScanOptions}
    {approvals : Approvals} (hcareful : w.Careful k (.scan options approvals)) :
    (w.step k (.scan options approvals)).CaughtUp k := by
  obtain heq | ⟨nk, hnk, hdone⟩ := step_scan hsound.fits options approvals
  · rw [heq]
    exact h
  · exact fun o ho howned _ => h.complete hsound hcareful hnk hdone o ho howned

theorem Wallet.CaughtUp.congr (h : w.CaughtUp k) (hpool : w'.pool = w.pool)
    (howner : w'.currentOwner = w.currentOwner)
    (hledger : w'.lastScannedLedger = w.lastScannedLedger) (hnotes : w'.userNotes = w.userNotes) :
    w'.CaughtUp k := by
  intro o ho howned hlt
  rw [outputs_congr hpool] at ho
  rw [howner] at howned
  rw [hledger] at hlt
  exact (knows_congr hnotes).mpr (h o ho howned hlt)

theorem Wallet.CaughtUp.step (h : w.CaughtUp k) (hsound : w.Sound k) {e : WalletEvent}
    (hcareful : w.Careful k e) : (w.step k e).CaughtUp k := by
  cases e with
  | sync index emission =>
      intro o ho howned hlt
      obtain ho | rfl := outputs_sync ho
      · exact (knows_congr rfl).mpr (h o ho howned hlt)
      · exact absurd hcareful (not_le.mpr hlt)
  | scan options approvals => exact h.scan hsound hcareful
  | managerScan privateKey options approvals =>
      have hoptions : w.Careful k (.scan ⟨none, false⟩ approvals) := ⟨le_rfl, hcareful⟩
      exact h.scan hsound hoptions
  | deriveKeys =>
      obtain ⟨hpool, howner, hledger, hnotes⟩ := deriveKeysFromWallet_frame k w
      exact h.congr hpool howner hledger hnotes
  | clearKeys => exact h.congr rfl rfl rfl rfl
  | changeAccount newAddress =>
      unfold Wallet.step handleAccountChange
      dsimp only
      split_ifs
      · exact h
      · exact fun o ho howned hlt => (knows_congr rfl).mpr (hcareful o ho howned hlt)

theorem Wallet.CaughtUp.run (h : w.CaughtUp k) (hsound : w.Sound k) {events : List WalletEvent}
    (hcareful : w.CarefulRun k events) : (w.run k events).CaughtUp k := by
  induction events generalizing w with
  | nil => exact h
  | cons e events ih => exact ih (h.step hsound hcareful.1) (hsound.step e) hcareful.2

end Enclave.App

import Enclave.App.PoolMirror
import Enclave.Prover.Frames

/-! # What processing events writes

Whatever comes of `processEvents`: encrypted outputs are those from before or those of the events
(`outputs_processEvents`); and once it returns, the nullifiers are those from before and those of
the events (`nullifiers_processEvents`). -/

namespace Enclave.App

open Prover

variable {P : Poseidon2} {R : PoolStore → PoolStore → Prop}

/-! ### One event -/

theorem keeps_ofJs {α : Type} (hrefl : ∀ s, R s s) (r : Except String α) :
    Wasm.Keeps R (ofJs r : Task α) := by
  cases r with
  | error message => exact Wasm.keeps_throw hrefl _
  | ok a => exact Wasm.keeps_pure hrefl a

theorem keeps_dbPut {ρ κ : Type} [LinearOrder κ] {schema : StoreSchema ρ κ String}
    {store : PoolStore → ObjectStore schema} {setStore : ObjectStore schema → PoolStore → PoolStore}
    {value : ρ} (hrefl : ∀ s, R s s)
    (h : ∀ s records, (store s).put value = some records → R s (setStore records s)) :
    Wasm.Keeps R (dbPut store setStore value) := by
  intro s
  cases hput : (store s).put value with
  | none =>
      rw [exec_dbPut_refused hput]
      exact hrefl s
  | some records =>
      rw [exec_dbPut hput]
      exact h s records hput

theorem keeps_insertIntoTree (hrefl : ∀ s, R s s)
    (htrans : ∀ s₁ s₂ s₃, R s₁ s₂ → R s₂ s₃ → R s₁ s₃)
    (htree : ∀ s tree, R s { s with merkleTree := tree }) (text : String) :
    Wasm.Keeps R (insertIntoTree P text) := by
  refine Wasm.keeps_bind htrans (Wasm.keeps_get hrefl) fun s => ?_
  cases s.merkleTree with
  | none => exact Wasm.keeps_pure hrefl _
  | some tree =>
      refine Wasm.keeps_bind htrans (keeps_ofJs hrefl _) fun bytes => ?_
      refine Wasm.keeps_bind htrans (Wasm.keeps_modify fun s => htree s _) fun _ => ?_
      exact Wasm.keeps_ofResult hrefl _

/-- **A commitment** writes a leaf, an output and the tree. -/
theorem keeps_processNewCommitment (hrefl : ∀ s, R s s)
    (htrans : ∀ s₁ s₂ s₃, R s₁ s₂ → R s₂ s₃ → R s₁ s₃)
    (htree : ∀ s tree, R s { s with merkleTree := tree })
    (hleaves : ∀ s leaves, R s { s with poolLeaves := leaves })
    {commitment index encryptedOutput : Native} {ledger : ℕ}
    (houtput : ∀ text i output, normalizeU256ToHex commitment = .ok text →
      index.toIndex = some i → encryptedOutputText encryptedOutput = .ok output →
      ∀ s t, s.poolEncryptedOutputs.put ⟨text, i, output, ledger⟩ = some t →
        R s { s with poolEncryptedOutputs := t }) :
    Wasm.Keeps R (processNewCommitment P commitment index encryptedOutput ledger) := by
  unfold processNewCommitment
  cases htext : normalizeU256ToHex commitment with
  | error message => exact Wasm.keeps_throw hrefl _
  | ok text =>
      rw [ofJs, pure_bind]
      cases hindex : index.toIndex with
      | none => exact Wasm.keeps_throw hrefl _
      | some i =>
          refine Wasm.keeps_bind htrans (keeps_dbPut hrefl fun s t _ => hleaves s t) fun _ => ?_
          cases hbytes : encryptedOutputText encryptedOutput with
          | error message => exact Wasm.keeps_throw hrefl _
          | ok output =>
              rw [ofJs, pure_bind]
              refine Wasm.keeps_bind htrans (keeps_dbPut hrefl ?_) fun _ =>
                keeps_insertIntoTree hrefl htrans htree text
              exact houtput text i output htext hindex hbytes

theorem keeps_processNewNullifier (hrefl : ∀ s, R s s)
    (htrans : ∀ s₁ s₂ s₃, R s₁ s₂ → R s₂ s₃ → R s₁ s₃)
    (hnullifiers : ∀ s nullifiers, R s { s with poolNullifiers := nullifiers })
    (nullifier : Native) (ledger : ℕ) : Wasm.Keeps R (processNewNullifier nullifier ledger) :=
  Wasm.keeps_bind htrans (keeps_ofJs hrefl _) fun _ =>
    keeps_dbPut hrefl fun s t _ => hnullifiers s t

/-! ### Many events -/

def NativeEvent.isCommitment (event : NativeEvent) : Bool :=
  isNamed (event.topicAt 0) ["NewCommitmentEvent", "new_commitment_event", "new_commitment"]

def NativeEvent.isNullifier (event : NativeEvent) : Bool :=
  !event.isCommitment &&
    isNamed (event.topicAt 0) ["NewNullifierEvent", "new_nullifier_event", "new_nullifier"]

/-- The record of the encrypted output of a commitment event. -/
def NativeEvent.outputRecord (event : NativeEvent) : Option PoolEncryptedOutput :=
  if event.isCommitment then do
    let text ← (normalizeU256ToHex (event.topicAt 1)).toOption
    let index ← (event.value.prop "index").toIndex
    let output ← (encryptedOutputText (event.value.prop "encrypted_output")).toOption
    return ⟨text, index, output, event.ledger⟩
  else none

def NativeEvent.nullifierText (event : NativeEvent) : Option String :=
  if event.isNullifier then (normalizeU256ToHex (event.topicAt 1)).toOption else none

/-- The outputs after are outputs before or in a set. -/
def OutputsFrom (E : Set PoolEncryptedOutput) (s s' : PoolStore) : Prop :=
  ∀ o ∈ s'.poolEncryptedOutputs.records, o ∈ s.poolEncryptedOutputs.records ∨ o ∈ E

theorem OutputsFrom.refl (E : Set PoolEncryptedOutput) (s : PoolStore) : OutputsFrom E s s :=
  fun _ ho => .inl ho

theorem OutputsFrom.trans {E : Set PoolEncryptedOutput} (s₁ s₂ s₃ : PoolStore)
    (h : OutputsFrom E s₁ s₂) (h' : OutputsFrom E s₂ s₃) : OutputsFrom E s₁ s₃ := by
  intro o ho
  obtain ho | ho := h' o ho
  · exact h o ho
  · exact .inr ho

theorem keeps_outputsFrom {E : Set PoolEncryptedOutput} {event : NativeEvent}
    (hname : event.isCommitment = true) (hE : ∀ o, event.outputRecord = some o → o ∈ E) :
    Wasm.Keeps (OutputsFrom E) (processNewCommitment P (event.topicAt 1)
      (event.value.prop "index") (event.value.prop "encrypted_output") event.ledger) := by
  refine keeps_processNewCommitment (OutputsFrom.refl E) OutputsFrom.trans
    (fun s _ => OutputsFrom.refl E s) (fun s _ => OutputsFrom.refl E s) ?_
  intro text i output htext hindex houtput s t hput o ho
  have hrecord : event.outputRecord = some ⟨text, i, output, event.ledger⟩ := by
    rw [NativeEvent.outputRecord, if_pos hname, htext, hindex, houtput]
    rfl
  obtain ⟨t', hput', hmem⟩ := ObjectStore.exists_put rfl s.poolEncryptedOutputs
    ⟨text, i, output, event.ledger⟩
  obtain rfl := Option.some.inj (hput'.symm.trans hput)
  obtain rfl | ⟨ho, -⟩ := (hmem o).mp ho
  · exact .inr (hE _ hrecord)
  · exact .inl ho

/-- **Outputs** are those from before or those of the events, whatever comes of processing them. -/
theorem outputs_processEvents {E : Set PoolEncryptedOutput} {events : List NativeEvent}
    (hE : ∀ event ∈ events, ∀ o, event.outputRecord = some o → o ∈ E) :
    Wasm.Keeps (OutputsFrom E) (processEvents P events) := by
  induction events with
  | nil => exact Wasm.keeps_pure (OutputsFrom.refl E) _
  | cons event rest ih =>
      rw [List.forall_mem_cons] at hE
      have hrest := ih hE.2
      rw [processEvents]
      split_ifs with hcommitment hnullifier
      · refine Wasm.keeps_bind OutputsFrom.trans (keeps_outputsFrom hcommitment hE.1) fun _ => ?_
        exact Wasm.keeps_bind OutputsFrom.trans hrest fun _ =>
          Wasm.keeps_pure (OutputsFrom.refl E) _
      · refine Wasm.keeps_bind OutputsFrom.trans (keeps_processNewNullifier (OutputsFrom.refl E)
          OutputsFrom.trans (fun s _ => OutputsFrom.refl E s) _ _) fun _ => ?_
        exact Wasm.keeps_bind OutputsFrom.trans hrest fun _ =>
          Wasm.keeps_pure (OutputsFrom.refl E) _
      · exact hrest

/-! ### Nullifiers -/

/-- A nullifier is stored under a text. -/
def PoolStore.HasNullifier (s : PoolStore) (key : String) : Prop :=
  (s.poolNullifiers.get key).isSome

theorem hasNullifier_put {s : PoolStore} {record : PoolNullifier}
    {t : ObjectStore poolNullifiersSchema} (h : s.poolNullifiers.put record = some t) (key : String) :
    PoolStore.HasNullifier { s with poolNullifiers := t } key ↔
      s.HasNullifier key ∨ record.nullifier = key := by
  obtain ⟨t', hput, hmem⟩ := ObjectStore.exists_put rfl s.poolNullifiers record
  obtain rfl := Option.some.inj (hput.symm.trans h)
  unfold PoolStore.HasNullifier
  rw [ObjectStore.isSome_get, ObjectStore.isSome_get]
  constructor
  · rintro ⟨r, hr, hkey⟩
    obtain rfl | ⟨hr, -⟩ := (hmem r).mp hr
    · exact .inr hkey
    · exact .inl ⟨r, hr, hkey⟩
  · rintro (⟨r, hr, hkey⟩ | hkey)
    · by_cases hsame : r.nullifier = record.nullifier
      · exact ⟨record, (hmem record).mpr (.inl rfl), hsame.symm.trans hkey⟩
      · exact ⟨r, (hmem r).mpr (.inr ⟨hr, hsame⟩), hkey⟩
    · exact ⟨record, (hmem record).mpr (.inl rfl), hkey⟩

theorem nullifiers_processNewCommitment (commitment index encryptedOutput : Native) (ledger : ℕ) :
    Wasm.Keeps (fun s s' : PoolStore => s'.poolNullifiers = s.poolNullifiers)
      (processNewCommitment P commitment index encryptedOutput ledger) :=
  @keeps_processNewCommitment P (fun s s' => s'.poolNullifiers = s.poolNullifiers) (fun _ => rfl)
    (fun _ _ _ h h' => h'.trans h) (fun _ _ => rfl) (fun _ _ => rfl) _ _ _ _
    fun _ _ _ _ _ _ _ _ _ => rfl

theorem exec_processNewNullifier_ok {nullifier : Native} {ledger : ℕ} {s s' : PoolStore}
    (h : (processNewNullifier nullifier ledger).exec s = (.ok (), s')) :
    ∃ text, normalizeU256ToHex nullifier = .ok text ∧
      ∀ key, s'.HasNullifier key ↔ s.HasNullifier key ∨ text = key := by
  unfold processNewNullifier at h
  cases htext : normalizeU256ToHex nullifier with
  | error message =>
      rw [htext] at h
      cases h
  | ok text =>
      rw [htext, ofJs, pure_bind] at h
      cases hput : s.poolNullifiers.put ⟨text, ledger⟩ with
      | none =>
          rw [exec_dbPut_refused hput] at h
          cases h
      | some t =>
          rw [exec_dbPut hput] at h
          cases h
          exact ⟨text, rfl, hasNullifier_put hput⟩

/-- **Nullifiers** are those from before and those of the events, once the events are processed. -/
theorem nullifiers_processEvents {events : List NativeEvent} {s s' : PoolStore}
    {counts : EventCounts} (h : (processEvents P events).exec s = (.ok counts, s')) (key : String) :
    s'.HasNullifier key ↔
      s.HasNullifier key ∨ ∃ event ∈ events, event.nullifierText = some key := by
  induction events generalizing s counts with
  | nil =>
      cases h
      simp
  | cons event rest ih =>
      rw [processEvents] at h
      split_ifs at h with hcommitment hnullifier
      · obtain ⟨⟨⟩, s₁, hprocess, h⟩ := Wasm.exec_bind_eq_ok.mp h
        obtain ⟨counts', s₂, hrest, h⟩ := Wasm.exec_bind_eq_ok.mp h
        cases h
        have hframe : s₁.poolNullifiers = s.poolNullifiers := by
          have hkeeps := nullifiers_processNewCommitment (P := P) (event.topicAt 1)
            (event.value.prop "index") (event.value.prop "encrypted_output") event.ledger s
          rw [hprocess] at hkeeps
          exact hkeeps
        have htext : event.nullifierText = none := by
          have hname : event.isCommitment = true := hcommitment
          rw [NativeEvent.nullifierText, NativeEvent.isNullifier, hname]
          rfl
        rw [ih hrest, PoolStore.HasNullifier, PoolStore.HasNullifier, hframe]
        simp [htext]
      · obtain ⟨⟨⟩, s₁, hprocess, h⟩ := Wasm.exec_bind_eq_ok.mp h
        obtain ⟨counts', s₂, hrest, h⟩ := Wasm.exec_bind_eq_ok.mp h
        cases h
        obtain ⟨text, htext, hkeys⟩ := exec_processNewNullifier_ok hprocess
        have hevent : event.nullifierText = some text := by
          have hname : event.isCommitment = false := Bool.eq_false_iff.mpr hcommitment
          rw [NativeEvent.nullifierText, NativeEvent.isNullifier, hname, htext]
          exact if_pos hnullifier
        rw [ih hrest, hkeys]
        simp [hevent, or_assoc]
      · have htext : event.nullifierText = none := by
          have hname : event.isCommitment = false := Bool.eq_false_iff.mpr hcommitment
          rw [NativeEvent.nullifierText, NativeEvent.isNullifier, hname]
          exact if_neg (by simpa using hnullifier)
        rw [ih h]
        simp [htext]

end Enclave.App

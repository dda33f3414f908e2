import Enclave.Agent.Proving

/-! # The nullifiers that an agent reveals

Calls of `interceptingFetch` that prove: a call takes a note and waits for the prover, and only then
its note counts as spent; others run in between.  The null slot takes the same note without amount
each time, or, if there is none, the note that pays.  What is posted reveals a nullifier twice
exactly if two payments are posted and the list has a note without amount, or they took notes in one
place (`revealsOnce_iff`). -/

namespace Enclave.Agent

open App (SpentSignals Denotes denotes_zero denotes_bigIntToString)

/-! ### Payments -/

/-- `selectNote`, with what a witness takes of the notes. -/
def selectWitnessNote (notes : List WitnessNote) (amount : ℤ) (spentNullifiers : List String) :
    Option WitnessNote :=
  ((notes.filter fun n => n.nullifier ∉ spentNullifiers ∧ amount ≤ n.amount).insertionSort
    fun a b => a.amount ≤ b.amount).head?

theorem selectNote_eq (notes : List WitnessNote) (amount : ℤ) (spentNullifiers : List String) :
    (selectWitnessNote notes amount spentNullifiers).map WitnessNote.toEnclaveNote =
      selectNote (notes.map WitnessNote.toEnclaveNote) amount spentNullifiers := by
  have hsort (l : List WitnessNote) :
      (l.insertionSort fun a b => a.amount ≤ b.amount).map WitnessNote.toEnclaveNote =
        (l.map WitnessNote.toEnclaveNote).insertionSort fun a b => a.amount ≤ b.amount :=
    List.map_insertionSort _ _ _ _ fun _ _ _ _ => Iff.rfl
  unfold selectWitnessNote selectNote
  rw [← List.head?_map, hsort, List.filter_map]
  rfl

/-- A payment waits for the prover, was posted, or ended before. -/
inductive PaymentStage where
  | proving
  | posted
  | ended
deriving DecidableEq

/-- A payment: the note that it took, and the inputs for the prover. -/
structure Payment where
  note : WitnessNote
  inputs : WitnessInputs
  stage : PaymentStage

/-- What `createInterceptingFetch` holds. -/
structure Holdings where
  orgSpendingPrivKey : String
  notes : List WitnessNote

/-- The nullifiers that count as spent, and the payments of all calls. -/
structure Session where
  spentNullifiers : List String
  payments : List Payment

/-- What the prover yields: a failure, a proof whose public inputs cannot be decoded, or one that is
posted. -/
inductive ProofOutcome where
  | failed
  | undecodable
  | proved

/-- A call pays up to the prover, or goes on after it. -/
inductive PaymentEvent where
  | pay (payAmount : ℤ) (extDataHash : String)
  | prove (i : ℕ) (outcome : ProofOutcome)

namespace Session

/-- A call takes a note and starts to prove. -/
def pay (agent : Holdings) (s : Session) (payAmount : ℤ) (extDataHash : String) : Session :=
  match selectWitnessNote agent.notes payAmount s.spentNullifiers with
  | none => s
  | some note =>
      match buildWitnessInputs
          (liveParams agent.orgSpendingPrivKey extDataHash agent.notes note payAmount) with
      | none => s
      | some inputs => { s with payments := s.payments ++ [⟨note, inputs, .proving⟩] }

def setStage (s : Session) (i : ℕ) (stage : PaymentStage) : Session :=
  { s with payments := s.payments.modify i fun p => { p with stage := stage } }

def prove (s : Session) (i : ℕ) (outcome : ProofOutcome) : Session :=
  match s.payments[i]? with
  | some ⟨note, _, .proving⟩ =>
      match outcome with
      | .failed => s.setStage i .ended
      | .undecodable =>
          { s with spentNullifiers := s.spentNullifiers ++ [note.nullifier] }.setStage i .ended
      | .proved =>
          { s with spentNullifiers := s.spentNullifiers ++ [note.nullifier] }.setStage i .posted
  | _ => s

def step (agent : Holdings) (s : Session) : PaymentEvent → Session
  | .pay payAmount extDataHash => s.pay agent payAmount extDataHash
  | .prove i outcome => s.prove i outcome

def run (agent : Holdings) (s : Session) (events : List PaymentEvent) : Session :=
  events.foldl (step agent) s

def start : Session := ⟨[], []⟩

/-- The payments that were posted to `/settle`. -/
def posted (s : Session) : List Payment := s.payments.filter fun p => p.stage = .posted

end Session

/-! ### Nullifiers -/

/-- The signal of a text, 0 for one that is no number. -/
def signalOf (text : String) : F := ((Js.bigInt text).getD 0 : ℤ)

theorem signalOf_of_denotes {text : String} {x : F} (h : Denotes text x) : signalOf text = x := by
  obtain ⟨n, hn, rfl⟩ := Option.map_eq_some_iff.mp h
  rw [signalOf, hn, Option.getD_some]

/-- What the nullifier of a slot depends on. -/
def Payment.signals (p : Payment) (tx : Fin 2) : SpentSignals where
  amount := signalOf (slot p.inputs.inAmount tx)
  privateKey := signalOf (slot p.inputs.inPrivateKey tx)
  blinding := signalOf (slot p.inputs.inBlinding tx)
  pathIndices := signalOf (slot p.inputs.inPathIndices tx)

/-- The nullifier of a slot, as the circuit computes it. -/
def Payment.nullifier (P : Poseidon2) (p : Payment) (tx : Fin 2) : F := (p.signals tx).nullifier P

def nullifierQueries (P : Poseidon2) (s : SpentSignals) : List Query :=
  let pubkey := Circuits.publicKey P s.privateKey
  let commitment := Circuits.commitment P s.amount pubkey s.blinding
  [.hash3 s.amount pubkey s.blinding 1,
    .hash3 commitment s.pathIndices (Circuits.signature P s.privateKey commitment s.pathIndices)
      ((2 : ℕ) : F)]

/-- No nullifier of a posted payment is one of another. -/
def RevealsOnce (P : Poseidon2) (s : Session) : Prop :=
  s.posted.Pairwise fun p q => ∀ tx tx', p.nullifier P tx ≠ q.nullifier P tx'

/-- Where a note stands, with its blinding. -/
def WitnessNote.place (note : WitnessNote) : F × F :=
  (signalOf note.blinding, signalOf note.pathIndex)

/-- The null slot takes the note of the payment. -/
def Holdings.NoNullNote (agent : Holdings) : Prop := ∀ note ∈ agent.notes, note.amount ≠ 0

/-- No call takes a note whose place is that of one that is being proved. -/
def Session.Waits (agent : Holdings) (s : Session) : PaymentEvent → Prop
  | .pay payAmount _ => ∀ note ∈ selectWitnessNote agent.notes payAmount s.spentNullifiers,
      ∀ p ∈ s.payments, p.stage = .proving → p.note.place ≠ note.place
  | .prove _ _ => True

/-- So in all steps of a run. -/
def Session.Serial (agent : Holdings) : Session → List PaymentEvent → Prop
  | _, [] => True
  | s, e :: events => s.Waits agent e ∧ Session.Serial agent (s.step agent e) events

/-! ### What a step does -/

variable {agent : Holdings} {s : Session} {P : Poseidon2} {p q : Payment}

theorem Session.pay_cases (agent : Holdings) (s : Session) (payAmount : ℤ) (extDataHash : String) :
    s.pay agent payAmount extDataHash = s ∨ ∃ note inputs,
      selectWitnessNote agent.notes payAmount s.spentNullifiers = some note ∧
      buildWitnessInputs
        (liveParams agent.orgSpendingPrivKey extDataHash agent.notes note payAmount) = some inputs ∧
      s.pay agent payAmount extDataHash =
        { s with payments := s.payments ++ [⟨note, inputs, .proving⟩] } := by
  unfold Session.pay
  split
  · exact .inl rfl
  · rename_i note hnote
    split
    · exact .inl rfl
    · rename_i inputs hinputs
      exact .inr ⟨note, inputs, hnote, hinputs, rfl⟩

theorem Session.step_pay {payAmount : ℤ} {extDataHash : String} {note : WitnessNote}
    {inputs : WitnessInputs}
    (hnote : selectWitnessNote agent.notes payAmount s.spentNullifiers = some note)
    (hinputs : buildWitnessInputs (liveParams agent.orgSpendingPrivKey extDataHash agent.notes note
      payAmount) = some inputs) :
    s.step agent (.pay payAmount extDataHash) =
      { s with payments := s.payments ++ [⟨note, inputs, .proving⟩] } := by
  change s.pay agent payAmount extDataHash = _
  rw [Session.pay, hnote]
  dsimp only
  rw [hinputs]

/-- A payment goes on once, and is posted only with its note spent. -/
theorem Session.prove_cases (s : Session) (i : ℕ) (outcome : ProofOutcome) :
    s.prove i outcome = s ∨ ∃ p spent stage, s.payments[i]? = some p ∧ p.stage = .proving ∧
      s.spentNullifiers ⊆ spent ∧ (stage = .posted → p.note.nullifier ∈ spent) ∧
      s.prove i outcome =
        ⟨spent, s.payments.modify i fun p => { p with stage := stage }⟩ := by
  unfold Session.prove
  split
  · rename_i note inputs hp
    have hlast : note.nullifier ∈ s.spentNullifiers ++ [note.nullifier] :=
      List.mem_append_right _ List.mem_cons_self
    cases outcome with
    | failed =>
        exact .inr ⟨_, s.spentNullifiers, .ended, hp, rfl, List.Subset.refl _, nofun, rfl⟩
    | undecodable =>
        exact .inr ⟨_, _, .ended, hp, rfl, List.subset_append_left _ _, nofun, rfl⟩
    | proved =>
        exact .inr ⟨_, _, .posted, hp, rfl, List.subset_append_left _ _, fun _ => hlast, rfl⟩
  · exact .inl rfl

theorem Session.run_cons (agent : Holdings) (s : Session) (e : PaymentEvent)
    (events : List PaymentEvent) :
    s.run agent (e :: events) = (s.step agent e).run agent events := rfl

/-! ### What a payment reveals -/

/-- The payment takes a note of the list, and its inputs are built of it. -/
structure Payment.Built (agent : Holdings) (p : Payment) : Prop where
  note : p.note ∈ agent.notes
  inputs : ∃ payAmount extDataHash, buildWitnessInputs
    (liveParams agent.orgSpendingPrivKey extDataHash agent.notes p.note payAmount) = some p.inputs

/-- The key's signal, the same in all payments. -/
def Holdings.keySignal (agent : Holdings) : F :=
  signalOf ((normalizeField agent.orgSpendingPrivKey).getD "")

/-- The null slot has the amount zero and the place of the null note, the real slot the payment and
the place of the note. -/
theorem Payment.signals_of_build {payAmount : ℤ} {extDataHash : String}
    (h : buildWitnessInputs (liveParams agent.orgSpendingPrivKey extDataHash agent.notes p.note
      payAmount) = some p.inputs) :
    p.signals 0 = ⟨0, agent.keySignal, (nullNoteFor agent.notes p.note).place.1,
      (nullNoteFor agent.notes p.note).place.2⟩ ∧
    p.signals 1 = ⟨payAmount, agent.keySignal, p.note.place.1, p.note.place.2⟩ := by
  obtain ⟨key, hkey, hp⟩ := Option.map_eq_some_iff.mp h
  unfold Payment.signals Holdings.keySignal
  rw [← hp, show normalizeField agent.orgSpendingPrivKey = some key from hkey]
  constructor
  · exact congrArg (SpentSignals.mk · _ _ _) (signalOf_of_denotes denotes_zero)
  · exact congrArg (SpentSignals.mk · _ _ _)
      (signalOf_of_denotes (denotes_bigIntToString payAmount))

theorem Payment.Built.signals_null (h : p.Built agent) : p.signals 0 =
    ⟨0, agent.keySignal, (nullNoteFor agent.notes p.note).place.1,
      (nullNoteFor agent.notes p.note).place.2⟩ := by
  obtain ⟨payAmount, extDataHash, hinputs⟩ := h.inputs
  exact (Payment.signals_of_build hinputs).1

theorem nullNoteFor_of_noNullNote (h : agent.NoNullNote) (note : WitnessNote) :
    nullNoteFor agent.notes note = note := by
  have hnone : agent.notes.find? (fun n => n.amount = 0) = none :=
    List.find?_eq_none.mpr fun n hn => by
      rw [decide_eq_true_eq]
      exact h n hn
  rw [nullNoteFor, hnone, Option.getD_none]

theorem nullNoteFor_of_mem {notes : List WitnessNote} (h : ∃ n ∈ notes, n.amount = 0)
    (note note' : WitnessNote) : nullNoteFor notes note = nullNoteFor notes note' := by
  obtain ⟨n, hn, hzero⟩ := h
  have hsome : (notes.find? fun n => n.amount = 0).isSome :=
    List.find?_isSome.mpr ⟨n, hn, decide_eq_true hzero⟩
  obtain ⟨null, hnull⟩ := Option.isSome_iff_exists.mp hsome
  unfold nullNoteFor
  rw [hnull, Option.getD_some, Option.getD_some]

theorem Payment.Built.place (h : p.Built agent) (hnull : agent.NoNullNote) :
    ∀ tx, ((p.signals tx).blinding, (p.signals tx).pathIndices) = p.note.place := by
  rw [Fin.forall_fin_two]
  obtain ⟨payAmount, extDataHash, hinputs⟩ := h.inputs
  obtain ⟨hsignals, hreal⟩ := Payment.signals_of_build hinputs
  rw [hsignals, hreal, nullNoteFor_of_noNullNote hnull]
  exact ⟨rfl, rfl⟩

theorem nullifier_zero_congr (P : Poseidon2) (hp : p.Built agent) (hq : q.Built agent)
    (h : (nullNoteFor agent.notes p.note).place = (nullNoteFor agent.notes q.note).place) :
    p.nullifier P 0 = q.nullifier P 0 := by
  rw [Payment.nullifier, Payment.nullifier, hp.signals_null, hq.signals_null, h]

theorem place_of_nullifier {Q : Set Query} (hfree : P.CollisionFree Q) {tx tx' : Fin 2}
    (hp : ∀ x ∈ nullifierQueries P (p.signals tx), x ∈ Q)
    (hq : ∀ x ∈ nullifierQueries P (q.signals tx'), x ∈ Q)
    (h : p.nullifier P tx = q.nullifier P tx') :
    ((p.signals tx).blinding, (p.signals tx).pathIndices) =
      ((q.signals tx').blinding, (q.signals tx').pathIndices) := by
  have hlast {x : Query} {l : Query} : l ∈ [x, l] := List.mem_cons_of_mem _ List.mem_cons_self
  have houter := hfree (hp _ hlast) (hq _ hlast) h
  injection houter with hcommitment hpath
  have hinner := hfree (hp _ List.mem_cons_self) (hq _ List.mem_cons_self) hcommitment
  injection hinner with _ _ hblinding
  exact Prod.ext hblinding hpath

theorem mem_of_selectWitnessNote {notes : List WitnessNote} {amount : ℤ} {spent : List String}
    {note : WitnessNote} (h : selectWitnessNote notes amount spent = some note) :
    note ∈ notes ∧ note.nullifier ∉ spent := by
  have hmem := (List.mem_insertionSort _).mp (List.mem_of_head? h)
  obtain ⟨hnote, hchecks⟩ := List.mem_filter.mp hmem
  exact ⟨hnote, (of_decide_eq_true hchecks).1⟩

theorem mem_modify {α : Type} {l : List α} {i : ℕ} {f : α → α} {x : α} (h : x ∈ l.modify i f) :
    x ∈ l ∨ ∃ y, l[i]? = some y ∧ x = f y := by
  obtain ⟨j, hj⟩ := List.mem_iff_getElem?.mp h
  rw [List.getElem?_modify] at hj
  obtain ⟨y, hy, hx⟩ := Option.map_eq_some_iff.mp hj
  split_ifs at hx with hij
  · exact .inr ⟨y, hij ▸ hy, hx.symm⟩
  · exact .inl (List.mem_of_getElem? (hx ▸ hy))

theorem Session.built_step (h : ∀ p ∈ s.payments, p.Built agent) (e : PaymentEvent) :
    ∀ p ∈ (s.step agent e).payments, p.Built agent := by
  intro p hp
  cases e with
  | pay payAmount extDataHash =>
      obtain heq | ⟨note, inputs, hnote, hinputs, heq⟩ := s.pay_cases agent payAmount extDataHash
      · rw [Session.step, heq] at hp
        exact h p hp
      · rw [Session.step, heq] at hp
        obtain hp | hp := List.mem_append.mp hp
        · exact h p hp
        · obtain rfl := List.mem_singleton.mp hp
          exact ⟨(mem_of_selectWitnessNote hnote).1, payAmount, extDataHash, hinputs⟩
  | prove i outcome =>
      obtain heq | ⟨q, spent, stage, hq, -, -, -, heq⟩ := s.prove_cases i outcome
      · rw [Session.step, heq] at hp
        exact h p hp
      · rw [Session.step, heq] at hp
        obtain hp | ⟨q, hq, rfl⟩ := mem_modify hp
        · exact h p hp
        · have hbuilt := h q (List.mem_of_getElem? hq)
          exact ⟨hbuilt.note, hbuilt.inputs⟩

theorem Session.built_run (h : ∀ p ∈ s.payments, p.Built agent) (events : List PaymentEvent) :
    ∀ p ∈ (s.run agent events).payments, p.Built agent := by
  induction events generalizing s with
  | nil => exact h
  | cons e events ih => exact ih (Session.built_step h e)

/-! ### What a run reveals -/

def Session.queries (P : Poseidon2) (s : Session) : Set Query :=
  {x | ∃ p ∈ s.posted, ∃ tx, x ∈ nullifierQueries P (p.signals tx)}

theorem noNullNote_of_revealsOnce (h : RevealsOnce P s) (hbuilt : ∀ p ∈ s.posted, p.Built agent)
    (htwo : 1 < s.posted.length) : agent.NoNullNote := by
  intro n hn hzero
  have hp := hbuilt _ (List.getElem_mem (show 0 < s.posted.length by omega))
  have hq := hbuilt _ (List.getElem_mem htwo)
  have hnull := nullNoteFor_of_mem ⟨n, hn, hzero⟩ s.posted[0].note s.posted[1].note
  exact List.pairwise_iff_getElem.mp h 0 1 _ htwo Nat.zero_lt_one 0 0
    (nullifier_zero_congr P hp hq (congrArg WitnessNote.place hnull))

theorem revealsOnce_iff_places (hbuilt : ∀ p ∈ s.posted, p.Built agent) (hnull : agent.NoNullNote)
    (hfree : P.CollisionFree (s.queries P)) :
    RevealsOnce P s ↔ s.posted.Pairwise fun p q => p.note.place ≠ q.note.place := by
  constructor
  · intro h
    refine h.imp_of_mem fun {p q} hp hq hreveals hplace => ?_
    refine hreveals 0 0 (nullifier_zero_congr P (hbuilt p hp) (hbuilt q hq) ?_)
    rw [nullNoteFor_of_noNullNote hnull, nullNoteFor_of_noNullNote hnull, hplace]
  · intro h
    refine h.imp_of_mem fun {p q} hp hq hplace tx tx' hreveals => hplace ?_
    rw [← (hbuilt p hp).place hnull tx, ← (hbuilt q hq).place hnull tx']
    exact place_of_nullifier hfree (fun x hx => ⟨p, hp, tx, hx⟩) (fun x hx => ⟨q, hq, tx', hx⟩)
      hreveals

theorem revealsOnce_iff_of_built (hbuilt : ∀ p ∈ s.posted, p.Built agent)
    (hfree : P.CollisionFree (s.queries P)) :
    RevealsOnce P s ↔ s.posted.length ≤ 1 ∨
      agent.NoNullNote ∧ s.posted.Pairwise fun p q => p.note.place ≠ q.note.place := by
  constructor
  · intro h
    obtain hone | htwo := Nat.lt_or_ge 1 s.posted.length
    · have hnull := noNullNote_of_revealsOnce h hbuilt hone
      exact .inr ⟨hnull, (revealsOnce_iff_places hbuilt hnull hfree).mp h⟩
    · exact .inl htwo
  · rintro (hone | ⟨hnull, hplaces⟩)
    · refine List.pairwise_iff_getElem.mpr fun i j hi hj hij => ?_
      omega
    · exact (revealsOnce_iff_places hbuilt hnull hfree).mpr hplaces

/-! ### Calls that wait -/

/-- Payments that did not end took notes in different places, those posted count as spent. -/
structure Session.Apart (s : Session) : Prop where
  places : s.payments.Pairwise fun p q =>
    p.stage ≠ .ended → q.stage ≠ .ended → p.note.place ≠ q.note.place
  spent : ∀ p ∈ s.payments, p.stage = .posted → p.note.nullifier ∈ s.spentNullifiers

/-- The notes in a place have one nullifier. -/
def Holdings.OneNullifier (agent : Holdings) : Prop :=
  ∀ m ∈ agent.notes, ∀ n ∈ agent.notes, m.place = n.place → m.nullifier = n.nullifier

theorem Session.Apart.pay (h : s.Apart) (hone : agent.OneNullifier)
    (hbuilt : ∀ p ∈ s.payments, p.Built agent) {payAmount : ℤ} {extDataHash : String}
    (hwaits : s.Waits agent (.pay payAmount extDataHash)) :
    (s.pay agent payAmount extDataHash).Apart := by
  obtain heq | ⟨note, inputs, hnote, -, heq⟩ := s.pay_cases agent payAmount extDataHash
  · rw [heq]
    exact h
  · obtain ⟨hmem, hfresh⟩ := mem_of_selectWitnessNote hnote
    rw [heq]
    constructor
    · refine List.pairwise_append.mpr ⟨h.places, List.pairwise_singleton _ _, ?_⟩
      intro p hp q hq hpstage _
      obtain rfl := List.mem_singleton.mp hq
      cases hstage : p.stage with
      | proving => exact hwaits note hnote p hp hstage
      | posted =>
          intro hplace
          have hnullifier := hone _ (hbuilt p hp).note _ hmem hplace
          exact hfresh (hnullifier ▸ h.spent p hp hstage)
      | ended => exact absurd hstage hpstage
    · intro p hp hstage
      obtain hp | hp := List.mem_append.mp hp
      · exact h.spent p hp hstage
      · obtain rfl := List.mem_singleton.mp hp
        cases hstage

theorem Session.Apart.prove (h : s.Apart) (i : ℕ) (outcome : ProofOutcome) :
    (s.prove i outcome).Apart := by
  obtain heq | ⟨p, spent, stage, hp, hproving, hsubset, hposted, heq⟩ := s.prove_cases i outcome
  · rw [heq]
    exact h
  · rw [heq]
    -- a payment keeps its note, and had not ended if it has not now
    have hold {j : ℕ} {q : Payment} (hq : (s.payments.modify i
        fun p => { p with stage := stage })[j]? = some q) :
        ∃ q', s.payments[j]? = some q' ∧ q'.note = q.note ∧
          (q.stage ≠ .ended → q'.stage ≠ .ended) := by
      rw [List.getElem?_modify] at hq
      obtain ⟨q', hq', hmodified⟩ := Option.map_eq_some_iff.mp hq
      refine ⟨q', hq', ?_⟩
      split_ifs at hmodified with hij
      · obtain rfl : p = q' := Option.some.inj (hp.symm.trans (hij ▸ hq'))
        rw [hproving, ← hmodified]
        exact ⟨rfl, fun _ => nofun⟩
      · rw [← hmodified]
        exact ⟨rfl, id⟩
    constructor
    · refine List.pairwise_iff_getElem.mpr fun j k hj hk hjk hqstage hrstage => ?_
      obtain ⟨q', hq', hqnote, hqended⟩ := hold (List.getElem?_eq_getElem hj)
      obtain ⟨r', hr', hrnote, hrended⟩ := hold (List.getElem?_eq_getElem hk)
      obtain ⟨hj', rfl⟩ := List.getElem?_eq_some_iff.mp hq'
      obtain ⟨hk', rfl⟩ := List.getElem?_eq_some_iff.mp hr'
      rw [← hqnote, ← hrnote]
      exact List.pairwise_iff_getElem.mp h.places j k hj' hk' hjk (hqended hqstage)
        (hrended hrstage)
    · intro q hq hstage
      obtain hq | ⟨q', hq', rfl⟩ := mem_modify hq
      · exact hsubset (h.spent q hq hstage)
      · obtain rfl : p = q' := Option.some.inj (hp.symm.trans hq')
        exact hposted hstage

theorem Session.Apart.step (h : s.Apart) (hone : agent.OneNullifier)
    (hbuilt : ∀ p ∈ s.payments, p.Built agent) {e : PaymentEvent} (hwaits : s.Waits agent e) :
    (s.step agent e).Apart := by
  cases e with
  | pay payAmount extDataHash => exact h.pay hone hbuilt hwaits
  | prove i outcome => exact h.prove i outcome

theorem Session.Apart.run (h : s.Apart) (hone : agent.OneNullifier)
    (hbuilt : ∀ p ∈ s.payments, p.Built agent) {events : List PaymentEvent}
    (hserial : Session.Serial agent s events) : (s.run agent events).Apart := by
  induction events generalizing s with
  | nil => exact h
  | cons e events ih =>
      exact ih (h.step hone hbuilt hserial.1) (Session.built_step hbuilt e) hserial.2

theorem Session.Apart.posted (h : s.Apart) :
    s.posted.Pairwise fun p q => p.note.place ≠ q.note.place := by
  refine (h.places.filter _).imp_of_mem fun {p q} hp hq hplace => hplace ?_ ?_
  · rw [of_decide_eq_true (List.mem_filter.mp hp).2]
    nofun
  · rw [of_decide_eq_true (List.mem_filter.mp hq).2]
    nofun

theorem Session.built_start : ∀ p ∈ start.payments, p.Built agent := nofun

theorem Session.apart_start : start.Apart := ⟨List.Pairwise.nil, nofun⟩

/-- **What a run reveals twice**: with a null note in the list, what any two payments post; without
one, what was posted for notes in one place.  That does not happen where no call takes a note that
is being proved. -/
theorem revealsOnce_iff (P : Poseidon2) (agent : Holdings) (events : List PaymentEvent)
    (hfree : P.CollisionFree ((Session.start.run agent events).queries P)) :
    (RevealsOnce P (Session.start.run agent events) ↔
      (Session.start.run agent events).posted.length ≤ 1 ∨
        agent.NoNullNote ∧ (Session.start.run agent events).posted.Pairwise
          fun p q => p.note.place ≠ q.note.place) ∧
    (agent.NoNullNote → agent.OneNullifier → Session.Serial agent Session.start events →
      RevealsOnce P (Session.start.run agent events)) := by
  have hbuilt : ∀ p ∈ (Session.start.run agent events).posted, p.Built agent :=
    fun p hp => Session.built_run Session.built_start events p (List.mem_filter.mp hp).1
  have hiff := revealsOnce_iff_of_built hbuilt hfree
  refine ⟨hiff, fun hnull hone hserial => hiff.mpr (.inr ⟨hnull, ?_⟩)⟩
  exact (Session.apart_start.run hone Session.built_start hserial).posted

/-! ### Sample payments -/

/-- Another note of the organisation. -/
def sampleOtherNote : WitnessNote :=
  { samplePaidNote 20 with nullifier := "13", blinding := "8", pathIndex := "1" }

/-- Two notes, after a null note or not. -/
def sampleHoldings (null : List WitnessNote) : Holdings where
  orgSpendingPrivKey := sampleKeyText
  notes := null ++ [samplePaidNote 12, sampleOtherNote]

/-- Two calls, one after the other. -/
def samplePayments : List PaymentEvent :=
  [.pay 5 "0", .prove 0 .proved, .pay 5 "0", .prove 1 .proved]

/-- Two calls, the second before the first has its proof. -/
def sampleOverlap : List PaymentEvent :=
  [.pay 5 "0", .pay 5 "0", .prove 0 .proved, .prove 1 .proved]

theorem run_samplePayments {null : List WitnessNote} (h : null = [] ∨ null = [samplePaidNote 0]) :
    ∃ i j, Session.start.run (sampleHoldings null) samplePayments =
        ⟨["11", "13"], [⟨samplePaidNote 12, i, .posted⟩, ⟨sampleOtherNote, j, .posted⟩]⟩ ∧
      buildWitnessInputs (liveParams sampleKeyText "0" (sampleHoldings null).notes
        (samplePaidNote 12) 5) = some i ∧
      buildWitnessInputs (liveParams sampleKeyText "0" (sampleHoldings null).notes
        sampleOtherNote 5) = some j := by
  obtain ⟨i, hi⟩ := exists_liveInputs "0" (sampleHoldings null).notes (samplePaidNote 12) 5
  obtain ⟨j, hj⟩ := exists_liveInputs "0" (sampleHoldings null).notes sampleOtherNote 5
  have hfirst : selectWitnessNote (sampleHoldings null).notes 5 [] = some (samplePaidNote 12) := by
    obtain rfl | rfl := h <;> decide
  have hsecond : selectWitnessNote (sampleHoldings null).notes 5 ["11"] = some sampleOtherNote := by
    obtain rfl | rfl := h <;> decide
  refine ⟨i, j, ?_, hi, hj⟩
  rw [samplePayments, Session.run_cons, Session.step_pay hfirst hi, Session.run_cons,
    Session.run_cons, Session.step_pay hsecond hj]
  rfl

/-- The second call takes the note that the first is paying with. -/
theorem run_sampleOverlap : ∃ i, Session.start.run (sampleHoldings []) sampleOverlap =
    ⟨["11", "11"], [⟨samplePaidNote 12, i, .posted⟩, ⟨samplePaidNote 12, i, .posted⟩]⟩ := by
  obtain ⟨i, hi⟩ := exists_liveInputs "0" (sampleHoldings []).notes (samplePaidNote 12) 5
  have hfirst : selectWitnessNote (sampleHoldings []).notes 5 [] = some (samplePaidNote 12) := by
    decide
  refine ⟨i, ?_⟩
  rw [sampleOverlap, Session.run_cons, Session.step_pay hfirst hi, Session.run_cons,
    Session.step_pay hfirst hi]
  rfl

/-- **Two payments reveal one nullifier**: that of the null note, one after the other, or that of
their note, at the same time. -/
theorem reveals_twice :
    ¬ RevealsOnce smallPoseidon2
      (Session.start.run (sampleHoldings [samplePaidNote 0]) samplePayments) ∧
    ¬ RevealsOnce smallPoseidon2 (Session.start.run (sampleHoldings []) sampleOverlap) := by
  constructor
  · intro h
    obtain ⟨i, j, hrun, -, -⟩ := run_samplePayments (.inr rfl)
    have hbuilt : ∀ p ∈ (Session.start.run (sampleHoldings [samplePaidNote 0])
        samplePayments).payments, p.Built (sampleHoldings [samplePaidNote 0]) :=
      Session.built_run Session.built_start samplePayments
    refine noNullNote_of_revealsOnce h (fun p hp => hbuilt p (List.mem_filter.mp hp).1) ?_
      (samplePaidNote 0) List.mem_cons_self rfl
    rw [hrun]
    exact Nat.one_lt_two
  · intro h
    obtain ⟨i, hrun⟩ := run_sampleOverlap
    rw [hrun] at h
    exact List.pairwise_iff_getElem.mp h 0 1 Nat.zero_lt_two Nat.one_lt_two Nat.zero_lt_one 0 0 rfl

/-- The signals of the two payments, by the place of the note and its slots. -/
def sampleSignals : List SpentSignals :=
  [⟨0, 1, ((7 : ℕ) : F), 0⟩, ⟨((5 : ℤ) : F), 1, ((7 : ℕ) : F), 0⟩, ⟨0, 1, ((8 : ℕ) : F), 1⟩,
    ⟨((5 : ℤ) : F), 1, ((8 : ℕ) : F), 1⟩]

theorem place_samplePaidNote (amount : ℤ) :
    (samplePaidNote amount).place = (((7 : ℕ) : F), 0) :=
  Prod.ext (signalOf_of_denotes (App.denotes_repr 7)) (signalOf_of_denotes denotes_zero)

theorem place_sampleOtherNote : sampleOtherNote.place = (((8 : ℕ) : F), 1) := by
  refine Prod.ext (signalOf_of_denotes (App.denotes_repr 8)) ?_
  rw [← Nat.cast_one]
  exact signalOf_of_denotes (App.denotes_repr 1)

theorem keySignal_sampleHoldings (null : List WitnessNote) :
    (sampleHoldings null).keySignal = 1 := by
  have hkey : normalizeField sampleKeyText = some (1 : ℕ).repr :=
    normalizeField_bytesToHex (List.cons_ne_nil _ _)
  change signalOf ((normalizeField sampleKeyText).getD "") = 1
  rw [hkey, ← Nat.cast_one]
  exact signalOf_of_denotes (App.denotes_repr 1)

theorem noNullNote_sampleHoldings : (sampleHoldings []).NoNullNote := by
  unfold Holdings.NoNullNote
  decide

theorem collisionFree_samplePayments : smallPoseidon2.CollisionFree
    ((Session.start.run (sampleHoldings []) samplePayments).queries smallPoseidon2) := by
  obtain ⟨i, j, hrun, hi, hj⟩ := run_samplePayments (.inl rfl)
  have hclean : cleanLog smallPoseidon2
      (sampleSignals.flatMap (nullifierQueries smallPoseidon2)) = true := by
    decide
  have hfirst := @Payment.signals_of_build (sampleHoldings []) ⟨samplePaidNote 12, i, .posted⟩ _ _ hi
  have hsecond := @Payment.signals_of_build (sampleHoldings []) ⟨sampleOtherNote, j, .posted⟩ _ _ hj
  have hnull := nullNoteFor_of_noNullNote noNullNote_sampleHoldings
  rw [hnull, keySignal_sampleHoldings] at hfirst hsecond
  rw [place_samplePaidNote] at hfirst
  rw [place_sampleOtherNote] at hsecond
  refine (collisionFree_of_cleanLog hclean).1.mono ?_
  rintro x ⟨p, hp, tx, hx⟩
  refine List.mem_flatMap.mpr ⟨p.signals tx, ?_, hx⟩
  rw [hrun] at hp
  obtain rfl | rfl := List.mem_pair.mp hp
  · obtain rfl | rfl := Fin.exists_fin_two.mp ⟨tx, rfl⟩
    · rw [hfirst.1]
      exact List.mem_cons_self
    · rw [hfirst.2]
      exact List.mem_cons_of_mem _ List.mem_cons_self
  · obtain rfl | rfl := Fin.exists_fin_two.mp ⟨tx, rfl⟩
    · rw [hsecond.1]
      exact List.mem_cons_of_mem _ (List.mem_cons_of_mem _ List.mem_cons_self)
    · rw [hsecond.2]
      exact List.mem_of_mem_getLast? rfl

/-- Without a null note, and one after the other, both nullifiers of both payments are new. -/
theorem revealsOnce_iff_sample : RevealsOnce smallPoseidon2
    (Session.start.run (sampleHoldings []) samplePayments) := by
  obtain ⟨i, j, hrun, hi, hj⟩ := run_samplePayments (.inl rfl)
  refine (revealsOnce_iff smallPoseidon2 (sampleHoldings []) samplePayments
    collisionFree_samplePayments).1.mpr (.inr ⟨noNullNote_sampleHoldings, ?_⟩)
  rw [hrun]
  refine List.pairwise_pair.mpr ?_
  rw [place_samplePaidNote, place_sampleOtherNote]
  decide

end Enclave.Agent

import Enclave.App.OrgRegistry
import Enclave.Facilitator.Requests
import Enclave.Lib.Run

/-! # The dashboard of an organisation

`app/js/enclave/dashboard.js` over the note tags of the deposits and the settlements that the
facilitator logs.  A settlement is logged under the nullifier of the proof's first slot, which an
agent fills with a note of amount zero; the dashboard looks that nullifier up among the tags.
`exact_iff` says for which settlements it finds the organisation. -/

namespace Enclave

open App Prover Js
open Facilitator (ParsedRequest getInputNullifiers)

variable {P : Poseidon2}

/-! ### The log of the facilitator -/

/-- `SettlementEntry`; an absent nullifier is left out of the JSON. -/
structure SettlementEntry where
  nullifier : Option String
  recipient : String
  amount : String
  txHash : String
deriving DecidableEq

/-- The entry that `/settle` appends. -/
def settlementEntry (request : ParsedRequest) (txHash : String) : SettlementEntry :=
  ⟨(getInputNullifiers request.proof)[0]?, request.extData.recipient, request.extData.ext_amount,
    txHash⟩

/-! ### The dashboard -/

/-- What `loadDashboardData` returns, but for the agents. -/
structure DashboardData where
  balanceBaseUnits : ℤ
  history : List SettlementEntry
  warnings : List String
deriving DecidableEq

/-- The sum of the amounts that are integers. -/
def totalDeposited (rows : List NoteTag) : ℤ :=
  rows.foldl (fun total row => (bigInt row.amount).elim total (total + ·)) 0

/-- The settlement's nullifier is that of a tag of the organisation. -/
def attributed (tags : NoteTags) (orgId : String) (s : SettlementEntry) : Bool :=
  match s.nullifier with
  | none => false
  | some nullifier => (tags.getNoteTagByNullifier nullifier).any fun row => row.orgId = orgId

/-- The sum of the absolute amounts. -/
def totalSpent (history : List SettlementEntry) : ℤ :=
  history.foldl (fun total s => (bigInt s.amount).elim total fun amt =>
    total + if amt < 0 then -amt else amt) 0

/-- `loadDashboardData`; the settlements as fetched, or a warning. -/
def loadDashboardData (tags : NoteTags) (orgId : Option String)
    (settlements : Except String (List SettlementEntry)) : DashboardData :=
  match orgId.filter (· ≠ "") with
  | none => ⟨0, [], []⟩
  | some orgId =>
      let deposited := totalDeposited (tags.listNoteTags orgId)
      match settlements with
      | .error warning => ⟨deposited, [], [warning]⟩
      | .ok settlements =>
          let history := settlements.filter (attributed tags orgId)
          ⟨deposited - totalSpent history, history, []⟩

/-! ### Runs -/

/-- A settlement: the notes that it spends, the payment, and its entry in the log. -/
structure Settlement where
  nullNote : OrgNote
  realNote : OrgNote
  payAmount : ℕ
  entry : SettlementEntry

/-- The organisation whose notes a settlement spends. -/
def Settlement.orgId (s : Settlement) : String := s.realNote.orgId

/-- The tags, the notes of the deposits so far, and the settlements so far. -/
structure Books where
  tags : NoteTags
  notes : List OrgNote
  settlements : List Settlement

def Books.blank : Books := ⟨.empty, [], []⟩

/-- The nullifiers of a proof as an agent builds it: the note of amount zero in slot 0, the real
one in slot 1. -/
def inputNullifiers (P : Poseidon2) (nullNote realNote : OrgNote) : List String :=
  [(nullNote.nullifierAt P nullNote.leafIndex).val.repr,
    (realNote.nullifierAt P realNote.leafIndex).val.repr]

/-- What happens: a deposit for the organisation of an admin, whose outputs land somewhere, or a
settlement. -/
inductive BookEvent where
  | deposit (adminAddress : String) (amount : ℤ) (blinding0 blinding1 : List UInt8)
      (leafIndices : ℕ × ℕ)
  | settle (nullNote realNote : OrgNote) (payAmount : ℕ) (request : ParsedRequest)
      (txHash : String)

/-- The steps of the books.  Positions have 32 bits. -/
inductive BookStep (session : OrgSession P) : Books → BookEvent → Books → Prop
  | deposit {books : Books} {adminAddress : String} {amount : ℤ} {blinding0 blinding1 : List UInt8}
      {leafIndices : ℕ × ℕ} {org : EnclaveOrg} {keys : OrgKeys P} {output0 output1 : OutputNote}
      {tags : NoteTags} :
      session.orgs adminAddress = some org → session.keys adminAddress = some keys →
      createOutput P amount keys.orgSpendingPubKey (bytesToBigIntLE blinding0) = .ok output0 →
      createOutput P 0 keys.orgSpendingPubKey (bytesToBigIntLE blinding1) = .ok output1 →
      (depositForOrg session adminAddress amount blinding0 blinding1 true).exec books.tags =
        (.ok true, tags) →
      leafIndices.1 < 2 ^ 32 → leafIndices.2 < 2 ^ 32 →
      BookStep session books (.deposit adminAddress amount blinding0 blinding1 leafIndices)
        { books with
          tags := tags
          notes := books.notes ++
            [(depositedNotes org keys amount
                ((output0.commitmentBig : F), (output1.commitmentBig : F)) leafIndices).1,
              (depositedNotes org keys amount
                ((output0.commitmentBig : F), (output1.commitmentBig : F)) leafIndices).2] }
  | settle {books : Books} {nullNote realNote : OrgNote} {payAmount : ℕ} {request : ParsedRequest}
      {txHash : String} :
      nullNote ∈ books.notes → realNote ∈ books.notes → nullNote.amount = 0 →
      0 < realNote.amount → nullNote.orgId = realNote.orgId →
      getInputNullifiers request.proof = inputNullifiers P nullNote realNote →
      request.extData.ext_amount = bigIntToString (-payAmount) →
      BookStep session books (.settle nullNote realNote payAmount request txHash)
        { books with settlements := books.settlements ++
          [⟨nullNote, realNote, payAmount, settlementEntry request txHash⟩] }

/-- The dashboard of an organisation, with the whole log fetched. -/
def Books.dashboard (books : Books) (orgId : String) : DashboardData :=
  loadDashboardData books.tags (some orgId) (.ok (books.settlements.map Settlement.entry))

/-- The settlements that spent the notes of an organisation. -/
def Books.spentBy (books : Books) (orgId : String) : List Settlement :=
  books.settlements.filter fun s => s.orgId = orgId

/-- What an organisation has deposited. -/
def Books.deposited (books : Books) (orgId : String) : ℤ :=
  ((books.notes.filter fun n => n.orgId = orgId).map OrgNote.amount).sum

/-- The amounts settled from the notes of an organisation. -/
def Books.settled (books : Books) (orgId : String) : ℤ :=
  ((books.spentBy orgId).map fun s => (s.payAmount : ℤ)).sum

/-- The dashboard attributes to an organisation the settlements that spent its notes, and shows its
deposits less the amounts settled. -/
def Books.Exact (books : Books) (orgId : String) : Prop :=
  (books.dashboard orgId).history = (books.spentBy orgId).map Settlement.entry ∧
    (books.dashboard orgId).balanceBaseUnits = books.deposited orgId - books.settled orgId

/-! ### What the books hold -/

/-- No two deposited notes have one commitment. -/
def Books.Distinct (books : Books) : Prop := (books.notes.map OrgNote.commitment).Nodup

/-- Every note is tagged, and every settlement is logged under the nullifier of its note of amount
zero. -/
structure Books.Holds (P : Poseidon2) (books : Books) : Prop where
  tags : books.tags.records.Perm (books.notes.map (OrgNote.tag P))
  leafIndex : ∀ n ∈ books.notes, n.leafIndex < 2 ^ 32
  nullNote : ∀ s ∈ books.settlements, s.nullNote ∈ books.notes
  sameOrg : ∀ s ∈ books.settlements, s.nullNote.orgId = s.orgId
  nullifier : ∀ s ∈ books.settlements,
    s.entry.nullifier = some (s.nullNote.nullifierAt P s.nullNote.leafIndex).val.repr
  amount : ∀ s ∈ books.settlements, s.entry.amount = bigIntToString (-s.payAmount)

theorem Books.holds_blank : Books.blank.Holds P where
  tags := List.Perm.refl _
  leafIndex n hn := by cases hn
  nullNote s hs := by cases hs
  sameOrg s hs := by cases hs
  nullifier s hs := by cases hs
  amount s hs := by cases hs

theorem perm_putNoteTag {tags : NoteTags} {notes : List OrgNote} {note : OrgNote}
    (h : tags.records.Perm (notes.map (OrgNote.tag P)))
    (hnew : ∀ n ∈ notes, n.commitment ≠ note.commitment) :
    (tags.putNoteTag (note.tag P)).records.Perm ((notes ++ [note]).map (OrgNote.tag P)) := by
  have hkeys : ∀ row ∈ tags.records, row.commitment ≠ (note.tag P).commitment := by
    intro row hrow heq
    obtain ⟨n, hn, rfl⟩ := List.mem_map.mp (h.mem_iff.mp hrow)
    exact hnew n hn (F.val_injective (hex64_injective (F.val_lt_word _) (F.val_lt_word _) heq))
  refine (perm_insertByKey hkeys).trans ?_
  rw [List.map_append]
  exact ((h.cons _).trans (List.perm_append_singleton _ _).symm)

/-- **Step lemma.** -/
theorem Books.Holds.step {session : OrgSession P} {books books' : Books} {event : BookEvent}
    (h : books.Holds P) (hstep : BookStep session books event books') (hdistinct : books'.Distinct) :
    books'.Holds P := by
  cases hstep with
  | settle hnull hreal hzero hpos horg hnullifiers hamount =>
      refine ⟨h.tags, h.leafIndex, fun s hs => ?_, fun s hs => ?_, fun s hs => ?_, fun s hs => ?_⟩
      all_goals
        obtain hs | hs := List.mem_append.mp hs
      · exact h.nullNote s hs
      · obtain rfl := List.mem_singleton.mp hs
        exact hnull
      · exact h.sameOrg s hs
      · obtain rfl := List.mem_singleton.mp hs
        exact horg
      · exact h.nullifier s hs
      · obtain rfl := List.mem_singleton.mp hs
        rw [settlementEntry, hnullifiers]
        rfl
      · exact h.amount s hs
      · obtain rfl := List.mem_singleton.mp hs
        exact hamount
  | @deposit _ _ _ _ leafIndices org keys output0 output1 tags horg hkeys h0 h1 hexec hlt0 hlt1 =>
      obtain ⟨org', keys', output0', output1', horg', hkeys', -, h0', h1', htags⟩ :=
        depositForOrg_ok hexec
      obtain rfl := Option.some.inj (horg.symm.trans horg')
      obtain rfl := Option.some.inj (hkeys.symm.trans hkeys')
      obtain rfl := Except.ok.inj (h0.symm.trans h0')
      obtain rfl := Except.ok.inj (h1.symm.trans h1')
      specialize htags leafIndices
      generalize hnotes : depositedNotes org keys _ _ leafIndices = pair at *
      obtain ⟨note0, note1⟩ := pair
      obtain rfl : tags = _ := htags
      have hsplit : books.notes ++ [note0, note1] = (books.notes ++ [note0]) ++ [note1] := by
        rw [List.append_assoc]
        rfl
      have hnew1 : ∀ n ∈ books.notes ++ [note0], n.commitment ≠ note1.commitment := by
        intro n hn heq
        rw [Distinct, hsplit, List.map_append, List.nodup_append] at hdistinct
        exact hdistinct.2.2 _ (List.mem_map_of_mem hn) _ List.mem_cons_self heq
      have hnew0 : ∀ n ∈ books.notes, n.commitment ≠ note0.commitment := by
        intro n hn heq
        rw [Distinct, List.map_append, List.nodup_append] at hdistinct
        exact hdistinct.2.2 _ (List.mem_map_of_mem hn) _ List.mem_cons_self heq
      have hindex0 : note0.leafIndex = leafIndices.1 := by rw [← (Prod.mk.inj hnotes).1]
      have hindex1 : note1.leafIndex = leafIndices.2 := by rw [← (Prod.mk.inj hnotes).2]
      have hmem : ∀ s ∈ books.settlements, s.nullNote ∈ books.notes ++ [note0, note1] := fun s hs =>
        List.mem_append_left _ (h.nullNote s hs)
      refine ⟨?_, fun n hn => ?_, hmem, h.sameOrg, h.nullifier, h.amount⟩
      · change (NoteTags.putNoteTag _ _).records.Perm ((books.notes ++ [note0, note1]).map _)
        rw [hsplit]
        exact perm_putNoteTag (perm_putNoteTag h.tags hnew0) hnew1
      · obtain hn | hn := List.mem_append.mp hn
        · exact h.leafIndex n hn
        · obtain rfl | rfl := List.mem_pair.mp hn
          · rw [hindex0]
            exact hlt0
          · rw [hindex1]
            exact hlt1

theorem Books.Distinct.of_step {session : OrgSession P} {books books' : Books} {event : BookEvent}
    (hstep : BookStep session books event books') (h : books'.Distinct) : books.Distinct := by
  cases hstep with
  | settle => exact h
  | deposit =>
      rw [Distinct, List.map_append] at h
      exact h.of_append_left

/-- **Run lemma.** -/
theorem Books.Holds.of_run {session : OrgSession P} {books books' : Books}
    {events : List BookEvent} (h : books.Holds P) (hrun : Run (BookStep session) books events books')
    (hdistinct : books'.Distinct) : books'.Holds P :=
  (Run.restrict (Q := Distinct) (fun _ _ _ => Distinct.of_step) hrun hdistinct).1.invariant
    (fun _ _ _ hbooks hstep => hbooks.step hstep.1 hstep.2) h

/-! ### Attribution -/

/-- The nullifiers that were evaluated: for the tags, and for the settlements. -/
def Books.queries (P : Poseidon2) (books : Books) : Set Query :=
  {q | ∃ n ∈ books.notes, q = n.nullifierQuery P 0 ∨ q = n.nullifierQuery P n.leafIndex}

theorem repr_val_inj {x y : F} : x.val.repr = y.val.repr ↔ x = y := by
  refine ⟨fun h => ?_, fun h => h ▸ rfl⟩
  have hread := congrArg bigInt h
  rw [bigInt_repr, bigInt_repr] at hread
  exact F.val_injective (Int.ofNat.inj (Option.some.inj hread))

theorem natCast_eq_zero {i : ℕ} (h : i < 2 ^ 32) : ((i : ℕ) : F) = ((0 : ℕ) : F) ↔ i = 0 := by
  have hlt : i < bn256Modulus := h.trans (by decide)
  refine ⟨fun heq => ?_, fun heq => heq ▸ rfl⟩
  have hval := congrArg ZMod.val heq
  rwa [F.val_natCast_of_lt hlt, F.val_natCast_of_lt (by decide)] at hval

/-- The nullifier of a note at its position is that of a tag exactly if it is the note's tag and
the position 0. -/
theorem nullifierAt_eq_iff {books : Books} (h : books.Holds P) (hdistinct : books.Distinct)
    (hfree : P.CollisionFree (books.queries P)) {n m : OrgNote} (hn : n ∈ books.notes)
    (hm : m ∈ books.notes) :
    m.nullifierAt P 0 = n.nullifierAt P n.leafIndex ↔ m = n ∧ n.leafIndex = 0 := by
  constructor
  · intro heq
    have hquery : m.nullifierQuery P 0 = n.nullifierQuery P n.leafIndex :=
      hfree ⟨m, hm, .inl rfl⟩ ⟨n, hn, .inr rfl⟩ heq
    obtain ⟨hcommitment, hindex, -⟩ := Query.hash3.inj hquery
    have hsame : m = n :=
      List.inj_on_of_nodup_map hdistinct hm hn hcommitment
    exact ⟨hsame, (natCast_eq_zero (h.leafIndex n hn)).mp hindex.symm⟩
  · rintro ⟨rfl, hzero⟩
    rw [hzero]

/-- **A settlement is attributed** to the organisation whose notes it spent, if its note of amount
zero lies at position 0, and else to none. -/
theorem attributed_iff {books : Books} (h : books.Holds P) (hdistinct : books.Distinct)
    (hfree : P.CollisionFree (books.queries P)) {s : Settlement} (hs : s ∈ books.settlements)
    (orgId : String) :
    attributed books.tags orgId s.entry = true ↔ s.orgId = orgId ∧ s.nullNote.leafIndex = 0 := by
  have hnull := h.nullNote s hs
  unfold attributed
  rw [h.nullifier s hs]
  have hrow : ∀ row, row ∈ books.tags.records → row.nullifier =
      some (s.nullNote.nullifierAt P s.nullNote.leafIndex).val.repr →
      row.orgId = s.orgId ∧ s.nullNote.leafIndex = 0 := by
    intro row hrow hnullifier
    obtain ⟨m, hm, rfl⟩ := List.mem_map.mp (h.tags.mem_iff.mp hrow)
    have heq := repr_val_inj.mp (Option.some.inj hnullifier)
    obtain ⟨rfl, hzero⟩ := (nullifierAt_eq_iff h hdistinct hfree hnull hm).mp heq
    exact ⟨h.sameOrg s hs, hzero⟩
  have hfind : ∀ row, books.tags.getNoteTagByNullifier
      (s.nullNote.nullifierAt P s.nullNote.leafIndex).val.repr = some row →
      row.orgId = s.orgId ∧ s.nullNote.leafIndex = 0 := fun row hfound =>
    hrow row (List.mem_of_find?_eq_some hfound) (by
      have hsome := List.find?_some hfound
      exact of_decide_eq_true hsome)
  dsimp only
  cases hfound : books.tags.getNoteTagByNullifier
      (s.nullNote.nullifierAt P s.nullNote.leafIndex).val.repr with
  | none =>
      refine iff_of_false Bool.false_ne_true ?_
      rintro ⟨-, hzero⟩
      have htag : s.nullNote.tag P ∈ books.tags.records :=
        h.tags.mem_iff.mpr (List.mem_map_of_mem hnull)
      have hnone := List.find?_eq_none.mp hfound _ htag
      refine hnone (decide_eq_true ?_)
      rw [hzero]
      rfl
  | some row =>
      obtain ⟨hsame, hzero⟩ := hfind row hfound
      rw [Option.any_some, decide_eq_true_iff, hsame]
      exact ⟨fun horg => ⟨horg, hzero⟩, And.left⟩

/-! ### The sums -/

theorem totalDeposited_eq (rows : List NoteTag) :
    totalDeposited rows = (rows.map fun row => (bigInt row.amount).getD 0).sum := by
  have hfold : ∀ (rows : List NoteTag) (total : ℤ),
      rows.foldl (fun total row => (bigInt row.amount).elim total (total + ·)) total =
        total + (rows.map fun row => (bigInt row.amount).getD 0).sum := by
    intro rows
    induction rows with
    | nil => exact fun total => (add_zero total).symm
    | cons row rest ih =>
        intro total
        rw [List.foldl_cons, ih, List.map_cons, List.sum_cons]
        cases bigInt row.amount with
        | none => exact congrArg _ (zero_add _).symm
        | some n => exact add_assoc _ _ _
  exact (hfold rows 0).trans (zero_add _)

theorem Books.Holds.totalDeposited {books : Books} (h : books.Holds P) (orgId : String) :
    totalDeposited (books.tags.listNoteTags orgId) = books.deposited orgId := by
  have hperm : (books.tags.listNoteTags orgId).Perm
      ((books.notes.filter fun n => n.orgId = orgId).map (OrgNote.tag P)) := by
    refine (h.tags.filter _).trans ?_
    rw [List.filter_map]
    exact List.Perm.refl _
  rw [totalDeposited_eq, (hperm.map _).sum_eq, List.map_map, deposited]
  congr 1
  refine List.map_congr_left fun n _ => ?_
  change (bigInt (bigIntToString n.amount)).getD 0 = n.amount
  rw [bigInt_bigIntToString]
  rfl

theorem totalSpent_eq {settlements : List Settlement}
    (h : ∀ s ∈ settlements, s.entry.amount = bigIntToString (-s.payAmount)) :
    totalSpent (settlements.map Settlement.entry) =
      (settlements.map fun s => (s.payAmount : ℤ)).sum := by
  have hfold : ∀ (settlements : List Settlement) (total : ℤ),
      (∀ s ∈ settlements, s.entry.amount = bigIntToString (-s.payAmount)) →
      (settlements.map Settlement.entry).foldl (fun total s => (bigInt s.amount).elim total
        fun amt => total + if amt < 0 then -amt else amt) total =
          total + (settlements.map fun s => (s.payAmount : ℤ)).sum := by
    intro settlements
    induction settlements with
    | nil => exact fun total _ => (add_zero total).symm
    | cons s rest ih =>
        intro total hall
        have habs : (if -(s.payAmount : ℤ) < 0 then - -(s.payAmount : ℤ) else -s.payAmount) =
            s.payAmount := by
          split_ifs <;> omega
        rw [List.map_cons, List.foldl_cons, hall s List.mem_cons_self, bigInt_bigIntToString,
          ih _ fun s' hs' => hall s' (List.mem_cons_of_mem _ hs'), List.map_cons, List.sum_cons,
          Option.elim_some, habs, add_assoc]
  exact (hfold settlements 0 h).trans (zero_add _)

/-! ### What the dashboard shows -/

/-- **The history** of an organisation: its settlements whose note of amount zero lies at
position 0. -/
theorem Books.Holds.history {books : Books} (h : books.Holds P) (hdistinct : books.Distinct)
    (hfree : P.CollisionFree (books.queries P)) {orgId : String} (horg : orgId ≠ "") :
    (books.dashboard orgId).history =
      ((books.spentBy orgId).filter fun s => s.nullNote.leafIndex = 0).map Settlement.entry := by
  have hdata : (books.dashboard orgId).history =
      (books.settlements.map Settlement.entry).filter (attributed books.tags orgId) := by
    rw [dashboard, loadDashboardData, Option.filter_some, if_pos (decide_eq_true horg)]
  rw [hdata, List.filter_map, spentBy, List.filter_filter]
  congr 1
  refine List.filter_congr fun s hs => ?_
  rw [Bool.eq_iff_iff, Function.comp_apply, attributed_iff h hdistinct hfree hs, Bool.and_eq_true,
    decide_eq_true_iff, decide_eq_true_iff, and_comm]

/-- **The dashboard is exact** for an organisation exactly if, in every settlement that spent its
notes, the note of amount zero lies at position 0. -/
theorem exact_iff {session : OrgSession P} {events : List BookEvent} {books : Books}
    (hrun : Run (BookStep session) .blank events books) (hdistinct : books.Distinct)
    (hfree : P.CollisionFree (books.queries P)) {orgId : String} (horg : orgId ≠ "") :
    books.Exact orgId ↔ ∀ s ∈ books.spentBy orgId, s.nullNote.leafIndex = 0 := by
  have h : books.Holds P := Books.holds_blank.of_run hrun hdistinct
  have hhistory := h.history hdistinct hfree horg
  constructor
  · rintro ⟨hexact, -⟩ s hs
    rw [hhistory] at hexact
    have hlen := congrArg List.length hexact
    rw [List.length_map, List.length_map, List.length_filter_eq_length_iff] at hlen
    exact of_decide_eq_true (hlen s hs)
  · intro hall
    have hfilter : ((books.spentBy orgId).filter fun s => s.nullNote.leafIndex = 0) =
        books.spentBy orgId := List.filter_eq_self.mpr fun s hs => decide_eq_true (hall s hs)
    rw [hfilter] at hhistory
    have hbalance : (books.dashboard orgId).balanceBaseUnits =
        totalDeposited (books.tags.listNoteTags orgId) -
          totalSpent (books.dashboard orgId).history := by
      rw [Books.dashboard, loadDashboardData, Option.filter_some, if_pos (decide_eq_true horg)]
    have hamount : ∀ s ∈ books.spentBy orgId, s.entry.amount = bigIntToString (-s.payAmount) :=
      fun s hs => h.amount s (List.mem_filter.mp hs).1
    refine ⟨hhistory, ?_⟩
    rw [hbalance, h.totalDeposited, hhistory, totalSpent_eq hamount]
    rfl

/-! ### A sample

One organisation deposits 7, as the first two leaves of the pool, and pays 7. -/

/-- The keys of the private key 1. -/
def sampleOrgKeys : OrgKeys smallPoseidon2 where
  orgSpendingPrivKey := scalarToBytes 1
  orgSpendingPubKey := scalarToBytes (Circuits.publicKey smallPoseidon2 1)
  derived := derivePublicKey_scalarToBytes 1

def sampleOrg : EnclaveOrg := ⟨"admin", "org"⟩

def sampleOrgSession : OrgSession smallPoseidon2 where
  orgs _ := some sampleOrg
  keys _ := some sampleOrgKeys

def sampleOutput (amount blinding : ℕ) : OutputNote where
  amount := amount
  blinding := ((blinding : F).val : ℕ)
  blindingBytes := scalarToBytes (blinding : F)
  pubKeyBytes := sampleOrgKeys.orgSpendingPubKey
  commitmentBytes := scalarToBytes (Circuits.commitment smallPoseidon2 amount
    (Circuits.publicKey smallPoseidon2 1) blinding)
  commitmentBig := (Circuits.commitment smallPoseidon2 amount
    (Circuits.publicKey smallPoseidon2 1) blinding).val

theorem createOutput_sampleOutput {amount : ℕ} (h : amount < 2 ^ 256) (blinding : ℕ) :
    createOutput smallPoseidon2 amount sampleOrgKeys.orgSpendingPubKey
      (bytesToBigIntLE (scalarToBytes (blinding : F))) = .ok (sampleOutput amount blinding) := by
  have houtput := @createOutput_natCast smallPoseidon2 amount (blinding : F).val h
    (F.val_lt_word _) (Circuits.publicKey smallPoseidon2 1)
  rw [F.natCast_val] at houtput
  rw [bytesToBigIntLE_scalarToBytes]
  exact houtput

def sampleCommitments : F × F :=
  ((sampleOutput 7 5).commitmentBig, (sampleOutput 0 6).commitmentBig)

def sampleNotes : OrgNote × OrgNote :=
  depositedNotes sampleOrg sampleOrgKeys 7 sampleCommitments (0, 1)

def samplePayment : ParsedRequest where
  proof := ⟨"", "", "", "0", some (inputNullifiers smallPoseidon2 sampleNotes.2 sampleNotes.1), "0",
    "0", "0", none, "0", "0"⟩
  extData := ⟨"payee", bigIntToString (-(7 : ℕ)), "", ""⟩
  requirements := ⟨"7", "payee"⟩

def sampleBooks : Books where
  tags := (NoteTags.putNoteTag .empty (sampleNotes.1.tag smallPoseidon2)).putNoteTag
    (sampleNotes.2.tag smallPoseidon2)
  notes := [sampleNotes.1, sampleNotes.2]
  settlements := [⟨sampleNotes.2, sampleNotes.1, 7, settlementEntry samplePayment "tx"⟩]

theorem run_sampleBooks : Run (BookStep sampleOrgSession) .blank
    [.deposit "admin" 7 (scalarToBytes ((5 : ℕ) : F)) (scalarToBytes ((6 : ℕ) : F)) (0, 1),
      .settle sampleNotes.2 sampleNotes.1 7 samplePayment "tx"] sampleBooks := by
  have h0 := @createOutput_sampleOutput 7 (by decide) 5
  have h1 := @createOutput_sampleOutput 0 (by decide) 6
  have haddress : "admin" ≠ "" := by decide
  have horg : sampleOrgSession.orgs "admin" = some sampleOrg := rfl
  have hkeys : sampleOrgSession.keys "admin" = some sampleOrgKeys := rfl
  have hexec := exec_depositForOrg haddress (by decide) horg hkeys h0 h1 (0, 1) .empty
  refine .cons (BookStep.deposit rfl rfl h0 h1 hexec (by decide) (by decide)) ?_
  refine .cons (BookStep.settle ?_ ?_ rfl (by decide) rfl rfl rfl) (.nil _)
  · exact List.mem_cons_of_mem _ List.mem_cons_self
  · exact List.mem_cons_self

theorem distinct_sampleBooks : sampleBooks.Distinct := by
  unfold Books.Distinct
  decide

theorem collisionFree_sampleBooks :
    smallPoseidon2.CollisionFree (sampleBooks.queries smallPoseidon2) := by
  have hclean : cleanLog smallPoseidon2 [sampleNotes.1.nullifierQuery smallPoseidon2 0,
      sampleNotes.2.nullifierQuery smallPoseidon2 0,
      sampleNotes.2.nullifierQuery smallPoseidon2 1] = true := by
    decide
  refine (collisionFree_of_cleanLog hclean).1.mono ?_
  rintro q ⟨n, hn, hq⟩
  obtain rfl | rfl := List.mem_pair.mp hn
  · obtain rfl | rfl := hq
    · exact List.mem_cons_self
    · exact List.mem_cons_self
  · obtain rfl | rfl := hq
    · exact List.mem_cons_of_mem _ List.mem_cons_self
    · exact List.mem_cons_of_mem _ (List.mem_cons_of_mem _ List.mem_cons_self)

/-- After the payment it counts that the note of amount zero lies at position 1. -/
theorem exact_iff_sample : sampleBooks.Exact "org" ↔
    ∀ s ∈ sampleBooks.spentBy "org", s.nullNote.leafIndex = 0 :=
  exact_iff run_sampleBooks distinct_sampleBooks collisionFree_sampleBooks (by decide)

/-- **The payment is not found**: the dashboard goes on showing the deposit. -/
theorem not_exact_sample : ∃ events, Run (BookStep sampleOrgSession) .blank events sampleBooks ∧
    (sampleBooks.dashboard "org").history = [] ∧ (sampleBooks.spentBy "org").length = 1 ∧
    ¬ sampleBooks.Exact "org" := by
  have hholds : sampleBooks.Holds smallPoseidon2 :=
    Books.holds_blank.of_run run_sampleBooks distinct_sampleBooks
  have hhistory := hholds.history distinct_sampleBooks collisionFree_sampleBooks
    (show "org" ≠ "" by decide)
  have hspent : sampleBooks.spentBy "org" = sampleBooks.settlements :=
    List.filter_eq_self.mpr fun s hs => by
      obtain rfl := List.mem_singleton.mp hs
      decide
  have hnone : sampleBooks.settlements.filter (fun s => s.nullNote.leafIndex = 0) = [] := rfl
  rw [hspent, hnone] at hhistory
  refine ⟨_, run_sampleBooks, hhistory, by rw [hspent]; rfl, ?_⟩
  rintro ⟨hexact, -⟩
  rw [hhistory, hspent] at hexact
  cases hexact

end Enclave

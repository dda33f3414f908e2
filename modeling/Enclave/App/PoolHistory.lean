import Enclave.App.PoolEvents
import Enclave.Lib.Segments
import Enclave.Pool.History

/-! # A history as the app sees it

The events of a history with their ledgers, in order.  They are numbered, and emit the leaves of
the contract's tree (`holds_run`); up to a ledger they are those of the history up to that ledger,
and the events of a range of ledgers are a segment of them. -/

namespace Enclave.App

open Pool Rpc

variable (ext : Externals) (P : Poseidon2)

def ledgerEvents : Env Chain → List Entry → List LedgerEvent
  | _, [] => []
  | env, entry :: rest =>
      (newEvents env (step ext P env entry.action)).map (Prod.mk entry.ledger) ++
        ledgerEvents (step ext P env entry.action) rest

variable {ext P} {env : Env Chain} {history : List Entry} {evs evs' : List LedgerEvent}
  {levels n a b : ℕ} {leaves : List F}

/-! ### Events and leaves -/

theorem emissionsOf_append : emissionsOf (evs ++ evs') = emissionsOf evs ++ emissionsOf evs' :=
  List.filterMap_append

theorem numbered_append :
    Numbered n (evs ++ evs') ↔ Numbered n evs ∧ Numbered (n + (emissionsOf evs).length) evs' := by
  induction evs generalizing n with
  | nil => simp [Numbered, emissionsOf]
  | cons x rest ih =>
      obtain ⟨ledger, event⟩ := x
      cases event with
      | newCommitment commitment index output =>
          have hcons : (emissionsOf ((ledger, .newCommitment commitment index output) ::
              rest)).length = (emissionsOf rest).length + 1 := rfl
          rw [List.cons_append, Numbered, Numbered, ih, hcons, Nat.add_right_comm, Nat.add_assoc n,
            and_assoc, and_assoc]
      | newNullifier nullifier => exact ih
      | publicKey owner encryptionKey noteKey => exact ih

theorem numbered_nullifiers (ledger : ℕ) (nullifiers : List U256) :
    Numbered n ((nullifiers.map Event.newNullifier).map (Prod.mk ledger)) ∧
      emissionsOf ((nullifiers.map Event.newNullifier).map (Prod.mk ledger)) = [] := by
  induction nullifiers with
  | nil => exact ⟨trivial, rfl⟩
  | cons m rest ih => exact ih

theorem numbered_onlyKeys {events : List Event} (h : OnlyKeys events) (ledger : ℕ) :
    Numbered n (events.map (Prod.mk ledger)) ∧ emissionsOf (events.map (Prod.mk ledger)) = [] := by
  induction events with
  | nil => exact ⟨trivial, rfl⟩
  | cons event rest ih =>
      obtain ⟨owner, encryptionKey, noteKey, rfl⟩ := h event List.mem_cons_self
      exact ih fun e he => h e (List.mem_cons_of_mem _ he)

/-- **The events of a history** are numbered, and emit the leaves of the tree. -/
theorem holds_run (hz : ZeroTable P) (h1 : 1 ≤ levels) (h32 : levels ≤ 32)
    (h : MerkleTreeWithHistory.Holds P levels leaves (merkleEnv env)) (history : List Entry) :
    Numbered leaves.length (ledgerEvents ext P env history) ∧
      MerkleTreeWithHistory.Holds P levels
        (leaves ++ commitments (emissionsOf (ledgerEvents ext P env history)))
        (merkleEnv (run ext P env (history.map Entry.action))) := by
  induction history generalizing env leaves with
  | nil => exact ⟨trivial, by rwa [ledgerEvents, emissionsOf, List.filterMap_nil, commitments,
      List.map_nil, List.append_nil]⟩
  | cons entry rest ih =>
      rw [ledgerEvents, numbered_append, emissionsOf_append, commitments, List.map_append,
        ← List.append_assoc, List.map_cons, run_cons]
      obtain ⟨proof, extData, idx, -, hins, hevents⟩ | ⟨-, hmerkle, hkeys⟩ :=
        step_publishes ext P env entry.action
      · obtain ⟨h₁, h₂, rfl, hholds⟩ := h.of_insertTwoLeaves hz h1 h32 hins
        obtain ⟨hnulls, hnone⟩ := numbered_nullifiers (n := leaves.length) entry.ledger
          proof.inputNullifiers
        obtain ⟨hnum, hrest⟩ := ih hholds
        have hem : emissionsOf ((newEvents env (step ext P env entry.action)).map
            (Prod.mk entry.ledger)) =
            [⟨proof.outputCommitment0, extData.encryptedOutput0, entry.ledger⟩,
              ⟨proof.outputCommitment1, extData.encryptedOutput1, entry.ledger⟩] := by
          rw [hevents, transactEvents, List.map_append, emissionsOf_append, hnone]
          rfl
        rw [hem]
        refine ⟨⟨?_, by simpa using hnum⟩, hrest⟩
        rw [hevents, transactEvents, List.map_append, numbered_append, hnone]
        exact ⟨hnulls, rfl, h₁, rfl, h₂, trivial⟩
      · obtain ⟨hnum, hnone⟩ := numbered_onlyKeys (n := leaves.length) hkeys entry.ledger
        rw [hnone, List.map_nil, List.append_nil]
        rw [← hmerkle] at h
        exact ⟨⟨hnum, (ih h).1⟩, (ih h).2⟩

/-! ### Ledgers -/

theorem ledger_of_mem {x : LedgerEvent} (h : x ∈ ledgerEvents ext P env history) :
    ∃ entry ∈ history, x.1 = entry.ledger := by
  induction history generalizing env with
  | nil => cases h
  | cons entry rest ih =>
      rw [ledgerEvents] at h
      obtain hnew | hrest := List.mem_append.mp h
      · obtain ⟨event, -, rfl⟩ := List.mem_map.mp hnew
        exact ⟨entry, List.mem_cons_self, rfl⟩
      · obtain ⟨entry', hmem, heq⟩ := ih hrest
        exact ⟨entry', List.mem_cons_of_mem _ hmem, heq⟩

theorem sorted_ledgerEvents (h : history.Pairwise fun x y => x.ledger ≤ y.ledger) :
    (ledgerEvents ext P env history).Pairwise fun x y => x.1 ≤ y.1 := by
  induction history generalizing env with
  | nil => exact List.Pairwise.nil
  | cons entry rest ih =>
      obtain ⟨hentry, hrest⟩ := List.pairwise_cons.mp h
      refine List.pairwise_append.mpr ⟨?_, ih hrest, ?_⟩
      · exact List.pairwise_map.mpr (List.pairwise_of_forall fun _ _ => le_rfl)
      · intro x hx y hy
        obtain ⟨event, -, rfl⟩ := List.mem_map.mp hx
        obtain ⟨entry', hmem, heq⟩ := ledger_of_mem hy
        rw [heq]
        exact hentry entry' hmem

def historyBefore (b : ℕ) (history : List Entry) : List Entry :=
  history.filter fun entry => entry.ledger < b

def eventsBefore (b : ℕ) (evs : List LedgerEvent) : List LedgerEvent :=
  Segments.before Prod.fst b evs

/-- The events from one ledger on and before another. -/
def eventsBetween (a b : ℕ) (evs : List LedgerEvent) : List LedgerEvent :=
  Segments.between Prod.fst a b evs

theorem ledgerEvents_historyBefore (h : history.Pairwise fun x y => x.ledger ≤ y.ledger) (b : ℕ) :
    ledgerEvents ext P env (historyBefore b history) =
      eventsBefore b (ledgerEvents ext P env history) := by
  induction history generalizing env with
  | nil => rfl
  | cons entry rest ih =>
      obtain ⟨hentry, hrest⟩ := List.pairwise_cons.mp h
      rw [historyBefore, List.filter_cons, eventsBefore, Segments.before]
      split_ifs with hlt
      · rw [decide_eq_true_eq] at hlt
        have hnew : ∀ x ∈ (newEvents env (step ext P env entry.action)).map (Prod.mk entry.ledger),
            decide (x.1 < b) = true := by
          intro x hx
          obtain ⟨event, -, rfl⟩ := List.mem_map.mp hx
          exact decide_eq_true hlt
        rw [ledgerEvents, ledgerEvents, List.filter_append, List.filter_eq_self.mpr hnew,
          ← historyBefore, ih hrest, eventsBefore, Segments.before]
      · rw [decide_eq_true_eq] at hlt
        have hlate : ∀ entry' ∈ entry :: rest, ¬ entry'.ledger < b := by
          intro entry' hmem
          obtain rfl | hmem := List.mem_cons.mp hmem
          · exact hlt
          · exact fun hlt' => hlt ((hentry entry' hmem).trans_lt hlt')
        rw [List.filter_eq_nil_iff.mpr fun entry' hmem => by
            simpa using hlate entry' (List.mem_cons_of_mem _ hmem), ledgerEvents,
          List.filter_eq_nil_iff.mpr]
        intro x hx
        obtain ⟨entry', hmem, heq⟩ := ledger_of_mem hx
        rw [decide_eq_true_eq, heq]
        exact hlate entry' hmem

theorem eventsBefore_append (h : evs.Pairwise fun x y => x.1 ≤ y.1) (hab : a ≤ b) :
    eventsBefore b evs = eventsBefore a evs ++ eventsBetween a b evs :=
  Segments.before_append h hab

theorem eventsBefore_append_rest (h : evs.Pairwise fun x y => x.1 ≤ y.1) (b : ℕ) :
    evs = eventsBefore b evs ++ evs.filter fun x => b ≤ x.1 :=
  Segments.before_append_rest h b

theorem decode_published (addressText : Address → String) (p : ℕ → Bool) :
    ((published ext P env history).filter fun e => p e.ledger).map (decodeEvent addressText) =
      ((ledgerEvents ext P env history).filter fun x => p x.1).map (native addressText) := by
  induction history generalizing env with
  | nil => rfl
  | cons entry rest ih =>
      rw [published, ledgerEvents, List.filter_append, List.filter_append, List.map_append,
        List.map_append, ih, List.filter_map, List.filter_map, List.map_map, List.map_map]
      rfl

/-! ### Emissions by ledger -/

theorem exists_of_mem_emissionsOf {e : Emission} (h : e ∈ emissionsOf evs) :
    ∃ x ∈ evs, emission? x = some e ∧ e.ledger = x.1 := by
  obtain ⟨⟨ledger, event⟩, hx, he⟩ := List.mem_filterMap.mp h
  refine ⟨_, hx, he, ?_⟩
  cases event with
  | newCommitment commitment index output =>
      cases he
      rfl
  | newNullifier nullifier => cases he
  | publicKey owner encryptionKey noteKey => cases he

/-- How many commitments are emitted before a ledger. -/
def countBefore (evs : List LedgerEvent) (b : ℕ) : ℕ := (emissionsOf (eventsBefore b evs)).length

theorem emissionsOf_eq (h : evs.Pairwise fun x y => x.1 ≤ y.1) (b : ℕ) :
    emissionsOf evs = emissionsOf (eventsBefore b evs) ++
      emissionsOf (evs.filter fun x => b ≤ x.1) := by
  rw [← emissionsOf_append, ← eventsBefore_append_rest h]

theorem countBefore_le (h : evs.Pairwise fun x y => x.1 ≤ y.1) (b : ℕ) :
    countBefore evs b ≤ (emissionsOf evs).length := by
  rw [emissionsOf_eq h b, List.length_append]
  exact Nat.le_add_right _ _

theorem countBefore_mono (h : evs.Pairwise fun x y => x.1 ≤ y.1) (hab : a ≤ b) :
    countBefore evs a ≤ countBefore evs b := by
  rw [countBefore, countBefore, eventsBefore_append h hab, emissionsOf_append, List.length_append]
  exact Nat.le_add_right _ _

theorem take_countBefore (h : evs.Pairwise fun x y => x.1 ≤ y.1) (b : ℕ) :
    (emissionsOf evs).take (countBefore evs b) = emissionsOf (eventsBefore b evs) := by
  rw [emissionsOf_eq h b, countBefore, List.take_left]

/-- The first emissions are those before a ledger. -/
theorem lt_countBefore_iff (h : evs.Pairwise fun x y => x.1 ≤ y.1) {i : ℕ} {e : Emission}
    (he : (emissionsOf evs)[i]? = some e) : i < countBefore evs b ↔ e.ledger < b := by
  rw [emissionsOf_eq h b] at he
  rcases Nat.lt_or_ge i (countBefore evs b) with hlt | hge
  · rw [List.getElem?_append_left hlt] at he
    obtain ⟨x, hx, -, hledger⟩ := exists_of_mem_emissionsOf (List.mem_of_getElem? he)
    rw [eventsBefore, Segments.before, List.mem_filter, decide_eq_true_eq] at hx
    exact iff_of_true hlt (hledger ▸ hx.2)
  · rw [List.getElem?_append_right hge] at he
    obtain ⟨x, hx, -, hledger⟩ := exists_of_mem_emissionsOf (List.mem_of_getElem? he)
    rw [List.mem_filter, decide_eq_true_eq] at hx
    exact iff_of_false (not_lt.mpr hge) (not_lt.mpr (hledger ▸ hx.2))

/-- The events of some ledgers, or the first of them, go on where those before end. -/
theorem eventsBetween_take_spec (h : evs.Pairwise fun x y => x.1 ≤ y.1) (hnum : Numbered 0 evs)
    (hab : a ≤ b) (k : ℕ) :
    Numbered (countBefore evs a) ((eventsBetween a b evs).take k) ∧
      emissionsOf ((eventsBetween a b evs).take k) <+:
        (emissionsOf evs).drop (countBefore evs a) ∧
      countBefore evs a + (emissionsOf ((eventsBetween a b evs).take k)).length ≤
        countBefore evs b := by
  have hsplit := eventsBefore_append h hab
  have hpage := List.take_append_drop k (eventsBetween a b evs)
  have hbefore : emissionsOf (eventsBefore b evs) = emissionsOf (eventsBefore a evs) ++
      (emissionsOf ((eventsBetween a b evs).take k) ++
        emissionsOf ((eventsBetween a b evs).drop k)) := by
    rw [← emissionsOf_append, hpage, ← emissionsOf_append, ← hsplit]
  refine ⟨?_, ?_, ?_⟩
  · rw [eventsBefore_append_rest h b, hsplit, ← hpage, List.append_assoc, List.append_assoc,
      numbered_append, numbered_append, Nat.zero_add] at hnum
    exact hnum.2.1
  · rw [emissionsOf_eq h b, hbefore, List.append_assoc, countBefore, List.drop_left,
      List.append_assoc]
    exact List.prefix_append _ _
  · rw [countBefore, countBefore, hbefore, List.length_append, List.length_append]
    omega

end Enclave.App

import Enclave.App.SyncController
import Enclave.App.PoolHistory

/-! # Fetching the events of the pool again

A network answers requests in chunks of ledgers and pages of events, until it fails.  As long as no
commitment is passed over, the records are those of the first commitments after every chunk
(`exec_fetchChunks`): what is stored already stays as it is, but the live tree takes every
commitment that is delivered, and has `2 ^ treeDepth` places. -/

namespace Enclave.App

open Prover Pool Rpc

/-! ### The network -/

/-- How the network answers: the ledgers that it retains, whether the last ledger of a request is
searched, and the ledger from which on requests fail. -/
structure Network where
  oldest : ℕ
  newest : ℕ
  lastIncluded : Bool
  failing : ℕ

namespace Network

variable (w : Network) (evs : List LedgerEvent)

/-- The ledger before which a search ends. -/
def searchEnd (stop : ℕ) : ℕ := if w.lastIncluded then stop + 1 else stop

/-- The answers are those of the network. -/
def Answers (reported : List RpcEvent) (r : SyncRun) : Prop :=
  ∀ start stop, start ≤ stop → stop ≤ r.latestLedger →
    if w.failing ≤ start then ∃ message, r.getEvents start stop pageSize = .error message
    else if start < w.oldest then r.getEvents start stop pageSize = .outOfRange w.oldest w.newest
    else ∃ cursor, r.getEvents start stop pageSize = .events ((reported.filter fun e =>
      decide (start ≤ e.ledger ∧ e.ledger < w.searchEnd stop)).take pageSize) cursor

def page (start stop : ℕ) : List LedgerEvent :=
  (eventsBetween start (w.searchEnd stop) evs).take pageSize

/-- The events that are delivered from a ledger on. -/
def deliveredFrom (latest current : ℕ) : List LedgerEvent :=
  ((chunkStarts latest current).filter (· < w.failing)).flatMap fun start =>
    w.page evs start (chunkEnd latest start)

def delivered (r : SyncRun) : List LedgerEvent :=
  w.deliveredFrom evs r.latestLedger (max r.startLedger w.oldest)

end Network

/-! ### Deliveries -/

section Deliveries

variable {latest current : ℕ} {w : Network} {evs : List LedgerEvent}

namespace Network

theorem deliveredFrom_of_lt (h : latest < current) : w.deliveredFrom evs latest current = [] := by
  rw [deliveredFrom, chunkStarts_of_lt h]
  rfl

theorem deliveredFrom_of_le (h : current ≤ latest) (hanswered : current < w.failing) :
    w.deliveredFrom evs latest current = w.page evs current (chunkEnd latest current) ++
      w.deliveredFrom evs latest (chunkEnd latest current + 1) := by
  rw [deliveredFrom, chunkStarts_of_le h, List.filter_cons_of_pos (by simpa using hanswered),
    List.flatMap_cons, deliveredFrom]

theorem le_of_mem_page {start stop : ℕ} {x : LedgerEvent} (h : x ∈ w.page evs start stop) :
    start ≤ x.1 := by
  have hmem := List.mem_of_mem_take h
  rw [eventsBetween, Segments.between, List.mem_filter, decide_eq_true_eq] at hmem
  exact hmem.2.1

theorem le_of_mem_deliveredFrom {x : LedgerEvent} (h : x ∈ w.deliveredFrom evs latest current) :
    current ≤ x.1 := by
  obtain ⟨start, hstart, hx⟩ := List.mem_flatMap.mp h
  exact (le_of_mem_chunkStarts (List.mem_of_mem_filter hstart)).trans (le_of_mem_page hx)

/-- All is delivered, if requests are answered to their last ledger and chunks fit into pages. -/
theorem deliveredFrom_eq (hlast : w.lastIncluded = true) (hfailing : latest < w.failing)
    (hsorted : evs.Pairwise fun x y => x.1 ≤ y.1) (h : current ≤ latest + 1)
    (hpages : ∀ start ∈ chunkStarts latest current,
      (chunkEvents Prod.fst evs latest start).length ≤ pageSize) :
    w.deliveredFrom evs latest current = eventsBetween current (latest + 1) evs := by
  have hpage : ∀ start stop, w.page evs start stop =
      (Segments.between Prod.fst start (stop + 1) evs).take pageSize := fun start stop => by
    rw [page, searchEnd, if_pos hlast, eventsBetween]
  rw [deliveredFrom, List.filter_eq_self.mpr fun start hstart => ?_, eventsBetween,
    ← flatMap_chunkEvents hsorted h]
  · exact List.flatMap_congr fun start hstart =>
      (hpage _ _).trans (List.take_of_length_le (hpages start hstart))
  · exact decide_eq_true ((mem_chunkStarts_le hstart).trans_lt hfailing)

end Network

end Deliveries

/-! ### A page -/

section Pages

variable {P : Poseidon2} {addressText : Address → String} {evs : List LedgerEvent}

/-- The note keys of registrations have the length of a field element. -/
def NoteKeysFit (evs : List LedgerEvent) : Prop :=
  ∀ ledger owner encryptionKey noteKey,
    (ledger, Event.publicKey owner encryptionKey noteKey) ∈ evs → noteKey.length = fieldSize

theorem exec_processPublicKeyEvent {owner : String} {encryptionKey noteKey : List UInt8}
    (h : noteKey.length = fieldSize) (ledger : ℕ) (s : AppStore) :
    ∃ keys, (processPublicKeyEvent (.string owner) (.bytes encryptionKey) (.bytes noteKey)
      .undefined ledger).exec s = (.ok (), { s with registeredPublicKeys := keys }) := by
  have hfield : fieldToHex noteKey =
      .ok (bytesToHex (scalarToBytes (leValue noteKey : F)).reverse) := by
    rw [fieldToHex, bytesToScalar, if_neg (by simpa using h)]
    rfl
  have hkeys : keysOf (.bytes encryptionKey) (.bytes noteKey) .undefined =
      .ok (some (bytesToHex encryptionKey,
        bytesToHex (scalarToBytes (leValue noteKey : F)).reverse)) := by
    change (fieldToHex noteKey >>= fun key => _) = _
    rw [hfield]
    rfl
  obtain ⟨keys, hput, -⟩ := ObjectStore.exists_put rfl s.registeredPublicKeys
    ⟨owner, bytesToHex encryptionKey, bytesToHex (scalarToBytes (leValue noteKey : F)).reverse,
      ledger⟩
  refine ⟨keys, ?_⟩
  rw [processPublicKeyEvent, hkeys]
  refine (Wasm.exec_bind_of_ok (Wasm.exec_pure _ s) _).trans ?_
  refine (Wasm.exec_bind_of_ok (Wasm.exec_get s) _).trans ?_
  rw [hput]
  rfl

theorem processKeyEvents_publicKey {ledger : ℕ} {owner : Address}
    {encryptionKey noteKey : List UInt8} {rest : List NativeEvent} :
    processKeyEvents (native addressText (ledger, .publicKey owner encryptionKey noteKey) :: rest) =
      if (Native.string (addressText owner)).truthy && true then do
        processPublicKeyEvent (.string (addressText owner)) (.bytes encryptionKey)
          (.bytes noteKey) .undefined ledger
        processKeyEvents rest
      else processKeyEvents rest := rfl

theorem exec_processKeyEvents (h : NoteKeysFit evs) (s : AppStore) :
    ∃ keys, (processKeyEvents (evs.map (native addressText))).exec s =
      (.ok (), { s with registeredPublicKeys := keys }) := by
  induction evs generalizing s with
  | nil => exact ⟨s.registeredPublicKeys, rfl⟩
  | cons x rest ih =>
      obtain ⟨ledger, event⟩ := x
      have hrest : NoteKeysFit rest := fun ledger owner encryptionKey noteKey hmem =>
        h ledger owner encryptionKey noteKey (List.mem_cons_of_mem _ hmem)
      cases event with
      | newCommitment commitment index output => exact ih hrest s
      | newNullifier nullifier => exact ih hrest s
      | publicKey owner encryptionKey noteKey =>
          rw [List.map_cons, processKeyEvents_publicKey]
          split_ifs
          · obtain ⟨keys, hkeys⟩ := exec_processPublicKeyEvent
              (h ledger owner encryptionKey noteKey List.mem_cons_self) ledger s
            obtain ⟨keys', hkeys'⟩ := ih hrest { s with registeredPublicKeys := keys }
            exact ⟨keys', (Wasm.exec_bind_of_ok hkeys _).trans hkeys'⟩
          · exact ih hrest s

theorem exec_onPool {α : Type} {m : Task α} {a : α} {s : AppStore} {t : PoolStore}
    (h : m.exec s.pool = (.ok a, t)) : (onPool m).exec s = (.ok a, { s with pool := t }) := by
  change ((m.exec s.pool).1, { s with pool := (m.exec s.pool).2 }) = _
  rw [h]

/-- **A page**: emissions that are stored change nothing but the live tree, new ones are stored. -/
theorem exec_onPage {full : List Emission} {n m : ℕ} {live : List F} {s : AppStore}
    (hnodup : (commitments full).Nodup) (hnum : Numbered n evs)
    (hfull : emissionsOf evs <+: full.drop n) (hnm : n ≤ m) (hm : m ≤ full.length)
    (hstored : Stored (full.take m) s.pool) (hlive : Live P live s.pool.merkleTree)
    (hroom : live.length + (emissionsOf evs).length ≤ 2 ^ treeDepth) (hkeys : NoteKeysFit evs) :
    ∃ s', (∀ cursor, (onPage P (evs.map (native addressText)) cursor).exec s = (.ok (), s')) ∧
      Stored (full.take (max m (n + (emissionsOf evs).length))) s'.pool ∧
      Live P (live ++ commitments (emissionsOf evs)) s'.pool.merkleTree := by
  obtain ⟨counts, t, hexec, ht, hlive', -⟩ := exec_processEvents
    hnodup hnum hfull hnm hm hstored hlive hroom
  obtain ⟨keys, hexec'⟩ := exec_processKeyEvents hkeys
    { s with pool := t }
  exact ⟨_, fun _ => (Wasm.exec_bind_of_ok (exec_onPool hexec) _).trans hexec', ht, hlive'⟩

end Pages

/-! ### Fetching -/

section Fetching

variable {P : Poseidon2} {addressText : Address → String} {ext : Externals} {env : Env Chain}
  {history : List Entry} {w : Network} {r : SyncRun}

theorem map_decodeEvent_page (start stop : ℕ) :
    (((published ext P env history).filter fun e =>
        decide (start ≤ e.ledger ∧ e.ledger < w.searchEnd stop)).take pageSize).map
          (decodeEvent addressText) =
      (w.page (ledgerEvents ext P env history) start stop).map (native addressText) := by
  rw [List.map_take, decode_published addressText fun l =>
    decide (start ≤ l ∧ l < w.searchEnd stop), ← List.map_take]
  rfl

theorem fetchChunks_failing (hw : w.Answers (published ext P env history) r) {current : ℕ}
    (hle : current ≤ r.latestLedger) (h : w.failing ≤ current) (p : Progress NativeEvent)
    (s : AppStore) : ∃ message, (fetchChunks (r.rpc addressText) (r.options P) r.latestLedger
      current p).exec s = (.error (.error message), s) := by
  have hanswer := hw current _ (le_chunkEnd hle) chunkEnd_le
  rw [if_pos h] at hanswer
  obtain ⟨message, hanswer⟩ := hanswer
  refine ⟨message, ?_⟩
  rw [fetchChunks_error hle (congrArg (RpcAnswer.decode addressText) hanswer)]
  rfl

/-- The first request fails, or leads to what is retained. -/
theorem fetchChunks_start (hw : w.Answers (published ext P env history) r) (current : ℕ)
    (p : Progress NativeEvent) :
    fetchChunks (r.rpc addressText) (r.options P) r.latestLedger current p =
        fetchChunks (r.rpc addressText) (r.options P) r.latestLedger (max current w.oldest) p ∨
      w.failing ≤ r.latestLedger ∧ ∀ s, ∃ message,
        (fetchChunks (r.rpc addressText) (r.options P) r.latestLedger current p).exec s =
          (.error (.error message), s) := by
  rcases Nat.lt_or_ge current w.oldest with hearly | hretained
  · rw [max_eq_right hearly.le]
    rcases Nat.lt_or_ge r.latestLedger current with hend | hle
    · exact .inl (by rw [fetchChunks_done hend, fetchChunks_done (hend.trans hearly)])
    · rcases Nat.lt_or_ge current w.failing with hanswered | hfailing
      · have hanswer := hw current _ (le_chunkEnd hle) chunkEnd_le
        rw [if_neg (not_le.mpr hanswered), if_pos hearly] at hanswer
        exact .inl (fetchChunks_early hle hearly
          (congrArg (RpcAnswer.decode addressText) hanswer))
      · exact .inr ⟨hfailing.trans hle, fetchChunks_failing hw hle hfailing p⟩
  · exact .inl (by rw [max_eq_left hretained])

theorem exec_fetchChunks_page (hw : w.Answers (published ext P env history) r) {current : ℕ}
    (hle : current ≤ r.latestLedger) (h : current < w.failing) (hearly : w.oldest ≤ current)
    (p : Progress NativeEvent) {s s' : AppStore}
    (hpage : ∀ cursor, (onPage P ((w.page (ledgerEvents ext P env history) current
      (chunkEnd r.latestLedger current)).map (native addressText)) cursor).exec s = (.ok (), s')) :
    ∃ p', (fetchChunks (r.rpc addressText) (r.options P) r.latestLedger current p).exec s =
      (fetchChunks (r.rpc addressText) (r.options P) r.latestLedger
        (chunkEnd r.latestLedger current + 1) p').exec s' := by
  have hanswer := hw current _ (le_chunkEnd hle) chunkEnd_le
  rw [if_neg (not_le.mpr h), if_neg (not_lt.mpr hearly)] at hanswer
  obtain ⟨cursor, hanswer⟩ := hanswer
  rw [← map_decodeEvent_page] at hpage
  rw [fetchChunks_events hle (congrArg (RpcAnswer.decode addressText) hanswer), handPage]
  split_ifs with hempty
  · have hnothing := hpage none
    rw [hempty] at hnothing
    cases hnothing
    exact ⟨p, rfl⟩
  · exact ⟨_, Wasm.exec_bind_of_ok (Wasm.exec_bind_of_ok (hpage _) _) _⟩

theorem Network.page_spec {start stop : ℕ} {evs : List LedgerEvent}
    (hsorted : evs.Pairwise fun x y => x.1 ≤ y.1) (hnum : Numbered 0 evs) (hle : start ≤ stop)
    (hstop : stop ≤ r.latestLedger) : Numbered (countBefore evs start) (w.page evs start stop) ∧
      emissionsOf (w.page evs start stop) <+: (emissionsOf evs).drop (countBefore evs start) ∧
      countBefore evs start + (emissionsOf (w.page evs start stop)).length ≤
        countBefore evs (r.latestLedger + 1) := by
  have hend : start ≤ w.searchEnd stop ∧ w.searchEnd stop ≤ r.latestLedger + 1 := by
    unfold searchEnd
    split_ifs <;> omega
  obtain ⟨hnum', hpre, hcount⟩ := eventsBetween_take_spec hsorted hnum hend.1 pageSize
  exact ⟨hnum', hpre, hcount.trans (countBefore_mono hsorted hend.2)⟩

theorem lt_of_mem_page {start stop i : ℕ} {e : Emission} {evs : List LedgerEvent}
    (hnodup : (commitments (emissionsOf evs)).Nodup)
    (hpage : emissionsOf (w.page evs start stop) <+:
      (emissionsOf evs).drop (countBefore evs start))
    (he : (emissionsOf evs)[i]? = some e) (hmem : e ∈ emissionsOf (w.page evs start stop)) :
    i < countBefore evs start + (emissionsOf (w.page evs start stop)).length := by
  obtain ⟨j, hj, rfl⟩ := List.mem_iff_getElem.mp hmem
  have hat : (emissionsOf evs)[countBefore evs start + j]? =
      some (emissionsOf (w.page evs start stop))[j] := by
    obtain ⟨tail, htail⟩ := hpage
    rw [← List.getElem?_drop, ← htail, List.getElem?_append_left hj, List.getElem?_eq_getElem hj]
  have hi := (List.getElem?_eq_some_iff.mp he).1
  have hinj := List.nodup_iff_injective_getElem.mp (List.Nodup.of_map _ hnodup)
  have hsame := (List.getElem?_eq_some_iff.mp he).2.trans
    (List.getElem?_eq_some_iff.mp hat).2.symm
  have hindex := Fin.mk.inj (@hinj ⟨i, hi⟩ ⟨_, (List.getElem?_eq_some_iff.mp hat).1⟩ hsame)
  omega

/-- **A run of requests**: as long as no commitment is passed over, what is stored are the first
emissions, and at the end all that the network knows of. -/
theorem exec_fetchChunks (hw : w.Answers (published ext P env history) r)
    {evs : List LedgerEvent} (hevs : ledgerEvents ext P env history = evs)
    (hnodup : (commitments (emissionsOf evs)).Nodup)
    (hsorted : evs.Pairwise fun x y => x.1 ≤ y.1) (hnum : Numbered 0 evs) {current m : ℕ}
    {live : List F} {s : AppStore} {p : Progress NativeEvent} (hearly : w.oldest ≤ current)
    (hm : m ≤ countBefore evs (r.latestLedger + 1))
    (hstored : Stored ((emissionsOf evs).take m) s.pool) (hlive : Live P live s.pool.merkleTree)
    (hroom : live.length + (emissionsOf (w.deliveredFrom evs r.latestLedger current)).length ≤
      2 ^ treeDepth)
    (hkeys : NoteKeysFit (w.deliveredFrom evs r.latestLedger current))
    (hcovered : ∀ i e, (emissionsOf evs)[i]? = some e → e.ledger ≤ r.latestLedger →
      e.ledger < w.failing → i < m ∨ e ∈ emissionsOf (w.deliveredFrom evs r.latestLedger current)) :
    ∃ result s' m' live', (fetchChunks (r.rpc addressText) (r.options P) r.latestLedger
        current p).exec s = (result, s') ∧
      m' ≤ countBefore evs (r.latestLedger + 1) ∧
      Stored ((emissionsOf evs).take m') s'.pool ∧ Live P live' s'.pool.merkleTree ∧
      (r.latestLedger < w.failing →
        result.isOk = true ∧ m' = countBefore evs (r.latestLedger + 1)) := by
  induction hd : r.latestLedger + 1 - current using Nat.strong_induction_on
    generalizing current m live s p with
  | _ d ih =>
  rcases Nat.lt_or_ge r.latestLedger current with hend | hle
  · -- nothing is left to ask for
    refine ⟨.ok p, s, m, live, by rw [fetchChunks_done hend]; rfl, hm, hstored, hlive,
      fun hresponsive => ⟨rfl, le_antisymm hm (not_lt.mp fun hlt => ?_)⟩⟩
    have hget := List.getElem?_eq_getElem (hlt.trans_le (countBefore_le hsorted _))
    have hledger := (lt_countBefore_iff hsorted hget).mp hlt
    obtain hlt' | hmem := hcovered m _ hget (Nat.le_of_lt_succ hledger) (by omega)
    · exact lt_irrefl m hlt'
    · rw [Network.deliveredFrom_of_lt hend] at hmem
      exact List.not_mem_nil hmem
  · rcases Nat.lt_or_ge current w.failing with hanswered | hfailing
    · rw [Network.deliveredFrom_of_le hle hanswered] at hroom hkeys hcovered
      rw [emissionsOf_append, List.length_append] at hroom
      rw [emissionsOf_append] at hcovered
      obtain ⟨hpnum, hpre, hcount⟩ := w.page_spec hsorted hnum (le_chunkEnd hle)
        (chunkEnd_le)
      -- what comes before the chunk is stored: it is not delivered any more
      have hbefore : countBefore evs current ≤ m := by
        refine not_lt.mp fun hlt => ?_
        have hget := List.getElem?_eq_getElem (hlt.trans_le (countBefore_le hsorted _))
        have hledger := (lt_countBefore_iff hsorted hget).mp hlt
        obtain hlt' | hmem := hcovered m _ hget (by omega) (by omega)
        · exact lt_irrefl m hlt'
        · rw [← emissionsOf_append, ← Network.deliveredFrom_of_le hle hanswered] at hmem
          obtain ⟨x, hx, -, hx'⟩ := exists_of_mem_emissionsOf hmem
          have hlate := Network.le_of_mem_deliveredFrom hx
          omega
      obtain ⟨s₁, hexec, hs₁, hlive₁⟩ := exec_onPage hnodup hpnum
        hpre hbefore (hm.trans (countBefore_le hsorted _)) hstored hlive (by omega)
        fun ledger owner encryptionKey noteKey hmem =>
          hkeys ledger owner encryptionKey noteKey (List.mem_append_left _ hmem)
      have hnext := le_chunkEnd hle
      subst hevs
      obtain ⟨p', hpage⟩ := exec_fetchChunks_page hw hle hanswered hearly p hexec
      obtain ⟨result, s', m', live', hrest, hm', hs', hlive', hdone⟩ := ih _
        (by omega) (p := p') (by omega)
        (max_le hm hcount) hs₁ hlive₁
        (by rw [List.length_append, commitments, List.length_map]; omega)
        (fun ledger owner encryptionKey noteKey hmem =>
          hkeys ledger owner encryptionKey noteKey (List.mem_append_right _ hmem))
        (fun i e he hlatest hfailing => by
          obtain hlt | hmem := hcovered i e he hlatest hfailing
          · exact .inl (lt_max_of_lt_left hlt)
          · obtain hpage | hrest := List.mem_append.mp hmem
            · exact .inl (lt_max_of_lt_right (lt_of_mem_page hnodup hpre he hpage))
            · exact .inr hrest) rfl
      exact ⟨result, s', m', live', hpage.trans hrest, hm', hs', hlive', hdone⟩
    · obtain ⟨message, hexec⟩ :=
        fetchChunks_failing (P := P) hw hle hfailing p s
      exact ⟨_, s, m, live, hexec, hm, hstored, hlive, fun hresponsive => by omega⟩

theorem processPublicKeyEvent_frame {owner encryptionKey noteKey key : Native} {ledger : ℕ}
    {s s' : AppStore}
    (h : (processPublicKeyEvent owner encryptionKey noteKey key ledger).exec s = (.ok (), s')) :
    s'.pool = s.pool := by
  rw [processPublicKeyEvent] at h
  obtain ⟨keys, s₁, hkeys, h⟩ := Wasm.exec_bind_eq_ok.mp h
  have hsame : s₁ = s := by
    cases hr : keysOf encryptionKey noteKey key with
    | error e =>
        rw [hr] at hkeys
        cases hkeys
    | ok keys' =>
        rw [hr] at hkeys
        cases hkeys
        rfl
  subst hsame
  cases keys with
  | none =>
      cases h
      rfl
  | some keys =>
      cases owner with
      | string address =>
          obtain ⟨s₂, s₃, hget, h⟩ := Wasm.exec_bind_eq_ok.mp h
          cases hget
          cases hput : s₁.registeredPublicKeys.put ⟨address, keys.1, keys.2, ledger⟩ with
          | none =>
              rw [hput] at h
              cases h
          | some records =>
              rw [hput] at h
              cases h
              rfl
      | _ => cases h

theorem processKeyEvents_frame {events : List NativeEvent} {s s' : AppStore}
    (h : (processKeyEvents events).exec s = (.ok (), s')) : s'.pool = s.pool := by
  induction events generalizing s with
  | nil =>
      cases h
      rfl
  | cons event rest ih =>
      rw [processKeyEvents] at h
      dsimp only at h
      generalize (if (event.value.prop "owner").truthy then event.value.prop "owner"
        else event.topicAt 1) = owner at h
      split_ifs at h
      · obtain ⟨⟨⟩, s₁, hevent, hrest⟩ := Wasm.exec_bind_eq_ok.mp h
        exact (ih hrest).trans (processPublicKeyEvent_frame hevent)
      · exact ih h
      · exact ih h

theorem room_of_handPage {evs : List LedgerEvent} {n : ℕ} (hnum : Numbered n evs) {live : List F}
    {tree : MerkleTree} {s s' : AppStore} {p p' : Progress NativeEvent} {cursor : Option String}
    (htree : s.pool.merkleTree = some tree) (hlive : MerkleTree.Holds P treeDepth live tree)
    (h : (handPage (r.rpc addressText) (r.options P) (evs.map (native addressText)) cursor p).exec s =
      (.ok p', s')) : live.length + (emissionsOf evs).length ≤ 2 ^ treeDepth ∧
      ∃ tree', s'.pool.merkleTree = some tree' ∧
        MerkleTree.Holds P treeDepth (live ++ commitments (emissionsOf evs)) tree' := by
  rw [handPage] at h
  split_ifs at h with hempty
  · cases h
    rw [List.map_eq_nil_iff.mp hempty, emissionsOf, List.filterMap_nil, commitments, List.map_nil,
      List.append_nil]
    exact ⟨hlive.length_le, tree, htree, hlive⟩
  · obtain ⟨⟨⟩, s₁, hpage, h⟩ := Wasm.exec_bind_eq_ok.mp h
    cases h
    obtain ⟨counts, s₂, hevents, hkeys⟩ := Wasm.exec_bind_eq_ok.mp hpage
    have hpool := congrArg Prod.fst hevents
    have hstate := congrArg Prod.snd hevents
    change ((processEvents P (evs.map (native addressText))).exec s.pool).1 = .ok counts at hpool
    change ({ s with pool := ((processEvents P (evs.map (native addressText))).exec s.pool).2 } :
      AppStore) = s₂ at hstate
    subst hstate
    rw [processKeyEvents_frame hkeys]
    exact room_of_processEvents hnum htree hlive (Prod.ext hpool rfl)

/-- **A run of requests that succeeds** had room in the live tree. -/
theorem room_of_fetchChunks (hw : w.Answers (published ext P env history) r)
    {evs : List LedgerEvent} (hevs : ledgerEvents ext P env history = evs)
    (hsorted : evs.Pairwise fun x y => x.1 ≤ y.1) (hnum : Numbered 0 evs) {current : ℕ}
    {live : List F} {tree : MerkleTree} {s s' : AppStore} {p p' : Progress NativeEvent}
    (hearly : w.oldest ≤ current) (htree : s.pool.merkleTree = some tree)
    (hlive : MerkleTree.Holds P treeDepth live tree)
    (h : (fetchChunks (r.rpc addressText) (r.options P) r.latestLedger current p).exec s =
      (.ok p', s')) :
    live.length + (emissionsOf (w.deliveredFrom evs r.latestLedger current)).length ≤
      2 ^ treeDepth := by
  induction hd : r.latestLedger + 1 - current using Nat.strong_induction_on
    generalizing current live tree s p with
  | _ d ih =>
  rcases Nat.lt_or_ge r.latestLedger current with hend | hle
  · rw [Network.deliveredFrom_of_lt hend]
    exact hlive.length_le
  · have hfailing : current < w.failing := by
      refine not_le.mp fun hfailing => ?_
      obtain ⟨message, hexec⟩ :=
        fetchChunks_failing (P := P) hw hle hfailing p s
      rw [hexec] at h
      cases h
    have hnext := le_chunkEnd hle
    obtain ⟨hpnum, -, -⟩ := w.page_spec hsorted hnum hnext (chunkEnd_le)
    obtain ⟨cursor, hanswer⟩ : ∃ cursor, r.getEvents current (chunkEnd r.latestLedger current)
        pageSize = .events (((published ext P env history).filter fun e => decide
          (current ≤ e.ledger ∧ e.ledger < w.searchEnd (chunkEnd r.latestLedger current))).take
            pageSize) cursor := by
      have hanswer := hw current _ hnext chunkEnd_le
      rwa [if_neg (not_le.mpr hfailing), if_neg (not_lt.mpr hearly)] at hanswer
    rw [fetchChunks_events hle (congrArg (RpcAnswer.decode addressText) hanswer),
      map_decodeEvent_page, hevs] at h
    obtain ⟨p₁, s₁, hpage, h⟩ := Wasm.exec_bind_eq_ok.mp h
    obtain ⟨-, tree₁, htree₁, hlive₁⟩ := room_of_handPage hpnum htree hlive hpage
    have hrest := ih _ (by omega) (by omega)
      htree₁ hlive₁ h rfl
    rw [List.length_append, commitments, List.length_map] at hrest
    rw [Network.deliveredFrom_of_le hle hfailing, emissionsOf_append, List.length_append]
    omega

end Fetching

end Enclave.App

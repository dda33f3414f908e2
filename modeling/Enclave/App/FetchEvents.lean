import Enclave.Prover.MerkleComplete
import Enclave.Lib.Segments

/-! # Fetching the events of a contract

`fetchAllContractEvents` of `app/js/stellar.js`: the ledgers are searched in chunks of 5000, each
with one request for a page of events; the events go to a callback, or into the array that is
returned.  No chunk is asked for twice, so the events are complete exactly if every chunk fits into
a page and the last ledger of a request is searched or empty (`fetch_complete_iff`). -/

namespace Enclave.App

open Prover Segments

variable {σ ε : Type}

/-- What `getEvents` answers. -/
inductive RpcAnswer (ε : Type) where
  | events (events : List ε) (cursor : Option String)
  /-- "startLedger must be within the ledger range: oldest - newest". -/
  | outOfRange (oldest newest : ℕ)
  | error (message : String)

/-- The network: the latest ledger, the answers for a start, an end and a limit, and the id of an
event. -/
structure EventRpc (ε : Type) where
  latestLedger : ℕ
  getEvents : ℕ → ℕ → ℕ → RpcAnswer ε
  id : ε → String

/-- `options`. -/
structure FetchOptions (σ ε : Type) where
  startLedger : Option ℕ
  endLedger : Option ℕ
  cursor : Option String
  pageSize : ℕ
  onPage : Option (List ε → Option String → Wasm σ Unit)

/-- What `fetchAllContractEvents` returns. -/
structure FetchResult (ε : Type) where
  success : Bool
  events : List ε
  cursor : Option String
  latestLedger : Option ℕ
  count : ℕ
  error : Option (Fault String)

/-- The variables of the loop. -/
structure Progress (ε : Type) where
  cursor : Option String
  totalCount : ℕ
  allEvents : List ε

/-- `CHUNK_SIZE`. -/
def chunkSize : ℕ := 5000

/-- The last ledger of the chunk that starts at `current`. -/
def chunkEnd (latest current : ℕ) : ℕ := min latest (current + chunkSize - 1)

/-- A page that is not empty. -/
def takePage (rpc : EventRpc ε) (options : FetchOptions σ ε) (page : List ε)
    (cursor : Option String) (p : Progress ε) : Wasm σ (Progress ε) := do
  let cursor := (cursor.filter (· ≠ "")).orElse fun _ => page.getLast?.map rpc.id
  let p := { p with cursor := cursor, totalCount := p.totalCount + page.length }
  match options.onPage with
  | some onPage => do
      onPage page cursor
      return p
  | none => return { p with allEvents := p.allEvents ++ page }

/-- The loop, from `current` on. -/
def fetchChunks (rpc : EventRpc ε) (options : FetchOptions σ ε) (latest current : ℕ)
    (p : Progress ε) : Wasm σ (Progress ε) :=
  if current ≤ latest then
    match rpc.getEvents current (chunkEnd latest current) options.pageSize with
    | .error message => throw (.error message)
    | .outOfRange oldest newest =>
        if current < oldest then fetchChunks rpc options latest oldest p
        else throw (.error s!"startLedger must be within the ledger range: {oldest} - {newest}")
    | .events [] _ => fetchChunks rpc options latest (chunkEnd latest current + 1) p
    | .events (event :: rest) cursor => do
        let p ← takePage rpc options (event :: rest) cursor p
        fetchChunks rpc options latest (chunkEnd latest current + 1) p
  else return p
termination_by latest + 1 - current
decreasing_by
  · omega
  · unfold chunkEnd chunkSize
    omega
  · unfold chunkEnd chunkSize
    omega

/-- `fixedEndLedger || 0`, else the latest ledger. -/
def lastLedger (rpc : EventRpc ε) (options : FetchOptions σ ε) : ℕ :=
  (options.endLedger.filter (· ≠ 0)).getD rpc.latestLedger

/-- `fetchAllContractEvents`. -/
def fetchAllContractEvents (rpc : EventRpc ε) (options : FetchOptions σ ε) (s : σ) :
    FetchResult ε × σ :=
  if options.startLedger.getD 0 = 0 ∧ options.cursor.getD "" = "" then
    (⟨false, [], none, none, 0, some (.error "startLedger or cursor required")⟩, s)
  else
    let latest := lastLedger rpc options
    let p : Progress ε := ⟨options.cursor, 0, []⟩
    -- without a start no ledger is searched
    match options.startLedger.elim (.ok p, s) fun start =>
        (fetchChunks rpc options latest start p).exec s with
    | (.ok p, s) => (⟨true, p.allEvents, p.cursor, some latest, p.totalCount, none⟩, s)
    | (.error e, s) => (⟨false, [], options.cursor, none, 0, some e⟩, s)

/-! ### Chunks -/

def chunkStarts (latest current : ℕ) : List ℕ :=
  (List.range ((latest + chunkSize - current) / chunkSize)).map fun k => current + chunkSize * k

variable {latest current : ℕ}

theorem chunkStarts_of_lt (h : latest < current) : chunkStarts latest current = [] := by
  rw [chunkStarts, Nat.div_eq_of_lt (by unfold chunkSize; omega)]
  rfl

theorem chunkStarts_of_le (h : current ≤ latest) :
    chunkStarts latest current = current :: chunkStarts latest (chunkEnd latest current + 1) := by
  rcases Nat.lt_or_ge latest (current + chunkSize) with hlast | hmore
  · have hend : chunkEnd latest current = latest := by unfold chunkEnd chunkSize at *; omega
    have hone : (latest + chunkSize - current) / chunkSize = 1 := by
      unfold chunkSize at *
      omega
    rw [hend, chunkStarts_of_lt (Nat.lt_succ_self latest), chunkStarts, hone]
    rfl
  · have hend : chunkEnd latest current + 1 = current + chunkSize := by
      unfold chunkEnd chunkSize at *
      omega
    have hcount : (latest + chunkSize - current) / chunkSize =
        (latest + chunkSize - (current + chunkSize)) / chunkSize + 1 := by
      unfold chunkSize at *
      omega
    rw [hend, chunkStarts, chunkStarts, hcount, List.range_succ_eq_map, List.map_cons, List.map_map]
    refine congrArg₂ List.cons (by simp) (List.map_congr_left fun k _ => ?_)
    simp only [Function.comp_apply, Nat.succ_eq_add_one, Nat.mul_add, Nat.mul_one]
    omega

theorem le_of_mem_chunkStarts {start : ℕ} (h : start ∈ chunkStarts latest current) :
    current ≤ start := by
  obtain ⟨k, -, rfl⟩ := List.mem_map.mp h
  exact Nat.le_add_right _ _

theorem mem_chunkStarts_le {start : ℕ} (h : start ∈ chunkStarts latest current) :
    start ≤ latest := by
  obtain ⟨k, hk, rfl⟩ := List.mem_map.mp h
  rw [List.mem_range, Nat.lt_div_iff_mul_lt (by decide)] at hk
  unfold chunkSize at *
  omega

theorem le_chunkEnd (h : current ≤ latest) : current ≤ chunkEnd latest current := by
  unfold chunkEnd chunkSize
  omega

theorem chunkEnd_le : chunkEnd latest current ≤ latest := min_le_left _ _

/-! ### One request -/

variable {rpc : EventRpc ε} {options : FetchOptions σ ε} {p : Progress ε}

theorem fetchChunks_done (h : latest < current) :
    fetchChunks rpc options latest current p = pure p := by
  rw [fetchChunks, if_neg (not_le.mpr h)]

theorem fetchChunks_error (h : current ≤ latest) {message : String}
    (hanswer : rpc.getEvents current (chunkEnd latest current) options.pageSize =
      .error message) :
    fetchChunks rpc options latest current p = throw (.error message) := by
  rw [fetchChunks, if_pos h, hanswer]

theorem fetchChunks_early (h : current ≤ latest) {oldest newest : ℕ} (hlt : current < oldest)
    (hanswer : rpc.getEvents current (chunkEnd latest current) options.pageSize =
      .outOfRange oldest newest) :
    fetchChunks rpc options latest current p = fetchChunks rpc options latest oldest p := by
  rw [fetchChunks, if_pos h, hanswer]
  dsimp only
  rw [if_pos hlt]

theorem fetchChunks_late (h : current ≤ latest) {oldest newest : ℕ} (hle : oldest ≤ current)
    (hanswer : rpc.getEvents current (chunkEnd latest current) options.pageSize =
      .outOfRange oldest newest) :
    fetchChunks rpc options latest current p =
      throw (.error s!"startLedger must be within the ledger range: {oldest} - {newest}") := by
  rw [fetchChunks, if_pos h, hanswer]
  dsimp only
  rw [if_neg (not_lt.mpr hle)]

/-- The events of a chunk, handed on. -/
def handPage (rpc : EventRpc ε) (options : FetchOptions σ ε) (page : List ε)
    (cursor : Option String) (p : Progress ε) : Wasm σ (Progress ε) :=
  if page = [] then pure p else takePage rpc options page cursor p

theorem fetchChunks_events (h : current ≤ latest) {page : List ε} {cursor : Option String}
    (hanswer : rpc.getEvents current (chunkEnd latest current) options.pageSize =
      .events page cursor) :
    fetchChunks rpc options latest current p = (do
      let p ← handPage rpc options page cursor p
      fetchChunks rpc options latest (chunkEnd latest current + 1) p) := by
  rw [fetchChunks, if_pos h, hanswer]
  cases page with
  | nil => rfl
  | cons event rest => rfl

/-! ### All requests -/

/-- A callback that also keeps what it is handed. -/
def recorded (onPage : List ε → Option String → Wasm σ Unit) (page : List ε)
    (cursor : Option String) : Wasm (σ × List ε) Unit := fun s =>
  (((onPage page cursor).exec s.1).1, (((onPage page cursor).exec s.1).2, s.2 ++ page))

/-- What was delivered: through the callback, or in the array. -/
def FetchOptions.delivered (options : FetchOptions (σ × List ε) ε) (log allEvents : List ε) :
    List ε :=
  if options.onPage.isSome then log else allEvents

/-- The answers for the ledgers from `first` to `last`: the first `limit` events of a range, and a
cursor.  The range is with or without the last ledger of the request. -/
def EventRpc.Serves (rpc : EventRpc ε) (lastIncluded : Bool) (ledger : ε → ℕ) (events : List ε)
    (limit first last : ℕ) : Prop :=
  ∀ start stop, first ≤ start → start ≤ stop → stop ≤ last → ∃ cursor,
    rpc.getEvents start stop limit =
      .events ((between ledger start (if lastIncluded then stop + 1 else stop) events).take limit)
        cursor

/-- The page for the chunk from `start` on. -/
def chunkPage (lastIncluded : Bool) (ledger : ε → ℕ) (events : List ε) (limit latest start : ℕ) :
    List ε :=
  (between ledger start (if lastIncluded then chunkEnd latest start + 1 else chunkEnd latest start)
    events).take limit

/-- The events of the chunk from `start` on. -/
def chunkEvents (ledger : ε → ℕ) (events : List ε) (latest start : ℕ) : List ε :=
  between ledger start (chunkEnd latest start + 1) events

section Recorded

variable {rpc : EventRpc ε} {options : FetchOptions (σ × List ε) ε} {p p' : Progress ε}
  {onPage : List ε → Option String → Wasm σ Unit} {s s' : σ} {log log' : List ε}
  {lastIncluded : Bool} {ledger : ε → ℕ} {events : List ε}

theorem handPage_delivers
    (honPage : options.onPage = none ∨ options.onPage = some (recorded onPage)) {page : List ε}
    {cursor : Option String}
    (h : (handPage rpc options page cursor p).exec (s, log) = (.ok p', (s', log'))) :
    options.delivered log' p'.allEvents = options.delivered log p.allEvents ++ page := by
  rw [handPage] at h
  split_ifs at h with hempty
  · cases h
    rw [hempty, List.append_nil]
  · rw [takePage] at h
    obtain hnone | hsome := honPage
    · rw [hnone] at h
      cases h
      simp [FetchOptions.delivered, hnone]
    · rw [hsome] at h
      obtain ⟨⟨⟩, s₁, hpage, h⟩ := Wasm.exec_bind_eq_ok.mp h
      cases h
      have hlog := congrArg (fun x => x.2.2) hpage
      simp only [FetchOptions.delivered, hsome, Option.isSome_some, if_true]
      exact hlog.symm

/-- **The loop delivers** the page of every chunk. -/
theorem fetchChunks_delivers
    (honPage : options.onPage = none ∨ options.onPage = some (recorded onPage)) {first : ℕ}
    (hserves : rpc.Serves lastIncluded ledger events options.pageSize first latest)
    (hfirst : first ≤ current)
    (h : (fetchChunks rpc options latest current p).exec (s, log) = (.ok p', (s', log'))) :
    options.delivered log' p'.allEvents = options.delivered log p.allEvents ++
      (chunkStarts latest current).flatMap
        (chunkPage lastIncluded ledger events options.pageSize latest) := by
  induction hd : latest + 1 - current using Nat.strong_induction_on
    generalizing current p s log with
  | _ d ih =>
  rcases Nat.lt_or_ge latest current with hend | hle
  · rw [fetchChunks_done hend] at h
    cases h
    rw [chunkStarts_of_lt hend, List.flatMap_nil, List.append_nil]
  · have hnext := le_chunkEnd hle
    obtain ⟨cursor, hanswer⟩ := hserves current _ hfirst hnext chunkEnd_le
    rw [fetchChunks_events hle hanswer] at h
    obtain ⟨p₁, ⟨s₁, log₁⟩, hpage, h⟩ := Wasm.exec_bind_eq_ok.mp h
    rw [ih _ (by omega) (by omega) h rfl, handPage_delivers honPage hpage, chunkStarts_of_le hle,
      List.flatMap_cons, List.append_assoc]
    rfl

theorem flatMap_chunkEvents (hsorted : events.Pairwise fun x y => ledger x ≤ ledger y)
    (h : current ≤ latest + 1) :
    (chunkStarts latest current).flatMap (chunkEvents ledger events latest) =
      between ledger current (latest + 1) events := by
  induction hd : latest + 1 - current using Nat.strong_induction_on generalizing current with
  | _ d ih =>
  rcases Nat.lt_or_ge latest current with hend | hle
  · rw [chunkStarts_of_lt hend, between, List.filter_eq_nil_iff.mpr fun x _ => by simp; omega]
    rfl
  · have hnext := le_chunkEnd hle
    have hlast := @chunkEnd_le latest current
    rw [chunkStarts_of_le hle, List.flatMap_cons, ih _ (by omega) (by omega) rfl, chunkEvents,
      ← between_append hsorted (by omega) (by omega)]

/-- A page is the chunk, exactly if the chunk fits and its last ledger is searched or empty. -/
theorem chunkPage_eq_iff (hsorted : events.Pairwise fun x y => ledger x ≤ ledger y)
    {limit start : ℕ} (h : start ≤ latest) :
    chunkPage lastIncluded ledger events limit latest start =
        chunkEvents ledger events latest start ↔
      (chunkEvents ledger events latest start).length ≤ limit ∧
        (lastIncluded = false → ∀ e ∈ events, ledger e ≠ chunkEnd latest start) := by
  rw [chunkPage, chunkEvents]
  cases lastIncluded with
  | true =>
      simpa only [if_true, List.append_nil, Bool.true_eq_false, false_implies, and_true] using
        @take_eq_append_iff _ limit (between ledger start (chunkEnd latest start + 1) events) []
  | false =>
      rw [if_neg Bool.false_ne_true,
        between_append hsorted (le_chunkEnd h) (Nat.le_succ _), take_eq_append_iff,
        between_succ_eq_nil]
      exact and_congr_right fun _ => ⟨fun hnone _ => hnone, fun hnone => hnone rfl⟩

theorem chunkPage_prefix (hsorted : events.Pairwise fun x y => ledger x ≤ ledger y)
    {limit start : ℕ} (h : start ≤ latest) :
    chunkPage lastIncluded ledger events limit latest start <+:
      chunkEvents ledger events latest start := by
  refine (List.take_prefix _ _).trans ?_
  rw [chunkEvents]
  split_ifs
  · exact List.prefix_rfl
  · exact between_prefix hsorted (le_chunkEnd h) (Nat.le_succ _)

/-- **Fetching is complete** exactly if every chunk fits into a page and no event is in a last
ledger that is not searched. -/
theorem fetch_complete_iff {first : ℕ}
    (honPage : options.onPage = none ∨ options.onPage = some (recorded onPage))
    (hfirst : options.startLedger = some first) (hpos : 0 < first)
    (hrange : first ≤ lastLedger rpc options + 1)
    (hsorted : events.Pairwise fun x y => ledger x ≤ ledger y)
    (hserves : rpc.Serves lastIncluded ledger events options.pageSize first
      (lastLedger rpc options))
    {result : FetchResult ε}
    (hrun : fetchAllContractEvents rpc options (s, []) = (result, (s', log)))
    (hsuccess : result.success = true) :
    options.delivered log result.events =
        between ledger first (lastLedger rpc options + 1) events ↔
      ∀ start ∈ chunkStarts (lastLedger rpc options) first,
        (chunkEvents ledger events (lastLedger rpc options) start).length ≤ options.pageSize ∧
          (lastIncluded = false →
            ∀ e ∈ events, ledger e ≠ chunkEnd (lastLedger rpc options) start) := by
  rw [fetchAllContractEvents, hfirst, if_neg (fun h => hpos.ne' h.1)] at hrun
  dsimp only [Option.elim_some] at hrun
  cases hexec : (fetchChunks rpc options (lastLedger rpc options) first
      ⟨options.cursor, 0, []⟩).exec (s, []) with
  | mk r s₁ =>
      rw [hexec] at hrun
      cases r with
      | error e =>
          cases hrun
          cases hsuccess
      | ok p =>
          cases hrun
          have hempty : options.delivered [] [] = [] := by
            unfold FetchOptions.delivered
            split_ifs <;> rfl
          rw [fetchChunks_delivers honPage hserves le_rfl hexec, hempty, List.nil_append,
            ← flatMap_chunkEvents hsorted hrange, flatMap_prefix_iff fun start hstart =>
              chunkPage_prefix hsorted (mem_chunkStarts_le hstart)]
          exact forall₂_congr fun start hstart =>
            chunkPage_eq_iff hsorted (mem_chunkStarts_le hstart)

end Recorded

/-! ### Samples -/

/-- Events of ledger 7, told apart by a number. -/
def sampleEvents (n : ℕ) : List (ℕ × ℕ) := (List.range n).map fun i => (7, i)

/-- A network that serves events, those of the last ledger too. -/
def sampleRpc (events : List (ℕ × ℕ)) : EventRpc (ℕ × ℕ) where
  latestLedger := 10
  getEvents start stop limit := .events ((between Prod.fst start (stop + 1) events).take limit) none
  id event := toString event.2

/-- The ledgers from 1 on, into the array, with the default page size. -/
def sampleOptions : FetchOptions (Unit × List (ℕ × ℕ)) (ℕ × ℕ) where
  startLedger := some 1
  endLedger := none
  cursor := none
  pageSize := 100
  onPage := none

theorem serves_sampleRpc (events : List (ℕ × ℕ)) (limit first last : ℕ) :
    (sampleRpc events).Serves true Prod.fst events limit first last :=
  fun _ _ _ _ _ => ⟨none, rfl⟩

theorem fetch_sample {events : List (ℕ × ℕ)}
    (hpage : (between Prod.fst 1 11 events).take 100 ≠ []) : ∃ result,
    fetchAllContractEvents (sampleRpc events) sampleOptions ((), []) = (result, ((), [])) ∧
      result.success = true ∧ result.events = (between Prod.fst 1 11 events).take 100 := by
  have hexec : (fetchChunks (sampleRpc events) sampleOptions 10 1 ⟨none, 0, []⟩).exec ((), []) =
      (takePage (sampleRpc events) sampleOptions ((between Prod.fst 1 11 events).take 100) none
        ⟨none, 0, []⟩).exec ((), []) := by
    have hanswer : (sampleRpc events).getEvents _ _ _ =
      .events ((between Prod.fst 1 11 events).take 100) _ := rfl
    rw [fetchChunks_events (by decide) hanswer, handPage, if_neg hpage]
    change (takePage _ _ _ _ _ >>= fun p => fetchChunks _ _ 10 11 p).exec ((), []) = _
    simp only [fetchChunks_done (show 10 < 11 by decide), bind_pure]
  have hlast : lastLedger (sampleRpc events) sampleOptions = 10 := rfl
  rw [fetchAllContractEvents, if_neg (by decide), hlast]
  have hloop : (sampleOptions.startLedger.elim (.ok ⟨sampleOptions.cursor, 0, []⟩, ((), []))
      fun start => (fetchChunks (sampleRpc events) sampleOptions 10 start
        ⟨sampleOptions.cursor, 0, []⟩).exec ((), [])) = _ := hexec
  dsimp only
  rw [hloop]
  exact ⟨_, rfl, rfl, rfl⟩

theorem fetch_complete_iff_sample : ∃ result : FetchResult (ℕ × ℕ),
    result.success = true ∧ sampleOptions.delivered [] result.events = sampleEvents 3 := by
  obtain ⟨result, hrun, hsuccess, -⟩ := @fetch_sample (sampleEvents 3) (by decide)
  exact ⟨result, hsuccess, (@fetch_complete_iff _ _ _ _ (fun _ _ => pure ()) _ _ _ _ _ _ _
    (.inl rfl) rfl Nat.one_pos (by decide) (by decide) (serves_sampleRpc _ _ _ _) _ hrun
    hsuccess).mpr (by decide)⟩

/-- Of 101 events in one ledger the last one is not delivered. -/
theorem event_missed : ∃ result,
    fetchAllContractEvents (sampleRpc (sampleEvents 101)) sampleOptions ((), []) =
      (result, ((), [])) ∧ result.success = true ∧
    (sampleRpc (sampleEvents 101)).Serves true Prod.fst (sampleEvents 101) 100 1 10 ∧
    (7, 100) ∈ between Prod.fst 1 11 (sampleEvents 101) ∧
    (7, 100) ∉ sampleOptions.delivered [] result.events := by
  obtain ⟨result, hrun, hsuccess, hevents⟩ := @fetch_sample (sampleEvents 101)
    (by decide +kernel)
  refine ⟨result, hrun, hsuccess, serves_sampleRpc _ _ _ _, by decide +kernel, ?_⟩
  have hdelivered : sampleOptions.delivered [] result.events = result.events := rfl
  rw [hdelivered, hevents]
  decide +kernel

end Enclave.App

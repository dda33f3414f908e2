import Enclave.App.Values
import Enclave.Pool.DoubleSpend
import Enclave.Facilitator.ReplayCache
import Enclave.Lib.Json

/-! # Hydration of the nullifier cache

`facilitator/src/chain/hydrateNullifierCache.ts`: at boot the events of the pool are read page by
page, and their nullifiers enter the cache as committed.  What is read off an event is up to
`extractFn`, which is `defaultExtractNullifiers` by default; the loop is the same for any other, and
for values of any type.  The filter asks for events whose only topic is the symbol `transact`.  The
pool publishes none of that kind, so every page is empty and no spent nullifier is ever found
(`hydration_covers_iff`). -/

namespace Enclave.Facilitator

open Stellar Rpc
open App (Native)

/-! ### What is read off an event -/

/-- What the platform does with the values that `scValToNative` yields. -/
structure Platform where
  /-- `String.prototype.toLowerCase`. -/
  toLowerCase : String → String
  /-- The text of an address. -/
  addressText : Address → String
  /-- A value as an item of a `Uint8Array`; `none` if it throws, as for a `bigint`. -/
  toUint8 : Native → Option UInt8

variable (node : Platform)

/-- `Buffer.from` of an object that came out of a map; no field holds a function. -/
def Platform.bufferFromObject (v : Native) : Option (List UInt8) :=
  match v.prop "valueOf" with
  | .string "" => some []
  | own =>
      if own.truthy then none
      else
        match v.prop "length" with
        | .undefined =>
            match v.prop "type", v.prop "data" with
            | .string "Buffer", .array items => items.mapM node.toUint8
            | _, _ => none
        | .number n => (List.range n).mapM fun i => node.toUint8 (v.prop i.repr)
        | _ => some []

/-- `Buffer.from`; `none` if it throws. -/
def Platform.bufferFrom : Native → Option (List UInt8)
  | .string s => some s.toUTF8.data.toList
  | .bytes b => some b
  | .array items => items.mapM node.toUint8
  | .object fields => node.bufferFromObject (.object fields)
  | _ => none

/-- `defaultExtractNullifiers`; `none` if it throws. -/
def defaultExtractNullifiers (value : ScVal) : Option (List String) :=
  match (App.scValToNative node.addressText value).prop "nullifiers" with
  | .array nullifiers => nullifiers.mapM fun n => (node.bufferFrom n).map fun b =>
      node.toLowerCase (String.ofList (Hex.toHex b))
  | _ => none

/-! ### The scan -/

/-- `MAX_PAGES_WITHOUT_EVENTS`. -/
def maxPagesWithoutEvents : ℕ := 20

/-- `filter.topics[0]`. -/
def topicFilter : List ScVal := [.symbol "transact"]

variable {V : Type}

/-- An answer of `getEvents`. -/
structure Page (V : Type) where
  events : List (EventOf V)
  cursor : Option String

/-- `HydrateResult`. -/
structure HydrateResult where
  hydratedCount : ℕ
  pagesScanned : ℕ
  startLedger : ℕ
  latestLedger : ℕ
deriving DecidableEq

/-- The variables of the loop. -/
structure Scan where
  cursor : Option String
  pagesScanned : ℕ
  hydratedCount : ℕ
  consecutiveEmptyPages : ℕ
  pendingEntries : List (String × String)

def Scan.start : Scan := ⟨none, 0, 0, 0, []⟩

variable (toLowerCase : String → String) (extractFn : V → Option (List String))

/-- The entries of an event; none if it is malformed. -/
def entriesOf (event : EventOf V) : List (String × String) :=
  match extractFn event.value with
  | some nullifiers => nullifiers.map fun n => (n, event.txHash.getD "unknown")
  | none => []

/-- One turn of the loop, its page at hand: whether it is the last one. -/
def afterPage (endLedger : ℕ) (s : Scan) (page : Page V) : Scan × Bool :=
  let entries := page.events.flatMap (entriesOf extractFn)
  let s := { s with
    cursor := page.cursor.filter (· ≠ "")
    pagesScanned := s.pagesScanned + 1
    hydratedCount := s.hydratedCount + entries.length
    pendingEntries := s.pendingEntries ++ entries }
  match page.events.getLast? with
  | some lastEvent =>
      if lastEvent.ledger ≥ endLedger then (s, true)
      else ({ s with consecutiveEmptyPages := 0 }, s.cursor.isNone)
  | none =>
      let s := { s with consecutiveEmptyPages := s.consecutiveEmptyPages + 1 }
      if s.consecutiveEmptyPages ≥ maxPagesWithoutEvents ∧ s.hydratedCount = 0 then (s, true)
      else (s, s.cursor.isNone)

/-- The loop over the answers of the RPC; `none` if it waits for another one. -/
def scanPages (endLedger : ℕ) :
    Scan → List (Except String (Page V)) → Option (Except String Scan)
  | _, [] => none
  | s, .error message :: _ =>
      let cursor := s.cursor.getD "initial"
      some (.error s!"event scan failed at cursor={cursor}: {message}")
  | s, .ok page :: rest =>
      match afterPage extractFn endLedger s page with
      | (s, true) => some (.ok s)
      | (s, false) => scanPages endLedger s rest

/-- `RANGE_RE` at the head of a text: the first number. -/
def rangeAt (cs : List Char) : Option ℕ := do
  let rest ← Json.expect "ledger range:".toList cs
  let rest := rest.dropWhile Js.isWhiteSpace
  let oldest ← Js.parseDigits 10 (rest.takeWhile Char.isDigit)
  let rest ← Json.expect ['-'] ((rest.dropWhile Char.isDigit).dropWhile Js.isWhiteSpace)
  if ((rest.dropWhile Js.isWhiteSpace).head?.any Char.isDigit) then return oldest else none

/-- `RANGE_RE.exec(msg)`: the oldest ledger that the RPC retains. -/
def oldestRetained : List Char → Option ℕ
  | [] => none
  | c :: cs => (rangeAt (c :: cs)).orElse fun _ => oldestRetained cs

/-- The first request and the loop; the first request is made again if its ledger is too old. -/
def scan (startLedger endLedger : ℕ) (answers : List (Except String (Page V))) :
    Option (Except String (Scan × ℕ)) :=
  match answers with
  | .error message :: rest =>
      match oldestRetained message.toList, rest with
      | some _, [] => none
      | some oldest, .ok page :: rest =>
          (scanPages extractFn endLedger Scan.start (.ok page :: rest)).map fun r =>
            r.map fun s => (s, oldest)
      | _, _ => some (.error s!"event scan failed at cursor=initial: {message}")
  | answers => (scanPages extractFn endLedger Scan.start answers).map fun r =>
      r.map fun s => (s, startLedger)

/-- `hydrateNullifierCache`. -/
def hydrateNullifierCache (cache : NullifierCache) (latest hydrateLedgers : ℕ)
    (answers : List (Except String (Page V))) :
    Option (Except String (NullifierCache × HydrateResult)) :=
  (scan extractFn (max 1 (latest - hydrateLedgers)) latest answers).map fun r =>
    r.map fun (s, startLedger) => (NullifierCache.hydrate toLowerCase cache s.pendingEntries,
      ⟨s.hydratedCount, s.pagesScanned, startLedger, latest⟩)

/-! ### What the RPC answers with -/

/-- The filter lets an event through. -/
def Matches (filter : List ScVal) (e : EventOf V) : Prop := e.topics = filter

/-- The answers are pages of events that happened and match the filter. -/
def Serves (events : List (EventOf V)) (answers : List (Except String (Page V))) : Prop :=
  ∀ page, .ok page ∈ answers → ∀ e ∈ page.events, e ∈ events ∧ Matches topicFilter e

variable {toLowerCase extractFn} {ext : Pool.Externals} {P : Poseidon2}
  {env : Env Pool.Chain} {history : List Entry}

/-- No event of the pool matches the filter. -/
theorem not_matches_topicFilter {e : RpcEvent} (h : e ∈ published ext P env history) :
    ¬ Matches topicFilter e := by
  obtain ⟨event, htopics, -⟩ := exists_of_mem_published h
  intro hmatches
  rw [Matches, htopics] at hmatches
  have hlen := congrArg List.length hmatches
  cases event <;> cases hlen

theorem events_eq_nil {answers : List (Except String (Page ScVal))}
    (hserves : Serves (published ext P env history) answers) {page : Page ScVal}
    (hpage : .ok page ∈ answers) : page.events = [] := by
  refine List.eq_nil_iff_forall_not_mem.mpr fun e he => ?_
  obtain ⟨hpublished, hmatches⟩ := hserves page hpage e he
  exact not_matches_topicFilter hpublished hmatches

/-! ### What is found -/

theorem afterPage_of_empty (endLedger : ℕ) (s : Scan) {page : Page V} (h : page.events = []) :
    (afterPage extractFn endLedger s page).1.pendingEntries = s.pendingEntries := by
  unfold afterPage
  rw [h]
  dsimp only
  split
  · rename_i hlast
    cases hlast
  · split <;> exact List.append_nil _

theorem scanPages_of_empty {endLedger : ℕ} :
    ∀ {answers : List (Except String (Page V))} {s s' : Scan},
    (∀ page, .ok page ∈ answers → page.events = []) →
    scanPages extractFn endLedger s answers = some (.ok s') →
    s'.pendingEntries = s.pendingEntries
  | .ok page :: rest, s, s', hempty, h => by
      have hpage := @afterPage_of_empty V extractFn endLedger s _
        (hempty page List.mem_cons_self)
      unfold scanPages at h
      split at h
      · rename_i s₁ hafter
        rw [hafter] at hpage
        cases h
        exact hpage
      · rename_i s₁ hafter
        rw [hafter] at hpage
        rw [scanPages_of_empty (fun p hp => hempty p (List.mem_cons_of_mem _ hp)) h, hpage]

theorem scan_of_empty {answers : List (Except String (Page V))} {startLedger endLedger : ℕ}
    {s : Scan} {start : ℕ} (hempty : ∀ page, .ok page ∈ answers → page.events = [])
    (h : scan extractFn startLedger endLedger answers = some (.ok (s, start))) :
    s.pendingEntries = [] := by
  have hmap : ∀ {answers' : List (Except String (Page V))} {ledger : ℕ},
      (∀ page, .ok page ∈ answers' → page.events = []) →
      (scanPages extractFn endLedger Scan.start answers').map
        (fun r => r.map fun s => (s, ledger)) = some (.ok (s, start)) → s.pendingEntries = [] := by
    intro answers' ledger hempty' hscan
    obtain ⟨r, hr, hrest⟩ := Option.map_eq_some_iff.mp hscan
    cases r with
    | error message => cases hrest
    | ok s' =>
        cases hrest
        exact scanPages_of_empty hempty' hr
  unfold scan at h
  split at h
  · split at h
    · cases h
    · exact hmap (fun p hp => hempty p (List.mem_cons_of_mem _ hp)) h
    · cases h
  · exact hmap hempty h

variable {extractFn : ScVal → Option (List String)}
  {answers : List (Except String (Page ScVal))}

theorem hydrate_finds_nothing {latest hydrateLedgers : ℕ} {cache cache' : NullifierCache}
    {result : HydrateResult} (hserves : Serves (published ext P env history) answers)
    (hdone : hydrateNullifierCache toLowerCase extractFn cache latest hydrateLedgers answers =
      some (.ok (cache', result))) : cache' = cache := by
  obtain ⟨r, hscan, hrest⟩ := Option.map_eq_some_iff.mp hdone
  cases r with
  | error message => cases hrest
  | ok r =>
      obtain ⟨s, start⟩ := r
      have hpending := scan_of_empty (fun _ hp => events_eq_nil hserves hp) hscan
      cases hrest
      rw [hpending]
      rfl

/-- **A boot covers the spent nullifiers** only where there are none. -/
theorem hydration_covers_iff {latest hydrateLedgers : ℕ} {cache' : NullifierCache}
    {result : HydrateResult} (hserves : Serves (published ext P env history) answers)
    (hdone : hydrateNullifierCache toLowerCase extractFn (fun _ => none) latest
      hydrateLedgers answers = some (.ok (cache', result))) :
    (∀ n ∈ Pool.consumed ext P env (history.map Entry.action),
      (NullifierCache.tryClaim toLowerCase cache' n.repr).2 = false) ↔
    Pool.consumed ext P env (history.map Entry.action) = [] := by
  obtain rfl := hydrate_finds_nothing hserves hdone
  constructor
  · intro hcovers
    refine List.eq_nil_iff_forall_not_mem.mpr fun n hn => ?_
    cases hcovers n hn
  · intro hnone n hn
    rw [hnone] at hn
    cases hn

/-- A deposit in ledger 90. -/
def sampleHistory : List Entry := [⟨90, "deposit", Pool.depositSeven⟩]

/-- The ledgers from 50 to 100 in one page: the RPC finds no event of the filter. -/
def sampleAnswers : List (Except String (Page ScVal)) := [.ok ⟨[], none⟩]

/-- A platform that writes no address and reads no number. -/
def samplePlatform : Platform := ⟨id, fun _ => "", fun _ => none⟩

-- A symbol in the list counts as its characters.
example : defaultExtractNullifiers samplePlatform
    (.map [("nullifiers", .vec [.symbol "ab", .bytes [1]])]) = some ["6162", "01"] := by decide

theorem hydrate_sample : hydrateNullifierCache id (defaultExtractNullifiers samplePlatform)
    (fun _ => none) 100 50 sampleAnswers = some (.ok (fun _ => none, ⟨0, 1, 50, 100⟩)) := rfl

theorem serves_sample (events : List RpcEvent) : Serves events sampleAnswers := by
  intro page hpage e he
  cases List.mem_singleton.mp hpage
  cases he

theorem hydration_covers_iff_sample :
    ¬ ∀ n ∈ Pool.consumed Pool.sampleExternals zeroPoseidon2 Pool.samplePool
      (sampleHistory.map Entry.action),
        (NullifierCache.tryClaim id (fun _ => none) n.repr).2 = false :=
  mt (hydration_covers_iff (serves_sample _) hydrate_sample).mp (by decide +kernel)

/-- The nullifiers of the deposit are free after the boot. -/
theorem spent_not_covered : ∃ cache' result,
    Serves (published Pool.sampleExternals zeroPoseidon2 Pool.samplePool sampleHistory)
      sampleAnswers ∧
    hydrateNullifierCache id (defaultExtractNullifiers samplePlatform) (fun _ => none) 100 50
      sampleAnswers = some (.ok (cache', result)) ∧
    ∃ n ∈ Pool.consumed Pool.sampleExternals zeroPoseidon2 Pool.samplePool
      (sampleHistory.map Entry.action), (NullifierCache.tryClaim id cache' n.repr).2 = true := by
  refine ⟨_, _, serves_sample _, hydrate_sample, ?_⟩
  decide +kernel

end Enclave.Facilitator

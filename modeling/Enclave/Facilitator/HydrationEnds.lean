import Enclave.Facilitator.Hydration

/-! # Hydration on an endless stream of pages

The RPC hands out a next cursor with every page, so the loop of `hydrateNullifierCache` ends by its
own tests only.  The cap on empty pages (`maxPagesWithoutEvents`) is there against this, and it asks
for no entry at all to have been found: after one entry nothing bounds the empty pages that follow
(`hydration_ends_iff`). -/

namespace Enclave.Facilitator

open Stellar Rpc

variable {V : Type}

/-- Every page has a next one, and the events of the scan are on finitely many. -/
structure Endless (pages : ℕ → Page V) : Prop where
  cursor : ∀ n, ∃ c, c ≠ "" ∧ (pages n).cursor = some c
  finite : ∃ N, ∀ n, N ≤ n → (pages n).events = []

/-- `n` pages as they are answered, from the page at `i` on. -/
def answersOf (pages : ℕ → Page V) (i n : ℕ) : List (Except String (Page V)) :=
  (List.range' i n).map fun k => .ok (pages k)

variable (toLowerCase : String → String) (extractFn : V → Option (List String))

/-- The loop performs finitely many iterations. -/
def HydrationEnds (cache : NullifierCache) (latest hydrateLedgers : ℕ) (pages : ℕ → Page V) : Prop :=
  ∃ n, hydrateNullifierCache toLowerCase extractFn cache latest hydrateLedgers
    (answersOf pages 0 n) ≠ none

def Page.entries (page : Page V) : List (String × String) :=
  page.events.flatMap (entriesOf extractFn)

/-- The last event of the page is at the end of the window. -/
def Page.Reaches (page : Page V) (endLedger : ℕ) : Prop :=
  ∃ e, page.events.getLast? = some e ∧ endLedger ≤ e.ledger

/-- The pages from `m` on reach the cap, and no entry was found before. -/
def Capped (pages : ℕ → Page V) : Prop :=
  ∃ m, (∀ k < maxPagesWithoutEvents, (pages (m + k)).events = []) ∧
    ∀ k < m, (pages k).entries extractFn = []

variable {toLowerCase extractFn} {endLedger : ℕ} {pages : ℕ → Page V} {s s' : Scan}
  {page : Page V}

/-! ### One page -/

theorem isNone_filter_cursor {c : String} (hne : c ≠ "") (hc : page.cursor = some c) :
    (page.cursor.filter (· ≠ "")).isNone = false := by
  simp [hc, Option.filter, hne]

theorem afterPage_hydratedCount : (afterPage extractFn endLedger s page).1.hydratedCount =
    s.hydratedCount + (page.entries extractFn).length := by
  unfold afterPage
  dsimp only
  split
  · split <;> rfl
  · split <;> rfl

/-- An empty page: only the cap ends the loop. -/
theorem afterPage_empty {c : String} (hne : c ≠ "") (hc : page.cursor = some c)
    (hempty : page.events = []) :
    (afterPage extractFn endLedger s page).1.consecutiveEmptyPages =
        s.consecutiveEmptyPages + 1 ∧
      ((afterPage extractFn endLedger s page).2 = true ↔
        maxPagesWithoutEvents ≤ s.consecutiveEmptyPages + 1 ∧ s.hydratedCount = 0) := by
  have hcursor := isNone_filter_cursor hne hc
  unfold afterPage
  rw [hempty]
  dsimp only [List.getLast?_nil, List.flatMap_nil, List.length_nil, Nat.add_zero]
  split
  · rename_i hcap
    exact ⟨rfl, iff_of_true rfl hcap⟩
  · rename_i hcap
    refine ⟨rfl, iff_of_false ?_ hcap⟩
    rw [hcursor]
    exact Bool.false_ne_true

/-- A page with events: only its last event ends the loop, and the empty pages are counted anew. -/
theorem afterPage_events {c : String} (hne : c ≠ "") (hc : page.cursor = some c)
    (hevents : page.events ≠ []) :
    ((afterPage extractFn endLedger s page).2 = true ↔ page.Reaches endLedger) ∧
      ((afterPage extractFn endLedger s page).2 = false →
        (afterPage extractFn endLedger s page).1.consecutiveEmptyPages = 0) := by
  have hcursor := isNone_filter_cursor hne hc
  obtain ⟨e, he⟩ := Option.ne_none_iff_exists'.mp (mt List.getLast?_eq_none_iff.mp hevents)
  have hreaches : page.Reaches endLedger ↔ endLedger ≤ e.ledger := by
    constructor
    · rintro ⟨e', he', hle⟩
      rw [he] at he'
      cases he'
      exact hle
    · exact fun hle => ⟨e, he, hle⟩
  rw [hreaches]
  unfold afterPage
  rw [he]
  dsimp only
  split
  · rename_i hle
    exact ⟨iff_of_true rfl hle, fun h => absurd h.symm Bool.false_ne_true⟩
  · rename_i hle
    refine ⟨iff_of_false ?_ hle, fun _ => rfl⟩
    rw [hcursor]
    exact Bool.false_ne_true

/-! ### Many pages -/

theorem scanPages_append_of_exit {answers rest : List (Except String (Page V))}
    (h : ∀ s, (afterPage extractFn endLedger s page).2 = true) :
    scanPages extractFn endLedger s (answers ++ .ok page :: rest) ≠ none := by
  induction answers generalizing s with
  | nil =>
      rw [List.nil_append, scanPages]
      split
      · exact Option.some_ne_none _
      · rename_i hafter
        have hexit := h s
        rw [hafter] at hexit
        cases hexit
  | cons answer answers ih =>
      cases answer with
      | error message => exact Option.some_ne_none _
      | ok page' =>
          rw [List.cons_append, scanPages]
          split
          · exact Option.some_ne_none _
          · exact ih

theorem scanPages_append_of_no_entries {found rest : List (Except String (Page V))}
    (hentries : ∀ page, .ok page ∈ found → page.entries extractFn = []) (hs : s.hydratedCount = 0)
    (hrest : ∀ s, s.hydratedCount = 0 → scanPages extractFn endLedger s rest ≠ none) :
    scanPages extractFn endLedger s (found ++ rest) ≠ none := by
  induction found generalizing s with
  | nil => exact hrest s hs
  | cons answer found ih =>
      cases answer with
      | error message => exact Option.some_ne_none _
      | ok page =>
          rw [List.cons_append, scanPages]
          have hcount := @afterPage_hydratedCount V extractFn endLedger s page
          rw [hentries page List.mem_cons_self, hs] at hcount
          split
          · exact Option.some_ne_none _
          · rename_i hafter
            rw [hafter] at hcount
            exact ih (fun p hp => hentries p (List.mem_cons_of_mem _ hp)) hcount

/-- Empty pages up to the cap end the loop, if no entry is counted. -/
theorem scanPages_of_cap (h : Endless pages) {n : ℕ} : ∀ {i : ℕ} {s : Scan},
    (∀ k < n, (pages (i + k)).events = []) → s.hydratedCount = 0 →
    0 < n → maxPagesWithoutEvents ≤ s.consecutiveEmptyPages + n →
    scanPages extractFn endLedger s (answersOf pages i n) ≠ none := by
  induction n with
  | zero => exact fun _ _ hpos => absurd hpos (Nat.lt_irrefl 0)
  | succ n ih =>
      intro i s hempty hs _ hcap
      obtain ⟨c, hne, hc⟩ := h.cursor i
      have hevents : (pages i).events = [] := hempty 0 (Nat.succ_pos n)
      obtain ⟨hcount, hexit⟩ := @afterPage_empty V extractFn endLedger s _ c hne hc hevents
      have hhydrated := @afterPage_hydratedCount V extractFn endLedger s (pages i)
      rw [Page.entries, hevents, hs] at hhydrated
      rw [answersOf, List.range'_succ, List.map_cons, scanPages]
      split
      · exact Option.some_ne_none _
      · rename_i hafter
        rw [hafter] at hcount hexit hhydrated
        have hbelow : ¬ maxPagesWithoutEvents ≤ s.consecutiveEmptyPages + 1 :=
          fun hle => Bool.false_ne_true (hexit.mpr ⟨hle, hs⟩)
        refine ih (fun k hk => ?_) hhydrated (by omega) ?_
        · have hk' := hempty (k + 1) (Nat.succ_lt_succ hk)
          rwa [← Nat.add_assoc, Nat.add_right_comm] at hk'
        · rw [hcount]
          omega

/-- What holds before the page at `i` while the loop goes on. -/
structure Scanning (extractFn : V → Option (List String)) (pages : ℕ → Page V) (i : ℕ)
    (s : Scan) : Prop where
  le : s.consecutiveEmptyPages ≤ i
  empty : ∀ k, i - s.consecutiveEmptyPages ≤ k → k < i → (pages k).events = []
  entries : s.hydratedCount = 0 → ∀ k < i, (pages k).entries extractFn = []

theorem scanning_start : Scanning extractFn pages 0 Scan.start :=
  ⟨Nat.le_refl 0, fun _ _ hk => absurd hk (Nat.not_lt_zero _),
    fun _ _ hk => absurd hk (Nat.not_lt_zero _)⟩

theorem Scanning.next (h : Endless pages) {i : ℕ} (hs : Scanning extractFn pages i s)
    (hreaches : ∀ n, ¬ (pages n).Reaches endLedger) (hcapped : ¬ Capped extractFn pages) :
    (afterPage extractFn endLedger s (pages i)).2 = false ∧
      Scanning extractFn pages (i + 1) (afterPage extractFn endLedger s (pages i)).1 := by
  obtain ⟨c, hne, hc⟩ := h.cursor i
  have hcount := @afterPage_hydratedCount V extractFn endLedger s (pages i)
  have hentries : (afterPage extractFn endLedger s (pages i)).1.hydratedCount = 0 →
      ∀ k < i + 1, (pages k).entries extractFn = [] := by
    intro hzero k hk
    rw [hcount] at hzero
    obtain hk | rfl := Nat.lt_succ_iff_lt_or_eq.mp hk
    · exact hs.entries (by omega) k hk
    · exact List.length_eq_zero_iff.mp (by omega)
  by_cases hevents : (pages i).events = []
  · obtain ⟨hempties, hexit⟩ := @afterPage_empty V extractFn endLedger s _ c hne hc hevents
    have hstays : (afterPage extractFn endLedger s (pages i)).2 = false := by
      rw [← Bool.not_eq_true, hexit]
      rintro ⟨hcap, hzero⟩
      -- the run of empty pages that the counter stands for
      refine hcapped ⟨i + 1 - maxPagesWithoutEvents, fun k hk => ?_, fun k hk => ?_⟩
      · have hle := hs.le
        obtain hlt | heq : i + 1 - maxPagesWithoutEvents + k < i ∨
            i + 1 - maxPagesWithoutEvents + k = i := by omega
        · exact hs.empty _ (by omega) hlt
        · rw [heq]
          exact hevents
      · exact hs.entries hzero k (by unfold maxPagesWithoutEvents at hk; omega)
    refine ⟨hstays, ⟨?_, ?_, hentries⟩⟩
    · rw [hempties]
      exact Nat.succ_le_succ hs.le
    · rw [hempties]
      intro k hlow hk
      obtain hk | rfl := Nat.lt_succ_iff_lt_or_eq.mp hk
      · exact hs.empty k (by omega) hk
      · exact hevents
  · obtain ⟨hexit, hempties⟩ := @afterPage_events V extractFn endLedger s _ c hne hc hevents
    have hstays : (afterPage extractFn endLedger s (pages i)).2 = false := by
      rw [← Bool.not_eq_true, hexit]
      exact hreaches i
    refine ⟨hstays, ⟨?_, ?_, hentries⟩⟩
    · rw [hempties hstays]
      exact Nat.zero_le _
    · rw [hempties hstays]
      exact fun k hlow hk => absurd hk (Nat.not_lt.mpr hlow)

theorem scanPages_stuck (h : Endless pages) (hreaches : ∀ n, ¬ (pages n).Reaches endLedger)
    (hcapped : ¬ Capped extractFn pages) (n : ℕ) : ∀ {i : ℕ} {s : Scan},
    Scanning extractFn pages i s →
    scanPages extractFn endLedger s (answersOf pages i n) = none := by
  induction n with
  | zero => exact fun _ => rfl
  | succ n ih =>
      intro i s hs
      obtain ⟨hstays, hnext⟩ := hs.next h hreaches hcapped
      rw [answersOf, List.range'_succ, List.map_cons, scanPages]
      split
      · rename_i hafter
        rw [hafter] at hstays
        cases hstays
      · rename_i hafter
        rw [hafter] at hnext
        exact ih hnext

/-! ### The whole boot -/

/-- Pages are answered at once, so the first request is not made again. -/
theorem hydrateNullifierCache_answersOf {cache : NullifierCache} {latest hydrateLedgers n : ℕ} :
    hydrateNullifierCache toLowerCase extractFn cache latest hydrateLedgers (answersOf pages 0 n) =
        none ↔
      scanPages extractFn latest Scan.start (answersOf pages 0 n) = none := by
  have hscan : ∀ ledger, scan extractFn ledger latest (answersOf pages 0 n) =
      (scanPages extractFn latest Scan.start (answersOf pages 0 n)).map fun r =>
        r.map fun s => (s, ledger) := by
    intro ledger
    cases n with
    | zero => rfl
    | succ n => rfl
  rw [hydrateNullifierCache, Option.map_eq_none_iff, hscan, Option.map_eq_none_iff]

/-- **Hydration ends** on an endless stream of pages iff some page holds an event at the end of the
window, or the cap on empty pages is met before any entry was found. -/
theorem hydration_ends_iff (h : Endless pages) (cache : NullifierCache)
    (latest hydrateLedgers : ℕ) :
    HydrationEnds toLowerCase extractFn cache latest hydrateLedgers pages ↔
      (∃ n, (pages n).Reaches latest) ∨ Capped extractFn pages := by
  unfold HydrationEnds
  simp only [ne_eq, hydrateNullifierCache_answersOf]
  constructor
  · rintro ⟨n, hends⟩
    by_contra hnever
    rw [not_or, not_exists] at hnever
    exact hends (scanPages_stuck h hnever.1 hnever.2 n scanning_start)
  · rintro (⟨n, hreaches⟩ | ⟨m, hempty, hentries⟩)
    · refine ⟨n + 1, ?_⟩
      obtain ⟨c, hne, hc⟩ := h.cursor n
      have hevents : (pages n).events ≠ [] := by
        obtain ⟨e, he, -⟩ := hreaches
        intro hnil
        rw [hnil] at he
        cases he
      rw [answersOf, List.range'_concat, List.map_append, Nat.zero_add, Nat.one_mul,
        List.map_singleton]
      exact scanPages_append_of_exit fun s => ((afterPage_events hne hc hevents).1).mpr hreaches
    · refine ⟨m + maxPagesWithoutEvents, ?_⟩
      rw [answersOf, ← List.range'_append_1, List.map_append, Nat.zero_add]
      refine scanPages_append_of_no_entries (fun page hpage => ?_) rfl fun s hs =>
        scanPages_of_cap h hempty hs (by decide) (Nat.le_add_left _ _)
      obtain ⟨k, hk, hpage⟩ := List.mem_map.mp hpage
      cases hpage
      exact hentries k (by have := List.mem_range'_1.mp hk; omega)

/-! ### Streams -/

/-- A page, and empty pages forever. -/
def thenEmpty (page : List RpcEvent) (n : ℕ) : Page ScVal :=
  ⟨if n = 0 then page else [], some ("page-" ++ n.repr)⟩

theorem endless_thenEmpty (page : List RpcEvent) : Endless (thenEmpty page) where
  cursor n := by
    refine ⟨_, fun hempty => ?_, rfl⟩
    have hlen := congrArg String.length hempty
    rw [String.length_append, (by decide : "page-".length = 5), (by decide : "".length = 0)] at hlen
    omega
  finite := ⟨1, fun n hn => if_neg (Nat.ne_of_gt hn)⟩

/-- An unused pool. -/
theorem hydration_ends_unused : HydrationEnds id (defaultExtractNullifiers samplePlatform)
    (fun _ => none) 100 50 (thenEmpty []) :=
  (hydration_ends_iff (endless_thenEmpty []) _ 100 50).mpr
    (.inr ⟨0, fun _ _ => ite_self _, fun k hk => absurd hk (Nat.not_lt_zero k)⟩)

/-- One nullifier in ledger 90. -/
def sampleEvent : RpcEvent where
  topics := topicFilter
  value := .map [("nullifiers", .vec [.bytes [1]])]
  ledger := 90
  txHash := none

/-- A pool that was used once, ten ledgers ago: no number of pages is enough. -/
theorem hydration_never_ends : Endless (thenEmpty [sampleEvent]) ∧
    ¬ HydrationEnds id (defaultExtractNullifiers samplePlatform) (fun _ => none) 100 50
      (thenEmpty [sampleEvent]) := by
  refine ⟨endless_thenEmpty _, ?_⟩
  unfold HydrationEnds
  simp only [ne_eq, hydrateNullifierCache_answersOf, not_exists, not_not]
  refine fun n => scanPages_stuck (endless_thenEmpty _) ?_ ?_ n scanning_start
  · rintro (_ | n) ⟨e, he, hle⟩
    · cases he
      exact absurd hle (by decide)
    · cases he
  · rintro ⟨_ | m, hempty, hentries⟩
    · exact absurd (hempty 0 (by decide)) (List.cons_ne_nil _ _)
    · exact absurd (hentries 0 (Nat.succ_pos m)) (by decide +kernel)

end Enclave.Facilitator

import Mathlib

/-! # The nullifier cache

`facilitator/src/replay/cache.ts`.  The key of a nullifier is its text in lower case; `release`
removes a claim in flight only, and nothing removes a committed entry.  `claimAll` is the loop of
claims of `/settle`: it claims a whole list or leaves the cache as it was (`claimAll_spec`). -/

namespace Enclave.Facilitator

inductive NullifierState where
  | inFlight
  | committed
deriving DecidableEq, Repr

/-- An entry, without the time it was made. -/
structure NullifierEntry where
  state : NullifierState
  txHash : Option String
deriving DecidableEq, Repr

/-- The entries by key. -/
abbrev NullifierCache := String → Option NullifierEntry

namespace NullifierCache

variable (toLowerCase : String → String) (cache : NullifierCache)

/-- `normalize`. -/
def normalize (nullifierHex : String) : String := toLowerCase nullifierHex

/-- `peek`. -/
def peek (nullifierHex : String) : Option NullifierEntry :=
  cache (normalize toLowerCase nullifierHex)

/-- `tryClaim`: the cache afterwards, and whether the nullifier was absent. -/
def tryClaim (nullifierHex : String) : NullifierCache × Bool :=
  let key := normalize toLowerCase nullifierHex
  if (cache key).isSome then (cache, false)
  else (Function.update cache key (some ⟨.inFlight, none⟩), true)

/-- `commit`. -/
def commit (nullifierHex txHash : String) : NullifierCache :=
  let key := normalize toLowerCase nullifierHex
  match cache key with
  | some ⟨.committed, _⟩ => cache
  | _ => Function.update cache key (some ⟨.committed, some txHash⟩)

/-- `release`. -/
def release (nullifierHex : String) : NullifierCache :=
  let key := normalize toLowerCase nullifierHex
  match cache key with
  | some ⟨.inFlight, _⟩ => Function.update cache key none
  | _ => cache

/-- `hydrate`. -/
def hydrate (entries : List (String × String)) : NullifierCache :=
  entries.foldl (fun cache e =>
    Function.update cache (normalize toLowerCase e.1) (some ⟨.committed, some e.2⟩)) cache

/-! ### Lists of nullifiers -/

/-- `for (const n of claimedOrder) release(n)`. -/
def releaseAll (ns : List String) : NullifierCache := ns.foldl (release toLowerCase) cache

/-- `for (const n of claimedOrder) commit(n, txHash)`. -/
def commitAll (ns : List String) (txHash : String) : NullifierCache :=
  ns.foldl (fun cache n => commit toLowerCase cache n txHash) cache

/-- The loop of claims: those made so far are undone at the first that fails. -/
def claimAll : NullifierCache → List String → List String → NullifierCache × Option (List String)
  | cache, claimedOrder, [] => (cache, some claimedOrder)
  | cache, claimedOrder, n :: rest =>
      match tryClaim toLowerCase cache n with
      | (cache', true) => claimAll cache' (claimedOrder ++ [n]) rest
      | (cache', false) => (releaseAll toLowerCase cache' claimedOrder, none)

def keys (ns : List String) : List String := ns.map (normalize toLowerCase)

/-- The key is claimed by a request that has not answered. -/
def InFlight (key : String) : Prop := ∃ txHash, cache key = some ⟨.inFlight, txHash⟩

def Committed (key : String) : Prop := ∃ txHash, cache key = some ⟨.committed, txHash⟩

variable {toLowerCase cache}

/-! ### What the operations do to an entry -/

theorem isSome_iff {key : String} :
    (cache key).isSome = true ↔ cache.InFlight key ∨ cache.Committed key := by
  constructor
  · intro h
    obtain ⟨⟨state, tx⟩, he⟩ := Option.isSome_iff_exists.mp h
    cases state with
    | inFlight => exact .inl ⟨tx, he⟩
    | committed => exact .inr ⟨tx, he⟩
  · rintro (⟨tx, he⟩ | ⟨tx, he⟩) <;> rw [he] <;> rfl

theorem tryClaim_cases (n : String) :
    ((cache (normalize toLowerCase n)).isSome = true ∧
      tryClaim toLowerCase cache n = (cache, false)) ∨
    (cache (normalize toLowerCase n) = none ∧ tryClaim toLowerCase cache n =
      (Function.update cache (normalize toLowerCase n) (some ⟨.inFlight, none⟩), true)) := by
  by_cases h : (cache (normalize toLowerCase n)).isSome = true
  · exact .inl ⟨h, if_pos h⟩
  · exact .inr ⟨Option.not_isSome_iff_eq_none.mp h, if_neg h⟩

theorem tryClaim_of_committed {n : String} (h : cache.Committed (normalize toLowerCase n)) :
    tryClaim toLowerCase cache n = (cache, false) := by
  rw [tryClaim, if_pos (isSome_iff.mpr (.inr h))]

theorem release_apply (n key : String) :
    release toLowerCase cache n key =
      if key = normalize toLowerCase n ∧ (cache key).map (·.state) = some .inFlight then none
      else cache key := by
  unfold release
  by_cases hkey : key = normalize toLowerCase n
  · subst hkey
    match hentry : cache (normalize toLowerCase n) with
    | none => simp [hentry]
    | some ⟨.inFlight, _⟩ => simp
    | some ⟨.committed, _⟩ => simp [hentry]
  · rw [if_neg fun h => hkey h.1]
    match cache (normalize toLowerCase n) with
    | none => rfl
    | some ⟨.inFlight, _⟩ => exact Function.update_of_ne hkey _ _
    | some ⟨.committed, _⟩ => rfl

theorem commit_apply (n txHash key : String) :
    commit toLowerCase cache n txHash key =
      if key = normalize toLowerCase n ∧ (cache key).map (·.state) ≠ some .committed then
        some ⟨.committed, some txHash⟩
      else cache key := by
  unfold commit
  by_cases hkey : key = normalize toLowerCase n
  · subst hkey
    match hentry : cache (normalize toLowerCase n) with
    | none => simp
    | some ⟨.inFlight, _⟩ => simp
    | some ⟨.committed, _⟩ => simp [hentry]
  · rw [if_neg fun h => hkey h.1]
    match cache (normalize toLowerCase n) with
    | none => exact Function.update_of_ne hkey _ _
    | some ⟨.inFlight, _⟩ => exact Function.update_of_ne hkey _ _
    | some ⟨.committed, _⟩ => rfl

theorem releaseAll_apply (ns : List String) (cache : NullifierCache) (key : String) :
    releaseAll toLowerCase cache ns key =
      if key ∈ keys toLowerCase ns ∧ (cache key).map (·.state) = some .inFlight then none
      else cache key := by
  induction ns generalizing cache with
  | nil => simp [releaseAll, keys]
  | cons n rest ih =>
      have hstep : releaseAll toLowerCase cache (n :: rest) =
          releaseAll toLowerCase (release toLowerCase cache n) rest := rfl
      rw [hstep, ih, release_apply]
      by_cases hkey : key = normalize toLowerCase n <;>
        by_cases hstate : (cache key).map (·.state) = some .inFlight <;>
        simp_all [keys]

theorem commitAll_apply (ns : List String) (txHash : String) (cache : NullifierCache)
    (key : String) :
    commitAll toLowerCase cache ns txHash key =
      if key ∈ keys toLowerCase ns ∧ (cache key).map (·.state) ≠ some .committed then
        some ⟨.committed, some txHash⟩
      else cache key := by
  induction ns generalizing cache with
  | nil => simp [commitAll, keys]
  | cons n rest ih =>
      have hstep : commitAll toLowerCase cache (n :: rest) txHash =
          commitAll toLowerCase (commit toLowerCase cache n txHash) rest txHash := rfl
      rw [hstep, ih, commit_apply]
      by_cases hkey : key = normalize toLowerCase n <;>
        by_cases hstate : (cache key).map (·.state) = some .committed <;>
        simp_all [keys]

theorem Committed.releaseAll {key : String} (h : cache.Committed key) (ns : List String) :
    (releaseAll toLowerCase cache ns).Committed key := by
  obtain ⟨tx, he⟩ := h
  refine ⟨tx, ?_⟩
  rw [releaseAll_apply, he, if_neg fun hc => by cases hc.2]

theorem Committed.commitAll {key : String} (h : cache.Committed key) (ns : List String)
    (txHash : String) : (commitAll toLowerCase cache ns txHash).Committed key := by
  obtain ⟨tx, he⟩ := h
  refine ⟨tx, ?_⟩
  rw [commitAll_apply, he, if_neg fun hc => hc.2 rfl]

theorem committed_commitAll {key : String} {ns : List String} (h : key ∈ keys toLowerCase ns)
    (txHash : String) : (commitAll toLowerCase cache ns txHash).Committed key := by
  by_cases hstate : (cache key).map (·.state) = some .committed
  · obtain ⟨⟨state, tx⟩, he, hs⟩ := Option.map_eq_some_iff.mp hstate
    exact Committed.commitAll ⟨tx, by rw [he, ← hs]⟩ ns txHash
  · exact ⟨txHash, by rw [commitAll_apply, if_pos ⟨h, hstate⟩]⟩

theorem InFlight.releaseAll {key : String} {ns : List String} (h : cache.InFlight key)
    (hkey : key ∉ keys toLowerCase ns) : (releaseAll toLowerCase cache ns).InFlight key := by
  obtain ⟨tx, he⟩ := h
  refine ⟨tx, ?_⟩
  rw [releaseAll_apply, if_neg fun hc => hkey hc.1, he]

theorem InFlight.commitAll {key : String} {ns : List String} (h : cache.InFlight key)
    (hkey : key ∉ keys toLowerCase ns) (txHash : String) :
    (commitAll toLowerCase cache ns txHash).InFlight key := by
  obtain ⟨tx, he⟩ := h
  refine ⟨tx, ?_⟩
  rw [commitAll_apply, if_neg fun hc => hkey hc.1, he]

theorem inFlight_of_releaseAll {key : String} {ns : List String}
    (h : (releaseAll toLowerCase cache ns).InFlight key) :
    cache.InFlight key ∧ key ∉ keys toLowerCase ns := by
  obtain ⟨tx, he⟩ := h
  rw [releaseAll_apply] at he
  split at he
  · cases he
  · rename_i hnot
    exact ⟨⟨tx, he⟩, fun hkey => hnot ⟨hkey, by rw [he]; rfl⟩⟩

theorem inFlight_of_commitAll {key : String} {ns : List String} {txHash : String}
    (h : (commitAll toLowerCase cache ns txHash).InFlight key) :
    cache.InFlight key ∧ key ∉ keys toLowerCase ns := by
  obtain ⟨tx, he⟩ := h
  rw [commitAll_apply] at he
  split at he
  · cases he
  · rename_i hnot
    exact ⟨⟨tx, he⟩, fun hkey => hnot ⟨hkey, by rw [he]; exact fun hc => by cases hc⟩⟩

theorem not_inFlight_hydrate (entries : List (String × String)) (key : String)
    (h : ¬ cache.InFlight key) : ¬ (hydrate toLowerCase cache entries).InFlight key := by
  induction entries generalizing cache with
  | nil => exact h
  | cons e rest ih =>
      apply ih
      intro hin
      obtain ⟨tx, he⟩ := hin
      dsimp only at he
      by_cases hkey : key = normalize toLowerCase e.1
      · subst hkey
        rw [Function.update_self] at he
        cases he
      · rw [Function.update_of_ne hkey] at he
        exact h ⟨tx, he⟩

/-! ### The loop of claims -/

/-- `cache'` is `cache` with the listed keys, absent there, in flight. -/
structure Claimed (toLowerCase : String → String) (cache : NullifierCache) (ns : List String)
    (cache' : NullifierCache) : Prop where
  absent : ∀ key ∈ keys toLowerCase ns, cache key = none
  entry : ∀ key, cache' key =
    if key ∈ keys toLowerCase ns then some ⟨.inFlight, none⟩ else cache key

theorem Claimed.inFlight_iff {cache' : NullifierCache} {ns : List String}
    (h : Claimed toLowerCase cache ns cache') {key : String} :
    cache'.InFlight key ↔ key ∈ keys toLowerCase ns ∨ cache.InFlight key := by
  unfold InFlight
  rw [h.entry key]
  by_cases hkey : key ∈ keys toLowerCase ns
  · simp [hkey]
  · simp [hkey]

theorem Claimed.committed {cache' : NullifierCache} {ns : List String}
    (h : Claimed toLowerCase cache ns cache') {key : String} (hcommitted : cache.Committed key) :
    cache'.Committed key := by
  obtain ⟨tx, he⟩ := hcommitted
  refine ⟨tx, ?_⟩
  rw [h.entry key, if_neg, he]
  intro hkey
  rw [h.absent key hkey] at he
  cases he

theorem Claimed.nil (cache : NullifierCache) : Claimed toLowerCase cache [] cache :=
  ⟨fun _ h => absurd h List.not_mem_nil, fun _ => (if_neg List.not_mem_nil).symm⟩

theorem Claimed.snoc {cache₀ cache' : NullifierCache} {ns : List String} {n : String}
    (h : Claimed toLowerCase cache₀ ns cache)
    (hclaim : tryClaim toLowerCase cache n = (cache', true)) :
    Claimed toLowerCase cache₀ (ns ++ [n]) cache' := by
  obtain ⟨-, hrefused⟩ | ⟨hnone, hmade⟩ := tryClaim_cases
    n
  · rw [hrefused] at hclaim
    cases hclaim
  · rw [hmade] at hclaim
    cases hclaim
    have hentry := h.entry (normalize toLowerCase n)
    rw [hnone] at hentry
    have hnew : normalize toLowerCase n ∉ keys toLowerCase ns := by
      intro hmem
      rw [if_pos hmem] at hentry
      cases hentry
    rw [if_neg hnew] at hentry
    have hkeys : keys toLowerCase (ns ++ [n]) =
        keys toLowerCase ns ++ [normalize toLowerCase n] := List.map_append
    refine ⟨fun key hkey => ?_, fun key => ?_⟩
    · rw [hkeys, List.mem_append, List.mem_singleton] at hkey
      obtain hold | rfl := hkey
      · exact h.absent key hold
      · exact hentry.symm
    · rw [hkeys]
      by_cases heq : key = normalize toLowerCase n
      · subst heq
        rw [Function.update_self, if_pos (List.mem_append_right _ List.mem_cons_self)]
      · have hiff : key ∈ keys toLowerCase ns ++ [normalize toLowerCase n] ↔
            key ∈ keys toLowerCase ns := by
          rw [List.mem_append, List.mem_singleton, or_iff_left heq]
        rw [Function.update_of_ne heq, h.entry key]
        simp only [hiff]

/-- Undoing what was claimed gives the cache back. -/
theorem Claimed.releaseAll {cache₀ : NullifierCache} {ns : List String}
    (h : Claimed toLowerCase cache₀ ns cache) :
    releaseAll toLowerCase cache ns = cache₀ := by
  funext key
  rw [releaseAll_apply, h.entry key]
  by_cases hmem : key ∈ keys toLowerCase ns
  · rw [if_pos hmem, if_pos ⟨hmem, rfl⟩, h.absent key hmem]
  · rw [if_neg hmem, if_neg fun hc => hmem hc.1]

theorem claimAll_of_claimed {cache₀ : NullifierCache} : ∀ (rest : List String)
    {cache : NullifierCache} {claimed : List String}, Claimed toLowerCase cache₀ claimed cache →
    (∃ cache', claimAll toLowerCase cache claimed rest = (cache', some (claimed ++ rest)) ∧
      Claimed toLowerCase cache₀ (claimed ++ rest) cache') ∨
    claimAll toLowerCase cache claimed rest = (cache₀, none)
  | [], cache, claimed, h => by
      refine .inl ⟨cache, ?_, ?_⟩
      · rw [claimAll, List.append_nil]
      · rwa [List.append_nil]
  | n :: rest, cache, claimed, h => by
      rw [claimAll]
      match hclaim : tryClaim toLowerCase cache n with
      | (cache', true) =>
          have ih := claimAll_of_claimed rest (h.snoc hclaim)
          rwa [List.append_assoc, List.singleton_append] at ih
      | (cache', false) =>
          have hsame : cache' = cache := by
            obtain ⟨-, h'⟩ | ⟨-, h'⟩ := tryClaim_cases
              n <;> rw [h'] at hclaim <;> cases hclaim
            rfl
          refine .inr ?_
          rw [hsame]
          change (NullifierCache.releaseAll toLowerCase cache claimed, none) = (cache₀, none)
          rw [h.releaseAll]

/-- **All claims of a list are made, or none.** -/
theorem claimAll_spec (ns : List String) :
    (∃ cache', claimAll toLowerCase cache [] ns = (cache', some ns) ∧
      Claimed toLowerCase cache ns cache') ∨
    claimAll toLowerCase cache [] ns = (cache, none) :=
  claimAll_of_claimed ns (Claimed.nil cache)

end NullifierCache

end Enclave.Facilitator

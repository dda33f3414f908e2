import Enclave.App.BalancedInputs
import Enclave.AspNonMembership.ForeignSearch

/-! # Proofs of absence from the ban list

`app/js/state/asp-non-membership-fetcher.js` asks the contract for a key and makes a proof of what
it answers, and `buildNonMembershipProofDataFromChain` turns the proof into the circuit's inputs.
The key goes to the contract in the other byte order: the word that is searched is not the key
(`fetchNonMembershipProof_scalarToBytes`).

`provesAbsence_iff` says for which keys the data is what the circuit takes all the same, and
`absenceProved_iff` for which of all keys, on the list or not, the outcome is as it should be. -/

namespace Enclave.App

open Prover Bytes Js
open AspNonMembership (findKey)

/-! ### The fetcher -/

/-- What the network knows: the state of the deployed contract, and how it words a failed
simulation. -/
structure BanListRpc where
  contract : Option (Env AspNonMembership.Store)
  errorText : Fault AspNonMembership.Error → String

/-- `BigInt('0x' + paddedHex.slice(16 * i, 16 * (i + 1)))`. -/
def u64Part (paddedHex : List Char) (i : ℕ) : Except String ℤ :=
  (bigInt (String.ofList ('0' :: 'x' :: (paddedHex.drop (16 * i)).take 16))).elim
    (.error "SyntaxError") .ok

/-- `hexToU256ScVal`. -/
def hexToU256 (hex : String) : Except String U256 := do
  let cleanHex := strip0x (codeUnits hex)
  let paddedHex := cleanHex.leftpad 64 '0'
  let hiHi ← u64Part paddedHex 0
  let hiLo ← u64Part paddedHex 1
  let loHi ← u64Part paddedHex 2
  let loLo ← u64Part paddedHex 3
  return (((hiHi * 2 ^ 64 + hiLo) * 2 ^ 64 + loHi) * 2 ^ 64 + loLo).toNat

/-- `toBytes` of a big integer or `undefined`. -/
def toBytes : Option U256 → List UInt8
  | none => List.replicate 32 0
  | some value => leBytes 32 (value % bn256Modulus)

/-- `value || undefined`. -/
def orUndefined (value : U256) : Option U256 := if value = 0 then none else some value

/-- `fetchRoot`. -/
def fetchRoot (rpc : BanListRpc) : Except String U256 :=
  match rpc.contract with
  | none => .error "Deployments not loaded"
  | some env => env.store.root.elim (.error "Root not found") .ok

def NonMembershipResult.failure (error : String) : NonMembershipResult :=
  ⟨false, error, false, none⟩

def proofOf (root : U256) (findResult : AspNonMembership.FindResult) : SMTNonMembershipProof where
  root := toBytes (some root)
  siblings := some (findResult.siblings.map fun s => .bytes (toBytes (some s)))
  notFoundKey := some (toBytes (orUndefined findResult.notFoundKey))
  notFoundValue := some (toBytes (orUndefined findResult.notFoundValue))
  isOld0 := findResult.isOld0

/-- `fetchNonMembershipProof` of bytes. -/
def fetchNonMembershipProof (rpc : BanListRpc) (key : List UInt8) : NonMembershipResult :=
  match rpc.contract with
  | none => .failure "Deployments not loaded"
  | some env =>
      match hexToU256 (bytesToHex key) with
      | .error error => .failure error
      | .ok keyU256 =>
          match findKey keyU256 env with
          | .error fault => .failure (rpc.errorText fault)
          | .ok (findResult, _) =>
              if findResult.found then
                ⟨false, "Key exists in tree (membership, invalid non-membership)", true, none⟩
              else
                match fetchRoot rpc with
                | .error error => .failure s!"Failed to fetch root: {error}"
                | .ok root => ⟨true, "", false, some (proofOf root findResult)⟩

/-- The state manager, which hands the request on. -/
def StateManager.onChain (sm : StateManager) (rpc : BanListRpc) : StateManager :=
  { sm with getASPNonMembershipProof := fun key => .ok (fetchNonMembershipProof rpc key) }

/-! ### What is asked -/

theorem u64Part_toHex {bytes : List UInt8} (hlen : bytes.length = 32) {i : ℕ} (hi : i < 4) :
    u64Part (Hex.toHex bytes) i = .ok (leValue ((bytes.drop (8 * i)).take 8).reverse : ℤ) := by
  have hne : (bytes.drop (8 * i)).take 8 ≠ [] := by
    apply List.ne_nil_of_length_pos
    rw [List.length_take, List.length_drop]
    omega
  rw [u64Part, show 16 * i = 2 * (8 * i) by ring, Hex.drop_toHex, show 16 = 2 * 8 by rfl,
    Hex.take_toHex, Hex.bigInt_prefixed_toHex hne]
  rfl

/-- **The word that is asked for** has the first byte of the key as its highest. -/
theorem hexToU256_bytesToHex {bytes : List UInt8} (hlen : bytes.length = 32) :
    hexToU256 (bytesToHex bytes) = .ok (leValue bytes.reverse) := by
  have hpad : (Hex.toHex bytes).leftpad 64 '0' = Hex.toHex bytes := by
    rw [List.leftpad, Hex.length_toHex, hlen]
    rfl
  have hcut : bytes = bytes.take 8 ++ ((bytes.drop 8).take 8 ++
      ((bytes.drop 16).take 8 ++ (bytes.drop 24).take 8)) := by
    have h3 : (bytes.drop 24).take 8 = bytes.drop 24 :=
      List.take_of_length_le (by rw [List.length_drop]; omega)
    have hdrop : ∀ n, bytes.drop n = (bytes.drop n).take 8 ++ bytes.drop (n + 8) := fun n => by
      rw [← List.drop_drop, List.take_append_drop]
    rw [h3, ← hdrop 16, ← hdrop 8]
    exact (List.take_append_drop 8 bytes).symm
  have hlength : ∀ n, n ≤ 24 → ((bytes.drop n).take 8).reverse.length = 8 := fun n hn => by
    rw [List.length_reverse, List.length_take, List.length_drop]
    omega
  have hvalue : leValue bytes.reverse = ((leValue (bytes.take 8).reverse * 2 ^ 64 +
      leValue ((bytes.drop 8).take 8).reverse) * 2 ^ 64 +
      leValue ((bytes.drop 16).take 8).reverse) * 2 ^ 64 +
      leValue ((bytes.drop 24).take 8).reverse := by
    conv_lhs => rw [hcut]
    simp only [List.reverse_append, leValue_append, List.length_append, hlength 8 (by omega),
      hlength 16 (by omega), hlength 24 (by omega)]
    ring
  unfold hexToU256
  simp only [strip0x_codeUnits_bytesToHex, hpad, u64Part_toHex hlen (by omega : 0 < 4),
    u64Part_toHex hlen (by omega : 1 < 4), u64Part_toHex hlen (by omega : 2 < 4),
    u64Part_toHex hlen (by omega : 3 < 4)]
  rw [hvalue]
  rfl

/-- The word that is asked for a key. -/
def askedFor (pk : F) : U256 := reverseBytes 32 pk.val

section fetched

variable {env : Env AspNonMembership.Store} {errorText : Fault AspNonMembership.Error → String}
  {findResult : AspNonMembership.FindResult} {root pk : F}

/-- **What is fetched** for the bytes of a key is made of the search for another word. -/
theorem fetchNonMembershipProof_scalarToBytes
    (hfind : findKey (askedFor pk) env = .ok (findResult, env))
    (hroot : env.store.root = some root.val) :
    fetchNonMembershipProof ⟨some env, errorText⟩ (scalarToBytes pk) =
      if findResult.found then
        ⟨false, "Key exists in tree (membership, invalid non-membership)", true, none⟩
      else ⟨true, "", false, some (proofOf root.val findResult)⟩ := by
  have hasked : hexToU256 (bytesToHex (scalarToBytes pk)) = .ok (askedFor pk) :=
    hexToU256_bytesToHex (length_scalarToBytes pk)
  have hfetched : fetchRoot ⟨some env, errorText⟩ = .ok root.val := by
    rw [fetchRoot]
    simp only [hroot, Option.elim_some]
  unfold fetchNonMembershipProof
  simp only [hasked, hfind, hfetched]

/-! ### The data -/

theorem bytesToBigIntStringLE_toBytes (x : U256) :
    bytesToBigIntStringLE (toBytes (some x)) = (x % bn256Modulus).repr := by
  have hlt : x % bn256Modulus < 256 ^ 32 :=
    (Nat.mod_lt x (by decide)).trans (bn256Modulus_lt.trans (by decide))
  rw [bytesToBigIntStringLE, toBytes, bytesToBigIntLE_eq, leValue_leBytes hlt]

theorem denotes_toBytes (x : U256) :
    Denotes (bytesToBigIntStringLE (toBytes (some x))) (x : F) := by
  rw [bytesToBigIntStringLE_toBytes]
  have h := denotes_repr (x % bn256Modulus)
  rwa [ZMod.natCast_mod] at h

/-- Zero is read the same as nothing. -/
theorem toBytes_orUndefined (x : U256) : toBytes (orUndefined x) = toBytes (some x) := by
  unfold orUndefined
  split_ifs with h
  · subst h
    decide
  · rfl

def dataOf (pk root : F) (findResult : AspNonMembership.FindResult) : NonMembershipProofData where
  key := bytesToBigIntStringLE (scalarToBytes pk)
  oldKey := bytesToBigIntStringLE (toBytes (some findResult.notFoundKey))
  oldValue := bytesToBigIntStringLE (toBytes (some findResult.notFoundValue))
  isOld0 := if findResult.isOld0 then "1" else "0"
  siblings := (findResult.siblings.map fun s => bytesToBigIntStringLE (toBytes (some s))).take
    smtDepth ++ List.replicate (smtDepth - findResult.siblings.length) "0"
  root := bytesToBigIntStringLE (toBytes (some root.val))

/-- **What is built**: the data of the search, unless the word was found. -/
theorem buildNonMembershipProofDataFromChain_eq (sm : StateManager)
    (errorText : Fault AspNonMembership.Error → String)
    (hfind : findKey (askedFor pk) env = .ok (findResult, env))
    (hroot : env.store.root = some root.val) (h0 : root ≠ 0) :
    buildNonMembershipProofDataFromChain (scalarToBytes pk) (sm.onChain ⟨some env, errorText⟩)
        root.val =
      if findResult.found then
        .error (.error
          ("Failed to get non-membership proof: " ++
            "Key exists in tree (membership, invalid non-membership)"))
      else .ok (dataOf pk root findResult) := by
  have hne : ¬ ((root.val : ℕ) : ℤ) = 0 := by
    rw [Int.natCast_eq_zero, F.val_eq_zero_iff]
    exact h0
  rw [buildNonMembershipProofDataFromChain, if_neg hne]
  simp only [StateManager.onChain, ofThrown_apply, Result.ok_bind,
    fetchNonMembershipProof_scalarToBytes hfind hroot]
  cases hfound : findResult.found
  · simp only [Bool.false_eq_true, if_false, Bool.not_true]
    rw [dataOf]
    simp only [proofOf, toBytes_orUndefined, Option.getD_some, List.map_map, List.length_map,
      textOr0, Option.elim_some]
    rfl
  · rfl

end fetched

/-! ### The circuit on the data -/

open Circuits (bitSignal)
open Circuits.SMTVerifier (Inputs)
open AspNonMembership

/-- The texts denote the signals of the circuit's bus. -/
structure NonMembershipProofData.Reads (d : NonMembershipProofData)
    (n : Circuits.NonMembershipProof smtDepth) (root : F) : Prop where
  key : Denotes d.key n.key
  siblings : List.Forall₂ Denotes d.siblings (List.ofFn n.siblings)
  oldKey : Denotes d.oldKey n.oldKey
  oldValue : Denotes d.oldValue n.oldValue
  isOld0 : Denotes d.isOld0 n.isOld0
  root : Denotes d.root root

/-- The circuit takes the data for the key, against the root. -/
def NonMembershipProofData.Accepted (P : Poseidon2) (d : NonMembershipProofData) (pk root : F) :
    Prop := ∃ n, d.Reads n root ∧ n.Satisfies P pk root

theorem forall₂_denotes_unique : ∀ {texts : List String} {xs ys : List F},
    List.Forall₂ Denotes texts xs → List.Forall₂ Denotes texts ys → xs = ys
  | [], _, _, .nil, .nil => rfl
  | _ :: _, _, _, .cons hx hxs, .cons hy hys => by
      rw [(hx.iff_eq _).mp hy, forall₂_denotes_unique hxs hys]

theorem denotes_one : Denotes "1" 1 := denotes_repr 1

section data

variable {pk root : F} {findResult : AspNonMembership.FindResult}

theorem denotes_siblings (pk root : F) (findResult : AspNonMembership.FindResult) :
    List.Forall₂ Denotes (dataOf pk root findResult).siblings
      (sizedInputs root pk findResult smtDepth).siblings := by
  have hsibs : List.Forall₂ Denotes
      (findResult.siblings.map fun s => bytesToBigIntStringLE (toBytes (some s)))
      (findResult.siblings.map (Nat.cast : U256 → F)) := by
    rw [List.forall₂_map_left_iff, List.forall₂_map_right_iff]
    exact List.forall₂_same.mpr fun s _ => denotes_toBytes s
  have hzeros : ∀ m, List.Forall₂ Denotes (List.replicate m "0") (List.replicate m 0) := by
    intro m
    induction m with
    | zero => exact .nil
    | succ m ih => exact .cons denotes_zero ih
  exact List.rel_append (List.forall₂_take smtDepth hsibs) (hzeros _)

theorem denotes_isOld0 (b : Bool) : Denotes (if b then "1" else "0") (if b then 1 else 0) := by
  cases b
  · exact denotes_zero
  · exact denotes_one

theorem verifier_of_reads {n : Circuits.NonMembershipProof smtDepth}
    (h : (dataOf pk root findResult).Reads n root) :
    n.key = pk ∧ Circuits.num2Bits 1 n.isOld0 ∧
      n.verifier root = sizedInputs root pk findResult smtDepth := by
  have hkey : n.key = pk := by
    have hpk : Denotes (dataOf pk root findResult).key pk := by
      rw [dataOf, bytesToBigIntStringLE, bytesToBigIntLE_scalarToBytes]
      have hden := denotes_repr pk.val
      rwa [F.natCast_val] at hden
    exact (h.key.iff_eq _).mp hpk
  have hold : n.isOld0 = if findResult.isOld0 then 1 else 0 :=
    (h.isOld0.iff_eq _).mp (denotes_isOld0 findResult.isOld0)
  have hbits : Circuits.num2Bits 1 n.isOld0 ∧ bitSignal n.isOld0 0 = n.isOld0 := by
    rw [hold]
    cases findResult.isOld0 <;> decide +kernel
  refine ⟨hkey, hbits.1, ?_⟩
  unfold Circuits.NonMembershipProof.verifier
  rw [hbits.2, hold, hkey, (h.oldKey.iff_eq _).mp (denotes_toBytes findResult.notFoundKey),
    (h.oldValue.iff_eq _).mp (denotes_toBytes findResult.notFoundValue),
    forall₂_denotes_unique h.siblings (denotes_siblings pk root findResult)]
  rfl

theorem exists_reads (pk root : F) (findResult : AspNonMembership.FindResult) :
    ∃ n, (dataOf pk root findResult).Reads n root := by
  have hlen := length_sizedInputs root pk findResult smtDepth
  refine ⟨⟨pk, fun i => (sizedInputs root pk findResult smtDepth).siblings.get (i.cast hlen.symm),
    (findResult.notFoundKey : ℕ), (findResult.notFoundValue : ℕ),
    if findResult.isOld0 then 1 else 0⟩, ?_, ?_, denotes_toBytes _, denotes_toBytes _,
    denotes_isOld0 _, ?_⟩
  · rw [dataOf, bytesToBigIntStringLE, bytesToBigIntLE_scalarToBytes]
    have hden := denotes_repr pk.val
    rwa [F.natCast_val] at hden
  · have hsibs : List.ofFn (fun i : Fin smtDepth =>
        (sizedInputs root pk findResult smtDepth).siblings.get (i.cast hlen.symm)) =
        (sizedInputs root pk findResult smtDepth).siblings := by
      apply List.ext_get
      · rw [List.length_ofFn, hlen]
      · intro i h₁ h₂
        rw [List.get_ofFn]
        rfl
    rw [hsibs]
    exact denotes_siblings pk root findResult
  · have hden := denotes_toBytes root.val
    rwa [F.natCast_val] at hden

/-- **The circuit takes the data** exactly if it takes the search. -/
theorem accepted_dataOf_iff (P : Poseidon2) : (dataOf pk root findResult).Accepted P pk root ↔
    (sizedInputs root pk findResult smtDepth).Satisfies P := by
  constructor
  · rintro ⟨n, hreads, hsat⟩
    rw [← (verifier_of_reads hreads).2.2]
    exact hsat.verifier
  · intro hsat
    obtain ⟨n, hreads⟩ := exists_reads pk root findResult
    obtain ⟨hkey, hbits, hverifier⟩ := verifier_of_reads hreads
    exact ⟨n, hreads, hkey, hbits, by rw [hverifier]; exact hsat⟩

end data

/-! ### When absence is proved -/

/-- The evaluations that the circuit makes on the data. -/
def dataQueries (P : Poseidon2) (built : Result NonMembershipProofData) (root : F) : Set Query :=
  {q | ∃ d n, built = .ok d ∧ d.Reads n root ∧ q ∈ (n.verifier root).queries P}

/-- The word that is asked for is no key of the list, and there is a level of the circuit down to
which it has the bits of the key and below which at most one key of the list has them. -/
def Provable (m : F → Option F) (pk : F) : Prop :=
  wordLookup m (askedFor pk) = none ∧ ∃ d < smtDepth, askedFor pk % 2 ^ d = pk.val % 2 ^ d ∧
    ∀ a b, m a ≠ none → m b ≠ none → a.val % 2 ^ d = pk.val % 2 ^ d →
      b.val % 2 ^ d = pk.val % 2 ^ d → a = b

theorem agrees_iff_mod (k : F) (word d : ℕ) :
    Trie.Agrees keyBit word.testBit 0 d k ↔ k.val % 2 ^ d = word % 2 ^ d := by
  constructor
  · intro h
    apply Nat.eq_of_testBit_eq
    intro j
    rw [Nat.testBit_mod_two_pow, Nat.testBit_mod_two_pow]
    by_cases hj : j < d
    · rw [← h j (Nat.zero_le j) (by omega)]
      rfl
    · rw [decide_eq_false hj, Bool.false_and, Bool.false_and]
  · intro h j _ hj
    have hbit := congrArg (fun n => n.testBit j) h
    simp only [Nat.testBit_mod_two_pow, decide_eq_true (show j < d by omega), Bool.true_and] at hbit
    exact hbit

section proved

variable {P : Poseidon2} {admin : Address} {ops : List Op} {env : Env Store}

theorem shortSearch_iff {t : Tree} {S : Set Tree} {m : F → Option F}
    (h : Stores P admin env t S m) (pk : F) (n : ℕ) :
    ((Trie.walk (askedFor pk).testBit 0 t).1.length < n ∧
      Trie.Agrees keyBit (askedFor pk).testBit 0
        (Trie.walk (askedFor pk).testBit 0 t).1.length pk) ↔
    ∃ d < n, askedFor pk % 2 ^ d = pk.val % 2 ^ d ∧
      ∀ a b, m a ≠ none → m b ≠ none → a.val % 2 ^ d = pk.val % 2 ^ d →
        b.val % 2 ^ d = pk.val % 2 ^ d → a = b := by
  have hcanon := h.represents.canon
  constructor
  · rintro ⟨hlt, hagrees⟩
    have hone := (hcanon.length_walk_le_iff (askedFor pk).testBit).mp le_rfl
    have hmod := (agrees_iff_mod _ _ _).mp hagrees
    refine ⟨_, hlt, hmod.symm, fun a b ha hb hpa hpb => ?_⟩
    obtain ⟨v, hv, -⟩ := h.has ha
    obtain ⟨w, hw, -⟩ := h.has hb
    exact hone a v b w hv hw ((agrees_iff_mod _ _ _).mpr (hpa.trans hmod))
      ((agrees_iff_mod _ _ _).mpr (hpb.trans hmod))
  · rintro ⟨d, hlt, hmod, hone⟩
    have hle : (Trie.walk (askedFor pk).testBit 0 t).1.length ≤ d := by
      apply (hcanon.length_walk_le_iff _).mpr
      intro a v b w hv hw ha hb
      have hma : m a ≠ none := by
        rw [(h.models a v).mp hv]
        exact Option.some_ne_none v
      have hmb : m b ≠ none := by
        rw [(h.models b w).mp hw]
        exact Option.some_ne_none w
      exact hone a b hma hmb (((agrees_iff_mod _ _ _).mp ha).trans hmod)
        (((agrees_iff_mod _ _ _).mp hb).trans hmod)
    refine ⟨by omega, fun j hj hj' => ?_⟩
    exact (agrees_iff_mod pk _ d).mpr hmod.symm j hj (by omega)

theorem buildNonMembershipProofDataFromChain_zero (sm : StateManager) (pk : F) :
    buildNonMembershipProofDataFromChain (scalarToBytes pk) sm ((0 : F).val : ℕ) =
      .ok (dataOf pk 0 (searchResult P 0 (Trie.walk (Nat.testBit 0) 0 .empty))) := by
  have hzero : bytesToBigIntStringLE (toBytes (some 0)) = "0" := by
    rw [bytesToBigIntStringLE_toBytes]
    rfl
  rw [buildNonMembershipProofDataFromChain, if_pos (by rw [ZMod.val_zero]; rfl), dataOf]
  simp only [searchResult, Trie.walk, hzero, ZMod.val_zero, if_true, List.map_nil, List.take_nil,
    List.nil_append, List.length_nil, Nat.sub_zero]

theorem root_eq_treeHash {t : Tree} {S : Set Tree} (h : Represents P env t S) {root : F}
    (hroot : env.store.root = some root.val) : root = treeHash P t := by
  rw [h.root, Option.some.injEq] at hroot
  exact F.val_injective hroot.symm

/-- Nothing is built if the word asked for is on the list, and else the data of a search, which is
the one for the word unless the list is empty. -/
theorem built_cases {t : Tree} {S : Set Tree} {m : F → Option F} (h : Stores P admin env t S m)
    (hsep : Separated P env) {root : F} (hroot : env.store.root = some root.val) (sm : StateManager)
    (errorText : Fault Error → String) (pk : F) :
    (wordLookup m (askedFor pk) ≠ none ∧ ∃ e, buildNonMembershipProofDataFromChain
      (scalarToBytes pk) (sm.onChain ⟨some env, errorText⟩) root.val = .error e) ∨
    (wordLookup m (askedFor pk) = none ∧ ∃ asked : U256, buildNonMembershipProofDataFromChain
        (scalarToBytes pk) (sm.onChain ⟨some env, errorText⟩) root.val =
          .ok (dataOf pk root (searchResult P asked (Trie.walk asked.testBit 0 t))) ∧
      (searchResult P asked (Trie.walk asked.testBit 0 t)).found = false ∧
      (((Trie.walk asked.testBit 0 t).1.length < smtDepth ∧ Trie.Agrees keyBit asked.testBit 0
          (Trie.walk asked.testBit 0 t).1.length pk) ↔
        ((Trie.walk (askedFor pk).testBit 0 t).1.length < smtDepth ∧
          Trie.Agrees keyBit (askedFor pk).testBit 0
            (Trie.walk (askedFor pk).testBit 0 t).1.length pk))) := by
  have htree := root_eq_treeHash h.represents hroot
  by_cases h0 : root = 0
  · have hempty : t = .empty := by
      by_contra hne
      exact Trie.hash_ne_zero hsep (h.represents.hashed_of_subtries fun _ hw => hw) hne
        (htree.symm.trans h0)
    subst hempty h0
    right
    refine ⟨?_, 0, buildNonMembershipProofDataFromChain_zero _ pk, rfl, ?_⟩
    · apply wordLookup_eq_none_iff.mpr
      intro k _
      by_contra hk
      obtain ⟨v, hv, -⟩ := h.has hk
      exact hv
    · exact ⟨fun _ => ⟨Nat.succ_pos 9, Trie.agrees_zero _ _ _⟩,
        fun _ => ⟨Nat.succ_pos 9, Trie.agrees_zero _ _ _⟩⟩
  · have hfind := h.represents.findKey_apply hsep (askedFor pk)
    have hbuilt := buildNonMembershipProofDataFromChain_eq sm errorText hfind hroot h0
    generalize askedFor pk = word at hbuilt ⊢
    have hreports := h.reports word
    cases hword : wordLookup m word with
    | some v =>
        rw [hword] at hreports
        rw [hreports.1, if_pos rfl] at hbuilt
        exact Or.inl ⟨Option.some_ne_none v, _, hbuilt⟩
    | none =>
        rw [hword] at hreports
        have hfound : (searchResult P word (Trie.walk word.testBit 0 t)).found = false := hreports
        rw [hfound, if_neg Bool.false_ne_true] at hbuilt
        exact Or.inr ⟨rfl, word, hbuilt, hfound, Iff.rfl⟩

theorem evaluations_subset_dataQueries (P : Poseidon2) (env : Env Store)
    {built : Result NonMembershipProofData} {pk root : F}
    {findResult : AspNonMembership.FindResult} (h : built = .ok (dataOf pk root findResult)) :
    {q | q ∈ env.hashed ∨ q ∈ (sizedInputs root pk findResult smtDepth).queries P} ⊆
      {q | q ∈ env.hashed ∨ q ∈ dataQueries P built root} := by
  obtain ⟨n, hreads⟩ := exists_reads pk root findResult
  refine fun q hq => hq.imp_right fun hq => ⟨_, n, h, hreads, ?_⟩
  rw [(verifier_of_reads hreads).2.2]
  exact hq

section history

variable (h : Reached P admin ops env) (hch : ValueChanging ops fun _ => none) {root : F}
  (hroot : env.store.root = some root.val) (sm : StateManager)
  (errorText : Fault Error → String) (pk : F)

include h hch hroot

/-- **When nothing is built**: exactly if the word that is asked for is on the list. -/
theorem exists_error_iff : (∃ e, buildNonMembershipProofDataFromChain (scalarToBytes pk)
    (sm.onChain ⟨some env, errorText⟩) root.val = .error e) ↔
      wordLookup (mapOf ops) (askedFor pk) ≠ none := by
  obtain ⟨t, S, hst⟩ := h.stores hch
  rcases built_cases hst h.separated hroot sm errorText pk with
    ⟨hword, e, hbuilt⟩ | ⟨hword, asked, hbuilt, -, -⟩
  · exact ⟨fun _ => hword, fun _ => ⟨e, hbuilt⟩⟩
  · constructor
    · rintro ⟨e, he⟩
      rw [hbuilt] at he
      cases he
    · exact fun hne => absurd hword hne

theorem exists_accepted (hpk : mapOf ops pk = none) (hprovable : Provable (mapOf ops) pk) :
    ∃ d, buildNonMembershipProofDataFromChain (scalarToBytes pk)
      (sm.onChain ⟨some env, errorText⟩) root.val = .ok d ∧ d.Accepted P pk root := by
  obtain ⟨t, S, hst⟩ := h.stores hch
  rcases built_cases hst h.separated hroot sm errorText pk with
    ⟨hword, -⟩ | ⟨-, asked, hbuilt, hfound, hcond⟩
  · exact absurd hprovable.1 hword
  · obtain ⟨hlen, hagrees⟩ := hcond.mpr ((shortSearch_iff hst pk smtDepth).mpr hprovable.2)
    have hsat := satisfies_of_agrees hst.represents h.separated (hst.not_has hpk) hfound hlen
      hagrees
    rw [← root_eq_treeHash hst.represents hroot] at hsat
    exact ⟨_, hbuilt, (accepted_dataOf_iff P).mpr hsat⟩

variable (hc : P.CollisionFree {q | q ∈ env.hashed ∨ q ∈ dataQueries P
    (buildNonMembershipProofDataFromChain (scalarToBytes pk) (sm.onChain ⟨some env, errorText⟩)
      root.val) root})
  (hz : P.NeverZero {q | q ∈ env.hashed ∨ q ∈ dataQueries P
    (buildNonMembershipProofDataFromChain (scalarToBytes pk) (sm.onChain ⟨some env, errorText⟩)
      root.val) root})

include hc hz

theorem provable_of_accepted (hpk : mapOf ops pk = none) {d : NonMembershipProofData}
    (hd : buildNonMembershipProofDataFromChain (scalarToBytes pk)
      (sm.onChain ⟨some env, errorText⟩) root.val = .ok d) (haccepted : d.Accepted P pk root) :
    Provable (mapOf ops) pk := by
  obtain ⟨t, S, hst⟩ := h.stores hch
  obtain rfl := root_eq_treeHash hst.represents hroot
  rcases built_cases hst h.separated hroot sm errorText pk with
    ⟨-, e, hbuilt⟩ | ⟨hword, asked, hbuilt, hfound, hcond⟩
  · rw [hbuilt] at hd
    cases hd
  · have hsub := evaluations_subset_dataQueries P env hbuilt
    rw [hbuilt, Except.ok.injEq] at hd
    subst hd
    have hsat := (satisfies_iff_of_search hst.represents h.separated (hst.not_has hpk) hfound
      (hc.mono hsub) fun q hq => hz q (hsub hq)).mp ((accepted_dataOf_iff P).mp haccepted)
    exact ⟨hword, (shortSearch_iff hst pk smtDepth).mp (hcond.mp hsat)⟩

theorem not_accepted_of_listed (hpk : mapOf ops pk ≠ none) {d : NonMembershipProofData}
    (hd : buildNonMembershipProofDataFromChain (scalarToBytes pk)
      (sm.onChain ⟨some env, errorText⟩) root.val = .ok d) : ¬ d.Accepted P pk root := by
  obtain ⟨t, S, hst⟩ := h.stores hch
  obtain rfl := root_eq_treeHash hst.represents hroot
  rcases built_cases hst h.separated hroot sm errorText pk with
    ⟨-, e, hbuilt⟩ | ⟨-, asked, hbuilt, -, -⟩
  · rw [hbuilt] at hd
    cases hd
  · have hsub := evaluations_subset_dataQueries P env hbuilt
    rw [hbuilt, Except.ok.injEq] at hd
    subst hd
    obtain ⟨v, hv, -⟩ := hst.has hpk
    intro haccepted
    exact not_satisfies_of_has hst.represents hv (exclusion_sizedInputs _ _ _ _) rfl rfl
      (hc.mono hsub) (fun q hq => hz q (hsub hq)) ((accepted_dataOf_iff P).mp haccepted)

end history

/-- **When absence is proved**: over every history of the ban list, and for every key that is not
on it, the data is built and taken by the circuit exactly if the key is `Provable`; for a key on
the list the circuit takes no data, and nothing is built exactly if the word asked for is on the
list too. -/
theorem provesAbsence_iff (h : Reached P admin ops env) (hch : ValueChanging ops fun _ => none)
    {root : F} (hroot : env.store.root = some root.val) (sm : StateManager)
    (errorText : Fault Error → String) (pk : F)
    (hc : P.CollisionFree {q | q ∈ env.hashed ∨ q ∈ dataQueries P
      (buildNonMembershipProofDataFromChain (scalarToBytes pk) (sm.onChain ⟨some env, errorText⟩)
        root.val) root})
    (hz : P.NeverZero {q | q ∈ env.hashed ∨ q ∈ dataQueries P
      (buildNonMembershipProofDataFromChain (scalarToBytes pk) (sm.onChain ⟨some env, errorText⟩)
        root.val) root}) :
    (mapOf ops pk = none → ((∃ d, buildNonMembershipProofDataFromChain (scalarToBytes pk)
        (sm.onChain ⟨some env, errorText⟩) root.val = .ok d ∧ d.Accepted P pk root) ↔
      Provable (mapOf ops) pk)) ∧
    (mapOf ops pk ≠ none → (∀ d, buildNonMembershipProofDataFromChain (scalarToBytes pk)
        (sm.onChain ⟨some env, errorText⟩) root.val = .ok d → ¬ d.Accepted P pk root) ∧
      ((∃ e, buildNonMembershipProofDataFromChain (scalarToBytes pk)
        (sm.onChain ⟨some env, errorText⟩) root.val = .error e) ↔
      wordLookup (mapOf ops) (askedFor pk) ≠ none)) := by
  constructor
  · intro hpk
    constructor
    · rintro ⟨d, hd, haccepted⟩
      exact provable_of_accepted h hch hroot sm errorText pk hc hz hpk hd haccepted
    · exact exists_accepted h hch hroot sm errorText pk hpk
  · intro hpk
    exact ⟨fun d hd => not_accepted_of_listed h hch hroot sm errorText pk hc hz hpk hd,
      exists_error_iff h hch hroot sm errorText pk⟩

/-- What is expected of the data for a key: it proves that the key is not on the list, and there is
none for a key that is. -/
def AbsenceProved (P : Poseidon2) (m : F → Option F) (built : Result NonMembershipProofData)
    (pk root : F) : Prop :=
  (m pk = none → ∃ d, built = .ok d ∧ d.Accepted P pk root) ∧
    (m pk ≠ none → ∃ e, built = .error e)

/-- A key that is not on the list is `Provable`, and for one that is the word that is asked for is
on the list too. -/
def AskedRightly (m : F → Option F) (pk : F) : Prop :=
  (m pk = none → Provable m pk) ∧ (m pk ≠ none → wordLookup m (askedFor pk) ≠ none)

/-- **When the data is as expected**: over every history of the ban list and for every key, if the
key is `AskedRightly`; and only if, up to collisions among the evaluations of the contract and of
the circuit. -/
theorem absenceProved_iff (h : Reached P admin ops env) (hch : ValueChanging ops fun _ => none)
    {root : F} (hroot : env.store.root = some root.val) (sm : StateManager)
    (errorText : Fault Error → String) (pk : F) :
    (AskedRightly (mapOf ops) pk → AbsenceProved P (mapOf ops)
      (buildNonMembershipProofDataFromChain (scalarToBytes pk) (sm.onChain ⟨some env, errorText⟩)
        root.val) pk root) ∧
    (P.CollisionFree {q | q ∈ env.hashed ∨ q ∈ dataQueries P
        (buildNonMembershipProofDataFromChain (scalarToBytes pk) (sm.onChain ⟨some env, errorText⟩)
          root.val) root} →
      P.NeverZero {q | q ∈ env.hashed ∨ q ∈ dataQueries P
        (buildNonMembershipProofDataFromChain (scalarToBytes pk) (sm.onChain ⟨some env, errorText⟩)
          root.val) root} →
      AbsenceProved P (mapOf ops) (buildNonMembershipProofDataFromChain (scalarToBytes pk)
        (sm.onChain ⟨some env, errorText⟩) root.val) pk root →
      AskedRightly (mapOf ops) pk) := by
  have herror := exists_error_iff h hch hroot sm errorText pk
  constructor
  · rintro ⟨habsent, hlisted⟩
    exact ⟨fun hpk => exists_accepted h hch hroot sm errorText pk hpk (habsent hpk),
      fun hpk => herror.mpr (hlisted hpk)⟩
  · rintro hc hz ⟨habsent, hlisted⟩
    refine ⟨fun hpk => ?_, fun hpk => herror.mp (hlisted hpk)⟩
    obtain ⟨d, hd, haccepted⟩ := habsent hpk
    exact provable_of_accepted h hch hroot sm errorText pk hc hz hpk hd haccepted

theorem dataQueries_dataOf {built : Result NonMembershipProofData} {pk root : F}
    {findResult : AspNonMembership.FindResult} (h : built = .ok (dataOf pk root findResult)) :
    dataQueries P built root ⊆ {q | q ∈ (sizedInputs root pk findResult smtDepth).queries P} := by
  rintro q ⟨d, n, hd, hreads, hq⟩
  rw [h, Except.ok.injEq] at hd
  subst hd
  rwa [(verifier_of_reads hreads).2.2] at hq

end proved

/-- A state manager that knows nothing of the membership tree. -/
def emptyStateManager : StateManager := ⟨fun _ => .ok none, fun _ => .ok none, fun _ => .error ""⟩

def builtFor (env : Env Store) (root pk : F) : Result NonMembershipProofData :=
  buildNonMembershipProofDataFromChain (scalarToBytes pk)
    (emptyStateManager.onChain ⟨some env, fun _ => ""⟩) root.val

/-- The search for the word asked for, from a state in which it and the circuit's evaluations on it
are clean. -/
def cleanSearch (pk : F) (env : Env Store) : Bool :=
  match findKey (askedFor pk) env with
  | .ok (find, _) => !find.found && cleanLog smallPoseidon2 (env.hashed ++
      (sizedInputs ((env.store.root.getD 0 : U256) : F) pk find smtDepth).queries smallPoseidon2)
  | .error _ => false

theorem clean_of_cleanSearch {admin : Address} {ops : List Op} {env : Env Store} {root pk : F}
    (hr : Reached smallPoseidon2 admin ops env) (hch : ValueChanging ops fun _ => none)
    (hroot : env.store.root = some root.val) (h0 : root ≠ 0) (h : cleanSearch pk env = true) :
    smallPoseidon2.CollisionFree {q | q ∈ env.hashed ∨
      q ∈ dataQueries smallPoseidon2 (builtFor env root pk) root} ∧
    smallPoseidon2.NeverZero {q | q ∈ env.hashed ∨
      q ∈ dataQueries smallPoseidon2 (builtFor env root pk) root} := by
  obtain ⟨find, hfind, -⟩ := (refines_map hr hch).1 (askedFor pk)
  rw [cleanSearch, hfind] at h
  simp only [Bool.and_eq_true, Bool.not_eq_true', hroot, Option.getD_some, F.natCast_val] at h
  obtain ⟨hfound, hclean⟩ := h
  have hbuilt : builtFor env root pk = .ok (dataOf pk root find) := by
    rw [builtFor, buildNonMembershipProofDataFromChain_eq emptyStateManager _ hfind hroot h0,
      hfound]
    rfl
  obtain ⟨hc, hz⟩ := collisionFree_of_cleanLog hclean
  have hsub : ∀ q, q ∈ env.hashed ∨ q ∈ dataQueries smallPoseidon2 (builtFor env root pk) root →
      q ∈ env.hashed ++ (sizedInputs root pk find smtDepth).queries smallPoseidon2 := fun q hq =>
    List.mem_append.mpr (hq.imp_right fun hq => dataQueries_dataOf hbuilt hq)
  exact ⟨hc.mono hsub, fun q hq => hz q (hsub q hq)⟩

/-- A list with 1 and 3. -/
def oneThree : List Op := [.insert 1 (5 : ℕ), .insert (3 : ℕ) (7 : ℕ)]

theorem valueChanging_oneThree : ValueChanging oneThree fun _ => none := ⟨trivial, trivial, trivial⟩

theorem mapOf_oneThree_eq_none {pk : F} (h1 : pk ≠ 1) (h3 : pk ≠ (3 : ℕ)) :
    mapOf oneThree pk = none := by
  rw [mapOf, replay, oneThree, List.foldl_cons, List.foldl_cons, List.foldl_nil, Op.apply, Op.apply,
    Function.update_of_ne h3, Function.update_of_ne h1]

theorem eq_of_mapOf_oneThree {a : F} (h : mapOf oneThree a ≠ none) : a = 1 ∨ a = (3 : ℕ) := by
  by_contra hno
  rw [not_or] at hno
  exact h (mapOf_oneThree_eq_none hno.1 hno.2)

theorem provable_two : Provable (mapOf oneThree) (2 : ℕ) := by
  refine ⟨?_, 1, by decide, by decide +kernel, ?_⟩
  · rw [wordLookup, if_pos (by decide +kernel)]
    exact mapOf_oneThree_eq_none (by decide +kernel) (by decide +kernel)
  · intro a b ha _ hpa _
    rcases eq_of_mapOf_oneThree ha with rfl | rfl
    · exact absurd hpa (by decide +kernel)
    · exact absurd hpa (by decide +kernel)

theorem not_provable_five : ¬ Provable (mapOf oneThree) (5 : ℕ) := by
  rintro ⟨-, d, hd, hmod, hone⟩
  -- one level is too many and none too few
  cases d with
  | zero =>
      refine absurd (hone 1 (3 : ℕ) ?_ ?_ ?_ ?_) (by decide +kernel)
      · decide +kernel
      · decide +kernel
      · rw [pow_zero, Nat.mod_one, Nat.mod_one]
      · rw [pow_zero, Nat.mod_one, Nat.mod_one]
  | succ d =>
      have hbit := congrArg (fun n => n % 2) hmod
      simp only [pow_succ', Nat.mod_mul_right_mod] at hbit
      exact absurd hbit (by decide +kernel)

theorem exists_reached_oneThree : ∃ (env : Env Store) (root : F),
    Reached smallPoseidon2 (.account 0) oneThree env ∧ env.store.root = some root.val ∧
      root ≠ 0 ∧ cleanSearch (2 : ℕ) env = true ∧ cleanSearch (5 : ℕ) env = true := by
  obtain ⟨env, hr, hp⟩ := @exists_reached smallPoseidon2 (.account 0) oneThree [.account 0]
    (p := fun env => env.store.root == some ((env.store.root.getD 0 : U256) : F).val &&
      (env.store.root != some 0 && (cleanSearch (2 : ℕ) env && cleanSearch (5 : ℕ) env)))
    (by decide +kernel)
  simp only [Bool.and_eq_true, beq_iff_eq, bne_iff_ne] at hp
  obtain ⟨hroot, hne, h2, h5⟩ := hp
  refine ⟨env, _, hr, hroot, fun hzero => ?_, h2, h5⟩
  rw [hzero, ZMod.val_zero] at hroot
  exact hne hroot

/-- With 1 and 3 on the list, absence is proved for 2 and not for 5. -/
theorem provesAbsence_iff_smallRun : ∃ (env : Env Store) (root : F),
    env.store.root = some root.val ∧
      (∃ d, builtFor env root ((2 : ℕ) : F) = .ok d ∧
        d.Accepted smallPoseidon2 ((2 : ℕ) : F) root) ∧
      ¬ ∃ d, builtFor env root ((5 : ℕ) : F) = .ok d ∧
        d.Accepted smallPoseidon2 ((5 : ℕ) : F) root := by
  obtain ⟨env, root, hr, hroot, h0, h2, h5⟩ := exists_reached_oneThree
  obtain ⟨hc2, hz2⟩ := clean_of_cleanSearch hr valueChanging_oneThree hroot h0 h2
  obtain ⟨hc5, hz5⟩ := clean_of_cleanSearch hr valueChanging_oneThree hroot h0 h5
  refine ⟨env, root, hroot, ?_, fun hproved => not_provable_five ?_⟩
  · exact ((provesAbsence_iff hr valueChanging_oneThree hroot emptyStateManager (fun _ => "")
      ((2 : ℕ) : F) hc2 hz2).1
        (mapOf_oneThree_eq_none (by decide +kernel) (by decide +kernel))).mpr provable_two
  · exact ((provesAbsence_iff hr valueChanging_oneThree hroot emptyStateManager (fun _ => "")
      ((5 : ℕ) : F) hc5 hz5).1
        (mapOf_oneThree_eq_none (by decide +kernel) (by decide +kernel))).mp hproved

/-- With 1 and 3 on the list, the data for 2 is as expected, and that for 5 is not. -/
theorem absenceProved_iff_smallRun : ∃ (env : Env Store) (root : F),
    env.store.root = some root.val ∧
      AbsenceProved smallPoseidon2 (mapOf oneThree) (builtFor env root (2 : ℕ)) (2 : ℕ) root ∧
      ¬ AbsenceProved smallPoseidon2 (mapOf oneThree) (builtFor env root (5 : ℕ)) (5 : ℕ) root := by
  obtain ⟨env, root, hr, hroot, h0, -, h5⟩ := exists_reached_oneThree
  obtain ⟨hc5, hz5⟩ := clean_of_cleanSearch hr valueChanging_oneThree hroot h0 h5
  refine ⟨env, root, hroot, ?_, fun hproved => not_provable_five ?_⟩
  · exact (absenceProved_iff hr valueChanging_oneThree hroot emptyStateManager (fun _ => "")
      (2 : ℕ)).1 ⟨fun _ => provable_two, fun hlisted => absurd
        (mapOf_oneThree_eq_none (by decide +kernel) (by decide +kernel)) hlisted⟩
  · exact ((absenceProved_iff hr valueChanging_oneThree hroot emptyStateManager (fun _ => "")
      (5 : ℕ)).2 hc5 hz5 hproved).1
        (mapOf_oneThree_eq_none (by decide +kernel) (by decide +kernel))

/-- With 1 and 3 on the list, 5 is absent and its data is not accepted, and for 1 data is built. -/
theorem data_fails_oneThree : ∃ (env : Env Store) (root : F),
    Reached smallPoseidon2 (.account 0) oneThree env ∧ env.store.root = some root.val ∧
      (mapOf oneThree (5 : ℕ) = none ∧ ¬ ∃ d, builtFor env root (5 : ℕ) = .ok d ∧
        d.Accepted smallPoseidon2 (5 : ℕ) root) ∧
      (mapOf oneThree 1 ≠ none ∧ ∃ d, builtFor env root 1 = .ok d) := by
  obtain ⟨env, root, hr, hroot, h0, -, h5⟩ := exists_reached_oneThree
  obtain ⟨hc5, hz5⟩ := clean_of_cleanSearch hr valueChanging_oneThree hroot h0 h5
  have habsent : mapOf oneThree (5 : ℕ) = none :=
    mapOf_oneThree_eq_none (by decide +kernel) (by decide +kernel)
  refine ⟨env, root, hr, hroot, ⟨habsent, ?_⟩, by decide +kernel, ?_⟩
  · rintro ⟨d, hd, haccepted⟩
    exact not_provable_five (provable_of_accepted hr valueChanging_oneThree hroot emptyStateManager
      (fun _ => "") (5 : ℕ) hc5 hz5 habsent hd haccepted)
  · -- the word asked for is the key 1 with its bytes reversed, which is no key of the list
    have hword : wordLookup (mapOf oneThree) (askedFor 1) = none := by
      unfold wordLookup
      split_ifs
      · exact mapOf_oneThree_eq_none (by decide +kernel) (by decide +kernel)
      · rfl
    cases hbuilt : builtFor env root 1 with
    | ok d => exact ⟨d, rfl⟩
    | error e =>
        exact absurd hword ((exists_error_iff hr valueChanging_oneThree hroot emptyStateManager
          (fun _ => "") 1).mp ⟨e, hbuilt⟩)

end Enclave.App

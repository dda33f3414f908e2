import Enclave.AspMembership.Tree
import Enclave.AspNonMembership.Exclusion
import Enclave.Pool.Solvency

/-! # The deployed contracts

The pool with the two ASP contracts it asks for their roots.  Anyone calls any of them at any time;
a call that fails changes nothing.  `spender_admitted`: whoever owns an input of an accepted
transaction stands in a leaf that the membership contract took before, and is not on the ban list
as it is then. -/

namespace Enclave

namespace AspNonMembership

/-- `update_admin`, with `soroban_utils::update_admin`. -/
def updateAdmin (auths : List Address) (newAdmin : Address) : Call Unit := do
  let store ← Host.getStore
  let admin ← Host.unwrap store.admin
  Host.requireAuth auths admin
  Host.modifyStore fun s => { s with admin := some newAdmin }

variable {P : Poseidon2} {env env' : Env Store} {auths : List Address} {key value : U256}

theorem lt_of_hashLeaf {hash : U256} (h : hashLeaf P key value env = .ok (hash, env')) :
    key < bn256Modulus ∧ value < bn256Modulus := by
  unfold hashLeaf poseidon2Hash2 at h
  split_ifs at h with hout
  · cases h
  · exact ⟨not_le.mp fun hle => hout (Or.inl hle),
      not_le.mp fun hle => hout (Or.inr (Or.inl hle))⟩

theorem lt_of_insertLeaf (h : insertLeaf P auths key value env = .ok ((), env')) :
    key < bn256Modulus ∧ value < bn256Modulus := by
  rw [insertLeaf, Host.bind_of_ok (Host.getStore_apply env)] at h
  obtain ⟨admin, e₁, -, h⟩ := Host.bind_eq_ok.mp h
  obtain ⟨_, e₂, -, h⟩ := Host.bind_eq_ok.mp h
  obtain ⟨find, e₃, -, h⟩ := Host.bind_eq_ok.mp h
  split_ifs at h
  · cases h
  · obtain ⟨rtOld, e₄, -, h⟩ := Host.bind_eq_ok.mp h
    obtain ⟨path, e₅, -, h⟩ := Host.bind_eq_ok.mp h
    obtain ⟨rt, e₆, hrt, -⟩ := Host.bind_eq_ok.mp h
    exact lt_of_hashLeaf hrt
  · obtain ⟨path, e₄, -, h⟩ := Host.bind_eq_ok.mp h
    obtain ⟨rt, e₅, hrt, -⟩ := Host.bind_eq_ok.mp h
    exact lt_of_hashLeaf hrt

theorem lt_of_updateLeaf (h : updateLeaf P auths key value env = .ok ((), env')) :
    key < bn256Modulus ∧ value < bn256Modulus := by
  rw [updateLeaf, Host.bind_of_ok (Host.getStore_apply env)] at h
  obtain ⟨admin, e₁, -, h⟩ := Host.bind_eq_ok.mp h
  obtain ⟨_, e₂, -, h⟩ := Host.bind_eq_ok.mp h
  obtain ⟨find, e₃, -, h⟩ := Host.bind_eq_ok.mp h
  split_ifs at h
  · cases h
  · obtain ⟨old, e₄, -, h⟩ := Host.bind_eq_ok.mp h
    obtain ⟨new, e₅, hnew, -⟩ := Host.bind_eq_ok.mp h
    exact lt_of_hashLeaf hnew

theorem lt_of_deleteLeaf (h : deleteLeaf P auths key env = .ok ((), env')) :
    key < bn256Modulus := by
  rw [deleteLeaf, Host.bind_of_ok (Host.getStore_apply env)] at h
  obtain ⟨admin, e₁, -, h⟩ := Host.bind_eq_ok.mp h
  obtain ⟨_, e₂, -, h⟩ := Host.bind_eq_ok.mp h
  obtain ⟨root, e₃, -, h⟩ := Host.bind_eq_ok.mp h
  obtain ⟨find, e₄, -, h⟩ := Host.bind_eq_ok.mp h
  split_ifs at h
  · cases h
  · obtain ⟨old, e₅, hold, -⟩ := Host.bind_eq_ok.mp h
    exact (lt_of_hashLeaf hold).1

def withAdmin (env : Env Store) (newAdmin : Address) : Env Store :=
  { env with store := { env.store with admin := some newAdmin } }

theorem updateAdmin_ok {newAdmin : Address} (h : updateAdmin auths newAdmin env = .ok ((), env')) :
    env' = withAdmin env newAdmin := by
  rw [updateAdmin, Host.bind_of_ok (Host.getStore_apply env)] at h
  obtain ⟨admin, e₁, hadmin, hrest⟩ := Host.bind_eq_ok.mp h
  obtain ⟨_, e₂, hauth, hset⟩ := Host.bind_eq_ok.mp hrest
  obtain rfl := (Host.unwrap_eq_ok.mp hadmin).2
  obtain rfl := (Host.requireAuth_eq_ok.mp hauth).2
  cases hset
  rfl

theorem Stores.withAdmin {admin : Address} {t : Tree} {S : Set Tree} {m : F → Option F}
    (h : Stores P admin env t S m) (newAdmin : Address) :
    Stores P newAdmin (withAdmin env newAdmin) t S m where
  represents :=
    ⟨h.represents.canon, h.represents.root, h.represents.stored, h.represents.hashed,
      h.represents.complete⟩
  models := h.models
  admin_eq := rfl

end AspNonMembership

namespace AspMembership

/-- The admin of then authorises the insertion, or it is free. -/
def Authorises (auths : List Address) (env : Env Store) : Prop :=
  env.store.adminInsertOnly = some false ∨ ∃ admin ∈ auths, env.store.admin = some admin

theorem authorises_of_requireInsert {auths : List Address} {env env' : Env Store}
    (h : requireInsert auths env = .ok ((), env')) : Authorises auths env := by
  rw [requireInsert, Host.bind_of_ok (Host.getStore_apply env)] at h
  split_ifs at h with honly
  · obtain ⟨admin, e₁, hadmin, hauth⟩ := Host.bind_eq_ok.mp h
    exact Or.inr ⟨admin, (Host.requireAuth_eq_ok.mp hauth).1, (Host.unwrap_eq_ok.mp hadmin).1⟩
  · refine Or.inl ?_
    cases hfree : env.store.adminInsertOnly with
    | none =>
        rw [hfree] at honly
        exact absurd rfl honly
    | some adminOnly =>
        rw [hfree] at honly
        exact congrArg some (Bool.eq_false_iff.mpr honly)

end AspMembership

namespace Pool

variable {P : Poseidon2} {proof : Proof} {o : Opening}

theorem Opens.aspRoots (h : Opens P proof o) (tx : Fin 2) :
    o.1.membershipRoots tx 0 = proof.aspMembershipRoot ∧
      o.1.nonMembershipRoots tx 0 = proof.aspNonMembershipRoot := by
  have hpub := h.pub
  have hlen := congrArg List.length (encodes_of_toList hpub).inputNullifier
  rw [List.length_ofFn, List.length_map] at hlen
  obtain ⟨n₀, n₁, hnulls⟩ := List.length_eq_two.mp hlen.symm
  rw [PolicyPublic.toList_eq, residues, publicInputs, hnulls] at hpub
  simp only [List.cons_append, List.nil_append, List.map_cons, List.length_cons, List.length_nil,
    Nat.reduceAdd, List.replicate_succ, List.replicate_zero, List.map_nil, List.cons.injEq,
    and_true] at hpub
  obtain ⟨-, -, -, -, -, -, -, hmember0, hmember1, hban0, hban1⟩ := hpub
  fin_cases tx
  · exact ⟨hmember0, hban0⟩
  · exact ⟨hmember1, hban1⟩

end Pool

namespace Deployment

open Circuits Pool

/-- Where the ASP contracts are. -/
structure Sites where
  aspMembership : Address
  aspNonMembership : Address
  ne : aspMembership ≠ aspNonMembership

/-- The storage of the three contracts. -/
structure Ledger where
  pool : Env Chain
  aspMembership : Env AspMembership.Store
  aspNonMembership : Env AspNonMembership.Store

/-- Calls of the three, and what else happens to the pool. -/
inductive Call where
  | pool (a : Action)
  | insertLeaf (auths : List Address) (leaf : U256)
  | setAdminInsertOnly (auths : List Address) (adminOnly : Bool)
  | updateMembershipAdmin (auths : List Address) (newAdmin : Address)
  | insertKey (auths : List Address) (key value : U256)
  | updateKey (auths : List Address) (key newValue : U256)
  | deleteKey (auths : List Address) (key : U256)
  | updateNonMembershipAdmin (auths : List Address) (newAdmin : Address)

/-- The chain as the pool sees it: `get_root` answers with the root in storage. -/
def Ledger.chain (sites : Sites) (s : Ledger) : Env Chain where
  store := { s.pool.store with
    aspRoot := fun asp =>
      if asp = sites.aspMembership then s.aspMembership.store.root
      else if asp = sites.aspNonMembership then s.aspNonMembership.store.root
      else s.pool.store.aspRoot asp }
  hashed := s.pool.hashed

theorem Ledger.chain_aspMembership (sites : Sites) (s : Ledger) :
    (s.chain sites).store.aspRoot sites.aspMembership = s.aspMembership.store.root := if_pos rfl

theorem Ledger.chain_aspNonMembership (sites : Sites) (s : Ledger) :
    (s.chain sites).store.aspRoot sites.aspNonMembership = s.aspNonMembership.store.root := by
  rw [Ledger.chain]
  exact (if_neg sites.ne.symm).trans (if_pos rfl)

variable (ext : Externals) (P : Poseidon2) (sites : Sites)

def step (s : Ledger) : Call → Ledger
  | .pool a => { s with pool := Pool.step ext P (s.chain sites) a }
  | .insertLeaf auths leaf =>
      { s with aspMembership := (AspMembership.insertLeaf P auths leaf).after s.aspMembership }
  | .setAdminInsertOnly auths adminOnly =>
      { s with aspMembership :=
          (AspMembership.setAdminInsertOnly auths adminOnly).after s.aspMembership }
  | .updateMembershipAdmin auths newAdmin =>
      { s with aspMembership := (AspMembership.updateAdmin auths newAdmin).after s.aspMembership }
  | .insertKey auths key value =>
      { s with aspNonMembership :=
          (AspNonMembership.insertLeaf P auths key value).after s.aspNonMembership }
  | .updateKey auths key newValue =>
      { s with aspNonMembership :=
          (AspNonMembership.updateLeaf P auths key newValue).after s.aspNonMembership }
  | .deleteKey auths key =>
      { s with aspNonMembership :=
          (AspNonMembership.deleteLeaf P auths key).after s.aspNonMembership }
  | .updateNonMembershipAdmin auths newAdmin =>
      { s with aspNonMembership :=
          (AspNonMembership.updateAdmin auths newAdmin).after s.aspNonMembership }

def run (s : Ledger) (calls : List Call) : Ledger := calls.foldl (step ext P sites) s

/-- The call takes a leaf into the membership tree. -/
def admits (s : Ledger) : Call → Option F
  | .insertLeaf auths leaf =>
      if (AspMembership.insertLeaf P auths leaf s.aspMembership).isOk then some leaf else none
  | _ => none

/-- The call changes the ban list. -/
def bans (s : Ledger) : Call → Option AspNonMembership.Op
  | .insertKey auths key value =>
      if (AspNonMembership.insertLeaf P auths key value s.aspNonMembership).isOk then
        some (.insert key value)
      else none
  | .updateKey auths key newValue =>
      if (AspNonMembership.updateLeaf P auths key newValue s.aspNonMembership).isOk then
        some (.update key newValue)
      else none
  | .deleteKey auths key =>
      if (AspNonMembership.deleteLeaf P auths key s.aspNonMembership).isOk then some (.delete key)
      else none
  | _ => none

/-- What the calls of a run do, in order. -/
def effects {β : Type} (f : Ledger → Call → Option β) : Ledger → List Call → List β
  | _, [] => []
  | s, c :: rest => (f s c).toList ++ effects f (step ext P sites s c) rest

/-- The ban list after a run that starts with none. -/
def bannedAfter (s : Ledger) (calls : List Call) : F → Option F :=
  AspNonMembership.mapOf (effects ext P sites (bans P) s calls)

/-- The ASP contracts as their constructors leave them, the membership tree with ten levels; the
pool is in any state. -/
structure Ledger.Deployed (s : Ledger) : Prop where
  aspMembership : ∃ admin,
    AspMembership.constructor admin 10 AspMembership.blank = .ok ((), s.aspMembership)
  aspNonMembership : ∃ admin, s.aspNonMembership = AspNonMembership.constructor admin

variable {ext P sites} {s s₀ : Ledger} {c : Call} {calls : List Call}

theorem mem_effects {β : Type} {f : Ledger → Call → Option β} {b : β} :
    b ∈ effects ext P sites f s calls ↔ ∃ pre c post, calls = pre ++ c :: post ∧
      f (run ext P sites s pre) c = some b := by
  induction calls generalizing s with
  | nil =>
      refine ⟨fun h => absurd h List.not_mem_nil, ?_⟩
      rintro ⟨pre, c, post, h, -⟩
      exact absurd h (List.append_ne_nil_of_right_ne_nil _ (List.cons_ne_nil _ _)).symm
  | cons c rest ih =>
      rw [effects, List.mem_append, Option.mem_toList, ih]
      constructor
      · rintro (h | ⟨pre, c', post, rfl, h⟩)
        · exact ⟨[], c, rest, rfl, h⟩
        · exact ⟨c :: pre, c', post, rfl, h⟩
      · rintro ⟨pre, c', post, heq, h⟩
        cases pre with
        | nil =>
            obtain ⟨rfl, -⟩ := List.cons.inj heq
            exact Or.inl h
        | cons a pre =>
            obtain ⟨rfl, rfl⟩ := List.cons.inj heq
            exact Or.inr ⟨pre, c', post, rfl, h⟩

/-! ### The membership tree -/

/-- The contract's tree, and what was hashed for it. -/
structure Members (P : Poseidon2) (leaves : List F) (env : Env AspMembership.Store) : Prop where
  holds : AspMembership.Holds P 10 leaves env
  hashed : ∀ p ∈ Merkle.treePairs P.compress (leafAt leaves) 10,
    pairQuery p ∈ env.hashed ∨ ∃ l < 10, p = (zeroAt l, zeroAt l)

variable {leaves : List F} {auths : List Address}

theorem members_of_constructor (hz : ZeroTable P) {admin : Address} {env : Env AspMembership.Store}
    (h : AspMembership.constructor admin 10 AspMembership.blank = .ok ((), env)) :
    Members P [] env := by
  rw [AspMembership.constructor_apply admin (by decide) (by decide)] at h
  cases h
  exact ⟨AspMembership.holds_deployed hz admin (by decide), fun p hp => Or.inr
    (Merkle.treePairs_zero (hz.mono (by decide)) (fun i => leafAt_of_le (Nat.zero_le i)) hp)⟩

theorem Members.insertLeaf {env env' : Env AspMembership.Store} (h : Members P leaves env)
    (hz : ZeroTable P) {leaf : U256}
    (hins : AspMembership.insertLeaf P auths leaf env = .ok ((), env')) :
    leaf = (leaf : F).val ∧ Members P (leaves ++ [(leaf : F)]) env' := by
  obtain ⟨x, rfl, hholds, -⟩ := h.holds.of_insertLeaf hz (by decide) (by decide) hins
  rw [F.natCast_val]
  refine ⟨rfl, hholds, fun p hp => ?_⟩
  have hlt : leaves.length < 2 ^ 10 := by
    have hle := hholds.length_le
    rw [List.length_append, List.length_singleton] at hle
    exact hle
  obtain ⟨g, pairs, hloop, -, hpairs⟩ := h.holds.keeps.insert AspMembership.lawful_keys hz
    (by decide) (Nat.zero_le _) (show [x].length = _ from rfl) (one_dvd _) hlt
  have hleaf : Merkle.node P.compress (leafAt (leaves ++ [x])) 0 (leaves.length / 2 ^ 0) = x := by
    rw [pow_zero, Nat.div_one, Merkle.node, leafAt, List.getD_append_right _ _ _ _ le_rfl,
      Nat.sub_self, List.getD_cons_zero]
  rw [hleaf, pow_zero, Nat.div_one, Nat.sub_zero] at hloop
  have hlog : env'.hashed = pairs.map pairQuery ++ env.hashed := by
    rw [AspMembership.insertLeaf] at hins
    obtain ⟨_, e, hauth, hrest⟩ := Host.bind_eq_ok.mp hins
    obtain rfl := AspMembership.requireInsert_env hauth
    rw [Host.bind_of_ok (Host.getStore_apply e), h.holds.levels_eq,
      Host.bind_of_ok (Host.unwrap_some _ e), h.holds.nextIndex,
      Host.bind_of_ok (Host.unwrap_some _ e), if_neg (by omega), Host.bind_of_ok hloop] at hrest
    cases hrest
    rfl
  rw [hlog]
  have hbeyond : ∀ i, leaves.length + 2 ^ 0 ≤ i → leafAt (leaves ++ [x]) i = leafAt leaves i := by
    intro i hi
    have hlen : (leaves ++ [x]).length = leaves.length + 1 := by simp
    rw [leafAt_of_le (by omega), leafAt_of_le (by omega)]
  rcases Merkle.treePairs_insert (f := leafAt leaves) (one_dvd _) (Nat.zero_le _)
    (fun i hi => leafAt_append_of_lt hi) hbeyond hp with hp | ⟨m, hm, rfl⟩
  · exact (h.hashed p hp).imp_left fun hq => List.mem_append_right _ hq
  · exact Or.inl (List.mem_append_left _
      (List.mem_map_of_mem ((hpairs _).mpr ⟨m, Nat.zero_le _, hm, rfl⟩)))

/-- **What a call does to the membership contract**: it takes a leaf, or at most sets the admin. -/
theorem membership_cases (ext : Externals) (P : Poseidon2) (sites : Sites) (s : Ledger) (c : Call) :
    (∃ auths leaf, c = .insertLeaf auths leaf ∧ admits P s c = some (leaf : F) ∧
      AspMembership.insertLeaf P auths leaf s.aspMembership =
        .ok ((), (step ext P sites s c).aspMembership)) ∨
    (admits P s c = none ∧ ∃ admin adminOnly, (step ext P sites s c).aspMembership =
      AspMembership.withAdmin s.aspMembership admin adminOnly) := by
  have hsame : ∃ admin adminOnly, s.aspMembership =
      AspMembership.withAdmin s.aspMembership admin adminOnly := ⟨_, _, rfl⟩
  cases c with
  | insertLeaf auths leaf =>
      cases hr : AspMembership.insertLeaf P auths leaf s.aspMembership with
      | error e =>
          refine Or.inr ⟨by rw [admits, hr]; rfl, ?_⟩
          rw [step, Host.after_of_error hr]
          exact hsame
      | ok p =>
          refine Or.inl ⟨auths, leaf, rfl, by rw [admits, hr]; rfl, ?_⟩
          rw [step, Host.after_of_ok hr]
          exact hr
  | setAdminInsertOnly auths adminOnly =>
      refine Or.inr ⟨rfl, ?_⟩
      cases hr : AspMembership.setAdminInsertOnly auths adminOnly s.aspMembership with
      | error e =>
          rw [step, Host.after_of_error hr]
          exact hsame
      | ok p =>
          rw [step, Host.after_of_ok hr]
          exact ⟨_, _, AspMembership.setAdminInsertOnly_ok hr⟩
  | updateMembershipAdmin auths newAdmin =>
      refine Or.inr ⟨rfl, ?_⟩
      cases hr : AspMembership.updateAdmin auths newAdmin s.aspMembership with
      | error e =>
          rw [step, Host.after_of_error hr]
          exact hsame
      | ok p =>
          rw [step, Host.after_of_ok hr]
          exact ⟨_, _, AspMembership.updateAdmin_ok hr⟩
  | pool a => exact Or.inr ⟨rfl, hsame⟩
  | insertKey auths key value => exact Or.inr ⟨rfl, hsame⟩
  | updateKey auths key newValue => exact Or.inr ⟨rfl, hsame⟩
  | deleteKey auths key => exact Or.inr ⟨rfl, hsame⟩
  | updateNonMembershipAdmin auths newAdmin => exact Or.inr ⟨rfl, hsame⟩

/-- **The membership tree has the leaves that were taken.** -/
theorem members_run (hz : ZeroTable P) (h : Members P leaves s.aspMembership) :
    Members P (leaves ++ effects ext P sites (admits P) s calls)
      (run ext P sites s calls).aspMembership := by
  induction calls generalizing s leaves with
  | nil =>
      rw [effects, List.append_nil]
      exact h
  | cons c rest ih =>
      rw [effects, ← List.append_assoc]
      refine ih ?_
      obtain ⟨auths, leaf, -, hadmits, hins⟩ | ⟨hnone, admin, adminOnly, heq⟩ :=
        membership_cases ext P sites s c
      · rw [hadmits]
        exact (h.insertLeaf hz hins).2
      · rw [hnone, heq, Option.toList_none, List.append_nil]
        exact ⟨h.holds.withAdmin admin adminOnly, h.hashed⟩

/-! ### The ban list -/

/-- **What a call does to the ban list**: an operation that succeeds, or at most another admin. -/
theorem ban_cases (ext : Externals) (P : Poseidon2) (sites : Sites) (s : Ledger) (c : Call) :
    (∃ op, bans P s c = some op ∧
      AspNonMembership.Step P s.aspNonMembership op (step ext P sites s c).aspNonMembership) ∨
    (bans P s c = none ∧ ((step ext P sites s c).aspNonMembership = s.aspNonMembership ∨
      ∃ newAdmin, (step ext P sites s c).aspNonMembership =
        AspNonMembership.withAdmin s.aspNonMembership newAdmin)) := by
  cases c with
  | insertKey auths key value =>
      cases hr : AspNonMembership.insertLeaf P auths key value s.aspNonMembership with
      | error e =>
          refine Or.inr ⟨by rw [bans, hr]; rfl, Or.inl ?_⟩
          rw [step, Host.after_of_error hr]
      | ok p =>
          obtain ⟨hkey, hvalue⟩ := AspNonMembership.lt_of_insertLeaf hr
          refine Or.inl ⟨.insert key value, by rw [bans, hr]; rfl, auths, ?_⟩
          rw [step, Host.after_of_ok hr, AspNonMembership.Op.call, F.val_natCast_of_lt hkey,
            F.val_natCast_of_lt hvalue]
          exact hr
  | updateKey auths key newValue =>
      cases hr : AspNonMembership.updateLeaf P auths key newValue s.aspNonMembership with
      | error e =>
          refine Or.inr ⟨by rw [bans, hr]; rfl, Or.inl ?_⟩
          rw [step, Host.after_of_error hr]
      | ok p =>
          obtain ⟨hkey, hvalue⟩ := AspNonMembership.lt_of_updateLeaf hr
          refine Or.inl ⟨.update key newValue, by rw [bans, hr]; rfl, auths, ?_⟩
          rw [step, Host.after_of_ok hr, AspNonMembership.Op.call, F.val_natCast_of_lt hkey,
            F.val_natCast_of_lt hvalue]
          exact hr
  | deleteKey auths key =>
      cases hr : AspNonMembership.deleteLeaf P auths key s.aspNonMembership with
      | error e =>
          refine Or.inr ⟨by rw [bans, hr]; rfl, Or.inl ?_⟩
          rw [step, Host.after_of_error hr]
      | ok p =>
          have hkey := AspNonMembership.lt_of_deleteLeaf hr
          refine Or.inl ⟨.delete key, by rw [bans, hr]; rfl, auths, ?_⟩
          rw [step, Host.after_of_ok hr, AspNonMembership.Op.call, F.val_natCast_of_lt hkey]
          exact hr
  | updateNonMembershipAdmin auths newAdmin =>
      refine Or.inr ⟨rfl, ?_⟩
      cases hr : AspNonMembership.updateAdmin auths newAdmin s.aspNonMembership with
      | error e =>
          rw [step, Host.after_of_error hr]
          exact Or.inl rfl
      | ok p =>
          rw [step, Host.after_of_ok hr]
          exact Or.inr ⟨newAdmin, AspNonMembership.updateAdmin_ok hr⟩
  | pool a => exact Or.inr ⟨rfl, Or.inl rfl⟩
  | insertLeaf auths leaf => exact Or.inr ⟨rfl, Or.inl rfl⟩
  | setAdminInsertOnly auths adminOnly => exact Or.inr ⟨rfl, Or.inl rfl⟩
  | updateMembershipAdmin auths newAdmin => exact Or.inr ⟨rfl, Or.inl rfl⟩

theorem hashed_subset_step (s : Ledger) (c : Call) :
    s.aspNonMembership.hashed ⊆ (step ext P sites s c).aspNonMembership.hashed := by
  obtain ⟨op, -, hstep⟩ | ⟨-, heq | ⟨newAdmin, heq⟩⟩ := ban_cases ext P sites s c
  · exact hstep.hashed_subset
  · rw [heq]
    exact List.Subset.refl _
  · rw [heq]
    exact List.Subset.refl _

theorem hashed_subset_run (calls : List Call) (s : Ledger) :
    s.aspNonMembership.hashed ⊆ (run ext P sites s calls).aspNonMembership.hashed := by
  induction calls generalizing s with
  | nil => exact List.Subset.refl _
  | cons c rest ih => exact List.Subset.trans (hashed_subset_step s c) (ih _)

/-- **The ban list is the replayed one.** -/
theorem stores_run {admin : Address} {t : AspNonMembership.Tree}
    {S : Set AspNonMembership.Tree}
    {m : F → Option F} (h : AspNonMembership.Stores P admin s.aspNonMembership t S m)
    (hch : AspNonMembership.ValueChanging (effects ext P sites (bans P) s calls) m)
    (hsep : AspNonMembership.Separated P (run ext P sites s calls).aspNonMembership) :
    ∃ admin t S, AspNonMembership.Stores P admin (run ext P sites s calls).aspNonMembership t S
      (AspNonMembership.replay (effects ext P sites (bans P) s calls) m) := by
  induction calls generalizing s admin t S m with
  | nil => exact ⟨admin, t, S, h⟩
  | cons c rest ih =>
      rw [effects] at hch ⊢
      obtain ⟨op, hbans, hstep⟩ | ⟨hnone, heq⟩ := ban_cases ext P sites s c
      · rw [hbans] at hch ⊢
        have hsep' := hsep.mono (hashed_subset_run rest (step ext P sites s c))
        obtain ⟨-, t', S', h', -⟩ := h.step hstep hch.1 hsep'
        exact ih h' hch.2 hsep
      · rw [hnone] at hch ⊢
        obtain heq | ⟨newAdmin, heq⟩ := heq
        · exact ih (heq ▸ h) hch hsep
        · exact ih (heq ▸ h.withAdmin newAdmin) hch hsep

/-! ### Spenders -/

/-- What was hashed for the ASP contracts, for the empty tree and for an opening. -/
def evaluations (P : Poseidon2) (s : Ledger) (o : Opening) : Set Query :=
  {q | q ∈ s.aspMembership.hashed ∨ q ∈ s.aspNonMembership.hashed ∨
    (∃ l < 10, q = .compress (zeroAt l) (zeroAt l)) ∨ q ∈ o.2.queries P o.1}

/-- A call of the run took the leaf, with the authorisation it needed. -/
def Admitted (ext : Externals) (P : Poseidon2) (sites : Sites) (s : Ledger) (calls : List Call)
    (leaf : F) : Prop :=
  ∃ pre auths post, calls = pre ++ .insertLeaf auths leaf.val :: post ∧
    (AspMembership.insertLeaf P auths leaf.val (run ext P sites s pre).aspMembership).isOk ∧
    AspMembership.Authorises auths (run ext P sites s pre).aspMembership

theorem admitted_of_mem (hz : ZeroTable P) (h : Members P [] s.aspMembership) {leaf : F}
    (hleaf : leaf ∈ effects ext P sites (admits P) s calls) :
    Admitted ext P sites s calls leaf := by
  obtain ⟨pre, c, post, rfl, hadmits⟩ := mem_effects.mp hleaf
  obtain ⟨auths, word, rfl, hword, hins⟩ | ⟨hnone, -⟩ :=
    membership_cases ext P sites (run ext P sites s pre) c
  · rw [hword, Option.some.injEq] at hadmits
    subst hadmits
    have hval := ((members_run hz h).insertLeaf hz hins).1
    rw [hval] at hins
    refine ⟨pre, auths, post, by rw [← hval], by rw [hins]; rfl, ?_⟩
    rw [AspMembership.insertLeaf] at hins
    obtain ⟨_, e, hauth, -⟩ := Host.bind_eq_ok.mp hins
    exact AspMembership.authorises_of_requireInsert hauth
  · rw [hnone] at hadmits
    cases hadmits

/-- **A leaf under the membership root** was taken, unless it is the zero leaf. -/
theorem Members.mem_of_satisfies {Q : Set Query} {env : Env AspMembership.Store}
    (h : Members P leaves env) (hc : P.CollisionFree Q) (hlog : ∀ q ∈ env.hashed, q ∈ Q)
    (hzero : ∀ l < 10, .compress (zeroAt l) (zeroAt l) ∈ Q) {m : MembershipProof 10}
    {pubkey root : F} (hsat : m.Satisfies P pubkey root) (hroot : env.store.root = some root.val)
    (hpath : ∀ q ∈ MerkleProof.queries P m.pathIndices 0 (List.ofFn m.pathElements) m.leaf, q ∈ Q)
    (hne : m.leaf ≠ zeroAt 0) : m.leaf ∈ leaves := by
  have hinj : Set.InjOn (fun p : F × F => P.compress p.1 p.2) {p | pairQuery p ∈ Q} := by
    intro p hp q hq heq
    obtain ⟨hleft, hright⟩ := Query.compress.inj (hc hp hq heq)
    exact Prod.ext hleft hright
  have hidx : m.pathIndices.val < 2 ^ 10 := hsat.pathIndices
  have hlen : (List.ofFn m.pathElements).length = 10 := List.length_ofFn
  have htree : root = rootOf P 10 leaves := by
    rw [h.holds.root, Option.some.injEq] at hroot
    exact (F.val_injective hroot).symm
  have hleaf : m.leaf = Merkle.node P.compress (leafAt leaves) 0 (m.pathIndices.val / 2 ^ 0) := by
    refine @Merkle.leaf_of_pathRoot F P.compress _ _ hinj _ 0 (List.ofFn m.pathElements) _ ?_
      (fun p hp => hpath _ ?_) ?_
    · rw [hlen]
      intro p hp
      obtain hmem | ⟨l, hl, rfl⟩ := h.hashed p hp
      · exact hlog _ hmem
      · exact hzero l hl
    · rw [MerkleProof.queries_eq]
      exact List.mem_map_of_mem hp
    · rw [hlen, Nat.zero_add, Nat.div_eq_of_lt hidx, ← MerkleProof.root_eq, hsat.root, htree]
      rfl
  rw [pow_zero, Nat.div_one, Merkle.node] at hleaf
  have hlt : m.pathIndices.val < leaves.length := by
    by_contra hge
    exact hne (hleaf.trans (leafAt_of_le (not_lt.mp hge)))
  rw [hleaf, leafAt, List.getD_eq_getElem _ _ hlt]
  exact List.getElem_mem hlt

theorem membershipQueries_mem (w : PolicyWitness) (pub : PolicyPublic) (tx : Fin 2) :
    ∀ q ∈ MerkleProof.queries P ((w.input tx).membershipProofs 0).pathIndices 0
      (List.ofFn ((w.input tx).membershipProofs 0).pathElements)
      ((w.input tx).membershipProofs 0).leaf, q ∈ w.queries P pub := by
  intro q hq
  refine Witness.input_queries_subset tx (List.mem_append_left _ (List.mem_append_right _ ?_))
  exact List.mem_flatMap.mpr
    ⟨_, (List.mem_ofFn' _ _).mpr ⟨0, rfl⟩, List.mem_cons_of_mem _ hq⟩

theorem nonMembershipQueries_mem (w : PolicyWitness) (pub : PolicyPublic) (tx : Fin 2) :
    ∀ q ∈ (((w.input tx).nonMembershipProofs 0).verifier
      (pub.nonMembershipRoots tx 0)).queries P, q ∈ w.queries P pub := by
  intro q hq
  refine Witness.input_queries_subset tx (List.mem_append_right _ ?_)
  exact List.mem_flatten.mpr ⟨_, (List.mem_ofFn' _ _).mpr ⟨0, rfl⟩, hq⟩

theorem exclusion_verifier (n : NonMembershipProof 10) (root : F) : (n.verifier root).Exclusion where
  enabled := rfl
  fnc := rfl
  isOld0 := by
    unfold NonMembershipProof.verifier bitSignal
    split_ifs
    · exact Or.inr rfl
    · exact Or.inl rfl

/-- **Spenders are admitted and not banned**: a transaction that is accepted while the pool asks
these two contracts opens only to inputs whose owners stand in a leaf that was taken before, and
have no entry in the ban list. -/
theorem spender_admitted (hv : PolicyVerifier ext P) (hz : ZeroTable P) (h : s₀.Deployed)
    {proof : Proof} {extData : ExtData} {sender : Address} {env' : Env Chain}
    (hok : transact ext P auths proof extData sender ((run ext P sites s₀ calls).chain sites) =
      .ok ((), env'))
    (hmember : (run ext P sites s₀ calls).pool.store.pool.aspMembership = some sites.aspMembership)
    (hban : (run ext P sites s₀ calls).pool.store.pool.aspNonMembership =
      some sites.aspNonMembership)
    (hch : AspNonMembership.ValueChanging (effects ext P sites (bans P) s₀ calls) fun _ => none) :
    (∃ o, Opens P proof o) ∧ ∀ o, Opens P proof o →
      P.CollisionFree (evaluations P (run ext P sites s₀ calls) o) →
      P.NeverZero (evaluations P (run ext P sites s₀ calls) o) →
      (∀ tx, ((o.2.input tx).membershipProofs 0).leaf ≠ zeroAt 0) → ∀ tx,
        Admitted ext P sites s₀ calls (P.hash2 ((o.2.input tx).inPubkey P)
          ((o.2.input tx).membershipProofs 0).blinding 1) ∧
        bannedAfter ext P sites s₀ calls ((o.2.input tx).inPubkey P) = none := by
  have hchecked := (transact_accepted hok).checked
  refine ⟨SoundVerifier.exists_opens hv.sound hchecked, fun o ho hc hn hne tx => ?_⟩
  obtain ⟨hmembers, hbanned⟩ := ho.aspRoots tx
  have hin := ho.satisfies.input tx
  obtain ⟨admin, hadmin⟩ := h.aspMembership
  have hdeployed := members_of_constructor hz hadmin
  constructor
  · have hrun := @members_run ext P sites s₀ calls [] hz hdeployed
    rw [List.nil_append] at hrun
    obtain ⟨asp, hasp, hroot⟩ := hchecked.aspMembership
    obtain rfl : sites.aspMembership = asp := Option.some.inj (hmember.symm.trans hasp)
    rw [Ledger.chain_aspMembership] at hroot
    have hword : proof.aspMembershipRoot = (proof.aspMembershipRoot : F).val := by
      rw [hrun.holds.root, Option.some.injEq] at hroot
      rw [← hroot, F.natCast_val]
    rw [hword, ← hmembers] at hroot
    have hmem := hrun.mem_of_satisfies hc (fun q hq => Or.inl hq)
      (fun l hl => Or.inr (Or.inr (Or.inl ⟨l, hl, rfl⟩))) (hin.membership 0) hroot
      (fun q hq => Or.inr (Or.inr (Or.inr (membershipQueries_mem _ _ tx q hq)))) (hne tx)
    rw [(hin.membership 0).leaf] at hmem
    exact admitted_of_mem hz hdeployed hmem
  · by_contra hkey
    obtain ⟨admin', hadmin'⟩ := h.aspNonMembership
    have hstart := AspNonMembership.stores_constructor P admin'
    rw [← hadmin'] at hstart
    have hlog : ∀ q ∈ (run ext P sites s₀ calls).aspNonMembership.hashed,
        q ∈ evaluations P (run ext P sites s₀ calls) o := fun q hq => Or.inr (Or.inl hq)
    have hsep := AspNonMembership.separated_of_collisionFree P (hc.mono hlog)
      fun q hq => hn q (hlog q hq)
    obtain ⟨admin'', t, S, hst⟩ := stores_run hstart hch hsep
    obtain ⟨v, hhas, -⟩ := hst.has hkey
    obtain ⟨asp, hasp, hroot⟩ := hchecked.aspNonMembership
    obtain rfl : sites.aspNonMembership = asp := Option.some.inj (hban.symm.trans hasp)
    rw [Ledger.chain_aspNonMembership, hst.represents.root, Option.some.injEq] at hroot
    have htree : o.1.nonMembershipRoots tx 0 = AspNonMembership.treeHash P t := by
      rw [hbanned, ← hroot]
      exact F.natCast_val _
    have hquery : ∀ q ∈ (((o.2.input tx).nonMembershipProofs 0).verifier
        (o.1.nonMembershipRoots tx 0)).queries P, q ∈ evaluations P (run ext P sites s₀ calls) o :=
      fun q hq => Or.inr (Or.inr (Or.inr (nonMembershipQueries_mem _ _ tx q hq)))
    have hboth : {q | q ∈ (run ext P sites s₀ calls).aspNonMembership.hashed ∨
        q ∈ (((o.2.input tx).nonMembershipProofs 0).verifier
          (o.1.nonMembershipRoots tx 0)).queries P} ⊆ evaluations P (run ext P sites s₀ calls) o :=
      fun q hq => hq.elim (hlog q) (hquery q)
    exact AspNonMembership.not_satisfies_of_has hst.represents hhas (exclusion_verifier _ _)
      (hin.nonMembership 0).key htree (hc.mono hboth) (fun q hq => hn q (hboth hq))
      (hin.nonMembership 0).verifier

/-! ### A sample run -/

def sampleSites : Sites := ⟨.contract 3, .contract 4, by decide⟩

/-- The sample's key under 3 as blinding. -/
def admittedProof : MembershipProof 10 where
  leaf := zeroPoseidon2.hash2 samplePubkey (3 : ℕ) 1
  blinding := (3 : ℕ)
  pathElements l := zeroAt l
  pathIndices := 0

/-- The ban list has the key 5 and no other. -/
def absentProof : NonMembershipProof 10 where
  key := samplePubkey
  siblings _ := 0
  oldKey := 5
  oldValue := 5
  isOld0 := 0

def admittedWitness : PolicyWitness where
  input tx := { sampleInput 0 (![0, 1] tx) fun _ => 0 with
    membershipProofs := fun _ => admittedProof
    nonMembershipProofs := fun _ => absentProof }
  output tx := ⟨![(7 : ℕ), 0] tx, samplePubkey, 0⟩

/-- A deposit of 7 into the empty tree. -/
def admittedOpening : Opening :=
  ({ statement (zeroAt 10) (7 : ℕ) admittedWitness with
    membershipRoots := fun _ _ => rootOf zeroPoseidon2 10 [admittedProof.leaf]
    nonMembershipRoots := fun _ _ => zeroPoseidon2.hash2 5 5 1 }, admittedWitness)

theorem membershipProof_admitted : admittedProof.Satisfies zeroPoseidon2 samplePubkey
    (rootOf zeroPoseidon2 10 [admittedProof.leaf]) :=
  ⟨rfl, by decide +kernel, by decide +kernel⟩

theorem nonMembershipProof_absent :
    absentProof.Satisfies zeroPoseidon2 samplePubkey (zeroPoseidon2.hash2 5 5 1) where
  key := rfl
  isOld0 := by decide +kernel
  verifier := by
    refine SMTVerifier.Inputs.satisfies_of_climb_eq _ (exclusion_verifier _ _) rfl (fun _ => ?_) ?_
    · decide +kernel
    · decide +kernel

theorem satisfies_admittedOpening : admittedOpening.2.Satisfies zeroPoseidon2 admittedOpening.1 where
  input tx := by
    refine ⟨rfl, ?_, forceEqualIfEnabled_iff.mpr (Or.inl rfl), fun _ => membershipProof_admitted,
      fun _ => nonMembershipProof_absent⟩
    revert tx
    decide +kernel
  output tx := by
    refine ⟨rfl, ?_⟩
    revert tx
    decide +kernel
  sameNullifiers i j hij := by
    obtain ⟨rfl, rfl⟩ : i = 0 ∧ j = 1 := by omega
    rw [isEqual_eq]
    exact if_neg (by decide +kernel)
  invariant := by decide +kernel

/-- A verifier of the statement. -/
def admittedExternals : Externals where
  self := .contract 0
  token := sampleToken
  verify := fun _ _ xs => some (decide (xs.map (Nat.cast : ℕ → F) = admittedOpening.1.toList))
  keccakXdr := fun _ => 0

theorem policyVerifier_admitted : PolicyVerifier admittedExternals zeroPoseidon2 where
  residue _ _ xs ys heq := by
    simp only [admittedExternals, heq]
  sound _ _ xs hxs :=
    ⟨_, _, (of_decide_eq_true (Option.some.inj hxs)).symm, satisfies_admittedOpening⟩

/-- The pool of the samples and the ASP contracts. -/
def sampleLedger : Ledger where
  pool := samplePool
  aspMembership := AspMembership.deployed (.account 0) 10
  aspNonMembership := AspNonMembership.constructor (.account 0)

theorem deployed_sampleLedger : sampleLedger.Deployed where
  aspMembership := ⟨.account 0, AspMembership.constructor_apply _ (by decide) (by decide)⟩
  aspNonMembership := ⟨.account 0, rfl⟩

/-- The key of the sample is admitted, and 5 is banned. -/
def sampleCalls : List Call :=
  [.insertLeaf [.account 0] admittedProof.leaf.val, .insertKey [.account 0] 5 5]

/-- The proof of the deposit. -/
def admittedTransact : Proof :=
  { proofOf 0 admittedOpening.1 with
    aspMembershipRoot := (rootOf zeroPoseidon2 10 [admittedProof.leaf]).val
    aspNonMembershipRoot := (zeroPoseidon2.hash2 5 5 1).val }

/-- The evaluations in view, as a list. -/
def evaluationList (P : Poseidon2) (s : Ledger) (o : Opening) : List Query :=
  s.aspMembership.hashed ++ s.aspNonMembership.hashed ++
    ((List.range 10).map fun l => .compress (zeroAt l) (zeroAt l)) ++ o.2.queries P o.1

theorem evaluations_subset (P : Poseidon2) (s : Ledger) (o : Opening) :
    evaluations P s o ⊆ {q | q ∈ (evaluationList P s o).dedup} := by
  rintro q (hq | hq | ⟨l, hl, rfl⟩ | hq)
  · exact List.mem_dedup.mpr (List.mem_append_left _ (List.mem_append_left _
      (List.mem_append_left _ hq)))
  · exact List.mem_dedup.mpr (List.mem_append_left _ (List.mem_append_left _
      (List.mem_append_right _ hq)))
  · exact List.mem_dedup.mpr (List.mem_append_left _ (List.mem_append_right _
      (List.mem_map_of_mem (List.mem_range.mpr hl))))
  · exact List.mem_dedup.mpr (List.mem_append_right _ hq)

/-- The owner of the deposit's inputs was admitted, and is not banned. -/
theorem spender_admitted_sample :
    Admitted admittedExternals zeroPoseidon2 sampleSites sampleLedger sampleCalls
      (zeroPoseidon2.hash2 samplePubkey 3 1) ∧
    bannedAfter admittedExternals zeroPoseidon2 sampleSites sampleLedger sampleCalls samplePubkey =
      none := by
  have hpass : (transact admittedExternals zeroPoseidon2 [.account 1] admittedTransact
      ⟨.account 1, ⟨7, by decide⟩, [], []⟩ (.account 1)
      ((run admittedExternals zeroPoseidon2 sampleSites sampleLedger sampleCalls).chain
        sampleSites)).isOk = true := by decide +kernel
  have hclean : cleanLog zeroPoseidon2 (evaluationList zeroPoseidon2
      (run admittedExternals zeroPoseidon2 sampleSites sampleLedger sampleCalls)
      admittedOpening).dedup = true := by decide +kernel
  obtain ⟨hc, hn⟩ := collisionFree_of_cleanLog hclean
  have hsub := evaluations_subset zeroPoseidon2
    (run admittedExternals zeroPoseidon2 sampleSites sampleLedger sampleCalls) admittedOpening
  cases hr : transact admittedExternals zeroPoseidon2 [.account 1] admittedTransact
      ⟨.account 1, ⟨7, by decide⟩, [], []⟩ (.account 1)
      ((run admittedExternals zeroPoseidon2 sampleSites sampleLedger sampleCalls).chain
        sampleSites) with
  | error e =>
      rw [hr] at hpass
      exact absurd hpass Bool.false_ne_true
  | ok r =>
      have hch : AspNonMembership.ValueChanging (effects admittedExternals zeroPoseidon2 sampleSites
          (bans zeroPoseidon2) sampleLedger sampleCalls) fun _ => none := by
        have hops : effects admittedExternals zeroPoseidon2 sampleSites (bans zeroPoseidon2)
            sampleLedger sampleCalls = [.insert 5 5] := by
          rfl
        rw [hops]
        exact ⟨trivial, trivial⟩
      exact (spender_admitted policyVerifier_admitted zeroTable_zeroPoseidon2 deployed_sampleLedger
        hr (by decide +kernel) (by decide +kernel) hch).2 admittedOpening
        ⟨by decide +kernel, satisfies_admittedOpening⟩ (hc.mono hsub)
        (fun q hq => hn q (hsub hq)) (by decide +kernel) 0

end Deployment

end Enclave

import Enclave.AspNonMembership.Steps
import Enclave.Lib.Run

/-! # Runs of the contract

A run is a sequence of successful insertions, updates and deletions from the empty tree.
Collision freedom is asked of the evaluations the run made (the final `hashed`).
`Stores.run` is the run lemma: as long as no update writes the value the key already has, the
storage holds a canonical tree whose entries are the map obtained by replaying the operations. -/

namespace Enclave.AspNonMembership

open Trie

variable {P : Poseidon2}

/-! ### Calls extend the record of evaluations -/

theorem grows_storeParent (b : Bool) (sibling current : U256) :
    (storeParent P b sibling current).Grows :=
  .bind (grows_poseidon2Compress P _ _) fun _ => .bind (.modifyStore _) fun _ => .pure _

theorem grows_removeParent (b : Bool) (sibling current : U256) :
    (removeParent P b sibling current).Grows :=
  .bind (grows_poseidon2Compress P _ _) fun _ => .bind (.modifyStore _) fun _ => .pure _

theorem grows_loop {σ : Type} (loop : ℕ → List U256 → σ → Call σ) (step : ℕ → U256 → σ → Call σ)
    (hnil : ∀ i s, loop i [] s = pure s)
    (hcons : ∀ i a r s, loop i (a :: r) s = loop (i + 1) r s >>= step i a)
    (hstep : ∀ i a s, (step i a s).Grows) : ∀ (sibs : List U256) (i : ℕ) (s : σ),
      (loop i sibs s).Grows
  | [], i, s => by rw [hnil]; exact .pure s
  | a :: r, i, s => by
      rw [hcons]
      exact .bind (grows_loop loop step hnil hcons hstep r (i + 1) s) (hstep i a)

theorem grows_insertPath (keyBits : List Bool) (found : List U256) (siblingsLen : ℕ)
    (addedOne : Bool) (i : ℕ) (sibs : List U256) (s : PathState) :
    (insertPath P keyBits found siblingsLen addedOne i sibs s).Grows := by
  refine grows_loop _ (insertStep P keyBits found siblingsLen addedOne) (fun _ _ => rfl)
    (fun _ _ _ _ => rfl) (fun i a s => ?_) sibs i s
  have hrest : ∀ (rtOld : U256) (mixed : Bool), (do
      let rt ← storeParent P (← Host.unwrap keyBits[i]?) a s.rt
      return ⟨rt, rtOld, mixed⟩ : Call PathState).Grows := fun _ _ =>
    .bind (.unwrap _) fun _ => .bind (grows_storeParent _ _ _) fun _ => .pure _
  exact .ite (.bind (.unwrap _) fun _ => .bind (grows_removeParent _ _ _) fun _ => hrest _ _)
    (.bind (.pure _) fun _ => hrest _ _)

theorem grows_deletePath (keyBits : List Bool) (i : ℕ) (sibs : List U256) (s : PathState) :
    (deletePath P keyBits i sibs s).Grows := by
  refine grows_loop _ (deleteStep P keyBits) (fun _ _ => rfl) (fun _ _ _ _ => rfl)
    (fun i a s => ?_) sibs i s
  exact .bind (.unwrap _) fun _ => .bind (grows_removeParent _ _ _) fun _ =>
    .ite (.bind (grows_storeParent _ _ _) fun _ => .pure _) (.pure _)

theorem grows_updatePath (keyBits : List Bool) (i : ℕ) (sibs : List U256) (s : U256 × U256) :
    (updatePath P keyBits i sibs s).Grows := by
  refine grows_loop _ (fun i a s => updateStep P keyBits i a s.1 s.2) (fun _ _ => rfl)
    (fun _ _ _ _ => rfl) (fun i a s => ?_) sibs i s
  exact .bind (.unwrap _) fun _ => .bind (grows_poseidon2Compress P _ _) fun _ =>
    .bind (grows_poseidon2Compress P _ _) fun _ => .bind (.modifyStore _) fun _ =>
    .bind (.modifyStore _) fun _ => .pure _

theorem grows_insertLeaf (auths : List Address) (key value : U256) :
    (insertLeaf P auths key value).Grows := by
  unfold insertLeaf
  refine .bind .getStore fun store => .bind (.unwrap _) fun admin => .bind (.requireAuth _ _)
    fun _ => .bind (.ofExcept _) fun find => .ite (.fail _) ?_
  have hrest : ∀ x : List U256 × U256 × Bool × Bool, (do
      let rt ← hashLeaf P key value
      setNode rt [1, key, value]
      let s ← insertPath P (splitBits key) find.siblings x.1.length x.2.2.1 0 x.1
        ⟨rt, x.2.1, x.2.2.2⟩
      setRoot s.rt
      publish (.leafInserted key value s.rt) : Call Unit).Grows := fun x =>
    .bind (grows_poseidon2Hash2 P _ _ _) fun _ => .bind (.modifyStore _) fun _ =>
      .bind (grows_insertPath _ _ _ _ _ _ _) fun _ => .bind (.modifyStore _) fun _ =>
      .modifyStore _
  exact .ite (.bind (grows_poseidon2Hash2 P _ _ _) fun _ => .bind (.pure _) hrest)
    (.bind (.pure _) hrest)

theorem grows_deleteLeaf (auths : List Address) (key : U256) : (deleteLeaf P auths key).Grows :=
  .bind .getStore fun _ => .bind (.unwrap _) fun _ => .bind (.requireAuth _ _) fun _ =>
    .bind (.unwrap _) fun _ => .bind (.ofExcept _) fun _ => .ite (.fail _)
    (.bind (grows_poseidon2Hash2 P _ _ _) fun _ => .bind (.modifyStore _) fun _ =>
      .bind .getStore fun _ => .bind (.ofExcept _) fun _ => .bind (grows_deletePath _ _ _ _) fun _ =>
      .bind (.modifyStore _) fun _ => .modifyStore _)

theorem grows_updateLeaf (auths : List Address) (key newValue : U256) :
    (updateLeaf P auths key newValue).Grows :=
  .bind .getStore fun _ => .bind (.unwrap _) fun _ => .bind (.requireAuth _ _) fun _ =>
    .bind (.ofExcept _) fun _ => .ite (.fail _)
    (.bind (grows_poseidon2Hash2 P _ _ _) fun _ => .bind (grows_poseidon2Hash2 P _ _ _) fun _ =>
      .bind (.modifyStore _) fun _ => .bind (.modifyStore _) fun _ =>
      .bind (grows_updatePath _ _ _ _) fun _ => .bind (.modifyStore _) fun _ => .modifyStore _)

/-! ### Operations and maps -/

/-- The state-changing calls, on keys and values below the field modulus. -/
inductive Op where
  | insert (key value : F)
  | update (key newValue : F)
  | delete (key : F)

variable (P) in
def Op.call (auths : List Address) : Op → Call Unit
  | .insert key value => insertLeaf P auths key.val value.val
  | .update key newValue => updateLeaf P auths key.val newValue.val
  | .delete key => deleteLeaf P auths key.val

/-- The operation on finite maps. -/
def Op.apply : Op → (F → Option F) → F → Option F
  | .insert key value, m => Function.update m key (some value)
  | .update key newValue, m => Function.update m key (some newValue)
  | .delete key, m => Function.update m key none

/-- Insertion needs an absent key, update and deletion a present one. -/
def Op.Enabled : Op → (F → Option F) → Prop
  | .insert key _, m => m key = none
  | .update key _, m => m key ≠ none
  | .delete key, m => m key ≠ none

/-- The operation is not an update to the value the key already has. -/
def Op.ChangesValue : Op → (F → Option F) → Prop
  | .update key newValue, m => m key ≠ some newValue
  | _, _ => True

def replay (ops : List Op) (m : F → Option F) : F → Option F := ops.foldl (fun m op => op.apply m) m

/-- No update of the sequence writes the value the key already has. -/
def ValueChanging : List Op → (F → Option F) → Prop
  | [], _ => True
  | op :: ops, m => op.ChangesValue m ∧ ValueChanging ops (op.apply m)

variable (P) in
/-- A successful call. -/
def Step (env : Env Store) (op : Op) (env' : Env Store) : Prop :=
  ∃ auths, op.call P auths env = .ok ((), env')

theorem Step.hashed_subset {env env' : Env Store} {op : Op} (h : Step P env op env') :
    env.hashed ⊆ env'.hashed := by
  obtain ⟨auths, h⟩ := h
  cases op with
  | insert key value => exact grows_insertLeaf _ _ _ h
  | update key newValue => exact grows_updateLeaf _ _ _ h
  | delete key => exact grows_deleteLeaf _ _ h

theorem hashed_subset_of_run {env env' : Env Store} {ops : List Op}
    (h : Run (Step P) env ops env') : env.hashed ⊆ env'.hashed :=
  h.invariant (I := fun e => env.hashed ⊆ e.hashed)
    (fun _ _ _ hI hs => List.Subset.trans hI hs.hashed_subset) (List.Subset.refl _)

/-! ### The state a run leads to -/

/-- The storage holds the tree `t` with the entries of `m` and the node entries of `S`. -/
structure Stores (P : Poseidon2) (admin : Address) (env : Env Store) (t : Tree) (S : Set Tree)
    (m : F → Option F) : Prop where
  represents : Represents P env t S
  models : ∀ k v, t.Has k v ↔ m k = some v
  admin_eq : env.store.admin = some admin

variable {admin : Address} {env env' : Env Store} {t : Tree} {S : Set Tree} {m : F → Option F}

theorem stores_constructor (P : Poseidon2) (admin : Address) :
    Stores P admin (constructor admin) .empty ∅ fun _ => none where
  represents := ⟨trivial, by rw [address_empty]; rfl, by simp [Realises, constructor], by simp,
    by simp [subtries]⟩
  models := by simp
  admin_eq := rfl

theorem Stores.not_has (h : Stores P admin env t S m) {k : F} (hk : m k = none) (w : F) :
    ¬ t.Has k w := by
  rw [h.models, hk]
  simp

theorem Stores.has (h : Stores P admin env t S m) {k : F} (hk : m k ≠ none) :
    ∃ v, t.Has k v ∧ m k = some v := by
  obtain ⟨v, hv⟩ := Option.ne_none_iff_exists'.mp hk
  exact ⟨v, (h.models k v).mpr hv, hv⟩

theorem Stores.call_ok_iff (h : Stores P admin env t S m) (hsep : Separated P env)
    {auths : List Address} (hauth : admin ∈ auths) (op : Op) :
    (∃ env', op.call P auths env = .ok ((), env')) ↔ op.Enabled m := by
  cases op with
  | insert k v =>
      by_cases hk : m k = none
      · have := insertLeaf_apply h.represents hsep h.admin_eq hauth (v := v) (h.not_has hk)
        exact ⟨fun _ => hk, fun _ => ⟨_, this⟩⟩
      · obtain ⟨w, hw, -⟩ := h.has hk
        have := insertLeaf_of_has h.represents hsep h.admin_eq hauth hw v.val
        exact ⟨fun ⟨env', he⟩ => absurd (this.symm.trans he) (by simp), fun he => absurd he hk⟩
  | update k v =>
      by_cases hk : m k = none
      · have := updateLeaf_of_not_has h.represents hsep h.admin_eq hauth (h.not_has hk) v.val
        exact ⟨fun ⟨env', he⟩ => absurd (this.symm.trans he) (by simp), fun he => absurd hk he⟩
      · obtain ⟨w, hw, -⟩ := h.has hk
        have := updateLeaf_apply h.represents hsep h.admin_eq hauth hw v
        exact ⟨fun _ => hk, fun _ => ⟨_, this⟩⟩
  | delete k =>
      by_cases hk : m k = none
      · have := deleteLeaf_of_not_has h.represents hsep h.admin_eq hauth (h.not_has hk)
        exact ⟨fun ⟨env', he⟩ => absurd (this.symm.trans he) (by simp), fun he => absurd hk he⟩
      · obtain ⟨w, hw, -⟩ := h.has hk
        have := deleteLeaf_apply h.represents hsep h.admin_eq hauth hw
        exact ⟨fun _ => hk, fun _ => ⟨_, this⟩⟩

theorem mem_of_call_ok (hadmin : env.store.admin = some admin) {auths : List Address} {op : Op}
    (hcall : op.call P auths env = .ok ((), env')) : admin ∈ auths := by
  by_contra hno
  have hauth : (Host.requireAuth auths admin : Call Unit) env = .error (.panic "require_auth") := by
    simp only [Host.requireAuth, if_neg hno]
    rfl
  cases op <;>
    simp only [Op.call, insertLeaf, updateLeaf, deleteLeaf, Host.bind_of_ok (Host.getStore_apply env),
      hadmin, Host.bind_of_ok (Host.unwrap_some admin env), Host.bind_of_error hauth,
      reduceCtorEq] at hcall

/-- The operation deletes a leaf whose last sibling is a leaf, which is promoted. -/
def Op.PromotesIn (t : Tree) : Op → Prop
  | .delete k => ∃ a b, (walk (keyBit k) 0 t).1.getLast? = some (.leaf a b)
  | _ => False

/-- The state after an insertion of `(k, v)`. -/
def afterInsert (P : Poseidon2) (k v : F) (t : Tree) (env : Env Store) : Env Store :=
  commit P (insertTree k v t) (.leafInserted k.val v.val) (runAll P (insertTrace k v t) env)

/-- The state after an update of `k` from `w` to `v`. -/
def afterUpdate (P : Poseidon2) (k w v : F) (t : Tree) (env : Env Store) : Env Store :=
  commit P (updateTree k v t) (.leafUpdated k.val w.val v.val) (runAll P (updateTrace k w v t) env)

/-- The state after a deletion of `(k, v)`. -/
def afterDelete (P : Poseidon2) (k v : F) (t : Tree) (env : Env Store) : Env Store :=
  commit P (deleteTree k t) (.leafDeleted k.val) (runAll P (deleteTrace k v t) env)

theorem Stores.insert (h : Stores P admin env t S m) {k v : F} (hk : m k = none)
    (hsep : Separated P (afterInsert P k v t env)) :
    Stores P admin (afterInsert P k v t env) (insertTree k v t)
      (storedAfter (insertTrace k v t) S) (Function.update m k (some v)) where
  represents := h.represents.insert (h.not_has hk) _ hsep
  models a b := by
    rw [has_insertTree, h.models]
    rcases eq_or_ne a k with rfl | hne
    · simp [hk]
    · simp [Function.update_of_ne hne, hne.symm]
  admin_eq := (runAll_frame P _ env).1.trans h.admin_eq

theorem Stores.update (h : Stores P admin env t S m) {k v w : F} (hk : m k = some w) (hne : w ≠ v)
    (hsep : Separated P (afterUpdate P k w v t env)) :
    Stores P admin (afterUpdate P k w v t env) (updateTree k v t)
      (storedAfter (updateTrace k w v t) S) (Function.update m k (some v)) where
  represents := h.represents.update ((h.models k w).mpr hk) hne _ hsep
  models a b := by
    rw [has_updateTree h.represents.canon ((h.models k w).mpr hk), h.models]
    rcases eq_or_ne a k with rfl | hne
    · simp
    · simp [Function.update_of_ne hne, hne.symm]
  admin_eq := (runAll_frame P _ env).1.trans h.admin_eq

theorem Stores.delete (h : Stores P admin env t S m) {k w : F} (hk : m k = some w)
    (hsep : Separated P (afterDelete P k w t env)) :
    Stores P admin (afterDelete P k w t env) (deleteTree k t)
      (storedAfter (deleteTrace k w t) S) (Function.update m k none) where
  represents := h.represents.delete ((h.models k w).mpr hk) _ hsep
  models a b := by
    rw [has_deleteTree h.represents.canon ((h.models k w).mpr hk), h.models]
    rcases eq_or_ne a k with rfl | hne
    · simp
    · simp [Function.update_of_ne hne, hne.symm]
  admin_eq := (runAll_frame P _ env).1.trans h.admin_eq

/-- **Step lemma**: a successful call that changes the value takes the stored tree to a tree
with the entries of the new map, and the storage stays exact unless a leaf was promoted. -/
theorem Stores.step (h : Stores P admin env t S m) {op : Op} (hstep : Step P env op env')
    (hch : op.ChangesValue m) (hsep : Separated P env') :
    op.Enabled m ∧ ∃ t' S', Stores P admin env' t' S' (op.apply m) ∧
      (S = {u | u ∈ t.subtries} → ¬ op.PromotesIn t → S' = {u | u ∈ t'.subtries}) := by
  have hsep₀ : Separated P env := hsep.mono hstep.hashed_subset
  obtain ⟨auths, hcall⟩ := hstep
  have hauth := mem_of_call_ok h.admin_eq hcall
  have hen := (h.call_ok_iff hsep₀ hauth op).mp ⟨env', hcall⟩
  refine ⟨hen, ?_⟩
  cases op with
  | insert k v =>
      have hk := h.not_has hen
      rw [Op.call, insertLeaf_apply h.represents hsep₀ h.admin_eq hauth hk] at hcall
      obtain rfl := (Prod.mk.inj (Except.ok.inj hcall)).2
      refine ⟨insertTree k v t, _, h.insert hen hsep, fun hS _ => ?_⟩
      rw [hS, storedAfter_insertTrace h.represents.canon hk]
  | update k v =>
      obtain ⟨w, hw, hmw⟩ := h.has hen
      have hne : w ≠ v := by
        rintro rfl
        exact hch hmw
      rw [Op.call, updateLeaf_apply h.represents hsep₀ h.admin_eq hauth hw] at hcall
      obtain rfl := (Prod.mk.inj (Except.ok.inj hcall)).2
      refine ⟨updateTree k v t, _, h.update hmw hne hsep, fun hS _ => ?_⟩
      rw [hS, storedAfter_updateTrace h.represents.canon hw hne]
  | delete k =>
      obtain ⟨w, hw, hmw⟩ := h.has hen
      rw [Op.call, deleteLeaf_apply h.represents hsep₀ h.admin_eq hauth hw] at hcall
      obtain rfl := (Prod.mk.inj (Except.ok.inj hcall)).2
      refine ⟨deleteTree k t, _, h.delete hmw hsep, fun hS hprom => ?_⟩
      rw [hS, storedAfter_deleteTrace h.represents.canon hw fun a b he => hprom ⟨a, b, he⟩]

/-- **Run lemma.** -/
theorem Stores.run {ops : List Op} (h : Stores P admin env t S m)
    (hrun : Run (Step P) env ops env') (hch : ValueChanging ops m) (hsep : Separated P env') :
    ∃ t' S', Stores P admin env' t' S' (replay ops m) := by
  obtain ⟨hrun', -⟩ := hrun.restrict (fun _ _ _ hs hq => hq.mono hs.hashed_subset) hsep
  clear hrun hsep
  induction hrun' generalizing t S m with
  | nil env => exact ⟨t, S, h⟩
  | cons hs _ ih =>
      obtain ⟨-, t₁, S₁, h₁, -⟩ := h.step hs.1 hch.1 hs.2
      exact ih h₁ hch.2

end Enclave.AspNonMembership

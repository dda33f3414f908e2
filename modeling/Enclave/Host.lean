import Mathlib

/-! # Field elements, host calls and Poseidon2

The contracts run on 256-bit words (`U256`, natural numbers here: no operation they perform on
words exceeds 256 bits), the circuits and the browser on the BN254 scalar field `F`.

A contract call is a computation in `Host`: it reads and writes the contract's storage and ends
in a value, in the contract's own error or in a trap.  Storage written before a failure is
dropped, as the host rolls a failed call back.  `Env.hashed` is a ghost record of the Poseidon2
evaluations made so far; no contract reads it.  It is there to say what collision freedom is
asked of: the inputs that were hashed, not all pairs of field elements, of which there are more
than digests.

The permutation is the host's and the libraries' (`poseidon2_permutation`, `zkhash`, and the
`Permutation` template, with the round constants the repository fixes); it is a parameter here,
the same one on the three sides. -/

namespace Enclave

/-- `BN256_MOD_BYTES` as an integer. -/
def bn256Modulus : ℕ := 0x30644e72e131a029b85045b68181585d2833e84879b9709143e1f593f0000001

/-- 256-bit words. -/
abbrev U256 := ℕ

/-- The scalar field of BN254 (`Fr`, `Scalar`, circuit signals). -/
abbrev F := ZMod bn256Modulus

instance : NeZero bn256Modulus := ⟨by decide⟩

instance : Fact (1 < bn256Modulus) := ⟨by decide⟩

/-- Account and contract addresses. -/
inductive Address where
  | account (id : ℕ)
  | contract (id : ℕ)
deriving DecidableEq, Repr

theorem F.val_lt (a : F) : a.val < bn256Modulus := ZMod.val_lt a

@[simp] theorem F.natCast_val (a : F) : ((a.val : ℕ) : F) = a := ZMod.natCast_zmod_val a

theorem F.val_natCast_of_lt {n : ℕ} (h : n < bn256Modulus) : ((n : ℕ) : F).val = n :=
  ZMod.val_cast_of_lt h

theorem F.val_injective : Function.Injective (ZMod.val : F → ℕ) := ZMod.val_injective _

@[simp] theorem F.val_inj {a b : F} : a.val = b.val ↔ a = b := F.val_injective.eq_iff

@[simp] theorem F.val_eq_zero_iff {a : F} : a.val = 0 ↔ a = 0 := ZMod.val_eq_zero a

theorem bn256Modulus_lt : bn256Modulus < 2 ^ 254 := by decide

/-! ### Host calls -/

/-- How a contract call fails: with the contract's error, or with a trap. -/
inductive Fault (ε : Type) where
  | error (e : ε)
  | panic (message : String)
deriving DecidableEq, Repr

/-- A Poseidon2 evaluation: the input of one compression or hash. -/
inductive Query where
  | compress (left right : F)
  | hash2 (a b sep : F)
  | hash3 (a b c sep : F)
deriving DecidableEq

/-- A contract's storage with the record of the evaluations made so far. -/
structure Env (σ : Type) where
  store : σ
  hashed : List Query

/-- Contract calls over storage `σ` with contract errors `ε`. -/
abbrev Host (σ ε α : Type) := StateT (Env σ) (Except (Fault ε)) α

namespace Host

variable {σ ε α β : Type}

def fail (e : ε) : Host σ ε α := throw (.error e)

def panic (message : String) : Host σ ε α := throw (.panic message)

def getStore : Host σ ε σ := do return (← get).store

def modifyStore (f : σ → σ) : Host σ ε Unit := modify fun e => { e with store := f e.store }

/-- `Option::unwrap`. -/
def unwrap : Option α → Host σ ε α
  | some a => pure a
  | none => Host.panic "called `Option::unwrap()` on a `None` value"

/-- `Option::ok_or`. -/
def okOr (e : ε) : Option α → Host σ ε α
  | some a => pure a
  | none => fail e

/-- `Address::require_auth`: the call must carry the address's authorisation. -/
def requireAuth (auths : List Address) (a : Address) : Host σ ε Unit :=
  if a ∈ auths then pure () else Host.panic "require_auth"

def logQuery (q : Query) : Host σ ε Unit := modify fun e => { e with hashed := q :: e.hashed }

/-- A computation that leaves the environment alone. -/
def ofExcept (r : Except (Fault ε) α) : Host σ ε α := fun env => r.map fun a => (a, env)

/-- The environment after a call; a failed call leaves it as it was. -/
def after (m : Host σ ε α) (env : Env σ) : Env σ :=
  match m env with
  | .ok (_, env') => env'
  | .error _ => env

/-- A call on a part of the storage, with the part's errors. -/
def zoom {τ ε' : Type} (part : σ → τ) (setPart : τ → σ → σ) (err : ε → ε') (m : Host τ ε α) :
    Host σ ε' α := fun env =>
  match m ⟨part env.store, env.hashed⟩ with
  | .ok (a, e) => .ok (a, ⟨setPart e.store env.store, e.hashed⟩)
  | .error (.error e) => .error (.error (err e))
  | .error (.panic message) => .error (.panic message)

/-! A call that succeeds in `env` is replaced by its result. -/

@[simp] theorem pure_apply (a : α) (env : Env σ) :
    (pure a : Host σ ε α) env = .ok (a, env) := rfl

theorem bind_apply (m : Host σ ε α) (f : α → Host σ ε β) (env : Env σ) :
    (m >>= f) env = (m env).bind fun p => f p.1 p.2 := rfl

theorem bind_of_ok {m : Host σ ε α} {env env' : Env σ} {a : α} (h : m env = .ok (a, env'))
    (f : α → Host σ ε β) : (m >>= f) env = f a env' := by
  rw [bind_apply, h]; rfl

theorem bind_of_error {m : Host σ ε α} {env : Env σ} {e : Fault ε} (h : m env = .error e)
    (f : α → Host σ ε β) : (m >>= f) env = .error e := by
  rw [bind_apply, h]; rfl

theorem bind_eq_ok {m : Host σ ε α} {f : α → Host σ ε β} {env env' : Env σ} {b : β} :
    (m >>= f) env = .ok (b, env') ↔
      ∃ a env₁, m env = .ok (a, env₁) ∧ f a env₁ = .ok (b, env') := by
  rw [bind_apply]
  constructor
  · intro h
    cases hm : m env with
    | error e => rw [hm] at h; cases h
    | ok p =>
        rw [hm] at h
        exact ⟨p.1, p.2, rfl, h⟩
  · rintro ⟨a, env₁, hm, hf⟩
    rw [hm]
    exact hf

theorem okOr_eq_ok {e : ε} {o : Option α} {env env' : Env σ} {a : α} :
    (okOr e o : Host σ ε α) env = .ok (a, env') ↔ o = some a ∧ env' = env := by
  cases o with
  | none =>
      constructor
      · intro h; cases h
      · rintro ⟨h, -⟩; cases h
  | some b =>
      constructor
      · intro h; cases h; exact ⟨rfl, rfl⟩
      · rintro ⟨h, rfl⟩; cases h; rfl

theorem unwrap_eq_ok {o : Option α} {env env' : Env σ} {a : α} :
    (unwrap o : Host σ ε α) env = .ok (a, env') ↔ o = some a ∧ env' = env := by
  cases o with
  | none =>
      constructor
      · intro h; cases h
      · rintro ⟨h, -⟩; cases h
  | some b =>
      constructor
      · intro h; cases h; exact ⟨rfl, rfl⟩
      · rintro ⟨h, rfl⟩; cases h; rfl

theorem requireAuth_eq_ok {auths : List Address} {a : Address} {env env' : Env σ} :
    (requireAuth auths a : Host σ ε Unit) env = .ok ((), env') ↔ a ∈ auths ∧ env' = env := by
  unfold requireAuth
  split_ifs with h
  · constructor
    · intro he; cases he; exact ⟨h, rfl⟩
    · rintro ⟨-, rfl⟩; rfl
  · constructor
    · intro he; cases he
    · rintro ⟨h', -⟩; exact absurd h' h

theorem zoom_eq_ok {τ ε' : Type} {part : σ → τ} {setPart : τ → σ → σ} {err : ε → ε'}
    {m : Host τ ε α} {env env' : Env σ} {a : α} :
    zoom part setPart err m env = .ok (a, env') ↔
      ∃ e, m ⟨part env.store, env.hashed⟩ = .ok (a, e) ∧
        env' = ⟨setPart e.store env.store, e.hashed⟩ := by
  unfold zoom
  cases m ⟨part env.store, env.hashed⟩ with
  | error e =>
      constructor
      · intro h; cases e <;> cases h
      · rintro ⟨e', h, -⟩; cases h
  | ok p =>
      constructor
      · intro h; cases h; exact ⟨p.2, rfl, rfl⟩
      · rintro ⟨e, h, rfl⟩; cases h; rfl

theorem after_of_ok {m : Host σ ε α} {env env' : Env σ} {a : α} (h : m env = .ok (a, env')) :
    m.after env = env' := by
  rw [after, h]

theorem after_of_error {m : Host σ ε α} {env : Env σ} {e : Fault ε} (h : m env = .error e) :
    m.after env = env := by
  rw [after, h]

@[simp] theorem getStore_apply (env : Env σ) :
    (getStore : Host σ ε σ) env = .ok (env.store, env) := rfl

@[simp] theorem modifyStore_apply (f : σ → σ) (env : Env σ) :
    (modifyStore f : Host σ ε Unit) env = .ok ((), { env with store := f env.store }) := rfl

@[simp] theorem logQuery_apply (q : Query) (env : Env σ) :
    (logQuery q : Host σ ε Unit) env = .ok ((), { env with hashed := q :: env.hashed }) := rfl

@[simp] theorem unwrap_some (a : α) (env : Env σ) :
    (unwrap (some a) : Host σ ε α) env = .ok (a, env) := rfl

@[simp] theorem okOr_some (e : ε) (a : α) (env : Env σ) :
    (okOr e (some a) : Host σ ε α) env = .ok (a, env) := rfl

@[simp] theorem fail_apply (e : ε) (env : Env σ) :
    (fail e : Host σ ε α) env = .error (.error e) := rfl

@[simp] theorem ofExcept_ok (a : α) (env : Env σ) :
    (ofExcept (.ok a) : Host σ ε α) env = .ok (a, env) := rfl

@[simp] theorem ofExcept_error (e : Fault ε) (env : Env σ) :
    (ofExcept (.error e) : Host σ ε α) env = .error e := rfl

/-! A call that succeeds extends the record of evaluations. -/

/-- Evaluations are recorded and never forgotten. -/
def Grows (m : Host σ ε α) : Prop :=
  ∀ ⦃env a env'⦄, m env = .ok (a, env') → env.hashed ⊆ env'.hashed

theorem Grows.bind {m : Host σ ε α} {f : α → Host σ ε β} (hm : Grows m) (hf : ∀ a, Grows (f a)) :
    Grows (m >>= f) := by
  intro env b env' h
  rw [bind_apply] at h
  cases hr : m env with
  | error e => rw [hr] at h; cases h
  | ok p =>
      rw [hr] at h
      exact fun q hq => hf p.1 h (hm hr hq)

theorem Grows.pure (a : α) : Grows (pure a : Host σ ε α) := by
  intro env b env' h
  cases h
  exact fun _ hq => hq

theorem Grows.ofExcept (r : Except (Fault ε) α) : Grows (ofExcept r : Host σ ε α) := by
  intro env b env' h
  cases r <;> cases h
  exact fun _ hq => hq

theorem Grows.fail (e : ε) : Grows (fail e : Host σ ε α) := by
  intro env b env' h
  cases h

theorem Grows.panic (message : String) : Grows (panic message : Host σ ε α) := by
  intro env b env' h
  cases h

theorem Grows.getStore : Grows (getStore : Host σ ε σ) := by
  intro env b env' h
  cases h
  exact fun _ hq => hq

theorem Grows.modifyStore (f : σ → σ) : Grows (modifyStore f : Host σ ε Unit) := by
  intro env b env' h
  cases h
  exact fun _ hq => hq

theorem Grows.logQuery (q : Query) : Grows (logQuery q : Host σ ε Unit) := by
  intro env b env' h
  cases h
  exact fun _ hq => List.mem_cons_of_mem _ hq

theorem Grows.unwrap (o : Option α) : Grows (unwrap o : Host σ ε α) := by
  cases o
  · exact Grows.panic _
  · exact Grows.pure _

theorem Grows.requireAuth (auths : List Address) (a : Address) :
    Grows (requireAuth auths a : Host σ ε Unit) := by
  unfold Host.requireAuth
  split_ifs
  · exact Grows.pure _
  · exact Grows.panic _

theorem Grows.ite {c : Prop} [Decidable c] {m m' : Host σ ε α} (hm : Grows m) (hm' : Grows m') :
    Grows (if c then m else m') := by
  split_ifs
  · exact hm
  · exact hm'

/-! A call that succeeds may leave a part of the storage alone. -/

/-- `part` of the storage stays as it is. -/
def Fixes {τ : Type} (part : σ → τ) (m : Host σ ε α) : Prop :=
  ∀ ⦃env a env'⦄, m env = .ok (a, env') → part env'.store = part env.store

section Fixes

variable {τ : Type} {part : σ → τ}

theorem Fixes.bind {m : Host σ ε α} {f : α → Host σ ε β} (hm : Fixes part m)
    (hf : ∀ a, Fixes part (f a)) : Fixes part (m >>= f) := by
  intro env b env' h
  obtain ⟨a, env₁, hfirst, hrest⟩ := bind_eq_ok.mp h
  exact (hf a hrest).trans (hm hfirst)

theorem Fixes.pure (a : α) : Fixes part (pure a : Host σ ε α) := by
  intro env b env' h
  cases h
  rfl

theorem Fixes.fail (e : ε) : Fixes part (fail e : Host σ ε α) := by
  intro env b env' h
  cases h

theorem Fixes.panic (message : String) : Fixes part (panic message : Host σ ε α) := by
  intro env b env' h
  cases h

theorem Fixes.okOr (e : ε) : ∀ o : Option α, Fixes part (okOr e o : Host σ ε α)
  | none => Fixes.fail e
  | some a => Fixes.pure a

theorem Fixes.getStore : Fixes part (getStore : Host σ ε σ) := by
  intro env b env' h
  cases h
  rfl

theorem Fixes.modifyStore {f : σ → σ} (hf : ∀ s, part (f s) = part s) :
    Fixes part (modifyStore f : Host σ ε Unit) := by
  intro env b env' h
  cases h
  exact hf env.store

theorem Fixes.logQuery (q : Query) : Fixes part (logQuery q : Host σ ε Unit) := by
  intro env b env' h
  cases h
  rfl

theorem Fixes.ite {c : Prop} [Decidable c] {m m' : Host σ ε α} (hm : Fixes part m)
    (hm' : Fixes part m') : Fixes part (if c then m else m') := by
  split_ifs
  · exact hm
  · exact hm'

end Fixes

theorem requireAuth_of_mem {auths : List Address} {a : Address} (h : a ∈ auths) (env : Env σ) :
    (requireAuth auths a : Host σ ε Unit) env = .ok ((), env) := by
  simp [requireAuth, h]

end Host

end Enclave

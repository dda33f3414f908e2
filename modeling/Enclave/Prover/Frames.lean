import Enclave.Prover.MerkleComplete

/-! # What a method leaves alone

`Keeps R m`: whatever comes of a method, the states before and after it are related.
`Simulates R m m'`: two methods do the same to related states.  The rules follow the ways in which
methods are put together. -/

namespace Enclave.Prover.Wasm

variable {σ α β : Type}

/-- The states before and after are related, also if the method fails. -/
def Keeps (R : σ → σ → Prop) (m : Wasm σ α) : Prop := ∀ s, R s (m.exec s).2

variable {R : σ → σ → Prop}

section Reflexive

variable (hrefl : ∀ s, R s s)

include hrefl

theorem keeps_pure (a : α) : Keeps R (pure a : Wasm σ α) := hrefl

theorem keeps_throw (e : Fault String) : Keeps R (throw e : Wasm σ α) := hrefl

theorem keeps_get : Keeps R (get : Wasm σ σ) := hrefl

theorem keeps_ofResult (r : Result α) : Keeps R (ofResult r : Wasm σ α) := by
  cases r with
  | error e => exact keeps_throw hrefl e
  | ok a => exact keeps_pure hrefl a

end Reflexive

theorem keeps_modify {f : σ → σ} (h : ∀ s, R s (f s)) : Keeps R (modify f : Wasm σ PUnit) := h

theorem keeps_bind (htrans : ∀ s₁ s₂ s₃, R s₁ s₂ → R s₂ s₃ → R s₁ s₃) {m : Wasm σ α}
    {f : α → Wasm σ β} (hm : Keeps R m) (hf : ∀ a, Keeps R (f a)) : Keeps R (m >>= f) := by
  intro s
  have hfirst := hm s
  cases hexec : m.exec s with
  | mk r s₁ =>
      rw [hexec] at hfirst
      cases r with
      | error e =>
          rw [exec_bind_of_error hexec]
          exact hfirst
      | ok a =>
          rw [exec_bind_of_ok hexec]
          exact htrans _ _ _ hfirst (hf a s₁)

theorem exec_ofResult_eq_ok {r : Result α} {s s' : σ} {a : α} :
    (ofResult r : Wasm σ α).exec s = (.ok a, s') ↔ r = .ok a ∧ s' = s := by
  cases r with
  | error e =>
      constructor
      · intro h
        cases h
      · rintro ⟨h, -⟩
        cases h
  | ok b =>
      constructor
      · intro h
        cases h
        exact ⟨rfl, rfl⟩
      · rintro ⟨h, rfl⟩
        cases h
        rfl

theorem exec_tryCatch_of_ok {m : Wasm σ α} {s s' : σ} {a : α} (h : m.exec s = (.ok a, s'))
    (handler : Fault String → Wasm σ α) : (tryCatch m handler).exec s = (.ok a, s') := by
  have hm : m s = pure (.ok a, s') := h
  simp [exec, ExceptT.run, StateT.run, tryCatch, tryCatchThe, MonadExceptOf.tryCatch,
    ExceptT.tryCatch, ExceptT.mk, bind, StateT.bind, hm]
  rfl

/-! ### Two methods -/

variable {σ' α' β' : Type} {R' : σ → σ' → Prop}

/-- From related states both methods return, or both fail, and leave related states. -/
def Simulates (R' : σ → σ' → Prop) (m : Wasm σ α) (m' : Wasm σ' α') : Prop :=
  ∀ s s', R' s s' → (m.exec s).1.isOk = (m'.exec s').1.isOk ∧ R' (m.exec s).2 (m'.exec s').2

theorem simulates_pure (a : α) (a' : α') :
    Simulates R' (pure a : Wasm σ α) (pure a' : Wasm σ' α') := fun _ _ h => ⟨rfl, h⟩

theorem simulates_throw (e e' : Fault String) :
    Simulates R' (throw e : Wasm σ α) (throw e' : Wasm σ' α') := fun _ _ h => ⟨rfl, h⟩

theorem simulates_bind {m : Wasm σ α} {m' : Wasm σ' α'} {f : α → Wasm σ β} {f' : α' → Wasm σ' β'}
    (hm : Simulates R' m m') (hf : ∀ a a', Simulates R' (f a) (f' a')) :
    Simulates R' (m >>= f) (m' >>= f') := by
  intro s s' h
  obtain ⟨hok, hR⟩ := hm s s' h
  cases hexec : m.exec s with
  | mk r s₁ =>
      cases hexec' : m'.exec s' with
      | mk r' s₁' =>
          rw [hexec, hexec'] at hok hR
          cases r with
          | error e =>
              cases r' with
              | error e' =>
                  rw [exec_bind_of_error hexec, exec_bind_of_error hexec']
                  exact ⟨rfl, hR⟩
              | ok a' => cases hok
          | ok a =>
              cases r' with
              | error e' => cases hok
              | ok a' =>
                  rw [exec_bind_of_ok hexec, exec_bind_of_ok hexec']
                  exact hf a a' s₁ s₁' hR

end Enclave.Prover.Wasm

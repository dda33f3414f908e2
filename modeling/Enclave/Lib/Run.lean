import Mathlib

/-! # Runs of a labelled transition system

`Run step s ls s'` is a finite run from `s` to `s'` with labels `ls`.  A property that every step
keeps holds at the end (`Run.invariant`); a property that is inherited by the past, such as a
statement about a growing record, may be assumed of every state on the way if it holds at the end
(`Run.restrict`). -/

namespace Enclave

variable {σ ι : Type*}

/-- Finite runs. -/
inductive Run (step : σ → ι → σ → Prop) : σ → List ι → σ → Prop
  | nil (s : σ) : Run step s [] s
  | cons {s s₁ s₂ : σ} {l : ι} {ls : List ι} :
      step s l s₁ → Run step s₁ ls s₂ → Run step s (l :: ls) s₂

namespace Run

variable {step step' : σ → ι → σ → Prop} {s s' s'' : σ} {ls ls' : List ι}

theorem mono (h : ∀ s l s', step s l s' → step' s l s') (hrun : Run step s ls s') :
    Run step' s ls s' := by
  induction hrun with
  | nil s => exact nil s
  | cons hs _ ih => exact cons (h _ _ _ hs) ih

theorem single {l : ι} (h : step s l s') : Run step s [l] s' := cons h (nil s')

theorem append (h : Run step s ls s') (h' : Run step s' ls' s'') : Run step s (ls ++ ls') s'' := by
  induction h with
  | nil s => exact h'
  | cons hs _ ih => exact cons hs (ih h')

theorem of_append : ∀ {ls : List ι} {s : σ}, Run step s (ls ++ ls') s'' →
    ∃ s', Run step s ls s' ∧ Run step s' ls' s''
  | [], s, h => ⟨s, nil s, h⟩
  | _ :: _, _, .cons hs h => by
      obtain ⟨s', h₁, h₂⟩ := of_append h
      exact ⟨s', cons hs h₁, h₂⟩

theorem with_labels {P : ι → Prop} (hrun : Run step s ls s') (h : ∀ l ∈ ls, P l) :
    Run (fun s l s' => step s l s' ∧ P l) s ls s' := by
  induction hrun with
  | nil s => exact nil s
  | cons hs _ ih =>
      exact cons ⟨hs, h _ List.mem_cons_self⟩ (ih fun l hl => h l (List.mem_cons_of_mem _ hl))

/-- **Invariants**: what every step keeps, a run keeps. -/
theorem invariant {I : σ → Prop} (hstep : ∀ s l s', I s → step s l s' → I s') (h0 : I s)
    (hrun : Run step s ls s') : I s' := by
  induction hrun with
  | nil s => exact h0
  | cons hs _ ih => exact ih (hstep _ _ _ h0 hs)

/-- What holds at the end and is inherited by the past holds at every state on the way. -/
theorem restrict {Q : σ → Prop} (hpast : ∀ s l s', step s l s' → Q s' → Q s)
    (hrun : Run step s ls s') (hend : Q s') :
    Run (fun s l s' => step s l s' ∧ Q s') s ls s' ∧ Q s := by
  induction hrun with
  | nil s => exact ⟨nil s, hend⟩
  | cons hs _ ih =>
      obtain ⟨hrun', hq⟩ := ih hend
      exact ⟨cons ⟨hs, hq⟩ hrun', hpast _ _ _ hs hq⟩

/-- The run that a partial function makes. -/
def exec (next : σ → ι → Option σ) : σ → List ι → Option σ
  | s, [] => some s
  | s, l :: ls => (next s l).bind fun s' => exec next s' ls

theorem of_exec {next : σ → ι → Option σ} : ∀ {ls : List ι} {s : σ}, exec next s ls = some s' →
    Run (fun s l s' => next s l = some s') s ls s'
  | [], s, h => by
      rw [← Option.some.inj h]
      exact nil s
  | l :: ls, s, h => by
      obtain ⟨s₁, hnext, hrest⟩ := Option.bind_eq_some_iff.mp h
      exact cons hnext (of_exec hrest)

end Run

/-! ### Processes in a list

One is started, or one of them is replaced by its next state. -/

theorem getElem?_snoc {α : Type*} {l : List α} {a b : α} {j : ℕ} :
    (l ++ [a])[j]? = some b ↔ l[j]? = some b ∨ j = l.length ∧ a = b := by
  rw [List.getElem?_append]
  split
  · rename_i hlt
    exact ⟨.inl, fun h => h.elim id fun h => absurd h.1 (by omega)⟩
  · rename_i hge
    rw [List.getElem?_eq_none (l := l) (by omega), List.getElem?_singleton]
    constructor
    · intro h
      split at h
      · exact .inr ⟨by omega, Option.some.inj h⟩
      · cases h
    · intro h
      obtain h | ⟨hj, rfl⟩ := h
      · cases h
      · rw [if_pos (by omega)]

theorem getElem?_set_some {α : Type*} {l : List α} {a b c : α} {i j : ℕ} (hi : l[i]? = some a) :
    (l.set i b)[j]? = some c ↔ j = i ∧ b = c ∨ j ≠ i ∧ l[j]? = some c := by
  obtain ⟨hlt, -⟩ := List.getElem?_eq_some_iff.mp hi
  rw [List.getElem?_set]
  by_cases hij : i = j
  · subst hij
    rw [if_pos rfl, if_pos hlt, Option.some.injEq]
    exact ⟨fun h => .inl ⟨rfl, h⟩, fun h => h.elim (·.2) fun h => absurd rfl h.1⟩
  · rw [if_neg hij]
    exact ⟨fun h => .inr ⟨Ne.symm hij, h⟩, fun h => h.elim (fun h => absurd h.1.symm hij) (·.2)⟩

end Enclave

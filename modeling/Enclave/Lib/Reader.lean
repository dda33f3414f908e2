import Mathlib

/-! # Readers

A reader takes values off a byte string, from a position on.  Two properties compose over `bind`
and over counted loops (`readMany`):

* `Reads m bytes a`: wherever `bytes` stand, `m` yields `a` and stops behind them;
* `Local m`: whatever `m` yields, it read off the bytes it passed and off no others.

Both speak of byte strings up to a length, since a reader may refuse positions that its machine
cannot count.  For a local reader, decoding from a part of the input alone is a matter of where it
stops (`Local.alone_iff`). -/

namespace Enclave

/-- Readers that fail with `ε`: the input, then the position, before and after. -/
abbrev Reader (ε α : Type) := ReaderT (List UInt8) (StateT ℕ (Except ε)) α

namespace Reader

variable {ε α β : Type} {m : Reader ε α} {f : α → Reader ε β} {data : List UInt8}

theorem bind_apply (pos : ℕ) :
    (m >>= f) data pos = (m data pos >>= fun p => f p.1 data p.2) := rfl

@[simp] theorem pure_apply (a : α) (pos : ℕ) : (pure a : Reader ε α) data pos = .ok (a, pos) := rfl

theorem bind_of_ok {pos mid : ℕ} {a : α} (h : m data pos = .ok (a, mid)) :
    (m >>= f) data pos = f a data mid := by
  rw [bind_apply, h]
  rfl

theorem bind_eq_ok {pos stop : ℕ} {b : β} : (m >>= f) data pos = .ok (b, stop) ↔
    ∃ a mid, m data pos = .ok (a, mid) ∧ f a data mid = .ok (b, stop) := by
  constructor
  · intro h
    cases hm : m data pos with
    | error e =>
        rw [bind_apply, hm] at h
        cases h
    | ok p =>
        rw [bind_of_ok hm] at h
        exact ⟨p.1, p.2, rfl, h⟩
  · rintro ⟨a, mid, hm, hf⟩
    rw [bind_of_ok hm, hf]

/-- `n` values, one after another. -/
def readMany (m : Reader ε α) : ℕ → Reader ε (List α)
  | 0 => pure []
  | n + 1 => do
      let a ← m
      let rest ← readMany m n
      return a :: rest

/-! ### Bytes and what they read as -/

variable {cap : ℕ}

/-- Wherever `bytes` stand, `m` yields `a` and stops behind them. -/
def Reads (cap : ℕ) (m : Reader ε α) (bytes : List UInt8) (a : α) : Prop :=
  ∀ before after : List UInt8, (before ++ (bytes ++ after)).length ≤ cap →
    m (before ++ (bytes ++ after)) before.length = .ok (a, before.length + bytes.length)

theorem Reads.pure (a : α) : Reads cap (pure a : Reader ε α) [] a := fun _ _ _ => rfl

theorem Reads.bind {bytes bytes' : List UInt8} {a : α} {b : β} (hm : Reads cap m bytes a)
    (hf : Reads cap (f a) bytes' b) : Reads cap (m >>= f) (bytes ++ bytes') b := by
  intro before after hcap
  rw [List.append_assoc] at hcap
  have hfirst := hm before (bytes' ++ after) hcap
  rw [← List.append_assoc] at hcap
  have hrest := hf (before ++ bytes) after hcap
  rw [List.append_assoc, List.length_append] at hrest
  rw [List.append_assoc, bind_of_ok hfirst, hrest, List.length_append, Nat.add_assoc]

theorem Reads.map {bytes : List UInt8} {a : α} (g : α → β) (hm : Reads cap m bytes a) :
    Reads cap (do return g (← m)) bytes (g a) := by
  have h : Reads cap (do return g (← m)) (bytes ++ []) (g a) := hm.bind (Reads.pure (g a))
  rwa [List.append_nil] at h

/-- **Counted loops** read what each round reads. -/
theorem Reads.readMany {encode : α → List UInt8} {as : List α}
    (h : ∀ a ∈ as, Reads cap m (encode a) a) :
    Reads cap (readMany m as.length) (as.flatMap encode) as := by
  induction as with
  | nil => exact Reads.pure []
  | cons a as ih =>
      have htail := ih fun a' ha' => h a' (List.mem_cons_of_mem a ha')
      exact (h a List.mem_cons_self).bind (htail.map fun rest => a :: rest)

/-! ### Locality -/

/-- Whatever `m` yields, it read off the bytes between its two positions. -/
def Local (cap : ℕ) (m : Reader ε α) : Prop :=
  ∀ (data : List UInt8) (pos stop : ℕ) (a : α), data.length ≤ cap → pos ≤ data.length →
    m data pos = .ok (a, stop) →
    pos ≤ stop ∧ stop ≤ data.length ∧ Reads cap m ((data.drop pos).take (stop - pos)) a

theorem Local.pure (a : α) : Local cap (pure a : Reader ε α) := by
  intro data pos stop a' _ hpos h
  obtain ⟨rfl, rfl⟩ := Prod.mk.inj (Except.ok.inj h)
  refine ⟨le_rfl, hpos, ?_⟩
  rw [Nat.sub_self, List.take_zero]
  exact Reads.pure a

theorem Local.throw (e : ε) : Local cap (throw e : Reader ε α) := by
  intro data pos stop a _ _ h
  cases h

theorem Local.bind (hm : Local cap m) (hf : ∀ a, Local cap (f a)) : Local cap (m >>= f) := by
  intro data pos stop b hcap hpos h
  obtain ⟨a, mid, hfirst, hrest⟩ := bind_eq_ok.mp h
  obtain ⟨hle, hmid, hreads⟩ := hm data pos mid a hcap hpos hfirst
  obtain ⟨hle', hstop, hreads'⟩ := hf a data mid stop b hcap hmid hrest
  refine ⟨hle.trans hle', hstop, ?_⟩
  have hslice : (data.drop pos).take (stop - pos) =
      (data.drop pos).take (mid - pos) ++ (data.drop mid).take (stop - mid) := by
    rw [show stop - pos = (mid - pos) + (stop - mid) by omega, List.take_add, List.drop_drop,
      Nat.add_sub_cancel' hle]
  rw [hslice]
  exact hreads.bind hreads'

theorem Local.readMany (hm : Local cap m) : ∀ n, Local cap (readMany m n)
  | 0 => Local.pure []
  | n + 1 => hm.bind fun _ => (Local.readMany hm n).bind fun _ => Local.pure _

/-- **A part of the input alone** decodes to the same value exactly if the reader stops in it. -/
theorem Local.alone_iff (hm : Local cap m) {pos stop size : ℕ} {a : α} (hcap : data.length ≤ cap)
    (hpos : pos ≤ data.length) (h : m data pos = .ok (a, stop)) :
    (∃ stop', m ((data.drop pos).take size) 0 = .ok (a, stop')) ↔ stop ≤ pos + size := by
  have hlength : ((data.drop pos).take size).length ≤ cap := by
    rw [List.length_take, List.length_drop]
    omega
  constructor
  · rintro ⟨stop', halone⟩
    obtain ⟨-, hle, hreads⟩ := hm _ 0 stop' a hlength (Nat.zero_le _) halone
    rw [List.length_take] at hle
    rw [List.drop_zero, Nat.sub_zero, List.take_take, min_eq_left (by omega)] at hreads
    have hdata : data.take pos ++ ((data.drop pos).take stop' ++ data.drop (pos + stop')) =
        data := by
      rw [← List.drop_drop, List.take_append_drop, List.take_append_drop]
    have hwhole := hreads (data.take pos) (data.drop (pos + stop')) (by rwa [hdata])
    rw [hdata, List.length_take, List.length_take, min_eq_left hpos, h] at hwhole
    have hstop : stop = _ := (Prod.mk.inj (Except.ok.inj hwhole)).2
    omega
  · intro hstop
    obtain ⟨hle, -, hreads⟩ := hm data pos stop a hcap hpos h
    have hslice : (data.drop pos).take size =
        [] ++ ((data.drop pos).take (stop - pos) ++
          ((data.drop pos).drop (stop - pos)).take (size - (stop - pos))) := by
      rw [List.nil_append, ← List.take_add, Nat.add_sub_cancel' (by omega)]
    rw [hslice] at hlength ⊢
    exact ⟨_, hreads [] _ hlength⟩

end Reader

end Enclave

import Mathlib

/-! # Permutations of the lists of a length

A function on lists that may fail `Permutes t` if on the lists of length `t` it does not, keeps the
length and tells different lists apart.  Such functions compose (`Permutes.bind`,
`Permutes.foldlM`), and over a finite type they reach every list of the length
(`Permutes.surjective`). -/

namespace Enclave

variable {α β : Type*} {t : ℕ} {f g : List α → Option (List α)}

/-- Defined, length-preserving and injective on the lists of length `t`. -/
structure Permutes (t : ℕ) (f : List α → Option (List α)) : Prop where
  total : ∀ x, x.length = t → ∃ y, f x = some y ∧ y.length = t
  injective : ∀ x x', x.length = t → x'.length = t → f x = f x' → x = x'

namespace Permutes

theorem some : Permutes t (Option.some : List α → Option (List α)) :=
  ⟨fun x hx => ⟨x, rfl, hx⟩, fun _ _ _ _ h => Option.some.inj h⟩

theorem bind (hf : Permutes t f) (hg : Permutes t g) : Permutes t fun x => f x >>= g where
  total x hx := by
    obtain ⟨y, hy, hlen⟩ := hf.total x hx
    obtain ⟨z, hz, hlen'⟩ := hg.total y hlen
    exact ⟨z, by rw [hy]; exact hz, hlen'⟩
  injective x x' hx hx' h := by
    obtain ⟨y, hy, hlen⟩ := hf.total x hx
    obtain ⟨y', hy', hlen'⟩ := hf.total x' hx'
    have h : f x >>= g = f x' >>= g := h
    rw [hy, hy'] at h
    exact hf.injective x x' hx hx' (by rw [hy, hy', hg.injective y y' hlen hlen' h])

theorem foldlM {step : List α → β → Option (List α)} :
    ∀ {l : List β}, (∀ b ∈ l, Permutes t fun x => step x b) → Permutes t fun x => l.foldlM step x
  | [], _ => some
  | b :: l, h => by
      obtain ⟨hb, hl⟩ := List.forall_mem_cons.mp h
      simp only [List.foldlM_cons]
      exact hb.bind (foldlM hl)

theorem congr (hf : Permutes t f) (h : ∀ x, x.length = t → f x = g x) : Permutes t g where
  total x hx := by
    obtain ⟨y, hy, hlen⟩ := hf.total x hx
    exact ⟨y, (h x hx).symm.trans hy, hlen⟩
  injective x x' hx hx' heq :=
    hf.injective x x' hx hx' (((h x hx).trans heq).trans (h x' hx').symm)

/-- Over a finite type every list of the length is reached. -/
theorem surjective [Finite α] (hf : Permutes t f) {y : List α} (hy : y.length = t) :
    ∃ x, x.length = t ∧ f x = Option.some y := by
  have hfinite : Finite {x : List α // x.length = t} :=
    inferInstanceAs (Finite (List.Vector α t))
  choose image himage hlen using fun x : {x : List α // x.length = t} => hf.total x.1 x.2
  have hinj : Function.Injective fun x => (⟨image x, hlen x⟩ : {x : List α // x.length = t}) := by
    intro x x' heq
    have himg : image x = image x' := congrArg Subtype.val heq
    exact Subtype.ext (hf.injective x x' x.2 x'.2 (by rw [himage, himage, himg]))
  obtain ⟨x, hx⟩ := Finite.surjective_of_injective hinj ⟨y, hy⟩
  have himg : image x = y := congrArg Subtype.val hx
  exact ⟨x.1, x.2, by rw [himage, himg]⟩

/-! ### Layers -/

theorem zipWith_add [Add α] [IsRightCancelAdd α] {c : List α} (hc : t ≤ c.length) :
    Permutes t fun x => Option.some (List.zipWith (· + ·) x c) where
  total x hx := ⟨_, rfl, by rw [List.length_zipWith]; omega⟩
  injective x x' hx hx' h := by
    have h := Option.some.inj h
    refine List.ext_getElem (hx.trans hx'.symm) fun i hi hi' => ?_
    have hget : (List.zipWith (· + ·) x c)[i]? = (List.zipWith (· + ·) x' c)[i]? := by rw [h]
    rw [List.getElem?_zipWith, List.getElem?_zipWith, List.getElem?_eq_getElem hi,
      List.getElem?_eq_getElem hi', List.getElem?_eq_getElem (show i < c.length by omega)] at hget
    exact add_right_cancel (Option.some.inj hget)

theorem map {s : α → α} (hs : Function.Injective s) : Permutes t fun x => Option.some (x.map s) where
  total x hx := ⟨_, rfl, by rw [List.length_map, hx]⟩
  injective _ _ _ _ h := hs.list_map (Option.some.inj h)

theorem modifyHead {s : α → α} (hs : Function.Injective s) :
    Permutes t fun x => Option.some (x.modifyHead s) where
  total x hx := ⟨_, rfl, by rw [List.length_modifyHead, hx]⟩
  injective x x' hx hx' h := by
    have h := Option.some.inj h
    cases x with
    | nil => exact (List.length_eq_zero_iff.mp (hx'.trans hx.symm)).symm
    | cons a x =>
        cases x' with
        | nil => exact List.length_eq_zero_iff.mp (hx.trans hx'.symm)
        | cons a' x' =>
            obtain ⟨ha, rfl⟩ := List.cons.inj h
            rw [hs ha]

end Permutes

end Enclave

import Mathlib

/-! # Object stores

Records under keys, as IndexedDB documents its object stores: the key stands in the record, at the
store's key path.  A `put` under a key in use replaces the record; a `put` after which two records
would share a value of a unique index is refused, and changes nothing.  A cursor goes through the
records in ascending order of their keys. -/

namespace Enclave

/-- Where the key of a record stands, and its unique indexes. -/
structure StoreSchema (ρ κ ι : Type*) where
  keyPath : ρ → κ
  uniqueIndexes : List (ρ → ι)

variable {ρ κ ι : Type*} [LinearOrder κ]

/-- The records of a store, in the order of their keys. -/
@[ext]
structure ObjectStore (schema : StoreSchema ρ κ ι) where
  records : List ρ
  sorted : records.Pairwise fun x y => schema.keyPath x < schema.keyPath y
  unique : ∀ index ∈ schema.uniqueIndexes, (records.map index).Nodup

/-- A record entered at its place, over the one of its key. -/
def insertByKey (keyPath : ρ → κ) (r : ρ) : List ρ → List ρ
  | [] => [r]
  | x :: rest =>
      if keyPath r < keyPath x then r :: x :: rest
      else if keyPath r = keyPath x then r :: rest
      else x :: insertByKey keyPath r rest

variable {keyPath : ρ → κ} {r x : ρ} {l : List ρ}

theorem mem_insertByKey (h : l.Pairwise fun x y => keyPath x < keyPath y) :
    x ∈ insertByKey keyPath r l ↔ x = r ∨ x ∈ l ∧ keyPath x ≠ keyPath r := by
  induction l with
  | nil => simp [insertByKey]
  | cons y rest ih =>
      obtain ⟨hy, hrest⟩ := List.pairwise_cons.mp h
      rw [insertByKey]
      split_ifs with hlt heq
      · have hne : ∀ z ∈ y :: rest, keyPath z ≠ keyPath r := by
          intro z hz
          obtain rfl | hz := List.mem_cons.mp hz
          · exact hlt.ne'
          · exact (hlt.trans (hy z hz)).ne'
        rw [List.mem_cons]
        exact or_congr_right ⟨fun hx => ⟨hx, hne x hx⟩, And.left⟩
      · have hne : ∀ z ∈ rest, keyPath z ≠ keyPath r := fun z hz => heq ▸ (hy z hz).ne'
        rw [List.mem_cons, List.mem_cons]
        refine or_congr_right ⟨fun hx => ⟨.inr hx, hne x hx⟩, ?_⟩
        rintro ⟨rfl | hx, hxr⟩
        · exact absurd heq.symm hxr
        · exact hx
      · rw [List.mem_cons, List.mem_cons, ih hrest]
        constructor
        · rintro (rfl | rfl | ⟨hx, hxr⟩)
          · exact .inr ⟨.inl rfl, Ne.symm heq⟩
          · exact .inl rfl
          · exact .inr ⟨.inr hx, hxr⟩
        · rintro (rfl | ⟨rfl | hx, hxr⟩)
          · exact .inr (.inl rfl)
          · exact .inl rfl
          · exact .inr (.inr ⟨hx, hxr⟩)

theorem pairwise_insertByKey (h : l.Pairwise fun x y => keyPath x < keyPath y) :
    (insertByKey keyPath r l).Pairwise fun x y => keyPath x < keyPath y := by
  induction l with
  | nil => exact List.pairwise_singleton _ _
  | cons y rest ih =>
      obtain ⟨hy, hrest⟩ := List.pairwise_cons.mp h
      rw [insertByKey]
      split_ifs with hlt heq
      · refine List.pairwise_cons.mpr ⟨fun z hz => ?_, h⟩
        obtain rfl | hz := List.mem_cons.mp hz
        · exact hlt
        · exact hlt.trans (hy z hz)
      · exact List.pairwise_cons.mpr ⟨fun z hz => heq ▸ hy z hz, hrest⟩
      · refine List.pairwise_cons.mpr ⟨fun z hz => ?_, ih hrest⟩
        obtain rfl | ⟨hz, -⟩ := (mem_insertByKey hrest).mp hz
        · exact lt_of_le_of_ne (not_lt.mp hlt) (Ne.symm heq)
        · exact hy z hz

theorem insertByKey_of_lt (h : ∀ x ∈ l, keyPath x < keyPath r) :
    insertByKey keyPath r l = l ++ [r] := by
  induction l with
  | nil => rfl
  | cons y rest ih =>
      have hy := h y List.mem_cons_self
      rw [insertByKey, if_neg hy.not_gt, if_neg hy.ne', List.cons_append,
        ih fun x hx => h x (List.mem_cons_of_mem _ hx)]

theorem insertByKey_of_mem (h : l.Pairwise fun x y => keyPath x < keyPath y) (hr : r ∈ l) :
    insertByKey keyPath r l = l := by
  induction l with
  | nil => cases hr
  | cons y rest ih =>
      obtain ⟨hy, hrest⟩ := List.pairwise_cons.mp h
      obtain rfl | hr := List.mem_cons.mp hr
      · rw [insertByKey, if_neg (lt_irrefl _), if_pos rfl]
      · have hlt := hy r hr
        rw [insertByKey, if_neg hlt.not_gt, if_neg hlt.ne', ih hrest hr]

theorem map_insertByKey {α : Type*} {f : ρ → α} (h : l.Pairwise fun x y => keyPath x < keyPath y)
    (hr : ∃ x ∈ l, keyPath x = keyPath r ∧ f x = f r) :
    (insertByKey keyPath r l).map f = l.map f := by
  induction l with
  | nil =>
      obtain ⟨x, hx, -⟩ := hr
      cases hx
  | cons y rest ih =>
      obtain ⟨hy, hrest⟩ := List.pairwise_cons.mp h
      obtain ⟨x, hx, hkey, hf⟩ := hr
      obtain rfl | hx := List.mem_cons.mp hx
      · rw [insertByKey, if_neg (hkey ▸ lt_irrefl _), if_pos hkey.symm, List.map_cons, List.map_cons,
          hf]
      · have hlt := hkey ▸ hy x hx
        rw [insertByKey, if_neg hlt.not_gt, if_neg hlt.ne', List.map_cons, List.map_cons,
          ih hrest ⟨x, hx, hkey, hf⟩]

theorem perm_insertByKey (h : ∀ x ∈ l, keyPath x ≠ keyPath r) :
    (insertByKey keyPath r l).Perm (r :: l) := by
  induction l with
  | nil => exact List.Perm.refl _
  | cons y rest ih =>
      rw [insertByKey]
      split_ifs with hlt heq
      · exact List.Perm.refl _
      · exact absurd heq.symm (h y List.mem_cons_self)
      · exact ((ih fun x hx => h x (List.mem_cons_of_mem _ hx)).cons y).trans (List.Perm.swap r y rest)

theorem nodup_of_pairwise (h : l.Pairwise fun x y => keyPath x < keyPath y) : l.Nodup :=
  h.imp fun hlt heq => absurd (congrArg keyPath heq) hlt.ne

namespace ObjectStore

variable {schema : StoreSchema ρ κ ι}

def empty : ObjectStore schema := ⟨[], List.Pairwise.nil, fun _ _ => List.nodup_nil⟩

/-- Another record has the record's value of a unique index. -/
def Conflicts (s : ObjectStore schema) (r : ρ) : Prop :=
  ∃ index ∈ schema.uniqueIndexes, ∃ x ∈ s.records,
    schema.keyPath x ≠ schema.keyPath r ∧ index x = index r

instance [DecidableEq ι] (s : ObjectStore schema) (r : ρ) : Decidable (s.Conflicts r) :=
  inferInstanceAs (Decidable (∃ index ∈ schema.uniqueIndexes, ∃ x ∈ s.records,
    schema.keyPath x ≠ schema.keyPath r ∧ index x = index r))

theorem unique_insertByKey {s : ObjectStore schema} (h : ¬ s.Conflicts r) :
    ∀ index ∈ schema.uniqueIndexes,
      ((insertByKey schema.keyPath r s.records).map index).Nodup := by
  intro index hindex
  have hother : ∀ x ∈ s.records, schema.keyPath x ≠ schema.keyPath r → index x ≠ index r :=
    fun x hx hne heq => h ⟨index, hindex, x, hx, hne, heq⟩
  have hinj := (List.nodup_map_iff_inj_on (nodup_of_pairwise s.sorted)).mp (s.unique index hindex)
  refine (List.nodup_map_iff_inj_on (nodup_of_pairwise (pairwise_insertByKey s.sorted))).mpr ?_
  intro x hx y hy hxy
  obtain hx' | ⟨hx', hxr⟩ := (mem_insertByKey s.sorted).mp hx <;>
    obtain hy' | ⟨hy', hyr⟩ := (mem_insertByKey s.sorted).mp hy
  · exact hx'.trans hy'.symm
  · exact absurd (hx' ▸ hxy.symm) (hother y hy' hyr)
  · exact absurd (hy' ▸ hxy) (hother x hx' hxr)
  · exact hinj x hx' y hy' hxy

theorem not_conflicts_of_mem {s : ObjectStore schema} (hr : r ∈ s.records) : ¬ s.Conflicts r := by
  rintro ⟨index, hindex, x, hx, hne, heq⟩
  refine hne (congrArg schema.keyPath ?_)
  exact (List.nodup_map_iff_inj_on (nodup_of_pairwise s.sorted)).mp (s.unique index hindex)
    x hx r hr heq

/-! ### Reading, and writing where no index is unique -/

variable {s s' : ObjectStore schema}

theorem nodup_keys (s : ObjectStore schema) : (s.records.map schema.keyPath).Nodup :=
  (List.pairwise_map.mpr s.sorted).imp ne_of_lt

/-- `get`. -/
def get (s : ObjectStore schema) (key : κ) : Option ρ :=
  s.records.find? fun r => schema.keyPath r = key

theorem get_eq_some {key : κ} : s.get key = some r ↔ r ∈ s.records ∧ schema.keyPath r = key := by
  constructor
  · intro h
    have hkey := List.find?_some h
    exact ⟨List.mem_of_find?_eq_some h, of_decide_eq_true hkey⟩
  · rintro ⟨hr, rfl⟩
    have hsome : (s.get (schema.keyPath r)).isSome :=
      List.find?_isSome.mpr ⟨r, hr, by simp⟩
    obtain ⟨x, hx⟩ := Option.isSome_iff_exists.mp hsome
    have hkey := List.find?_some hx
    have hmem := List.mem_of_find?_eq_some hx
    rw [hx, List.inj_on_of_nodup_map s.nodup_keys hmem hr (of_decide_eq_true hkey)]

theorem isSome_get {key : κ} :
    (s.get key).isSome ↔ ∃ r ∈ s.records, schema.keyPath r = key := by
  rw [Option.isSome_iff_exists]
  exact exists_congr fun r => get_eq_some

/-- `put` where no index is unique. -/
def putPlain (h : schema.uniqueIndexes = []) (s : ObjectStore schema) (r : ρ) :
    ObjectStore schema :=
  ⟨insertByKey schema.keyPath r s.records, pairwise_insertByKey s.sorted, fun index hindex => by
    rw [h] at hindex
    cases hindex⟩

@[simp] theorem mem_putPlain {h : schema.uniqueIndexes = []} :
    x ∈ (s.putPlain h r).records ↔ x = r ∨ x ∈ s.records ∧ schema.keyPath x ≠ schema.keyPath r :=
  mem_insertByKey s.sorted

theorem exists_mem_putPlain_iff {h : schema.uniqueIndexes = []} {p : ρ → Prop} (hp : p r) {key : κ} :
    (∃ x ∈ (s.putPlain h r).records, schema.keyPath x = key ∧ p x) ↔
      schema.keyPath r = key ∨ ∃ x ∈ s.records, schema.keyPath x = key ∧ p x := by
  have hr : r ∈ (s.putPlain h r).records := mem_putPlain.mpr (.inl rfl)
  constructor
  · rintro ⟨x, hx, hkey, hpx⟩
    obtain rfl | ⟨hx, -⟩ := mem_putPlain.mp hx
    · exact .inl hkey
    · exact .inr ⟨x, hx, hkey, hpx⟩
  · rintro (hkey | ⟨x, hx, hkey, hpx⟩)
    · exact ⟨r, hr, hkey, hp⟩
    · by_cases hsame : schema.keyPath x = schema.keyPath r
      · exact ⟨r, hr, hsame.symm.trans hkey, hp⟩
      · exact ⟨x, mem_putPlain.mpr (.inr ⟨hx, hsame⟩), hkey, hpx⟩

theorem get_putPlain {h : schema.uniqueIndexes = []} {key : κ} :
    (s.putPlain h r).get key = if schema.keyPath r = key then some r else s.get key := by
  split_ifs with hkey
  · exact get_eq_some.mpr ⟨mem_putPlain.mpr (.inl rfl), hkey⟩
  · refine Option.ext fun x => ?_
    rw [get_eq_some, get_eq_some, mem_putPlain]
    constructor
    · rintro ⟨rfl | ⟨hx, -⟩, hxkey⟩
      · exact absurd hxkey hkey
      · exact ⟨hx, hxkey⟩
    · rintro ⟨hx, rfl⟩
      exact ⟨.inr ⟨hx, Ne.symm hkey⟩, rfl⟩

/-- **The last record put under a key is the one found.** -/
theorem get_foldl_putPlain {h : schema.uniqueIndexes = []} {key : κ} (rs : List ρ)
    (s : ObjectStore schema) : (rs.foldl (putPlain h) s).get key =
      (rs.filter fun r => schema.keyPath r = key).getLast?.or (s.get key) := by
  induction rs generalizing s with
  | nil => rfl
  | cons r rest ih =>
      rw [List.foldl_cons, ih, get_putPlain, List.filter_cons]
      split_ifs with hkey hkey' hkey'
      · rw [List.getLast?_cons]
        cases (rest.filter fun r => schema.keyPath r = key).getLast? <;> rfl
      · exact absurd (decide_eq_true hkey) hkey'
      · exact absurd (of_decide_eq_true hkey') hkey
      · rfl

/-! ### Writing -/

variable [DecidableEq ι]

/-- `put`; `none` is a `ConstraintError`. -/
def put (s : ObjectStore schema) (r : ρ) : Option (ObjectStore schema) :=
  if h : s.Conflicts r then none
  else some ⟨insertByKey schema.keyPath r s.records, pairwise_insertByKey s.sorted,
    unique_insertByKey h⟩

/-- Where no index is unique, `put` does not fail. -/
theorem put_eq_putPlain (h : schema.uniqueIndexes = []) (s : ObjectStore schema) (r : ρ) :
    s.put r = some (s.putPlain h r) := by
  refine dif_neg ?_
  rintro ⟨index, hi, -⟩
  rw [h] at hi
  cases hi

theorem get_of_put (h : s.put r = some s') {key : κ} :
    s'.get key = if schema.keyPath r = key then some r else s.get key := by
  have hmem : ∀ x, x ∈ s'.records ↔
      x = r ∨ x ∈ s.records ∧ schema.keyPath x ≠ schema.keyPath r := by
    unfold put at h
    split_ifs at h
    cases h
    exact fun x => mem_insertByKey s.sorted
  split_ifs with hkey
  · exact get_eq_some.mpr ⟨(hmem r).mpr (.inl rfl), hkey⟩
  · refine Option.ext fun x => ?_
    rw [get_eq_some, get_eq_some, hmem]
    constructor
    · rintro ⟨rfl | ⟨hx, -⟩, hxkey⟩
      · exact absurd hxkey hkey
      · exact ⟨hx, hxkey⟩
    · rintro ⟨hx, rfl⟩
      exact ⟨.inr ⟨hx, Ne.symm hkey⟩, rfl⟩

theorem put_of_conflicts (h : s.Conflicts r) : s.put r = none := dif_pos h

/-- **A record that is there is put again without effect.** -/
theorem put_of_mem (hr : r ∈ s.records) : s.put r = some s := by
  rw [put, dif_neg (not_conflicts_of_mem hr), Option.some.injEq]
  exact ObjectStore.ext (insertByKey_of_mem s.sorted hr)

/-- **A record with a larger key than all others comes last.** -/
theorem exists_put_of_lt (hlt : ∀ x ∈ s.records, schema.keyPath x < schema.keyPath r)
    (hindex : ∀ index ∈ schema.uniqueIndexes, ∀ x ∈ s.records, index x ≠ index r) :
    ∃ s', s.put r = some s' ∧ s'.records = s.records ++ [r] := by
  have h : ¬ s.Conflicts r := by
    rintro ⟨index, hi, x, hx, -, heq⟩
    exact hindex index hi x hx heq
  exact ⟨_, dif_neg h, insertByKey_of_lt hlt⟩

/-- **Without unique indexes no record is refused.** -/
theorem exists_put (hindex : schema.uniqueIndexes = []) (s : ObjectStore schema) (r : ρ) :
    ∃ s', s.put r = some s' ∧
      ∀ x, x ∈ s'.records ↔ x = r ∨ x ∈ s.records ∧ schema.keyPath x ≠ schema.keyPath r := by
  have h : ¬ s.Conflicts r := by
    rintro ⟨index, hi, -⟩
    rw [hindex] at hi
    cases hi
  exact ⟨_, dif_neg h, fun x => mem_insertByKey s.sorted⟩

end ObjectStore

end Enclave

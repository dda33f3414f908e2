import Enclave.Prover.WitnessCalculator

/-! # Flattening by recursion

What `flatten_input` is for: a value is a number of entries, each a name and the primitives that
stand under it (`entries`).  The loops push these entries in some order, each as a whole
(`flattenLoop_eq`); an entry without primitives leaves no trace (`flattenInput_entries`). -/

namespace Enclave.Prover

open Json

/-! ### The specification -/

mutual

/-- The primitives of nested arrays, in row-major order. -/
def leaves : Value → List Value
  | .array items => leavesOfItems items
  | v => [v]

def leavesOfItems : List Value → List Value
  | [] => []
  | item :: rest => leaves item ++ leavesOfItems rest

end

mutual

/-- No object is in a nested array. -/
def isPure : Value → Bool
  | .array items => allPure items
  | .object _ => false
  | _ => true

def allPure : List Value → Bool
  | [] => true
  | item :: rest => isPure item && allPure rest

end

mutual

/-- The entries of a value: an array of primitives is one. -/
def entries (key : String) : Value → List (String × List Value)
  | .array items =>
      if allPure items then [(key, leavesOfItems items)] else entriesOfItems key 0 items
  | .object fields => entriesOfFields key fields
  | v => [(key, [v])]

def entriesOfItems (key : String) (i : ℕ) : List Value → List (String × List Value)
  | [] => []
  | item :: rest => entries (indexed key i) item ++ entriesOfItems key (i + 1) rest

def entriesOfFields (key : String) : List (String × Value) → List (String × List Value)
  | [] => []
  | (field, value) :: rest => entries (dotted key field) value ++ entriesOfFields key rest

end

/-- The integer that a primitive denotes. -/
inductive Denotes : Value → ℤ → Prop
  | natural {ds : List Char} {n : ℕ} (h : Js.parseDigits 10 ds = some n) (hlt : n < 2 ^ 64) :
      Denotes (.number ds) n
  | negative {ds : List Char} {n : ℕ} (h : Js.parseDigits 10 ds = some n) (hpos : 0 < n)
      (hle : n ≤ 2 ^ 63) : Denotes (.number ('-' :: ds)) (-n)
  | decimal {ds : List Char} {n : ℕ} (h : Js.parseDigits 10 ds = some n) :
      Denotes (.string (String.ofList ds)) n
  | plus {ds : List Char} {n : ℕ} (h : Js.parseDigits 10 ds = some n) :
      Denotes (.string (String.ofList ('+' :: ds))) n
  | minus {ds : List Char} {n : ℕ} (h : Js.parseDigits 10 ds = some n) :
      Denotes (.string (String.ofList ('-' :: ds))) (-n)
  | hexadecimal {ds : List Char} {n : ℕ} (h : Js.parseDigits 16 ds = some n) :
      Denotes (.string (String.ofList ('0' :: 'x' :: ds))) n
  | bool (b : Bool) : Denotes (.bool b) (if b then 1 else 0)
  | null : Denotes .null 0

/-- The field element of an integer; a negative one is `r - |n|`. -/
def fieldElement (z : ℤ) : ℕ := if z < 0 then bn256Modulus - z.natAbs else z.toNat

def entryMap (read : Value → ℤ) (es : List (String × List Value)) (name : String) :
    Option (List ℕ) :=
  (es.find? fun e => e.1 = name).map fun e => e.2.map fun v => fieldElement (read v)

/-! ### Primitives -/

variable {key name : String} {radix n : ℕ} {cs ds : List Char} {v : Value} {z : ℤ}

theorem digitIn_of_digitsValue {acc : ℕ} (h : Js.digitsValue radix acc cs = some n) :
    ∀ c ∈ cs, (Js.digitIn radix c).isSome = true := by
  induction cs generalizing acc with
  | nil => exact fun c hc => (List.not_mem_nil hc).elim
  | cons c rest ih =>
      rw [Js.digitsValue, Option.bind_eq_some_iff] at h
      obtain ⟨d, hd, h⟩ := h
      exact List.forall_mem_cons.mpr ⟨by rw [hd]; rfl, ih h⟩

theorem ne_of_parseDigits {c : Char} (h : Js.parseDigits radix ds = some n)
    (hc : Js.digitValue c = none) : c ∉ ds := by
  unfold Js.parseDigits at h
  split at h
  · cases h
  · intro hmem
    have hdigit := digitIn_of_digitsValue h c hmem
    rw [Js.digitIn, hc] at hdigit
    cases hdigit

theorem parseBytes_digits (h : Js.parseDigits radix ds = some n) :
    parseBytes ds radix = some (n : ℤ) ∧ parseBytes ('+' :: ds) radix = some (n : ℤ) ∧
      parseBytes ('-' :: ds) radix = some (-(n : ℤ)) := by
  have hplus := ne_of_parseDigits h (c := '+') (by decide)
  have hminus := ne_of_parseDigits h (c := '-') (by decide)
  have hunderscore := ne_of_parseDigits h (c := '_') (by decide)
  have hhead : ∀ c, c ∉ ds → ds.head? ≠ some c := fun c hc hhead =>
    hc (List.mem_of_mem_head? hhead)
  have hfilter : (ds.filter fun c => !decide (c = '_')) = ds := List.filter_eq_self.mpr
    fun c hc => by simp [ne_of_mem_of_not_mem hc hunderscore]
  unfold parseBytes
  simp [hhead '+' hplus, hhead '-' hminus, hhead '_' hunderscore, hfilter, h]

theorem toFieldElement_eq (h : z.natAbs < bn256Modulus) :
    toFieldElement z = .ok (fieldElement z) := by
  unfold toFieldElement fieldElement
  split_ifs with hneg hlt hlt
  · congr 1
    omega
  · omega
  · rfl
  · omega

theorem textInteger_decimal (h : Js.parseDigits 10 ds = some n) :
    textInteger ds = some (n : ℤ) := by
  have hne : ds.take 2 ≠ ['0', 'x'] := by
    intro htake
    have hmem : 'x' ∈ ds.take 2 := by
      rw [htake]
      exact List.mem_cons_of_mem _ List.mem_cons_self
    exact ne_of_parseDigits h (by decide) (List.mem_of_mem_take hmem)
  rw [textInteger, if_neg hne, (parseBytes_digits h).1]

theorem textInteger_sign {c : Char} (hc : c ≠ '0') : textInteger (c :: ds) =
    parseBytes (c :: ds) 10 := by
  refine if_neg fun htake => hc ?_
  rw [List.take_succ_cons] at htake
  exact (List.cons.inj htake).1

/-- A primitive that denotes an integer below the field's order is pushed as a field element. -/
theorem pushScalar_eq (h : Denotes v z) (hlt : z.natAbs < bn256Modulus) (key : String) :
    pushScalar key v = .ok [(key, fieldElement z)] := by
  have hfield := toFieldElement_eq hlt
  have htext : ∀ {cs : List Char}, textInteger cs = some z →
      pushScalar key (.string (String.ofList cs)) = .ok [(key, fieldElement z)] := by
    intro cs hread
    rw [pushScalar, readText, String.toList_ofList, hread]
    dsimp only
    rw [Result.ok_bind, hfield, Result.ok_bind]
    rfl
  cases h with
  | @natural ds n h hn =>
      have hinteger : asInteger ds = some (n : ℤ) := by
        unfold asInteger
        split
        · exact absurd List.mem_cons_self (ne_of_parseDigits h (by decide))
        · rw [h, Option.filter_some, decide_eq_true hn, if_pos rfl]
          rfl
      rw [pushScalar, hinteger]
      dsimp only
      rw [hfield, Result.ok_bind]
      rfl
  | @negative ds n h hpos hle =>
      have hinteger : asInteger ('-' :: ds) = some (-(n : ℤ)) := by
        rw [asInteger, h, Option.filter_some, decide_eq_true ⟨hpos, hle⟩, if_pos rfl]
        rfl
      rw [pushScalar, hinteger]
      dsimp only
      rw [hfield, Result.ok_bind]
      rfl
  | @decimal ds n h => exact htext (textInteger_decimal h)
  | @plus ds n h =>
      refine htext ?_
      rw [textInteger_sign (by decide), (parseBytes_digits h).2.1]
  | @minus ds n h =>
      refine htext ?_
      rw [textInteger_sign (by decide), (parseBytes_digits h).2.2]
  | @hexadecimal ds n h => exact htext ((if_pos rfl).trans (parseBytes_digits h).1)
  | bool b => cases b <;> rfl
  | null => rfl

/-! ### The loops -/

variable {items arr : List Value} {read : Value → ℤ}

theorem allPure_eq (items : List Value) : allPure items = items.all isPure := by
  induction items with
  | nil => rfl
  | cons item rest ih => rw [allPure, ih, List.all_cons]

theorem entriesOfItems_eq (key : String) (items : List Value) (i : ℕ) :
    entriesOfItems key i items =
      (items.zipIdx i).flatMap fun p => entries (indexed key p.2) p.1 := by
  induction items generalizing i with
  | nil => rfl
  | cons item rest ih => rw [entriesOfItems, ih, List.zipIdx_cons, List.flatMap_cons]

theorem entriesOfFields_eq (key : String) (fields : List (String × Value)) :
    entriesOfFields key fields = (dottedFields key fields).flatMap fun p => entries p.1 p.2 := by
  induction fields with
  | nil => rfl
  | cons field rest ih =>
      rw [entriesOfFields, ih, dottedFields, dottedFields, List.map_cons, List.flatMap_cons]

/-- **`is_pure_array`** looks for an object in the nested arrays. -/
theorem isPureLoop_eq (stack : List Value) : isPureLoop stack = stack.all isPure := by
  fun_induction isPureLoop stack with
  | case1 => rfl
  | case2 items stack ih =>
      rw [List.unattach_reverse, List.unattach_attach] at ih
      rw [ih, List.all_append, List.all_reverse, List.all_cons, isPure, allPure_eq]
  | case3 fields stack => rfl
  | case4 v stack harray hobject ih =>
      rw [ih, List.all_cons]
      cases v with
      | array items => exact (harray items rfl).elim
      | object fields => exact (hobject fields rfl).elim
      | _ => rfl

/-- The primitives that a work item will push. -/
def WorkItem.leaves : WorkItem → List Value
  | .value v => Prover.leaves v
  | .arrayIter arr idx => leavesOfItems (arr.drop idx)

theorem WorkItem.leaves_arrayIter {idx : ℕ} (h : idx < arr.length) :
    (WorkItem.arrayIter arr idx).leaves =
      Prover.leaves arr[idx] ++ (WorkItem.arrayIter arr (idx + 1)).leaves := by
  simp only [leaves]
  rw [List.drop_eq_getElem_cons h, leavesOfItems]

/-- An iteration has an item left. -/
def WorkItem.InBounds : WorkItem → Prop
  | .value v => isPure v = true
  | .arrayIter arr idx => idx < arr.length ∧ allPure arr = true

/-- **`flatten_pure_array`** pushes the primitives in row-major order. -/
theorem flattenPureLoop_eq {stack : List WorkItem} {inputs : Inputs}
    (hstack : ∀ item ∈ stack, item.InBounds)
    (hread : ∀ v ∈ stack.flatMap WorkItem.leaves,
      pushScalar key v = .ok [(key, fieldElement (read v))]) :
    flattenPureLoop key stack inputs = .ok (inputs ++
      (stack.flatMap WorkItem.leaves).map fun v => (key, fieldElement (read v))) := by
  fun_induction flattenPureLoop key stack inputs with
  | case1 inputs => simp
  | case2 arr stack inputs ih =>
      obtain ⟨harr, hrest⟩ := List.forall_mem_cons.mp hstack
      have hleaves : (WorkItem.value (.array arr) :: stack).flatMap WorkItem.leaves =
          (if arr.isEmpty then stack else .arrayIter arr 0 :: stack).flatMap WorkItem.leaves := by
        rw [List.flatMap_cons, WorkItem.leaves, Prover.leaves]
        cases arr with
        | nil => rfl
        | cons item rest => rw [List.isEmpty_cons, if_neg Bool.false_ne_true]; rfl
      rw [hleaves] at hread ⊢
      refine ih ?_ hread
      cases arr with
      | nil => exact hrest
      | cons item rest =>
          refine List.forall_mem_cons.mpr ⟨⟨Nat.succ_pos _, ?_⟩, hrest⟩
          rwa [WorkItem.InBounds, isPure] at harr
  | case3 fields stack inputs =>
      cases (List.forall_mem_cons.mp hstack).1
  | case4 v stack inputs harray hobject ih =>
      have hleaves : WorkItem.leaves (.value v) = [v] := by
        cases v with
        | array items => exact (harray items rfl).elim
        | object fields => exact (hobject fields rfl).elim
        | _ => rfl
      rw [List.flatMap_cons, hleaves, List.singleton_append] at hread ⊢
      obtain ⟨hv, hread⟩ := List.forall_mem_cons.mp hread
      rw [hv, Result.ok_bind, ih _ (List.forall_mem_cons.mp hstack).2 hread, List.append_assoc]
      rfl
  | case5 arr idx stack inputs hnone =>
      obtain ⟨⟨hlt, -⟩, -⟩ := List.forall_mem_cons.mp hstack
      rw [List.getElem?_eq_getElem hlt] at hnone
      cases hnone
  | case6 arr idx stack inputs item hitem stack' ih =>
      obtain ⟨⟨hlt, hpure⟩, hrest⟩ := List.forall_mem_cons.mp hstack
      obtain ⟨_, hget⟩ := List.getElem?_eq_some_iff.mp hitem
      have hleaves : (WorkItem.arrayIter arr idx :: stack).flatMap WorkItem.leaves =
          (WorkItem.value item :: stack').flatMap WorkItem.leaves := by
        rw [List.flatMap_cons, List.flatMap_cons, WorkItem.leaves_arrayIter hlt, hget,
          List.append_assoc]
        refine congrArg _ ?_
        unfold stack'
        split
        · rfl
        · rw [WorkItem.leaves, List.drop_eq_nil_of_le (by omega)]
          rfl
      rw [hleaves] at hread ⊢
      refine ih ?_ hread
      have hall : ∀ v ∈ arr, isPure v = true := by rwa [allPure_eq, List.all_eq_true] at hpure
      refine List.forall_mem_cons.mpr ⟨hall item (List.mem_of_getElem? hitem), ?_⟩
      unfold stack'
      split
      · exact List.forall_mem_cons.mpr ⟨⟨by assumption, hpure⟩, hrest⟩
      · exact hrest

theorem isPureArray_array (arr : List Value) : isPureArray (.array arr) = allPure arr := by
  rw [isPureArray, isPureLoop_eq, List.all_cons, List.all_nil, Bool.and_true, isPure]

def stackEntries (stack : List (String × Value)) : List (String × List Value) :=
  stack.flatMap fun p => entries p.1 p.2

theorem entries_of_pure (key : String) (h : allPure arr = true) :
    entries key (.array arr) = [(key, leavesOfItems arr)] := by
  rw [entries, if_pos h]

theorem entries_of_not_pure (key : String) (h : ¬ allPure arr = true) :
    entries key (.array arr) = stackEntries (indexedItems key arr) := by
  rw [entries, if_neg h, entriesOfItems_eq, stackEntries, indexedItems, List.flatMap_map]

theorem entries_object (key : String) (fields : List (String × Value)) :
    entries key (.object fields) = stackEntries (dottedFields key fields) := by
  rw [entries, entriesOfFields_eq, stackEntries]

def pushesOf (read : Value → ℤ) (es : List (String × List Value)) : Inputs :=
  es.flatMap fun e => e.2.map fun v => (e.1, fieldElement (read v))

theorem pushesOf_append (es es' : List (String × List Value)) :
    pushesOf read (es ++ es') = pushesOf read es ++ pushesOf read es' :=
  List.flatMap_append

/-- The primitives of entries are pushed as field elements. -/
def Readable (read : Value → ℤ) (es : List (String × List Value)) : Prop :=
  ∀ e ∈ es, ∀ v ∈ e.2, ∀ key, pushScalar key v = .ok [(key, fieldElement (read v))]

theorem readable_append {es es' : List (String × List Value)} :
    Readable read (es ++ es') ↔ Readable read es ∧ Readable read es' :=
  List.forall_mem_append

/-- **`flatten_input`** pushes the entries, in some order. -/
theorem flattenLoop_eq {stack : List (String × Value)} {inputs : Inputs}
    (hread : Readable read (stackEntries stack)) :
    ∃ es : List (String × List Value), es.Perm (stackEntries stack) ∧
      flattenLoop stack inputs = .ok (inputs ++ pushesOf read es) := by
  fun_induction flattenLoop stack inputs with
  | case1 inputs => exact ⟨[], .refl _, by rw [pushesOf, List.flatMap_nil, List.append_nil]⟩
  | case2 key arr stack inputs hpure ih =>
      rw [isPureArray_array] at hpure
      rw [stackEntries, List.flatMap_cons, entries_of_pure key hpure, ← stackEntries] at hread ⊢
      obtain ⟨harr, hrest⟩ := readable_append.mp hread
      have hflat : flattenPureArray key (.array arr) inputs =
          .ok (inputs ++ pushesOf read [(key, leavesOfItems arr)]) := by
        have hbounds : (WorkItem.value (.array arr)).InBounds := hpure
        have hleaves : [WorkItem.value (.array arr)].flatMap WorkItem.leaves =
            leavesOfItems arr := by
          rw [List.flatMap_cons, List.flatMap_nil, List.append_nil, WorkItem.leaves, leaves]
        have hpushes : ∀ v ∈ [WorkItem.value (.array arr)].flatMap WorkItem.leaves,
            pushScalar key v = .ok [(key, fieldElement (read v))] := by
          rw [hleaves]
          exact fun v hv => harr _ List.mem_cons_self v hv key
        rw [flattenPureArray, flattenPureLoop_eq (List.forall_mem_singleton.mpr hbounds) hpushes,
          hleaves, pushesOf, List.flatMap_cons, List.flatMap_nil, List.append_nil]
      obtain ⟨es, hes, heq⟩ := ih _ hrest
      refine ⟨[(key, leavesOfItems arr)] ++ es, hes.append_left _, ?_⟩
      rw [hflat, Result.ok_bind, heq, List.append_assoc, pushesOf_append]
  | case3 key arr stack inputs hpure ih =>
      rw [isPureArray_array] at hpure
      have heq : stackEntries ((key, .array arr) :: stack) =
          stackEntries (indexedItems key arr ++ stack) := by
        rw [stackEntries, List.flatMap_cons, entries_of_not_pure key hpure, stackEntries,
          stackEntries, List.flatMap_append]
      rw [heq] at hread ⊢
      exact ih hread
  | case4 key obj stack inputs ih =>
      have hperm : (stackEntries ((dottedFields key obj).reverse ++ stack)).Perm
          (stackEntries ((key, .object obj) :: stack)) := by
        rw [stackEntries, stackEntries, List.flatMap_append, List.flatMap_cons, entries_object,
          stackEntries]
        exact ((List.reverse_perm _).flatMap_right _).append_right _
      obtain ⟨es, hes, heq⟩ := ih fun e he => hread e (hperm.mem_iff.mp he)
      exact ⟨es, hes.trans hperm, heq⟩
  | case5 key v stack inputs harray hobject ih =>
      have hv : entries key v = [(key, [v])] := by
        cases v with
        | array items => exact (harray items rfl).elim
        | object fields => exact (hobject fields rfl).elim
        | _ => rfl
      rw [stackEntries, List.flatMap_cons, hv, ← stackEntries] at hread ⊢
      obtain ⟨hthis, hrest⟩ := readable_append.mp hread
      obtain ⟨es, hes, heq⟩ := ih [(key, fieldElement (read v))] hrest
      refine ⟨[(key, [v])] ++ es, hes.append_left _, ?_⟩
      rw [hthis _ List.mem_cons_self v List.mem_cons_self key, Result.ok_bind, heq,
        List.append_assoc, pushesOf_append]
      rfl

/-! ### The map -/

theorem vector_append (inputs inputs' : Inputs) (name : String) :
    Inputs.vector (inputs ++ inputs') name = inputs.vector name ++ inputs'.vector name :=
  List.filterMap_append

theorem vector_pushesOf_of_ne {e : String × List Value} (h : e.1 ≠ name) :
    (pushesOf read [e]).vector name = [] := by
  rw [Inputs.vector, List.filterMap_eq_nil_iff]
  intro p hp
  rw [pushesOf, List.flatMap_cons, List.flatMap_nil, List.append_nil] at hp
  obtain ⟨v, -, rfl⟩ := List.mem_map.mp hp
  exact if_neg h

theorem vector_pushesOf_self (e : String × List Value) :
    (pushesOf read [e]).vector e.1 = e.2.map fun v => fieldElement (read v) := by
  rw [Inputs.vector, pushesOf, List.flatMap_cons, List.flatMap_nil, List.append_nil,
    List.filterMap_map]
  simp

theorem entryMap_cons (e : String × List Value) (es : List (String × List Value)) :
    entryMap read (e :: es) name =
      if e.1 = name then some (e.2.map fun v => fieldElement (read v))
      else entryMap read es name := by
  rw [entryMap, List.find?_cons]
  by_cases h : e.1 = name
  · rw [decide_eq_true h, if_pos h]
    rfl
  · rw [decide_eq_false h, if_neg h, entryMap]

theorem find_eq_some_iff {es : List (String × List Value)} (h : (es.map Prod.fst).Nodup)
    {e : String × List Value} : es.find? (fun e => e.1 = name) = some e ↔
      e ∈ es ∧ e.1 = name := by
  have hname : ∀ {e : String × List Value}, es.find? (fun e => e.1 = name) = some e →
      e.1 = name := fun hfind => by simpa using List.find?_some hfind
  constructor
  · intro hfind
    exact ⟨List.mem_of_find?_eq_some hfind, hname hfind⟩
  · rintro ⟨hmem, heq⟩
    have hsome : (es.find? fun e => e.1 = name).isSome = true :=
      List.find?_isSome.mpr ⟨e, hmem, by simpa using heq⟩
    obtain ⟨e', hfind⟩ := Option.isSome_iff_exists.mp hsome
    rw [hfind, List.inj_on_of_nodup_map h (List.mem_of_find?_eq_some hfind) hmem
      ((hname hfind).trans heq.symm)]

theorem entryMap_eq_of_perm {es es' : List (String × List Value)} (hperm : es.Perm es')
    (h : (es.map Prod.fst).Nodup) : entryMap read es name = entryMap read es' name := by
  have hfind : es.find? (fun e => e.1 = name) = es'.find? (fun e => e.1 = name) := by
    refine Option.ext fun e => ?_
    rw [find_eq_some_iff h, find_eq_some_iff ((hperm.map Prod.fst).nodup_iff.mp h),
      hperm.mem_iff]
  rw [entryMap, hfind, ← entryMap]

/-- Where names are different, the vector of a name is that of its entry. -/
theorem vector_pushesOf {es : List (String × List Value)} (h : (es.map Prod.fst).Nodup) :
    (pushesOf read es).vector name = (entryMap read es name).getD [] := by
  induction es with
  | nil => rfl
  | cons e rest ih =>
      obtain ⟨hnew, hrest⟩ := List.nodup_cons.mp h
      rw [← List.singleton_append, pushesOf_append, vector_append, ih hrest,
        List.singleton_append, entryMap_cons]
      by_cases hname : e.1 = name
      · have hnone : entryMap read rest name = none := by
          rw [entryMap, Option.map_eq_none_iff, List.find?_eq_none]
          intro e' he' heq
          refine hnew (List.mem_map.mpr ⟨e', he', ?_⟩)
          rw [hname]
          simpa using heq
        rw [hnone, if_pos hname, ← hname, vector_pushesOf_self]
        exact List.append_nil _
      · rw [vector_pushesOf_of_ne hname, if_neg hname, List.nil_append]

/-- **`flatten_input` is the recursion**, but for entries without primitives, which it leaves
out. -/
theorem flattenInput_entries {key : String} {value : Value}
    (hdenotes : ∀ e ∈ entries key value, ∀ v ∈ e.2, Denotes v (read v) ∧
      (read v).natAbs < bn256Modulus)
    (hnames : ((entries key value).map Prod.fst).Nodup) (inputs : Inputs) :
    ∃ pushes : Inputs, flattenInput key value inputs = .ok (inputs ++ pushes) ∧
      ∀ name, pushes.entry name =
        (entryMap read (entries key value) name).filter fun vector => vector ≠ [] := by
  have hstack : stackEntries [(key, value)] = entries key value := by
    rw [stackEntries, List.flatMap_cons, List.flatMap_nil, List.append_nil]
  have hread : Readable read (stackEntries [(key, value)]) := by
    rw [hstack]
    exact fun e he v hv key =>
      pushScalar_eq (hdenotes e he v hv).1 (hdenotes e he v hv).2 key
  obtain ⟨es, hperm, heq⟩ := @flattenLoop_eq _ _ inputs hread
  rw [hstack] at hperm
  have hnodup : (es.map Prod.fst).Nodup := (hperm.map Prod.fst).nodup_iff.mpr hnames
  refine ⟨pushesOf read es, heq, fun name => ?_⟩
  rw [Inputs.entry, vector_pushesOf hnodup, entryMap_eq_of_perm hperm hnodup]
  cases hentry : entryMap read (entries key value) name with
  | none => rfl
  | some vector =>
      rw [Option.getD_some, Option.filter_some]
      by_cases hnil : vector = []
      · rw [if_pos hnil, decide_eq_false (not_not_intro hnil), if_neg Bool.false_ne_true]
      · rw [if_neg hnil, decide_eq_true hnil, if_pos rfl]

/-- A ragged array, one that mixes an array with an object, and one without primitives. -/
def sampleInputs : Value :=
  .object [("amounts", .array [.array [.number ['7'], .string (String.ofList ['-', '5'])], .null,
      .array [.array [.number ['7']]]]),
    ("proofs", .array [.array [.number ['7'], .number ['7']], .object [("flag", .bool true)]]),
    ("siblings", .array [.array []])]

/-- What its primitives denote. -/
def sampleRead : Value → ℤ
  | .number _ => 7
  | .string _ => -5
  | .bool _ => 1
  | _ => 0

theorem flattenInput_entries_sample : ∃ pushes : Inputs,
    flattenInput "in" sampleInputs [] = .ok ([] ++ pushes) ∧ ∀ name, pushes.entry name =
      (entryMap sampleRead (entries "in" sampleInputs) name).filter fun vector => vector ≠ [] := by
  have hentries : entries "in" sampleInputs =
      [("in.amounts", [.number ['7'], .string (String.ofList ['-', '5']), .null, .number ['7']]),
        ("in.proofs[0]", [.number ['7'], .number ['7']]), ("in.proofs[1].flag", [.bool true]),
        ("in.siblings", [])] := rfl
  have hseven : Denotes (.number ['7']) (sampleRead (.number ['7'])) ∧
      (sampleRead (.number ['7'])).natAbs < bn256Modulus :=
    ⟨.natural rfl (by decide), by decide⟩
  refine flattenInput_entries ?_ ?_ []
  · rw [hentries]
    simp only [List.forall_mem_cons, List.not_mem_nil, false_implies, implies_true, and_true]
    exact ⟨⟨hseven, ⟨.minus rfl, by decide⟩, ⟨.null, by decide⟩, hseven⟩, ⟨hseven, hseven⟩,
      .bool true, by decide⟩
  · rw [hentries]
    decide

/-- An array without primitives makes no entry. -/
theorem empty_array_dropped :
    (∀ e ∈ entries "a" (.array []), ∀ v ∈ e.2, Denotes v (sampleRead v) ∧
      (sampleRead v).natAbs < bn256Modulus) ∧
    ((entries "a" (.array [])).map Prod.fst).Nodup ∧
    ¬ ∃ pushes : Inputs, flattenInput "a" (.array []) [] = .ok ([] ++ pushes) ∧
      ∀ name, pushes.entry name = entryMap sampleRead (entries "a" (.array [])) name := by
  have hentries : entries "a" (.array []) = [("a", [])] := rfl
  have hread : Readable sampleRead (stackEntries [("a", .array [])]) := by
    intro e he v hv
    rw [stackEntries, List.flatMap_cons, List.flatMap_nil, List.append_nil, hentries] at he
    rw [List.mem_singleton.mp he] at hv
    cases hv
  rw [hentries]
  refine ⟨by simp, by decide, ?_⟩
  rintro ⟨pushes, hflat, hentry⟩
  obtain ⟨es, hperm, heq⟩ := @flattenLoop_eq _ _ [] hread
  rw [stackEntries, List.flatMap_cons, List.flatMap_nil, List.append_nil, hentries,
    List.perm_singleton] at hperm
  rw [flattenInput, heq, hperm] at hflat
  obtain rfl : [] = pushes := Except.ok.inj hflat
  have ha := hentry "a"
  rw [entryMap_cons, if_pos rfl] at ha
  cases ha

end Enclave.Prover

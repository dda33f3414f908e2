import Enclave.Lib.Json
import Enclave.Prover.Serialization

/-! # The witness calculator

`lib.rs` of the wasm witness crate: JSON inputs become named signals (`flatten_input`), which the
calculator of the compiled circuit is given. -/

namespace Enclave.Prover

open Json

/-! ### Integers -/

/-- `BigInt::parse_bytes`: a sign, then digits, between which underscores may stand. -/
def parseBytes (cs : List Char) (radix : ℕ) : Option ℤ :=
  let negative : Bool := cs.head? = some '-'
  let cs := if negative ∧ cs.tail.head? ≠ some '+' then cs.tail else cs
  let cs := if cs.head? = some '+' ∧ cs.tail.head? ≠ some '+' then cs.tail else cs
  if cs.head? = some '_' then none
  else (Js.parseDigits radix (cs.filter (· ≠ '_'))).map fun n => if negative then -(n : ℤ) else n

/-- `to_field_element`. -/
def toFieldElement (bi : ℤ) : Result ℕ :=
  if bi < 0 then
    if -bi < bn256Modulus then .ok (bn256Modulus + bi).toNat
    else .error (.panic s!"Negative value {bi} exceeds field modulus")
  else if bi < bn256Modulus then .ok bi.toNat
  else .error (.panic s!"Value {bi} exceeds field modulus")

/-- A number as `as_u64` or `as_i64`. -/
def asInteger : List Char → Option ℤ
  | '-' :: cs => ((Js.parseDigits 10 cs).filter fun n => 0 < n ∧ n ≤ 2 ^ 63).map fun n => -(n : ℤ)
  | cs => ((Js.parseDigits 10 cs).filter (· < 2 ^ 64)).map Int.ofNat

/-- A text after `strip_prefix("0x")`, or as it is. -/
def textInteger (cs : List Char) : Option ℤ :=
  if cs.take 2 = ['0', 'x'] then parseBytes (cs.drop 2) 16 else parseBytes cs 10

/-- The integer of a text. -/
def readText (key s : String) : Result ℤ :=
  match textInteger s.toList with
  | some bi => .ok bi
  | none => .error (.error s!"Invalid bigint for {key}: {s}")

/-! ### Flattening -/

/-- The hash map of the inputs, as what was pushed: a name, and what its vector gained. -/
abbrev Inputs := List (String × ℕ)

def Inputs.vector (inputs : Inputs) (name : String) : List ℕ :=
  inputs.filterMap fun p => if p.1 = name then some p.2 else none

/-- The entry of a name; it is made when a value is pushed. -/
def Inputs.entry (inputs : Inputs) (name : String) : Option (List ℕ) :=
  if inputs.vector name = [] then none else some (inputs.vector name)

/-- What is pushed for a value that is no array and no object. -/
def pushScalar (key : String) : Value → Result Inputs
  | .number literal =>
      match asInteger literal with
      | some bi => do return [(key, ← toFieldElement bi)]
      | none => .error (.error s!"Invalid number for {key}")
  | .string s => do return [(key, ← toFieldElement (← readText key s))]
  | .bool b => .ok [(key, if b then 1 else 0)]
  | _ => .ok [(key, 0)]

theorem sum_lt_sum_cons {α : Type} {f : α → ℕ} {a : α} {as : List α} (h : 0 < f a) :
    (as.map f).sum < ((a :: as).map f).sum := by
  rw [List.map_cons, List.sum_cons]
  omega

/-- The loop of `is_pure_array`; the top of the stack is in front. -/
def isPureLoop : List Value → Bool
  | [] => true
  | .array items :: stack => isPureLoop (items.reverse ++ stack)
  | .object _ :: _ => false
  | _ :: stack => isPureLoop stack
termination_by stack => (stack.map Value.size).sum
decreasing_by
  · simp [Value.size, sizeItems_eq]
  · exact sum_lt_sum_cons (Value.size_pos _)

/-- `is_pure_array`. -/
def isPureArray (value : Value) : Bool := isPureLoop [value]

/-- `WorkItem`. -/
inductive WorkItem where
  | value (v : Value)
  | arrayIter (arr : List Value) (idx : ℕ)

/-- A measure of what a work item holds. -/
def WorkItem.weight : WorkItem → ℕ
  | .value v => 2 * v.size - 1
  | .arrayIter arr idx => 2 * sizeItems (arr.drop idx)

theorem WorkItem.weight_value_pos (v : Value) : 0 < (WorkItem.value v).weight := by
  have := v.size_pos
  rw [weight]
  omega

theorem WorkItem.weight_arrayIter {arr : List Value} {idx : ℕ} {item : Value}
    (h : arr[idx]? = some item) : (WorkItem.value item).weight +
      (WorkItem.arrayIter arr (idx + 1)).weight < (WorkItem.arrayIter arr idx).weight := by
  obtain ⟨hlt, rfl⟩ := List.getElem?_eq_some_iff.mp h
  have := arr[idx].size_pos
  rw [weight, weight, weight, List.drop_eq_getElem_cons hlt, sizeItems]
  omega

/-- The loop of `flatten_pure_array`. -/
def flattenPureLoop (key : String) : List WorkItem → Inputs → Result Inputs
  | [], inputs => .ok inputs
  | .value (.array arr) :: stack, inputs =>
      flattenPureLoop key (if arr.isEmpty then stack else .arrayIter arr 0 :: stack) inputs
  | .value (.object _) :: _, _ => .error (.error s!"Unexpected object in pure array: {key}")
  | .value v :: stack, inputs => do
      let pushed ← pushScalar key v
      flattenPureLoop key stack (inputs ++ pushed)
  | .arrayIter arr idx :: stack, inputs =>
      match _hitem : arr[idx]? with
      | none => .error (.panic "index out of bounds")
      | some item =>
          let stack := if idx + 1 < arr.length then .arrayIter arr (idx + 1) :: stack else stack
          flattenPureLoop key (.value item :: stack) inputs
termination_by stack => (stack.map WorkItem.weight).sum
decreasing_by
  · rw [List.map_cons, List.sum_cons, WorkItem.weight, Value.size]
    split
    · omega
    · rw [List.map_cons, List.sum_cons, WorkItem.weight, List.drop_zero]
      omega
  · exact sum_lt_sum_cons (WorkItem.weight_value_pos v)
  · have hlt := WorkItem.weight_arrayIter _hitem
    split
    · simp only [List.map_cons, List.sum_cons]
      omega
    · simp only [List.map_cons, List.sum_cons]
      omega

/-- `flatten_pure_array`. -/
def flattenPureArray (key : String) (value : Value) (inputs : Inputs) : Result Inputs :=
  flattenPureLoop key [.value value] inputs

def indexed (key : String) (i : ℕ) : String := key ++ "[" ++ i.repr ++ "]"

def dotted (key field : String) : String := key ++ "." ++ field

def indexedItems (key : String) (arr : List Value) : List (String × Value) :=
  arr.zipIdx.map fun (item, idx) => (indexed key idx, item)

def dottedFields (key : String) (obj : List (String × Value)) : List (String × Value) :=
  obj.map fun (field, val) => (dotted key field, val)

theorem size_indexedItems (key : String) (arr : List Value) :
    ((indexedItems key arr).map fun item => item.2.size).sum = sizeItems arr := by
  have hsnd : (indexedItems key arr).map (fun item => item.2.size) =
      (arr.zipIdx.map Prod.fst).map Value.size := by
    rw [indexedItems, List.map_map, List.map_map]
    rfl
  rw [hsnd, List.zipIdx_map_fst, sizeItems_eq]

theorem size_dottedFields (key : String) (obj : List (String × Value)) :
    ((dottedFields key obj).map fun item => item.2.size).sum = sizeFields obj := by
  rw [dottedFields, List.map_map, sizeFields_eq]
  rfl

/-- The loop of `flatten_input`: items are pushed from the last one on, fields from the first. -/
def flattenLoop : List (String × Value) → Inputs → Result Inputs
  | [], inputs => .ok inputs
  | (key, .array arr) :: stack, inputs =>
      if isPureArray (.array arr) then do
        let inputs ← flattenPureArray key (.array arr) inputs
        flattenLoop stack inputs
      else flattenLoop (indexedItems key arr ++ stack) inputs
  | (key, .object obj) :: stack, inputs =>
      flattenLoop ((dottedFields key obj).reverse ++ stack) inputs
  | (key, v) :: stack, inputs => do
      let pushed ← pushScalar key v
      flattenLoop stack (inputs ++ pushed)
termination_by stack => (stack.map fun item => item.2.size).sum
decreasing_by
  · exact sum_lt_sum_cons (Value.size_pos _)
  · rw [List.map_append, List.sum_append, size_indexedItems, List.map_cons, List.sum_cons,
      Value.size]
    omega
  · rw [List.map_append, List.sum_append, List.map_reverse, List.sum_reverse, size_dottedFields,
      List.map_cons, List.sum_cons, Value.size]
    omega
  · exact sum_lt_sum_cons (Value.size_pos _)

/-- `flatten_input`. -/
def flattenInput (key : String) (value : Value) (inputs : Inputs) : Result Inputs :=
  flattenLoop [(key, value)] inputs

/-- What `compute_witness` hands to the calculator. -/
def computeInputs : Value → Result Inputs
  | .object fields => fields.foldlM (fun inputs field => flattenInput field.1 field.2 inputs) []
  | _ => .error (.error "Inputs must be a JSON object")

end Enclave.Prover

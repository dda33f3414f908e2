import Enclave.Lib.Json

/-! # JavaScript values from JSON

What the language does with a value that came out of a JSON text and is used under another type:
reading a property, truth, comparison, text and `BigInt`.  A `JsValue` is `none` where there is none.
What a number literal denotes is left to the platform (`Numerals`); no law is asked of it. -/

namespace Enclave

open Json (Value)

/-- A value out of a JSON text; `none` is `undefined`. -/
abbrev JsValue := Option Value

/-- What the platform does with the number that a literal denotes. -/
structure Numerals where
  /-- `BigInt(x)`; `none` is a `RangeError`. -/
  bigInt : List Char → Option ℤ
  /-- `String(x)`. -/
  toString : List Char → String
  /-- `x == 0`. -/
  isZero : List Char → Bool
  /-- `x === y`. -/
  same : List Char → List Char → Bool
  /-- The value as an item of a `Uint8Array`. -/
  toUint8 : Value → UInt8
  /-- `Number.isFinite(x)`. -/
  isFinite : List Char → Bool

namespace JsValue

/-- A property of a value that is neither `undefined` nor `null`. -/
def prop (v : JsValue) (name : String) : JsValue := v.bind fun v => v.get name

variable (num : Numerals)

/-- `!v`. -/
def falsy : JsValue → Bool
  | none => true
  | some .null => true
  | some (.bool b) => !b
  | some (.number literal) => num.isZero literal
  | some (.string s) => s = ""
  | some (.array _) => false
  | some (.object _) => false

/-- `typeof v === "object"`, of a value that is not falsy. -/
def isObject : JsValue → Bool
  | some (.array _) => true
  | some (.object _) => true
  | _ => false

mutual

/-- `String(v)`. -/
def textOf : Value → String
  | .null => "null"
  | .bool b => if b then "true" else "false"
  | .number literal => num.toString literal
  | .string s => s
  | .array items => ",".intercalate (itemTexts items)
  | .object _ => "[object Object]"

/-- The items of an array as it is joined: `null` is nothing. -/
def itemTexts : List Value → List String
  | [] => []
  | .null :: rest => "" :: itemTexts rest
  | item :: rest => textOf item :: itemTexts rest

end

/-- `BigInt(v)`; `none` if it throws. -/
def bigInt : JsValue → Option ℤ
  | none => none
  | some .null => none
  | some (.bool b) => some (if b then 1 else 0)
  | some (.number literal) => num.bigInt literal
  | some v => Js.bigInt (textOf num v)

/-- `v === w`. -/
def strictEquals : JsValue → JsValue → Bool
  | none, none => true
  | some .null, some .null => true
  | some (.bool b), some (.bool c) => b == c
  | some (.number l), some (.number m) => num.same l m
  | some (.string s), some (.string t) => s == t
  | _, _ => false

/-- The items of `for (const x of v ?? [])`; `none` if the value is not iterable. -/
def iterate : JsValue → Option (List Value)
  | none => some []
  | some .null => some []
  | some (.array items) => some items
  | some (.string s) => some (s.toList.map fun c => .string (String.singleton c))
  | _ => none

mutual

/-- `JSON.parse(JSON.stringify(v))`: a number that is not finite is written as `null`. -/
def rewritten : Value → Value
  | .number literal => if num.isFinite literal then .number literal else .null
  | .array items => .array (rewrittenItems items)
  | .object fields => .object (rewrittenFields fields)
  | v => v

def rewrittenItems : List Value → List Value
  | [] => []
  | item :: rest => rewritten item :: rewrittenItems rest

def rewrittenFields : List (String × Value) → List (String × Value)
  | [] => []
  | (name, v) :: rest => (name, rewritten v) :: rewrittenFields rest

end

/-- `o[name] = v` on the properties of an object, for a name other than `__proto__`. -/
def setProperty (fields : List (String × Value)) (name : String) (v : Value) :
    List (String × Value) :=
  if fields.any fun f => f.1 = name then fields.map fun f => if f.1 = name then (name, v) else f
  else fields ++ [(name, v)]

variable {num}

theorem bigInt_string (s : String) : bigInt num (some (.string s)) = Js.bigInt s := by
  simp [bigInt, textOf]

@[simp] theorem rewritten_string (s : String) : rewritten num (.string s) = .string s := by
  simp [rewritten]

theorem rewrittenItems_strings (ns : List String) :
    rewrittenItems num (ns.map .string) = ns.map .string := by
  induction ns with
  | nil => rfl
  | cons n ns ih => rw [List.map_cons, rewrittenItems, rewritten_string, ih]

/-! ### Properties that are set -/

theorem find?_overwrite {l : List (String × Value)} {name : String} {v : Value}
    (h : ∃ f ∈ l, f.1 = name) :
    (l.map fun f => if f.1 = name then (name, v) else f).find? (fun f => f.1 = name) =
      some (name, v) := by
  induction l with
  | nil =>
      obtain ⟨f, hf, -⟩ := h
      cases hf
  | cons f rest ih =>
      by_cases hf : f.1 = name
      · simp [hf]
      · obtain ⟨g, hg, hname⟩ := h
        obtain rfl | hg := List.mem_cons.mp hg
        · exact absurd hname hf
        · simpa [hf] using ih ⟨g, hg, hname⟩

theorem find?_overwrite_of_ne {name other : String} (hne : other ≠ name)
    (l : List (String × Value)) (v : Value) :
    (l.map fun f => if f.1 = name then (name, v) else f).find? (fun f => f.1 = other) =
      l.find? fun f => f.1 = other := by
  induction l with
  | nil => rfl
  | cons f rest ih =>
      by_cases hf : f.1 = name
      · simp [hf, hne.symm, ih]
      · by_cases hother : f.1 = other
        · simp [hother, hne]
        · simp [hf, hother, ih]

theorem get_setProperty (fields : List (String × Value)) (name : String) (v : Value) :
    (Value.object (setProperty fields name v)).get name = some v := by
  unfold Value.get setProperty
  dsimp only
  split
  · rename_i hany
    obtain ⟨f, hf, hname⟩ := List.any_eq_true.mp hany
    rw [← List.map_reverse, find?_overwrite ⟨f, List.mem_reverse.mpr hf, of_decide_eq_true hname⟩]
    rfl
  · simp

theorem get_setProperty_of_ne {name other : String} (hne : other ≠ name)
    (fields : List (String × Value)) (v : Value) :
    (Value.object (setProperty fields name v)).get other = (Value.object fields).get other := by
  unfold Value.get setProperty
  dsimp only
  split
  · rw [← List.map_reverse, find?_overwrite_of_ne hne]
  · simp [hne.symm]

theorem rewrittenFields_setProperty (fields : List (String × Value)) (name : String) (v : Value) :
    rewrittenFields num (setProperty fields name v) =
      setProperty (rewrittenFields num fields) name (rewritten num v) := by
  have hany : ∀ l : List (String × Value), (rewrittenFields num l).any (fun f => f.1 = name) =
      l.any fun f => f.1 = name := by
    intro l
    induction l with
    | nil => rfl
    | cons f rest ih => rw [rewrittenFields, List.any_cons, List.any_cons, ih]
  have hmap : ∀ l : List (String × Value),
      rewrittenFields num (l.map fun f => if f.1 = name then (name, v) else f) =
        (rewrittenFields num l).map fun f => if f.1 = name then (name, rewritten num v) else f := by
    intro l
    induction l with
    | nil => rfl
    | cons f rest ih => by_cases hf : f.1 = name <;> simp [rewrittenFields, hf, ih]
  have happend : ∀ l : List (String × Value), rewrittenFields num (l ++ [(name, v)]) =
      rewrittenFields num l ++ [(name, rewritten num v)] := by
    intro l
    induction l with
    | nil => rfl
    | cons f rest ih => simp [rewrittenFields, ih]
  unfold setProperty
  rw [hany]
  split
  · exact hmap fields
  · exact happend fields

end JsValue

end Enclave

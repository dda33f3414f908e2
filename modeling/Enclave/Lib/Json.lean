import Enclave.Lib.JsText

/-! # JSON text

`JSON.parse` on lists of characters.  A parser takes what is left of the text and leaves what it did
not read; nesting is bounded by the length of the text.  A number keeps its literal.  A `\\u`
escape that is half of a surrogate pair stands as `U+FFFD`, as in `Js.codeUnits`.

A text that begins with a letter or a digit is a literal or a number (`parse_scalar`).  `Parses`
says that a parser reads a text and nothing after it; strings, arrays and objects of texts that are
read are read (`parses_string`, `parses_array`, `parses_object`). -/

namespace Enclave.Json

inductive Value where
  | null
  | bool (b : Bool)
  | number (literal : List Char)
  | string (s : String)
  | array (items : List Value)
  | object (fields : List (String × Value))

/-- Parsers: a result, and what is left of the text. -/
abbrev Parser (α : Type) := List Char → Option (α × List Char)

/-! ### White space and literals -/

def isSpace (c : Char) : Bool := c = ' ' || c = '\t' || c = '\n' || c = '\r'

/-- What is left after white space. -/
def skipSpace (cs : List Char) : List Char := cs.dropWhile isSpace

/-- What is left after a given text. -/
def expect : List Char → List Char → Option (List Char)
  | [], cs => some cs
  | _ :: _, [] => none
  | t :: ts, c :: cs => if t = c then expect ts cs else none

/-! ### Numbers -/

/-- A run of digits, not empty. -/
def digits : Parser (List Char) := fun cs =>
  if (cs.takeWhile Char.isDigit).isEmpty then none
  else some (cs.takeWhile Char.isDigit, cs.dropWhile Char.isDigit)

/-- `0`, or digits that do not begin with `0`. -/
def integerPart : Parser (List Char)
  | '0' :: cs => some (['0'], cs)
  | cs => digits cs

/-- An optional fraction. -/
def fractionPart : Parser (List Char)
  | '.' :: cs => (digits cs).map fun r => ('.' :: r.1, r.2)
  | cs => some ([], cs)

/-- An optional exponent. -/
def exponentPart : Parser (List Char)
  | c :: cs =>
      if c = 'e' ∨ c = 'E' then
        match cs with
        | '+' :: rest => (digits rest).map fun r => (c :: '+' :: r.1, r.2)
        | '-' :: rest => (digits rest).map fun r => (c :: '-' :: r.1, r.2)
        | rest => (digits rest).map fun r => (c :: r.1, r.2)
      else some ([], c :: cs)
  | [] => some ([], [])

/-- A number without its sign. -/
def unsignedNumber : Parser (List Char) := fun cs => do
  let (i, cs) ← integerPart cs
  let (f, cs) ← fractionPart cs
  let (e, cs) ← exponentPart cs
  return (i ++ f ++ e, cs)

def number : Parser (List Char)
  | '-' :: cs => (unsignedNumber cs).map fun r => ('-' :: r.1, r.2)
  | cs => unsignedNumber cs

/-! ### Strings -/

/-- The character of a code unit. -/
def ofCodeUnit (n : ℕ) : Char := if 0xD800 ≤ n ∧ n ≤ 0xDFFF then '\uFFFD' else Char.ofNat n

/-- The character an escape stands for. -/
def escape : Parser Char
  | '"' :: cs => some ('"', cs)
  | '\\' :: cs => some ('\\', cs)
  | '/' :: cs => some ('/', cs)
  | 'b' :: cs => some ('\u0008', cs)
  | 'f' :: cs => some ('\u000C', cs)
  | 'n' :: cs => some ('\n', cs)
  | 'r' :: cs => some ('\r', cs)
  | 't' :: cs => some ('\t', cs)
  | 'u' :: a :: b :: c :: d :: cs =>
      (Js.digitsValue 16 0 [a, b, c, d]).map fun n => (ofCodeUnit n, cs)
  | _ => none

/-- A string after its opening quote. -/
def stringBody : ℕ → Parser (List Char)
  | 0, _ => none
  | _ + 1, [] => none
  | fuel + 1, c :: cs =>
      if c = '"' then some ([], cs)
      else if c = '\\' then do
        let (d, cs) ← escape cs
        let (ds, cs) ← stringBody fuel cs
        return (d :: ds, cs)
      else if c.toNat < 0x20 then none
      else do
        let (ds, cs) ← stringBody fuel cs
        return (c :: ds, cs)

/-! ### Values -/

/-- Items separated by commas, up to a closing character. -/
def separated {α : Type} (item : Parser α) (close : Char) : ℕ → Parser (List α)
  | 0, _ => none
  | fuel + 1, cs => (item cs).bind fun r =>
      match skipSpace r.2 with
      | c :: rest =>
          if c = close then some ([r.1], rest)
          else if c = ',' then (separated item close fuel rest).map fun s => (r.1 :: s.1, s.2)
          else none
      | [] => none

def member (value : Parser Value) : Parser (String × Value) := fun cs =>
  match skipSpace cs with
  | '"' :: rest => (stringBody (rest.length + 1) rest).bind fun key =>
      match skipSpace key.2 with
      | ':' :: rest => (value rest).map fun v => ((String.ofList key.1, v.1), v.2)
      | _ => none
  | _ => none

/-- What follows an opening bracket: nothing, or items. -/
def items {α : Type} (item : Parser α) (close : Char) : Parser (List α) := fun cs =>
  match skipSpace cs with
  | c :: rest =>
      if c = close then some ([], rest)
      else separated item close (cs.length + 1) cs
  | [] => none

/-- A value that is a literal or a number. -/
def scalar (cs : List Char) : Option (Value × List Char) :=
  match expect ['n', 'u', 'l', 'l'] cs with
  | some rest => some (.null, rest)
  | none =>
      match expect ['t', 'r', 'u', 'e'] cs with
      | some rest => some (.bool true, rest)
      | none =>
          match expect ['f', 'a', 'l', 's', 'e'] cs with
          | some rest => some (.bool false, rest)
          | none => (number cs).map fun r => (.number r.1, r.2)

/-- A value with white space before it. -/
def value : ℕ → Parser Value
  | 0, _ => none
  | fuel + 1, cs =>
      match skipSpace cs with
      | '"' :: rest => (stringBody (rest.length + 1) rest).map fun r =>
          (.string (String.ofList r.1), r.2)
      | '[' :: rest => (items (value fuel) ']' rest).map fun r => (.array r.1, r.2)
      | '{' :: rest => (items (member (value fuel)) '}' rest).map fun r => (.object r.1, r.2)
      | cs => scalar cs

/-- `JSON.parse`; `none` is a `SyntaxError`. -/
def parse (cs : List Char) : Option Value := do
  let (v, rest) ← value (cs.length + 1) cs
  if (skipSpace rest).isEmpty then return v else none

mutual

/-- The number of values in a value, itself included. -/
def Value.size : Value → ℕ
  | .array items => sizeItems items + 1
  | .object fields => sizeFields fields + 1
  | _ => 1

def sizeItems : List Value → ℕ
  | [] => 0
  | item :: rest => item.size + sizeItems rest

def sizeFields : List (String × Value) → ℕ
  | [] => 0
  | (_, value) :: rest => value.size + sizeFields rest

end

theorem sizeItems_eq (items : List Value) : sizeItems items = (items.map Value.size).sum := by
  induction items with
  | nil => rw [sizeItems, List.map_nil, List.sum_nil]
  | cons item rest ih => rw [sizeItems, ih, List.map_cons, List.sum_cons]

theorem sizeFields_eq (fields : List (String × Value)) :
    sizeFields fields = (fields.map fun field => field.2.size).sum := by
  induction fields with
  | nil => rw [sizeFields, List.map_nil, List.sum_nil]
  | cons field rest ih => rw [sizeFields, ih, List.map_cons, List.sum_cons]

theorem Value.size_pos (v : Value) : 0 < v.size := by
  cases v <;> simp [Value.size]

/-- A property of an object: of several with one name, the last. -/
def Value.get (v : Value) (name : String) : Option Value :=
  match v with
  | .object fields => (fields.reverse.find? fun f => f.1 = name).map Prod.snd
  | _ => none

/-! ### Scalars -/

theorem value_scalar {c : Char} {cs : List Char} (fuel : ℕ) (hc : c.isAlphanum = true) :
    value (fuel + 1) (c :: cs) = scalar (c :: cs) := by
  have hne : ∀ d : Char, d.isAlphanum = false → c ≠ d := by
    intro d hd hcd
    rw [hcd, hd] at hc
    cases hc
  have hspace : skipSpace (c :: cs) = c :: cs := by
    rw [skipSpace, List.dropWhile_cons_of_neg]
    simp only [isSpace, Bool.or_eq_true, decide_eq_true_eq, not_or]
    exact ⟨⟨⟨hne ' ' (by decide), hne '\t' (by decide)⟩, hne '\n' (by decide)⟩,
      hne '\r' (by decide)⟩
  rw [value, hspace]
  split
  · rename_i heq
    exact absurd (List.cons.inj heq).1 (hne '"' (by decide))
  · rename_i heq
    exact absurd (List.cons.inj heq).1 (hne '[' (by decide))
  · rename_i heq
    exact absurd (List.cons.inj heq).1 (hne '{' (by decide))
  · rfl

theorem scalar_cases {cs : List Char} {v : Value} {rest : List Char}
    (h : scalar cs = some (v, rest)) :
    v = .null ∨ (∃ b, v = .bool b) ∨ ∃ literal, v = .number literal := by
  unfold scalar at h
  split at h
  · exact .inl (Prod.mk.inj (Option.some.inj h)).1.symm
  · split at h
    · exact .inr (.inl ⟨true, (Prod.mk.inj (Option.some.inj h)).1.symm⟩)
    · split at h
      · exact .inr (.inl ⟨false, (Prod.mk.inj (Option.some.inj h)).1.symm⟩)
      · obtain ⟨r, -, hr⟩ := Option.map_eq_some_iff.mp h
        exact .inr (.inr ⟨r.1, (Prod.mk.inj hr).1.symm⟩)

/-- **A text that begins with a letter or a digit** is a literal or a number, if it is JSON. -/
theorem parse_scalar {c : Char} {cs : List Char} {v : Value} (hc : c.isAlphanum = true)
    (h : parse (c :: cs) = some v) :
    v = .null ∨ (∃ b, v = .bool b) ∨ ∃ literal, v = .number literal := by
  unfold parse at h
  rw [value_scalar _ hc] at h
  obtain ⟨⟨v', rest⟩, hscalar, hrest⟩ := Option.bind_eq_some_iff.mp h
  dsimp only at hrest
  split at hrest
  · cases hrest
    exact scalar_cases hscalar
  · cases hrest

/-! ### Texts that are written -/

/-- The parser reads the text, whatever follows. -/
def Parses {α : Type} (p : Parser α) (text : List Char) (a : α) : Prop :=
  ∀ rest, p (text ++ rest) = some (a, rest)

/-- No character of a string needs an escape. -/
def isPlain (s : List Char) : Bool := s.all fun c => c ≠ '"' && c ≠ '\\' && 0x20 ≤ c.toNat

/-- A string in quotes. -/
def quote (s : String) : List Char := '"' :: s.toList ++ ['"']

/-- Texts with commas between. -/
def commas : List (List Char) → List Char
  | [] => []
  | t :: ts => t ++ ts.flatMap fun u => ',' :: u

def arrayText (items : List (List Char)) : List Char := '[' :: commas items ++ [']']

def objectText (fields : List (String × List Char)) : List Char :=
  '{' :: commas (fields.map fun f => quote f.1 ++ ':' :: f.2) ++ ['}']

/-- The text begins like a string, an array or an object. -/
def opens (text : List Char) : Bool :=
  text.head? = some '"' || text.head? = some '[' || text.head? = some '{'

theorem skipSpace_cons {c : Char} (cs : List Char) (hc : isSpace c = false) :
    skipSpace (c :: cs) = c :: cs := by
  rw [skipSpace, List.dropWhile_cons_of_neg]
  rw [hc]
  exact Bool.false_ne_true

theorem exists_cons_of_opens {text : List Char} (h : opens text = true) :
    ∃ c cs, text = c :: cs ∧ (c = '"' ∨ c = '[' ∨ c = '{') := by
  cases text with
  | nil => cases h
  | cons c cs =>
      refine ⟨c, cs, rfl, ?_⟩
      simpa [opens, or_assoc] using h

theorem stringBody_plain {s : List Char} (hs : isPlain s = true) (rest : List Char) :
    ∀ {fuel : ℕ}, s.length < fuel → stringBody fuel (s ++ '"' :: rest) = some (s, rest) := by
  induction s with
  | nil =>
      intro fuel hfuel
      cases fuel with
      | zero => exact absurd hfuel (Nat.not_lt_zero _)
      | succ fuel => rfl
  | cons c s ih =>
      intro fuel hfuel
      cases fuel with
      | zero => exact absurd hfuel (Nat.not_lt_zero _)
      | succ fuel =>
          rw [isPlain, List.all_cons, Bool.and_eq_true, Bool.and_eq_true, Bool.and_eq_true,
            decide_eq_true_eq, decide_eq_true_eq, decide_eq_true_eq] at hs
          obtain ⟨⟨⟨hquote, hslash⟩, hspace⟩, htail⟩ := hs
          rw [List.cons_append, stringBody, if_neg hquote, if_neg hslash, if_neg (by omega),
            ih htail (Nat.lt_of_succ_lt_succ hfuel)]
          rfl

theorem parses_string {s : String} (hs : isPlain s.toList = true) (fuel : ℕ) :
    Parses (value (fuel + 1)) (quote s) (.string s) := by
  intro rest
  have happend : quote s ++ rest = '"' :: (s.toList ++ '"' :: rest) := by
    rw [quote, List.cons_append, List.cons_append, List.append_assoc]
    rfl
  rw [happend, value, skipSpace_cons _ (by decide)]
  change (stringBody _ _).map _ = _
  rw [stringBody_plain hs rest (by rw [List.length_append]; omega), Option.map_some,
    String.ofList_toList]

theorem member_quote {p : Parser Value} {key : String} {text rest : List Char} {v : Value}
    (hkey : isPlain key.toList = true) (h : p (text ++ rest) = some (v, rest)) :
    member p (quote key ++ ':' :: text ++ rest) = some ((key, v), rest) := by
  have happend : quote key ++ ':' :: text ++ rest =
      '"' :: (key.toList ++ '"' :: (':' :: (text ++ rest))) := by
    simp only [quote, List.cons_append, List.append_assoc, List.nil_append]
  rw [happend, member, skipSpace_cons _ (by decide)]
  change ((stringBody _ _).bind _) = _
  rw [stringBody_plain hkey _ (by rw [List.length_append]; omega), Option.bind_some]
  dsimp only
  rw [skipSpace_cons _ (by decide)]
  change (p (text ++ rest)).map _ = _
  rw [h, Option.map_some, String.ofList_toList]

theorem parses_member {p : Parser Value} {key : String} {text : List Char} {v : Value}
    (hkey : isPlain key.toList = true) (h : Parses p text v) :
    Parses (member p) (quote key ++ ':' :: text) (key, v) :=
  fun rest => member_quote hkey (h rest)

theorem separated_commas {α : Type} {item : Parser α} {close : Char} (hspace : isSpace close = false)
    (hcomma : close ≠ ',') (rest : List Char) : ∀ {ts : List (List Char)} {as : List α}
    {t : List Char} {a : α} {fuel : ℕ}, ts.length < fuel → Parses item t a →
      List.Forall₂ (Parses item) ts as →
      separated item close fuel (commas (t :: ts) ++ close :: rest) = some (a :: as, rest) := by
  intro ts as t a fuel hfuel ht hts
  induction hts generalizing t a fuel with
  | nil =>
      cases fuel with
      | zero => exact absurd hfuel (Nat.not_lt_zero _)
      | succ fuel =>
          rw [separated, commas, List.flatMap_nil, List.append_nil, ht, Option.bind_some]
          dsimp only
          rw [skipSpace_cons _ hspace]
          exact if_pos rfl
  | @cons t' a' ts as ht' _ ih =>
      cases fuel with
      | zero => exact absurd hfuel (Nat.not_lt_zero _)
      | succ fuel =>
          have happend : commas (t :: t' :: ts) ++ close :: rest =
              t ++ (',' :: (commas (t' :: ts) ++ close :: rest)) := by
            simp only [commas, List.flatMap_cons, List.append_assoc, List.cons_append]
          rw [happend, separated, ht, Option.bind_some]
          dsimp only
          rw [skipSpace_cons _ (by decide)]
          dsimp only
          rw [if_neg hcomma.symm, if_pos rfl, ih (Nat.lt_of_succ_lt_succ hfuel) ht']
          rfl

theorem length_le_length_commas (t : List Char) (ts : List (List Char)) :
    ts.length ≤ (commas (t :: ts)).length := by
  rw [commas, List.length_append]
  have h : ∀ us : List (List Char), us.length ≤ (us.flatMap fun u => ',' :: u).length := by
    intro us
    induction us with
    | nil => exact Nat.le_refl _
    | cons u us ih =>
        rw [List.flatMap_cons, List.length_append, List.length_cons, List.length_cons]
        omega
  exact le_trans (h ts) (Nat.le_add_left _ _)

theorem items_commas {α : Type} {item : Parser α} {close : Char} (hspace : isSpace close = false)
    (hcomma : close ≠ ',') (hopens : ∀ text, opens text = true → text.head? ≠ some close)
    (rest : List Char) {t : List Char} {ts : List (List Char)} {a : α} {as : List α}
    (ht : Parses item t a) (hts : List.Forall₂ (Parses item) ts as) (hopen : opens t = true) :
    items item close (commas (t :: ts) ++ close :: rest) = some (a :: as, rest) := by
  obtain ⟨c, cs, rfl, hc⟩ := exists_cons_of_opens hopen
  have hne : c ≠ close := fun h => hopens (c :: cs) hopen (by rw [h]; rfl)
  have hfuel : ts.length < (commas ((c :: cs) :: ts) ++ close :: rest).length + 1 := by
    have hle := length_le_length_commas (c :: cs) ts
    rw [List.length_append]
    omega
  have hsep := separated_commas hspace hcomma rest hfuel ht hts
  have hhead : commas ((c :: cs) :: ts) ++ close :: rest =
      c :: (cs ++ (ts.flatMap fun u => ',' :: u) ++ close :: rest) := by
    simp only [commas, List.cons_append]
  rw [items, hhead, skipSpace_cons _ (by obtain rfl | rfl | rfl := hc <;> decide)]
  dsimp only
  rw [if_neg hne, ← hhead]
  exact hsep

theorem not_opens_head {close : Char} (hclose : close = ']' ∨ close = '}') (text : List Char)
    (h : opens text = true) : text.head? ≠ some close := by
  obtain ⟨c, cs, rfl, hc⟩ := exists_cons_of_opens h
  intro heq
  cases Option.some.inj heq
  obtain rfl | rfl := hclose <;> revert hc <;> decide

/-- **An array of texts that are read.** -/
theorem parses_array {fuel : ℕ} {t : List Char} {ts : List (List Char)} {v : Value}
    {vs : List Value} (ht : Parses (value fuel) t v) (hts : List.Forall₂ (Parses (value fuel)) ts vs)
    (hopen : opens t = true) :
    Parses (value (fuel + 1)) (arrayText (t :: ts)) (.array (v :: vs)) := by
  intro rest
  have happend : arrayText (t :: ts) ++ rest = '[' :: (commas (t :: ts) ++ ']' :: rest) := by
    simp only [arrayText, List.cons_append, List.append_assoc, List.nil_append]
  rw [happend, value, skipSpace_cons _ (by decide)]
  change (items _ _ _).map _ = _
  rw [items_commas (by decide) (by decide) (not_opens_head (.inl rfl)) rest ht hts hopen]
  rfl

/-- **An object of texts that are read.** -/
theorem parses_object {fuel : ℕ} {f : String × List Char} {fs : List (String × List Char)}
    {m : String × Value} {ms : List (String × Value)}
    (hf : isPlain f.1.toList = true ∧ f.1 = m.1 ∧ Parses (value fuel) f.2 m.2)
    (hfs : List.Forall₂ (fun f m => isPlain f.1.toList = true ∧ f.1 = m.1 ∧
      Parses (value fuel) f.2 m.2) fs ms) :
    Parses (value (fuel + 1)) (objectText (f :: fs)) (.object (m :: ms)) := by
  intro rest
  have happend : objectText (f :: fs) ++ rest =
      '{' :: (commas ((f :: fs).map fun f => quote f.1 ++ ':' :: f.2) ++ '}' :: rest) := by
    simp only [objectText, List.cons_append, List.append_assoc, List.nil_append]
  have hmember : ∀ {f : String × List Char} {m : String × Value},
      (isPlain f.1.toList = true ∧ f.1 = m.1 ∧ Parses (value fuel) f.2 m.2) →
      Parses (member (value fuel)) (quote f.1 ++ ':' :: f.2) m := by
    intro f m h
    have hparses := parses_member h.1 h.2.2
    rwa [h.2.1] at hparses ⊢
  rw [happend, value, skipSpace_cons _ (by decide)]
  change (items _ _ _).map _ = _
  rw [List.map_cons, items_commas (by decide) (by decide) (not_opens_head (.inr rfl)) rest
    (hmember hf) (List.forall₂_map_left_iff.mpr (hfs.imp fun _ _ h => hmember h)) rfl]
  rfl

/-- **A text that is read is parsed.** -/
theorem parse_of_parses {text : List Char} {v : Value}
    (h : Parses (value (text.length + 1)) text v) : parse text = some v := by
  have hvalue := h []
  rw [List.append_nil] at hvalue
  rw [parse, hvalue]
  rfl

end Enclave.Json

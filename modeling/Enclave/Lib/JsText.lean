import Mathlib

/-! # JavaScript's numeric text

`bigInt` is `BigInt` of a string: white space around it is dropped, nothing is zero, an integer is
decimal with an optional sign, or binary, octal or hexadecimal with a prefix.  Many spellings
denote one integer; the one that `toString` writes is read back (`bigInt_repr`).

`parseInt16` is `parseInt` with radix 16: the longest run of digits counts.

A string is indexed by its UTF-16 code units (`codeUnits`). -/

namespace Enclave.Js

/-- The code units of a string; a half of a surrogate pair is no character, and stands as
`U+FFFD`. -/
def codeUnits (s : String) : List Char :=
  s.toList.flatMap fun c => if c.toNat < 0x10000 then [c] else ['\uFFFD', '\uFFFD']

/-- `replace(/^0x/, "")`. -/
def strip0x (cs : List Char) : List Char := if cs.take 2 = ['0', 'x'] then cs.drop 2 else cs

/-- `WhiteSpace` and `LineTerminator`. -/
def isWhiteSpace (c : Char) : Bool :=
  c.toNat ∈ [0x9, 0xA, 0xB, 0xC, 0xD, 0x20, 0xA0, 0x1680, 0x2028, 0x2029, 0x202F, 0x205F,
    0x3000, 0xFEFF] || (0x2000 ≤ c.toNat && c.toNat ≤ 0x200A)

/-- `String.prototype.trim`. -/
def trim (cs : List Char) : List Char :=
  ((cs.dropWhile isWhiteSpace).reverse.dropWhile isWhiteSpace).reverse

/-- The value of a digit, up to radix 16. -/
def digitValue (c : Char) : Option ℕ :=
  if c.isDigit then some (c.toNat - '0'.toNat)
  else if 'a' ≤ c ∧ c ≤ 'f' then some (c.toNat - 'a'.toNat + 10)
  else if 'A' ≤ c ∧ c ≤ 'F' then some (c.toNat - 'A'.toNat + 10)
  else none

/-- The value of a digit in a radix. -/
def digitIn (radix : ℕ) (c : Char) : Option ℕ := (digitValue c).filter (· < radix)

/-- The value of digits after those read so far. -/
def digitsValue (radix : ℕ) : ℕ → List Char → Option ℕ
  | acc, [] => some acc
  | acc, c :: cs => (digitIn radix c).bind fun d => digitsValue radix (radix * acc + d) cs

/-- At least one digit. -/
def parseDigits (radix : ℕ) (cs : List Char) : Option ℕ :=
  if cs = [] then none else digitsValue radix 0 cs

/-- Digits as an integer. -/
def parseInteger (radix : ℕ) (cs : List Char) : Option ℤ :=
  (parseDigits radix cs).map Int.ofNat

/-- `StringToBigInt`. -/
def stringToBigInt (cs : List Char) : Option ℤ :=
  let t := trim cs
  if t = [] then some 0
  else if t.take 2 = ['0', 'x'] ∨ t.take 2 = ['0', 'X'] then
    parseInteger 16 (t.drop 2)
  else if t.take 2 = ['0', 'o'] ∨ t.take 2 = ['0', 'O'] then
    parseInteger 8 (t.drop 2)
  else if t.take 2 = ['0', 'b'] ∨ t.take 2 = ['0', 'B'] then
    parseInteger 2 (t.drop 2)
  else if t.head? = some '-' then (parseInteger 10 t.tail).map Int.neg
  else if t.head? = some '+' then parseInteger 10 t.tail
  else parseInteger 10 t

/-- `BigInt` of a string; `none` is a `SyntaxError`. -/
def bigInt (s : String) : Option ℤ := stringToBigInt s.toList

/-- The digits in front. -/
def takeDigits (radix : ℕ) (cs : List Char) : List Char :=
  cs.takeWhile fun c => (digitIn radix c).isSome

/-- `parseInt(s, 16)`; `none` is `NaN`. -/
def parseInt16 (cs : List Char) : Option ℤ :=
  let t := cs.dropWhile isWhiteSpace
  let negative := t.head? = some '-'
  let t := if negative ∨ t.head? = some '+' then t.tail else t
  let t := if t.take 2 = ['0', 'x'] ∨ t.take 2 = ['0', 'X'] then t.drop 2 else t
  (parseInteger 16 (takeDigits 16 t)).map fun n => if negative then -n else n

/-- A number stored in a `Uint8Array`. -/
def toUint8 (n : Option ℤ) : UInt8 := UInt8.ofNat ((n.getD 0) % 256).toNat

/-! ### Decimal spelling -/

theorem not_isWhiteSpace_of_isDigit {c : Char} (h : c.isDigit = true) : isWhiteSpace c = false := by
  have hrange : 48 ≤ c.toNat ∧ c.toNat ≤ 57 := by
    rw [Char.isDigit, Bool.and_eq_true, decide_eq_true_eq, decide_eq_true_eq] at h
    exact h
  unfold isWhiteSpace
  simp only [List.mem_cons, List.not_mem_nil, or_false, Bool.or_eq_false_iff,
    Bool.and_eq_false_iff, decide_eq_false_iff_not]
  omega

theorem trim_of_isDigit {cs : List Char} (h : ∀ c ∈ cs, c.isDigit = true) : trim cs = cs := by
  have hdrop : ∀ ds : List Char, (∀ c ∈ ds, c.isDigit = true) →
      ds.dropWhile isWhiteSpace = ds := by
    intro ds hds
    cases ds with
    | nil => rfl
    | cons c rest =>
        rw [List.dropWhile_cons_of_neg]
        rw [not_isWhiteSpace_of_isDigit (hds c List.mem_cons_self)]
        exact Bool.false_ne_true
  rw [trim, hdrop cs h, hdrop _ (fun c hc => h c (List.mem_reverse.mp hc)), List.reverse_reverse]

theorem digitsValue_of_isDigit : ∀ {cs : List Char} (acc : ℕ), (∀ c ∈ cs, c.isDigit = true) →
    digitsValue 10 acc cs = some (Nat.ofDigitChars 10 cs acc)
  | [], acc, _ => by rw [digitsValue, Nat.ofDigitChars_nil]
  | c :: cs, acc, h => by
      have hc := h c List.mem_cons_self
      have hlt : c.toNat - '0'.toNat < 10 := by
        rw [Char.isDigit, Bool.and_eq_true, decide_eq_true_eq, decide_eq_true_eq] at hc
        have : c.toNat ≤ 57 := hc.2
        change c.toNat - 48 < 10
        omega
      rw [digitsValue, digitIn, digitValue, if_pos hc, Option.filter_some, decide_eq_true hlt,
        if_pos rfl, Option.bind_some, Nat.ofDigitChars_cons,
        digitsValue_of_isDigit _ fun d hd => h d (List.mem_cons_of_mem _ hd)]

theorem stringToBigInt_of_isDigit {cs : List Char} (hne : cs ≠ [])
    (h : ∀ c ∈ cs, c.isDigit = true) :
    stringToBigInt cs = some ((Nat.ofDigitChars 10 cs 0 : ℕ) : ℤ) := by
  have hpre : ∀ c : Char, c.isDigit = false → cs.take 2 ≠ ['0', c] := by
    intro c hc heq
    have hmem : c ∈ cs := List.mem_of_mem_take (heq ▸ List.mem_cons_of_mem _ List.mem_cons_self)
    rw [h c hmem] at hc
    cases hc
  have hhead : ∀ c : Char, c.isDigit = false → cs.head? ≠ some c := by
    intro c hc heq
    rw [h c (List.mem_of_mem_head? heq)] at hc
    cases hc
  rw [stringToBigInt, trim_of_isDigit h, if_neg hne,
    if_neg (not_or.mpr ⟨hpre 'x' (by decide), hpre 'X' (by decide)⟩),
    if_neg (not_or.mpr ⟨hpre 'o' (by decide), hpre 'O' (by decide)⟩),
    if_neg (not_or.mpr ⟨hpre 'b' (by decide), hpre 'B' (by decide)⟩),
    if_neg (hhead '-' (by decide)), if_neg (hhead '+' (by decide))]
  rw [parseInteger, parseDigits, if_neg hne, digitsValue_of_isDigit 0 h, Option.map_some]
  rfl

/-- **`BigInt` reads what `toString` wrote.** -/
theorem bigInt_repr (n : ℕ) : bigInt n.repr = some (n : ℤ) := by
  rw [bigInt, Nat.toList_repr, stringToBigInt_of_isDigit Nat.toDigits_ne_nil fun c hc =>
    Nat.isDigit_of_mem_toDigits (by decide) (by decide) hc, Nat.ofDigitChars_ten_toDigits]

/-- `BigInt.prototype.toString`. -/
def bigIntToString (x : ℤ) : String :=
  if x < 0 then String.ofList ('-' :: Nat.toDigits 10 x.natAbs) else x.natAbs.repr

theorem trim_cons {c : Char} {cs : List Char} (hc : isWhiteSpace c = false) (hne : cs ≠ [])
    (h : ∀ d ∈ cs, d.isDigit = true) : trim (c :: cs) = c :: cs := by
  have hlast : ∀ ds : List Char, ds ≠ [] → (∀ d ∈ ds, d.isDigit = true) →
      (ds ++ [c]).dropWhile isWhiteSpace = ds ++ [c] := by
    intro ds hds hdigits
    cases ds with
    | nil => exact absurd rfl hds
    | cons d rest =>
        rw [List.cons_append, List.dropWhile_cons_of_neg]
        rw [not_isWhiteSpace_of_isDigit (hdigits d List.mem_cons_self)]
        exact Bool.false_ne_true
  rw [trim, List.dropWhile_cons_of_neg (by rw [hc]; exact Bool.false_ne_true), List.reverse_cons,
    hlast cs.reverse (List.reverse_eq_nil_iff.not.mpr hne)
      (fun d hd => h d (List.mem_reverse.mp hd)), List.reverse_append, List.reverse_reverse]
  rfl

theorem stringToBigInt_neg {cs : List Char} (hne : cs ≠ []) (h : ∀ c ∈ cs, c.isDigit = true) :
    stringToBigInt ('-' :: cs) = some (-((Nat.ofDigitChars 10 cs 0 : ℕ) : ℤ)) := by
  have hpre : ∀ c : Char, ('-' :: cs).take 2 ≠ ['0', c] := by
    intro c heq
    rw [List.take_succ_cons] at heq
    exact absurd (List.cons.inj heq).1 (by decide)
  rw [stringToBigInt, trim_cons (by decide) hne h, if_neg (List.cons_ne_nil _ _),
    if_neg (not_or.mpr ⟨hpre 'x', hpre 'X'⟩),
    if_neg (not_or.mpr ⟨hpre 'o', hpre 'O'⟩),
    if_neg (not_or.mpr ⟨hpre 'b', hpre 'B'⟩), List.head?_cons, if_pos rfl, List.tail_cons,
    parseInteger, parseDigits, if_neg hne, digitsValue_of_isDigit 0 h]
  rfl

/-- **`BigInt` reads what an integer's `toString` wrote.** -/
theorem bigInt_bigIntToString (x : ℤ) : bigInt (bigIntToString x) = some x := by
  unfold bigIntToString
  split
  · rename_i hneg
    rw [bigInt, String.toList_ofList, stringToBigInt_neg Nat.toDigits_ne_nil fun c hc =>
      Nat.isDigit_of_mem_toDigits (by decide) (by decide) hc, Nat.ofDigitChars_ten_toDigits]
    congr 1
    omega
  · rename_i hnonneg
    rw [bigInt_repr]
    congr 1
    omega

/-- Two spellings of one integer. -/
example : bigInt "5" = some 5 ∧ bigInt " 0x05" = some 5 := by decide

end Enclave.Js

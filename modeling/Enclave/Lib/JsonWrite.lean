import Enclave.Lib.Json

/-! # Writing JSON

`JSON.stringify` of strings (`stringify`) and of natural numbers, and of objects that begin with a
number and go on with strings.  What is written is read back (`parse_numberObject`), and stands on
one line (`not_mem_numberObject`). -/

namespace Enclave.Json

/-! ### Strings -/

/-- A character of a string in quotes. -/
def quoteChar (c : Char) : List Char :=
  if c = '"' then ['\\', '"']
  else if c = '\\' then ['\\', '\\']
  else if c = '\u0008' then ['\\', 'b']
  else if c = '\u000C' then ['\\', 'f']
  else if c = '\n' then ['\\', 'n']
  else if c = '\r' then ['\\', 'r']
  else if c = '\t' then ['\\', 't']
  else if c.toNat < 0x20 then '\\' :: 'u' :: (Nat.toDigits 16 c.toNat).leftpad 4 '0'
  else [c]

/-- `JSON.stringify` of a string. -/
def stringify (s : String) : List Char := '"' :: s.toList.flatMap quoteChar ++ ['"']

theorem digits_control : ∀ n : Fin 0x20,
    (Nat.toDigits 16 n).leftpad 4 '0' =
        ['0', '0', Nat.digitChar (n / 16), Nat.digitChar (n % 16)] ∧
      Js.digitsValue 16 0 ['0', '0', Nat.digitChar (n / 16), Nat.digitChar (n % 16)] =
        some n.val := by decide

theorem stringBody_escape {fuel : ℕ} {e : List Char} {c : Char} {cs s rest : List Char}
    (he : escape (e ++ cs) = some (c, cs)) (h : stringBody fuel cs = some (s, rest)) :
    stringBody (fuel + 1) ('\\' :: e ++ cs) = some (c :: s, rest) := by
  rw [List.cons_append, stringBody, if_neg (by decide), if_pos rfl]
  exact Option.bind_eq_some_iff.mpr ⟨_, he, Option.bind_eq_some_iff.mpr ⟨_, h, rfl⟩⟩

theorem stringBody_quoteChar {fuel : ℕ} {c : Char} {cs s rest : List Char}
    (h : stringBody fuel cs = some (s, rest)) :
    stringBody (fuel + 1) (quoteChar c ++ cs) = some (c :: s, rest) := by
  unfold quoteChar
  split_ifs with h₁ h₂ h₃ h₄ h₅ h₆ h₇ hcontrol
  · subst h₁
    exact stringBody_escape (e := ['"']) rfl h
  · subst h₂
    exact stringBody_escape (e := ['\\']) rfl h
  · subst h₃
    exact stringBody_escape (e := ['b']) rfl h
  · subst h₄
    exact stringBody_escape (e := ['f']) rfl h
  · subst h₅
    exact stringBody_escape (e := ['n']) rfl h
  · subst h₆
    exact stringBody_escape (e := ['r']) rfl h
  · subst h₇
    exact stringBody_escape (e := ['t']) rfl h
  · obtain ⟨hdigits, hvalue⟩ := digits_control ⟨c.toNat, hcontrol⟩
    have hchar : ofCodeUnit c.toNat = c := by
      rw [ofCodeUnit, if_neg (by omega), Char.ofNat_toNat]
    rw [hdigits]
    refine stringBody_escape (e := 'u' :: ['0', '0', _, _]) ?_ h
    refine Option.map_eq_some_iff.mpr ⟨c.toNat, hvalue, ?_⟩
    rw [hchar]
    rfl
  · rw [List.singleton_append, stringBody, if_neg h₁, if_neg h₂, if_neg hcontrol]
    exact Option.bind_eq_some_iff.mpr ⟨_, h, rfl⟩

theorem length_quoteChar_pos (c : Char) : 0 < (quoteChar c).length := by
  unfold quoteChar
  split_ifs <;> exact Nat.succ_pos _

theorem stringBody_quoted (s rest : List Char) : ∀ {fuel : ℕ},
    (s.flatMap quoteChar).length < fuel →
    stringBody fuel (s.flatMap quoteChar ++ '"' :: rest) = some (s, rest) := by
  induction s with
  | nil =>
      intro fuel hfuel
      obtain ⟨fuel, rfl⟩ := Nat.exists_eq_succ_of_ne_zero (Nat.ne_of_gt hfuel)
      rfl
  | cons c s ih =>
      intro fuel hfuel
      rw [List.flatMap_cons, List.length_append] at hfuel
      have hpos := length_quoteChar_pos c
      obtain ⟨fuel, rfl⟩ := Nat.exists_eq_succ_of_ne_zero (Nat.ne_of_gt (Nat.zero_lt_of_lt hfuel))
      rw [List.flatMap_cons, List.append_assoc]
      exact stringBody_quoteChar (ih (by omega))

/-- **A string is read back.** -/
theorem parses_stringify (s : String) (fuel : ℕ) :
    Parses (value (fuel + 1)) (stringify s) (.string s) := by
  intro rest
  have happend : stringify s ++ rest = '"' :: (s.toList.flatMap quoteChar ++ '"' :: rest) := by
    rw [stringify, List.cons_append, List.cons_append, List.append_assoc]
    rfl
  rw [happend, value, skipSpace_cons _ (by decide)]
  change (stringBody _ _).map _ = _
  rw [stringBody_quoted _ rest (by rw [List.length_append]; omega), Option.map_some,
    String.ofList_toList]

/-! ### Numbers -/

theorem head?_toDigits {n : ℕ} (hn : n ≠ 0) : (Nat.toDigits 10 n).head? ≠ some '0' := by
  induction n using Nat.strong_induction_on with
  | _ n ih =>
  rcases Nat.lt_or_ge n 10 with hlt | hge
  · rw [Nat.toDigits_of_lt_base hlt]
    revert hn
    interval_cases n <;> decide
  · rw [Nat.toDigits_of_base_le (by decide) hge, List.head?_append]
    have hdiv := ih (n / 10) (by omega) (by omega)
    cases hhead : (Nat.toDigits 10 (n / 10)).head? with
    | none =>
        rw [List.head?_eq_none_iff] at hhead
        exact absurd hhead Nat.toDigits_ne_nil
    | some c =>
        rw [hhead] at hdiv
        exact hdiv

theorem digits_append {ds : List Char} (hne : ds ≠ []) (hds : ∀ d ∈ ds, d.isDigit = true) {c : Char}
    (hc : c.isDigit = false) (rest : List Char) :
    digits (ds ++ c :: rest) = some (ds, c :: rest) := by
  have hneg : ¬ c.isDigit = true := by
    rw [hc]
    exact Bool.false_ne_true
  have htake : (ds ++ c :: rest).takeWhile Char.isDigit = ds := by
    rw [List.takeWhile_append_of_pos hds, List.takeWhile_cons_of_neg hneg, List.append_nil]
  have hdrop : (ds ++ c :: rest).dropWhile Char.isDigit = c :: rest := by
    rw [List.dropWhile_append_of_pos hds, List.dropWhile_cons_of_neg hneg]
  rw [digits, htake, hdrop, if_neg]
  rw [List.isEmpty_iff]
  exact hne

theorem integerPart_toDigits (n : ℕ) {c : Char} (hc : c.isDigit = false) (rest : List Char) :
    integerPart (Nat.toDigits 10 n ++ c :: rest) = some (Nat.toDigits 10 n, c :: rest) := by
  by_cases hn : n = 0
  · subst hn
    rfl
  · have hread := digits_append Nat.toDigits_ne_nil (fun d hd =>
      Nat.isDigit_of_mem_toDigits (by decide) (by decide) hd : ∀ d ∈ Nat.toDigits 10 n, _) hc rest
    unfold integerPart
    split
    · rename_i cs heq
      have hhead : (Nat.toDigits 10 n ++ c :: rest).head? = some '0' := by rw [heq]; rfl
      rw [List.head?_append_of_ne_nil _ Nat.toDigits_ne_nil] at hhead
      exact absurd hhead (head?_toDigits hn)
    · exact hread

/-- **A number before a comma.** -/
theorem value_toDigits (n fuel : ℕ) (rest : List Char) :
    value (fuel + 1) (Nat.toDigits 10 n ++ ',' :: rest) =
      some (.number (Nat.toDigits 10 n), ',' :: rest) := by
  have hunsigned : unsignedNumber (Nat.toDigits 10 n ++ ',' :: rest) =
      some (Nat.toDigits 10 n, ',' :: rest) := by
    rw [unsignedNumber]
    rw [integerPart_toDigits n (by decide)]
    change some (_ ++ [] ++ [], _) = _
    rw [List.append_nil, List.append_nil]
  obtain ⟨d, ds, hdigits⟩ := List.exists_cons_of_ne_nil (Nat.toDigits_ne_nil (b := 10) (n := n))
  have hd : d.isDigit = true :=
    Nat.isDigit_of_mem_toDigits (b := 10) (n := n) (by decide) (by decide)
      (hdigits ▸ List.mem_cons_self)
  rw [hdigits, List.cons_append] at hunsigned ⊢
  rw [value_scalar fuel (by rw [Char.isAlphanum, hd, Bool.or_true])]
  have hexpect : ∀ t ts, t.isDigit = false → expect (t :: ts) (d :: (ds ++ ',' :: rest)) = none := by
    intro t ts ht
    rw [expect, if_neg]
    rintro rfl
    rw [hd] at ht
    cases ht
  rw [scalar, hexpect 'n' _ (by decide), hexpect 't' _ (by decide), hexpect 'f' _ (by decide)]
  have hnumber : number (d :: (ds ++ ',' :: rest)) = unsignedNumber (d :: (ds ++ ',' :: rest)) := by
    unfold number
    split
    · rename_i heq
      cases (List.cons.inj heq).1
      cases hd
    · rfl
  dsimp only
  rw [hnumber, hunsigned]
  rfl

/-! ### Objects -/

/-- The text of an object that begins with a number and goes on with strings. -/
def numberObject (key : String) (n : ℕ) (fields : List (String × String)) : List Char :=
  objectText ((key, Nat.toDigits 10 n) :: fields.map fun f => (f.1, stringify f.2))

/-- The object. -/
def numberValue (key : String) (n : ℕ) (fields : List (String × String)) : Value :=
  .object ((key, .number (Nat.toDigits 10 n)) :: fields.map fun f => (f.1, .string f.2))

variable {key : String} {n : ℕ} {f : String × String} {fs : List (String × String)}

theorem parses_stringMember (hf : isPlain f.1.toList = true) (fuel : ℕ) :
    Parses (member (value (fuel + 1))) (quote f.1 ++ ':' :: stringify f.2) (f.1, .string f.2) :=
  parses_member hf (parses_stringify f.2 fuel)

theorem separated_stringMembers (hf : ∀ g ∈ f :: fs, isPlain g.1.toList = true) (fuel : ℕ)
    {bound : ℕ} (hbound : fs.length < bound) (rest : List Char) :
    separated (member (value (fuel + 1))) '}' bound
        (commas ((f :: fs).map fun g => quote g.1 ++ ':' :: stringify g.2) ++ '}' :: rest) =
      some ((f :: fs).map fun g => (g.1, .string g.2), rest) := by
  have hrest : List.Forall₂ (Parses (member (value (fuel + 1))))
      (fs.map fun g => quote g.1 ++ ':' :: stringify g.2)
      (fs.map fun g => (g.1, Value.string g.2)) := by
    rw [List.forall₂_map_left_iff, List.forall₂_map_right_iff, List.forall₂_same]
    exact fun g hg => parses_stringMember (hf g (List.mem_cons_of_mem _ hg)) fuel
  rw [List.map_cons, List.map_cons]
  exact separated_commas (by decide) (by decide) rest (by rwa [List.length_map])
    (parses_stringMember (hf f List.mem_cons_self) fuel) hrest

theorem numberObject_cons : numberObject key n (f :: fs) =
    '{' :: (quote key ++ ':' :: Nat.toDigits 10 n ++
      ',' :: (commas ((f :: fs).map fun g => quote g.1 ++ ':' :: stringify g.2) ++ ['}'])) := by
  simp only [numberObject, objectText, commas, List.map_cons, List.map_map, List.flatMap_cons,
    List.cons_append, List.append_assoc]
  rfl

theorem length_numberObject : fs.length + 3 < (numberObject key n (f :: fs)).length := by
  have hcommas := length_le_length_commas (quote f.1 ++ ':' :: stringify f.2)
    (fs.map fun g => quote g.1 ++ ':' :: stringify g.2)
  rw [List.length_map] at hcommas
  rw [numberObject_cons, quote]
  simp only [List.length_cons, List.length_append, List.length_nil, List.map_cons]
  omega

theorem value_numberObject (hkey : isPlain key.toList = true)
    (hf : ∀ g ∈ f :: fs, isPlain g.1.toList = true) (fuel : ℕ) :
    value (fuel + 2) (numberObject key n (f :: fs)) = some (numberValue key n (f :: fs), []) := by
  have hlen := @length_numberObject key n f fs
  have hnumber := member_quote hkey (value_toDigits n fuel
    (commas ((f :: fs).map fun g => quote g.1 ++ ':' :: stringify g.2) ++ ['}']))
  rw [numberObject_cons] at hlen ⊢
  rw [List.length_cons] at hlen
  rw [value, skipSpace_cons _ (by decide)]
  change (items (member (value (fuel + 1))) '}' _).map _ = _
  have hquote : ∃ cs, quote key ++ ':' :: Nat.toDigits 10 n ++
      ',' :: (commas ((f :: fs).map fun g => quote g.1 ++ ':' :: stringify g.2) ++ ['}']) =
        '"' :: cs := ⟨_, rfl⟩
  obtain ⟨cs, hcs⟩ := hquote
  rw [items, hcs, skipSpace_cons _ (by decide)]
  dsimp only
  rw [if_neg (by decide), ← hcs]
  obtain ⟨bound, hbound⟩ := Nat.exists_eq_add_of_lt hlen
  rw [separated, hnumber, Option.bind_some]
  dsimp only
  rw [skipSpace_cons _ (by decide)]
  dsimp only
  rw [if_neg (by decide), if_pos rfl, separated_stringMembers hf fuel (by omega)]
  rfl

/-- **The object is read back.** -/
theorem parse_numberObject (hkey : isPlain key.toList = true)
    (hf : ∀ g ∈ f :: fs, isPlain g.1.toList = true) :
    parse (numberObject key n (f :: fs)) = some (numberValue key n (f :: fs)) := by
  obtain ⟨fuel, hfuel⟩ : ∃ fuel, (numberObject key n (f :: fs)).length = fuel + 1 :=
    ⟨_, (Nat.sub_add_cancel (Nat.zero_lt_of_lt length_numberObject)).symm⟩
  rw [parse, hfuel, value_numberObject hkey hf]
  rfl

/-! ### Lines -/

theorem not_mem_digits_control : ∀ n : Fin 0x20,
    '\n' ∉ '\\' :: 'u' :: (Nat.toDigits 16 n).leftpad 4 '0' := by decide

theorem not_mem_quoteChar (c : Char) : '\n' ∉ quoteChar c := by
  unfold quoteChar
  split_ifs with h₁ h₂ h₃ h₄ h₅ h₆ h₇ hcontrol
  · decide
  · decide
  · decide
  · decide
  · decide
  · decide
  · decide
  · exact not_mem_digits_control ⟨c.toNat, hcontrol⟩
  · exact fun hmem => h₅ (List.mem_singleton.mp hmem).symm

theorem not_mem_stringify (s : String) : '\n' ∉ stringify s := by
  simp [stringify, not_mem_quoteChar]

theorem not_mem_quote {key : String} (hkey : isPlain key.toList = true) : '\n' ∉ quote key := by
  intro hmem
  rw [quote, List.cons_append, List.mem_cons, List.mem_append, List.mem_singleton] at hmem
  obtain h | h | h := hmem
  · exact absurd h (by decide)
  · have hplain := List.all_eq_true.mp hkey _ h
    exact absurd hplain (by decide)
  · exact absurd h (by decide)

theorem not_mem_commas {ts : List (List Char)} (h : ∀ t ∈ ts, '\n' ∉ t) : '\n' ∉ commas ts := by
  cases ts with
  | nil => exact List.not_mem_nil
  | cons t ts =>
      simp only [commas, List.mem_append, List.mem_flatMap, List.mem_cons, not_or, not_exists,
        not_and]
      exact ⟨h t List.mem_cons_self, fun u hu => ⟨by decide, h u (List.mem_cons_of_mem _ hu)⟩⟩

/-- **The object stands on one line.** -/
theorem not_mem_numberObject (hkey : isPlain key.toList = true)
    (hfs : ∀ g ∈ fs, isPlain g.1.toList = true) : '\n' ∉ numberObject key n fs := by
  have hdigits : '\n' ∉ Nat.toDigits 10 n := fun hmem => by
    have hdigit := Nat.isDigit_of_mem_toDigits (by decide) (by decide) hmem
    cases hdigit
  have hmembers : ∀ t ∈ ((key, Nat.toDigits 10 n) :: fs.map fun f => (f.1, stringify f.2)).map
      fun f => quote f.1 ++ ':' :: f.2, '\n' ∉ t := by
    intro t ht
    rw [List.map_cons, List.mem_cons, List.map_map, List.mem_map] at ht
    obtain rfl | ⟨g, hg, rfl⟩ := ht
    · simp [not_mem_quote hkey, hdigits]
    · simp [not_mem_quote (hfs g hg), not_mem_stringify]
  have hcommas := not_mem_commas hmembers
  rw [numberObject, objectText, List.cons_append, List.mem_cons, List.mem_append,
    List.mem_singleton]
  rintro (h | h | h)
  · exact absurd h (by decide)
  · exact hcommas h
  · exact absurd h (by decide)

end Enclave.Json

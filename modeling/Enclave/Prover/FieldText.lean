import Enclave.Prover.Serialization

/-! # Field elements as text

The text codecs of `serialization.rs`.  `scalar_to_hex` writes 64 digits, `hex_to_scalar` reads at
most 64, two for a byte.  `u8::from_str_radix` takes a plus sign before a digit, so text with a
plus sign where a byte starts is read too (`SignedBytes`); on all other text `hex_to_scalar`
accepts the digits and nothing else (`codecs_exact_iff`). -/

namespace Enclave.Prover

open Js (digitIn digitsValue strip0x)

open Hex (pairs isHexDigit)

/-- `scalar_to_hex`. -/
def scalarToHex (scalar : F) : String :=
  String.ofList ('0' :: 'x' :: Hex.toHex (scalarToBytes scalar).reverse)

/-- `checked_mul` and `checked_add` of `u128`. -/
def checkedU128 (n : ℕ) : Option ℕ := if n < 2 ^ 128 then some n else none

/-- The digits of a `u128` after those read so far. -/
def u128Digits : ℕ → List Char → Option ℕ
  | result, [] => some result
  | result, c :: rest => do
      let product ← checkedU128 (result * 10)
      let digit ← digitIn 10 c
      let sum ← checkedU128 (product + digit)
      u128Digits sum rest

/-- `decimal.parse::<u128>()`; a plus sign may stand first. -/
def parseU128 (cs : List Char) : Option ℕ :=
  if cs = [] ∨ cs = ['+'] then none
  else u128Digits 0 (if cs.head? = some '+' then cs.tail else cs)

/-- `decimal_to_field_bytes`. -/
def decimalToFieldBytes (decimal : String) : Result (List UInt8) :=
  match parseU128 decimal.toList with
  | none => .error (.error "Invalid decimal string")
  | some value =>
      let low : ℕ := value % 2 ^ 64
      let high : ℕ := value / 2 ^ 64
      .ok (scalarToBytes ((low : F) + (high : F) * ((2 ^ 32 : ℕ) : F) ^ 2))

/-! ### Pairs of characters -/

theorem mapM_isSome_iff {α β : Type} {f : α → Option β} (xs : List α) :
    (xs.mapM f).isSome = true ↔ ∀ x ∈ xs, (f x).isSome = true := by
  induction xs with
  | nil => simp
  | cons x xs ih =>
      rw [List.forall_mem_cons, ← ih, List.mapM_cons]
      cases f x with
      | none => simp
      | some y => cases xs.mapM f <;> simp

theorem mem_pairs {cs : List Char} (heven : cs.length % 2 = 0) (P : Char → Prop) :
    (∀ c ∈ cs, P c) ↔ ∀ p ∈ pairs cs, P p.1 ∧ P p.2 := by
  induction cs using Hex.pairs.induct with
  | case1 a b rest ih =>
      rw [List.length_cons, List.length_cons] at heven
      rw [pairs, List.forall_mem_cons, List.forall_mem_cons, List.forall_mem_cons, ih (by omega),
        and_assoc]
  | case2 cs hcs =>
      cases cs with
      | nil => simp [pairs]
      | cons a cs =>
          cases cs with
          | nil => cases heven
          | cons b rest => exact absurd rfl (hcs a b rest)

theorem isSome_byteFromRadix (p : Char × Char) :
    (byteFromRadix p).isSome = true ↔
      (isHexDigit p.1 = true ∨ p.1 = '+') ∧ isHexDigit p.2 = true := by
  unfold byteFromRadix isHexDigit
  split_ifs with hplus
  · simp [hplus]
  · cases digitIn 16 p.1 <;> cases digitIn 16 p.2 <;> simp [hplus]

theorem digitIn_lt {radix d : ℕ} {c : Char} (h : digitIn radix c = some d) : d < radix := by
  obtain ⟨-, hd⟩ := Option.filter_eq_some_iff.mp h
  exact of_decide_eq_true hd

theorem ne_plus_of_isHexDigit {c : Char} (h : isHexDigit c = true) : c ≠ '+' := by
  rintro rfl
  cases h

theorem byteFromRadix_of_isHexDigit {a b : Char} (ha : isHexDigit a = true)
    (hb : isHexDigit b = true) : ∃ high low : ℕ, digitIn 16 a = some high ∧
      digitIn 16 b = some low ∧ 16 * high + low < 256 ∧
      byteFromRadix (a, b) = some (UInt8.ofNat (16 * high + low)) := by
  obtain ⟨high, hhigh⟩ := Option.isSome_iff_exists.mp ha
  obtain ⟨low, hlow⟩ := Option.isSome_iff_exists.mp hb
  have hhigh' := digitIn_lt hhigh
  have hlow' := digitIn_lt hlow
  refine ⟨high, low, hhigh, hlow, by omega, ?_⟩
  rw [byteFromRadix, if_neg (ne_plus_of_isHexDigit ha), hhigh, hlow]
  rfl

theorem mapM_of_isHexDigit {cs : List Char} (heven : cs.length % 2 = 0)
    (h : ∀ c ∈ cs, isHexDigit c = true) : ∃ bytes, (pairs cs).mapM byteFromRadix = some bytes ∧
      ∀ acc, digitsValue 16 acc cs =
        some (acc * 256 ^ bytes.length + leValue bytes.reverse) := by
  induction cs using Hex.pairs.induct with
  | case1 a b rest ih =>
      rw [List.length_cons, List.length_cons] at heven
      obtain ⟨ha, hb, hrest⟩ : isHexDigit a = true ∧ isHexDigit b = true ∧
          ∀ c ∈ rest, isHexDigit c = true := by
        simpa only [List.forall_mem_cons] using h
      obtain ⟨high, low, hhigh, hlow, hlt, hbyte⟩ := byteFromRadix_of_isHexDigit ha hb
      obtain ⟨bytes, hbytes, hvalue⟩ := ih (by omega) hrest
      refine ⟨UInt8.ofNat (16 * high + low) :: bytes, ?_, fun acc => ?_⟩
      · rw [pairs, List.mapM_cons, hbyte, hbytes]
        rfl
      · have hnat : (UInt8.ofNat (16 * high + low)).toNat = 16 * high + low := by
          rw [UInt8.toNat_ofNat']
          omega
        rw [digitsValue, hhigh, Option.bind_some, digitsValue, hlow, Option.bind_some, hvalue,
          List.reverse_cons, Bytes.leValue_concat, List.length_cons, List.length_reverse, hnat,
          pow_succ]
        congr 1
        ring
  | case2 cs hcs =>
      cases cs with
      | nil => exact ⟨[], rfl, fun acc => by simp [digitsValue, leValue]⟩
      | cons a cs =>
          cases cs with
          | nil => cases heven
          | cons b rest => exact absurd rfl (hcs a b rest)

theorem digitsValue_replicate (n : ℕ) (cs : List Char) :
    digitsValue 16 0 (List.replicate n '0' ++ cs) = digitsValue 16 0 cs := by
  induction n with
  | zero => rfl
  | succ n ih =>
      rw [List.replicate_succ, List.cons_append, digitsValue, ← ih]
      rfl

/-! ### Reading hexadecimal text -/

variable {cs : List Char} {hex : String}

theorem length_leftpad_64 (h : cs.length ≤ 64) : (cs.leftpad 64 '0').length = 64 := by
  rw [List.length_leftpad, Nat.max_eq_left h]

theorem isHexDigit_leftpad (h : ∀ c ∈ cs, isHexDigit c = true) :
    ∀ c ∈ cs.leftpad 64 '0', isHexDigit c = true := by
  intro c hc
  obtain hc | hc := List.mem_append.mp hc
  · rw [List.eq_of_mem_replicate hc]
    rfl
  · exact h c hc

/-- Every byte of the padded text is two digits, or a plus sign and a digit. -/
def ByteText (cs : List Char) : Prop :=
  ∀ p ∈ pairs (cs.leftpad 64 '0'), (isHexDigit p.1 = true ∨ p.1 = '+') ∧ isHexDigit p.2 = true

theorem ByteText.mem (h : ByteText cs) (hlen : cs.length ≤ 64) :
    ∀ c ∈ cs, isHexDigit c = true ∨ c = '+' := by
  have hpadded := (mem_pairs (by rw [length_leftpad_64 hlen])
    fun c => isHexDigit c = true ∨ c = '+').mpr fun p hp => ⟨(h p hp).1, .inl (h p hp).2⟩
  exact fun c hc => hpadded c (List.mem_append_right _ hc)

theorem sum_utf8Size (h : ∀ c ∈ cs, isHexDigit c = true ∨ c = '+') :
    (cs.map Char.utf8Size).sum = cs.length := by
  have hone : ∀ c ∈ cs, c.utf8Size = 1 := by
    intro c hc
    obtain hdigit | rfl := h c hc
    · exact utf8Size_of_isHexDigit hdigit
    · rfl
  rw [List.map_congr_left hone, List.map_const', List.sum_replicate, smul_eq_mul, Nat.mul_one]

theorem length_le_sum_utf8Size (cs : List Char) : cs.length ≤ (cs.map Char.utf8Size).sum := by
  induction cs with
  | nil => exact Nat.le_refl _
  | cons c cs ih =>
      have := c.utf8Size_pos
      rw [List.map_cons, List.sum_cons, List.length_cons]
      omega

/-- **What `hex_to_scalar` accepts.** -/
theorem hexToScalar_accepts (hex : String) : (∃ s, hexToScalar hex = .ok s) ↔
    (strip0x hex.toList).length ≤ 64 ∧ ByteText (strip0x hex.toList) := by
  have hmap : ByteText (strip0x hex.toList) ↔ ((pairs ((strip0x hex.toList).leftpad 64 '0')).mapM
      byteFromRadix).isSome = true := by
    rw [mapM_isSome_iff]
    exact forall₂_congr fun p _ => (isSome_byteFromRadix p).symm
  have hle := length_le_sum_utf8Size (strip0x hex.toList)
  unfold hexToScalar
  dsimp only
  constructor
  · rintro ⟨s, hs⟩
    split_ifs at hs with hsize
    refine ⟨by omega, hmap.mpr ?_⟩
    cases hbytes : (pairs ((strip0x hex.toList).leftpad 64 '0')).mapM byteFromRadix with
    | none =>
        rw [hbytes] at hs
        cases hs
    | some bytes => rfl
  · rintro ⟨hlen, htext⟩
    obtain ⟨bytes, hbytes⟩ := Option.isSome_iff_exists.mp (hmap.mp htext)
    rw [sum_utf8Size (htext.mem hlen), if_neg (by omega), hbytes]
    exact ⟨_, rfl⟩

/-- **Digits are read as their value.** -/
theorem hexToScalar_of_isHexDigit (hlen : (strip0x hex.toList).length ≤ 64)
    (h : ∀ c ∈ strip0x hex.toList, isHexDigit c = true) :
    ∃ v : ℕ, digitsValue 16 0 (strip0x hex.toList) = some v ∧ hexToScalar hex = .ok (v : F) := by
  obtain ⟨bytes, hbytes, hvalue⟩ := mapM_of_isHexDigit (by rw [length_leftpad_64 hlen])
    (isHexDigit_leftpad h)
  have hzero := hvalue 0
  rw [List.leftpad, digitsValue_replicate, Nat.zero_mul, Nat.zero_add] at hzero
  refine ⟨_, hzero, ?_⟩
  unfold hexToScalar
  dsimp only
  rw [sum_utf8Size fun c hc => .inl (h c hc), if_neg (by omega), hbytes]

theorem isHexDigit_of_digitsValue : ∀ {cs : List Char} {acc v : ℕ},
    digitsValue 16 acc cs = some v → ∀ c ∈ cs, isHexDigit c = true
  | [], _, _, _ => by simp
  | c :: cs, acc, v, h => by
      obtain ⟨d, hd, hrest⟩ := Option.bind_eq_some_iff.mp h
      refine List.forall_mem_cons.mpr ⟨?_, isHexDigit_of_digitsValue hrest⟩
      rw [isHexDigit, hd]
      rfl

/-! ### Reading decimal text -/

/-- The checks let a number through exactly when it is in range. -/
theorem u128Digits_of_isDigit : ∀ {cs : List Char} {acc : ℕ}, acc < 2 ^ 128 →
    (∀ c ∈ cs, c.isDigit = true) → u128Digits acc cs = checkedU128 (Nat.ofDigitChars 10 cs acc)
  | [], acc, hacc, _ => by rw [u128Digits, Nat.ofDigitChars_nil, checkedU128, if_pos hacc]
  | c :: cs, acc, hacc, h => by
      have hsingle : digitsValue 10 0 [c] = some (Nat.ofDigitChars 10 [c] 0) :=
        Js.digitsValue_of_isDigit 0 (by simpa using h c List.mem_cons_self)
      rw [digitsValue, Nat.ofDigitChars_cons, Nat.ofDigitChars_nil] at hsingle
      obtain ⟨d, hd, hvalue⟩ := Option.bind_eq_some_iff.mp hsingle
      have hdigit : d = c.toNat - '0'.toNat := by
        rw [digitsValue] at hvalue
        have := Option.some.inj hvalue
        omega
      -- the digits that follow only add to a number that is too large
      have hgrow := @Nat.ofDigitChars_eq_ofDigitChars_zero cs
        (10 * acc + (c.toNat - '0'.toNat))
      have hpow := Nat.one_le_pow cs.length 10 (by decide)
      have hle : 10 * acc + d ≤ Nat.ofDigitChars 10 cs (10 * acc + (c.toNat - '0'.toNat)) := by
        rw [hgrow, ← hdigit]
        nlinarith
      rw [u128Digits, hd, Nat.ofDigitChars_cons]
      by_cases hsum : acc * 10 + d < 2 ^ 128
      · have hproduct : acc * 10 < 2 ^ 128 := by omega
        have hih := @u128Digits_of_isDigit cs (acc * 10 + d) hsum
          fun x hx => h x (List.mem_cons_of_mem _ hx)
        simp only [checkedU128, if_pos hproduct, if_pos hsum, Option.bind_eq_bind,
          Option.bind_some]
        rw [hih, checkedU128, hdigit, Nat.mul_comm]
      · have hlarge : ¬ Nat.ofDigitChars 10 cs (10 * acc + (c.toNat - '0'.toNat)) < 2 ^ 128 := by
          omega
        simp only [checkedU128, if_neg hlarge]
        split_ifs with hproduct
        · simp only [Option.bind_eq_bind, Option.bind_some, if_neg hsum, Option.bind_none]
        · rfl

theorem parseU128_of_isDigit (hne : cs ≠ []) (h : ∀ c ∈ cs, c.isDigit = true) :
    parseU128 cs = checkedU128 (Nat.ofDigitChars 10 cs 0) := by
  have hplus : '+' ∉ cs := fun hmem => by cases h _ hmem
  have hhead : cs.head? ≠ some '+' := fun hhead => hplus (List.mem_of_mem_head? hhead)
  have hstart : ¬ (cs = [] ∨ cs = ['+']) := by
    rintro (rfl | rfl)
    · exact hne rfl
    · exact hplus List.mem_cons_self
  rw [parseU128, if_neg hstart, if_neg hhead, u128Digits_of_isDigit (by decide) h]

theorem recombine (value : ℕ) :
    ((value % 2 ^ 64 : ℕ) : F) + ((value / 2 ^ 64 : ℕ) : F) * ((2 ^ 32 : ℕ) : F) ^ 2 = (value : F) := by
  rw [← Nat.cast_pow, ← pow_mul, ← Nat.cast_mul, ← Nat.cast_add, Nat.mul_comm (value / _),
    Nat.mod_add_div]

/-! ### Exactness -/

/-- `hex_to_scalar` accepts the text exactly if it is at most 64 digits after the optional
`0x`, and returns their value. -/
def HexExact (hex : String) : Prop :=
  ∀ s, hexToScalar hex = .ok s ↔ (strip0x hex.toList).length ≤ 64 ∧
    ∃ v : ℕ, digitsValue 16 0 (strip0x hex.toList) = some v ∧ s = (v : F)

/-- `decimal_to_field_bytes` returns the encoding of a number below `2^128` and rejects others. -/
def DecimalExact (digits : List Char) : Prop :=
  digits ≠ [] → (∀ c ∈ digits, c.isDigit = true) →
    decimalToFieldBytes (String.ofList digits) =
      if Nat.ofDigitChars 10 digits 0 < 2 ^ 128 then
        .ok (leBytes fieldSize (Nat.ofDigitChars 10 digits 0))
      else .error (.error "Invalid decimal string")

/-- At most 64 characters that are read as bytes although a plus sign is among them. -/
def SignedBytes (hex : String) : Prop :=
  (strip0x hex.toList).length ≤ 64 ∧ '+' ∈ strip0x hex.toList ∧ ByteText (strip0x hex.toList)

theorem hexToScalar_scalarToHex (s : F) : hexToScalar (scalarToHex s) = .ok s := by
  have hlen : (Hex.toHex (scalarToBytes s).reverse).length = 64 := by
    rw [Hex.length_toHex, List.length_reverse, length_scalarToBytes, fieldSize]
  have hpad : (Hex.toHex (scalarToBytes s).reverse).leftpad 64 '0' =
      Hex.toHex (scalarToBytes s).reverse := by
    rw [List.leftpad, hlen]
    rfl
  rw [scalarToHex, hexToScalar_ofList hlen.le hpad, List.reverse_reverse, leValue_scalarToBytes,
    F.natCast_val]

theorem decimalExact (digits : List Char) : DecimalExact digits := by
  intro hne hdigits
  have hsmall : (2 : ℕ) ^ 128 < bn256Modulus := by decide
  unfold decimalToFieldBytes
  rw [String.toList_ofList, parseU128_of_isDigit hne hdigits, checkedU128]
  split_ifs with hlt
  · dsimp only
    rw [recombine, scalarToBytes, F.val_natCast_of_lt (hlt.trans hsmall)]
  · rfl

theorem hexExact_iff (hex : String) : HexExact hex ↔ ¬ SignedBytes hex := by
  constructor
  · rintro hexact ⟨hlen, hplus, htext⟩
    obtain ⟨s, hs⟩ := (hexToScalar_accepts hex).mpr ⟨hlen, htext⟩
    obtain ⟨-, v, hv, -⟩ := (hexact s).mp hs
    cases isHexDigit_of_digitsValue hv _ hplus
  · intro hsigned s
    constructor
    · intro hs
      obtain ⟨hlen, htext⟩ := (hexToScalar_accepts hex).mp ⟨s, hs⟩
      have hdigits : ∀ c ∈ strip0x hex.toList, isHexDigit c = true := by
        intro c hc
        refine (htext.mem hlen c hc).resolve_right ?_
        rintro rfl
        exact hsigned ⟨hlen, hc, htext⟩
      obtain ⟨v, hv, hread⟩ := hexToScalar_of_isHexDigit hlen hdigits
      exact ⟨hlen, v, hv, Except.ok.inj (hs.symm.trans hread)⟩
    · rintro ⟨hlen, v, hv, rfl⟩
      obtain ⟨v', hv', hread⟩ := hexToScalar_of_isHexDigit hlen (isHexDigit_of_digitsValue hv)
      rw [hread, Option.some.inj (hv'.symm.trans hv)]

/-- **The codecs are exact** on every field element, every decimal text and every hexadecimal text
but those with a plus sign in the place of a byte's high digit. -/
theorem codecs_exact_iff (s : F) (hex : String) (digits : List Char) :
    (bytesToScalar (scalarToBytes s) = .ok s ∧ hexToScalar (scalarToHex s) = .ok s ∧
      HexExact hex ∧ DecimalExact digits) ↔ ¬ SignedBytes hex := by
  rw [← hexExact_iff]
  constructor
  · exact fun h => h.2.2.1
  · exact fun h =>
      ⟨bytesToScalar_scalarToBytes s, hexToScalar_scalarToHex s, h, decimalExact digits⟩

/-- `+1` is no hexadecimal number, and is read as one. -/
theorem hexToScalar_plus : hexToScalar "+1" = .ok 1 ∧ ¬ HexExact "+1" := by
  have hread : hexToScalar "+1" = .ok 1 := by decide +kernel
  refine ⟨hread, fun hexact => ?_⟩
  obtain ⟨-, v, hv, -⟩ := (hexact 1).mp hread
  have hdigit := isHexDigit_of_digitsValue hv '+' (by decide)
  cases hdigit

end Enclave.Prover

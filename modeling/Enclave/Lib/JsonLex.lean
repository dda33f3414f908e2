import Enclave.Lib.Json

/-! # JSON text, one character at a time

A scan that knows strings, and how many objects are open (`LexState`).  It rejects much less than
the parser does, but an object that is parsed is scanned to its end (`scan_of_parse`). -/

namespace Enclave.Json

/-- Where a scan stands, with the number of objects that are open. -/
inductive LexState where
  | outside (depth : ℕ)
  /-- After the closing quote of a string. -/
  | afterString (depth : ℕ)
  | inString (depth : ℕ)
  /-- After a backslash in a string. -/
  | escaped (depth : ℕ)
  /-- After the outermost object. -/
  | finished
  | failed
deriving DecidableEq

namespace LexState

/-- A closing brace. -/
def closeObject : ℕ → LexState
  | 0 => failed
  | 1 => finished
  | depth + 2 => outside (depth + 1)

/-- One character. -/
def step : LexState → Char → LexState
  | outside depth, c =>
      if c = '"' then inString depth
      else if c = '{' then outside (depth + 1)
      else if c = '}' then closeObject depth
      else outside depth
  | afterString depth, c =>
      if c = ',' ∨ c = ':' ∨ c = ']' then outside depth
      else if c = '}' then closeObject depth
      else if isSpace c then afterString depth
      else failed
  | inString depth, c =>
      if c = '"' then afterString depth
      else if c = '\\' then escaped depth
      else inString depth
  | escaped depth, _ => inString depth
  | finished, c => if Js.isWhiteSpace c then finished else failed
  | failed, _ => failed

/-- A text. -/
def scan (q : LexState) (cs : List Char) : LexState := cs.foldl step q

/-- Between the values of an object or array. -/
def Between (depth : ℕ) (q : LexState) : Prop := q = outside depth ∨ q = afterString depth

variable {q : LexState} {depth : ℕ} {c : Char} {cs ds : List Char}

@[simp] theorem scan_nil (q : LexState) : q.scan [] = q := rfl

@[simp] theorem scan_cons (q : LexState) (c : Char) (cs : List Char) :
    q.scan (c :: cs) = (q.step c).scan cs := rfl

@[simp] theorem scan_append (q : LexState) (cs ds : List Char) :
    q.scan (cs ++ ds) = (q.scan cs).scan ds := List.foldl_append

theorem scan_failed (cs : List Char) : failed.scan cs = failed := by
  induction cs with
  | nil => rfl
  | cons c cs ih => exact ih

theorem scan_outside (h : ∀ c ∈ cs, c ≠ '"' ∧ c ≠ '{' ∧ c ≠ '}') :
    (outside depth).scan cs = outside depth := by
  induction cs with
  | nil => rfl
  | cons c cs ih =>
      obtain ⟨hquote, hopen, hclose⟩ := h c List.mem_cons_self
      rw [scan_cons, step, if_neg hquote, if_neg hopen, if_neg hclose,
        ih fun c hc => h c (List.mem_cons_of_mem _ hc)]

theorem scan_inString (h : ∀ c ∈ cs, c ≠ '"' ∧ c ≠ '\\') :
    (inString depth).scan cs = inString depth := by
  induction cs with
  | nil => rfl
  | cons c cs ih =>
      obtain ⟨hquote, hslash⟩ := h c List.mem_cons_self
      rw [scan_cons, step, if_neg hquote, if_neg hslash,
        ih fun c hc => h c (List.mem_cons_of_mem _ hc)]

theorem isSpace_cases (h : isSpace c = true) : c = ' ' ∨ c = '\t' ∨ c = '\n' ∨ c = '\r' := by
  simpa [isSpace, or_assoc] using h

theorem Between.scan_spaces (h : Between depth q) (hcs : ∀ c ∈ cs, isSpace c = true) :
    Between depth (q.scan cs) := by
  induction cs generalizing q with
  | nil => exact h
  | cons c cs ih =>
      have hc := isSpace_cases (hcs c List.mem_cons_self)
      refine ih ?_ fun c hc => hcs c (List.mem_cons_of_mem _ hc)
      obtain rfl | rfl := h
      · obtain rfl | rfl | rfl | rfl := hc <;> exact .inl rfl
      · obtain rfl | rfl | rfl | rfl := hc <;> exact .inr rfl

theorem scan_spaces (h : ∀ c ∈ cs, isSpace c = true) :
    (outside depth).scan cs = outside depth := by
  refine scan_outside fun c hc => ?_
  obtain rfl | rfl | rfl | rfl := isSpace_cases (h c hc) <;> decide

theorem scan_finished (h : ∀ c ∈ cs, Js.isWhiteSpace c = true) : finished.scan cs = finished := by
  induction cs with
  | nil => rfl
  | cons c cs ih =>
      rw [scan_cons, step, if_pos (h c List.mem_cons_self),
        ih fun c hc => h c (List.mem_cons_of_mem _ hc)]

end LexState

open LexState

/-! ### What a parser reads -/

theorem exists_skipSpace (cs : List Char) :
    ∃ spaces, cs = spaces ++ skipSpace cs ∧ ∀ c ∈ spaces, isSpace c = true :=
  ⟨cs.takeWhile isSpace, List.takeWhile_append_dropWhile.symm, fun _ hc => List.mem_takeWhile_imp hc⟩

theorem expect_eq_some {t cs rest : List Char} (h : expect t cs = some rest) : cs = t ++ rest := by
  induction t generalizing cs with
  | nil =>
      cases h
      rfl
  | cons c t ih =>
      cases cs with
      | nil => cases h
      | cons d cs =>
          rw [expect] at h
          split_ifs at h with heq
          rw [heq, List.cons_append, ← ih h]

/-- A parser of characters reads what it returns, of some kind. -/
def Returns (ok : Char → Prop) (p : Parser (List Char)) : Prop :=
  ∀ cs ds rest, p cs = some (ds, rest) → cs = ds ++ rest ∧ ∀ c ∈ ds, ok c

/-- The characters of a number. -/
def isNumeric (c : Char) : Prop := c ≠ '"' ∧ c ≠ '{' ∧ c ≠ '}'

theorem isNumeric_of_isDigit {c : Char} (h : c.isDigit = true) : isNumeric c := by
  refine ⟨?_, ?_, ?_⟩ <;>
    · rintro rfl
      cases h

theorem returns_digits : Returns isNumeric digits := by
  intro cs ds rest h
  unfold digits at h
  split_ifs at h
  cases h
  exact ⟨List.takeWhile_append_dropWhile.symm,
    fun c hc => isNumeric_of_isDigit (List.mem_takeWhile_imp hc)⟩

theorem returns_integerPart : Returns isNumeric integerPart := by
  intro cs ds rest h
  unfold integerPart at h
  split at h
  · cases h
    exact ⟨rfl, fun c hc => by
      cases List.mem_singleton.mp hc
      exact ⟨by decide, by decide, by decide⟩⟩
  · exact returns_digits _ _ _ h

theorem returns_append {p : Parser (List Char)} (hp : Returns isNumeric p) {l : List Char}
    (hl : ∀ c ∈ l, isNumeric c) {cs ds rest : List Char}
    (h : (p cs).map (fun r => (l ++ r.1, r.2)) = some (ds, rest)) :
    l ++ cs = ds ++ rest ∧ ∀ c ∈ ds, isNumeric c := by
  obtain ⟨⟨es, rest'⟩, hread, heq⟩ := Option.map_eq_some_iff.mp h
  cases heq
  obtain ⟨rfl, hes⟩ := hp _ _ _ hread
  refine ⟨(List.append_assoc _ _ _).symm, fun d hd => ?_⟩
  obtain hd | hd := List.mem_append.mp hd
  · exact hl d hd
  · exact hes d hd

theorem returns_fractionPart : Returns isNumeric fractionPart := by
  intro cs ds rest h
  unfold fractionPart at h
  split at h
  · exact returns_append returns_digits (l := ['.']) (by simp [isNumeric]) h
  · cases h
    exact ⟨rfl, fun c hc => by cases hc⟩

theorem returns_exponentPart : Returns isNumeric exponentPart := by
  intro cs ds rest h
  unfold exponentPart at h
  split at h
  · rename_i c cs
    split_ifs at h with he
    · have hc : isNumeric c := by
        obtain rfl | rfl := he <;> simp [isNumeric]
      split at h
      · exact returns_append returns_digits (l := [c, '+']) (by simpa [isNumeric] using hc) h
      · exact returns_append returns_digits (l := [c, '-']) (by simpa [isNumeric] using hc) h
      · exact returns_append returns_digits (l := [c]) (by simpa using hc) h
    · cases h
      exact ⟨rfl, fun c hc => by cases hc⟩
  · cases h
    exact ⟨rfl, fun c hc => by cases hc⟩

theorem returns_unsignedNumber : Returns isNumeric unsignedNumber := by
  intro cs ds rest h
  unfold unsignedNumber at h
  obtain ⟨⟨i, cs₁⟩, hi, h⟩ := Option.bind_eq_some_iff.mp h
  obtain ⟨⟨f, cs₂⟩, hf, h⟩ := Option.bind_eq_some_iff.mp h
  obtain ⟨⟨e, cs₃⟩, he, h⟩ := Option.bind_eq_some_iff.mp h
  cases h
  obtain ⟨hi₁, hi₂⟩ := returns_integerPart _ _ _ hi
  obtain ⟨hf₁, hf₂⟩ := returns_fractionPart _ _ _ hf
  obtain ⟨he₁, he₂⟩ := returns_exponentPart _ _ _ he
  refine ⟨by rw [hi₁, hf₁, he₁, List.append_assoc, List.append_assoc], fun c hc => ?_⟩
  rw [List.mem_append, List.mem_append] at hc
  obtain (hc | hc) | hc := hc
  · exact hi₂ c hc
  · exact hf₂ c hc
  · exact he₂ c hc

theorem returns_number : Returns isNumeric number := by
  intro cs ds rest h
  unfold number at h
  split at h
  · exact returns_append returns_unsignedNumber (l := ['-']) (by simp [isNumeric]) h
  · exact returns_unsignedNumber _ _ _ h

/-! ### Strings -/

theorem digitIn_ne {d : ℕ} {c : Char} (h : Js.digitIn 16 c = some d) : c ≠ '"' ∧ c ≠ '\\' := by
  refine ⟨?_, ?_⟩ <;>
    · rintro rfl
      cases h

theorem digitsValue_ne {acc n : ℕ} {cs : List Char} (h : Js.digitsValue 16 acc cs = some n) :
    ∀ c ∈ cs, c ≠ '"' ∧ c ≠ '\\' := by
  induction cs generalizing acc with
  | nil =>
      intro c hc
      cases hc
  | cons c cs ih =>
      obtain ⟨d, hd, h⟩ := Option.bind_eq_some_iff.mp h
      intro e he
      obtain rfl | he := List.mem_cons.mp he
      · exact digitIn_ne hd
      · exact ih h e he

theorem scan_escape {cs rest : List Char} {c : Char} (h : escape cs = some (c, rest)) :
    ∃ used, cs = used ++ rest ∧ ∀ depth, (escaped depth).scan used = inString depth := by
  unfold escape at h
  split at h
  case h_9 a b c d cs =>
    obtain ⟨n, hn, heq⟩ := Option.map_eq_some_iff.mp h
    cases heq
    exact ⟨['u', a, b, c, d], rfl, fun depth => scan_inString (digitsValue_ne hn)⟩
  case h_10 => cases h
  all_goals
    cases h
    exact ⟨[_], rfl, fun _ => rfl⟩

theorem scan_stringBody : ∀ {fuel : ℕ} {cs s rest : List Char},
    stringBody fuel cs = some (s, rest) →
    ∃ used, cs = used ++ rest ∧ ∀ depth, (inString depth).scan used = afterString depth
  | 0, _, _, _, h => by cases h
  | _ + 1, [], _, _, h => by cases h
  | fuel + 1, c :: cs, s, rest, h => by
      rw [stringBody] at h
      split_ifs at h with hquote hslash hcontrol
      · cases h
        exact ⟨[c], rfl, fun depth => if_pos hquote⟩
      · obtain ⟨⟨d, cs₁⟩, hescape, h⟩ := Option.bind_eq_some_iff.mp h
        obtain ⟨⟨ds, cs₂⟩, hbody, h⟩ := Option.bind_eq_some_iff.mp h
        cases h
        obtain ⟨used₁, hused₁, hscan₁⟩ := scan_escape hescape
        obtain ⟨used₂, hused₂, hscan₂⟩ := scan_stringBody hbody
        refine ⟨c :: used₁ ++ used₂, ?_, fun depth => ?_⟩
        · rw [hused₁, hused₂, List.cons_append, List.cons_append, List.append_assoc]
        · rw [List.cons_append, scan_cons, scan_append, LexState.step, if_neg hquote, if_pos hslash,
            hscan₁, hscan₂]
      · obtain ⟨⟨ds, cs₂⟩, hbody, h⟩ := Option.bind_eq_some_iff.mp h
        cases h
        obtain ⟨used, hused, hscan⟩ := scan_stringBody hbody
        refine ⟨c :: used, by rw [hused, List.cons_append], fun depth => ?_⟩
        rw [scan_cons, LexState.step, if_neg hquote, if_neg hslash, hscan]

/-! ### Values -/

/-- What a parser reads within an object ends between values. -/
def Reads {α : Type} (p : Parser α) : Prop :=
  ∀ cs a rest, p cs = some (a, rest) → ∃ used, cs = used ++ rest ∧
    ∀ depth, 0 < depth → Between depth ((outside depth).scan used)

theorem LexState.Between.step_close {depth : ℕ} {q : LexState} (h : Between depth q) {c : Char}
    (hc : c = ']' ∨ c = '}') : q.step c = (outside depth).step c := by
  obtain rfl | rfl := h
  · rfl
  · obtain rfl | rfl := hc <;> rfl

theorem LexState.Between.step_separator {depth : ℕ} {q : LexState} (h : Between depth q) {c : Char}
    (hc : c = ',' ∨ c = ':') : q.step c = outside depth := by
  obtain rfl | rfl := h <;> obtain rfl | rfl := hc <;> rfl

variable {α : Type} {item : Parser α} {p : Parser Value} {close : Char}

theorem scan_separated (hitem : Reads item) (hclose : close = ']' ∨ close = '}') :
    ∀ {fuel : ℕ} {cs : List Char} {as : List α} {rest : List Char},
    separated item close fuel cs = some (as, rest) → ∃ used, cs = used ++ rest ∧
      ∀ depth, 0 < depth → (outside depth).scan used = (outside depth).step close
  | 0, _, _, _, h => by cases h
  | fuel + 1, cs, as, rest, h => by
      rw [separated] at h
      obtain ⟨⟨a, cs₁⟩, ha, hmore⟩ := Option.bind_eq_some_iff.mp h
      obtain ⟨used₁, hused₁, hscan₁⟩ := hitem _ _ _ ha
      obtain ⟨spaces, hspaces, hwhite⟩ := exists_skipSpace cs₁
      dsimp only at hmore
      split at hmore
      · rename_i c cs₂ hskip
        rw [hskip] at hspaces
        split_ifs at hmore with hend hcomma
        · cases hmore
          refine ⟨used₁ ++ spaces ++ [c], by rw [hused₁, hspaces]; simp, fun depth hdepth => ?_⟩
          rw [scan_append, scan_append, scan_cons, scan_nil,
            ((hscan₁ depth hdepth).scan_spaces hwhite).step_close (hend ▸ hclose), hend]
        · obtain ⟨⟨as', rest'⟩, hsep, heq⟩ := Option.map_eq_some_iff.mp hmore
          cases heq
          obtain ⟨used₂, hused₂, hscan₂⟩ := scan_separated hitem hclose hsep
          refine ⟨used₁ ++ spaces ++ c :: used₂, by rw [hused₁, hspaces, hused₂]; simp,
            fun depth hdepth => ?_⟩
          rw [scan_append, scan_append, scan_cons,
            ((hscan₁ depth hdepth).scan_spaces hwhite).step_separator (.inl hcomma),
            hscan₂ depth hdepth]
      · cases hmore

theorem scan_items (hitem : Reads item) (hclose : close = ']' ∨ close = '}') {cs : List Char}
    {as : List α} {rest : List Char} (h : items item close cs = some (as, rest)) :
    ∃ used, cs = used ++ rest ∧
      ∀ depth, 0 < depth → (outside depth).scan used = (outside depth).step close := by
  unfold items at h
  obtain ⟨spaces, hspaces, hwhite⟩ := exists_skipSpace cs
  split at h
  · rename_i c cs₁ hskip
    rw [hskip] at hspaces
    split_ifs at h with hend
    · cases h
      refine ⟨spaces ++ [c], by rw [hspaces]; simp, fun depth _ => ?_⟩
      rw [scan_append, scan_spaces hwhite, scan_cons, scan_nil, hend]
    · exact scan_separated hitem hclose h
  · cases h

theorem reads_member (hp : Reads p) : Reads (member p) := by
  intro cs a rest h
  unfold member at h
  obtain ⟨spaces, hspaces, hwhite⟩ := exists_skipSpace cs
  split at h
  · rename_i cs₁ hskip
    rw [hskip] at hspaces
    obtain ⟨⟨key, cs₂⟩, hkey, h⟩ := Option.bind_eq_some_iff.mp h
    obtain ⟨used₁, hused₁, hscan₁⟩ := scan_stringBody hkey
    obtain ⟨spaces', hspaces', hwhite'⟩ := exists_skipSpace cs₂
    dsimp only at h
    split at h
    · rename_i cs₃ hskip'
      rw [hskip'] at hspaces'
      obtain ⟨⟨v, rest'⟩, hv, heq⟩ := Option.map_eq_some_iff.mp h
      cases heq
      obtain ⟨used₂, rfl, hscan₂⟩ := hp _ _ _ hv
      refine ⟨spaces ++ '"' :: (used₁ ++ spaces' ++ ':' :: used₂), ?_, fun depth hdepth => ?_⟩
      · rw [hspaces, hused₁, hspaces']
        simp
      · have hkey : Between depth ((afterString depth).scan spaces') :=
          Between.scan_spaces (.inr rfl) hwhite'
        rw [scan_append, scan_spaces hwhite, scan_cons]
        change (Between depth ((inString depth).scan _))
        rw [scan_append, scan_append, hscan₁, scan_cons, hkey.step_separator (.inr rfl)]
        exact hscan₂ depth hdepth
    · cases h
  · cases h

theorem reads_scalar : Reads scalar := by
  intro cs v rest h
  unfold scalar at h
  have hliteral : ∀ (t : List Char) (rest' : List Char), (∀ c ∈ t, isNumeric c) →
      expect t cs = some rest' → rest' = rest → ∃ used, cs = used ++ rest ∧
        ∀ depth, 0 < depth → Between depth ((outside depth).scan used) := by
    rintro t rest' ht hexpect rfl
    exact ⟨t, expect_eq_some hexpect, fun depth _ => .inl (scan_outside ht)⟩
  split at h
  · rename_i hexpect
    exact hliteral _ _ (by simp [isNumeric]) hexpect (by cases h; rfl)
  · split at h
    · rename_i hexpect
      exact hliteral _ _ (by simp [isNumeric]) hexpect (by cases h; rfl)
    · split at h
      · rename_i hexpect
        exact hliteral _ _ (by simp [isNumeric]) hexpect (by cases h; rfl)
      · obtain ⟨⟨literal, rest'⟩, hnumber, heq⟩ := Option.map_eq_some_iff.mp h
        cases heq
        obtain ⟨hread, hnumeric⟩ := returns_number _ _ _ hnumber
        exact ⟨literal, hread, fun depth _ => .inl (scan_outside hnumeric)⟩

theorem reads_value : ∀ fuel, Reads (value fuel)
  | 0 => fun _ _ _ h => by cases h
  | fuel + 1 => fun cs v rest h => by
      rw [value] at h
      obtain ⟨spaces, hspaces, hwhite⟩ := exists_skipSpace cs
      split at h
      · rename_i cs₁ hskip
        rw [hskip] at hspaces
        obtain ⟨⟨s, rest'⟩, hbody, heq⟩ := Option.map_eq_some_iff.mp h
        cases heq
        obtain ⟨used, hused, hscan⟩ := scan_stringBody hbody
        refine ⟨spaces ++ '"' :: used, by rw [hspaces, hused]; simp, fun depth _ => .inr ?_⟩
        rw [scan_append, scan_spaces hwhite, scan_cons]
        exact hscan depth
      · rename_i cs₁ hskip
        rw [hskip] at hspaces
        obtain ⟨⟨vs, rest'⟩, hitems, heq⟩ := Option.map_eq_some_iff.mp h
        cases heq
        obtain ⟨used, hused, hscan⟩ := scan_items (reads_value fuel) (.inl rfl) hitems
        refine ⟨spaces ++ '[' :: used, by rw [hspaces, hused]; simp, fun depth hdepth => .inl ?_⟩
        rw [scan_append, scan_spaces hwhite, scan_cons]
        exact hscan depth hdepth
      · rename_i cs₁ hskip
        rw [hskip] at hspaces
        obtain ⟨⟨vs, rest'⟩, hitems, heq⟩ := Option.map_eq_some_iff.mp h
        cases heq
        obtain ⟨used, hused, hscan⟩ := scan_items (reads_member (reads_value fuel)) (.inr rfl) hitems
        refine ⟨spaces ++ '{' :: used, by rw [hspaces, hused]; simp, fun depth hdepth => .inl ?_⟩
        rw [scan_append, scan_spaces hwhite, scan_cons]
        obtain ⟨depth, rfl⟩ := Nat.exists_eq_succ_of_ne_zero hdepth.ne'
        exact hscan (depth + 2) (Nat.succ_pos _)
      · rename_i cs₁ hskip
        obtain ⟨used, hused, hscan⟩ := reads_scalar _ _ _ h
        refine ⟨spaces ++ used, by rw [hspaces, hused, List.append_assoc], fun depth hdepth => ?_⟩
        rw [scan_append, scan_spaces hwhite]
        exact hscan depth hdepth

theorem isWhiteSpace_of_isSpace {c : Char} (h : isSpace c = true) : Js.isWhiteSpace c = true := by
  obtain rfl | rfl | rfl | rfl := isSpace_cases h <;> decide

/-- **An object that is parsed** is scanned to its end. -/
theorem scan_of_parse {cs : List Char} {v : Value} (h : parse ('{' :: cs) = some v) :
    (outside 0).scan ('{' :: cs) = finished := by
  obtain ⟨⟨v', rest⟩, hvalue, hrest⟩ := Option.bind_eq_some_iff.mp h
  rw [value, skipSpace_cons _ (by decide)] at hvalue
  obtain ⟨⟨ms, rest'⟩, hitems, heq⟩ := Option.map_eq_some_iff.mp
    (show (items _ _ cs).map _ = _ from hvalue)
  cases heq
  obtain ⟨used, hused, hscan⟩ := scan_items (reads_member (reads_value _)) (.inr rfl) hitems
  have hwhite : ∀ c ∈ rest', Js.isWhiteSpace c = true := by
    dsimp only at hrest
    split_ifs at hrest with hempty
    intro c hc
    obtain ⟨spaces, hspaces, hspace⟩ := exists_skipSpace rest'
    rw [List.isEmpty_iff.mp hempty, List.append_nil] at hspaces
    exact isWhiteSpace_of_isSpace (hspace c (hspaces ▸ hc))
  rw [scan_cons, hused, scan_append]
  change ((outside 1).scan used).scan rest' = finished
  rw [hscan 1 Nat.one_pos]
  exact scan_finished hwhite

end Enclave.Json

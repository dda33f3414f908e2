import Enclave.Lib.JsonLex

/-! # Torn records

A record is an object on a line of its own.  Of a record that was torn a piece is left, and other
records and pieces may be written right behind it.  The scan of such a line is `Unfinished`: pieces
do not finish it (`Unfinished.scan_pieces`, `scan_line`), and so the line is not parsed
(`parse_trim_of_unfinished`). -/

namespace Enclave.Json

open LexState

/-- The text of an object whose first key begins with a letter or a digit, and nothing after it. -/
structure IsRecord (t : List Char) : Prop where
  head : ∃ c cs, t = '{' :: '"' :: c :: cs ∧ c.isAlphanum = true
  parses : (parse t).isSome = true
  last : t.getLast? = some '}'

/-- What was written of a text: a part from its beginning, and perhaps a character in place of one
that was torn. -/
inductive Piece (t : List Char) : List Char → Prop
  | whole {p : List Char} : p ≠ [] → p <+: t → Piece t p
  | torn {p : List Char} {c : Char} : p ≠ [] → p <+: t → p ≠ t → c ≠ '}' → Piece t (p ++ [c])

namespace LexState

/-- The end is not reached. -/
def Unfinished : LexState → Prop
  | outside depth => 0 < depth
  | afterString depth => 0 < depth
  | inString depth => 0 < depth
  | escaped depth => 0 < depth
  | finished => False
  | failed => True

/-- The same within more objects. -/
def nest (n : ℕ) : LexState → LexState
  | outside depth => outside (depth + n)
  | afterString depth => afterString (depth + n)
  | inString depth => inString (depth + n)
  | escaped depth => escaped (depth + n)
  | finished => outside n
  | failed => failed

variable {q : LexState} {c : Char} {cs t p : List Char} {n : ℕ}

theorem step_finished (c : Char) : finished.step c = finished ∨ finished.step c = failed := by
  rw [step]
  split_ifs
  · exact .inl rfl
  · exact .inr rfl

theorem scan_finished_cases (cs : List Char) :
    finished.scan cs = finished ∨ finished.scan cs = failed := by
  induction cs with
  | nil => exact .inl rfl
  | cons c cs ih =>
      rw [scan_cons]
      obtain h | h := step_finished c
      · rwa [h]
      · exact .inr (by rw [h, scan_failed])

/-- Only a closing brace ends a record. -/
theorem Unfinished.step (h : Unfinished q) (hc : c ≠ '}') : Unfinished (q.step c) := by
  cases q with
  | outside depth =>
      rw [LexState.step, if_neg hc]
      split_ifs
      · exact h
      · exact Nat.succ_pos _
      · exact h
  | afterString depth =>
      rw [LexState.step, if_neg hc]
      split_ifs
      · exact h
      · exact h
      · trivial
  | inString depth =>
      rw [LexState.step]
      split_ifs
      · exact h
      · exact h
      · exact h
  | escaped depth => exact h
  | finished => exact h.elim
  | failed => trivial

theorem closeObject_cases (depth : ℕ) :
    closeObject depth = finished ∨ Unfinished (closeObject depth) :=
  match depth with
  | 0 => .inr trivial
  | 1 => .inl rfl
  | _ + 2 => .inr (Nat.succ_pos _)

theorem Unfinished.step_cases (h : Unfinished q) (c : Char) :
    q.step c = finished ∨ Unfinished (q.step c) := by
  by_cases hc : c = '}'
  · subst hc
    cases q with
    | outside depth => exact closeObject_cases depth
    | afterString depth => exact closeObject_cases depth
    | inString depth => exact .inr h
    | escaped depth => exact .inr h
    | finished => exact h.elim
    | failed => exact .inr trivial
  · exact .inr (h.step hc)

theorem Unfinished.scan_cases (h : Unfinished q) (cs : List Char) :
    q.scan cs = finished ∨ Unfinished (q.scan cs) := by
  induction cs generalizing q with
  | nil => exact .inr h
  | cons c cs ih =>
      rw [scan_cons]
      obtain hfinished | hmore := h.step_cases c
      · rw [hfinished]
        exact (scan_finished_cases cs).imp_right fun h => by rw [h]; trivial
      · exact ih hmore

theorem unfinished_nest (h : Unfinished q) (n : ℕ) : Unfinished (nest n q) := by
  cases q with
  | outside depth => exact Nat.lt_of_lt_of_le h (Nat.le_add_right _ _)
  | afterString depth => exact Nat.lt_of_lt_of_le h (Nat.le_add_right _ _)
  | inString depth => exact Nat.lt_of_lt_of_le h (Nat.le_add_right _ _)
  | escaped depth => exact Nat.lt_of_lt_of_le h (Nat.le_add_right _ _)
  | finished => exact h.elim
  | failed => trivial

theorem closeObject_nest {depth : ℕ} (hdepth : 0 < depth) (hn : 0 < n) :
    closeObject (depth + n) = nest n (closeObject depth) := by
  obtain ⟨n, rfl⟩ := Nat.exists_eq_succ_of_ne_zero hn.ne'
  obtain ⟨depth, rfl⟩ := Nat.exists_eq_succ_of_ne_zero hdepth.ne'
  cases depth with
  | zero => rw [show (0 : ℕ).succ + n.succ = n + 2 by omega]; rfl
  | succ depth =>
      rw [show depth.succ.succ + n.succ = depth + n.succ + 2 by omega]
      exact congrArg outside (by omega)

theorem Unfinished.step_nest (h : Unfinished q) (hn : 0 < n) (c : Char) :
    (nest n q).step c = nest n (q.step c) := by
  cases q with
  | outside depth =>
      rw [nest, LexState.step, LexState.step]
      split_ifs
      · rfl
      · exact congrArg outside (Nat.add_right_comm _ _ _)
      · exact closeObject_nest h hn
      · rfl
  | afterString depth =>
      rw [nest, LexState.step, LexState.step]
      split_ifs
      · rfl
      · exact closeObject_nest h hn
      · rfl
      · rfl
  | inString depth =>
      rw [nest, LexState.step, LexState.step]
      split_ifs
      · rfl
      · rfl
      · rfl
  | escaped depth => rfl
  | finished => exact h.elim
  | failed => rfl

theorem Unfinished.scan_nest (h : Unfinished q) (hn : 0 < n)
    (hends : ∀ p, p <+: cs → p ≠ cs → q.scan p ≠ finished) :
    (nest n q).scan cs = nest n (q.scan cs) := by
  induction cs generalizing q with
  | nil => rfl
  | cons c cs ih =>
      rw [scan_cons, scan_cons, h.step_nest hn]
      by_cases hnil : cs = []
      · rw [hnil]
        rfl
      · have hstep : Unfinished (q.step c) := by
          obtain hfinished | hmore := h.step_cases c
          · exact absurd hfinished (hends [c] ⟨cs, rfl⟩ (by simpa using Ne.symm hnil))
          · exact hmore
        refine ih hstep fun p hp hne => ?_
        exact hends (c :: p) (List.cons_prefix_cons.mpr ⟨rfl, hp⟩) (by simpa using hne)

/-- A record is scanned to its end. -/
theorem scan_record (ht : IsRecord t) : (outside 0).scan t = finished := by
  obtain ⟨v, hv⟩ := Option.isSome_iff_exists.mp ht.parses
  obtain ⟨c, cs, rfl, -⟩ := ht.head
  exact scan_of_parse hv

theorem unfinished_of_part (ht : IsRecord t) (hne : p ≠ []) (hp : p <+: t) (hpt : p ≠ t) :
    Unfinished ((outside 0).scan p) := by
  have hfull := scan_record ht
  have hlast := ht.last
  obtain ⟨c, cs, rfl, -⟩ := ht.head
  obtain ⟨r, hr⟩ := hp
  cases p with
  | nil => exact absurd rfl hne
  | cons d u =>
      cases (List.cons.inj hr).1
      have hone : Unfinished (outside 1) := Nat.one_pos
      obtain hfinished | hmore := hone.scan_cases u
      · have hrne : r ≠ [] := by
          rintro rfl
          exact hpt (by rw [← hr, List.append_nil])
        obtain ⟨r, e, rfl⟩ := (List.eq_nil_or_concat' r).resolve_left hrne
        rw [← hr, ← List.append_assoc, List.getLast?_concat] at hlast
        cases hlast
        rw [← hr, scan_append, scan_append] at hfull
        change (((outside 1).scan u).scan r).step '}' = finished at hfull
        rw [hfinished] at hfull
        obtain h | h := scan_finished_cases r
        · rw [h] at hfull
          cases hfull
        · rw [h] at hfull
          cases hfull
      · exact hmore

/-- **A part of a record within a record** does not end it. -/
theorem Unfinished.scan_part (ht : IsRecord t) (hq : Unfinished q) (hp : p <+: t) :
    Unfinished (q.scan p) := by
  have hproper : ∀ p, p <+: t → p ≠ [] → p ≠ t → Unfinished ((outside 0).scan p) :=
    fun p hp hne hpt => unfinished_of_part ht hne hp hpt
  have hfull := scan_record ht
  obtain ⟨c, cs, rfl, hc⟩ := ht.head
  obtain rfl | ⟨u, rfl, hu⟩ : p = [] ∨ ∃ u, p = '{' :: u ∧ u <+: '"' :: c :: cs := by
    cases p with
    | nil => exact .inl rfl
    | cons d u =>
        obtain ⟨rfl, hu⟩ := List.cons_prefix_cons.mp hp
        exact .inr ⟨u, rfl, hu⟩
  · exact hq
  -- in a string, the quote of the first key closes it, and the letter after that is an error
  have hstring : ∀ depth, 0 < depth → Unfinished ((inString depth).scan u) := by
    intro depth hdepth
    cases u with
    | nil => exact hdepth
    | cons d u =>
        obtain ⟨rfl, hu₁⟩ := List.cons_prefix_cons.mp hu
        cases u with
        | nil => exact hdepth
        | cons d u =>
            obtain ⟨rfl, -⟩ := List.cons_prefix_cons.mp hu₁
            have hletter : ∀ e : Char, e.isAlphanum = false → d ≠ e := by
              rintro e he rfl
              rw [hc] at he
              cases he
            have hspace : isSpace d = false := by
              simp [isSpace, hletter ' ' (by decide), hletter '\t' (by decide),
                hletter '\n' (by decide), hletter '\r' (by decide)]
            have hstep : (afterString depth).step d = failed := by
              rw [LexState.step, if_neg, if_neg (hletter '}' (by decide)), if_neg]
              · rw [hspace]
                exact Bool.false_ne_true
              · simp [hletter ',' (by decide), hletter ':' (by decide), hletter ']' (by decide)]
            rw [scan_cons, scan_cons]
            change Unfinished (((afterString depth).step d).scan u)
            rw [hstep, scan_failed]
            trivial
  cases q with
  | outside depth =>
      have hone : Unfinished (outside 1) := Nat.one_pos
      have hnest := @Unfinished.scan_nest _ u depth hone hq fun p hp hne hfinished => by
        have hlt := hproper ('{' :: p) (List.cons_prefix_cons.mpr ⟨rfl, hp.trans hu⟩)
          (List.cons_ne_nil _ _) ?_
        · change Unfinished ((outside 1).scan p) at hlt
          rw [hfinished] at hlt
          exact hlt
        · intro heq
          have hlen := (hp.length_le.trans hu.length_le)
          have hpu : p = u := hp.eq_of_length (Nat.le_antisymm hp.length_le (by
            have := congrArg List.length heq
            rw [List.length_cons, List.length_cons] at this
            have := hu.length_le
            omega))
          exact hne hpu
      have hdepth : (outside depth).step '{' = nest depth (outside 1) :=
        congrArg outside (Nat.add_comm _ _)
      rw [scan_cons, hdepth, hnest]
      obtain hfinished | hmore := hone.scan_cases u
      · rw [hfinished]
        exact hq
      · exact unfinished_nest hmore depth
  | afterString depth =>
      rw [scan_cons]
      change Unfinished (failed.scan u)
      rw [scan_failed]
      trivial
  | inString depth => exact hstring depth hq
  | escaped depth => exact hstring depth hq
  | finished => exact hq.elim
  | failed =>
      rw [scan_failed]
      trivial

/-- **A piece of a record** within one. -/
theorem Unfinished.scan_piece (ht : IsRecord t) (hq : Unfinished q) (hp : Piece t p) :
    Unfinished (q.scan p) := by
  cases hp with
  | whole _ hp => exact hq.scan_part ht hp
  | torn _ hp _ hc =>
      rw [scan_append]
      exact (hq.scan_part ht hp).step hc

theorem exists_cons_of_piece (ht : IsRecord t) (hp : Piece t p) : ∃ u, p = '{' :: u := by
  obtain ⟨c, cs, rfl, -⟩ := ht.head
  have hcons : ∀ p, p ≠ [] → p <+: '{' :: '"' :: c :: cs → ∃ u, p = '{' :: u := by
    intro p hne hp
    cases p with
    | nil => exact absurd rfl hne
    | cons d u =>
        obtain ⟨rfl, -⟩ := List.cons_prefix_cons.mp hp
        exact ⟨u, rfl⟩
  cases hp with
  | whole hne hp => exact hcons _ hne hp
  | torn hne hp =>
      obtain ⟨u, rfl⟩ := hcons _ hne hp
      exact ⟨_, rfl⟩

/-- **A piece after a record.** -/
theorem scan_piece_finished (ht : IsRecord t) (hp : Piece t p) : Unfinished (finished.scan p) := by
  obtain ⟨u, rfl⟩ := exists_cons_of_piece ht hp
  rw [scan_cons]
  change Unfinished (failed.scan u)
  rw [scan_failed]
  trivial

/-- **The first piece** is the record, or does not end. -/
theorem scan_first_piece (ht : IsRecord t) (hp : Piece t p) :
    p = t ∨ Unfinished ((outside 0).scan p) := by
  cases hp with
  | whole hne hp =>
      by_cases hpt : p = t
      · exact .inl hpt
      · exact .inr (unfinished_of_part ht hne hp hpt)
  | torn hne hp hpt hc =>
      refine .inr ?_
      rw [scan_append]
      exact (unfinished_of_part ht hne hp hpt).step hc

theorem Unfinished.scan_pieces {ps : List (List Char)} (hq : Unfinished q)
    (hps : ∀ p ∈ ps, ∃ t, IsRecord t ∧ Piece t p) : Unfinished (q.scan ps.flatten) := by
  induction ps generalizing q with
  | nil => exact hq
  | cons p ps ih =>
      obtain ⟨t, ht, hp⟩ := hps p List.mem_cons_self
      rw [List.flatten_cons, scan_append]
      exact ih (hq.scan_piece ht hp) fun p hp => hps p (List.mem_cons_of_mem _ hp)

/-- **A record is alone on its line**, or the line does not end. -/
theorem scan_line {ps : List (List Char)} (ht : IsRecord t) (hp : Piece t p)
    (hps : ∀ q ∈ ps, ∃ t, IsRecord t ∧ Piece t q) (hmore : p ≠ t ∨ ps ≠ []) :
    Unfinished ((outside 0).scan (p ++ ps.flatten)) := by
  rw [scan_append]
  obtain rfl | hunfinished := scan_first_piece ht hp
  · cases ps with
    | nil => exact absurd rfl (hmore.resolve_left (not_not.mpr rfl))
    | cons q ps =>
        obtain ⟨t', ht', hq⟩ := hps q List.mem_cons_self
        rw [scan_record ht, List.flatten_cons, scan_append]
        exact (scan_piece_finished ht' hq).scan_pieces fun r hr =>
          hps r (List.mem_cons_of_mem _ hr)
  · exact hunfinished.scan_pieces hps

end LexState

theorem exists_trim (cs : List Char) : ∃ us spaces, '{' :: cs = '{' :: us ++ spaces ∧
    Js.trim ('{' :: cs) = '{' :: us ∧ ∀ c ∈ spaces, Js.isWhiteSpace c = true := by
  have hhead : ('{' :: cs).dropWhile Js.isWhiteSpace = '{' :: cs :=
    List.dropWhile_cons_of_neg (by decide)
  have hsplit : '{' :: cs = Js.trim ('{' :: cs) ++
      (('{' :: cs).reverse.takeWhile Js.isWhiteSpace).reverse := by
    rw [Js.trim, hhead, ← List.reverse_append, List.takeWhile_append_dropWhile, List.reverse_reverse]
  have hspaces : ∀ c ∈ (('{' :: cs).reverse.takeWhile Js.isWhiteSpace).reverse,
      Js.isWhiteSpace c = true := fun c hc => List.mem_takeWhile_imp (List.mem_reverse.mp hc)
  cases htrim : Js.trim ('{' :: cs) with
  | nil =>
      rw [htrim, List.nil_append] at hsplit
      have hbrace := hspaces '{' (hsplit ▸ List.mem_cons_self)
      exact absurd hbrace (by decide)
  | cons c us =>
      rw [htrim, List.cons_append] at hsplit
      cases (List.cons.inj hsplit).1
      exact ⟨us, _, hsplit, rfl, hspaces⟩

/-- **A line that does not end** is not parsed, with or without the white space behind it. -/
theorem parse_trim_of_unfinished {cs : List Char}
    (h : Unfinished ((outside 0).scan ('{' :: cs))) : parse (Js.trim ('{' :: cs)) = none := by
  obtain ⟨us, spaces, hsplit, htrim, hspaces⟩ := exists_trim cs
  cases hparse : parse (Js.trim ('{' :: cs)) with
  | none => rfl
  | some v =>
      rw [htrim] at hparse
      rw [hsplit, scan_append, scan_of_parse hparse, scan_finished hspaces] at h
      exact h.elim

end Enclave.Json

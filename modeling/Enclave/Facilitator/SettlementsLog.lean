import Enclave.Lib.JsonTorn
import Enclave.Lib.JsonWrite

/-! # The settlements log

`createSettlementsLog`: `append` writes a JSON object and a line feed behind what the file holds,
`list` reads the file line by line and leaves out a line that does not parse.

A write may be cut short by a crash, after any number of bytes.  What it leaves is no line, and the
next write goes on behind it: the two stand on one line, which does not parse.  So a settlement that
was appended without a crash is lost when the write before it was torn.  The log holds what it
should (`Faithful`), after every write of a run, exactly if no write that was torn is followed by
one that completes (`faithful_iff`). -/

namespace Enclave.Facilitator.SettlementsLog

open Json Json.LexState

/-! ### Entries -/

/-- `SettlementEntry`; `ts` is an integer number of milliseconds. -/
structure SettlementEntry where
  ts : ℕ
  nullifier : String
  recipient : String
  amount : String
  txHash : String
deriving DecidableEq

/-- The fields behind `ts`. -/
def SettlementEntry.fields (entry : SettlementEntry) : List (String × String) :=
  [("nullifier", entry.nullifier), ("recipient", entry.recipient), ("amount", entry.amount),
    ("txHash", entry.txHash)]

/-- `JSON.stringify(entry)`. -/
def SettlementEntry.text (entry : SettlementEntry) : List Char :=
  numberObject "ts" entry.ts entry.fields

/-- What `JSON.parse` gives back. -/
def SettlementEntry.value (entry : SettlementEntry) : Value :=
  numberValue "ts" entry.ts entry.fields

/-- What `append` writes. -/
def SettlementEntry.line (entry : SettlementEntry) : List Char := entry.text ++ ['\n']

/-! ### The file -/

def byteLength (cs : List Char) : ℕ := (cs.map Char.utf8Size).sum

/-- The first bytes of a text, read back as `utf8`: of a character that is torn, `U+FFFD` is read.
(The bytes behind it begin a character, for every write begins with a brace.) -/
def takeBytes : ℕ → List Char → List Char
  | _, [] => []
  | n, c :: cs =>
      if n = 0 then []
      else if c.utf8Size ≤ n then c :: takeBytes (n - c.utf8Size) cs
      else ['\uFFFD']

/-- A call of `append`; a crash may cut its write after a number of bytes. -/
structure Write where
  entry : SettlementEntry
  cut : Option ℕ
  cut_lt : ∀ n ∈ cut, n < byteLength entry.line

namespace Write

/-- What the write leaves in the file. -/
def written (w : Write) : List Char :=
  match w.cut with
  | none => w.entry.line
  | some n => takeBytes n w.entry.line

/-- The append completed. -/
def completed (w : Write) : Bool := w.cut.isNone

/-- The write was cut, but not before its first byte. -/
def Torn (w : Write) : Prop := ∃ n, w.cut = some n ∧ 0 < n

/-- The write was not cut before its last JSON byte. -/
def Whole (w : Write) : Prop := ∀ n ∈ w.cut, byteLength w.entry.text ≤ n

end Write

/-- The text of the file after some writes; there is none before the first. -/
def file : List Write → Option (List Char)
  | [] => none
  | w :: ws => some ((w :: ws).flatMap Write.written)

/-- `split("\n")`. -/
def splitLines : List Char → List (List Char)
  | [] => [[]]
  | c :: cs =>
      if c = '\n' then [] :: splitLines cs
      else (c :: (splitLines cs).headD []) :: (splitLines cs).tail

def readLine (line : List Char) : Option Value :=
  if (Js.trim line).isEmpty then none else parse (Js.trim line)

def readEntries (raw : List Char) : List Value := (splitLines raw).filterMap readLine

/-- `list`. -/
def list : Option (List Char) → List Value
  | none => []
  | some raw => readEntries raw

/-- The log holds what it should: every entry whose append completed, in order, and besides these
only entries whose JSON was written to its end. -/
def Faithful (ws : List Write) : Prop :=
  ∃ kept : List Write, kept.Sublist ws ∧
    list (file ws) = kept.map (fun w => w.entry.value) ∧
    (ws.filter Write.completed).Sublist kept ∧ ∀ w ∈ kept, w.Whole

/-- No write that was torn is followed by one that completes. -/
def Clean (ws : List Write) : Prop := ws.Pairwise fun w w' => w.Torn → w'.completed = false

theorem list_file (ws : List Write) : list (file ws) = readEntries (ws.flatMap Write.written) := by
  cases ws with
  | nil => rfl
  | cons w ws => rfl

/-! ### Lines -/

theorem splitLines_append {l : List Char} (h : '\n' ∉ l) (rest : List Char) :
    splitLines (l ++ '\n' :: rest) = l :: splitLines rest := by
  induction l with
  | nil =>
      rw [List.nil_append, splitLines]
      exact if_pos rfl
  | cons c l ih =>
      rw [List.mem_cons, not_or] at h
      rw [List.cons_append, splitLines, if_neg (Ne.symm h.1), ih h.2]
      rfl

theorem splitLines_single {l : List Char} (h : '\n' ∉ l) : splitLines l = [l] := by
  induction l with
  | nil => rfl
  | cons c l ih =>
      rw [List.mem_cons, not_or] at h
      rw [splitLines, if_neg (Ne.symm h.1), ih h.2]
      rfl

theorem readEntries_append {l : List Char} (h : '\n' ∉ l) (rest : List Char) :
    readEntries (l ++ '\n' :: rest) = (readLine l).toList ++ readEntries rest := by
  rw [readEntries, splitLines_append h, List.filterMap_cons]
  cases readLine l with
  | none => rfl
  | some v => rfl

theorem readEntries_single {l : List Char} (h : '\n' ∉ l) :
    readEntries l = (readLine l).toList := by
  rw [readEntries, splitLines_single h, List.filterMap_cons]
  cases readLine l with
  | none => rfl
  | some v => rfl

/-! ### Records -/

variable (entry : SettlementEntry)

theorem isPlain_fields : ∀ g ∈ entry.fields, isPlain g.1.toList = true := by
  intro g hg
  simp only [SettlementEntry.fields, List.mem_cons, List.not_mem_nil, or_false] at hg
  obtain rfl | rfl | rfl | rfl := hg
  · exact (by decide : isPlain "nullifier".toList = true)
  · exact (by decide : isPlain "recipient".toList = true)
  · exact (by decide : isPlain "amount".toList = true)
  · exact (by decide : isPlain "txHash".toList = true)

theorem parse_text : parse entry.text = some entry.value :=
  parse_numberObject (by decide) (isPlain_fields entry)

theorem not_mem_text : '\n' ∉ entry.text :=
  not_mem_numberObject (by decide) (isPlain_fields entry)

theorem getLast?_text : entry.text.getLast? = some '}' := by
  rw [SettlementEntry.text, numberObject, objectText, List.getLast?_concat]

/-- **An entry is a record.** -/
theorem isRecord_text : IsRecord entry.text where
  head := ⟨'t', _, numberObject_cons, by decide⟩
  parses := by
    rw [parse_text]
    rfl
  last := getLast?_text entry

theorem readLine_text : readLine entry.text = some entry.value := by
  have htrim : Js.trim entry.text = entry.text := by
    obtain ⟨c, cs, htext, -⟩ := (isRecord_text entry).head
    obtain ⟨us, h⟩ := List.getLast?_eq_some_iff.mp (getLast?_text entry)
    rw [Js.trim, htext, List.dropWhile_cons_of_neg (by decide), ← htext, h, List.reverse_concat,
      List.dropWhile_cons_of_neg (by decide), List.reverse_cons, List.reverse_reverse]
  rw [readLine, htrim, if_neg, parse_text]
  obtain ⟨c, cs, htext, -⟩ := (isRecord_text entry).head
  rw [htext]
  exact Bool.false_ne_true

/-! ### Cut writes -/

theorem takeBytes_zero (cs : List Char) : takeBytes 0 cs = [] := by
  cases cs with
  | nil => rfl
  | cons c cs => exact if_pos rfl

theorem byteLength_cons (c : Char) (cs : List Char) :
    byteLength (c :: cs) = c.utf8Size + byteLength cs := by
  rw [byteLength, List.map_cons, List.sum_cons, byteLength]

theorem takeBytes_append {l : List Char} : ∀ {n : ℕ}, n ≤ byteLength l →
    ∀ r, takeBytes n (l ++ r) = takeBytes n l := by
  induction l with
  | nil =>
      intro n hn r
      rw [Nat.le_zero.mp hn, takeBytes_zero, takeBytes_zero]
  | cons c l ih =>
      intro n hn r
      rw [byteLength_cons] at hn
      rw [List.cons_append, takeBytes, takeBytes, ih (by omega)]

/-- The bytes of a text up to its end are the text; fewer leave a part of it, and perhaps a torn
character. -/
theorem takeBytes_cases {l : List Char} : ∀ {n : ℕ}, n ≤ byteLength l →
    (takeBytes n l = l ∧ n = byteLength l) ∨
      ∃ p, p <+: l ∧ p ≠ l ∧ (takeBytes n l = p ∨ takeBytes n l = p ++ ['\uFFFD']) := by
  induction l with
  | nil => exact fun hn => .inl ⟨rfl, Nat.le_zero.mp hn⟩
  | cons c l ih =>
      intro n hn
      rw [byteLength_cons] at hn
      rw [takeBytes]
      split_ifs with hzero hsize
      · exact .inr ⟨[], List.nil_prefix, (List.cons_ne_nil _ _).symm, .inl rfl⟩
      · obtain ⟨htake, hlen⟩ | ⟨p, hp, hne, htake⟩ := ih (n := n - c.utf8Size) (by omega)
        · refine .inl ⟨by rw [htake], ?_⟩
          rw [byteLength_cons]
          omega
        · refine .inr ⟨c :: p, List.cons_prefix_cons.mpr ⟨rfl, hp⟩, ?_, ?_⟩
          · exact fun heq => hne (List.cons.inj heq).2
          · obtain h | h := htake
            · exact .inl (by rw [h])
            · exact .inr (by rw [h, List.cons_append])
      · exact .inr ⟨[], List.nil_prefix, (List.cons_ne_nil _ _).symm, .inr rfl⟩

theorem mem_takeBytes {l : List Char} {d : Char} : ∀ {n : ℕ}, d ∈ takeBytes n l →
    d ∈ l ∨ d = '\uFFFD' := by
  induction l with
  | nil => exact fun h => .inl h
  | cons c l ih =>
      intro n h
      rw [takeBytes] at h
      split_ifs at h with hzero hsize
      · cases h
      · obtain rfl | h := List.mem_cons.mp h
        · exact .inl List.mem_cons_self
        · exact (ih h).imp_left (List.mem_cons_of_mem _)
      · exact .inr (List.mem_singleton.mp h)

namespace Write

variable {w : Write}

theorem written_of_completed (h : w.completed = true) : w.written = w.entry.text ++ ['\n'] := by
  rw [written, Option.isNone_iff_eq_none.mp h]
  rfl

theorem written_of_cut {n : ℕ} (h : w.cut = some n) :
    w.written = takeBytes n w.entry.text ∧ n ≤ byteLength w.entry.text := by
  have hlt := w.cut_lt n h
  have hline : byteLength w.entry.line = byteLength w.entry.text + 1 := by
    rw [SettlementEntry.line, byteLength, List.map_append, List.sum_append]
    rfl
  rw [hline] at hlt
  have hle := Nat.le_of_lt_succ hlt
  rw [written, h]
  exact ⟨takeBytes_append hle _, hle⟩

/-- **What a torn write leaves** is a piece of the entry. -/
theorem piece_of_torn (h : w.Torn) : Piece w.entry.text w.written := by
  obtain ⟨n, hcut, hpos⟩ := h
  obtain ⟨hwritten, hle⟩ := written_of_cut hcut
  obtain ⟨c, cs, htext, -⟩ := (isRecord_text w.entry).head
  rw [hwritten]
  obtain ⟨htake, -⟩ | ⟨p, hp, hne, htake⟩ := takeBytes_cases hle
  · rw [htake]
    exact .whole (by rw [htext]; exact List.cons_ne_nil _ _) (List.prefix_refl _)
  · have hnil : p ≠ [] := by
      rintro rfl
      have hsize : Char.utf8Size '{' ≤ n := Nat.succ_le_of_lt hpos
      rw [htext, takeBytes, if_neg hpos.ne', if_pos hsize] at htake
      obtain h | h := htake
      · cases h
      · exact absurd (List.cons.inj h).1 (by decide)
    obtain h | h := htake
    · rw [h]
      exact .whole hnil hp
    · rw [h]
      exact .torn hnil hp hne (by decide)

/-- A torn write that leaves the entry was not cut before the last byte of the entry. -/
theorem whole_of_written (h : w.written = w.entry.text) : w.Whole := by
  intro n hcut
  obtain ⟨hwritten, hle⟩ := written_of_cut hcut
  rw [hwritten] at h
  obtain ⟨-, hlen⟩ | ⟨p, hp, hne, htake | htake⟩ := takeBytes_cases hle
  · exact hlen.ge
  · exact absurd (htake.symm.trans h) hne
  · have hlast := getLast?_text w.entry
    rw [← h, htake, List.getLast?_concat] at hlast
    cases hlast

theorem not_mem_written (h : w.completed = false) : '\n' ∉ w.written := by
  cases hcut : w.cut with
  | none =>
      rw [completed, hcut] at h
      cases h
  | some n =>
      rw [(written_of_cut hcut).1]
      intro hmem
      obtain h | h := mem_takeBytes hmem
      · exact not_mem_text _ h
      · cases h

theorem cases_cut (w : Write) :
    w.completed = true ∨ w.completed = false ∧ (w.written = [] ∨ w.Torn) := by
  cases hcut : w.cut with
  | none => exact .inl (Option.isNone_iff_eq_none.mpr hcut)
  | some n =>
      refine .inr ⟨by rw [completed, hcut]; rfl, ?_⟩
      obtain rfl | hpos := Nat.eq_zero_or_pos n
      · exact .inl (by rw [(written_of_cut hcut).1, takeBytes_zero])
      · exact .inr ⟨n, hcut, hpos⟩

end Write

/-! ### The last line -/

/-- What some writes leave, without those that leave nothing. -/
def pieces (ws : List Write) : List (List Char) := (ws.map Write.written).filter (· ≠ [])

theorem flatMap_written (ws : List Write) : ws.flatMap Write.written = (pieces ws).flatten := by
  rw [pieces, List.flatten_filter_ne_nil, List.flatMap_def]

variable {w : Write} {ws : List Write}

theorem mem_pieces (hws : ∀ w ∈ ws, w.completed = false) :
    ∀ q ∈ pieces ws, ∃ t, IsRecord t ∧ Piece t q := by
  intro q hq
  obtain ⟨hmem, hne⟩ := List.mem_filter.mp hq
  obtain ⟨w, hw, rfl⟩ := List.mem_map.mp hmem
  obtain hcompleted | ⟨-, hnil | htorn⟩ := w.cases_cut
  · rw [hws w hw] at hcompleted
    cases hcompleted
  · exact absurd hnil (of_decide_eq_true hne)
  · exact ⟨_, isRecord_text w.entry, w.piece_of_torn htorn⟩

/-- **A line with more than an entry on it** is left out. -/
theorem readLine_torn (htorn : w.Torn) {ps : List (List Char)}
    (hps : ∀ q ∈ ps, ∃ t, IsRecord t ∧ Piece t q) (hmore : w.written ≠ w.entry.text ∨ ps ≠ []) :
    readLine (w.written ++ ps.flatten) = none := by
  have hrecord := isRecord_text w.entry
  have hpiece := Write.piece_of_torn htorn
  have hline := scan_line hrecord hpiece hps hmore
  obtain ⟨u, hu⟩ := exists_cons_of_piece hrecord hpiece
  rw [hu, List.cons_append] at hline ⊢
  rw [readLine]
  split_ifs
  · rfl
  · exact parse_trim_of_unfinished hline

theorem not_mem_flatMap (hws : ∀ w ∈ ws, w.completed = false) :
    '\n' ∉ ws.flatMap Write.written := by
  intro hmem
  obtain ⟨w, hw, h⟩ := List.mem_flatMap.mp hmem
  exact Write.not_mem_written (hws w hw) h

theorem filter_completed (hws : ∀ w ∈ ws, w.completed = false) :
    ws.filter Write.completed = [] := by
  rw [List.filter_eq_nil_iff]
  intro w hw
  rw [hws w hw]
  exact Bool.false_ne_true

/-! ### Runs -/

/-- A run in which no write follows a torn one, but torn ones, is listed as it should be. -/
theorem faithful_of_clean (h : Clean ws) : Faithful ws := by
  unfold Faithful
  rw [list_file]
  induction ws with
  | nil => exact ⟨[], List.Sublist.refl _, rfl, List.Sublist.refl _, fun w hw => nomatch hw⟩
  | cons w ws ih =>
      obtain ⟨hfirst, hrest⟩ := List.pairwise_cons.mp h
      obtain ⟨kept, hsub, hlist, hcompleted, hwhole⟩ := ih hrest
      rw [List.flatMap_cons]
      obtain hdone | ⟨hcut, hnil | htorn⟩ := w.cases_cut
      · refine ⟨w :: kept, hsub.cons_cons w, ?_, ?_, ?_⟩
        · rw [Write.written_of_completed hdone, List.append_assoc, List.singleton_append,
            readEntries_append (not_mem_text _), readLine_text, hlist]
          rfl
        · rw [List.filter_cons_of_pos hdone]
          exact hcompleted.cons_cons w
        · intro w' hw'
          obtain rfl | hw' := List.mem_cons.mp hw'
          · intro n hn
            rw [Option.isNone_iff_eq_none.mp hdone] at hn
            cases hn
          · exact hwhole w' hw'
      · refine ⟨kept, hsub.cons w, ?_, ?_, hwhole⟩
        · rw [hnil, List.nil_append, hlist]
        · rwa [List.filter_cons_of_neg (by rw [hcut]; exact Bool.false_ne_true)]
      · -- the line of the torn write is not ended any more
        have hnone : ∀ w' ∈ ws, w'.completed = false := fun w' hw' => hfirst w' hw' htorn
        have hline : '\n' ∉ w.written ++ ws.flatMap Write.written := by
          rw [List.mem_append, not_or]
          exact ⟨Write.not_mem_written hcut, not_mem_flatMap hnone⟩
        have hfilter : (w :: ws).filter Write.completed = [] := by
          rw [List.filter_cons_of_neg (by rw [hcut]; exact Bool.false_ne_true),
            filter_completed hnone]
        rw [hfilter, readEntries_single hline, flatMap_written]
        by_cases hmore : w.written ≠ w.entry.text ∨ pieces ws ≠ []
        · refine ⟨[], List.nil_sublist _, ?_, List.Sublist.refl _, fun w hw => nomatch hw⟩
          rw [readLine_torn htorn (mem_pieces hnone) hmore]
          rfl
        · rw [not_or, not_not, not_not] at hmore
          refine ⟨[w], List.singleton_sublist.mpr List.mem_cons_self, ?_, List.nil_sublist _, ?_⟩
          · rw [hmore.1, hmore.2, List.flatten_nil, List.append_nil, readLine_text]
            rfl
          · intro w' hw'
            rw [List.mem_singleton.mp hw']
            exact Write.whole_of_written hmore.1

/-- **What is appended to a torn line is lost.** -/
theorem length_readEntries_lost (h : Clean ws) (htorn : ∃ u ∈ ws, u.Torn) (hw : w.completed = true) :
    (readEntries ((ws ++ [w]).flatMap Write.written)).length =
      (ws.filter Write.completed).length := by
  induction ws with
  | nil =>
      obtain ⟨u, hu, -⟩ := htorn
      cases hu
  | cons u ws ih =>
      obtain ⟨hfirst, hrest⟩ := List.pairwise_cons.mp h
      obtain ⟨v, hv, hvtorn⟩ := htorn
      rw [List.cons_append, List.flatMap_cons]
      obtain hdone | ⟨hcut, hnil | hutorn⟩ := u.cases_cut
      · have hvws : v ∈ ws := by
          obtain rfl | hv := List.mem_cons.mp hv
          · obtain ⟨n, hn, -⟩ := hvtorn
            rw [Write.completed, hn] at hdone
            cases hdone
          · exact hv
        rw [Write.written_of_completed hdone, List.append_assoc, List.singleton_append,
          readEntries_append (not_mem_text _), readLine_text, List.filter_cons_of_pos hdone,
          List.length_append, ih hrest ⟨v, hvws, hvtorn⟩, List.length_cons, Nat.add_comm]
        rfl
      · have hvws : v ∈ ws := by
          obtain rfl | hv := List.mem_cons.mp hv
          · obtain ⟨u, hu⟩ := exists_cons_of_piece (isRecord_text _) (Write.piece_of_torn hvtorn)
            rw [hnil] at hu
            cases hu
          · exact hv
        rw [hnil, List.nil_append, ih hrest ⟨v, hvws, hvtorn⟩,
          List.filter_cons_of_neg (by rw [hcut]; exact Bool.false_ne_true)]
      · have hnone : ∀ w' ∈ ws, w'.completed = false := fun w' hw' => hfirst w' hw' hutorn
        have hline : '\n' ∉ u.written ++ (ws.flatMap Write.written ++ w.entry.text) := by
          rw [List.mem_append, List.mem_append, not_or, not_or]
          exact ⟨Write.not_mem_written hcut, not_mem_flatMap hnone, not_mem_text _⟩
        have hread : readLine (u.written ++ (ws.flatMap Write.written ++ w.entry.text)) = none := by
          have hps : ∀ q ∈ pieces ws ++ [w.entry.text], ∃ t, IsRecord t ∧ Piece t q := by
            intro q hq
            obtain hq | hq := List.mem_append.mp hq
            · exact mem_pieces hnone q hq
            · rw [List.mem_singleton.mp hq]
              refine ⟨_, isRecord_text w.entry, .whole ?_ (List.prefix_refl _)⟩
              obtain ⟨c, cs, htext, -⟩ := (isRecord_text w.entry).head
              rw [htext]
              exact List.cons_ne_nil _ _
          have hlost := readLine_torn hutorn hps (.inr (List.append_ne_nil_of_right_ne_nil _
            (List.cons_ne_nil _ _)))
          rwa [List.flatten_append, List.flatten_singleton, ← flatMap_written] at hlost
        have hfile : u.written ++ (ws ++ [w]).flatMap Write.written =
            u.written ++ (ws.flatMap Write.written ++ w.entry.text) ++ '\n' :: [] := by
          rw [List.flatMap_append, List.flatMap_cons, List.flatMap_nil, List.append_nil,
            Write.written_of_completed hw, List.append_assoc, List.append_assoc]
        rw [hfile, readEntries_append hline, hread,
          List.filter_cons_of_neg (by rw [hcut]; exact Bool.false_ne_true), filter_completed hnone]
        rfl

/-- **When the log is faithful**: after every write of a run it lists what was appended, exactly if
no write that was torn is followed by one that completes. -/
theorem faithful_iff (ws : List Write) : (∀ us, us <+: ws → Faithful us) ↔ Clean ws := by
  constructor
  · intro h
    induction ws using List.reverseRecOn with
    | nil => exact List.Pairwise.nil
    | append_singleton us w ih =>
        have hus : Clean us := ih fun vs hvs => h vs (hvs.trans (List.prefix_append _ _))
        refine List.pairwise_append.mpr
          ⟨hus, List.pairwise_singleton _ _, fun u hu w' hw' htorn => ?_⟩
        rw [List.mem_singleton.mp hw', ← Bool.not_eq_true]
        intro hdone
        obtain ⟨kept, -, hlist, hcompleted, -⟩ := h _ (List.prefix_refl _)
        have hlen := length_readEntries_lost hus ⟨u, hu, htorn⟩ hdone
        have hle := hcompleted.length_le
        rw [list_file] at hlist
        rw [hlist, List.length_map] at hlen
        rw [hlen, List.filter_append, List.length_append, List.filter_cons_of_pos hdone] at hle
        exact absurd hle (by rw [List.filter_nil, List.length_singleton]; omega)
  · exact fun h us hus => faithful_of_clean (h.sublist hus.sublist)

/-! ### A settlement that is lost -/

/-- A settlement. -/
def sampleEntry : SettlementEntry :=
  { ts := 1, nullifier := "12345", recipient := "GABC", amount := "-10", txHash := "tx1" }

/-- The write of a settlement is cut after one byte, and after the crash the next is appended. -/
def sampleRun : List Write :=
  [{ entry := sampleEntry, cut := some 1, cut_lt := by decide },
    { entry := sampleEntry, cut := none, cut_lt := by decide }]

/-- **A settlement behind a torn one is lost**: its append completed, and the log lists nothing. -/
theorem append_lost : list (file sampleRun) = [] ∧ ¬Faithful sampleRun := by
  have hlist : list (file sampleRun) = [] := List.eq_nil_of_length_eq_zero (by decide)
  refine ⟨hlist, ?_⟩
  rintro ⟨kept, -, hkept, hcompleted, -⟩
  rw [hlist] at hkept
  rw [List.map_eq_nil_iff.mp hkept.symm, List.sublist_nil] at hcompleted
  cases hcompleted

end Enclave.Facilitator.SettlementsLog

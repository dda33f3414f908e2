import Enclave.Prover.R1csFile

/-! # Section bounds in R1CS files

Does the parser read a section's fields from the section's bytes?  It skips what a section declares
beyond what was consumed, and looks nowhere at what was consumed beyond what a section declares.
`R1cs.respectsSections_iff` says for which accepted files no field lies outside its section: those
whose declared sizes cover what the counts make the parser consume (`SizesCover`). -/

namespace Enclave.Prover

open Bytes Reader

variable {target : Target} {data : List UInt8}

/-! ### What a read depends on -/

theorem advance_eq_ok {overflow : String} {n pos stop : ℕ} {bytes : List UInt8} :
    advance target overflow n data pos = .ok (bytes, stop) ↔
      pos + n ≤ target.usizeMax ∧ pos + n ≤ data.length ∧ bytes = (data.drop pos).take n ∧
        stop = pos + n := by
  unfold advance
  split_ifs with h₁ h₂
  · exact ⟨fun h => (nomatch h), fun h => absurd h.1 (by omega)⟩
  · exact ⟨fun h => (nomatch h), fun h => absurd h.2.1 (by omega)⟩
  · rw [Except.ok.injEq, Prod.mk.injEq]
    exact ⟨fun ⟨hb, hs⟩ => ⟨by omega, by omega, hb.symm, hs.symm⟩,
      fun ⟨_, _, hb, hs⟩ => ⟨hb.symm, hs.symm⟩⟩

theorem local_advance (overflow : String) (n : ℕ) :
    Local target.usizeMax (advance target overflow n) := by
  intro data pos stop bytes _ _ h
  obtain ⟨-, hle, rfl, rfl⟩ := advance_eq_ok.mp h
  refine ⟨Nat.le_add_right _ _, hle, ?_⟩
  rw [Nat.add_sub_cancel_left]
  have hlength : ((data.drop pos).take n).length = n := by
    rw [List.length_take, List.length_drop]
    omega
  have hreads := reads_advance target overflow ((data.drop pos).take n)
  rwa [hlength] at hreads

theorem local_readU32Le : Local target.usizeMax (readU32Le target) :=
  (local_advance _ 4).bind fun _ => Local.pure _

theorem local_readU64Le : Local target.usizeMax (readU64Le target) :=
  (local_advance _ 8).bind fun _ => Local.pure _

theorem local_skip (n : ℕ) : Local target.usizeMax (skip target n) :=
  (local_advance _ n).bind fun _ => Local.pure _

/-- **The header** is read off the bytes between the cursor's two positions. -/
theorem local_parseHeader : Local target.usizeMax (parseHeader target) := by
  refine local_readU32Le.bind fun fieldSize => ?_
  split_ifs
  · exact Local.throw _
  · exact (local_skip _).bind fun _ => local_readU32Le.bind fun _ => local_readU32Le.bind fun _ =>
      local_readU32Le.bind fun _ => local_readU32Le.bind fun _ => local_readU64Le.bind fun _ =>
      local_readU32Le.bind fun _ => Local.pure _

theorem local_parseLinearCombination (fieldSize : UInt32) :
    Local target.usizeMax (parseLinearCombination target fieldSize) :=
  local_readU32Le.bind fun n => Local.readMany
    (local_readU32Le.bind fun _ => (local_advance _ _).bind fun _ => Local.pure _) n.toNat

/-- **The constraints** too. -/
theorem local_parseConstraints (header : R1csHeader) :
    Local target.usizeMax (parseConstraints target header) :=
  Local.readMany ((local_parseLinearCombination _).bind fun _ =>
    (local_parseLinearCombination _).bind fun _ =>
      (local_parseLinearCombination _).bind fun _ => Local.pure _) _

/-! ### Where a read stops -/

/-- The number in the `n` bytes at a position. -/
def numberAt (data : List UInt8) (pos n : ℕ) : ℕ := leValue ((data.drop pos).take n)

theorem numberAt_lt (data : List UInt8) (pos n : ℕ) : numberAt data pos n < 256 ^ n :=
  lt_of_lt_of_le (leValue_lt _) (Nat.pow_le_pow_right (by decide) (List.length_take_le _ _))

theorem readU32Le_ok {pos stop : ℕ} {x : UInt32} (h : readU32Le target data pos = .ok (x, stop)) :
    x.toNat = numberAt data pos 4 ∧ stop = pos + 4 := by
  obtain ⟨bytes, mid, hread, hx⟩ := bind_eq_ok.mp h
  obtain ⟨-, -, rfl, rfl⟩ := advance_eq_ok.mp hread
  obtain ⟨rfl, rfl⟩ := Prod.mk.inj (Except.ok.inj hx)
  exact ⟨toNat_ofNat_of_lt (numberAt_lt data pos 4), rfl⟩

theorem readU64Le_ok {pos stop : ℕ} {x : UInt64} (h : readU64Le target data pos = .ok (x, stop)) :
    x.toNat = numberAt data pos 8 ∧ pos + 8 ≤ data.length ∧ stop = pos + 8 := by
  obtain ⟨bytes, mid, hread, hx⟩ := bind_eq_ok.mp h
  obtain ⟨-, hle, rfl, rfl⟩ := advance_eq_ok.mp hread
  obtain ⟨rfl, rfl⟩ := Prod.mk.inj (Except.ok.inj hx)
  refine ⟨?_, hle, rfl⟩
  rw [UInt64.toNat_ofNat']
  exact Nat.mod_eq_of_lt (numberAt_lt data pos 8)

theorem skip_ok {n pos stop : ℕ} {u : Unit} (h : skip target n data pos = .ok (u, stop)) :
    stop = pos + n := by
  obtain ⟨bytes, mid, hread, hu⟩ := bind_eq_ok.mp h
  obtain ⟨-, -, -, rfl⟩ := advance_eq_ok.mp hread
  exact (Prod.mk.inj (Except.ok.inj hu)).2.symm

theorem parseHeader_ok {pos stop : ℕ} {header : R1csHeader}
    (h : parseHeader target data pos = .ok (header, stop)) :
    header.fieldSize = 32 ∧ header.numConstraints.toNat = numberAt data (pos + 60) 4 ∧
      stop = pos + 64 := by
  obtain ⟨fieldSize, p₁, h₁, h⟩ := bind_eq_ok.mp h
  obtain ⟨-, rfl⟩ := readU32Le_ok h₁
  split_ifs at h with hsize
  · cases h
  · obtain rfl := not_not.mp hsize
    obtain ⟨_, p₂, h₂, h⟩ := bind_eq_ok.mp h
    obtain ⟨_, p₃, h₃, h⟩ := bind_eq_ok.mp h
    obtain ⟨_, p₄, h₄, h⟩ := bind_eq_ok.mp h
    obtain ⟨_, p₅, h₅, h⟩ := bind_eq_ok.mp h
    obtain ⟨_, p₆, h₆, h⟩ := bind_eq_ok.mp h
    obtain ⟨_, p₇, h₇, h⟩ := bind_eq_ok.mp h
    obtain ⟨numConstraints, p₈, h₈, h⟩ := bind_eq_ok.mp h
    obtain rfl := skip_ok h₂
    obtain ⟨-, rfl⟩ := readU32Le_ok h₃
    obtain ⟨-, rfl⟩ := readU32Le_ok h₄
    obtain ⟨-, rfl⟩ := readU32Le_ok h₅
    obtain ⟨-, rfl⟩ := readU32Le_ok h₆
    obtain ⟨-, -, rfl⟩ := readU64Le_ok h₇
    obtain ⟨hcount, rfl⟩ := readU32Le_ok h₈
    obtain ⟨rfl, rfl⟩ := Prod.mk.inj (Except.ok.inj h)
    exact ⟨rfl, hcount, rfl⟩

/-- The bytes of `n` linear combinations, by their counts of terms. -/
def combinationsLength : ℕ → List UInt8 → ℕ
  | 0, _ => 0
  | n + 1, bytes =>
      let length := 4 + 36 * leValue (bytes.take 4)
      length + combinationsLength n (bytes.drop length)

theorem combinationsLength_add (m n : ℕ) (bytes : List UInt8) :
    combinationsLength (m + n) bytes = combinationsLength m bytes +
      combinationsLength n (bytes.drop (combinationsLength m bytes)) := by
  induction m generalizing bytes with
  | zero => rw [Nat.zero_add, combinationsLength, Nat.zero_add, List.drop_zero]
  | succ m ih =>
      rw [Nat.succ_add, combinationsLength, combinationsLength, ih, List.drop_drop,
        ← Nat.add_assoc]

theorem parseTerm_ok {pos stop : ℕ} {t : Term}
    (h : parseTerm target 32 data pos = .ok (t, stop)) : stop = pos + 36 := by
  obtain ⟨wireId, p₁, hwire, h⟩ := bind_eq_ok.mp h
  obtain ⟨coeffBytes, p₂, hcoefficient, h⟩ := bind_eq_ok.mp h
  obtain ⟨-, rfl⟩ := readU32Le_ok hwire
  obtain ⟨-, -, -, rfl⟩ := advance_eq_ok.mp hcoefficient
  exact (Prod.mk.inj (Except.ok.inj h)).2.symm

theorem readTerms_ok {n pos stop : ℕ} {terms : List Term}
    (h : readMany (parseTerm target 32) n data pos = .ok (terms, stop)) : stop = pos + 36 * n := by
  induction n generalizing pos terms with
  | zero => exact (Prod.mk.inj (Except.ok.inj h)).2.symm
  | succ n ih =>
      obtain ⟨t, p₁, hterm, h⟩ := bind_eq_ok.mp h
      obtain ⟨rest, p₂, hrest, h⟩ := bind_eq_ok.mp h
      obtain ⟨-, rfl⟩ := Prod.mk.inj (Except.ok.inj h)
      rw [ih hrest, parseTerm_ok hterm]
      omega

theorem parseLinearCombination_ok {pos stop : ℕ} {lc : LinearCombination}
    (h : parseLinearCombination target 32 data pos = .ok (lc, stop)) :
    stop = pos + combinationsLength 1 (data.drop pos) := by
  obtain ⟨numTerms, p₁, hcount, h⟩ := bind_eq_ok.mp h
  obtain ⟨hnumber, rfl⟩ := readU32Le_ok hcount
  rw [readTerms_ok h, hnumber, numberAt, combinationsLength, combinationsLength]
  omega

theorem parseConstraint_ok {pos stop : ℕ} {c : Constraint}
    (h : parseConstraint target 32 data pos = .ok (c, stop)) :
    stop = pos + combinationsLength 3 (data.drop pos) := by
  obtain ⟨a, p₁, ha, h⟩ := bind_eq_ok.mp h
  obtain ⟨b, p₂, hb, h⟩ := bind_eq_ok.mp h
  obtain ⟨c', p₃, hc, h⟩ := bind_eq_ok.mp h
  obtain ⟨-, rfl⟩ := Prod.mk.inj (Except.ok.inj h)
  rw [parseLinearCombination_ok hc, parseLinearCombination_ok hb, parseLinearCombination_ok ha,
    combinationsLength_add 1 2, combinationsLength_add 1 1, List.drop_drop, List.drop_drop]
  simp only [Nat.add_assoc]

/-- **The constraints** take what their counts of terms say. -/
theorem parseConstraints_ok {pos stop : ℕ} {header : R1csHeader} {constraints : List Constraint}
    (hsize : header.fieldSize = 32)
    (h : parseConstraints target header data pos = .ok (constraints, stop)) :
    stop = pos + combinationsLength (3 * header.numConstraints.toNat) (data.drop pos) := by
  rw [parseConstraints, hsize] at h
  generalize header.numConstraints.toNat = n at h ⊢
  induction n generalizing pos constraints with
  | zero => exact (Prod.mk.inj (Except.ok.inj h)).2.symm
  | succ n ih =>
      obtain ⟨c, p₁, hc, h⟩ := bind_eq_ok.mp h
      obtain ⟨rest, p₂, hrest, h⟩ := bind_eq_ok.mp h
      obtain ⟨-, rfl⟩ := Prod.mk.inj (Except.ok.inj h)
      rw [ih hrest, parseConstraint_ok hc, Nat.mul_succ, Nat.add_comm (3 * n),
        combinationsLength_add 3, List.drop_drop, Nat.add_assoc]

/-! ### The first pass -/

theorem sectionHead_ok {pos stop size : ℕ} {t : UInt32}
    (h : sectionHead target data pos = .ok ((t, size), stop)) :
    t.toNat = numberAt data pos 4 ∧ size = numberAt data (pos + 4) 8 ∧ pos + 12 ≤ data.length ∧
      stop = pos + 12 := by
  obtain ⟨t', p₁, ht, h⟩ := bind_eq_ok.mp h
  obtain ⟨size', p₂, hs, h⟩ := bind_eq_ok.mp h
  obtain ⟨htype, rfl⟩ := readU32Le_ok ht
  obtain ⟨hsize, hle, rfl⟩ := readU64Le_ok hs
  split_ifs at h
  · cases h
  · obtain ⟨hpair, rfl⟩ := Prod.mk.inj (Except.ok.inj h)
    obtain ⟨rfl, rfl⟩ := Prod.mk.inj hpair
    exact ⟨htype, hsize, by omega, rfl⟩

theorem skipRemaining_ok {start size pos stop : ℕ} {u : Unit}
    (h : skipRemaining target start size data pos = .ok (u, stop)) :
    stop = max pos (start + size) := by
  obtain ⟨_, _, hget, h⟩ := bind_eq_ok.mp h
  obtain ⟨rfl, rfl⟩ := Prod.mk.inj (Except.ok.inj hget)
  obtain ⟨consumed, p₁, hconsumed, h⟩ := bind_eq_ok.mp h
  unfold checkedSub at hconsumed
  split_ifs at hconsumed with hle
  · obtain ⟨rfl, rfl⟩ := Prod.mk.inj (Except.ok.inj hconsumed)
    split_ifs at h with hlt
    · obtain ⟨remaining, p₂, hremaining, h⟩ := bind_eq_ok.mp h
      rw [checkedSub, if_pos (by omega)] at hremaining
      obtain ⟨rfl, rfl⟩ := Prod.mk.inj (Except.ok.inj hremaining)
      rw [skip_ok h]
      omega
    · have hstop := (Prod.mk.inj (Except.ok.inj h)).2
      omega
  · cases hconsumed

/-- **What a round does**, by the section's type. -/
theorem readSection_cases {pos stop : ℕ} {found found' : Found}
    (h : readSection target found data pos = .ok (found', stop)) :
    ∃ t size, sectionHead target data pos = .ok ((t, size), pos + 12) ∧
      ((t = 1 ∧ stop = pos + 12 + max 64 size ∧ ∃ header,
          parseHeader target data (pos + 12) = .ok (header, pos + 12 + 64) ∧
          found' = { found with header := some header }) ∨
        (t = 2 ∧ stop = pos + 12 + size ∧
          found' = { found with constraintsData := some (pos + 12, size) }) ∨
        (t ≠ 1 ∧ t ≠ 2 ∧ stop = pos + 12 + size ∧ found' = found)) := by
  obtain ⟨⟨t, size⟩, p₁, hhead, h⟩ := bind_eq_ok.mp h
  obtain ⟨_, _, hget, h⟩ := bind_eq_ok.mp h
  obtain ⟨found₁, p₂, hbody, h⟩ := bind_eq_ok.mp h
  obtain ⟨_, p₃, hskip, hlast⟩ := bind_eq_ok.mp h
  obtain ⟨-, -, -, rfl⟩ := sectionHead_ok hhead
  obtain ⟨rfl, rfl⟩ := Prod.mk.inj (Except.ok.inj hget)
  obtain ⟨rfl, rfl⟩ := Prod.mk.inj (Except.ok.inj hlast)
  have hstop := skipRemaining_ok hskip
  refine ⟨t, size, hhead, ?_⟩
  unfold sectionBody at hbody
  split_ifs at hbody with h₁ h₂
  · obtain ⟨header, p₄, hheader, hbody⟩ := bind_eq_ok.mp hbody
    obtain ⟨-, -, rfl⟩ := parseHeader_ok hheader
    obtain ⟨rfl, rfl⟩ := Prod.mk.inj (Except.ok.inj hbody)
    exact .inl ⟨h₁, by omega, header, hheader, rfl⟩
  · obtain ⟨_, p₄, hskipped, hbody⟩ := bind_eq_ok.mp hbody
    obtain rfl := skip_ok hskipped
    obtain ⟨rfl, rfl⟩ := Prod.mk.inj (Except.ok.inj hbody)
    exact .inr (.inl ⟨h₂, by omega, rfl⟩)
  · obtain ⟨_, p₄, hskipped, hbody⟩ := bind_eq_ok.mp hbody
    obtain rfl := skip_ok hskipped
    obtain ⟨rfl, rfl⟩ := Prod.mk.inj (Except.ok.inj hbody)
    exact .inr (.inr ⟨h₁, h₂, by omega, rfl⟩)

/-! ### Declared sections -/

/-- A section as the file declares it. -/
structure DeclaredSection where
  sectionType : ℕ
  start : ℕ
  size : ℕ

/-- `n` sections from a position on, each behind the declared end of the one before. -/
def declaredSections (data : List UInt8) : ℕ → ℕ → List DeclaredSection
  | 0, _ => []
  | n + 1, pos =>
      let size := numberAt data (pos + 4) 8
      { sectionType := numberAt data pos 4, start := pos + 12, size } ::
        declaredSections data n (pos + 12 + size)

/-- The last section of a type. -/
def lastOf (t : ℕ) : List DeclaredSection → Option DeclaredSection
  | [] => none
  | s :: rest => (lastOf t rest).or (if s.sectionType = t then some s else none)

/-- What `m` decodes at `start` it decodes from the section's `size` bytes alone. -/
def DecodedInside {α : Type} (m : Cursor α) (data : List UInt8) (start size : ℕ) : Prop :=
  ∃ a stop stop', m data start = .ok (a, stop) ∧
    m ((data.drop start).take size) 0 = .ok (a, stop')

/-- In `n` rounds of the first pass, headers are decoded inside their sections. -/
def HeadersInside (target : Target) (data : List UInt8) (found : Found) (pos n : ℕ) : Prop :=
  ∀ i < n, ∀ found' pos' start size, readSections target i found data pos = .ok (found', pos') →
    sectionHead target data pos' = .ok ((1, size), start) →
    DecodedInside (parseHeader target) data start size

/-- The header sections declare what a header takes. -/
def HeaderSizesCover (sections : List DeclaredSection) : Prop :=
  ∀ s ∈ sections, s.sectionType = 1 → 64 ≤ s.size

theorem headerSizesCover_cons {s : DeclaredSection} {sections : List DeclaredSection} :
    HeaderSizesCover (s :: sections) ↔
      (s.sectionType = 1 → 64 ≤ s.size) ∧ HeaderSizesCover sections := List.forall_mem_cons

theorem decodedInside_iff {α : Type} {m : Cursor α} (hm : Local target.usizeMax m)
    (hcap : data.length ≤ target.usizeMax) {start stop size : ℕ} {a : α}
    (hstart : start ≤ data.length) (h : m data start = .ok (a, stop)) :
    DecodedInside m data start size ↔ stop ≤ start + size := by
  rw [← hm.alone_iff hcap hstart h]
  constructor
  · rintro ⟨a', stop₁, stop₂, h₁, h₂⟩
    obtain ⟨rfl, -⟩ := Prod.mk.inj (Except.ok.inj (h.symm.trans h₁))
    exact ⟨stop₂, h₂⟩
  · rintro ⟨stop', halone⟩
    exact ⟨a, stop, stop', h, halone⟩

theorem headersInside_succ {found found' : Found} {pos stop n size : ℕ} {t : UInt32}
    (hstep : readSection target found data pos = .ok (found', stop))
    (hhead : sectionHead target data pos = .ok ((t, size), pos + 12)) :
    HeadersInside target data found pos (n + 1) ↔
      (t = 1 → DecodedInside (parseHeader target) data (pos + 12) size) ∧
        HeadersInside target data found' stop n := by
  have hrest (i : ℕ) : readSections target (i + 1) found data pos =
      readSections target i found' data stop := bind_of_ok hstep
  constructor
  · intro h
    refine ⟨?_, fun i hi found'' pos' start size' hround => ?_⟩
    · rintro rfl
      exact h 0 n.succ_pos found pos _ _ rfl hhead
    · exact h (i + 1) (Nat.succ_lt_succ hi) found'' pos' start size' ((hrest i).trans hround)
  · rintro ⟨hfirst, h⟩ (_ | i) hi found'' pos' start size' hround hhead'
    · obtain ⟨rfl, rfl⟩ := Prod.mk.inj (Except.ok.inj hround)
      obtain ⟨hpair, rfl⟩ := Prod.mk.inj (Except.ok.inj (hhead.symm.trans hhead'))
      obtain ⟨rfl, rfl⟩ := Prod.mk.inj hpair
      exact hfirst rfl
    · exact h i (Nat.lt_of_succ_lt_succ hi) found'' pos' start size' ((hrest i).symm.trans hround)
        hhead'

/-- **Headers are decoded inside their sections** exactly if the declared sizes cover them. -/
theorem headersInside_iff (hcap : data.length ≤ target.usizeMax) {n pos stop : ℕ}
    {found found' : Found} (h : readSections target n found data pos = .ok (found', stop)) :
    HeadersInside target data found pos n ↔ HeaderSizesCover (declaredSections data n pos) := by
  induction n generalizing pos found with
  | zero => exact ⟨fun _ s hs => absurd hs List.not_mem_nil, fun _ i hi => absurd hi i.not_lt_zero⟩
  | succ n ih =>
      obtain ⟨found₁, pos₁, hstep, hrest⟩ := bind_eq_ok.mp h
      obtain ⟨t, size, hhead, hcases⟩ := readSection_cases hstep
      obtain ⟨htype, hsize, hle, -⟩ := sectionHead_ok hhead
      rw [headersInside_succ hstep hhead, ih hrest, declaredSections, headerSizesCover_cons]
      simp only [← htype, ← hsize]
      obtain ⟨rfl, rfl, header, hheader, -⟩ | ⟨rfl, rfl, -⟩ | ⟨h₁, -, rfl, -⟩ := hcases
      · rw [decodedInside_iff local_parseHeader hcap hle hheader, Nat.add_le_add_iff_left]
        by_cases hcover : 64 ≤ size
        · rw [max_eq_right hcover]
          exact and_congr_left' ⟨fun _ _ => hcover, fun _ _ => hcover⟩
        · exact ⟨fun h => absurd (h.1 rfl) hcover, fun h => absurd (h.1 rfl) hcover⟩
      · exact and_congr_left' ⟨fun _ h => absurd h (by decide), fun _ h => absurd h (by decide)⟩
      · exact and_congr_left' ⟨fun _ h => absurd (UInt32.toNat_inj.mp h) h₁, fun _ h => absurd h h₁⟩

/-- Where the constraints start there is the input, or its end. -/
theorem start_le_of_readSections {n pos stop : ℕ} {found found' : Found}
    (hfound : ∀ p ∈ found.constraintsData, p.1 ≤ data.length)
    (h : readSections target n found data pos = .ok (found', stop)) :
    ∀ p ∈ found'.constraintsData, p.1 ≤ data.length := by
  induction n generalizing pos found with
  | zero =>
      obtain ⟨rfl, -⟩ := Prod.mk.inj (Except.ok.inj h)
      exact hfound
  | succ n ih =>
      obtain ⟨found₁, pos₁, hstep, hrest⟩ := bind_eq_ok.mp h
      obtain ⟨t, size, hhead, hcases⟩ := readSection_cases hstep
      obtain ⟨-, -, hle, -⟩ := sectionHead_ok hhead
      refine ih ?_ hrest
      obtain ⟨-, -, header, -, rfl⟩ | ⟨-, -, rfl⟩ | ⟨-, -, -, rfl⟩ := hcases
      · exact hfound
      · rintro _ ⟨⟩
        exact hle
      · exact hfound

/-- What the first pass has found is what the last declared sections hold. -/
theorem readSections_found {n pos stop : ℕ} {found found' : Found}
    (hcover : HeaderSizesCover (declaredSections data n pos))
    (h : readSections target n found data pos = .ok (found', stop)) :
    found'.constraintsData = ((lastOf 2 (declaredSections data n pos)).map
        fun s => (s.start, s.size)).or found.constraintsData ∧
      ∀ header, found'.header = some header →
        (∃ s stop', lastOf 1 (declaredSections data n pos) = some s ∧
          parseHeader target data s.start = .ok (header, stop')) ∨
        (lastOf 1 (declaredSections data n pos) = none ∧ found.header = some header) := by
  induction n generalizing pos found with
  | zero =>
      obtain ⟨rfl, -⟩ := Prod.mk.inj (Except.ok.inj h)
      exact ⟨rfl, fun header hheader => .inr ⟨rfl, hheader⟩⟩
  | succ n ih =>
      obtain ⟨found₁, pos₁, hstep, hrest⟩ := bind_eq_ok.mp h
      obtain ⟨t, size, hhead, hcases⟩ := readSection_cases hstep
      obtain ⟨htype, hsize, -, -⟩ := sectionHead_ok hhead
      rw [declaredSections, headerSizesCover_cons] at hcover
      simp only [← htype, ← hsize] at hcover
      obtain ⟨hfirst, hcover⟩ := hcover
      -- no section takes more than it declares, so the next one is where it is declared
      have hpos : pos₁ = pos + 12 + size := by
        obtain ⟨rfl, rfl, -⟩ | ⟨-, rfl, -⟩ | ⟨-, -, rfl, -⟩ := hcases
        · rw [max_eq_right (hfirst rfl)]
        · rfl
        · rfl
      subst hpos
      obtain ⟨hdata, hheaders⟩ := ih hcover hrest
      simp only [declaredSections, lastOf, ← htype, ← hsize]
      obtain ⟨rfl, -, header, hheader, rfl⟩ | ⟨rfl, -, rfl⟩ | ⟨h₁, h₂, -, rfl⟩ := hcases
      · refine ⟨by simpa using hdata, fun header' hheader' => ?_⟩
        obtain ⟨s, stop', hlast, hparse⟩ | ⟨hlast, hsome⟩ := hheaders header' hheader'
        · exact .inl ⟨s, stop', by rw [hlast, Option.some_or], hparse⟩
        · obtain rfl := Option.some.inj hsome
          exact .inl ⟨_, _, by rw [hlast, Option.none_or]; rfl, hheader⟩
      · refine ⟨?_, fun header' hheader' => by simpa using hheaders header' hheader'⟩
        rw [hdata]
        cases lastOf 2 (declaredSections data n (pos + 12 + size)) <;> rfl
      · have h₁' : ¬ t.toNat = 1 := fun h => h₁ (UInt32.toNat_inj.mp h)
        have h₂' : ¬ t.toNat = 2 := fun h => h₂ (UInt32.toNat_inj.mp h)
        rw [if_neg h₁', if_neg h₂', Option.or_none, Option.or_none]
        exact ⟨hdata, hheaders⟩

/-! ### Accepted files -/

/-- Nothing found yet. -/
def Found.none : Found := { header := .none, constraintsData := .none }

/-- No field that parsing decodes lies outside its section. -/
structure RespectsSections (target : Target) (data : List UInt8) : Prop where
  headers : HeadersInside target data Found.none 12 (numberAt data 8 4)
  constraints : ∀ found pos header start size,
    readSections target (numberAt data 8 4) Found.none data 12 = .ok (found, pos) →
    found.header = some header → found.constraintsData = some (start, size) →
    DecodedInside (parseConstraints target header) data start size

/-- The declared sizes cover a header in each header section, and in the last constraints section
as many terms as its counts say, for the number of constraints in the last header. -/
structure SizesCover (data : List UInt8) : Prop where
  headers : HeaderSizesCover (declaredSections data (numberAt data 8 4) 12)
  constraints : ∀ h ∈ lastOf 1 (declaredSections data (numberAt data 8 4) 12),
    ∀ c ∈ lastOf 2 (declaredSections data (numberAt data 8 4) 12),
    combinationsLength (3 * numberAt data (h.start + 60) 4) (data.drop c.start) ≤ c.size

theorem readPreamble_ok {stop : ℕ} {numSections : UInt32}
    (h : readPreamble target data 0 = .ok (numSections, stop)) :
    numSections.toNat = numberAt data 8 4 ∧ stop = 12 := by
  obtain ⟨magic, p₁, hmagic, h⟩ := bind_eq_ok.mp h
  obtain ⟨-, -, -, rfl⟩ := advance_eq_ok.mp hmagic
  split_ifs at h
  · cases h
  · obtain ⟨version, p₂, hversion, h⟩ := bind_eq_ok.mp h
    obtain ⟨-, rfl⟩ := readU32Le_ok hversion
    split_ifs at h
    · cases h
    · exact readU32Le_ok h

theorem R1cs.parse_ok {r : R1cs} (h : R1cs.parse target data = .ok r) :
    ∃ found pos header, readSections target (numberAt data 8 4) Found.none data 12 =
        .ok (found, pos) ∧ found.header = some header ∧
      ∀ start size, found.constraintsData = some (start, size) → ∃ constraints stop,
        parseConstraints target header data start = .ok (constraints, stop) := by
  unfold R1cs.parse at h
  cases hread : R1cs.read target data 0 with
  | error e =>
      rw [hread] at h
      cases h
  | ok p =>
      obtain ⟨numSections, p₁, hpreamble, hread⟩ := bind_eq_ok.mp hread
      obtain ⟨found, pos, hsections, hlast⟩ := bind_eq_ok.mp hread
      obtain ⟨hnumber, rfl⟩ := readPreamble_ok hpreamble
      rw [hnumber] at hsections
      cases hheader : found.header with
      | none =>
          rw [hheader] at hlast
          cases hlast
      | some header =>
          rw [hheader] at hlast
          obtain ⟨constraints, p₂, hconstraints, -⟩ := bind_eq_ok.mp hlast
          refine ⟨found, pos, header, hsections, hheader, fun start size hdata => ?_⟩
          rw [hdata] at hconstraints
          exact ⟨constraints, p₂, hconstraints⟩

/-- **An accepted file's fields lie in their sections** exactly if the declared sizes cover what
the counts make the parser consume. -/
theorem R1cs.respectsSections_iff {r : R1cs} (hcap : data.length ≤ target.usizeMax)
    (h : R1cs.parse target data = .ok r) : RespectsSections target data ↔ SizesCover data := by
  obtain ⟨found, pos, header, hsections, hheader, hconstraints⟩ := R1cs.parse_ok h
  have hheaders := headersInside_iff hcap hsections
  have hstart : ∀ p ∈ found.constraintsData, p.1 ≤ data.length :=
    start_le_of_readSections (fun p hp => absurd hp (Option.not_mem_none p)) hsections
  have hiff (hcover : HeaderSizesCover (declaredSections data (numberAt data 8 4) 12)) :
      (∀ start size, found.constraintsData = some (start, size) →
        DecodedInside (parseConstraints target header) data start size) ↔
      ∀ h ∈ lastOf 1 (declaredSections data (numberAt data 8 4) 12),
        ∀ c ∈ lastOf 2 (declaredSections data (numberAt data 8 4) 12),
        combinationsLength (3 * numberAt data (h.start + 60) 4) (data.drop c.start) ≤ c.size := by
    obtain ⟨hdata, hlast⟩ := readSections_found hcover hsections
    obtain ⟨s, stop', hlast, hparse⟩ | ⟨-, hnone⟩ := hlast header hheader
    · obtain ⟨hsize, hcount, -⟩ := parseHeader_ok hparse
      simp only [hlast, Option.mem_def, Option.some.injEq, forall_eq', ← hcount]
      cases hc : lastOf 2 (declaredSections data (numberAt data 8 4) 12) with
      | none =>
          rw [hc] at hdata
          simp [hdata, Found.none]
      | some c =>
          rw [hc] at hdata
          obtain ⟨constraints, stop, hparse⟩ := hconstraints c.start c.size hdata
          have hinside : DecodedInside (parseConstraints target header) data c.start c.size ↔ _ :=
            decodedInside_iff (local_parseConstraints header) hcap (hstart _ hdata) hparse
          rw [parseConstraints_ok hsize hparse, Nat.add_le_add_iff_left] at hinside
          simp only [Option.some.injEq, forall_eq', ← hinside, hdata, Option.map_some,
            Option.some_or, Prod.mk.injEq, and_imp]
          simp
    · cases hnone
  constructor
  · intro hrespects
    have hcover := hheaders.mp hrespects.headers
    exact ⟨hcover, (hiff hcover).mp fun start size hdata =>
      hrespects.constraints found pos header start size hsections hheader hdata⟩
  · intro hcovers
    refine ⟨hheaders.mpr hcovers.headers, fun found' pos' header' start size hround hheader' => ?_⟩
    obtain ⟨rfl, -⟩ := Prod.mk.inj (Except.ok.inj (hsections.symm.trans hround))
    obtain rfl := Option.some.inj (hheader.symm.trans hheader')
    exact (hiff hcovers.headers).mpr hcovers.constraints start size

/-- A system of one wire without constraints. -/
def oneWire : R1cs where
  numWires := 1
  numPubOut := 0
  numPubIn := 0
  numPrvIn := 0
  numPublic := 0
  constraints := []

/-- Its file, with a header section that declares no bytes in front of the header's fields. -/
def overrunFile : List UInt8 :=
  encodePreamble 1 ++ (encodeU32 1 ++ (encodeU64 0 ++ encodeHeader oneWire (leBytes 32 1) 1))

theorem parse_overrunFile : R1cs.parse .wasm32 overrunFile = .ok oneWire := by
  decide +kernel

theorem R1cs.respectsSections_iff_overrunFile :
    RespectsSections .wasm32 overrunFile ↔ SizesCover overrunFile :=
  R1cs.respectsSections_iff (by decide +kernel) parse_overrunFile

/-- The header is read off behind the end of its section. -/
theorem overrunFile_accepted : ¬ ∀ r, R1cs.parse .wasm32 overrunFile = .ok r →
    RespectsSections .wasm32 overrunFile := by
  intro h
  have hround : readSections .wasm32 0 Found.none overrunFile 12 = .ok (Found.none, 12) := rfl
  have hhead : sectionHead .wasm32 overrunFile 12 = .ok ((1, 0), 24) := rfl
  obtain ⟨header, stop, stop', -, halone⟩ := (h oneWire parse_overrunFile).headers 0
    (by decide +kernel) Found.none 12 24 0 hround hhead
  rw [List.take_zero] at halone
  cases halone

end Enclave.Prover

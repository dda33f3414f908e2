import Enclave.Prover.R1cs

/-! # R1CS files round trip

`encodeFile` writes a system in the binary format: the preamble, then sections of a type, a size and
a payload, the header and the constraints among wire maps and unknown sections.  Each encoder is
matched with the reader of its field (`Reader.Reads`); the first pass, which also records positions,
is followed section by section (`Collected`). -/

namespace Enclave.Prover

open Bytes Reader

/-! ### Encoding -/

/-- Four bytes, little endian. -/
def encodeU32 (x : UInt32) : List UInt8 := leBytes 4 x.toNat

/-- Eight bytes, little endian. -/
def encodeU64 (x : UInt64) : List UInt8 := leBytes 8 x.toNat

/-- A wire and its coefficient. -/
def encodeTerm (t : Term) : List UInt8 := encodeU32 t.wireId ++ scalarToBytes t.coefficient

/-- The number of terms, then the terms. -/
def encodeCombination (lc : LinearCombination) : List UInt8 :=
  encodeU32 (UInt32.ofNat lc.length) ++ lc.flatMap encodeTerm

/-- The three combinations. -/
def encodeConstraint (c : Constraint) : List UInt8 :=
  encodeCombination c.a ++ (encodeCombination c.b ++ encodeCombination c.c)

/-- The header's fields, around the prime and the number of labels. -/
def encodeHeader (r : R1cs) (prime : List UInt8) (numLabels : UInt64) : List UInt8 :=
  encodeU32 32 ++ (prime ++ (encodeU32 r.numWires ++ (encodeU32 r.numPubOut ++
    (encodeU32 r.numPubIn ++ (encodeU32 r.numPrvIn ++ (encodeU64 numLabels ++
      encodeU32 (UInt32.ofNat r.constraints.length)))))))

/-- A section of a file: what it has besides the system. -/
inductive FileSection where
  | header (prime : {bytes : List UInt8 // bytes.length = 32}) (numLabels : UInt64)
  | constraints
  | other (sectionType : {t : UInt32 // t ≠ 1 ∧ t ≠ 2}) (payload : List UInt8)

def FileSection.sectionType : FileSection → UInt32
  | .header _ _ => 1
  | .constraints => 2
  | .other sectionType _ => sectionType

def FileSection.payload (r : R1cs) : FileSection → List UInt8
  | .header prime numLabels => encodeHeader r prime numLabels
  | .constraints => r.constraints.flatMap encodeConstraint
  | .other _ payload => payload

def FileSection.head (r : R1cs) (s : FileSection) : List UInt8 :=
  encodeU32 s.sectionType ++ encodeU64 (UInt64.ofNat (s.payload r).length)

def FileSection.encode (r : R1cs) (s : FileSection) : List UInt8 := s.head r ++ s.payload r

/-- The magic number, the version, the number of sections. -/
def encodePreamble (numSections : ℕ) : List UInt8 :=
  [0x72, 0x31, 0x63, 0x73] ++ (encodeU32 1 ++ encodeU32 (UInt32.ofNat numSections))

def encodeFile (r : R1cs) (sections : List FileSection) : List UInt8 :=
  encodePreamble sections.length ++ sections.flatMap (·.encode r)

/-- The counts in a file have 32 bits. -/
structure R1cs.CountsFit (r : R1cs) : Prop where
  constraints : r.constraints.length < 2 ^ 32
  terms : ∀ c ∈ r.constraints,
    c.a.length < 2 ^ 32 ∧ c.b.length < 2 ^ 32 ∧ c.c.length < 2 ^ 32

/-! ### Fields -/

variable (target : Target) {r : R1cs}

theorem length_encodeU32 (x : UInt32) : (encodeU32 x).length = 4 := length_leBytes 4 _

theorem length_encodeU64 (x : UInt64) : (encodeU64 x).length = 8 := length_leBytes 8 _

theorem ofNat_leValue_encodeU32 (x : UInt32) : UInt32.ofNat (leValue (encodeU32 x)) = x := by
  rw [encodeU32, leValue_leBytes x.toNat_lt, UInt32.ofNat_toNat]

theorem ofNat_leValue_encodeU64 (x : UInt64) : UInt64.ofNat (leValue (encodeU64 x)) = x := by
  rw [encodeU64, leValue_leBytes x.toNat_lt, UInt64.ofNat_toNat]

theorem reads_advance (overflow : String) (bytes : List UInt8) :
    Reads target.usizeMax (advance target overflow bytes.length) bytes bytes := by
  intro before after hcap
  rw [List.length_append, List.length_append] at hcap
  have hlength : ¬ (before ++ (bytes ++ after)).length < before.length + bytes.length := by
    rw [List.length_append, List.length_append]
    omega
  rw [advance, if_neg (by omega), if_neg hlength, List.drop_left, List.take_left]

theorem reads_readBytes {n : ℕ} {bytes : List UInt8} (h : bytes.length = n) :
    Reads target.usizeMax (readBytes target n) bytes bytes := by
  subst h
  exact reads_advance target _ bytes

theorem reads_skip {n : ℕ} {bytes : List UInt8} (h : bytes.length = n) :
    Reads target.usizeMax (skip target n) bytes () := by
  subst h
  exact (reads_advance target _ bytes).map fun _ => ()

theorem reads_readU32Le (x : UInt32) :
    Reads target.usizeMax (readU32Le target) (encodeU32 x) x := by
  have h := (reads_readBytes target (length_encodeU32 x)).map
    fun bytes => UInt32.ofNat (leValue bytes)
  rwa [ofNat_leValue_encodeU32] at h

theorem reads_readU64Le (x : UInt64) :
    Reads target.usizeMax (readU64Le target) (encodeU64 x) x := by
  have h := (reads_readBytes target (length_encodeU64 x)).map
    fun bytes => UInt64.ofNat (leValue bytes)
  rwa [ofNat_leValue_encodeU64] at h

/-! ### Constraints -/

theorem reads_parseTerm (t : Term) :
    Reads target.usizeMax (parseTerm target 32) (encodeTerm t) t := by
  have hcoefficient := (reads_readBytes target (n := (32 : UInt32).toNat)
    (length_scalarToBytes t.coefficient)).map fun bytes => Term.mk t.wireId (leValue bytes : F)
  rw [leValue_scalarToBytes, F.natCast_val] at hcoefficient
  exact (reads_readU32Le target t.wireId).bind hcoefficient

theorem toNat_ofNat_of_lt {n : ℕ} (h : n < 2 ^ 32) : (UInt32.ofNat n).toNat = n := by
  rw [UInt32.toNat_ofNat', Nat.mod_eq_of_lt h]

theorem reads_parseLinearCombination {lc : LinearCombination} (h : lc.length < 2 ^ 32) :
    Reads target.usizeMax (parseLinearCombination target 32) (encodeCombination lc) lc := by
  have hterms := Reads.readMany fun t (_ : t ∈ lc) => reads_parseTerm target t
  rw [← toNat_ofNat_of_lt h] at hterms
  exact (reads_readU32Le target _).bind hterms

theorem reads_parseConstraint {c : Constraint}
    (h : c.a.length < 2 ^ 32 ∧ c.b.length < 2 ^ 32 ∧ c.c.length < 2 ^ 32) :
    Reads target.usizeMax (parseConstraint target 32) (encodeConstraint c) c := by
  obtain ⟨ha, hb, hc⟩ := h
  have hlast := (reads_parseLinearCombination target hc).map (Constraint.mk c.a c.b)
  exact (reads_parseLinearCombination target ha).bind
    ((reads_parseLinearCombination target hb).bind hlast)

/-- The header that a file of `r` has. -/
def R1cs.toHeader (r : R1cs) : R1csHeader where
  fieldSize := 32
  numWires := r.numWires
  numPubOut := r.numPubOut
  numPubIn := r.numPubIn
  numPrvIn := r.numPrvIn
  numConstraints := UInt32.ofNat r.constraints.length

theorem reads_parseConstraints (h : r.CountsFit) :
    Reads target.usizeMax (parseConstraints target r.toHeader)
      (r.constraints.flatMap encodeConstraint) r.constraints := by
  have hmany := Reads.readMany fun c hc => reads_parseConstraint target (h.terms c hc)
  rwa [← toNat_ofNat_of_lt h.constraints] at hmany

theorem reads_parseHeader {prime : List UInt8} (hprime : prime.length = 32) (numLabels : UInt64) :
    Reads target.usizeMax (parseHeader target) (encodeHeader r prime numLabels) r.toHeader := by
  have hlast := (reads_readU32Le target (UInt32.ofNat r.constraints.length)).map
    (R1csHeader.mk 32 r.numWires r.numPubOut r.numPubIn r.numPrvIn)
  refine (reads_readU32Le target 32).bind ?_
  rw [if_neg (not_not.mpr rfl)]
  exact (reads_skip target hprime).bind ((reads_readU32Le target _).bind
    ((reads_readU32Le target _).bind ((reads_readU32Le target _).bind
      ((reads_readU32Le target _).bind ((reads_readU64Le target numLabels).bind hlast)))))

/-! ### Sections -/

/-- What the first pass has found behind a section whose payload starts at `start`. -/
def FileSection.found (r : R1cs) (start : ℕ) (found : Found) : FileSection → Found
  | .header _ _ => { found with header := some r.toHeader }
  | .constraints => { found with
      constraintsData := some (start, (r.constraints.flatMap encodeConstraint).length) }
  | .other _ _ => found

variable {target}

theorem FileSection.length_head (s : FileSection) : (s.head r).length = 12 := by
  rw [head, List.length_append, length_encodeU32, length_encodeU64]

theorem FileSection.length_encode (s : FileSection) :
    (s.encode r).length = 12 + (s.payload r).length := by
  rw [encode, List.length_append, length_head]

theorem reads_sectionHead {s : FileSection} (h : (s.payload r).length ≤ target.usizeMax) :
    Reads target.usizeMax (sectionHead target) (s.head r)
      (s.sectionType, (s.payload r).length) := by
  have hsize : (UInt64.ofNat (s.payload r).length).toNat = (s.payload r).length := by
    rw [UInt64.toNat_ofNat', Nat.mod_eq_of_lt (lt_of_le_of_lt h target.usizeMax_lt)]
  refine (reads_readU32Le target s.sectionType).bind ?_
  rw [← List.append_nil (encodeU64 _)]
  refine (reads_readU64Le target _).bind ?_
  rw [hsize, if_neg (by omega)]
  exact Reads.pure _

theorem reads_sectionBody (target : Target) (r : R1cs) (s : FileSection) (found : Found) (start : ℕ) :
    Reads target.usizeMax (sectionBody target found s.sectionType start (s.payload r).length)
      (s.payload r) (s.found r start found) := by
  cases s with
  | header prime numLabels =>
      exact (reads_parseHeader target prime.2 numLabels).map
        fun header => { found with header := some header }
  | constraints =>
      exact (reads_skip target rfl).map fun _ => { found with
        constraintsData := some (start, (r.constraints.flatMap encodeConstraint).length) }
  | other sectionType payload =>
      rw [sectionBody, FileSection.sectionType, if_neg sectionType.2.1, if_neg sectionType.2.2]
      exact (reads_skip target rfl).map fun _ => found

theorem skipRemaining_of_consumed {data : List UInt8} (start size : ℕ) :
    skipRemaining target start size data (start + size) = .ok ((), start + size) := by
  have hconsumed : checkedSub (start + size) start "Invalid cursor position" =
      (pure size : Cursor ℕ) := by
    rw [checkedSub, if_pos (Nat.le_add_right _ _), Nat.add_sub_cancel_left]
  refine (bind_of_ok (a := start + size) rfl).trans ?_
  rw [hconsumed]
  refine (bind_of_ok (pure_apply _ _)).trans ?_
  rw [if_neg (lt_irrefl size)]
  rfl

/-- **A section** is consumed, and what it has is found. -/
theorem readSection_encode (s : FileSection) (found : Found) (before after : List UInt8)
    (hcap : (before ++ (s.encode r ++ after)).length ≤ target.usizeMax) :
    readSection target found (before ++ (s.encode r ++ after)) before.length =
      .ok (s.found r (before.length + 12) found, before.length + (s.encode r).length) := by
  have hpayload : (s.payload r).length ≤ target.usizeMax := by
    rw [List.length_append, List.length_append, s.length_encode] at hcap
    omega
  rw [FileSection.encode, List.append_assoc] at hcap ⊢
  have hhead := reads_sectionHead hpayload before (s.payload r ++ after) hcap
  rw [s.length_head] at hhead
  have hrest := reads_sectionBody target r s found (before.length + 12) (before ++ s.head r) after
  have hlength : (before ++ s.head r).length = before.length + 12 := by
    rw [List.length_append, s.length_head]
  rw [hlength, List.append_assoc] at hrest
  refine (bind_of_ok hhead).trans ?_
  refine (bind_of_ok (a := before.length + 12) rfl).trans ?_
  refine (bind_of_ok (hrest hcap)).trans ?_
  refine (bind_of_ok (skipRemaining_of_consumed _ _)).trans ?_
  rw [← FileSection.encode, s.length_encode, Nat.add_assoc]
  rfl

/-- What the first pass has found behind the sections `done` of `data`. -/
structure Collected (r : R1cs) (data : List UInt8) (done : List FileSection) (found : Found) :
    Prop where
  header : ∀ prime numLabels, .header prime numLabels ∈ done → found.header = some r.toHeader
  constraints : .constraints ∈ done → ∃ (before after : List UInt8) (size : ℕ),
    found.constraintsData = some (before.length, size) ∧
    data = before ++ (r.constraints.flatMap encodeConstraint ++ after)

theorem Collected.nil {data : List UInt8} (found : Found) : Collected r data [] found :=
  ⟨fun _ _ h => absurd h List.not_mem_nil, fun h => absurd h List.not_mem_nil⟩

theorem Collected.concat {data before after : List UInt8} {done : List FileSection} {found : Found}
    {s : FileSection} (h : Collected r data done found)
    (hdata : data = before ++ (s.encode r ++ after)) :
    Collected r data (done ++ [s]) (s.found r (before.length + 12) found) := by
  cases s with
  | header prime numLabels =>
      exact ⟨fun _ _ _ => rfl, fun hmem => h.constraints ((List.mem_append.mp hmem).resolve_right
        fun hs => FileSection.noConfusion (List.mem_singleton.mp hs))⟩
  | constraints =>
      refine ⟨fun prime numLabels hmem => h.header prime numLabels
        ((List.mem_append.mp hmem).resolve_right
          fun hs => FileSection.noConfusion (List.mem_singleton.mp hs)), fun _ => ?_⟩
      refine ⟨before ++ FileSection.constraints.head r, after,
        (r.constraints.flatMap encodeConstraint).length, ?_, ?_⟩
      · rw [List.length_append, FileSection.length_head]
        rfl
      · rw [hdata, FileSection.encode, List.append_assoc, List.append_assoc]
        rfl
  | other sectionType payload =>
      exact ⟨fun prime numLabels hmem => h.header prime numLabels
          ((List.mem_append.mp hmem).resolve_right
            fun hs => FileSection.noConfusion (List.mem_singleton.mp hs)),
        fun hmem => h.constraints ((List.mem_append.mp hmem).resolve_right
          fun hs => FileSection.noConfusion (List.mem_singleton.mp hs))⟩

/-- **The first pass** finds what the sections have. -/
theorem readSections_encode {data : List UInt8} (hcap : data.length ≤ target.usizeMax)
    (sections done : List FileSection) (found : Found) (before after : List UInt8)
    (hdata : data = before ++ (sections.flatMap (·.encode r) ++ after))
    (h : Collected r data done found) :
    ∃ found' stop, readSections target sections.length found data before.length =
      .ok (found', stop) ∧ Collected r data (done ++ sections) found' := by
  induction sections generalizing done found before with
  | nil =>
      refine ⟨found, before.length, rfl, ?_⟩
      rwa [List.append_nil]
  | cons s rest ih =>
      rw [List.flatMap_cons, List.append_assoc] at hdata
      have hstep : readSection target found data before.length =
          .ok (s.found r (before.length + 12) found, before.length + (s.encode r).length) := by
        rw [hdata] at hcap ⊢
        exact readSection_encode s found before _ hcap
      have hdata' : data = (before ++ s.encode r) ++ (rest.flatMap (·.encode r) ++ after) := by
        rw [hdata, List.append_assoc]
      obtain ⟨found', stop, hrest, hcollected⟩ := ih (done ++ [s]) _ _ hdata' (h.concat hdata)
      refine ⟨found', stop, ?_, ?_⟩
      · rw [← List.length_append] at hstep
        exact (bind_of_ok hstep).trans hrest
      · rwa [List.append_assoc, List.singleton_append] at hcollected

/-! ### Files -/

theorem length_encodePreamble (n : ℕ) : (encodePreamble n).length = 12 := rfl

theorem reads_readPreamble (target : Target) (numSections : ℕ) :
    Reads target.usizeMax (readPreamble target) (encodePreamble numSections)
      (UInt32.ofNat numSections) := by
  refine (reads_readBytes target rfl).bind ?_
  rw [if_neg (not_not.mpr rfl)]
  refine (reads_readU32Le target 1).bind ?_
  rw [if_neg (not_not.mpr rfl)]
  exact reads_readU32Le target _

/-- **Parsing undoes encoding.**  A file of a system, with its header and its constraints among any
other sections, parses to that system. -/
theorem R1cs.parse_encodeFile {sections : List FileSection} (hcounts : r.CountsFit)
    (hpublic : r.numPublic.toNat = r.numPubOut.toNat + r.numPubIn.toNat)
    (hheader : ∃ prime numLabels, .header prime numLabels ∈ sections)
    (hconstraints : .constraints ∈ sections) (hsections : sections.length < 2 ^ 32)
    (hcap : (encodeFile r sections).length ≤ target.usizeMax) :
    R1cs.parse target (encodeFile r sections) = .ok r := by
  obtain ⟨prime, numLabels, hmem⟩ := hheader
  have hpreamble : readPreamble target (encodeFile r sections) 0 =
      .ok (UInt32.ofNat sections.length, 12) :=
    reads_readPreamble target sections.length [] (sections.flatMap (FileSection.encode r)) hcap
  have hdata : encodeFile r sections =
      encodePreamble sections.length ++ (sections.flatMap (·.encode r) ++ []) := by
    rw [List.append_nil, encodeFile]
  obtain ⟨found, stop, hfound, hcollected⟩ :=
    readSections_encode hcap sections [] { header := none, constraintsData := none } _ _ hdata
      (Collected.nil _)
  rw [length_encodePreamble] at hfound
  obtain ⟨before, after, size, hstart, hplace⟩ := hcollected.constraints hconstraints
  have hread : readConstraints target r.toHeader found.constraintsData (encodeFile r sections)
      stop = .ok (r.constraints,
        before.length + (r.constraints.flatMap encodeConstraint).length) := by
    rw [hstart]
    rw [hplace] at hcap ⊢
    have hset : (set before.length : Cursor PUnit)
        (before ++ (r.constraints.flatMap encodeConstraint ++ after)) stop =
          .ok (PUnit.unit, before.length) := rfl
    exact (bind_of_ok hset).trans
      (reads_parseConstraints target hcounts before after hcap)
  have hsum : r.toHeader.numPubOut + r.toHeader.numPubIn = r.numPublic := by
    apply UInt32.toNat_inj.mp
    have hlt := r.numPublic.toNat_lt
    rw [UInt32.toNat_add, hpublic]
    exact Nat.mod_eq_of_lt (hpublic ▸ hlt)
  have hsystem : R1cs.ofHeader r.toHeader r.constraints = pure r := by
    have hfits : r.toHeader.numPubOut.toNat + r.toHeader.numPubIn.toNat < 2 ^ 32 :=
      lt_of_eq_of_lt hpublic.symm r.numPublic.toNat_lt
    rw [R1cs.ofHeader, if_pos hfits, hsum]
    rfl
  have hsecond : (readConstraints target r.toHeader found.constraintsData >>=
      R1cs.ofHeader r.toHeader) (encodeFile r sections) stop =
      .ok (r, before.length + (r.constraints.flatMap encodeConstraint).length) := by
    rw [bind_of_ok hread, hsystem, pure_apply]
  rw [R1cs.parse, R1cs.read, bind_of_ok hpreamble, toNat_ofNat_of_lt hsections, bind_of_ok hfound,
    hcollected.header prime numLabels hmem]
  exact congrArg (Except.map Prod.fst) hsecond

/-- One constraint, with a wire twice in its first combination. -/
def sampleR1cs : R1cs where
  numWires := 4
  numPubOut := 1
  numPubIn := 1
  numPrvIn := 1
  numPublic := 2
  constraints := [{ a := [⟨1, 1⟩, ⟨1, -1⟩], b := [⟨2, 1⟩], c := [] }]

/-- A wire map, the constraints, an unknown section, the header. -/
def sampleSections : List FileSection :=
  [.other ⟨3, by decide⟩ [0, 0, 0, 0, 0, 0, 0, 0], .constraints, .other ⟨9, by decide⟩ [7],
    .header ⟨leBytes 32 bn256Modulus, rfl⟩ 4]

theorem R1cs.parse_encodeFile_sample :
    R1cs.parse .wasm32 (encodeFile sampleR1cs sampleSections) = .ok sampleR1cs := by
  refine R1cs.parse_encodeFile ⟨by decide, by decide⟩ rfl ⟨⟨leBytes 32 bn256Modulus, rfl⟩, 4, ?_⟩ ?_
    (by decide) (by decide +kernel)
  · simp [sampleSections]
  · simp [sampleSections]

end Enclave.Prover

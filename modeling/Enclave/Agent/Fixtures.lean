import Enclave.Agent.PublicInputs
import Enclave.Facilitator.UntypedSettle

/-! # Captured payments

The fixture index of `fetch-interceptor.ts`: capture mode writes an entry after a payment that was
proved and settled, and a later run decodes the entry of its URL instead of proving.  A file is what
`JSON.parse` makes of it, `none` if there is no file or no JSON in it.  An entry is decoded to what
the payment posted (`replay_of_entry`); whether it stays in the file is another matter
(`Captures`). -/

namespace Enclave.Agent.Fixture

open Facilitator
open Json (Value)
open JsValue (prop)

/-! ### Reading an entry -/

/-- `fromHex`. -/
def fromHex (hex : String) : List UInt8 := Hex.fromHex (Js.strip0x (Js.codeUnits hex))

/-- `ExtData`; nothing looks at the recipient. -/
structure ExtData where
  recipient : JsValue
  ext_amount : ℤ
  encrypted_output0 : List UInt8
  encrypted_output1 : List UInt8

/-- `ShieldedProofPublicInputs` of an entry; the legacy shape is taken as it is. -/
structure PublicInputs where
  root : JsValue
  publicAmount : JsValue
  extDataHash : JsValue
  inputNullifiers : JsValue × JsValue
  outputCommitment0 : JsValue
  outputCommitment1 : JsValue
  aspMembershipRoot : JsValue
  aspNonMembershipRoot : JsValue

variable (num : Numerals)

/-- Bytes as an array or in hexadecimal. -/
def outputBytes : JsValue → Except String (List UInt8)
  | some (.array items) => .ok (items.map num.toUint8)
  | some (.string s) => .ok (fromHex s)
  | _ => .error "TypeError"

/-- `normalizeFixtureExtData`. -/
def normalizeFixtureExtData (raw : JsValue) : Except String ExtData := do
  let amount ← match JsValue.bigInt num (prop raw "ext_amount") with
    | some amount => .ok amount
    | none => .error "ext_amount"
  let output0 ← outputBytes num (prop raw "encrypted_output0")
  let output1 ← outputBytes num (prop raw "encrypted_output1")
  return ⟨prop raw "recipient", amount, output0, output1⟩

/-- `decomposeFixtureProofAny`. -/
def decomposeFixtureProofAny (rawProof : JsValue) : Except String Pool.Groth16Proof :=
  match prop rawProof "a", prop rawProof "b", prop rawProof "c", prop rawProof "proof" with
  | some (.string a), some (.string b), some (.string c), _ =>
      .ok ⟨fromHex a, fromHex b, fromHex c⟩
  | some (.array a), some (.array b), some (.array c), _ =>
      .ok ⟨a.map num.toUint8, b.map num.toUint8, c.map num.toUint8⟩
  | _, _, _, some (.array proof) =>
      let bytes := proof.map num.toUint8
      .ok ⟨bytes.take 64, (bytes.drop 64).take 128, (bytes.drop 192).take 64⟩
  | _, _, _, _ => .error ("fixture proof has unknown shape: expected \x7ba,b,c\x7d hex strings, " ++
      "byte arrays, or \x7bproof: number[]\x7d")

/-- `v ?? d`. -/
def orDefault (v : JsValue) (d : String) : JsValue :=
  match v with
  | none => some (.string d)
  | some .null => some (.string d)
  | some v => some v

/-- `v?.[i]`. -/
def item (v : JsValue) (i : ℕ) : JsValue :=
  match v with
  | some (.array items) => items[i]?
  | some (.string s) => ((Js.codeUnits s)[i]?).map fun c => .string (String.singleton c)
  | some (.object fields) => (Value.object fields).get i.repr
  | _ => none

/-- Public inputs of the prover as those of an entry. -/
def PublicInputs.ofStrings (pi : ShieldedProofPublicInputs) : PublicInputs where
  root := some (.string pi.root)
  publicAmount := some (.string pi.publicAmount)
  extDataHash := some (.string pi.extDataHash)
  inputNullifiers := (some (.string pi.inputNullifiers.1), some (.string pi.inputNullifiers.2))
  outputCommitment0 := some (.string pi.outputCommitment0)
  outputCommitment1 := some (.string pi.outputCommitment1)
  aspMembershipRoot := some (.string pi.aspMembershipRoot)
  aspNonMembershipRoot := some (.string pi.aspNonMembershipRoot)

/-- The legacy shape of public inputs. -/
def legacyPublicInputs (p : JsValue) : PublicInputs :=
  let nulls := prop p "inputNullifiers"
  { root := prop p "root"
    publicAmount := orDefault (prop p "publicAmount") "0"
    extDataHash := orDefault (prop p "extDataHash") (String.ofList (List.replicate 64 '0'))
    inputNullifiers := (orDefault (item nulls 0) "0", orDefault (item nulls 1) "0")
    outputCommitment0 := orDefault (prop p "outputCommitment0") "0"
    outputCommitment1 := orDefault (prop p "outputCommitment1") "0"
    aspMembershipRoot := orDefault (prop p "aspMembershipRoot") "0"
    aspNonMembershipRoot := orDefault (prop p "aspNonMembershipRoot") "0" }

/-- `extractFixturePublicInputs`. -/
def extractFixturePublicInputs (entry : JsValue) : Except String PublicInputs :=
  match prop entry "publicInputs" with
  | some (.string publicInputs) =>
      let hex := Js.strip0x (Js.codeUnits publicInputs)
      if hex.length ≠ 704 then
        .error s!"fixture publicInputs hex must be 704 chars (352 bytes), got {hex.length}"
      else (decomposePublicInputs (Hex.fromHex hex)).map PublicInputs.ofStrings
  | _ =>
      match prop (prop entry "proof") "root" with
      | some (.string _) => .ok (legacyPublicInputs (prop entry "proof"))
      | _ => .error ("fixture entry missing both .publicInputs hex string and legacy " ++
          ".proof.\x7broot,...\x7d fields")

/-! ### What is posted -/

/-- `proofWire` as it is posted. -/
structure ProofWire where
  a : String
  b : String
  c : String
  publicInputs : PublicInputs

/-- `extDataWire` as it is posted. -/
structure ExtDataWire where
  recipient : JsValue
  ext_amount : String
  encrypted_output0 : String
  encrypted_output1 : String

/-- `proofWire`. -/
def proofWire (proof : Pool.Groth16Proof) (pi : PublicInputs) : ProofWire where
  a := String.ofList (Hex.toHex proof.a)
  b := String.ofList (Hex.toHex proof.b)
  c := String.ofList (Hex.toHex proof.c)
  publicInputs := pi

/-- `extDataWire`. -/
def extDataWire (ext : ExtData) : ExtDataWire where
  recipient := ext.recipient
  ext_amount := Js.bigIntToString ext.ext_amount
  encrypted_output0 := String.ofList (Hex.toHex ext.encrypted_output0)
  encrypted_output1 := String.ofList (Hex.toHex ext.encrypted_output1)

/-- What a proof of the wire format is posted as. -/
def ProofWire.ofStrings (proof : ShieldedProofWireFormat) : ProofWire where
  a := proof.a
  b := proof.b
  c := proof.c
  publicInputs :=
    { root := some (.string proof.root)
      publicAmount := some (.string proof.publicAmount)
      extDataHash := proof.extDataHash.map .string
      inputNullifiers := ((proof.inputNullifiers.bind fun ns => ns[0]?).map .string,
        (proof.inputNullifiers.bind fun ns => ns[1]?).map .string)
      outputCommitment0 := some (.string proof.outputCommitment0)
      outputCommitment1 := some (.string proof.outputCommitment1)
      aspMembershipRoot := some (.string proof.aspMembershipRoot)
      aspNonMembershipRoot := some (.string proof.aspNonMembershipRoot) }

/-- What external data of the wire format is posted as. -/
def ExtDataWire.ofStrings (ext : ExtDataWireFormat) : ExtDataWire :=
  ⟨some (.string ext.recipient), ext.ext_amount, ext.encrypted_output0, ext.encrypted_output1⟩

/-- `fixtureIndex?.[url]`, decoded and made into what is posted; `none` if there is no entry. -/
def replay (file : JsValue) (url : String) : Option (Except String (ProofWire × ExtDataWire)) :=
  let entry := prop file url
  if JsValue.falsy num entry then none
  else some do
    let proof ← decomposeFixtureProofAny num (prop entry "proof")
    let publicInputs ← extractFixturePublicInputs entry
    let extData ← normalizeFixtureExtData num (prop entry "extData")
    return (proofWire proof publicInputs, extDataWire extData)

/-! ### Capture -/

/-- A payment that was proved and settled. -/
structure Payment where
  url : String
  /-- What was fetched is an absolute URL. -/
  url_ne : url ≠ "__proto__"
  proof : Pool.Groth16Proof
  publicInputBytes : List UInt8
  publicInputs : ShieldedProofPublicInputs
  /-- Without them nothing is posted. -/
  decomposed : decomposePublicInputs publicInputBytes = .ok publicInputs
  extData : ExtDataLike
  commitment : String
  nullifier : String

/-- What it posted. -/
def Payment.posted (p : Payment) : ProofWire × ExtDataWire :=
  (.ofStrings (Agent.proofWire p.proof p.publicInputs),
    .ofStrings (Facilitator.extDataWire p.extData))

/-- A text in hexadecimal, as JSON. -/
def hexValue (bytes : List UInt8) : Value := .string (String.ofList (Hex.toHex bytes))

/-- `capturedEntry`. -/
def capturedEntry (p : Payment) (generatedAt : String) : Value :=
  .object [
    ("proof", .object [("a", hexValue p.proof.a), ("b", hexValue p.proof.b),
      ("c", hexValue p.proof.c)]),
    ("publicInputs", hexValue p.publicInputBytes),
    ("extData", .object [("recipient", .string p.extData.recipient),
      ("ext_amount", .string (Js.bigIntToString p.extData.ext_amount)),
      ("encrypted_output0", hexValue p.extData.encrypted_output0),
      ("encrypted_output1", hexValue p.extData.encrypted_output1)]),
    ("note", .object [("commitment", .string p.commitment), ("nullifier", .string p.nullifier)]),
    ("_meta", .object [("generatedAt", .string generatedAt), ("capturedByPlan", .string "05-03")])]

/-- `currentIndex` with the entry, as JSON has it; `none` if the entry cannot be set on what was
read.  An array loses the property when it is written. -/
def currentIndex (read : JsValue) (url : String) (entry : Value) : Option Value :=
  match read with
  | none => some (.object [(url, entry)])
  | some (.object fields) => some (.object (JsValue.setProperty fields url entry))
  | some (.array items) => some (.array items)
  | some _ => none

/-! ### Reading what was written -/

variable {num}

theorem fromHex_toHex (bytes : List UInt8) :
    fromHex (String.ofList (Hex.toHex bytes)) = bytes := by
  have hdigits : ∀ c ∈ Hex.toHex bytes, Hex.isHexDigit c = true :=
    fun c hc => Hex.isHexDigit_of_mem_toHex hc
  rw [fromHex, Hex.codeUnits_of_isHexDigit hdigits, Hex.strip0x_of_isHexDigit hdigits,
    Hex.fromHex_toHex]

theorem outputBytes_hexValue (bytes : List UInt8) :
    outputBytes num (some (hexValue bytes)) = .ok bytes := by
  rw [hexValue, outputBytes, fromHex_toHex]

variable (p : Payment) (generatedAt : String)

theorem decompose_capturedEntry :
    decomposeFixtureProofAny num (prop (some (capturedEntry p generatedAt)) "proof") =
      .ok p.proof := by
  have hproof : prop (some (capturedEntry p generatedAt)) "proof" =
      some (.object [("a", hexValue p.proof.a), ("b", hexValue p.proof.b),
        ("c", hexValue p.proof.c)]) := rfl
  have hvalues : ∀ a b c : Value, prop (some (.object [("a", a), ("b", b), ("c", c)])) "a" = some a ∧
      prop (some (.object [("a", a), ("b", b), ("c", c)])) "b" = some b ∧
      prop (some (.object [("a", a), ("b", b), ("c", c)])) "c" = some c :=
    fun a b c => ⟨rfl, rfl, rfl⟩
  obtain ⟨ha, hb, hc⟩ := hvalues (hexValue p.proof.a) (hexValue p.proof.b) (hexValue p.proof.c)
  rw [hproof, decomposeFixtureProofAny, ha, hb, hc]
  simp only [hexValue, fromHex_toHex]

theorem extract_capturedEntry :
    extractFixturePublicInputs (some (capturedEntry p generatedAt)) =
      .ok (.ofStrings p.publicInputs) := by
  have hinputs : prop (some (capturedEntry p generatedAt)) "publicInputs" =
      some (hexValue p.publicInputBytes) := rfl
  have hdigits : ∀ c ∈ Hex.toHex p.publicInputBytes, Hex.isHexDigit c = true :=
    fun c hc => Hex.isHexDigit_of_mem_toHex hc
  have hlen : (Hex.toHex p.publicInputBytes).length = 704 := by
    rw [Hex.length_toHex, (decomposePublicInputs_ok p.decomposed).1]
    rfl
  rw [extractFixturePublicInputs, hinputs, hexValue]
  dsimp only
  rw [Hex.codeUnits_of_isHexDigit hdigits, Hex.strip0x_of_isHexDigit hdigits, hlen,
    if_neg (not_not.mpr rfl), Hex.fromHex_toHex, p.decomposed]
  rfl

theorem normalize_capturedEntry :
    normalizeFixtureExtData num (prop (some (capturedEntry p generatedAt)) "extData") =
      .ok ⟨some (.string p.extData.recipient), p.extData.ext_amount, p.extData.encrypted_output0,
        p.extData.encrypted_output1⟩ := by
  have hread : ∀ r a e f : Value,
      let ext := Value.object [("recipient", r), ("ext_amount", a), ("encrypted_output0", e),
        ("encrypted_output1", f)]
      prop (some ext) "recipient" = some r ∧ prop (some ext) "ext_amount" = some a ∧
        prop (some ext) "encrypted_output0" = some e ∧
        prop (some ext) "encrypted_output1" = some f :=
    fun r a e f => ⟨rfl, rfl, rfl, rfl⟩
  obtain ⟨hrecipient, hamount, houtput0, houtput1⟩ := hread (.string p.extData.recipient)
    (.string (Js.bigIntToString p.extData.ext_amount)) (hexValue p.extData.encrypted_output0)
    (hexValue p.extData.encrypted_output1)
  have hext : prop (some (capturedEntry p generatedAt)) "extData" =
      some (.object [("recipient", .string p.extData.recipient),
        ("ext_amount", .string (Js.bigIntToString p.extData.ext_amount)),
        ("encrypted_output0", hexValue p.extData.encrypted_output0),
        ("encrypted_output1", hexValue p.extData.encrypted_output1)]) := rfl
  rw [hext, normalizeFixtureExtData, hrecipient, hamount, houtput0, houtput1,
    JsValue.bigInt_string, Js.bigInt_bigIntToString, outputBytes_hexValue, outputBytes_hexValue]
  rfl

/-- **An entry is decoded to what the payment posted**. -/
theorem replay_of_entry {file : JsValue}
    (hentry : prop file p.url = some (capturedEntry p generatedAt)) :
    replay num file p.url = some (.ok p.posted) := by
  have hfalsy : JsValue.falsy num (some (capturedEntry p generatedAt)) = false := rfl
  unfold replay
  dsimp only
  rw [hentry, hfalsy, decompose_capturedEntry, extract_capturedEntry, normalize_capturedEntry]
  rfl

theorem rewritten_capturedEntry :
    JsValue.rewritten num (capturedEntry p generatedAt) = capturedEntry p generatedAt := by
  simp [capturedEntry, hexValue, JsValue.rewritten, JsValue.rewrittenFields]

/-! ### The index with an entry -/

/-- There is nothing to keep, or an object whose numbers are all finite. -/
def Mergeable (num : Numerals) (read : JsValue) : Prop :=
  read = none ∨ ∃ fields, read = some (.object fields) ∧
    JsValue.rewritten num (.object fields) = .object fields

/-- **The index with an entry**: the entry is set, the others stay, and it is written as it is. -/
theorem currentIndex_of_mergeable {read : JsValue} (h : Mergeable num read) : ∃ fields,
    currentIndex read p.url (capturedEntry p generatedAt) = some (.object fields) ∧
      JsValue.rewritten num (.object fields) = .object fields ∧
      prop (some (.object fields)) p.url = some (capturedEntry p generatedAt) ∧
      ∀ other, other ≠ p.url → prop (some (.object fields)) other = prop read other := by
  obtain rfl | ⟨fields, rfl, hfields⟩ := h
  · refine ⟨_, rfl, ?_, JsValue.get_setProperty [] p.url _,
      fun other hother => JsValue.get_setProperty_of_ne hother [] _⟩
    rw [JsValue.rewritten, JsValue.rewrittenFields, rewritten_capturedEntry,
      JsValue.rewrittenFields]
  · refine ⟨_, rfl, ?_, JsValue.get_setProperty fields p.url _,
      fun other hother => JsValue.get_setProperty_of_ne hother fields _⟩
    rw [JsValue.rewritten] at hfields ⊢
    rw [JsValue.rewrittenFields_setProperty, Value.object.inj hfields, rewritten_capturedEntry]

/-! ### A payment -/

def samplePayment : Payment where
  url := "https://example.org/data"
  url_ne := by decide
  proof := (samplePoolProof []).proof
  publicInputBytes := sampleBytes
  publicInputs := samplePublicInputs
  decomposed := decomposePublicInputs_sample
  extData := sampleExtData (-5)
  commitment := "7"
  nullifier := "8"

end Enclave.Agent.Fixture

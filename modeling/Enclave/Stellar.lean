import Enclave.Pool.Contract
import Enclave.Prover.Serialization
import Enclave.Lib.Hex

/-! # Soroban values in JavaScript

The values that the facilitator hands to `@stellar/stellar-sdk`, and what it takes from that
package: addresses from their text, integers of 256 bits, and Keccak256 of an XDR encoding.
`Sdk.Exact` is the documented part of the integer conversions: a value in range is encoded as it
is.  What becomes of one out of range is left open. -/

namespace Enclave.Stellar

open Pool (I256)

/-- `xdr.ScVal`; the keys of a map are symbols. -/
inductive ScVal where
  | symbol (s : String)
  | u32 (n : ℕ)
  | bytes (b : List UInt8)
  | u256 (n : U256)
  | i256 (n : I256)
  | address (a : Address)
  | vec (items : List ScVal)
  | map (entries : List (String × ScVal))

def ScVal.entries : ScVal → List (String × ScVal)
  | .map entries => entries
  | _ => []

/-- `get` by a field's name. -/
def ScVal.field (v : ScVal) (name : String) : Option ScVal :=
  (v.entries.find? fun e => e.1 = name).map Prod.snd

/-- What the packages and the platform provide; `none` is a thrown error. -/
structure Sdk where
  /-- `String.prototype.toLowerCase`. -/
  toLowerCase : String → String
  /-- `Address.fromString`. -/
  addressFromString : String → Option Address
  /-- `nativeToScVal(x, { type: "u256" })`. -/
  nativeU256 : ℤ → Option U256
  /-- `nativeToScVal(x, { type: "i256" })`. -/
  nativeI256 : ℤ → Option I256
  /-- `new XdrLargeInt("i256", x)`. -/
  xdrLargeI256 : ℤ → Option I256
  /-- `keccak_256` of `toXDR()`, as an integer. -/
  keccakXdr : ScVal → ℕ

/-- Integers in range are encoded as they are. -/
structure Sdk.Exact (sdk : Sdk) : Prop where
  nativeU256 : ∀ n : ℕ, n < 2 ^ 256 → sdk.nativeU256 n = some n
  nativeI256 : ∀ n : I256, sdk.nativeI256 n.val = some n
  xdrLargeI256 : ∀ n : I256, sdk.xdrLargeI256 n.val = some n

/-- The keys of a map come in strictly increasing order, as the host requires of a map value. -/
def SortedKeys (entries : List (String × ScVal)) : Prop :=
  (entries.map Prod.fst).Pairwise (· < ·)

end Enclave.Stellar

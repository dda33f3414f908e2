import Enclave.Stellar
import Enclave.Pool.Runs

/-! # Events of the pool over RPC

An event of a contract has its name, in snake case, and the fields that are marked as topics for
topics; its value is the map of its other fields.  `published` are the events of a history of the
chain as `getEvents` reports them. -/

namespace Enclave.Rpc

open Stellar Pool

/-- An event as `getEvents` reports it, with values of the type `V`. -/
structure EventOf (V : Type) where
  topics : List ScVal
  value : V
  ledger : ℕ
  txHash : Option String

abbrev RpcEvent := EventOf ScVal

def topics : Event → List ScVal
  | .newCommitment commitment _ _ => [.symbol "new_commitment_event", .u256 commitment]
  | .newNullifier nullifier => [.symbol "new_nullifier_event", .u256 nullifier]
  | .publicKey owner _ _ => [.symbol "public_key_event", .address owner]

def value : Event → ScVal
  | .newCommitment _ index encryptedOutput =>
      .map [("encrypted_output", .bytes encryptedOutput), ("index", .u32 index)]
  | .newNullifier _ => .map []
  | .publicKey _ encryptionKey noteKey =>
      .map [("encryption_key", .bytes encryptionKey), ("note_key", .bytes noteKey)]

/-- What happens on the chain, in its ledger and by its transaction. -/
structure Entry where
  ledger : ℕ
  txHash : String
  action : Action

/-- An event that an entry published. -/
def Entry.report (entry : Entry) (event : Event) : RpcEvent :=
  ⟨topics event, value event, entry.ledger, some entry.txHash⟩

/-- The events of the pool that one chain has more than another. -/
def newEvents (env env' : Env Chain) : List Event :=
  env'.store.pool.events.drop env.store.pool.events.length

variable (ext : Externals) (P : Poseidon2)

/-- The events of a history, oldest first. -/
def published : Env Chain → List Entry → List RpcEvent
  | _, [] => []
  | env, entry :: rest => (newEvents env (step ext P env entry.action)).map entry.report ++
      published (step ext P env entry.action) rest

variable {ext P}

theorem exists_of_mem_published {e : RpcEvent} {history : List Entry} {env : Env Chain}
    (h : e ∈ published ext P env history) :
    ∃ event, e.topics = topics event ∧ e.value = value event := by
  induction history generalizing env with
  | nil => cases h
  | cons entry rest ih =>
      rw [published] at h
      obtain hnew | hrest := List.mem_append.mp h
      · obtain ⟨event, -, rfl⟩ := List.mem_map.mp hnew
        exact ⟨event, rfl, rfl⟩
      · exact ih hrest

end Enclave.Rpc

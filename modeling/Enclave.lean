import Enclave.Lib.HashedTrie
import Enclave.Lib.MerkleTree
import Enclave.Poseidon2
import Enclave.Frontier
import Enclave.AspNonMembership.Contract
import Enclave.AspNonMembership.Storage
import Enclave.AspNonMembership.Operations
import Enclave.AspNonMembership.Steps
import Enclave.AspNonMembership.Runs
import Enclave.AspNonMembership.Refinement
import Enclave.AspNonMembership.StorageExactness
import Enclave.AspNonMembership.NonMembership
import Enclave.Circuits.Gadgets
import Enclave.Circuits.SmtVerifier
import Enclave.Circuits.MerkleCore
import Enclave.AspNonMembership.Exclusion
import Enclave.Prover.Serialization
import Enclave.Prover.SparseMerkle
import Enclave.Prover.SparseMerkleSimulation
import Enclave.AspMembership.Contract
import Enclave.AspMembership.Tree
import Enclave.Pool.MerkleTreeWithHistory
import Enclave.Pool.Tree
import Enclave.Prover.Merkle
import Enclave.Prover.MerkleComplete
import Enclave.MerkleAgreement
import Enclave.Pool.Contract
import Enclave.Pool.Transact
import Enclave.Circuits.PolicyTransaction
import Enclave.Pool.Runs
import Enclave.Lib.JsText
import Enclave.Lib.Hex
import Enclave.Lib.Json
import Enclave.Stellar
import Enclave.Facilitator.ReplayCache
import Enclave.Facilitator.Requests
import Enclave.Facilitator.PoolTransaction
import Enclave.Facilitator.SettleRoute
import Enclave.Facilitator.Claims
import Enclave.Facilitator.DoubleSettlement
import Enclave.Facilitator.Submission
import Enclave.Facilitator.VerifyRoute
import Enclave.Gate.Middleware
import Enclave.Gate.Access
import Enclave.Agent.InterceptingFetch
import Enclave.Agent.Retry
import Enclave.Facilitator.ContractMaps
import Enclave.Facilitator.Hydration
import Enclave.Pool.DoubleSpend
import Enclave.App.PoolStore
import Enclave.App.PoolEvents
import Enclave.Pool.History
import Enclave.App.SyncController
import Enclave.App.PoolHistory
import Enclave.App.Resync
import Enclave.App.Sessions
import Enclave.App.FetchEvents
import Enclave.Pool.Acceptance
import Enclave.App.Overflow
import Enclave.App.Bridge
import Enclave.App.EncryptedOutputs
import Enclave.App.Blindings
import Enclave.App.LeafIndices
import Enclave.App.PoolFrames
import Enclave.App.SpentNotes
import Enclave.Prover.Flattening
import Enclave.Lib.Reader
import Enclave.Prover.R1cs
import Enclave.Prover.R1csBounds
import Enclave.Prover.R1csCircuit
import Enclave.Prover.R1csReplay
import Enclave.App.OrgRegistry
import Enclave.App.PublicKeyStore
import Enclave.Dashboard
import Enclave.ExtDataHash
import Enclave.Lib.Ring
import Enclave.Pool.RootHistory
import Enclave.Prover.MerkleProofs
import Enclave.PublicAmount
import Enclave.Agent.Enrollment
import Enclave.Facilitator.Settlement
import Enclave.Agent.Captures
import Enclave.App.AspConsistency
import Enclave.App.BalancedInputs
import Enclave.App.ProvedFields
import Enclave.App.SyncStatus
import Enclave.App.SyncHalves
import Enclave.Facilitator.ClaimLeaks
import Enclave.Facilitator.HydrationEnds
import Enclave.Facilitator.SettlementsLog
import Enclave.Facilitator.WireReadings
import Enclave.Prover.FieldText
import Enclave.Prover.InsertResult
import Enclave.App.NotesImport
import Enclave.App.LostRequests
import Enclave.App.OrgLeafIndex
import Enclave.Agent.Proving
import Enclave.Agent.Payments
import Enclave.Agent.PaymentRuns
import Enclave.App.NoteDiscovery
import Enclave.App.BanListProofs
import Enclave.Pool.Solvency
import Enclave.Pool.Conservation
import Enclave.Pool.Ownership
import Enclave.ScalarField
import Enclave.Lib.Permutes
import Enclave.Poseidon2.Permutation
import Enclave.Poseidon2.Constants
import Enclave.Poseidon2.Bn256
import Enclave.Poseidon2.Template
import Enclave.Deployment
import Enclave.HonestSpend
import Enclave.Lib.Groth16
import Enclave.Groth16.Points
import Enclave.Groth16.Contract
import Enclave.Groth16.Agreement

import Spex.BigEndian
import Spex.BinaryFloat
import Spex.CborEncode
import Spex.CborValue
import Spex.Fallible
import Spex.KeySort
import Spex.CborFloat
import Spex.CborRead
import Spex.CborEquiv
import Spex.CborCanonical
import Spex.CborMapKeys
import Spex.FieldMap
import Spex.Types
import Spex.Binding
import Spex.Tabulated
import Spex.Validation
import Spex.EnvelopeDecode
import Spex.Chunking
import Spex.Hex
import Spex.Transport
import Spex.HashChain
import Spex.MlsGroup
import Spex.Transcript
import Spex.ThreadState
import Spex.ThreadCommits
import Spex.ThreadRuns
import Spex.ThreadPositions
import Spex.GroupInvariant
import Spex.GroupMessages
import Spex.Replication
import Spex.GroupReplicas
import Spex.Base64
import Spex.Codec
import Spex.SecretSeparation
import Spex.Requests
import Spex.ClientState
import Spex.RequestReplay
import Spex.Bridge
import Spex.Quota
import Spex.RateLimits
import Spex.InboxDelivery
import Spex.EnvelopeCodec
import Spex.MessageDelivery
import Spex.Reputation
import Spex.StoredRows
import Spex.Isolation
import Spex.Forgeries
import Spex.FailedPuts
import Spex.InboxScan
import Spex.CheckpointLog
import Spex.LogConsistency
import Spex.MerkleTree
import Spex.LogBinding
import Spex.SignedGrants
import Spex.EnvelopeWire
import Spex.ContactCards
import Spex.TypedDecode
import Spex.Batch
import Spex.Revocations
import Spex.InboxBatches
import Spex.MessageLedger
import Spex.PublishAcceptance
import Spex.PeerScores
import Spex.BanRestarts
import Spex.NodeStart
import Spex.PoisonedSnapshots
import Spex.ChunkFetch
import Spex.FetchLoop
import Spex.ArrivalOrder
import Spex.Ctap2Order
import Spex.InboxBudget
import Spex.Rotations
import Spex.ThreadSends
import Spex.Snapshots
import Spex.EpochGaps
import Spex.MlsExtensions
import Spex.AbuseExport
import Spex.RandomWalk
import Spex.WorkSteps
import Spex.LogImport
import Spex.ScoreArithmetic
import Spex.StateFile
import Spex.HalfPrecision
import Spex.Authenticity
import Spex.Impersonation
import Spex.QueryBudget
import Spex.NodeOperations
import Spex.NodeMetrics
import Spex.NodeDelivery
import Spex.RequestHandshake
import Spex.CommandLine
import Spex.CommandRuns
import Spex.CommandRecords
import Spex.ExternalCommitLogs

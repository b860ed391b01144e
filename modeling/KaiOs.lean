import KaiOs.Ai.Audit
import KaiOs.Ai.CacheCapacity
import KaiOs.Ai.CacheRot
import KaiOs.Ai.Ipc
import KaiOs.Ai.IpcRuns
import KaiOs.Ai.ModelPublishing
import KaiOs.Ai.ModelRegistry
import KaiOs.Ai.Proposal
import KaiOs.Ai.ProposalIds
import KaiOs.Ai.ProposalTrail
import KaiOs.Ai.SchemaGate
import KaiOs.Ai.VerifiedCache
import KaiOs.Cli.Commands
import KaiOs.Health.ConsensusView
import KaiOs.Health.Convergence
import KaiOs.Health.Gossip
import KaiOs.Health.GossipNetwork
import KaiOs.Health.Liveness
import KaiOs.Health.Thresholds
import KaiOs.Health.Watchdog
import KaiOs.Health.WatchdogRuns
import KaiOs.Integration.Boot
import KaiOs.Keyring.Boundary
import KaiOs.Keyring.Keyring
import KaiOs.Keyring.KeyringRuns
import KaiOs.Lib.Awaited
import KaiOs.Lib.Codec
import KaiOs.Lib.Decimal
import KaiOs.Lib.Fields
import KaiOs.Lib.Format
import KaiOs.Lib.Halving
import KaiOs.Lib.HashChain
import KaiOs.Lib.HashPath
import KaiOs.Lib.HashTree
import KaiOs.Lib.Latest
import KaiOs.Lib.Layers
import KaiOs.Lib.Lines
import KaiOs.Lib.Machine
import KaiOs.Lib.MarkerLog
import KaiOs.Lib.Picks
import KaiOs.Lib.Replicas
import KaiOs.Lib.Runs
import KaiOs.Lib.SealedChain
import KaiOs.Lib.Sha256
import KaiOs.Lib.Shelves
import KaiOs.Lib.Signature
import KaiOs.Lib.Traces
import KaiOs.Lib.Utf8
import KaiOs.Lib.Visits
import KaiOs.Lib.Windows
import KaiOs.Lib.WriteOnce
import KaiOs.Network.Auth
import KaiOs.Network.Authentication
import KaiOs.Network.Channel
import KaiOs.Network.Discovery
import KaiOs.Network.FrameLimits
import KaiOs.Network.Frames
import KaiOs.Network.Handshakes
import KaiOs.Network.Membership
import KaiOs.Network.Peer
import KaiOs.Network.Restarts
import KaiOs.Network.Session
import KaiOs.Network.SessionIntegrity
import KaiOs.Network.SignatureDomains
import KaiOs.Network.Transport
import KaiOs.Network.Upgrade
import KaiOs.Node.Audit
import KaiOs.Node.AuditLog
import KaiOs.Node.Boot
import KaiOs.Node.Config
import KaiOs.Node.Daemon
import KaiOs.Node.Driven
import KaiOs.Node.Lifecycle
import KaiOs.Node.RestartPolicy
import KaiOs.Node.Restore
import KaiOs.Node.Shutdown
import KaiOs.Node.Supervisor
import KaiOs.Pkg.Causes
import KaiOs.Pkg.LockText
import KaiOs.Pkg.Lockfile
import KaiOs.Pkg.Publishing
import KaiOs.Pkg.Registry
import KaiOs.Pkg.Requirements
import KaiOs.Pkg.Resolution
import KaiOs.Pkg.Stability
import KaiOs.Pkg.Version
import KaiOs.Pkg.VersionText
import KaiOs.Runtime.Accounting
import KaiOs.Runtime.Grants
import KaiOs.Runtime.Isolation
import KaiOs.Runtime.Resources
import KaiOs.Runtime.Sandbox
import KaiOs.Runtime.Scheduler
import KaiOs.State.Boundary
import KaiOs.State.CatchUp
import KaiOs.State.CrashRuns
import KaiOs.State.Merkle
import KaiOs.State.MerkleBinding
import KaiOs.State.MerkleProof
import KaiOs.State.MerkleShape
import KaiOs.State.Persistence
import KaiOs.State.Recovery
import KaiOs.State.Snapshot
import KaiOs.State.SnapshotFiles
import KaiOs.State.SnapshotId
import KaiOs.State.SnapshotJson
import KaiOs.State.Store
import KaiOs.State.Sync
import KaiOs.State.SyncAgreement
import KaiOs.State.SyncFork
import KaiOs.State.Wal
import KaiOs.State.WalBinding
import KaiOs.State.WalDurability
import KaiOs.State.WalJson
import KaiOs.State.WalReplay
import KaiOs.Syncd.Adoption
import KaiOs.Syncd.Atomicity
import KaiOs.Syncd.Cluster
import KaiOs.Syncd.Durable
import KaiOs.Syncd.Peer
import KaiOs.Syncd.Protocol
import KaiOs.Syncd.Snapshot
import KaiOs.Syncd.Source
import KaiOs.Syncd.SyncedRuns

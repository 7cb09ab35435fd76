import Catalyrst.Lib.Word
import Catalyrst.Lib.OrdMap
import Catalyrst.Lib.Machine
import Catalyrst.Lib.MaskedJoin
import Catalyrst.Lib.Rank
import Catalyrst.SceneState.Crdt.Wire
import Catalyrst.SceneState.Crdt.Engine
import Catalyrst.SceneState.Crdt.Replica
import Catalyrst.SceneState.Crdt.Frame
import Catalyrst.SceneState.Crdt.Convergence
import Catalyrst.SceneState.Crdt.Snapshot
import Catalyrst.SceneState.Crdt.CellCap
import Catalyrst.SceneState.Crdt.CapOrder
import Catalyrst.SceneState.Runtime.Authority
import Catalyrst.SceneState.Runtime.Relay
import Catalyrst.SceneState.Runtime.Isolation
import Catalyrst.SceneState.Runtime.Parenting
import Catalyrst.SceneState.Runtime.CloseRace
import Catalyrst.SceneState.Scene.Broadcast
import Catalyrst.SceneState.Scene.Teardown
import Catalyrst.SceneState.JsRuntime.SceneThread
import Catalyrst.SceneState.JsRuntime.Ranges
import Catalyrst.Lib.Presence
import Catalyrst.Lib.Bits
import Catalyrst.Pulse.Messages
import Catalyrst.Pulse.Batch
import Catalyrst.Pulse.Board
import Catalyrst.Pulse.Hardening
import Catalyrst.Pulse.Simulation
import Catalyrst.Pulse.Server
import Catalyrst.Pulse.Sessions
import Catalyrst.Pulse.Publishing
import Catalyrst.Pulse.Identity
import Catalyrst.Pulse.Views
import Catalyrst.Pulse.Join
import Catalyrst.Pulse.Rejected
import Catalyrst.Pulse.BatchAgreement
import Catalyrst.Lib.FloodFill
import Catalyrst.Archipelago.Cluster
import Catalyrst.Archipelago.Islands
import Catalyrst.Archipelago.History
import Catalyrst.Lib.Procs
import Catalyrst.Sync.Deployer
import Catalyrst.Sync.Drain
import Catalyrst.Sync.Cursor
import Catalyrst.Pulse.Replay
import Catalyrst.Lib.Ring
import Catalyrst.Pulse.Caches
import Catalyrst.Pulse.Sequences
import Catalyrst.Pulse.Transparent
import Catalyrst.Pulse.Lossless
import Catalyrst.Sync.Retry
import Catalyrst.Content.WritePaths
import Catalyrst.Snapshots.Division
import Catalyrst.Snapshots.Downloadable
import Catalyrst.Snapshots.Complete
import Catalyrst.Sync.Retirement
import Catalyrst.Credits.PaidOnce
import Catalyrst.Credits.Refunds
import Catalyrst.Credits.Realign
import Catalyrst.Credits.Intent
import Catalyrst.Credits.Stripe
import Catalyrst.Credits.Settled
import Catalyrst.Credits.Acknowledged
import Catalyrst.Social.OneCall
import Catalyrst.Social.Outsiders
import Catalyrst.Social.Friends
import Catalyrst.Social.Consent
import Catalyrst.Crypto.Verify
import Catalyrst.Crypto.Binding
import Catalyrst.Crypto.InFlight
import Catalyrst.Quests.Order
import Catalyrst.Quests.Processor
import Catalyrst.Hashing.HashV1
import Catalyrst.Fed.Unaltered
import Catalyrst.Social.MembershipAgrees
import Catalyrst.Places.Converge
import Catalyrst.SceneState.Runtime.Relayed
import Catalyrst.Pulse.BatchRoundTrip
import Catalyrst.Pulse.Story
import Catalyrst.Pulse.Discrete
import Catalyrst.Pulse.Audience
import Catalyrst.Pulse.Teleported
import Catalyrst.Lib.Buckets
import Catalyrst.Pulse.Interest
import Catalyrst.Pulse.Vicinity
import Catalyrst.Archipelago.Gossip
import Catalyrst.Archipelago.Geometry
import Catalyrst.Lib.Rules
import Catalyrst.Sync.SnapshotPass
import Catalyrst.Lib.Utf8
import Catalyrst.Lib.JsonValue
import Catalyrst.Sync.SnapshotList
import Catalyrst.Sync.Boundary
import Catalyrst.Crypto.Extraction
import Catalyrst.Lib.Merkle
import Catalyrst.Validator.Merkle
import Catalyrst.Validator.ThirdParty
import Catalyrst.Pulse.Framing
import Catalyrst.Lib.TokenBucket
import Catalyrst.Pulse.RateLimits
import Catalyrst.Worlds.Mirror
import Catalyrst.Worlds.Complete
import Catalyrst.Lib.JsonReader
import Catalyrst.Crypto.Recasing
import Catalyrst.Content.HistoryPages
import Catalyrst.Sync.Polls
import Catalyrst.Drpc.Transports
import Catalyrst.LandAuthz.Access
import Catalyrst.Worlds.Widening

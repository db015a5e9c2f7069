import Ego.EventSource.Durable
import Ego.EventSource.Progress
import Ego.EventSource.Relocation
import Ego.Testkit.DurableStore
import Ego.DurableState.Takeover
import Ego.Projection.ShardPages
import Ego.Projection.Interleaving
import Ego.Projection.Rebuild
import Ego.Projection.EntityOrder
import Ego.EventSource.Crash
import Ego.EventSource.Modes
import Ego.EventSource.BatchPrecondition
import Ego.EventSource.Contended
import Ego.Tenancy.Isolation
import Ego.Testkit.Conflicts
import Ego.Saga.Replay
import Ego.Projection.ReadPaths
import Ego.Testkit.Listing
import Ego.Postgres.Records
import Ego.Migration.Chain
import Ego.Migration.Plan
import Ego.Testkit.Enumeration
import Ego.Protocol.Classification
import Ego.Postgres.SchemaMigrator
import Ego.Engine.Erasure
import Ego.EventSource.Snapshots
import Ego.Projection.Offsets
import Ego.Eventstream.Delivery
import Ego.Testkit.OffsetStore
import Ego.Command.Derivation
import Ego.Compose.Lifecycle
import Ego.Migration.Framing
import Ego.Migration.LegacyState
import Ego.Queue.Fifo
import Ego.Migration.Seeding
import Ego.Postgres.Refinement
import Ego.Migration.Fences
import Ego.Migration.Adopted

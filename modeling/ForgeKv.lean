import ForgeKv.Raft.SnapshotTransfer
import ForgeKv.RaftStorage.PublishAhead
import ForgeKv.Raft.Integrity
import ForgeKv.Chaos.ClientState
import ForgeKv.Cluster.SnapshotCanonical
import ForgeKv.RaftStorage.Corruption
import ForgeKv.Cluster.Sending
import ForgeKv.Cluster.PeerTransport
import ForgeKv.Cluster.Replica
import ForgeKv.Raft.Tight
import ForgeKv.Cluster.PeerAnswer
import ForgeKv.Server.Backpressure
import ForgeKv.Server.Descriptors
import ForgeKv.Storage.Host
import ForgeKv.Storage.WalCorruption
import ForgeKv.Cluster.Retention
import ForgeKv.Chaos.Artifacts
import ForgeKv.Cluster.PeerAddress
import ForgeKv.Bench.LatencyHistogram
import ForgeKv.Raft.Wire

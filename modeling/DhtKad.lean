import DhtKad.Lib.XorMetric
import DhtKad.Lib.SortBy
import DhtKad.Lib.ByteString
import DhtKad.Lib.Recency
import DhtKad.Lib.Run
import DhtKad.Lib.CappedFamily
import DhtKad.Lib.ExceptList
import DhtKad.Lib.Climb
import DhtKad.Keyutil
import DhtKad.KVStore
import DhtKad.RoutingTable
import DhtKad.Messages
import DhtKad.Server
import DhtKad.Client
import DhtKad.Service
import DhtKad.Network
import DhtKad.RoutingTable.Unfold
import DhtKad.RoutingTable.Invariant
import DhtKad.RoutingTable.Recency
import DhtKad.RoutingTable.Identity
import DhtKad.RoutingTable.Refinement
import DhtKad.RoutingTable.Nearest
import DhtKad.RoutingTable.Rejection
import DhtKad.RoutingTable.Density
import DhtKad.RoutingTable.Idempotence
import DhtKad.RoutingTable.Layout
import DhtKad.RoutingTable.Hops
import DhtKad.Server.Requests
import DhtKad.Server.Steps
import DhtKad.Server.Lookup
import DhtKad.RoundTrip
import DhtKad.Client.Store
import DhtKad.Client.GiveUp
import DhtKad.Client.Frontier
import DhtKad.Client.Spawning
import DhtKad.Client.Termination
import DhtKad.Client.Waiting
import DhtKad.Client.Coverage
import DhtKad.Client.Patient
import DhtKad.Client.Ascent
import DhtKad.Service.Addresses
import DhtKad.Service.Replies
import DhtKad.Service.Candidates
import DhtKad.Network.ReadYourWrites
import DhtKad.Cluster
import DhtKad.Cluster.Invariant
import DhtKad.Cluster.Values
import DhtKad.Cluster.SelfContact
import DhtKad.Cluster.Tables
import DhtKad.Cluster.Closed
import DhtKad.Cluster.SelfRecord
import DhtKad.Cluster.Termination
import DhtKad.Cluster.Progress
import DhtKad.Cluster.Lasting
import DhtKad.Cluster.Contacts
import DhtKad.Cluster.Durability
import DhtKad.Cluster.Guided
import DhtKad.Cluster.Reach
import DhtKad.Cluster.Refinement
import DhtKad.Cluster.Acquainted
import DhtKad.Cluster.Joining
import DhtKad.Cluster.Distinct
import DhtKad.Cluster.Unfailing
import DhtKad.Cluster.Ascent
import DhtKad.Cluster.SmallNetwork
import DhtKad.Cluster.Replication
import DhtKad.Cluster.LastWrite
import DhtKad.Cluster.Concurrency

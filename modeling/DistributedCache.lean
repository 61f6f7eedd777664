import DistributedCache.Core.Striping
import DistributedCache.Core.Expiry
import DistributedCache.Core.Interference
import DistributedCache.Core.RequestCoalescer
import DistributedCache.Control.Failover
import DistributedCache.Control.Leadership
import DistributedCache.Control.Observation
import DistributedCache.Server.Session
import DistributedCache.Replication.Log
import DistributedCache.Cluster.Routing
import DistributedCache.Server.RespWorker
import DistributedCache.Protocol.CacheService
import DistributedCache.Dashboard.WsClient
import DistributedCache.Dashboard.Page
import DistributedCache.Dashboard.SimulationTimeline
import DistributedCache.Core.Lifetime
import DistributedCache.Server.RespReply
import DistributedCache.Cluster.Ownership
import DistributedCache.Control.EventOrder
import DistributedCache.Control.Succession
import DistributedCache.Control.Snapshot
import DistributedCache.Metrics.PrometheusEndpoint
import DistributedCache.Bench.ScenarioRequests
import DistributedCache.Bench.ScenarioMatrix
import DistributedCache.Server.Draining
import DistributedCache.Server.Shutdown
import DistributedCache.Server.RuntimeOptions
import DistributedCache.Server.Scraping
import DistributedCache.Bench.Coalescing
import DistributedCache.Bench.Report

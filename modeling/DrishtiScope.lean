import DrishtiScope.Lib.Execution
import DrishtiScope.Lib.Closure
import DrishtiScope.Lib.BoundedMap
import DrishtiScope.Lib.Directory
import DrishtiScope.Lib.Keyed
import DrishtiScope.Lib.Retention
import DrishtiScope.Lib.ReadModifyWrite
import DrishtiScope.Lib.SharedTable
import DrishtiScope.Lib.Inflight
import DrishtiScope.Lib.Noninterference
import DrishtiScope.Lib.BufferedChannel
import DrishtiScope.Lib.LossyQueue
import DrishtiScope.Lib.Resources
import DrishtiScope.Lib.Layout
import DrishtiScope.Lib.Separated
import DrishtiScope.Lib.TokenBucket
import DrishtiScope.Lib.Exposition
import DrishtiScope.Go.Utf8
import DrishtiScope.Go.Strings
import DrishtiScope.Go.Strconv
import DrishtiScope.Go.Time
import DrishtiScope.Go.Runtime
import DrishtiScope.Go.Net
import DrishtiScope.Go.Url
import DrishtiScope.Go.Http
import DrishtiScope.Go.Json
import DrishtiScope.Linux.Proc
import DrishtiScope.Linux.Inet
import DrishtiScope.Linux.Stat
import DrishtiScope.Config.Validate
import DrishtiScope.Config.Config
import DrishtiScope.Config.Idempotence
import DrishtiScope.Agg.Snapshot
import DrishtiScope.Agg.Refinement
import DrishtiScope.Agg.Rates
import DrishtiScope.Enrich.Proc
import DrishtiScope.Enrich.Descendants
import DrishtiScope.Enrich.Net
import DrishtiScope.Enrich.Connections
import DrishtiScope.Enrich.SyscallNames
import DrishtiScope.Bpf.Types
import DrishtiScope.Bpf.Program
import DrishtiScope.Bpf.Effects
import DrishtiScope.Bpf.Attempts
import DrishtiScope.Bpf.Pairing
import DrishtiScope.Bpf.ErrorCounts
import DrishtiScope.Bpf.Layout
import DrishtiScope.EbpfAgent.Startup
import DrishtiScope.EbpfAgent.Agent
import DrishtiScope.EbpfAgent.Filter
import DrishtiScope.EbpfAgent.Forward
import DrishtiScope.EbpfAgent.LiveState
import DrishtiScope.EbpfAgent.BuildSnapshot
import DrishtiScope.EbpfAgent.Counters
import DrishtiScope.EbpfAgent.Sampling
import DrishtiScope.EbpfAgent.Lifetime
import DrishtiScope.EbpfAgent.Wire
import DrishtiScope.EbpfAgent.Accounting
import DrishtiScope.EbpfAgent.Flows
import DrishtiScope.EbpfAgent.Opens
import DrishtiScope.EbpfAgent.Endpoints
import DrishtiScope.EbpfAgent.TopCalls
import DrishtiScope.Storage.SQLite
import DrishtiScope.Storage.Retained
import DrishtiScope.Storage.Throttle
import DrishtiScope.Storage.Store
import DrishtiScope.Storage.Memory
import DrishtiScope.Storage.Interchange
import DrishtiScope.Storage.Async
import DrishtiScope.Hub.Hub
import DrishtiScope.Hub.Run
import DrishtiScope.Audit.Audit
import DrishtiScope.Api.Target
import DrishtiScope.Api.RateLimit
import DrishtiScope.Api.Auth
import DrishtiScope.Api.Server
import DrishtiScope.Api.Handlers
import DrishtiScope.Api.Metrics
import DrishtiScope.Api.Noninterference
import DrishtiScope.Api.Proxy
import DrishtiScope.Api.LimiterRun
import DrishtiScope.Api.Guessing
import DrishtiScope.Api.Origin
import DrishtiScope.Api.History
import DrishtiScope.Api.Resubmit
import DrishtiScope.Api.Chat
import DrishtiScope.RealEngine.Engine
import DrishtiScope.RealEngine.Scan
import DrishtiScope.RealEngine.Rates
import DrishtiScope.RealEngine.Pinning
import DrishtiScope.RealEngine.Race
import DrishtiScope.RealEngine.Resolve
import DrishtiScope.RealEngine.SelfTarget
import DrishtiScope.RealEngine.Sockets
import DrishtiScope.RealEngine.Discovery
import DrishtiScope.RealEngine.Rows
import DrishtiScope.Mock.Generator
import DrishtiScope.Agentscope.Fanout
import DrishtiScope.Agentscope.Lifecycle
import DrishtiScope.Agentscope.Greeting
import DrishtiScope.Agentscope.Continuity
import DrishtiScope.Agentscope.NetRate
import DrishtiScope.Agentscope.Matching
import DrishtiScope.Agentscope.Scrape
import DrishtiScope.Frontend.Client
import DrishtiScope.Frontend.Store
import DrishtiScope.Agentscope.Browser
import DrishtiScope.Config.Load
import DrishtiScope.Go.Marshal
import DrishtiScope.Lib.Interface
import DrishtiScope.Protocol.Wire
import DrishtiScope.Protocol.Conformance
import DrishtiScope.Go.Shortest

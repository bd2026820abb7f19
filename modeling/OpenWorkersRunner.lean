import OpenWorkersRunner.Durable.AlarmDelivery
import OpenWorkersRunner.Durable.AlarmFresh
import OpenWorkersRunner.Durable.AlarmLocks
import OpenWorkersRunner.Durable.Guards
import OpenWorkersRunner.Durable.Mailbox
import OpenWorkersRunner.Durable.Redeploy
import OpenWorkersRunner.Durable.CallDepth
import OpenWorkersRunner.Services.Addressing
import OpenWorkersRunner.Services.Listing
import OpenWorkersRunner.D1.Jobs
import OpenWorkersRunner.D1.Queue
import OpenWorkersRunner.D1.Unsaved
import OpenWorkersRunner.D1.Usage
import OpenWorkersRunner.D1.Connections
import OpenWorkersRunner.D1.Deadline
import OpenWorkersRunner.D1.Paused
import OpenWorkersRunner.D1.Listing
import OpenWorkersRunner.D1.Requests
import OpenWorkersRunner.Durable.Ids
import OpenWorkersRunner.D1.Recency
import OpenWorkersRunner.D1.Wal
import OpenWorkersRunner.D1.Reset
import OpenWorkersRunner.Durable.Removal
import OpenWorkersRunner.Store.Stamp
import OpenWorkersRunner.ResolveCache.Fresh
import OpenWorkersRunner.ResolveCache.Window
import OpenWorkersRunner.ResolveCache.Reads
import OpenWorkersRunner.ResolveCache.Transparent
import OpenWorkersRunner.Ingress.Expects
import OpenWorkersRunner.Ingress.Termination
import OpenWorkersRunner.Ingress.RequestBody
import OpenWorkersRunner.Ingress.Bridge
import OpenWorkersRunner.Durable.SocketTable
import OpenWorkersRunner.Services.Egress
import OpenWorkersRunner.Drain.Quiet
import OpenWorkersRunner.Pool.Limiters
import OpenWorkersRunner.Pool.Permits
import OpenWorkersRunner.Pool.Threads
import OpenWorkersRunner.Scheduler.Dispatch
import OpenWorkersRunner.Logs.Stream
import OpenWorkersRunner.Logs.Dates
import OpenWorkersRunner.Logs.Handover
import OpenWorkersRunner.Services.Kv
import OpenWorkersRunner.Services.ArrayParams
import OpenWorkersRunner.Services.Bodies
import OpenWorkersRunner.Services.Limiter
import OpenWorkersRunner.Pool.CodeCache
import OpenWorkersRunner.Singleton
import OpenWorkersRunner.Services.Wrapping

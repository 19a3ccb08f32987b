import Rut.Http.ChunkedAccept
import Rut.Http.ScanBlocks
import Rut.Jit.Specialize
import Rut.Http2.Segmentation
import Rut.Http2.Ledger
import Rut.Http2.SendWindow
import Rut.Route.ArtCapacity
import Rut.Route.Dispatch
import Rut.Route.ExactPath
import Rut.Route.FirewallSpec
import Rut.RateLimit.Shard
import Rut.RateLimit.Global
import Rut.RateLimit.Effects
import Rut.Cache.CacheTable
import Rut.Timer.TimerWheel
import Rut.Timer.YieldHeap
import Rut.Pool.System
import Rut.Pool.Structure
import Rut.Ws.Closing
import Rut.HttpCache.Cache
import Rut.Conn.Overrides
import Rut.Conn.Requests
import Rut.AccessLog.Drain
import Rut.Auth.Webhook
import Rut.Auth.JwtHs256
import Rut.Conn.PolicyUpload
import Rut.Conn.TargetTransform
import Rut.Ebpf.Alone
import Rut.Ebpf.Ledger
import Rut.Http2.Acks
import Rut.Http2.Codec
import Rut.Http2.Continuation
import Rut.Http2.InjectLength
import Rut.Http2.Table
import Rut.Http2.WriteResponse
import Rut.Ws.Deflate
import Rut.Ws.RewriteExtensions
import Rut.Upstream.UpstreamPool
import Rut.AccessLog.Live
import Rut.Compiler.PhiSound
import Rut.HttpCache.Dates
import Rut.HttpCache.Served
import Rut.HttpCache.Replacement
import Rut.Upstream.BackendSelection
import Rut.RateLimit.Aliasing
import Rut.Conn.LocalResponse
import Rut.Callout.Response
import Rut.Callout.Request

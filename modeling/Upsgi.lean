import Upsgi.Proto.HttpFraming
import Upsgi.Proto.HttpReader
import Upsgi.Log.Drain
import Upsgi.Log.Datagram
import Upsgi.Core.PathCache
import Upsgi.Core.PacketGrammar
import Upsgi.Core.IfRange
import Upsgi.Body.KeepAlive
import Upsgi.Body.ChunkedRuns
import Upsgi.Body.Consecutive
import Upsgi.Body.FailedReads
import Upsgi.Body.ChunkLimit
import Upsgi.Proto.HeaderFidelity
import Upsgi.Body.Seek
import Upsgi.Body.Accounting
import Upsgi.Cache.Content
import Upsgi.Cache.Expiry
import Upsgi.Cache.Sweep
import Upsgi.Cache.Rollback
import Upsgi.Ws.Isolation
import Upsgi.Core.Offload
import Upsgi.Async.Conservation
import Upsgi.Async.RunQueue
import Upsgi.Master.Harakiri
import Upsgi.Master.Cheaper
import Upsgi.Proto.FastcgiBody
import Upsgi.Proto.FastcgiWriter
import Upsgi.Proto.ScgiParser
import Upsgi.Core.DotSegments
import Upsgi.Core.KeyvalPacket
import Upsgi.Core.Mountpoint
import Upsgi.Core.ConfigLogic
import Upsgi.Core.AcceptEncoding
import Upsgi.Core.Base64
import Upsgi.Core.IndexPath
import Upsgi.Proto.UpsgiParser
import Upsgi.Master.Cron
import Upsgi.Core.SimpleVars
import Upsgi.Proto.HeaderToken
import Upsgi.Master.Emperor
import Upsgi.Core.Metrics
import Upsgi.Core.Routing

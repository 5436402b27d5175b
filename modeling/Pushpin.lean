import Pushpin.Connmgr.BatchQueue
import Pushpin.Connmgr.ConnectionIds
import Pushpin.Connmgr.MessageTracker
import Pushpin.Connmgr.KeepAlive
import Pushpin.Connmgr.PacketRoundTrip
import Pushpin.Connmgr.PacketRouting
import Pushpin.Connmgr.SessionIndex
import Pushpin.Connmgr.SessionSeq
import Pushpin.Connmgr.Pool
import Pushpin.Core.LinkedList
import Pushpin.Core.RingQueue
import Pushpin.Core.TimerRuns
import Pushpin.Http.HeaderBufferRuns
import Pushpin.Http.ResponseRuns
import Pushpin.WebSocket.FrameHeader
import Pushpin.WebSocket.DeflateEncoder
import Pushpin.WebSocket.ContentCalls
import Pushpin.WebSocket.MaskedSending
import Pushpin.WebSocket.MessageRuns
import Pushpin.Handler.RateLimiterBatches
import Pushpin.Handler.RateLimiterDebts
import Pushpin.Handler.SequencerRuns
import Pushpin.Handler.SequencerCache
import Pushpin.Connmgr.StreamHandleRuns
import Pushpin.Connmgr.StreamWebsocketRuns
import Pushpin.Handler.HttpSessionRuns
import Pushpin.Handler.FilterChunks
import Pushpin.Handler.UpdateManager
import Pushpin.Handler.WsSession
import Pushpin.Handler.WsControlItems
import Pushpin.Handler.InstructForms
import Pushpin.Handler.ExposeHeaders
import Pushpin.Handler.JsonComparison
import Pushpin.Handler.InspectWorker
import Pushpin.WebSocket.ReceivedMessages
import Pushpin.Handler.ReliableHolds
import Pushpin.Core.ZhttpHandoff
import Pushpin.Http.ResponseBodies
import Pushpin.Http.HeadSending
import Pushpin.Http.HeaderValueTrips
import Pushpin.Http.ConnectionOptions
import Pushpin.Core.TnetCodecTrips
import Pushpin.Core.RetryRequestPacket
import Pushpin.Proxy.WsControlSession
import Pushpin.Proxy.RequestLimits
import Pushpin.Proxy.WebSocketEventTrips
import Pushpin.Proxy.FrameRemoval
import Pushpin.Core.BufferList
import Pushpin.Proxy.RouteSelection
import Pushpin.Proxy.RouteLineTrips
import Pushpin.Proxy.RouteLines
import Pushpin.Proxy.RouteIndexes
import Pushpin.Core.HeaderItems
import Pushpin.Proxy.ProxyUtil
import Pushpin.Proxy.HeaderFrames
import Pushpin.Proxy.GripHeaders
import Pushpin.Proxy.LogicalAddress
import Pushpin.Core.LocalChannelRuns
import Pushpin.Proxy.SockJsReception
import Pushpin.Core.TimerTicks
import Pushpin.Core.ReadBufs
import Pushpin.Core.SliceGuards
import Pushpin.Core.BudgetSharing
import Pushpin.Handler.BlockCounts

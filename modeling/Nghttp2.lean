import Nghttp2.HeapRuns
import Nghttp2.GoawayOrder
import Nghttp2.FlowGate
import Nghttp2.ResetOrder
import Nghttp2.SendLimit
import Nghttp2.ResetStream
import Nghttp2.PeerIds
import Nghttp2.RemoteSettings
import Nghttp2.HdPeers
import Nghttp2.DataCount
import Nghttp2.Base64
import Nghttp2.AddrGroup
import Nghttp2.DownstreamQueue
import Nghttp2.MapRuns
import Nghttp2.ParseUint
import Nghttp2.DocRoot

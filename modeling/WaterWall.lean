import WaterWall.Incremental.Decoder
import WaterWall.Bytes.BigEndian
import WaterWall.Libc.Hex
import WaterWall.Bufio.ShiftBuffer
import WaterWall.Bufio.ShiftBufferOps
import WaterWall.Bufio.BufferPool
import WaterWall.Bufio.BufferStream
import WaterWall.Bufio.StreamReader
import WaterWall.Net.AddressContext
import WaterWall.Mux.Wire
import WaterWall.Mux.Children
import WaterWall.PacketStream.Ipv4Framing
import WaterWall.Http.Chunked
import WaterWall.Http.ChunkedBody
import WaterWall.Trojan.Udp
import WaterWall.KeepAlive.Frame
import WaterWall.Crypto.Aead
import WaterWall.Encryption.Frame
import WaterWall.Replay.Window
import WaterWall.WireGuard.Replay
import WaterWall.Checksum.OnesComplement
import WaterWall.Net.Checksum
import WaterWall.Net.ChecksumUpdate
import WaterWall.WireGuard.Receive
import WaterWall.Incremental.Loop
import WaterWall.Socks5.Control
import WaterWall.Intrusive.DList
import WaterWall.Lru.SlotCache
import WaterWall.PacketsToConnection.FakeDns
import WaterWall.Heap.Binary
import WaterWall.Intrusive.Chain
import WaterWall.IpManipulator.FlowTable
import WaterWall.IpManipulator.FlowShard
import WaterWall.Heap.PQueue
import WaterWall.Map.HMap
import WaterWall.Array.SwapRemove
import WaterWall.SoftIpLimiter.Table
import WaterWall.SoftIpLimiter.Accounting
import WaterWall.IdleTable.Local
import WaterWall.IdleTable.LocalInv
import WaterWall.IdleTable.LocalSafety
import WaterWall.IdleTable.Shared
import WaterWall.IdleTable.SharedInv
import WaterWall.IdleTable.SharedSafety
import WaterWall.TlsRecordShaping.OutputQueue
import WaterWall.SpeedLimit.Bucket
import WaterWall.Concurrent.Interleave
import WaterWall.SpeedLimit.AtomicBucket
import WaterWall.Bufio.MasterPool
import WaterWall.Json.CJson
import WaterWall.Socks5.AddressCodec
import WaterWall.TlsRecordShaping.Config
import WaterWall.TlsRecordShaping.Sampler
import WaterWall.Bits.Ones
import WaterWall.Order.FirstMax
import WaterWall.WireGuard.AllowedIps
import WaterWall.Order.LowerBound
import WaterWall.Users.AllowedIpTable
import WaterWall.ReverseServer.Pairing
import WaterWall.SocketManager.Dispatch
import WaterWall.PacketStream.Resync
import WaterWall.Bufio.BufferStreamSearch
import WaterWall.Bufio.ShiftBufferCapacity
import WaterWall.Utils.Base64
import WaterWall.Router.MatchIp
import WaterWall.Devices.FlowAffinity
import WaterWall.Devices.FlowAffinityPost
import WaterWall.Order.Tiling
import WaterWall.Net.Fragment
import WaterWall.IpManipulator.SniBlender
import WaterWall.Float.Binary64
import WaterWall.Libc.Decimal
import WaterWall.Json.Number

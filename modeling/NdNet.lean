import NdNet.Lib.Store
import NdNet.Lib.Runs
import NdNet.Common.LineBuf
import NdNet.Common.LineBufQueue
import NdNet.Common.LineBufRuns
import NdNet.Net.Packet
import NdNet.Net.TcpNode
import NdNet.Net.TcpSend
import NdNet.Net.TcpSendRuns
import NdNet.Net.Answering
import NdNet.Net.TcpRecv
import NdNet.Net.SysPacket
import NdNet.Net.TcpFraming
import NdNet.Net.TcpFetch
import NdNet.Net.TcpRounds
import NdNet.Net.TcpLink
import NdNet.App.ProtoStream
import NdNet.App.ProtoStreamRoundTrip
import NdNet.App.ProtoWriter
import NdNet.App.ProtoReads
import NdNet.App.ProtoDump
import NdNet.App.ProtoMarkers
import NdNet.App.ProtoSkip
import NdNet.App.VarType
import NdNet.App.VarObject
import NdNet.App.VarOwnership
import NdNet.App.VarValues
import NdNet.App.ProtoPeek
import NdNet.App.MsgAddress
import NdNet.App.SendMsg
import NdNet.App.MsgSerial
import NdNet.App.ProtoReader
import NdNet.App.Alarm
import NdNet.Lib.Drain
import NdNet.App.HttpParser
import NdNet.App.HttpRequest
import NdNet.App.HttpArrival
import NdNet.App.HttpHeaders
import NdNet.App.HttpForms
import NdNet.App.UrlCode
import NdNet.App.FileRange
import NdNet.App.HttpMultipart
import NdNet.Lib.Serial
import NdNet.Lib.Memory
import NdNet.Lib.Pieces
import NdNet.Udt.Node
import NdNet.Udt.Window
import NdNet.Udt.Wire
import NdNet.Udt.WireRoundTrip
import NdNet.Udt.Shift
import NdNet.Udt.Flow
import NdNet.Udt.Received
import NdNet.Udt.InPlace
import NdNet.Udt.Datagram
import NdNet.Udt.Foreign
import NdNet.Udt.Handshake
import NdNet.Udt.Arrival
import NdNet.Udt.Reorder
import NdNet.Udt.FlowControl
import NdNet.Udt.Network
import NdNet.Udt.StreamRuns
import NdNet.Udt.Listener
import NdNet.Udt.Status
import NdNet.Udt.Client
import NdNet.Udt.Malformed
import NdNet.Udt.Sessions
import NdNet.Udt.ListenerRuns
import NdNet.Udt.Isolation
import NdNet.Common.Str
import NdNet.Common.XmlText
import NdNet.Common.XmlEscape
import NdNet.Common.XmlOutput
import NdNet.Common.XmlGrammar
import NdNet.Common.XmlReading
import NdNet.Common.XmlUnique
import NdNet.Common.XmlComplete
import NdNet.Common.XmlLoad
import NdNet.Common.XmlNames
import NdNet.Common.XmlRoundTrip
import NdNet.Lib.Ring
import NdNet.Common.XmlTree
import NdNet.Common.XmlTreeSound
import NdNet.Common.XmlTreeRuns
import NdNet.Common.XmlInsert
import NdNet.Common.XmlCopy
import NdNet.Common.RecyBuf
import NdNet.Common.RecyBulk
import NdNet.Common.Timer
import NdNet.Lib.Tiling
import NdNet.Common.SubAllocator
import NdNet.Common.SubAccounting
import NdNet.Common.MemPool
import NdNet.Lib.Climb
import NdNet.Vm.Machine
import NdNet.Vm.Code
import NdNet.Vm.Asm
import NdNet.Vm.Formula
import NdNet.Vm.Grammar
import NdNet.Vm.Grouping
import NdNet.Vm.Parse
import NdNet.Vm.Lines
import NdNet.Lib.Owners
import NdNet.Lib.Access
import NdNet.Lib.Budget
import NdNet.Lib.Script
import NdNet.Vm.Touch
import NdNet.Vm.Contained
import NdNet.Vm.CompiledRuns
import NdNet.Common.Printf
import NdNet.Vm.Disasm
import NdNet.Vm.Plan
import NdNet.Vm.Compile
import NdNet.Vm.Listing
import NdNet.Common.StaticAlloc
import NdNet.Common.NodeMgr
import NdNet.Common.NodeRefs
import NdNet.Net.MsgEntry
import NdNet.Net.MsgNames
import NdNet.Net.Alive
import NdNet.Net.Crypt
import NdNet.Net.Decrypt
import NdNet.Srv.SessionSend
import NdNet.Lib.Ledger
import NdNet.Lib.Straight
import NdNet.Srv.ThreadMsg
import NdNet.Srv.ThreadPool
import NdNet.Common.PoolRealloc
import NdNet.Common.PoolCapacity
import NdNet.App.AlarmClock
import NdNet.App.Affair
import NdNet.App.HttpSessions
import NdNet.Crypt.Base64
import NdNet.Crypt.CryptRead
import NdNet.App.HttpBuffers
import NdNet.Stl.RefTreeRuns
import NdNet.Common.StrCase
import NdNet.Common.StrBound
import NdNet.Common.XmlBreaks
import NdNet.Common.Path
import NdNet.Common.Calendar
import NdNet.Common.Handle

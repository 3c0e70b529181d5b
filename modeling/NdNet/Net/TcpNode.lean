import NdNet.Net.Packet

/-!
# The TCP node

`nd_tcp.c`, and the parts of `nd_netui.c` and `nd_netobj.c` that fetch packets
and answer keep-alive packets.  The node carries its surroundings with it: the
bytes the socket has taken (`wire`), the results the operating system is going
to give to the next socket writes and waits, and the time.  Every function
returns its C result next to the node.
-/

namespace NdNet

/-- The error codes of `_nderr.h`; those behind `NDERR_USER_BREAK` are never
told apart. -/
inductive NdErr where
  | success
  | invalidHandle
  | timeout
  | nosource
  | openfile
  | badthread
  | limited
  | user
  | invalidInput
  | io
  | wouldBlock
  | closed
  | badpacket
  | badsocket
  | read
  | write
  | noPrivilage
  | reset
  | version
  | userBreak
  | behindUserBreak
  deriving DecidableEq, Repr

/-- `enum ETCP_CONNECT_STATUS` -/
inductive TcpStatus where
  | dead
  | accept
  | connected
  | trytoClose
  | reset
  | closed
  deriving DecidableEq, Repr

/-- What one `send` on the socket comes back with. -/
inductive WriteResult where
  /-- `-1`, and whether the error is `ESOCKETTIMEOUT`. -/
  | error (timedOut : Bool)
  /-- The socket takes that many bytes of those offered. -/
  | took (count : Nat)
  deriving DecidableEq, Repr

/-- What one `recv` on the socket comes back with. -/
inductive ReadResult where
  | error (timedOut : Bool)
  /-- The bytes waiting; an orderly shutdown gives none. -/
  | data (bytes : List Byte)
  deriving DecidableEq, Repr

/-- The decryption of the payload that `nd_net_set_crypt` registered, with the
session key applied. -/
structure NetCrypt where
  unitLen : Nat
  decrypt : Option (List Byte → Int × List Byte)

structure TcpNode where
  fd : Nat
  status : TcpStatus
  myerrno : NdErr
  /-- `sys_error == ESOCKETTIMEOUT` -/
  sysTimedOut : Bool
  isSession : Bool
  /-- `packet_write` is `_tcp_connector_send` and not `nd_tcpnode_send`. -/
  checkedWrite : Bool
  readAgain : Bool
  userDefinePacket : Bool
  isCryptPacket : Bool
  crypt : NetCrypt
  recvBuffer : LineBuf
  sendBuffer : LineBuf
  lastPush : UInt32
  now : UInt32
  writeResults : List WriteResult
  waitResults : List Bool
  wire : List Byte

def sendbufPush : Nat := 128

def sendbufTmval : UInt32 := 50

/-- The `enum send_flag` bits a TCP node looks at. -/
structure SendFlag where
  urgency : Bool
  post : Bool
  deriving DecidableEq, Repr

namespace TcpNode

/-- `nd_object_check_error(node) != 0` -/
def checkError (node : TcpNode) : Bool :=
  match node.myerrno with
  | .success | .wouldBlock | .noPrivilage | .userBreak | .behindUserBreak =>
    false
  | _ => true

/-- `nd_tryto_clear_err`: whether the error stays, and the node. -/
def trytoClearErr (node : TcpNode) : Bool × TcpNode :=
  match node.myerrno with
  | .invalidHandle | .timeout | .openfile | .user | .io | .reset | .write
  | .closed | .read => (true, node)
  | _ => (false, { node with myerrno := .success })

/-- `nd_connector_valid` of a TCP node. -/
def connectorValid (node : TcpNode) : Bool :=
  node.fd ≠ 0 && !node.checkError && node.status = .connected

def checkConnectValid (node : TcpNode) : Bool :=
  0 < node.fd && node.status = .connected

/-- `_sys_socket_write`.  With no result left the socket would block. -/
def sysSocketWrite (node : TcpNode) (data : List Byte) : Int × TcpNode :=
  let called := { node with writeResults := node.writeResults.tail }
  match node.writeResults.head? with
  | some (.took count) =>
    if 0 < min count data.length then
      ((min count data.length : Nat),
        { called with
          wire := node.wire ++ data.take count
          lastPush := node.now })
    else (0, { called with myerrno := .wouldBlock })
  | some (.error true) =>
    (0, { called with sysTimedOut := true, myerrno := .wouldBlock })
  | some (.error false) =>
    (-1, { called with sysTimedOut := false, myerrno := .io })
  | none => (0, { called with myerrno := .wouldBlock })

/-- `ndlbuf_write` on the send buffer, whose storage never grows. -/
def sendbufWrite (node : TcpNode) (data : List Byte) : Int × TcpNode :=
  let result := node.sendBuffer.write data .specified (fun _ => none)
  (result.1, { node with sendBuffer := result.2 })

/-- `ndlbuf_sub_data` on the send buffer. -/
def sendbufSub (node : TcpNode) (count : Nat) : TcpNode :=
  { node with sendBuffer := node.sendBuffer.subData count }

def sendWithSave (node : TcpNode) (msg : List Byte) : Int × TcpNode :=
  let written := node.sysSocketWrite msg
  if written.1 = -1 then
    if !written.2.sysTimedOut then (-1, written.2)
    else
      let saved := written.2.sendbufWrite msg
      if saved.1 = (msg.length : Int) then
        (saved.1, { saved.2 with myerrno := .success })
      else saved
  else if written.1 = (msg.length : Int) then (intOfSize msg.length, written.2)
  else
    let saved := written.2.sendbufWrite (msg.drop written.1.toNat)
    if 0 < saved.1 then (saved.1 + written.1, saved.2)
    else (written.1, saved.2)

/-- The first part of `__tcpnode_push_and_send`: offer the buffered bytes. -/
def flushBuffered (node : TcpNode) : TcpNode :=
  if node.sendBuffer.datalen ≠ 0 then
    let flushed := node.sysSocketWrite node.sendBuffer.content
    if 0 < flushed.1 then flushed.2.sendbufSub flushed.1.toNat else flushed.2
  else node

def pushAndSend (node : TcpNode) (msg : List Byte) (isWriteAll : Bool) :
    Int × TcpNode :=
  let flushed := node.flushBuffered
  if flushed.sendBuffer.datalen = 0 then flushed.sendWithSave msg
  else if isWriteAll ∧ flushed.sendBuffer.freeCapacity < msg.length then
    (-1, { flushed with myerrno := .wouldBlock })
  else flushed.sendbufWrite msg

/-- `__tcpnode_send` -/
def sendBytes (node : TcpNode) (msg : List Byte) (flag : SendFlag)
    (isWriteAll : Bool) : Int × TcpNode :=
  if node.sendBuffer.datalen = 0 then node.sendWithSave msg
  else if flag.post ∧ node.sendBuffer.freeCapacity < msg.length then
    (0, { node with myerrno := .wouldBlock })
  else node.pushAndSend msg isWriteAll

def packetOf (msg : List Byte) : List Byte :=
  msg.take (getPackSize msg)

def send (node : TcpNode) (msg : List Byte) (flag : SendFlag) :
    Int × TcpNode :=
  if node.isSession then
    let sent := node.sendBytes (packetOf msg) { flag with urgency := false } true
    if sent.1 = -1 then
      (-1, { sent.2 with myerrno := .write, status := .reset })
    else sent
  else node.sendBytes (packetOf msg) flag true

def pushSendbuf (node : TcpNode) : Int × TcpNode :=
  if node.sendBuffer.datalen = 0 then (0, node)
  else if !node.checkConnectValid then (-1, { node with myerrno := .badsocket })
  else
    let pushed := node.sysSocketWrite node.sendBuffer.content
    if 0 < pushed.1 then (pushed.1, pushed.2.sendbufSub pushed.1.toNat)
    else pushed

/-- The `RESEND` loop of `_tcpnode_push_force`; `waits` are the results of the
`nd_socket_wait_writablity` calls to come. -/
def resend (node : TcpNode) (waits : List Bool) : Int × TcpNode :=
  let pushed := sysSocketWrite { node with myerrno := .success }
    node.sendBuffer.content
  if pushed.1 ≤ 0 then (pushed.1, { pushed.2 with waitResults := waits })
  else
    let shortened := pushed.2.sendbufSub pushed.1.toNat
    if 0 < shortened.sendBuffer.datalen then
      match waits with
      | true :: rest => shortened.resend rest
      | false :: rest => (pushed.1, { shortened with waitResults := rest })
      | [] => (pushed.1, { shortened with waitResults := [] })
    else (pushed.1, { shortened with waitResults := waits })

def pushForce (node : TcpNode) : Int × TcpNode :=
  if node.sendBuffer.datalen = 0 then (0, node)
  else if !node.checkConnectValid then (-1, { node with myerrno := .badsocket })
  else node.resend node.waitResults

def trytoFlushSendbuf (node : TcpNode) : Int × TcpNode :=
  if sendbufPush ≤ node.sendBuffer.datalen ∨
      sendbufTmval ≤ node.now - node.lastPush then
    node.pushSendbuf
  else (0, node)

def tcpConnectorSend (node : TcpNode) (msg : List Byte) (flag : SendFlag) :
    Int × TcpNode :=
  if node.status ≠ .connected then (-1, { node with myerrno := .badsocket })
  else send { node with myerrno := .success } msg flag

/-- `nd_connector_send` without encryption, for a packet in host order. -/
def connectorSend (node : TcpNode) (msg : List Byte) (flag : SendFlag) :
    Int × TcpNode :=
  if !node.connectorValid then (-1, node)
  else
    let cleared := node.trytoClearErr
    if cleared.1 then (-1, cleared.2)
    else
      let versioned := Store.overwrite msg 2 [ndnetmsgVersion]
      if node.checkedWrite then
        cleared.2.tcpConnectorSend (packetSwap versioned) flag
      else cleared.2.send (packetSwap versioned) flag

def recvStream (node : TcpNode) : List Byte :=
  Store.slice node.recvBuffer.storage node.recvBuffer.startOff
    node.recvBuffer.storage.length

/-- Store `block` over the first received bytes. -/
def rewriteStream (node : TcpNode) (block : List Byte) : TcpNode :=
  { node with
    recvBuffer := { node.recvBuffer with
      storage := Store.overwrite node.recvBuffer.storage
        node.recvBuffer.startOff block } }

/-- The checksum of a system message and the message, brought into host order,
with that checksum in its place. -/
def resum (pack : List Byte) : Nat × List Byte :=
  let cleared := Store.overwrite (packetSwap pack) 6 (hostBytes 0)
  let sum := checksum (cleared.take (packLen cleared))
  (sum, Store.overwrite cleared 6 (hostBytes sum))

/-- `nd_net_sysmsg_hander` on the packet at the start of the received data; the
length and the checksum are rewritten in place. -/
def sysmsgHander (node : TcpNode) : Int × TcpNode :=
  let pack := node.recvStream
  let summed := resum pack
  let rewritten := node.rewriteStream (summed.2.take 8)
  if hostU16 pack 6 ≠ summed.1 then
    (-1, { rewritten with myerrno := .badpacket })
  else if hostU16 summed.2 4 = ersvAliveId then
    if packLen summed.2 ≠ 8 ∨ stuffLen summed.2 ≠ 5 then
      (-1, { rewritten with myerrno := .badpacket })
    else (0, (rewritten.connectorSend makeAlivePack ⟨true, false⟩).2)
  else if hostU16 summed.2 4 = ersvVersionError then
    (-1, { rewritten with myerrno := .version })
  else (0, rewritten)

/-- `nd_packet_decrypt` on a packet in host order: the new length and the
packet. -/
def packetDecrypt (node : TcpNode) (msg : List Byte) : Int × List Byte :=
  let datalen : Int := (packLen msg : Int) - packetHdrSize
  if datalen ≤ 0 ∨
      ((packetSize - packetHdrSize : Nat) : Int) - node.crypt.unitLen < datalen then
    (0, msg)
  else
    match node.crypt.decrypt with
    | none => (packLen msg, msg)
    | some decrypt =>
      let result := decrypt ((msg.drop packetHdrSize).take datalen.toNat)
      if result.1 ≤ 0 ∨ result.1 ≠ datalen then
        (-1, Store.overwrite msg packetHdrSize result.2)
      else
        let flags := byteAt msg 3
        let opened := Store.overwrite
          (Store.overwrite msg packetHdrSize result.2) 3 [flags &&& 0xfd]
        if isStuff opened then
          -- the last byte is a `char`, and the length is compared with it
          let last := (byteAt opened (packLen opened - 1)).toInt8.toInt
          if (stuffLen opened : Int) ≠ last then (0, opened)
          else if last < packLen opened then
            ((packLen opened : Int) - last, opened)
          else (0, opened)
        else (packLen opened, opened)

/-- The end of `__net_fetch_msg`: a packet that was read out of the buffer is
brought into host order and decrypted. -/
def openPacket (node : TcpNode) (bytes : List Byte) :
    Int × List Byte × TcpNode :=
  let msg := packetSwap bytes
  if isEncrypt msg then
    let opened := node.packetDecrypt msg
    if opened.1 = 0 then (-1, opened.2, { node with myerrno := .badpacket })
    else
      (opened.1,
        Store.overwrite opened.2 0 (hostBytes (opened.1 % 65536).toNat),
        { node with isCryptPacket := true })
  else (bytes.length, msg, { node with isCryptPacket := false })

/-- The `RE_FETCH` loop of `__net_fetch_msg`: the result, the message read and
the node.  Each round but the last removes a packet, so the number of received
bytes bounds the rounds. -/
def refetch (node : TcpNode) : Nat → Int × List Byte × TcpNode
  | 0 => (0, [], node)
  | rounds + 1 =>
    let buf := node.recvBuffer
    if buf.datalen < packetHdrSize then (0, [], node)
    else
      let stream := node.recvStream
      let validLen := getPackSize stream
      if packetSize < validLen ∨ validLen < minPacketLen then
        (-1, [], { node with myerrno := .badpacket })
      else if buf.datalen < validLen then (0, [], node)
      else if node.userDefinePacket then
        let taken := buf.read validLen .specified
        (validLen, taken.2.1, { node with recvBuffer := taken.2.2 })
      else if ndsysMsg stream then
        let handled := node.sysmsgHander
        if handled.1 = -1 then (-1, [], handled.2)
        else
          refetch
            { handled.2 with
              recvBuffer := handled.2.recvBuffer.subData validLen }
            rounds
      else
        let taken := buf.read validLen .specified
        openPacket { node with recvBuffer := taken.2.2 } taken.2.1

/-- `__net_fetch_msg` with a message buffer. -/
def fetchMsg (node : TcpNode) : Int × List Byte × TcpNode :=
  if !node.connectorValid then (-1, [], node)
  else node.refetch (node.recvBuffer.datalen + 1)

/-- The loop of `handle_recv_data` that fetches until nothing more comes: the
messages, the last result and the node.  Every message takes bytes out of the
buffer, so their number bounds the rounds. -/
def fetchAll (node : TcpNode) : Nat → List (List Byte) × Int × TcpNode
  | 0 => ([], 0, node)
  | rounds + 1 =>
    let fetched := node.fetchMsg
    if 0 < fetched.1 then
      let later := fetchAll fetched.2.2 rounds
      (fetched.2.1 :: later.1, later.2)
    else ([], fetched.1, fetched.2.2)

/-- `_sys_socket_read` with room for `space` bytes. -/
def sysSocketRead (node : TcpNode) (space : Nat) :
    ReadResult → Int × List Byte × TcpNode
  | .error true => (0, [], { node with sysTimedOut := true, myerrno := .wouldBlock })
  | .error false => (-1, [], { node with sysTimedOut := false, myerrno := .io })
  | .data bytes =>
    if (bytes.take space).length = 0 then
      (-1, [], { node with myerrno := .closed })
    else ((bytes.take space).length, bytes.take space, node)

/-- `nd_tcpnode_read`; `result` is what the socket has if it is asked. -/
def read (node : TcpNode) (result : ReadResult) : Int × TcpNode :=
  if node.recvBuffer.freespace = 0 ∧ 0 < node.recvBuffer.datalen then
    (intOfSize node.recvBuffer.datalen, { node with readAgain := true })
  else
    let ready := { node with
      readAgain := false
      recvBuffer :=
        if node.recvBuffer.freespace = 0 then node.recvBuffer.moveAhead
        else node.recvBuffer }
    let space := ready.recvBuffer.freespace
    let got := ready.sysSocketRead space result
    if 0 < got.1 then
      let filled := { got.2.2 with
        recvBuffer := got.2.2.recvBuffer.append got.2.1
        readAgain := decide (space ≤ got.2.1.length) }
      (intOfSize filled.recvBuffer.datalen, filled)
    else (got.1, got.2.2)

/-- A connected node whose socket gives `results` to the writes. -/
def connectedNode (results : List WriteResult) : TcpNode :=
  { fd := 3
    status := .connected
    myerrno := .success
    sysTimedOut := false
    isSession := true
    checkedWrite := false
    readAgain := false
    userDefinePacket := false
    isCryptPacket := false
    crypt := { unitLen := 0, decrypt := none }
    recvBuffer := LineBuf.init []
    sendBuffer := LineBuf.init []
    lastPush := 0
    now := 0
    writeResults := results
    waitResults := []
    wire := [] }

end TcpNode

end NdNet

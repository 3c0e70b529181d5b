import NdNet.Net.TcpNode

/-!
# The UDT node

`udt_net.c` and `udt_socket.c`: a reliable byte stream over datagrams.  As for
a TCP node, the surroundings are part of the node: `wire` holds the datagrams
the socket has taken, `writeResults` what the operating system is going to say
to the next writes, and `now` the time.

A datagram is modelled after `udt_net2host`: its header fields and the bytes
`pocket_data` points at.  Headers are written in place in front of the data in
`send_buffer` and the bytes there are put back afterwards, so the buffer itself
does not change.
-/

namespace NdNet

/-- The `u_32` sequence numbers. -/
abbrev Seq := BitVec 32

/-- `ndtime_t` -/
abbrev NdTime := BitVec 32

/-- `enum eUdtMsgType`; the field has four bits. -/
inductive UdtMsgType where
  | data
  | syn
  | alive
  | ack
  | lost
  | fin
  | reset
  | dgram
  | unknown
  deriving DecidableEq, Repr

/-- `struct ndudt_pocket` together with its data.  `ackSeq` is the word behind
`sequence`; without the `ack` flag the data begins there. -/
structure UdtPocket where
  udtType : UdtMsgType
  ack : Bool
  localPort : UInt16
  windowLen : Nat
  sequence : Seq
  ackSeq : Seq
  data : List Byte
  deriving DecidableEq, Repr

namespace UdtPocket

/-- `init_udt_pocket` -/
def init : UdtPocket :=
  { udtType := .data
    ack := false
    localPort := 0
    windowLen := 0
    sequence := 0
    ackSeq := 0
    data := [] }

/-- `set_pocket_ack` -/
def setAck (pocket : UdtPocket) (ackSeq : Seq) : UdtPocket :=
  { pocket with ack := true, ackSeq := ackSeq }

def headerSize (pocket : UdtPocket) : Nat :=
  if pocket.ack then 16 else 12

def acknowledges (pocket : UdtPocket) : Bool :=
  pocket.ack || pocket.udtType = .ack

end UdtPocket

def hostSeq (value : Seq) : List Byte :=
  hostBytes (value.toNat % 65536) ++ hostBytes (value.toNat / 65536)

def udtFragmentLen : Nat := 1400

def udpPacketHeadSize : Nat := 6

def maxAttemptSend : Nat := 5

def retranslateTime : NdTime := 10000

/-- `enum _enetstat`, a set of flags. -/
abbrev NetStat := BitVec 16

namespace NetStat

def closed : NetStat := 0
def listen : NetStat := 1
def synsend : NetStat := 2
def synrecv : NetStat := 4
def accept : NetStat := 8
def established : NetStat := 0x10
def finsend : NetStat := 0x20
def sendclose : NetStat := 0x40
def recvclose : NetStat := 0x80
def reset : NetStat := 0x100

/-- `status & flag` as a condition. -/
def has (status flag : NetStat) : Bool :=
  status &&& flag != 0

end NetStat

/-- `struct nd_rtt` -/
structure UdtRtt where
  average : BitVec 32
  deviation : BitVec 32
  deriving DecidableEq, Repr

/-- `calc_timeouval`: the time-out and the updated samples. -/
def calcTimeouval (rtt : UdtRtt) (measurement : BitVec 32) :
    NdTime × UdtRtt :=
  let err := measurement - rtt.average.sshiftRight 3
  let average := rtt.average + err
  let size := if err.toInt < 0 then -err else err
  let deviation := rtt.deviation + (size - rtt.deviation.sshiftRight 2)
  let ret := (average.sshiftRight 2 + deviation).sshiftRight 1
  (if ret.toInt < 500 then 500 else ret, ⟨average, deviation⟩)

/-- `struct _udt_packet_node` -/
structure PrePacket where
  recvTm : NdTime
  pack : UdtPocket
  deriving DecidableEq, Repr

/-- What one `sendto` on the socket comes back with: the whole datagram or an
error. -/
inductive UdpResult where
  | sent
  | wouldBlock
  | failed
  deriving DecidableEq, Repr

structure UdtNode where
  fd : Nat
  status : NetStat
  myerrno : NdErr
  isAccept : Bool
  /-- `srv_root` has an `accept_proc`. -/
  acceptProc : Bool
  needAck : Bool
  isRetranslate : Bool
  userDataIn : Bool
  resendTimes : BitVec 16
  localPort : UInt16
  retransTimeout : NdTime
  lastResendTm : NdTime
  lastActive : NdTime
  lastRecv : NdTime
  updateTm : NdTime
  sendSequence : Seq
  acknowledgedSeq : Seq
  receivedSequence : Seq
  retransSeq : Seq
  windowLen : Nat
  rtt : UdtRtt
  preList : List PrePacket
  recvBuffer : LineBuf
  sendBuffer : LineBuf
  /-- What `data_entry` returns for an unreliable datagram. -/
  dataEntry : Option (List Byte → Int)
  now : NdTime
  writeResults : List UdpResult
  wire : List UdtPocket

namespace UdtNode

open NetStat Store

def sendWindow (node : UdtNode) : Nat :=
  min node.recvBuffer.freeCapacity 0xffff

/-- `write_pocket_to_socket` of a pocket with all its data.  With no result
left the datagram is sent. -/
def writePocketToSocket (node : UdtNode) (pocket : UdtPocket) :
    Int × UdtNode :=
  let filled :=
    { pocket with
      localPort := node.localPort
      windowLen :=
        if pocket.udtType = .dgram then pocket.windowLen
        else node.sendWindow }
  let called := { node with writeResults := node.writeResults.tail }
  match node.writeResults.head?.getD .sent with
  | .sent =>
    ((pocket.headerSize + pocket.data.length : Nat),
      { called with
        wire := node.wire ++ [filled]
        lastActive := node.now })
  | .wouldBlock => (-1, { called with myerrno := .wouldBlock })
  | .failed => (-1, { called with myerrno := .write })

def sendAck (node : UdtNode) : Int × UdtNode :=
  node.writePocketToSocket
    { UdtPocket.init.setAck node.receivedSequence with udtType := .ack }

/-- The reset pocket that `_udt_packet_handler` and `udt_reset` send. -/
def sendReset (node : UdtNode) : Int × UdtNode :=
  node.writePocketToSocket { UdtPocket.init with udtType := .reset }

def handleSyn (node : UdtNode) (pocket : UdtPocket) : Int × UdtNode :=
  if node.status = listen then
    let started :=
      { node with
        acknowledgedSeq := node.sendSequence
        receivedSequence := pocket.sequence + 1 }
    let answered := started.writePocketToSocket
      { UdtPocket.init.setAck started.receivedSequence with
        udtType := .syn
        sequence := started.sendSequence }
    (0, { answered.2 with status := synrecv })
  else if node.status = synsend then
    if !pocket.ack || node.sendSequence + 1 != pocket.ackSeq then
      (-1, { node with myerrno := .badpacket })
    else
      let connected :=
        { node with
          localPort := pocket.localPort
          receivedSequence := pocket.sequence + 1
          acknowledgedSeq := pocket.ackSeq
          status := established
          sendSequence := node.sendSequence + 1 }
      (0, connected.sendAck.2)
  else if node.status < accept then
    if node.receivedSequence = pocket.sequence + 1 then (0, node.sendAck.2)
    else (-1, node)
  else (-1, { node with myerrno := .badpacket })

/-- The number acknowledges bytes that were sent and are still buffered:
`notified` is positive and `unnotified` not negative. -/
def TakesOff (node : UdtNode) (ackSeq : Seq) : Prop :=
  0 < (ackSeq - node.acknowledgedSeq).toInt ∧ 0 < node.sendBuffer.datalen ∧
    0 ≤ (node.sendSequence - ackSeq).toInt

instance (node : UdtNode) (ackSeq : Seq) : Decidable (node.TakesOff ackSeq) :=
  inferInstanceAs (Decidable (_ ∧ _ ∧ _))

/-- The part of `_handle_ack` that takes acknowledged bytes off. -/
def takeAcknowledged (node : UdtNode) (ackSeq : Seq) : UdtNode :=
  if node.TakesOff ackSeq then
    let advanced :=
      { node with
        sendBuffer := node.sendBuffer.subData
          (ackSeq - node.acknowledgedSeq).toInt.toNat
        acknowledgedSeq := ackSeq }
    if node.isRetranslate then advanced
    else
      let timed := calcTimeouval node.rtt (node.updateTm - node.lastResendTm)
      { advanced with retransTimeout := timed.1, rtt := timed.2 }
  else node

/-- The status of a closing node whose last number is acknowledged. -/
def sendClosed (status : NetStat) : NetStat :=
  let marked := status ||| sendclose
  if marked.has recvclose then marked ||| reset else marked

/-- `_handle_ack` behind the test for an old number. -/
def handleNewAck (node : UdtNode) (ackSeq : Seq) : UdtNode :=
  if node.status = synrecv then
    if (ackSeq - node.acknowledgedSeq).toInt < 0 then
      { node with myerrno := .badpacket }
    else if node.sendSequence + 1 = ackSeq then
      { node with
        status := if node.acceptProc then established else accept
        acknowledgedSeq := ackSeq
        sendSequence := node.sendSequence + 1 }
    else node
  else if node.status.has finsend then
    if node.sendSequence = ackSeq then
      { node with
        sendSequence := ackSeq
        sendBuffer := node.sendBuffer.reset
        status := sendClosed node.status }
    else node
  else
    let taken := node.takeAcknowledged ackSeq
    if taken.isRetranslate ∧ 0 ≤ (ackSeq - taken.retransSeq).toInt then
      { taken with
        isRetranslate := false
        retransSeq := ackSeq
        resendTimes := 0 }
    else taken

/-- `_handle_ack`, which returns 0 in every case. -/
def handleAck (node : UdtNode) (ackSeq : Seq) : UdtNode :=
  if ackSeq ≤ node.acknowledgedSeq then node else node.handleNewAck ackSeq

/-- Where `_addto_pre_list` links a packet in.  Note that `list_add` links it
behind the entry it is given. -/
def insertPre (packet : PrePacket) : List PrePacket → List PrePacket
  | [] => [packet]
  | entry :: later =>
    let tmval := (packet.recvTm - entry.recvTm).toInt
    if tmval < 0 then entry :: packet :: later
    else if tmval = 0 then
      if (packet.pack.sequence - entry.pack.sequence).toInt < 0 then
        entry :: packet :: later
      else packet :: entry :: later
    else entry :: insertPre packet later

def addtoPreList (node : UdtNode) (pocket : UdtPocket) : UdtNode :=
  { node with
    preList := insertPre { recvTm := node.now, pack := pocket } node.preList }

/-- What `_handle_income_data` and `_handle_pre_packet` do with data that is
next in the sequence. -/
def storeData (node : UdtNode) (data : List Byte) : Int × UdtNode :=
  let written := node.recvBuffer.write data .all (fun _ => none)
  (written.1,
    { node with
      needAck := true
      receivedSequence := node.receivedSequence + BitVec.ofNat 32 data.length
      recvBuffer := written.2
      userDataIn := true })

def handlePrePacket (node : UdtNode) (pocket : UdtPocket) : Int × UdtNode :=
  if pocket.sequence ≠ node.receivedSequence then (1, node)
  else if node.recvBuffer.freeCapacity < pocket.data.length then (-1, node)
  else (0, (node.storeData pocket.data).2)

/-- The loop of `_tryto_fetch_prelist` over the entries from `list` on. -/
def fetchPrelist (node : UdtNode) : List PrePacket → UdtNode
  | [] => { node with preList := [] }
  | entry :: later =>
    let handled := node.handlePrePacket entry.pack
    if handled.1 = 0 then fetchPrelist handled.2 later
    else { node with preList := entry :: later }

def trytoFetchPrelist (node : UdtNode) : UdtNode :=
  node.fetchPrelist node.preList

def updatePrelist (node : UdtNode) : UdtNode :=
  { node with
    preList := node.preList.filter fun entry =>
      !(decide ((entry.pack.sequence - node.receivedSequence).toInt < 0) ||
        decide (60000 < (node.now - entry.recvTm).toInt)) }

def handleIncomeData (node : UdtNode) (pocket : UdtPocket) : Int × UdtNode :=
  if pocket.data.length = 0 then (0, node)
  else
    let seqOffset := (pocket.sequence - node.receivedSequence).toInt
    if 0 < seqOffset then (0, node.addtoPreList pocket)
    else if seqOffset < 0 then (0, node.sendAck.2)
    else if node.recvBuffer.freeCapacity < pocket.data.length then (0, node)
    else
      let stored := node.storeData pocket.data
      (stored.1,
        if stored.2.preList.isEmpty then stored.2
        else stored.2.trytoFetchPrelist)

/-- `udt_send` of a buffer that is not `NULL`. -/
def send (node : UdtNode) (data : List Byte) : Int × UdtNode :=
  if node.status < established || node.status.has finsend then
    (-1, { node with myerrno := .closed })
  else if data.length < 1 ∨ node.sendBuffer.capacity ≤ data.length then
    (-1, { node with myerrno := .invalidInput })
  else
    let written := node.sendBuffer.write data .specified (fun _ => none)
    (written.1, { node with myerrno := .success, sendBuffer := written.2 })

/-- `send_window_start`: the offset behind the data sent already and the
number of bytes to send. -/
def sendWindowStart (node : UdtNode) : Option (Nat × Nat) :=
  let unAck := (node.sendSequence - node.acknowledgedSeq).toNat
  if node.sendBuffer.datalen ≤ unAck then none
  else
    some (unAck,
      min node.windowLen
        (min (node.sendBuffer.datalen - unAck) udtFragmentLen))

/-- The bytes of the send buffer from `offset` on, as `sendto` reads them. -/
def sendBytes (node : UdtNode) (offset len : Nat) : List Byte :=
  slice node.sendBuffer.storage (node.sendBuffer.startOff + offset)
    (node.sendBuffer.startOff + offset + len)

/-- `if((int)window_len < 0) window_len = 0` -/
def windowNotNegative (windowLen : Nat) : Nat :=
  if intOfSize windowLen < 0 then 0 else windowLen

/-- The pocket `flush_send_window` puts in front of the unsent data. -/
def windowPocket (node : UdtNode) (offset len : Nat) : UdtPocket :=
  let header :=
    if node.needAck then UdtPocket.init.setAck node.receivedSequence
    else UdtPocket.init
  { header with
    sequence := node.sendSequence
    data := node.sendBytes offset len }

def flushSendWindow (node : UdtNode) : Int × UdtNode :=
  if node.status.has sendclose || node.isRetranslate then (0, node)
  else
    match node.sendWindowStart with
    | none => (0, node)
    | some (unAck, len) =>
      if len = 0 then (0, node)
      else
        let written := writePocketToSocket { node with needAck := false }
          (node.windowPocket unAck len)
        if written.1 = -1 then written
        else
          (written.1,
            { written.2 with
              lastResendTm := written.2.lastActive
              sendSequence := node.sendSequence + BitVec.ofNat 32 len
              windowLen := windowNotNegative (node.windowLen - len) })

/-- `while (flush_send_window(socket_node) > 0){}` with a bound on the number
of rounds. -/
def flushRounds : Nat → UdtNode → UdtNode
  | 0, node => node
  | rounds + 1, node =>
    let flushed := node.flushSendWindow
    if 0 < flushed.1 then flushRounds rounds flushed.2 else flushed.2

/-- The loop itself: every round that sends makes the window smaller. -/
def flushAll (node : UdtNode) : UdtNode :=
  flushRounds (node.windowLen + 1) node

/-- The number of bytes `retranslate_data` wants to send again. -/
def resendLen (node : UdtNode) : Int :=
  let upTo := if node.isRetranslate then node.retransSeq else node.sendSequence
  (upTo - node.acknowledgedSeq).toInt

/-- The pocket `retranslate_data` puts in front of the data.  With an ack
pending the header is 16 bytes long and its last word is filled in, but
`init_udt_pocket` then clears the flag, which turns the word into data. -/
def resendPocket (node : UdtNode) (len : Nat) : UdtPocket :=
  let word := if node.needAck then hostSeq node.receivedSequence else []
  { UdtPocket.init with
    sequence := node.acknowledgedSeq
    data := word ++ node.sendBytes 0 len }

/-- `retrans_seq` with the first `len` unacknowledged bytes sent again; the
first retransmission fixes it. -/
def resentSeq (node : UdtNode) (len : Nat) : Seq :=
  if node.isRetranslate then node.retransSeq
  else node.acknowledgedSeq + BitVec.ofNat 32 len

def retranslateData (node : UdtNode) : Int × UdtNode :=
  let marked := { node with retransSeq := node.resentSeq 0 }
  if node.resendLen ≤ 0 then (0, marked)
  else
    let len := min node.resendLen.toNat udtFragmentLen
    let written := writePocketToSocket { marked with needAck := false }
      (node.resendPocket len)
    if written.1 = -1 then (0, written.2)
    else
      (len,
        { written.2 with
          lastResendTm := written.2.lastActive
          windowLen := windowNotNegative node.windowLen
          retransSeq := node.resentSeq len })

def retranslate (node : UdtNode) : Int × UdtNode :=
  if (node.sendSequence - node.acknowledgedSeq).toInt ≤ 0 then (0, node)
  else if node.updateTm - node.lastResendTm < node.retransTimeout then
    (0, node)
  else if node.isRetranslate ∧ maxAttemptSend ≤ node.resendTimes.toNat then
    (-1, { node with myerrno := .wouldBlock })
  else
    let resent := node.retranslateData
    if 0 < resent.1 then
      if resent.2.isRetranslate then
        (resent.1,
          { resent.2 with
            resendTimes := resent.2.resendTimes + 1
            retransTimeout := resent.2.retransTimeout <<< 1 })
      else
        (resent.1, { resent.2 with isRetranslate := true, resendTimes := 1 })
    else resent

/-- The last part of `update_socket`: acknowledge what no data packet has. -/
def flushAck (node : UdtNode) : UdtNode :=
  if node.needAck then { node.sendAck.2 with needAck := false } else node

/-- The first part of `update_socket`. -/
def updateStart (node : UdtNode) : UdtNode :=
  let started := { node with updateTm := node.now, myerrno := .success }
  if started.status.has established ∧ started.preList ≠ [] then
    started.updatePrelist
  else started

def updateSocket (node : UdtNode) : Int × UdtNode :=
  let flushed := node.updateStart.flushSendWindow
  if 0 < flushed.1 then (1, flushed.2.flushAll.flushAck)
  else
    let resent := flushed.2.retranslate
    if resent.1 = -1 then (-1, resent.2) else (1, resent.2.flushAck)

/-- What `udt_send_fin` notes before it sends. -/
def markFin (node : UdtNode) : UdtNode :=
  let marked :=
    if node.status.has finsend then
      { node with isRetranslate := true, resendTimes := node.resendTimes + 1 }
    else
      { node with
        status := node.status ||| finsend
        isRetranslate := false
        resendTimes := 0 }
  { marked with resendTimes := marked.resendTimes + 1 }

def sendFin (node : UdtNode) : Int × UdtNode :=
  let written := node.markFin.writePocketToSocket
    { UdtPocket.init with
      udtType := .fin
      sequence := node.sendSequence }
  if 0 < written.1 then
    (0, { written.2 with lastResendTm := written.2.lastActive })
  else (-1, written.2)

/-- `udt_reset`; a connecting node closes its socket with `nd_udp_close`. -/
def resetUdt (node : UdtNode) (issendReset : Bool) : UdtNode :=
  let told := if issendReset then node.sendReset.2 else node
  let marked := { told with status := told.status ||| (finsend + reset) }
  if !marked.isAccept && marked.fd != 0 then
    { marked with fd := 0, status := closed }
  else marked

/-- `nd_udtnode_reset` -/
def resetNode (node : UdtNode) : UdtNode :=
  { node with
    preList := []
    myerrno := .success
    lastRecv := node.now
    localPort := 0
    status := closed
    needAck := false
    isRetranslate := false
    userDataIn := false
    resendTimes := 0
    lastResendTm := 0
    lastActive := 0
    updateTm := 0
    sendSequence := 0
    acknowledgedSeq := 0
    receivedSequence := 0
    retransSeq := 0
    windowLen := 0
    rtt := ⟨retranslateTime, 0⟩
    retransTimeout := retranslateTime * 2
    recvBuffer := node.recvBuffer.reset
    sendBuffer := node.sendBuffer.reset }

/-- The case `NDUDT_LOST` of `_udt_packet_handler` after the acknowledgement:
resend from the place the peer names. -/
def handleLost (node : UdtNode) (pocket : UdtPocket) : UdtNode :=
  let offsetLost := (pocket.sequence - node.acknowledgedSeq).toInt
  let offsetUnget := (node.sendSequence - pocket.sequence).toInt
  if offsetLost ≤ 0 ∨ offsetUnget < 0 then node
  else (retranslateData { node with sendSequence := pocket.sequence }).2

def handleCarriedAck (node : UdtNode) (pocket : UdtPocket) : UdtNode :=
  if pocket.ack then node.handleAck pocket.ackSeq else node

/-- The case `NDUDT_DATA` of `_udt_packet_handler`. -/
def handleData (node : UdtNode) (pocket : UdtPocket) : Int × UdtNode :=
  let income := (node.handleCarriedAck pocket).handleIncomeData pocket
  (income.1, if 0 < income.1 then income.2.flushAll else income.2)

/-- The case `NDUDT_FIN` of `_udt_packet_handler`. -/
def handleFin (node : UdtNode) (pocket : UdtPocket) : Int × UdtNode :=
  let acked := node.handleCarriedAck pocket
  let marked :=
    if acked.status.has recvclose then acked
    else
      let status := acked.status ||| recvclose
      { acked with
        receivedSequence := pocket.sequence
        status :=
          if status.has (sendclose + finsend) then status ||| reset
          else status }
  (-1, { marked.sendAck.2 with myerrno := .closed })

/-- The `switch` of `_udt_packet_handler`. -/
def dispatch (node : UdtNode) (pocket : UdtPocket) : Int × UdtNode :=
  match pocket.udtType with
  | .data => node.handleData pocket
  | .dgram =>
    ((node.dataEntry.map fun entry => entry pocket.data).getD
      (intOfSize (udpPacketHeadSize + pocket.data.length)), node)
  | .syn => node.handleSyn pocket
  | .ack => (0, node.handleAck pocket.ackSeq)
  | .lost => (0, (node.handleAck pocket.ackSeq).handleLost pocket)
  | .fin => node.handleFin pocket
  | .reset =>
    (-1, { node with status := node.status ||| reset, myerrno := .reset })
  | .alive | .unknown => (0, node)

/-- What `_udt_packet_handler` notes before it looks at the type. -/
def noteArrival (node : UdtNode) (pocket : UdtPocket) : UdtNode :=
  { node with
    lastRecv := node.now
    updateTm := node.now
    myerrno := .success
    windowLen :=
      if 0 < pocket.windowLen then pocket.windowLen else node.windowLen }

def packetHandler (node : UdtNode) (pocket : UdtPocket) : Int × UdtNode :=
  if node.status.has reset then (0, node.sendReset.2)
  else
    let handled := (node.noteArrival pocket).dispatch pocket
    if handled.1 = -1 ∧ handled.2.myerrno = .badpacket then (0, handled.2)
    else handled

/-- The part of `udt_recv` behind the wait: hand out buffered bytes. -/
def recv (node : UdtNode) (size : Nat) : List Byte × UdtNode :=
  if 0 < node.recvBuffer.datalen then
    let taken := node.recvBuffer.read size .all
    (taken.2.1, { node with recvBuffer := taken.2.2 })
  else ([], node)

end UdtNode

end NdNet

import NdNet.Common.NodeMgr
import NdNet.Udt.StreamRuns

/-!
# The UDT listener

`udt_srv.c` and `udp_listen.c`: one thread reads the datagrams that come to the
socket of the server, hands each to the session whose id it names and, for a
connect, allocates a session.  In between it updates the sessions linked in its
`sessions_list`.

Sessions are kept on a heap, under the address they were allocated at; the
node manager hands out their ids.  Beside this the listener remembers which
sessions were given back to the allocator and which callbacks were called.
Every step gets a moment from outside: the time, and what the operating system
says to the writes of a node.
-/

namespace NdNet

/-- The union of `sockaddr_in` and `sockaddr_in6`.  Address and port are in
network order and only compared; an IPv6 address is two words. -/
inductive SockAddr where
  | inet (port : UInt16) (addr : UInt32)
  | inet6 (port : UInt16) (high low : UInt64)
  | other (family : UInt16)
  deriving DecidableEq, Repr

namespace SockAddr

/-- `nd_sockadd_in_cmp`.  For IPv6 the port of the first address is compared
with itself. -/
def cmp : SockAddr → SockAddr → Int
  | .inet port addr, .inet port' addr' =>
    if port = port' ∧ addr = addr' then 0 else 1
  | .inet6 _ high low, .inet6 _ high' low' =>
    if high ≠ high' ∨ low ≠ low' then 1 else 0
  | _, _ => 1

/-- The copy of `sizeof(SOCKADDR_IN)` bytes into a cleared address: the second
half of an IPv6 address is left out. -/
def copyIn : SockAddr → SockAddr
  | .inet6 port high _ => .inet6 port high 0
  | addr => addr

end SockAddr

/-- `struct udt_packet_info` after `read_datagram`. -/
structure UdtPacketInfo where
  addr : SockAddr
  pocket : UdtPocket
  deriving DecidableEq, Repr

/-- `_udt_packet_info_size`: 32 bytes stand in front of the packet. -/
def UdtPacketInfo.size (info : UdtPacketInfo) : Nat :=
  32 + (info.pocket.headerSize + info.pocket.data.length)

/-- `NDUDT_BUFFER_SIZE` -/
def udtBufferSize : Nat := udtFragmentLen

/-- `struct nd_session_udt` -/
structure UdtSession where
  node : UdtNode
  remoteAddr : SockAddr

/-- The time of a step, and the results of the writes of the session at an
address. -/
structure Moment where
  now : NdTime
  writes : Nat → List UdpResult

/-- What `handle_recv_data` does with the received data: the number of bytes it
takes off and its result. -/
structure DataHandled where
  taken : Nat
  result : Int
  deriving DecidableEq, Repr

inductive UdtCallback where
  | connectIn
  | connectOut
  deriving DecidableEq, Repr

/-- The listener with the thread that runs it. -/
structure UdtListener where
  thid : Nat
  fd : Nat
  connManager : NodeMgr Nat
  heap : Nat → UdtSession
  /-- The number of sessions allocated so far. -/
  allocated : Nat
  /-- The sessions given back to the allocator. -/
  freed : List Nat
  sessionsList : List Nat
  sessionNum : Int
  callbacks : List (Nat × UdtCallback)

namespace UdtNode

open NetStat

/-- The node `alloc_listen_socket` makes, with the buffers of
`nd_session_udt_init`. -/
def allocListen (fd : Nat) : UdtNode :=
  { fd := fd
    status := listen
    myerrno := .success
    isAccept := true
    acceptProc := true
    needAck := false
    isRetranslate := false
    userDataIn := false
    resendTimes := 0
    localPort := 0
    retransTimeout := retranslateTime * 2
    lastResendTm := 0
    lastActive := 0
    lastRecv := 0
    updateTm := 0
    sendSequence := 0
    acknowledgedSeq := 0
    receivedSequence := 0
    retransSeq := 0
    windowLen := 0
    rtt := ⟨retranslateTime, 0⟩
    preList := []
    recvBuffer := newBuffer
    sendBuffer := newBuffer
    dataEntry := none
    now := 0
    writeResults := []
    wire := [] }

/-- The node, with what a moment has for the session at `addr`. -/
def atMoment (node : UdtNode) (moment : Moment) (addr : Nat) : UdtNode :=
  { node with now := moment.now, writeResults := moment.writes addr }

def isReset (node : UdtNode) : Bool :=
  node.status = reset

def updateUdtSession (node : UdtNode) : Int × UdtNode :=
  if node.status = established then
    let updated := node.updateSocket
    if updated.1 = -1 then (0, updated.2.resetUdt false) else (0, updated.2)
  else if node.status < established then
    if node.retransTimeout < node.now - node.lastRecv then
      (0, node.resetUdt false)
    else (0, node)
  else if node.status.has reset then (-1, node)
  else if node.status.has finsend && !node.status.has sendclose then
    if node.resendTimes.toNat < 2 then
      if node.retransTimeout < node.now - node.lastResendTm then
        (0, node.sendFin.2)
      else (0, node)
    else (-1, node)
  else (0, node)

/-- `_close_listend_socket` before the callback. -/
def closeListendSocket (node : UdtNode) (force : Bool) : UdtNode :=
  if force || (node.status.has established && !node.status.has sendclose) then
    node.sendFin.2
  else node.resetUdt true

/-- What `nd_session_close` notes before the node is closed. -/
def noteClose (node : UdtNode) : UdtNode :=
  if node.myerrno = .success then { node with myerrno := .closed } else node

/-- `socket_node->status &= ~NETSTAT_ESTABLISHED` -/
def clearEstablished (node : UdtNode) : UdtNode :=
  { node with status := node.status &&& ~~~established }

/-- `UDT_RECV_USER_DATA(socket_node) = 0` -/
def clearUserData (node : UdtNode) : UdtNode :=
  { node with userDataIn := false }

/-- The node after `handle_recv_data` has taken bytes off. -/
def takeUserData (node : UdtNode) (taken : Nat) : UdtNode :=
  { node with recvBuffer := node.recvBuffer.subData taken }

def noteSyn (node : UdtNode) (moment : Moment) (addr : Nat) : UdtNode :=
  { node.atMoment moment addr with
    lastRecv := moment.now
    updateTm := moment.now }

/-- `_deinit_udt_socket` -/
def deinit (node : UdtNode) : UdtNode :=
  { node with
    preList := []
    status := closed
    recvBuffer := node.recvBuffer.reset
    sendBuffer := node.sendBuffer.reset }

end UdtNode

namespace UdtListener

open NetStat

/-- A listener as it starts, with a node manager for `maxNum` sessions. -/
def create (thid fd maxNum startId : Nat) : UdtListener :=
  { thid := thid
    fd := fd
    connManager := ⟨NodeRoot.create maxNum startId, []⟩
    heap := fun _ => ⟨UdtNode.allocListen fd, .other 0⟩
    allocated := 0
    freed := []
    sessionsList := []
    sessionNum := 0
    callbacks := [] }

def lock (listener : UdtListener) (localPort : UInt16) : Option Nat :=
  listener.connManager.root.lock listener.thid localPort.toNat

def setNode (listener : UdtListener) (addr : Nat) (node : UdtNode) :
    UdtListener :=
  { listener with
    heap := fun other =>
      if other = addr then { listener.heap addr with node := node }
      else listener.heap other }

def addtoThreadPool (listener : UdtListener) (addr : Nat) : UdtListener :=
  { listener with
    sessionNum := listener.sessionNum + 1
    sessionsList := listener.sessionsList ++ [addr] }

def delfromThreadPool (listener : UdtListener) (addr : Nat) : UdtListener :=
  { listener with
    sessionNum := listener.sessionNum - 1
    sessionsList := listener.sessionsList.filter (fun other => other ≠ addr) }

def call (listener : UdtListener) (addr : Nat) (callback : UdtCallback) :
    UdtListener :=
  { listener with callbacks := listener.callbacks ++ [(addr, callback)] }

/-- The call of `connect_out_callback` in `_close_listend_socket` and
`release_dead_node`. -/
def connectOut (listener : UdtListener) (addr : Nat) : UdtListener :=
  let node := (listener.heap addr).node
  if node.status.has established then
    (listener.call addr .connectOut).setNode addr node.clearEstablished
  else listener

def releaseDeadNode (listener : UdtListener) (addr : Nat) : UdtListener :=
  let localPort := (listener.heap addr).node.localPort
  if localPort = 0 then listener
  else
    let told := listener.connectOut addr
    let released :=
      { told with
        connManager := told.connManager.nodeStep (.deaccept localPort.toNat)
        freed := told.freed ++ [addr] }
    released.setNode addr (released.heap addr).node.deinit

/-- `accept_udt`: the session is linked and the user told.  The answer of the
callback only sets the error number. -/
def acceptUdt (listener : UdtListener) (addr : Nat) : UdtListener :=
  (listener.addtoThreadPool addr).call addr .connectIn

/-- `nd_session_close` with `_close_listend_socket` as `close_entry`. -/
def closeSession (listener : UdtListener) (addr : Nat) (force : Bool) :
    UdtListener :=
  let closed := listener.setNode addr
    ((listener.heap addr).node.noteClose.closeListendSocket force)
  if (closed.heap addr).node.localPort = 0 then closed
  else closed.connectOut addr

/-- `_handle_ack` has called `accept_proc`: a node that waited for the last
packet of the handshake is established. -/
def accepts (before after : UdtNode) : Bool :=
  before.status = synrecv && after.status.has established

/-- The session after a packet; `accept_proc` was called in between if the
packet ended the handshake. -/
def arrive (listener : UdtListener) (addr : Nat) (before after : UdtNode) :
    UdtListener :=
  let arrived := listener.setNode addr after
  if accepts before after then arrived.acceptUdt addr else arrived

def udtSessionDataHandle (listener : UdtListener) (addr : Nat)
    (info : UdtPacketInfo) (handled : DataHandled) : Int × UdtListener :=
  let node := (listener.heap addr).node.clearUserData
  if (listener.heap addr).remoteAddr.cmp info.addr = 0 then
    let answer := node.packetHandler info.pocket
    let arrived := listener.arrive addr node answer.2
    if answer.1 = -1 then (-1, arrived)
    else if answer.2.userDataIn then
      (handled.result,
        arrived.setNode addr (answer.2.takeUserData handled.taken))
    else (answer.1, arrived)
  else (0, listener.setNode addr node)

/-- `data_handle`.  A session of another thread is left to that thread. -/
def dataHandle (listener : UdtListener) (moment : Moment)
    (info : UdtPacketInfo) (handled : DataHandled) : Int × UdtListener :=
  match listener.lock info.pocket.localPort with
  | none => (0, listener)
  | some addr =>
    let present := listener.setNode addr
      ((listener.heap addr).node.atMoment moment addr)
    let answer := present.udtSessionDataHandle addr info handled
    if answer.1 = -1 then (-1, answer.2.closeSession addr true) else answer

/-- The begin of a session: the part of `pump_insrv_udt_data` for a connect
without a port.  Without a free id the memory is not given back. -/
def acceptSyn (listener : UdtListener) (moment : Moment)
    (info : UdtPacketInfo) : Int × UdtListener :=
  let addr := listener.allocated
  let conns := listener.connManager.nodeStep (.accept listener.thid addr)
  let localPort := (listener.connManager.root.accept listener.thid addr).1
  let alloc := { listener with allocated := listener.allocated + 1 }
  if localPort = 0 then (0, { alloc with connManager := conns })
  else
    let node :=
      { (UdtNode.allocListen listener.fd).noteSyn moment addr with
        localPort := UInt16.ofNat localPort }
    (0,
      { alloc with
        connManager := conns
        heap := fun other =>
          if other = addr then
            ⟨(node.handleSyn info.pocket).2, info.addr.copyIn⟩
          else listener.heap other })

/-- The part of `pump_insrv_udt_data` for a connect that names a session.  The
source address is not looked at. -/
def repeatSyn (listener : UdtListener) (moment : Moment)
    (info : UdtPacketInfo) (addr : Nat) : Int × UdtListener :=
  let answer :=
    ((listener.heap addr).node.noteSyn moment addr).handleSyn info.pocket
  if answer.1 = -1 then
    (-1, (listener.setNode addr (answer.2.resetUdt false)).releaseDeadNode addr)
  else (0, listener.setNode addr answer.2)

/-- `pump_insrv_udt_data`; `memory` says that a session can be allocated. -/
def pumpInsrvUdtData (listener : UdtListener) (moment : Moment)
    (info : UdtPacketInfo) (memory : Bool) (handled : DataHandled) :
    Int × UdtListener :=
  if info.pocket.udtType = .syn then
    if info.pocket.localPort = 0 then
      if memory then listener.acceptSyn moment info else (0, listener)
    else
      match listener.lock info.pocket.localPort with
      | none => listener.dataHandle moment info handled
      | some addr => listener.repeatSyn moment info addr
  else listener.dataHandle moment info handled

/-- The body of the loop of `update_udt_sessions`. -/
def updateClient (moment : Moment) (listener : UdtListener) (addr : Nat) :
    UdtListener :=
  let node := (listener.heap addr).node.atMoment moment addr
  if node.isReset then (listener.delfromThreadPool addr).releaseDeadNode addr
  else
    let updated := listener.setNode addr node.updateUdtSession.2
    if node.updateUdtSession.1 = -1 then updated.closeSession addr true
    else updated

/-- `update_udt_sessions`; the next link is read before a session is
unlinked. -/
def updateUdtSessions (listener : UdtListener) (moment : Moment) :
    UdtListener :=
  listener.sessionsList.foldl (updateClient moment) listener

/-- `udt_connector_send` of a stream message to a session. -/
def sendSession (listener : UdtListener) (moment : Moment)
    (localPort : UInt16) (data : List Byte) : UdtListener :=
  match listener.lock localPort with
  | none => listener
  | some addr =>
    let answer := ((listener.heap addr).node.atMoment moment addr).send data
    listener.setNode addr
      (if 0 ≤ answer.1 then answer.2.flushSendWindow.2 else answer.2)

/-- `nd_session_closeex` for a session of this thread. -/
def closeSessionId (listener : UdtListener) (moment : Moment)
    (localPort : UInt16) (force : Bool) : UdtListener :=
  match listener.lock localPort with
  | none => listener
  | some addr =>
    (listener.setNode addr
      ((listener.heap addr).node.atMoment moment addr)).closeSession addr force

/-- `msg_udt_packate_handler`: a packet that another thread has read; with what
is in front of it, it must be no larger than the buffer of a packet. -/
def msgUdtPackateHandler (listener : UdtListener) (moment : Moment)
    (info : UdtPacketInfo) (handled : DataHandled) : UdtListener :=
  if udtBufferSize < info.size ∨ info.pocket.localPort = 0 then listener
  else
    match listener.lock info.pocket.localPort with
    | none => listener
    | some addr =>
      let present := listener.setNode addr
        ((listener.heap addr).node.atMoment moment addr)
      (present.udtSessionDataHandle addr info handled).2

end UdtListener

/-- The steps of the listener's thread. -/
inductive ListenerStep where
  | pump (moment : Moment) (info : UdtPacketInfo) (memory : Bool)
      (handled : DataHandled)
  | forward (moment : Moment) (info : UdtPacketInfo) (handled : DataHandled)
  | update (moment : Moment)
  | send (moment : Moment) (localPort : UInt16) (data : List Byte)
  | close (moment : Moment) (localPort : UInt16) (force : Bool)

namespace UdtListener

def step (listener : UdtListener) : ListenerStep → UdtListener
  | .pump moment info memory handled =>
    (listener.pumpInsrvUdtData moment info memory handled).2
  | .forward moment info handled =>
    listener.msgUdtPackateHandler moment info handled
  | .update moment => listener.updateUdtSessions moment
  | .send moment localPort data => listener.sendSession moment localPort data
  | .close moment localPort force =>
    listener.closeSessionId moment localPort force

end UdtListener

end NdNet

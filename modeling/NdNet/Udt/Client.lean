import NdNet.Udt.Status

/-!
# The connecting side

`udt_connect` and the loops that read the socket of a client.  The socket is
connected with `connect` when it is opened, so that the system hands out only
datagrams that come from the address of the server.  `_udt_syn` sends up to
three connects and reads at most one packet after each.
-/

namespace NdNet

/-- A node that connects or has connected. -/
structure UdtClient where
  node : UdtNode
  /-- `remote_addr6`, the address the socket is connected to. -/
  remoteAddr : SockAddr
  /-- `_udt_syn` is running. -/
  connecting : Bool
  /-- The connects it has sent. -/
  attempts : Nat
  /-- It waits for the answer to the last one. -/
  waiting : Bool

/-- The steps of a client; those of `udt_close` among them are `fin` and
`reset`. -/
inductive ClientStep where
  | syn (moment : Moment)
  | timeout
  | datagram (moment : Moment) (info : UdtPacketInfo)
  | update (moment : Moment)
  | send (data : List Byte)
  | recv (size : Nat)
  | fin (moment : Moment)
  | reset (moment : Moment) (issendReset : Bool)

namespace UdtNode

open NetStat

/-- `nd_udtnode_init` and `nd_udp_connect`; `udt_connect` takes the sequence
number as it finds it. -/
def connectorInit (fd : Nat) (sequence : Seq) : UdtNode :=
  { allocListen fd with
    status := closed
    isAccept := false
    acceptProc := false
    sendSequence := sequence }

/-- The connect `_udt_syn` sends. -/
def sendSyn (node : UdtNode) : Int × UdtNode :=
  node.writePocketToSocket
    { UdtPocket.init with
      udtType := .syn
      sequence := node.sendSequence }

/-- What `nd_udp_read` notes. -/
def noteRead (node : UdtNode) (moment : Moment) : UdtNode :=
  { node.atMoment moment 0 with lastRecv := moment.now }

/-- The tests of `_wait_data` on a packet. -/
def waitData (node : UdtNode) (remoteAddr : SockAddr) (info : UdtPacketInfo) :
    Int × UdtNode :=
  if remoteAddr.cmp info.addr ≠ 0 then (-1, { node with myerrno := .badpacket })
  else if node.localPort ≠ 0 then
    if node.localPort ≠ info.pocket.localPort then
      (-1, { node with myerrno := .badpacket })
    else (1, { node with updateTm := node.lastRecv })
  else if info.pocket.udtType ≠ .syn then
    (-1, { node with myerrno := .badpacket })
  else (1, { node with updateTm := node.lastRecv })

/-- `udt_recv` and `udt_wait_packet` with one packet. -/
def waitPacket (node : UdtNode) (remoteAddr : SockAddr)
    (info : UdtPacketInfo) : Int × UdtNode :=
  let waited := node.waitData remoteAddr info
  if waited.1 = -1 then waited else waited.2.packetHandler info.pocket

end UdtNode

namespace UdtClient

open NetStat

/-- A client that enters `_udt_syn`. -/
def connect (fd : Nat) (sequence : Seq) (remoteAddr : SockAddr) : UdtClient :=
  { node := UdtNode.connectorInit fd sequence
    remoteAddr := remoteAddr
    connecting := true
    attempts := 0
    waiting := false }

/-- What `recvfrom` hands out on the connected socket. -/
def received (client : UdtClient) (info : UdtPacketInfo) :
    Option UdtPacketInfo :=
  if info.addr = client.remoteAddr then some info else none

/-- One round of `_udt_syn` begins. -/
def sendSyn (client : UdtClient) (moment : Moment) : UdtClient :=
  if client.connecting && !client.waiting then
    if client.attempts < 3 then
      let sent := (client.node.atMoment moment 0).sendSyn
      if sent.1 = -1 then
        { client with
          node := sent.2
          connecting := false }
      else
        { client with
          node := { sent.2 with status := synsend }
          attempts := client.attempts + 1
          waiting := true }
    else { client with connecting := false }
  else client

/-- The packet a round of `_udt_syn` waits for.  Its source is not looked at. -/
def readSyn (client : UdtClient) (moment : Moment) (info : UdtPacketInfo) :
    UdtClient :=
  let answer := (client.node.noteRead moment).packetHandler info.pocket
  { client with
    node := answer.2
    waiting := false
    connecting := !(0 ≤ answer.1 && answer.2.status = established) }

/-- A datagram reaches the socket.  While `_udt_syn` is not waiting it stays in
the queue of the system. -/
def datagram (client : UdtClient) (moment : Moment) (info : UdtPacketInfo) :
    UdtClient :=
  match client.received info with
  | none => client
  | some info =>
    if client.connecting then
      if client.waiting then client.readSyn moment info else client
    else
      { client with
        node := ((client.node.noteRead moment).waitPacket client.remoteAddr
          info).2 }

def step (client : UdtClient) : ClientStep → UdtClient
  | .syn moment => client.sendSyn moment
  | .timeout =>
    if client.connecting then { client with waiting := false } else client
  | .datagram moment info => client.datagram moment info
  | .update moment =>
    if client.connecting then client
    else
      { client with node := (client.node.atMoment moment 0).updateSocket.2 }
  | .send data =>
    if client.connecting then client
    else { client with node := (client.node.send data).2 }
  | .recv size =>
    if client.connecting then client
    else { client with node := (client.node.recv size).2 }
  | .fin moment =>
    if client.connecting then client
    else { client with node := (client.node.atMoment moment 0).sendFin.2 }
  | .reset moment issendReset =>
    if client.connecting then client
    else
      { client with
        node := (client.node.atMoment moment 0).resetUdt issendReset }

theorem datagram_foreign {client : UdtClient} {info : UdtPacketInfo}
    (foreign : info.addr ≠ client.remoteAddr) (moment : Moment) :
    client.datagram moment info = client := by
  unfold datagram received
  rw [if_neg foreign]

end UdtClient

end NdNet

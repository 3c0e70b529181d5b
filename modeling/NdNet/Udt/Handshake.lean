import NdNet.Udt.Isolation
import NdNet.Udt.ListenerRuns

/-!
# The handshake

One client and a listener.  The network may lose, repeat and reorder: what a
side has sent so far may arrive at any time, any number of times, or never.
Every connect makes the listener allocate a session; the client answers the
first of the connect-acks it gets, and only the session named there is ever
established.  As long as no data is sent, both then agree on their numbers.
-/

namespace NdNet

namespace UdtNode

open NetStat

/-- The part of a node that the handshake is about. -/
structure ShakeView where
  status : NetStat
  localPort : UInt16
  acceptProc : Bool
  needAck : Bool
  isRetranslate : Bool
  sendSequence : Seq
  acknowledgedSeq : Seq
  receivedSequence : Seq
  buffered : Nat
  wire : List UdtPocket

def shakeView (node : UdtNode) : ShakeView :=
  { status := node.status
    localPort := node.localPort
    acceptProc := node.acceptProc
    needAck := node.needAck
    isRetranslate := node.isRetranslate
    sendSequence := node.sendSequence
    acknowledgedSeq := node.acknowledgedSeq
    receivedSequence := node.receivedSequence
    buffered := node.sendBuffer.datalen
    wire := node.wire }

structure ShakeView.Idle (view : ShakeView) : Prop where
  needAck : view.needAck = false
  isRetranslate : view.isRetranslate = false
  buffered : view.buffered = 0

section Idle

variable {node : UdtNode}

theorem writePocketToSocket_shakeView (pocket : UdtPocket) :
    ∃ sent : List UdtPocket,
      (∀ packet ∈ sent, packet =
        { pocket with
          localPort := node.localPort
          windowLen :=
            if pocket.udtType = .dgram then pocket.windowLen
            else node.sendWindow }) ∧
      (node.writePocketToSocket pocket).2.shakeView =
        { node.shakeView with wire := node.wire ++ sent } := by
  unfold writePocketToSocket
  cases node.writeResults.head?.getD .sent with
  | sent => exact ⟨[_], fun _ member => List.mem_singleton.mp member, rfl⟩
  | wouldBlock | failed => exact ⟨[], by simp, by simp [shakeView]⟩

theorem updateStart_shakeView :
    node.updateStart.shakeView = node.shakeView := by
  unfold updateStart
  dsimp only
  split <;> rfl

theorem updateSocket_idle (idle : node.shakeView.Idle)
    (acknowledged : node.sendSequence = node.acknowledgedSeq) :
    node.updateSocket.1 = 1 ∧
      node.updateSocket.2.shakeView = node.shakeView := by
  have start := @updateStart_shakeView node
  have empty : node.updateStart.sendBuffer.datalen = 0 :=
    (congrArg ShakeView.buffered start).trans idle.buffered
  have quiet : node.updateStart.needAck = false :=
    (congrArg ShakeView.needAck start).trans idle.needAck
  have sent : node.updateStart.sendSequence =
      node.updateStart.acknowledgedSeq :=
    (congrArg ShakeView.sendSequence start).trans
      (acknowledged.trans (congrArg ShakeView.acknowledgedSeq start).symm)
  have flushed : node.updateStart.flushSendWindow = (0, node.updateStart) := by
    have none : node.updateStart.sendWindowStart = none :=
      if_pos (by rw [empty]; exact Nat.zero_le _)
    unfold flushSendWindow
    rw [none]
    split <;> rfl
  have resent : node.updateStart.retranslate = (0, node.updateStart) := by
    unfold retranslate
    rw [sent, BitVec.sub_self, if_pos (by decide)]
  have acked : node.updateStart.flushAck = node.updateStart := by
    unfold flushAck
    rw [quiet]
    rfl
  unfold updateSocket
  rw [flushed]
  dsimp only
  rw [if_neg (by decide), resent]
  dsimp only
  rw [if_neg (by decide), acked]
  exact ⟨rfl, start⟩

end Idle

end UdtNode

namespace UdtPocket

def IsConnect (start : Seq) (packet : UdtPocket) : Prop :=
  packet.udtType = .syn ∧ packet.localPort = 0 ∧ packet.sequence = start

def IsConnectAck (start : Seq) (packet : UdtPocket) : Prop :=
  packet.udtType = .syn ∧ packet.ack = true ∧ packet.sequence = 0 ∧
    packet.ackSeq = start + 1

end UdtPocket

namespace UdtNode

open NetStat

namespace ShakeView

/-- A client that began to connect with the number `start`. -/
structure Client (start : Seq) (client : ShakeView) : Prop where
  idle : client.Idle
  wire : ∀ packet ∈ client.wire, packet.IsConnect start ∨
    client.status = established ∧ packet.udtType = .ack ∧ packet.ackSeq = 1 ∧
      packet.localPort = client.localPort
  phase :
    client.localPort = 0 ∧ client.sendSequence = start ∧
        (client.status = closed ∧ client.receivedSequence = 0 ∨
          client.status = synsend) ∨
      client.status = established ∧ client.sendSequence = start + 1 ∧
        client.acknowledgedSeq = start + 1 ∧ client.receivedSequence = 1

/-- A session allocated for a connect of this client. -/
structure Server (start : Seq) (client server : ShakeView) : Prop where
  idle : server.Idle
  acceptProc : server.acceptProc = true
  wire : ∀ packet ∈ server.wire, packet.IsConnectAck start
  phase :
    server.status = listen ∧ server.sendSequence = 0 ∧
        server.acknowledgedSeq = 0 ∨
      server.status = synrecv ∧ server.sendSequence = 0 ∧
        server.acknowledgedSeq = 0 ∧ server.receivedSequence = start + 1 ∨
      server.status = established ∧ server.sendSequence = 1 ∧
        server.acknowledgedSeq = 1 ∧ server.receivedSequence = start + 1 ∧
        client.status = established ∧ server.localPort = client.localPort

variable {start : Seq} {client other server : ShakeView}

theorem Server.of_client (holds : Server start client server)
    (kept : client.status = established →
      other.status = established ∧ other.localPort = client.localPort) :
    Server start other server := by
  refine { holds with phase := ?_ }
  rcases holds.phase with waits | half | ⟨status, sent, acked, got, joined, port⟩
  · exact .inl waits
  · exact .inr (.inl half)
  · obtain ⟨still, same⟩ := kept joined
    exact .inr (.inr ⟨status, sent, acked, got, still, port.trans same.symm⟩)

theorem Server.not_reset (holds : Server start client server) :
    server.status.has reset = false := by
  rcases holds.phase with ⟨status, -⟩ | ⟨status, -⟩ | ⟨status, -⟩ <;>
    rw [status] <;> decide

theorem Client.not_reset (holds : Client start client) :
    client.status.has reset = false := by
  rcases holds.phase with ⟨-, -, ⟨status, -⟩ | status⟩ | ⟨status, -⟩ <;>
    rw [status] <;> decide

theorem Client.connect (holds : Client start client)
    (early : client.status ≠ established) {connects : List UdtPocket}
    (each : ∀ packet ∈ connects, packet.IsConnect start) {status : NetStat}
    (next : status = client.status ∨ status = synsend) :
    Client start
      { client with
        status := status
        wire := client.wire ++ connects } where
  idle := ⟨holds.idle.needAck, holds.idle.isRetranslate, holds.idle.buffered⟩
  wire := by
    intro packet member
    rcases List.mem_append.mp member with old | new
    · rcases holds.wire packet old with connect | ⟨joined, -⟩
      · exact .inl connect
      · exact absurd joined early
    · exact .inl (each packet new)
  phase := by
    obtain ⟨unnamed, sent, before⟩ := holds.phase.resolve_right fun joined =>
      early joined.1
    refine .inl ⟨unnamed, sent, ?_⟩
    rcases next with rfl | rfl
    · exact before
    · exact .inr rfl

end ShakeView

section Packets

variable {node : UdtNode} {start : Seq} {client : ShakeView}

theorem handleAck_userDataIn (ackSeq : Seq) :
    (node.handleAck ackSeq).userDataIn = node.userDataIn := by
  have taken : (node.takeAcknowledged ackSeq).userDataIn = node.userDataIn := by
    unfold takeAcknowledged
    split
    · split <;> rfl
    · rfl
  unfold handleAck handleNewAck
  dsimp only
  split
  · rfl
  split
  · split
    · rfl
    split <;> rfl
  split
  · split <;> rfl
  split
  · exact taken
  · exact taken

theorem handleAck_unaffected (idle : node.shakeView.Idle) (ackSeq : Seq)
    (status : node.status ≠ synrecv ∧ node.status.has finsend = false) :
    node.handleAck ackSeq = node := by
  have untaken : ¬ node.TakesOff ackSeq := by
    rintro ⟨-, buffered, -⟩
    exact Nat.lt_irrefl 0 (Nat.lt_of_lt_of_eq buffered idle.buffered)
  have kept : node.takeAcknowledged ackSeq = node := if_neg untaken
  have fresh : node.isRetranslate = false := idle.isRetranslate
  unfold handleAck handleNewAck
  rw [if_neg status.1, status.2, kept]
  dsimp only
  rw [fresh]
  simp

theorem handleAck_server (server : ShakeView.Server start client node.shakeView)
    (joined : client.status = established)
    (port : node.localPort = client.localPort) :
    ShakeView.Server start client (node.handleAck 1).shakeView := by
  rcases server.phase with ⟨status, -⟩ |
    ⟨status, sent, acked, got⟩ | ⟨status, -⟩
  · rw [handleAck_unaffected server.idle 1]
    · exact server
    · change node.status = listen at status
      rw [status]
      decide
  · have opened : node.handleAck 1 =
        { node with
          status := established
          acknowledgedSeq := 1
          sendSequence := 1 } := by
      change node.status = synrecv at status
      change node.sendSequence = 0 at sent
      change node.acknowledgedSeq = 0 at acked
      have proc : node.acceptProc = true := server.acceptProc
      unfold handleAck handleNewAck
      rw [acked, if_neg (by decide), if_pos status, if_neg (by decide), sent,
        if_pos (by decide), proc]
      rfl
    rw [opened]
    exact
      { idle := ⟨server.idle.needAck, server.idle.isRetranslate,
          server.idle.buffered⟩
        acceptProc := server.acceptProc
        wire := server.wire
        phase := .inr (.inr ⟨rfl, rfl, rfl, got, joined, port⟩) }
  · rw [handleAck_unaffected server.idle 1]
    · exact server
    · change node.status = established at status
      rw [status]
      decide

theorem packetHandler_ack {pocket : UdtPocket}
    (running : node.status.has reset = false) (ack : pocket.udtType = .ack) :
    node.packetHandler pocket =
      (0, (node.noteArrival pocket).handleAck pocket.ackSeq) := by
  unfold packetHandler dispatch
  rw [running, ack]
  simp

theorem packetHandler_syn {pocket : UdtPocket}
    (running : node.status.has reset = false) (syn : pocket.udtType = .syn) :
    node.packetHandler pocket =
      let answer := (node.noteArrival pocket).handleSyn pocket
      if answer.1 = -1 ∧ answer.2.myerrno = .badpacket then (0, answer.2)
      else answer := by
  unfold packetHandler dispatch
  rw [running, syn]
  simp

theorem handleSyn_client (client : ShakeView.Client start node.shakeView)
    {pocket : UdtPocket} (answer : pocket.IsConnectAck start) :
    (node.handleSyn pocket).2.shakeView = node.shakeView ∨
      node.status = synsend ∧ (node.handleSyn pocket).1 = 0 ∧
        ShakeView.Client start (node.handleSyn pocket).2.shakeView := by
  obtain ⟨-, ack, sequence, ackSeq⟩ := answer
  rcases client.phase with
    ⟨unnamed, sent, ⟨status, got⟩ | status⟩ | ⟨status, -⟩
  · left
    change node.status = closed at status
    change node.receivedSequence = 0 at got
    unfold handleSyn
    rw [status, if_neg (by decide), if_neg (by decide), if_pos (by decide),
      got, sequence, if_neg (by decide)]
  · right
    change node.status = synsend at status
    change node.sendSequence = start at sent
    obtain ⟨acks, each, view⟩ := @writePocketToSocket_shakeView
      { node with
        localPort := pocket.localPort
        receivedSequence := pocket.sequence + 1
        acknowledgedSeq := pocket.ackSeq
        status := established
        sendSequence := node.sendSequence + 1 }
      { UdtPocket.init.setAck (pocket.sequence + 1) with udtType := .ack }
    have accepted : ¬ (!pocket.ack || node.sendSequence + 1 != pocket.ackSeq) =
        true := by
      rw [ack, sent, ackSeq]
      simp
    unfold handleSyn
    rw [if_neg (by rw [status]; decide), if_pos status, if_neg accepted]
    refine ⟨status, rfl, ?_⟩
    refine Eq.mpr (congrArg (ShakeView.Client start) view) ?_
    refine
      { idle := ⟨client.idle.needAck, client.idle.isRetranslate,
          client.idle.buffered⟩
        wire := ?_
        phase := .inr ⟨rfl, by rw [← sent]; rfl, ackSeq, ?_⟩ }
    · intro packet member
      rcases List.mem_append.mp member with old | new
      · rcases client.wire packet old with connect | ⟨early, -⟩
        · exact .inl connect
        · change node.status = established at early
          rw [status] at early
          exact absurd early (by decide)
      · refine .inr ⟨rfl, ?_⟩
        rw [each packet new, sequence]
        exact ⟨rfl, rfl, rfl⟩
    · rw [sequence]
      rfl
  · left
    change node.status = established at status
    unfold handleSyn
    rw [if_neg (by rw [status]; decide), if_neg (by rw [status]; decide),
      if_neg (by rw [status]; decide)]
    rfl

theorem packetHandler_client (client : ShakeView.Client start node.shakeView)
    {pocket : UdtPocket} (answer : pocket.IsConnectAck start) :
    (node.packetHandler pocket).2.shakeView = node.shakeView ∨
      node.status = synsend ∧ (node.packetHandler pocket).1 = 0 ∧
        ShakeView.Client start (node.packetHandler pocket).2.shakeView := by
  have noted : (node.noteArrival pocket).shakeView = node.shakeView := rfl
  have handled := @handleSyn_client (node.noteArrival pocket) start
    (noted ▸ client) pocket answer
  rw [packetHandler_syn client.not_reset answer.1]
  dsimp only
  rcases handled with same | ⟨status, result, connected⟩
  · left
    split
    · exact same
    · exact same
  · right
    rw [if_neg (by rw [result]; simp)]
    exact ⟨status, result, connected⟩

theorem sendSyn_shakeView (client : ShakeView.Client start node.shakeView)
    (early : node.status ≠ established) :
    ∃ connects : List UdtPocket, (∀ packet ∈ connects, packet.IsConnect start) ∧
      node.sendSyn.2.shakeView =
        { node.shakeView with wire := node.wire ++ connects } := by
  obtain ⟨connects, each, view⟩ := @writePocketToSocket_shakeView node
    { UdtPocket.init with
      udtType := .syn
      sequence := node.sendSequence }
  refine ⟨connects, ?_, view⟩
  rcases client.phase with ⟨unnamed, sent, -⟩ | ⟨status, -⟩
  · intro packet member
    rw [each packet member]
    exact ⟨rfl, unnamed, sent⟩
  · exact absurd status early

end Packets

end UdtNode

variable {info : UdtPacketInfo}

namespace UdtClient

open NetStat UdtNode

/-- The invariant of a client that connects with the number `start`. -/
structure Connects (start : Seq) (client : UdtClient) : Prop where
  node : ShakeView.Client start client.node.shakeView
  connected : client.node.status = established → client.connecting = false

def Stays (before after : UdtClient) : Prop :=
  before.node.status = established →
    after.node.status = established ∧
      after.node.localPort = before.node.localPort

section Connects

variable {client : UdtClient} {start : Seq}

theorem Connects.of_shakeView (connects : client.Connects start)
    {after : UdtClient} (same : after.node.shakeView = client.node.shakeView)
    (connecting : client.connecting = false → after.connecting = false) :
    after.Connects start ∧ client.Stays after := by
  have status : after.node.status = client.node.status :=
    congrArg ShakeView.status same
  have port : after.node.localPort = client.node.localPort :=
    congrArg ShakeView.localPort same
  refine ⟨⟨same ▸ connects.node, ?_⟩, ?_⟩
  · intro joined
    exact connecting (connects.connected (status.symm.trans joined))
  · intro joined
    exact ⟨status.trans joined, port⟩

theorem Connects.sendSyn (connects : client.Connects start) (moment : Moment) :
    (client.sendSyn moment).Connects start ∧
      client.Stays (client.sendSyn moment) := by
  unfold UdtClient.sendSyn
  split
  next round =>
    have connecting : client.connecting = true := (Bool.and_eq_true_iff.mp round).1
    have early : client.node.status ≠ established := by
      intro joined
      rw [connects.connected joined] at connecting
      exact Bool.false_ne_true connecting
    split
    · obtain ⟨sent, each, view⟩ := @sendSyn_shakeView
        (client.node.atMoment moment 0) start connects.node early
      dsimp only
      split
      · refine ⟨⟨?_, fun _ => rfl⟩, fun joined => absurd joined early⟩
        exact Eq.mpr (congrArg (ShakeView.Client start) view)
          (connects.node.connect early each (.inl rfl))
      · have waits := congrArg
          (fun view : ShakeView => { view with status := synsend }) view
        refine ⟨⟨?_, ?_⟩, fun joined => absurd joined early⟩
        · exact Eq.mpr (congrArg (ShakeView.Client start) waits)
            (connects.node.connect early each (.inr rfl))
        · intro joined
          exact absurd (show synsend = established from joined) (by decide)
    · exact connects.of_shakeView rfl fun _ => rfl
  next idle => exact connects.of_shakeView rfl id

theorem waitData_shakeView {node : UdtNode} (remoteAddr : SockAddr)
    (info : UdtPacketInfo) :
    (node.waitData remoteAddr info).2.shakeView = node.shakeView := by
  unfold waitData
  split
  · rfl
  split
  · split <;> rfl
  split <;> rfl

/-- A connect-ack reaches the client, in `_udt_syn` or behind it. -/
theorem Connects.datagram (connects : client.Connects start) (moment : Moment)
    (answer : info.pocket.IsConnectAck start) :
    (client.datagram moment info).Connects start ∧
      client.Stays (client.datagram moment info) := by
  unfold UdtClient.datagram received
  by_cases home : info.addr = client.remoteAddr
  · rw [if_pos home]
    dsimp only
    split
    next connecting =>
      split
      · have early : client.node.status ≠ established := by
          intro joined
          rw [connects.connected joined] at connecting
          exact Bool.false_ne_true connecting
        unfold readSyn
        rcases @packetHandler_client (client.node.noteRead moment) start
          connects.node info.pocket answer with
          same | ⟨waiting, result, connected⟩
        · refine ⟨⟨?_, ?_⟩, fun joined => absurd joined early⟩
          · exact Eq.mpr (congrArg (ShakeView.Client start) same) connects.node
          · intro joined
            exact absurd ((congrArg ShakeView.status same).symm.trans joined)
              early
        · refine ⟨⟨connected, ?_⟩, fun joined => absurd joined early⟩
          intro joined
          dsimp only at joined ⊢
          rw [result, joined]
          rfl
      · exact connects.of_shakeView rfl id
    next connected =>
      unfold waitPacket
      have waited := @waitData_shakeView (client.node.noteRead moment)
        client.remoteAddr info
      dsimp only
      split
      · exact connects.of_shakeView waited id
      rcases @packetHandler_client ((client.node.noteRead moment).waitData
          client.remoteAddr info).2 start
        (Eq.mpr (congrArg (ShakeView.Client start) waited) connects.node)
        info.pocket answer with same | ⟨waiting, -, joins⟩
      · exact connects.of_shakeView (same.trans waited) id
      · have early : client.node.status ≠ established := by
          intro joined
          have status := (congrArg ShakeView.status waited).symm.trans waiting
          exact absurd (joined.symm.trans status) (by decide)
        exact ⟨⟨joins, fun _ => eq_false_of_ne_true connected⟩,
          fun joined => absurd joined early⟩
  · rw [if_neg home]
    exact connects.of_shakeView rfl id

theorem Connects.update (connects : client.Connects start)
    (joined : client.node.status = established) (moment : Moment) :
    (client.node.atMoment moment 0).updateSocket.2.shakeView =
      client.node.shakeView := by
  refine (@updateSocket_idle (client.node.atMoment moment 0)
    connects.node.idle ?_).2
  rcases connects.node.phase with ⟨-, -, ⟨status, -⟩ | status⟩ |
    ⟨-, sent, acked, -⟩
  · exact absurd (joined.symm.trans status) (by decide)
  · exact absurd (joined.symm.trans status) (by decide)
  · exact sent.trans acked.symm

end Connects

end UdtClient

namespace SessionView

open NetStat UdtNode

/-- The invariant of a session of this client. -/
structure Serves (start : Seq) (client : ShakeView) (view : SessionView) :
    Prop where
  node : ShakeView.Server start client view.session.node.shakeView
  held : view.session.node.status ≠ listen → view.held = true

section Serves

variable {view : SessionView} {start : Seq} {client : ShakeView}

theorem Serves.handle (serves : view.Serves start client)
    (ack : info.pocket.udtType = .ack) (ackSeq : info.pocket.ackSeq = 1)
    (joined : client.status = established)
    (port : info.pocket.localPort = client.localPort)
    (named : view.named info.pocket.localPort = true) (addr : Nat)
    (moment : Moment) (handled : DataHandled) :
    (view.handle addr moment info handled).1 = 0 ∧
      (view.handle addr moment info handled).2.Serves start client := by
  obtain ⟨held, same⟩ := Bool.and_eq_true_iff.mp named
  have home : view.session.node.localPort = client.localPort :=
    (of_decide_eq_true same).trans port
  have answer := @packetHandler_ack
    (view.session.node.atMoment moment addr).clearUserData info.pocket
    serves.node.not_reset ack
  have unread := @handleAck_userDataIn
    ((view.session.node.atMoment moment addr).clearUserData.noteArrival
      info.pocket) 1
  have joins := @handleAck_server
    ((view.session.node.atMoment moment addr).clearUserData.noteArrival
      info.pocket) start client serves.node joined home
  unfold SessionView.handle
  dsimp only
  split
  · rw [answer, ackSeq]
    dsimp only
    rw [if_neg (by decide), if_neg (by rw [unread]; exact Bool.false_ne_true)]
    exact ⟨rfl, joins, fun _ => held⟩
  · exact ⟨rfl, serves.node, serves.held⟩

theorem Serves.data (serves : view.Serves start client)
    (ack : info.pocket.udtType = .ack) (ackSeq : info.pocket.ackSeq = 1)
    (joined : client.status = established)
    (port : info.pocket.localPort = client.localPort)
    (named : view.named info.pocket.localPort = true) (addr : Nat)
    (moment : Moment) (handled : DataHandled) :
    (view.data addr moment info handled).Serves start client := by
  obtain ⟨result, kept⟩ := serves.handle ack ackSeq joined port named addr
    moment handled
  unfold SessionView.data
  rw [if_neg (by rw [result]; decide)]
  exact kept

theorem Serves.update (serves : view.Serves start client)
    (joined : view.session.node.status = established) (addr : Nat)
    (moment : Moment) :
    (view.update addr moment).Serves start client ∧
      (view.update addr moment).session.node.status = established := by
  have acknowledged : view.session.node.sendSequence =
      view.session.node.acknowledgedSeq := by
    rcases serves.node.phase with ⟨status, -⟩ | ⟨status, -⟩ |
      ⟨-, sent, acked, -⟩
    · exact absurd (joined.symm.trans status) (by decide)
    · exact absurd (joined.symm.trans status) (by decide)
    · exact sent.trans acked.symm
  obtain ⟨result, same⟩ := @updateSocket_idle
    (view.session.node.atMoment moment addr) serves.node.idle acknowledged
  have updated : (view.session.node.atMoment moment addr).updateUdtSession =
      (0, (view.session.node.atMoment moment addr).updateSocket.2) := by
    unfold updateUdtSession
    rw [if_pos (show (view.session.node.atMoment moment addr).status =
      established from joined)]
    dsimp only
    rw [result, if_neg (by decide)]
  have node : (view.update addr moment).session.node =
      (view.session.node.atMoment moment addr).updateSocket.2 := by
    unfold SessionView.update updateNode
    rw [updated, if_neg (show ¬ (0 : Int) = -1 by decide)]
    rfl
  have status := (congrArg ShakeView.status same).trans joined
  refine ⟨⟨?_, fun _ => ?_⟩, ?_⟩
  · rw [node, same]
    exact serves.node
  · refine serves.held ?_
    rw [joined]
    decide
  · rw [node]
    exact status

theorem Serves.update_rounds (serves : view.Serves start client)
    (joined : view.session.node.status = established) (addr : Nat)
    (moment : Moment) (rounds : Nat) :
    ((fun view => view.update addr moment)^[rounds] view).Serves
        start client := by
  induction rounds generalizing view with
  | zero => exact serves
  | succ rounds induction =>
    obtain ⟨updated, still⟩ := serves.update joined addr moment
    exact induction updated still

end Serves

end SessionView

namespace UdtListener

open NetStat UdtNode

/-- The invariant of a listener that this client connects to. -/
structure Serves (start : Seq) (client : ShakeView) (listener : UdtListener) :
    Prop where
  tidy : listener.Tidy
  sessions : ∀ addr, (listener.view addr).Serves start client

section Serves

variable {listener : UdtListener} {start : Seq} {client : ShakeView}

theorem handleSyn_listen {node : UdtNode} {pocket : UdtPocket}
    (waits : ShakeView.Server start client node.shakeView)
    (status : node.status = listen) (connect : pocket.sequence = start) :
    ShakeView.Server start client (node.handleSyn pocket).2.shakeView := by
  have fresh : node.sendSequence = 0 := by
    rcases waits.phase with ⟨-, sent, -⟩ | ⟨-, sent, -⟩ | ⟨joined, -⟩
    · exact sent
    · exact sent
    · exact absurd (status.symm.trans joined) (by decide)
  obtain ⟨sent, each, view⟩ := @writePocketToSocket_shakeView
    { node with
      acknowledgedSeq := node.sendSequence
      receivedSequence := pocket.sequence + 1 }
    { UdtPocket.init.setAck (pocket.sequence + 1) with
      udtType := .syn
      sequence := node.sendSequence }
  have answered := congrArg
    (fun view : ShakeView => { view with status := synrecv }) view
  unfold handleSyn
  rw [if_pos status]
  refine Eq.mpr (congrArg (ShakeView.Server start client) answered) ?_
  refine
    { idle := ⟨waits.idle.needAck, waits.idle.isRetranslate,
        waits.idle.buffered⟩
      acceptProc := waits.acceptProc
      wire := ?_
      phase := .inr (.inl ⟨rfl, fresh, fresh, ?_⟩) }
  · intro packet member
    rcases List.mem_append.mp member with old | new
    · exact waits.wire packet old
    · rw [each packet new]
      refine ⟨rfl, rfl, fresh, ?_⟩
      change pocket.sequence + 1 = start + 1
      rw [connect]
  · change pocket.sequence + 1 = start + 1
    rw [connect]

theorem acceptSyn_session (moment : Moment) (info : UdtPacketInfo) :
    (listener.acceptSyn moment info).2.heap listener.allocated =
        listener.heap listener.allocated ∨
      ∃ localPort : UInt16,
        (listener.acceptSyn moment info).2.heap listener.allocated =
          ⟨(({ (UdtNode.allocListen listener.fd).noteSyn moment
                listener.allocated with
              localPort := localPort } : UdtNode).handleSyn info.pocket).2,
            info.addr.copyIn⟩ := by
  unfold acceptSyn
  dsimp only
  split
  · exact .inl rfl
  · exact .inr ⟨_, if_pos rfl⟩

theorem Serves.acceptSyn (serves : listener.Serves start client)
    (moment : Moment) (connect : info.pocket.sequence = start) :
    (listener.acceptSyn moment info).2.Serves start client := by
  refine ⟨serves.tidy.acceptSyn moment info, ?_⟩
  intro addr
  by_cases same : addr = listener.allocated
  · subst same
    constructor
    case node =>
      change ShakeView.Server start client
        ((listener.acceptSyn moment info).2.heap
          listener.allocated).node.shakeView
      rcases @acceptSyn_session listener moment info with
        kept | ⟨localPort, new⟩
      · rw [kept]
        exact (serves.sessions listener.allocated).node
      · rw [new]
        refine handleSyn_listen ?_ rfl connect
        exact
          { idle := ⟨rfl, rfl, rfl⟩
            acceptProc := rfl
            wire := fun _ member => absurd member List.not_mem_nil
            phase := .inl ⟨rfl, rfl, rfl⟩ }
    case held =>
      rcases serves.tidy.acceptSyn_cases moment info with
        full | ⟨conns, session, nodeId, new, keeps, grown, port, -⟩
      · rw [full]
        exact (serves.sessions listener.allocated).held
      intro _
      have found : conns.root.lock listener.thid nodeId =
          some listener.allocated := by
        refine (keeps.lock_iff _ _ _).mpr ?_
        rw [grown]
        exact List.mem_append_right _ (List.mem_singleton_self _)
      rw [new]
      refine decide_eq_true ?_
      unfold lock
      simp only [if_true, port]
      exact found
  · rw [view_acceptSyn serves.tidy moment info same]
    exact serves.sessions addr

theorem Serves.packet (serves : listener.Serves start client)
    (sent : info.pocket.IsConnect start ∨ client.status = established ∧
      info.pocket.udtType = .ack ∧ info.pocket.ackSeq = 1 ∧
        info.pocket.localPort = client.localPort) (moment : Moment)
    (memory : Bool) (handled : DataHandled) :
    (listener.pumpInsrvUdtData moment info memory handled).2.Serves
        start client ∧
      (listener.msgUdtPackateHandler moment info handled).Serves
        start client := by
  have pumped := serves.tidy.pumpInsrvUdtData moment info memory handled
  have forwarded := serves.tidy.msgUdtPackateHandler moment info handled
  rcases sent with ⟨syn, unnamed, connect⟩ | ⟨joined, ack, ackSeq, port⟩
  · constructor
    · unfold pumpInsrvUdtData
      rw [if_pos syn, if_pos unnamed]
      split
      · exact serves.acceptSyn moment connect
      · exact serves
    · unfold msgUdtPackateHandler
      rw [if_pos (.inr unnamed)]
      exact serves
  · refine ⟨⟨pumped, ?_⟩, forwarded, ?_⟩
    · intro addr
      have view := @view_dataHandle listener addr serves.tidy moment info
        handled
      unfold pumpInsrvUdtData
      rw [if_neg (by rw [ack]; decide), view]
      split
      next named =>
        exact (serves.sessions addr).data ack ackSeq joined port named addr
          moment handled
      next other => exact serves.sessions addr
    · intro addr
      rw [view_msgUdtPackateHandler serves.tidy]
      dsimp only [SessionView.step]
      split
      · exact serves.sessions addr
      split
      next named =>
        exact ((serves.sessions addr).handle ack ackSeq joined port named addr
          moment handled).2
      next other => exact serves.sessions addr

theorem Serves.updateUdtSessions (serves : listener.Serves start client)
    (moment : Moment) :
    (listener.updateUdtSessions moment).Serves start client := by
  refine ⟨(serves.tidy.updateUdtSessions moment).1, ?_⟩
  intro addr
  unfold UdtListener.updateUdtSessions
  rw [view_updateRounds moment serves.tidy fun _ member => member]
  by_cases linked : addr ∈ listener.sessionsList
  · refine (serves.sessions addr).update_rounds ?_ addr moment _
    change (listener.heap addr).node.status = established
    have status := (serves.tidy.linked addr linked).2
    rcases (serves.sessions addr).node.phase with ⟨waits, -⟩ | ⟨half, -⟩ |
      ⟨joined, -⟩
    · change (listener.heap addr).node.status = listen at waits
      rw [waits] at status
      have linked := status.imp_right And.right
      unfold Opened at linked
      exact absurd linked (by decide)
    · change (listener.heap addr).node.status = synrecv at half
      rw [half] at status
      have linked := status.imp_right And.right
      unfold Opened at linked
      exact absurd linked (by decide)
    · exact joined
  · rw [List.count_eq_zero.mpr linked]
    exact serves.sessions addr

end Serves

end UdtListener

structure UdtPair where
  client : UdtClient
  listener : UdtListener

inductive PairStep where
  | client (step : ClientStep)
  | listener (step : ListenerStep)

namespace UdtPair

open NetStat UdtNode Runs

def start (fd : Nat) (sequence : Seq) (remoteAddr : SockAddr)
    (thid socket maxNum startId : Nat) : UdtPair :=
  { client := UdtClient.connect fd sequence remoteAddr
    listener := UdtListener.create thid socket maxNum startId }

def step (pair : UdtPair) : PairStep → UdtPair
  | .client step => { pair with client := pair.client.step step }
  | .listener step => { pair with listener := pair.listener.step step }

/-- The steps of a handshake.  A packet arrives that the other side has sent at
some time; the client is used only while it connects and when it is
connected; no side sends data or closes. -/
def Shakes (pair : UdtPair) : PairStep → Prop
  | .client (.syn _) => True
  | .client .timeout => True
  | .client (.datagram _ info) =>
    ∃ addr, info.pocket ∈ (pair.listener.heap addr).node.wire
  | .client (.update _) =>
    pair.client.connecting = true ∨ pair.client.node.status = established
  | .client (.recv _) => True
  | .listener (.pump _ info _ _) => info.pocket ∈ pair.client.node.wire
  | .listener (.forward _ info _) => info.pocket ∈ pair.client.node.wire
  | .listener (.update _) => True
  | _ => False

/-- An established client and an established session with its port agree on
their numbers, and there is one such session at most. -/
structure Agrees (pair : UdtPair) : Prop where
  numbers : ∀ addr, pair.client.node.status.has established = true →
    (pair.listener.heap addr).node.status.has established = true →
      (pair.listener.heap addr).node.localPort = pair.client.node.localPort →
        pair.client.node.sendSequence =
            (pair.listener.heap addr).node.receivedSequence ∧
          (pair.listener.heap addr).node.sendSequence =
            pair.client.node.receivedSequence
  single : ∀ addr other,
    (pair.listener.heap addr).node.status.has established = true →
      (pair.listener.heap other).node.status.has established = true →
        addr = other

/-- The invariant of the handshake. -/
structure Shaken (sequence : Seq) (pair : UdtPair) : Prop where
  client : pair.client.Connects sequence
  listener : pair.listener.Serves sequence pair.client.node.shakeView

section Shaken

variable {pair : UdtPair} {sequence : Seq}

theorem Shaken.client_step (shaken : pair.Shaken sequence)
    {client : UdtClient} (connects : client.Connects sequence ∧
      pair.client.Stays client) :
    Shaken sequence { pair with client := client } where
  client := connects.1
  listener :=
    { tidy := shaken.listener.tidy
      sessions := fun addr =>
        { node := (shaken.listener.sessions addr).node.of_client connects.2
          held := (shaken.listener.sessions addr).held } }

theorem step_shaken (shaken : pair.Shaken sequence) (step : PairStep)
    (shakes : pair.Shakes step) : (pair.step step).Shaken sequence := by
  cases step with
  | client step =>
    refine shaken.client_step ?_
    cases step with
    | syn moment => exact shaken.client.sendSyn moment
    | timeout =>
      dsimp only [UdtClient.step]
      split
      · exact shaken.client.of_shakeView rfl id
      · exact shaken.client.of_shakeView rfl id
    | datagram moment info =>
      obtain ⟨addr, sent⟩ := shakes
      exact shaken.client.datagram moment
        ((shaken.listener.sessions addr).node.wire _ sent)
    | update moment =>
      dsimp only [UdtClient.step]
      split
      · exact shaken.client.of_shakeView rfl id
      next connected =>
        have joined := shakes.resolve_left connected
        exact shaken.client.of_shakeView
          (shaken.client.update joined moment) id
    | send data => exact shakes.elim
    | recv size =>
      dsimp only [UdtClient.step]
      split
      · exact shaken.client.of_shakeView rfl id
      · refine shaken.client.of_shakeView ?_ id
        unfold UdtNode.recv
        split <;> rfl
    | fin moment | reset moment issendReset => exact shakes.elim
  | listener step =>
    refine ⟨shaken.client, ?_⟩
    cases step with
    | pump moment info memory handled =>
      exact (shaken.listener.packet (shaken.client.node.wire _ shakes)
        moment memory handled).1
    | forward moment info handled =>
      exact (shaken.listener.packet (shaken.client.node.wire _ shakes)
        moment true handled).2
    | update moment => exact shaken.listener.updateUdtSessions moment
    | send moment localPort data | close moment localPort force =>
      exact shakes.elim

theorem start_shaken {fd thid socket maxNum startId : Nat}
    {remoteAddr : SockAddr} (positive : 1 ≤ startId)
    (fits : startId + maxNum ≤ 65536) :
    (start fd sequence remoteAddr thid socket maxNum startId).Shaken
      sequence where
  client :=
    { node :=
        { idle := ⟨rfl, rfl, rfl⟩
          wire := fun _ member => absurd member List.not_mem_nil
          phase := .inl ⟨rfl, rfl, .inl ⟨rfl, rfl⟩⟩ }
      connected := fun joined => absurd
        (show closed = established from joined) (by decide) }
  listener :=
    { tidy := UdtListener.create_tidy positive fits
      sessions := fun _ =>
        { node :=
            { idle := ⟨rfl, rfl, rfl⟩
              acceptProc := rfl
              wire := fun _ member => absurd member List.not_mem_nil
              phase := .inl ⟨rfl, rfl, rfl⟩ }
          held := fun opened => absurd rfl opened } }

theorem Shaken.joined (shaken : pair.Shaken sequence) {addr : Nat}
    (joined : (pair.listener.heap addr).node.status.has established = true) :
    (pair.listener.heap addr).node.sendSequence = 1 ∧
      (pair.listener.heap addr).node.receivedSequence = sequence + 1 ∧
      pair.listener.lock pair.client.node.localPort = some addr := by
  have session := shaken.listener.sessions addr
  rcases session.node.phase with ⟨waits, -⟩ | ⟨half, -⟩ |
    ⟨status, sent, -, got, -, port⟩
  · change (pair.listener.heap addr).node.status = listen at waits
    rw [waits] at joined
    exact absurd joined (by decide)
  · change (pair.listener.heap addr).node.status = synrecv at half
    rw [half] at joined
    exact absurd joined (by decide)
  · have found := session.held (by
      change (pair.listener.heap addr).node.status = established at status
      change (pair.listener.heap addr).node.status ≠ listen
      rw [status]
      decide)
    refine ⟨sent, got, ?_⟩
    rw [← show (pair.listener.heap addr).node.localPort =
      pair.client.node.localPort from port]
    exact of_decide_eq_true found

theorem Shaken.agrees (shaken : pair.Shaken sequence) : pair.Agrees where
  numbers := by
    intro addr client server _
    obtain ⟨sent, got, -⟩ := shaken.joined server
    rcases shaken.client.node.phase with ⟨-, -, ⟨status, -⟩ | status⟩ |
      ⟨-, clientSent, -, clientGot⟩
    · change pair.client.node.status = closed at status
      rw [status] at client
      exact absurd client (by decide)
    · change pair.client.node.status = synsend at status
      rw [status] at client
      exact absurd client (by decide)
    · exact ⟨clientSent.trans got.symm, sent.trans clientGot.symm⟩
  single := by
    intro addr other first second
    obtain ⟨-, -, found⟩ := shaken.joined first
    obtain ⟨-, -, again⟩ := shaken.joined second
    exact Option.some.inj (found.symm.trans again)

end Shaken

/-- In every run of the handshake, whatever is lost, repeated or reordered, the
two sides agree. -/
theorem handshakeRun_agrees (fd : Nat) (sequence : Seq)
    (remoteAddr : SockAddr) (thid socket : Nat) {maxNum startId : Nat}
    (positive : 1 ≤ startId) (fits : startId + maxNum ≤ 65536)
    (steps : List PairStep)
    (shakes : Meets step Shakes
      (start fd sequence remoteAddr thid socket maxNum startId) steps) :
    ∀ visited ∈ states step
      (start fd sequence remoteAddr thid socket maxNum startId) steps,
      visited.Agrees := by
  intro visited member
  have shaken := invariant_of_meets
    (fun pair next holds permitted =>
      @step_shaken pair sequence holds next permitted)
    (start_shaken positive fits) shakes visited member
  exact shaken.agrees

section Samples

open ListenerRun

def sampleStart : UdtPair :=
  start 3 7 (.inet 80 9) 1 5 4 1

def sampleConnect : UdtPocket :=
  { UdtPocket.init with
    udtType := .syn
    windowLen := 65535
    sequence := 7 }

def sampleConnectAck (localPort : UInt16) : UdtPocket :=
  { UdtPocket.init.setAck 8 with
    udtType := .syn
    localPort := localPort
    windowLen := 65535 }

def sampleAck : UdtPocket :=
  { UdtPocket.init.setAck 1 with
    udtType := .ack
    localPort := 2
    windowLen := 65535 }

def sampleArrival (pocket : UdtPocket) : PairStep :=
  .listener (.pump (quietMoment 3) ⟨.inet 4000 1, pocket⟩ true ⟨0, 0⟩)

def sampleAnswer (pocket : UdtPocket) : PairStep :=
  .client (.datagram (quietMoment 4) ⟨.inet 80 9, pocket⟩)

/-- The client sends its connect twice, the answers to both are reordered and
its ack is repeated. -/
def sampleSteps : List PairStep :=
  [.client (.syn (quietMoment 1)), .client .timeout,
    .client (.syn (quietMoment 2)), sampleArrival sampleConnect,
    sampleArrival sampleConnect, sampleAnswer (sampleConnectAck 2),
    sampleAnswer (sampleConnectAck 1), sampleArrival sampleAck,
    sampleArrival sampleAck, .listener (.update (quietMoment 5))]

theorem handshakeRun_agrees_repeated :
    (sampleSteps.foldl step sampleStart).client.node.status = established ∧
      ((sampleSteps.foldl step sampleStart).listener.heap 1).node.status =
        established ∧
      (sampleSteps.foldl step sampleStart).Agrees := by
  have shakes : Meets step Shakes sampleStart sampleSteps := by
    refine ⟨trivial, trivial, trivial, ?_, ?_, ⟨1, ?_⟩, ⟨0, ?_⟩, ?_, ?_,
      trivial, trivial⟩
    · change sampleConnect ∈ _
      decide +kernel
    · change sampleConnect ∈ _
      decide +kernel
    · decide +kernel
    · decide +kernel
    · change sampleAck ∈ _
      decide +kernel
    · change sampleAck ∈ _
      decide +kernel
  exact ⟨by decide +kernel, by decide +kernel,
    handshakeRun_agrees 3 7 (.inet 80 9) 1 5 (by decide) (by decide)
      sampleSteps shakes _ (foldl_mem_states _ _ _)⟩

end Samples

end UdtPair

end NdNet

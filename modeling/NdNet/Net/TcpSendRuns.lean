import NdNet.Net.TcpSend

/-!
# Runs of the sending side

A run calls the sending functions of one connection in any order, while the
socket answers every write as it likes.  The state counts what the calls have
reported: the packets whose send returned their full length, and whether any
call has returned `-1`.
-/

namespace NdNet.TcpNode

open LineBuf Runs

/-- The memory a caller passes to `nd_tcpnode_send` holds the whole packet. -/
structure MsgBuf where
  memory : List Byte
  whole : getPackSize memory ≤ memory.length

def MsgBuf.packet (msg : MsgBuf) : List Byte :=
  packetOf msg.memory

theorem MsgBuf.length_packet (msg : MsgBuf) :
    msg.packet.length = getPackSize msg.memory := by
  rw [MsgBuf.packet, packetOf, List.length_take]
  exact Nat.min_eq_left msg.whole

/-- One call on the sending side; `elapse` lets the clock show another time. -/
inductive SendCall where
  | send (msg : MsgBuf) (flag : SendFlag)
  | pushSendbuf
  | pushForce
  | trytoFlushSendbuf
  | elapse (now : UInt32)

structure SendState where
  node : TcpNode
  /-- The packets whose send returned their full length, in call order. -/
  accepted : List Byte
  /-- Some call has returned `-1`. -/
  failed : Bool

def sendStep (state : SendState) : SendCall → SendState
  | .send msg flag =>
    let sent := state.node.send msg.memory flag
    { node := sent.2
      accepted := state.accepted ++
        if sent.1 = msg.packet.length then msg.packet else []
      failed := state.failed || sent.1 = -1 }
  | .pushSendbuf =>
    let pushed := state.node.pushSendbuf
    { state with node := pushed.2, failed := state.failed || pushed.1 = -1 }
  | .pushForce =>
    let pushed := state.node.pushForce
    { state with node := pushed.2, failed := state.failed || pushed.1 = -1 }
  | .trytoFlushSendbuf =>
    let pushed := state.node.trytoFlushSendbuf
    { state with node := pushed.2, failed := state.failed || pushed.1 = -1 }
  | .elapse now => { state with node := { state.node with now := now } }

/-- As long as no call has returned `-1`, the bytes the socket has taken and
those still in the send buffer are the accepted packets. -/
def StreamLaw (state : SendState) : Prop :=
  state.failed = false →
    state.node.wire ++ state.node.sendBuffer.content = state.accepted

/-- The step does not append a packet to data that starts in the first bytes
of the send buffer and cannot be moved ahead. -/
def Placed (state : SendState) : SendCall → Prop
  | .send msg flag =>
    state.failed = false → ¬ state.node.Misplaced (getPackSize msg.memory) flag
  | _ => True

def Intact (state : SendState) : Prop :=
  state.failed = false → state.node.Streams state.accepted

section Steps

variable {state : SendState}

variable (intact : Intact state)
include intact

theorem Intact.law : StreamLaw state := by
  intro fine
  obtain ⟨queue, buffered, stream⟩ := intact fine
  rw [buffered.represents.content_eq, stream]

private theorem send_intact (msg : MsgBuf) (flag : SendFlag)
    (placed : Placed state (.send msg flag)) :
    Intact (sendStep state (.send msg flag)) := by
  intro fine
  simp only [sendStep, Bool.or_eq_false_iff, decide_eq_false_iff_not] at fine
  obtain ⟨fine, returned⟩ := fine
  obtain ⟨queue, buffered, stream⟩ := intact fine
  obtain ⟨urgency, result, node⟩ :=
    send_eq_sendBytes state.node msg.memory flag
  have placed := placed fine
  rw [← msg.length_packet] at placed
  have sent := sendBytes_spec buffered (length_packetOf_lt msg.memory)
    { flag with urgency := urgency } placed
  rw [← result, ← node returned] at sent
  rw [stream] at sent
  exact sent.resolve_left returned

theorem sendStep_intact (call : SendCall)
    (placed : Placed state call) : Intact (sendStep state call) := by
  cases call with
  | send msg flag => exact send_intact intact msg flag placed
  | pushSendbuf =>
    intro fine
    rw [sendStep, Bool.or_eq_false_iff] at fine
    exact pushSendbuf_streams (intact fine.1)
  | pushForce =>
    intro fine
    rw [sendStep, Bool.or_eq_false_iff] at fine
    exact pushForce_streams (intact fine.1)
  | trytoFlushSendbuf =>
    intro fine
    rw [sendStep, Bool.or_eq_false_iff] at fine
    exact trytoFlushSendbuf_streams (intact fine.1)
  | elapse now => exact intact

theorem sendStep_breaks (call : SendCall)
    (misplaced : ¬ Placed state call) : ¬ StreamLaw (sendStep state call) := by
  cases call with
  | send msg flag =>
    simp only [Placed, Classical.not_imp, not_not] at misplaced
    obtain ⟨fine, misplaced⟩ := misplaced
    obtain ⟨queue, buffered, stream⟩ := intact fine
    obtain ⟨urgency, result, node⟩ :=
      send_eq_sendBytes state.node msg.memory flag
    rw [← msg.length_packet] at misplaced
    obtain ⟨reported, broken⟩ := sendBytes_misplaced buffered
      (length_packetOf_lt msg.memory)
      { flag with urgency := urgency } misplaced
    rw [← result] at reported
    have reported : (state.node.send msg.memory flag).1 =
        msg.packet.length := reported
    have returned : (state.node.send msg.memory flag).1 ≠ -1 := by
      omega
    rw [← node returned, stream] at broken
    intro law
    have law := law (by simp [sendStep, fine, returned])
    simp only [sendStep] at law
    rw [if_pos reported] at law
    exact broken law
  | pushSendbuf | pushForce | trytoFlushSendbuf | elapse now =>
    exact absurd trivial misplaced

end Steps

/-- A connection whose send buffer has just been initialised on `block` and
whose socket has taken nothing yet; all else about the node is arbitrary. -/
def sendInitial (node : TcpNode) (block : List Byte) : SendState :=
  { node := { node with sendBuffer := init block, wire := [] }
    accepted := []
    failed := false }

variable {block : List Byte}

theorem sendInitial_intact (node : TcpNode)
    (sized : packetSize ≤ block.length) : Intact (sendInitial node block) :=
  fun _ => ⟨[], ⟨init_represents block, rfl, sized⟩, rfl⟩

/-- For every order of calls and every sequence of socket results, the stream
stays the concatenation of the accepted packets exactly as long as no packet is
appended to data that cannot be moved ahead. -/
theorem sendRun_stream_iff (node : TcpNode) (block : List Byte)
    (sized : packetSize ≤ block.length) (calls : List SendCall) :
    (∀ visited ∈ states sendStep (sendInitial node block) calls,
        StreamLaw visited) ↔
      Meets sendStep Placed (sendInitial node block) calls :=
  have always : Meets sendStep (fun _ _ => True) (sendInitial node block)
      calls := meets_of_forall (fun _ _ => trivial) _ calls
  law_iff_meets (fun _ intact => Intact.law intact)
    (fun _ call intact _ => sendStep_intact intact call)
    (fun _ call intact _ => sendStep_breaks intact call)
    (sendInitial_intact node sized) always

/-- A packet of which the socket takes half, the rest going out later. -/
theorem sendRun_stream_alive :
    packetSize ≤ (List.replicate packetSize (0 : Byte)).length ∧
      ∀ visited ∈ states sendStep
        (sendInitial (connectedNode [.took 4, .error true, .took 9])
          (List.replicate packetSize 0))
        [.send ⟨packetSwap makeAlivePack, by decide⟩ ⟨true, false⟩,
          .pushSendbuf, .elapse 60, .trytoFlushSendbuf], StreamLaw visited :=
  ⟨by rw [List.length_replicate],
    (sendRun_stream_iff (connectedNode [.took 4, .error true, .took 9])
      (List.replicate packetSize 0) (by rw [List.length_replicate]) _).mpr
      ⟨fun _ misplaced => Nat.not_lt_zero _ misplaced.1, trivial, trivial,
        trivial, trivial⟩⟩

def largestPacket : MsgBuf :=
  { memory := 255 :: 255 :: List.replicate 65533 0
    whole := by
      rw [List.length_cons, List.length_cons, List.length_replicate]
      decide }

theorem send_blocked (node : TcpNode) {rest : List WriteResult} (msg : MsgBuf)
    (flag : SendFlag) (empty : node.sendBuffer = init block)
    (sized : packetSize ≤ block.length)
    (blocked : node.writeResults = .error true :: rest)
    (nonempty : 0 < msg.packet.length) :
    node.send msg.memory flag =
      ((msg.packet.length : Int),
        { node with
          writeResults := rest
          sysTimedOut := true
          myerrno := .wouldBlock
          sendBuffer := (init block).append msg.packet }) := by
  have small : msg.packet.length < packetSize := length_packetOf_lt msg.memory
  have int : intOfSize msg.packet.length = msg.packet.length :=
    intOfSize_of_lt (by
      rw [packetSize] at small
      omega)
  have written : node.sysSocketWrite msg.packet =
      (0, { node with
        writeResults := rest
        sysTimedOut := true
        myerrno := .wouldBlock }) := by
    simp [sysSocketWrite, blocked]
  have room : msg.packet.length ≤ (init block).freespace := by
    have free : (init block).freespace = block.length :=
      (init_represents block).freespace_eq
    omega
  have saved : node.sendWithSave msg.packet =
      ((msg.packet.length : Int),
        { node with
          writeResults := rest
          sysTimedOut := true
          myerrno := .wouldBlock
          sendBuffer := (init block).append msg.packet }) := by
    have short : ¬ (0 : Int) = msg.packet.length := by omega
    have positive : (0 : Int) < msg.packet.length := by omega
    rw [sendWithSave, written]
    simp only [if_neg short, Int.toNat_zero, List.drop_zero, sendbufWrite,
      empty, LineBuf.write, if_pos room, int, if_pos positive, Int.add_zero]
    rfl
  have drained : node.sendBuffer.datalen = 0 := by rw [empty]; rfl
  have returned : (msg.packet.length : Int) ≠ -1 := by omega
  have packet : packetOf msg.memory = msg.packet := rfl
  simp only [send, sendBytes, if_pos drained, packet, saved,
    if_neg returned, ite_self]

/-- A packet of six bytes behind one of the largest size, of which the socket
has taken five bytes, is misplaced. -/
theorem sendRun_breaks (sized : block.length = packetSize)
    {large small : MsgBuf} (first : large.packet.length = 65535)
    (second : getPackSize small.memory = 6) :
    ¬ StreamLaw (sendStep
      (sendStep (sendInitial (connectedNode [.error true, .took 5]) block)
        (.send large ⟨false, false⟩)) (.send small ⟨false, false⟩)) := by
  have size : packetSize = 65536 := rfl
  have sent := send_blocked
    (sendInitial (connectedNode [.error true, .took 5]) block).node large
    ⟨false, false⟩ rfl (Nat.le_of_eq sized.symm) rfl (by omega)
  have placed : Placed (sendInitial (connectedNode [.error true, .took 5]) block)
      (.send large ⟨false, false⟩) :=
    fun _ misplaced => Nat.not_lt_zero _ misplaced.1
  have intact := sendStep_intact
    (sendInitial_intact _ (Nat.le_of_eq sized.symm)) _ placed
  refine sendStep_breaks intact _ ?_
  intro safe
  refine safe ?_ ?_
  · simp only [sendStep, sent]
    rfl
  · have buffer : (sendStep (sendInitial (connectedNode [.error true, .took 5])
        block) (.send large ⟨false, false⟩)).node.sendBuffer =
          (init block).append large.packet := by
      simp only [sendStep, sent]
    have filled : ((init block).append large.packet).Represents _ :=
      append_represents (init_represents block) (by
        show _ ≤ block.length - 0
        omega)
    have data := filled.datalen_eq
    have free := filled.freeCapacity_eq
    have tail := filled.freespace_eq
    have capacity : ((init block).append large.packet).capacity =
        block.length := by simp [init, reset]
    have start : ((init block).append large.packet).startOff = 0 := by
      simp [init, reset]
    have stop : ((init block).append large.packet).endOff =
        large.packet.length := by simp [init, reset]
    have taken : (sendStep (sendInitial (connectedNode [.error true, .took 5])
        block) (.send large ⟨false, false⟩)).node.takes
          ((init block).append large.packet).datalen = 5 := by
      simp only [sendStep, sent, takes, List.head?_cons]
      omega
    rw [Misplaced, buffer, taken, second, sizeofSizeT]
    refine ⟨by omega, by omega, by omega, by omega, by omega, ?_⟩
    simp

/-- The socket refuses a packet of 65535 bytes for now and then takes five
bytes: a packet of six bytes is reported as sent while the send buffer has room
for one. -/
theorem sendRun_stream_fails :
    ∃ visited ∈ states sendStep
        (sendInitial (connectedNode [.error true, .took 5])
          (List.replicate packetSize 0))
        [.send largestPacket ⟨false, false⟩,
          .send ⟨[0, 6, 2, 0, 1, 1], by decide⟩ ⟨false, false⟩],
      ¬ StreamLaw visited := by
  refine ⟨_, foldl_mem_states _ _ _, ?_⟩
  exact sendRun_breaks List.length_replicate largestPacket.length_packet rfl

end NdNet.TcpNode

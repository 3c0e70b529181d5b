import NdNet.Net.TcpFraming
import NdNet.Net.TcpSendRuns

/-!
# From one end of a connection to the other

One end sends packets.  The other one reads what the socket of the first end has
taken, in pieces of any length, and fetches messages; the two take turns in any
order.  What is fetched are the messages that were sent, in the same order.
-/

namespace NdNet.TcpNode

open LineBuf Runs List

section Wire

variable (node : TcpNode)

theorem sysSocketWrite_wire (data : List Byte) :
    node.wire <+: (node.sysSocketWrite data).2.wire := by
  rw [(sysSocketWrite_spec node data).1]
  exact prefix_append _ _

theorem sendWithSave_wire (msg : List Byte) :
    node.wire <+: (node.sendWithSave msg).2.wire := by
  have grows := node.sysSocketWrite_wire msg
  unfold sendWithSave
  dsimp only
  split
  · split
    · exact grows
    · split <;> exact grows
  · split
    · exact grows
    · split <;> exact grows

theorem flushBuffered_wire : node.wire <+: node.flushBuffered.wire := by
  unfold flushBuffered
  split
  · dsimp only
    split <;> exact node.sysSocketWrite_wire _
  · exact prefix_rfl

theorem sendBytes_wire (msg : List Byte) (flag : SendFlag) (isWriteAll : Bool) :
    node.wire <+: (node.sendBytes msg flag isWriteAll).2.wire := by
  unfold sendBytes
  split
  · exact node.sendWithSave_wire msg
  split
  · exact prefix_rfl
  · unfold pushAndSend
    dsimp only
    have flushed := node.flushBuffered_wire
    split
    · exact flushed.trans (sendWithSave_wire _ msg)
    · split <;> exact flushed

theorem send_wire (msg : List Byte) (flag : SendFlag) :
    node.wire <+: (node.send msg flag).2.wire := by
  unfold send
  split
  · dsimp only
    split <;> exact node.sendBytes_wire _ _ _
  · exact node.sendBytes_wire _ _ _

theorem pushSendbuf_wire : node.wire <+: node.pushSendbuf.2.wire := by
  unfold pushSendbuf
  split
  · exact prefix_rfl
  · split
    · exact prefix_rfl
    · dsimp only
      split <;> exact node.sysSocketWrite_wire _

theorem resend_wire (waits : List Bool) :
    node.wire <+: (node.resend waits).2.wire := by
  induction waits generalizing node with
  | nil =>
    have grows := sysSocketWrite_wire { node with myerrno := .success }
      node.sendBuffer.content
    unfold resend
    dsimp only
    split
    · exact grows
    · split <;> exact grows
  | cons wait rest induction =>
    have grows := sysSocketWrite_wire { node with myerrno := .success }
      node.sendBuffer.content
    unfold resend
    dsimp only
    generalize sysSocketWrite { node with myerrno := .success }
      node.sendBuffer.content = written at grows ⊢
    split
    · exact grows
    · split
      · cases wait with
        | true =>
          exact grows.trans
            (induction (written.2.sendbufSub written.1.toNat))
        | false => exact grows
      · exact grows

theorem pushForce_wire : node.wire <+: node.pushForce.2.wire := by
  unfold pushForce
  split
  · exact prefix_rfl
  · split
    · exact prefix_rfl
    · exact node.resend_wire _

end Wire

theorem sendStep_wire (state : SendState) (call : SendCall) :
    state.node.wire <+: (sendStep state call).node.wire := by
  cases call with
  | send msg flag => exact state.node.send_wire _ flag
  | pushSendbuf => exact state.node.pushSendbuf_wire
  | pushForce => exact state.node.pushForce_wire
  | trytoFlushSendbuf =>
    rw [sendStep, trytoFlushSendbuf]
    split
    · exact state.node.pushSendbuf_wire
    · exact prefix_rfl
  | elapse now => exact prefix_rfl

/-- The packets a call accepts: at most the one that is sent. -/
def takenBy (state : SendState) : SendCall → List (List Byte)
  | .send msg flag =>
    if (state.node.send msg.memory flag).1 = msg.packet.length then
      [msg.packet]
    else []
  | _ => []

theorem sendStep_accepted (state : SendState) (call : SendCall) :
    (sendStep state call).accepted =
      state.accepted ++ (takenBy state call).flatten := by
  cases call with
  | send msg flag =>
    rw [sendStep, takenBy]
    split <;> simp
  | _ => exact (append_nil _).symm

theorem sendStep_fine {state : SendState} {call : SendCall}
    (fine : (sendStep state call).failed = false) : state.failed = false := by
  cases call with
  | elapse now => exact fine
  | _ => exact (Bool.or_eq_false_iff.mp fine).1

theorem eq_of_mem_takenBy {state : SendState} {msg : MsgBuf} {flag : SendFlag}
    {packet : List Byte} (member : packet ∈ takenBy state (.send msg flag)) :
    packet = msg.packet := by
  rw [takenBy] at member
  split at member
  · exact mem_singleton.mp member
  · cases member

/-- One direction of a connection. -/
structure TcpLink where
  sender : SendState
  /-- The packets whose send returned their full length, in call order. -/
  packets : List (List Byte)
  receiver : FrameState
  /-- How many bytes of the wire the receiver's socket has handed out. -/
  read : Nat

inductive LinkStep where
  | call (call : SendCall)
  /-- The receiver reads at most so many bytes, and fetches. -/
  | arrive (size : Nat)

namespace TcpLink

/-- What the receiver's socket has for a read of `size` bytes. -/
def chunk (link : TcpLink) (size : Nat) : List Byte :=
  (link.sender.node.wire.drop link.read).take size

def step (link : TcpLink) : LinkStep → TcpLink
  | .call call =>
    { link with
      sender := sendStep link.sender call
      packets := link.packets ++ takenBy link.sender call }
  | .arrive size =>
    { link with
      receiver := frameStep link.receiver (link.chunk size)
      read := link.read + (link.chunk size).length }

/-- The sender's buffer does not get into the state in which packets are lost,
packets are well formed, and a read asks for what there is room for. -/
def Fits (link : TcpLink) : LinkStep → Prop
  | .call call =>
    Placed link.sender call ∧
      ∀ packet ∈ takenBy link.sender call,
        UserPacket packet ∨ AlivePacket packet
  | .arrive size => size ≤ link.receiver.node.recvBuffer.freespace

def initial (sender receiver : TcpNode) (block storage : List Byte) : TcpLink :=
  { sender := sendInitial sender block
    packets := []
    receiver := frameInitial receiver storage
    read := 0 }

/-- What the two ends are for. -/
structure Delivers (link : TcpLink) : Prop where
  inOrder : link.receiver.delivered <+: userMessages link.packets
  complete : link.receiver.failed = false →
    link.read = link.sender.node.wire.length →
    link.sender.node.sendBuffer.content = [] →
      link.receiver.delivered = userMessages link.packets
  invalid : link.receiver.failed = true →
    link.receiver.node.connectorValid = false

/-- The bytes that have not been read, on the wire or in the send buffer. -/
def coming (link : TcpLink) : List Byte :=
  link.sender.node.wire.drop link.read ++ link.sender.node.sendBuffer.content

/-- How far the receiver, which was `start`, has come: the packets `done` are
fetched, and the bytes `queue` of the next one have been read. -/
structure Fetched (start : TcpNode) (link : TcpLink)
    (done rest : List (List Byte)) (queue : List Byte) : Prop where
  split : link.packets = done ++ rest
  delivered : link.receiver.delivered = userMessages done
  fine : link.receiver.failed = false
  ready : Ready link.receiver.node queue
  incomplete : Incomplete queue rest
  joined : queue ++ link.coming = rest.flatten
  answered : Answered start link.receiver.node (alives done)

/-- The receiver has found its connection invalid. -/
structure Stopped (start : TcpNode) (link : TcpLink)
    (done rest : List (List Byte)) : Prop where
  split : link.packets = done ++ rest
  delivered : link.receiver.delivered = userMessages done
  failed : link.receiver.failed = true
  invalid : link.receiver.node.connectorValid = false
  answered : Answered start link.receiver.node (alives done)

/-- The invariant, for as long as the sender has not failed. -/
structure Linked (start : TcpNode) (link : TcpLink) : Prop where
  intact : Intact link.sender
  accepted : link.packets.flatten = link.sender.accepted
  legal : ∀ packet ∈ link.packets, UserPacket packet ∨ AlivePacket packet
  within : link.read ≤ link.sender.node.wire.length
  receiver : link.sender.failed = false → ∃ done rest,
    (∃ queue, Fetched start link done rest queue) ∨ Stopped start link done rest

variable {start : TcpNode} {link : TcpLink}

theorem Linked.delivers (linked : Linked start link)
    (fine : link.sender.failed = false) : link.Delivers := by
  obtain ⟨done, rest, ⟨queue, fetched⟩ | stopped⟩ := linked.receiver fine
  · refine ⟨?_, ?_, fun failed => ?_⟩
    · rw [fetched.delivered, fetched.split, userMessages_append]
      exact prefix_append _ _
    · intro _ all empty
      have joined := fetched.joined
      rw [coming, all, drop_length, empty, append_nil, append_nil] at joined
      cases rest with
      | nil => rw [fetched.delivered, fetched.split, append_nil]
      | cons packet rest =>
        -- the rest of an incomplete packet would still have to come
        have short := fetched.incomplete packet rfl
        have length := congrArg length joined
        rw [flatten_cons, length_append] at length
        omega
    · exact absurd (fetched.fine.symm.trans failed) Bool.false_ne_true
  · refine ⟨?_, fun fine => ?_, fun _ => stopped.invalid⟩
    · rw [stopped.delivered, stopped.split, userMessages_append]
      exact prefix_append _ _
    · exact absurd (fine.symm.trans stopped.failed) Bool.false_ne_true

theorem Linked.fine (linked : Linked start link)
    (fine : link.sender.failed = false)
    (able : Answering start (8 * alives link.packets)) :
    link.receiver.failed = false := by
  obtain ⟨done, rest, ⟨queue, fetched⟩ | stopped⟩ := linked.receiver fine
  · exact fetched.fine
  · have fewer : alives done ≤ alives link.packets := by
      rw [stopped.split, alives, alives, countP_append]
      exact Nat.le_add_right _ _
    have still := stopped.answered 0 (able.less (by omega))
    exact absurd (still.valid.symm.trans stopped.invalid) (by decide)

theorem coming_call {call : SendCall} (before : StreamLaw link.sender)
    (after : StreamLaw (sendStep link.sender call))
    (within : link.read ≤ link.sender.node.wire.length)
    (fine : (sendStep link.sender call).failed = false) :
    (link.step (.call call)).coming =
      link.coming ++ (takenBy link.sender call).flatten := by
  obtain ⟨more, grown⟩ := sendStep_wire link.sender call
  have stream := after fine
  rw [sendStep_accepted, ← before (sendStep_fine fine), ← grown,
    append_assoc, append_assoc] at stream
  have tail := append_cancel_left stream
  change (sendStep link.sender call).node.wire.drop link.read ++
    (sendStep link.sender call).node.sendBuffer.content = _
  rw [← grown, drop_append_of_le_length within, append_assoc, tail,
    coming, append_assoc]

theorem Linked.call {call : SendCall} (linked : Linked start link)
    (fits : link.Fits (.call call)) :
    Linked start (link.step (.call call)) := by
  have intact := sendStep_intact linked.intact call fits.1
  refine ⟨intact, ?_, ?_, ?_, ?_⟩
  · change (link.packets ++ _).flatten = _
    rw [flatten_append, linked.accepted]
    exact (sendStep_accepted _ _).symm
  · intro packet member
    rcases mem_append.mp member with old | new
    · exact linked.legal packet old
    · exact fits.2 packet new
  · exact linked.within.trans (sendStep_wire link.sender call).length_le
  · intro fine
    have came := coming_call linked.intact.law intact.law linked.within fine
    obtain ⟨done, rest, ⟨queue, fetched⟩ | stopped⟩ :=
      linked.receiver (sendStep_fine fine)
    · refine ⟨done, rest ++ takenBy link.sender call, .inl ⟨queue, ?_⟩⟩
      have split : (link.step (.call call)).packets =
          done ++ (rest ++ takenBy link.sender call) := by
        rw [← append_assoc, ← fetched.split]
        rfl
      refine ⟨split, fetched.delivered, fetched.fine, fetched.ready, ?_, ?_,
        fetched.answered⟩
      · cases rest with
        | cons packet rest => exact fetched.incomplete
        | nil =>
          intro packet first
          have none := (append_eq_nil_iff.mp fetched.joined).1
          have large : 6 ≤ packet.length := by
            rcases fits.2 packet (mem_of_mem_head? first) with user | alive
            · exact user.large
            · exact alive.large
          rw [none, length_nil]
          omega
      · rw [came, ← append_assoc, fetched.joined, flatten_append]
    · refine ⟨done, rest ++ takenBy link.sender call, .inr ⟨?_,
        stopped.delivered, stopped.failed, stopped.invalid,
        stopped.answered⟩⟩
      rw [← append_assoc, ← stopped.split]
      rfl

theorem Fetched.arrive {done rest : List (List Byte)} {queue : List Byte}
    (fetched : Fetched start link done rest queue)
    (legal : ∀ packet ∈ link.packets, UserPacket packet ∨ AlivePacket packet)
    {size : Nat} (fits : link.Fits (.arrive size)) : ∃ done rest,
      (∃ queue, Fetched start (link.step (.arrive size)) done rest queue) ∨
        Stopped start (link.step (.arrive size)) done rest := by
  have wellFormed : ∀ packet ∈ rest, UserPacket packet ∨ AlivePacket packet :=
    fun packet member => legal packet
      (fetched.split ▸ mem_append_right done member)
  have room : (link.chunk size).length ≤
      link.receiver.node.recvBuffer.freespace :=
    (length_take_le _ _).trans fits
  have filled := fetched.ready.append room
  have joined : (queue ++ link.chunk size) ++
      (link.step (.arrive size)).coming = rest.flatten := by
    rw [← fetched.joined, append_assoc]
    congr 1
    change link.chunk size ++ (drop (link.read + (link.chunk size).length)
      link.sender.node.wire ++ link.sender.node.sendBuffer.content) = _
    rw [← append_assoc, coming]
    congr 1
    rw [← drop_drop, chunk, length_take]
    rcases Nat.le_total size (link.sender.node.wire.drop link.read).length with
      below | above
    · rw [Nat.min_eq_left below, take_append_drop]
    · rw [Nat.min_eq_right above, drop_length, append_nil,
        take_of_length_le above]
  have ended := fetchAll_spec filled.large (fun packet member =>
      (wellFormed packet member).elim (·.legal) (·.legal))
    (filled.remains joined)
    ((link.receiver.node.recvBuffer.append (link.chunk size)).datalen + 1) (by
      rw [filled.represents.queue_length]
      exact Nat.lt_succ_self _)
  cases ended with
  | stopped returned why now later split messages =>
    obtain ⟨same, answered⟩ := messages wellFormed
    refine ⟨done ++ now, later, .inr ⟨?_, ?_, ?_, ?_, ?_⟩⟩
    · rw [append_assoc, ← split]
      exact fetched.split
    · rw [userMessages_append, ← same, ← fetched.delivered]
      rfl
    · have reported : (frameStep link.receiver (link.chunk size)).failed =
          true := by
        simp only [frameStep, returned]
        simp
      exact reported
    · refine why.resolve_right fun strange => ?_
      obtain ⟨packet, member, neither⟩ := strange
      exact (wellFormed packet member).elim neither.1 neither.2
    · rw [alives, countP_append]
      exact fetched.answered.trans answered.append
  | exhausted returned now later split messages left incomplete remains =>
    obtain ⟨same, answered⟩ := messages wellFormed
    refine ⟨done ++ now, later, .inl ⟨left, ?_, ?_, ?_,
      remains.ready filled.large, incomplete, remains.joined, ?_⟩⟩
    · rw [append_assoc, ← split]
      exact fetched.split
    · rw [userMessages_append, ← same, ← fetched.delivered]
      rfl
    · have fine : (frameStep link.receiver (link.chunk size)).failed =
          false := by
        simp only [frameStep, returned, fetched.fine]
        rfl
      exact fine
    · rw [alives, countP_append]
      exact fetched.answered.trans answered.append

theorem Linked.arrive {size : Nat} (linked : Linked start link)
    (fits : link.Fits (.arrive size)) :
    Linked start (link.step (.arrive size)) := by
  refine ⟨linked.intact, linked.accepted, linked.legal, ?_, fun fine => ?_⟩
  · have short := length_take_le' size
      (link.sender.node.wire.drop link.read)
    rw [length_drop] at short
    have within := linked.within
    change link.read + (link.chunk size).length ≤ link.sender.node.wire.length
    rw [chunk]
    omega
  · obtain ⟨done, rest, ⟨queue, fetched⟩ | stopped⟩ := linked.receiver fine
    · exact fetched.arrive linked.legal fits
    · obtain ⟨still, same, reported⟩ :=
        frameStep_invalid stopped.invalid (link.chunk size)
      refine ⟨done, rest, .inr ⟨stopped.split, same.trans stopped.delivered,
        reported, still, fun room able => ?_⟩⟩
      have valid := (stopped.answered room able).valid
      exact absurd (valid.symm.trans stopped.invalid) (by decide)

theorem linked_initial (sender receiver : TcpNode) {block storage : List Byte}
    (sized : packetSize ≤ block.length) (whole : storage.length = packetSize) :
    Linked receiver (initial sender receiver block storage) := by
  refine ⟨sendInitial_intact sender sized, rfl, nofun, Nat.zero_le _,
    fun _ => ⟨[], [], .inl ⟨[], rfl, rfl, rfl, frameInitial_ready receiver whole,
      nofun, ?_, ?_⟩⟩⟩
  · exact (init_represents block).content_eq
  · exact fun room able => ⟨able.valid, able.written, able.ordered, able.room⟩

theorem linkRun_linked (sender receiver : TcpNode) {block storage : List Byte}
    (sized : packetSize ≤ block.length) (whole : storage.length = packetSize)
    {steps : List LinkStep}
    (fits : Meets step Fits (initial sender receiver block storage) steps) :
    ∀ link ∈ states step (initial sender receiver block storage) steps,
      Linked receiver link :=
  invariant_of_meets (fun _ input linked fits =>
    match input with
    | .call _ => Linked.call linked fits
    | .arrive _ => Linked.arrive linked fits)
    (linked_initial sender receiver sized whole) fits

/-- A receiver whose answers are written, or have room in its send buffer, does
not find its connection invalid. -/
theorem linkRun_fine (sender receiver : TcpNode) {block storage : List Byte}
    (sized : packetSize ≤ block.length) (whole : storage.length = packetSize)
    {steps : List LinkStep}
    (fits : Meets step Fits (initial sender receiver block storage) steps) :
    ∀ link ∈ states step (initial sender receiver block storage) steps,
      link.sender.failed = false →
        Answering receiver (8 * alives link.packets) →
          link.receiver.failed = false :=
  fun link member fine able =>
    (linkRun_linked sender receiver sized whole fits link member).fine fine able

/-- In every order of sends, writes, reads and fetches, with every answer of
the two sockets and every split of the bytes: what has been fetched are the
first of the messages that were accepted for sending, in their order, and all
of them once everything has gone over the wire, unless the receiver has found
its connection invalid. -/
theorem linkRun_delivers (sender receiver : TcpNode) {block storage : List Byte}
    (sized : packetSize ≤ block.length) (whole : storage.length = packetSize)
    (steps : List LinkStep)
    (fits : Meets step Fits (initial sender receiver block storage) steps) :
    ∀ link ∈ states step (initial sender receiver block storage) steps,
      link.sender.failed = false → link.Delivers := by
  intro link member fine
  exact (linkRun_linked sender receiver sized whole fits link member).delivers
    fine

/-- A packet is sent and arrives. -/
theorem linkRun_delivers_packet :
    ([.call (.send ⟨[0, 6, 2, 0, 1, 1], by decide⟩ ⟨true, false⟩),
        .arrive 6].foldl step
      (initial (connectedNode [.took 8]) (connectedNode [.took 8])
        (List.replicate packetSize 0) (List.replicate packetSize 0))).Delivers := by
  refine linkRun_delivers (connectedNode [.took 8]) (connectedNode [.took 8])
    (by rw [length_replicate]) length_replicate
    [.call (.send ⟨[0, 6, 2, 0, 1, 1], by decide⟩ ⟨true, false⟩), .arrive 6]
    ⟨⟨fun _ misplaced => Nat.not_lt_zero _ misplaced.1, ?_⟩, ?_, trivial⟩
    _ (foldl_mem_states step _ _) rfl
  · intro packet member
    have same := eq_of_mem_takenBy member
    exact .inl (same ▸ ⟨⟨by decide, by decide⟩, by decide, by decide⟩)
  · change 6 ≤ (frameInitial (connectedNode [.took 8])
      (replicate packetSize 0)).node.recvBuffer.freespace
    rw [frameInitial_freespace, length_replicate]
    decide

end TcpLink

end NdNet.TcpNode

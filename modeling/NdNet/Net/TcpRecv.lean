import NdNet.Net.Answering
import Mathlib.Tactic.Simps.Basic

/-!
# Fetching packets from the receive buffer

`__net_fetch_msg` cuts packets off the front of the received data.  The lemmas
here describe one packet at a time: a packet that has not arrived completely is
left alone, a system message is handled and removed, any other packet is handed
out.  `Drained` collects what a sequence of these steps does to the buffer,
whatever was done with the packets themselves.

Sending an answer is a function of the sending side of the node alone.  To say
so the receiving side is exchanged under it.
-/

namespace NdNet.TcpNode

open LineBuf Store List

def recvView (node : TcpNode) : LineBuf × Bool :=
  (node.recvBuffer, node.userDefinePacket)

/-- The part of a node that belongs to receiving. -/
structure Receiver where
  recvBuffer : LineBuf
  userDefinePacket : Bool
  isCryptPacket : Bool
  crypt : NetCrypt

def receiver (node : TcpNode) : Receiver :=
  { recvBuffer := node.recvBuffer
    userDefinePacket := node.userDefinePacket
    isCryptPacket := node.isCryptPacket
    crypt := node.crypt }

@[simps]
def withReceiver (node : TcpNode) (side : Receiver) : TcpNode :=
  { node with
    recvBuffer := side.recvBuffer
    userDefinePacket := side.userDefinePacket
    isCryptPacket := side.isCryptPacket
    crypt := side.crypt }

section Sending

theorem withReceiver_withReceiver (node : TcpNode) (first second : Receiver) :
    (node.withReceiver first).withReceiver second = node.withReceiver second :=
  rfl

variable (node : TcpNode) (side : Receiver) (msg : List Byte) (flag : SendFlag)

theorem sysSocketWrite_withReceiver :
    (node.withReceiver side).sysSocketWrite msg =
      ((node.sysSocketWrite msg).1,
        (node.sysSocketWrite msg).2.withReceiver side) := by
  have results : (node.withReceiver side).writeResults = node.writeResults := rfl
  unfold sysSocketWrite
  rw [results]
  cases node.writeResults.head? with
  | none => rfl
  | some result =>
    cases result with
    | error timedOut => cases timedOut <;> rfl
    | took count =>
      dsimp only
      split <;> rfl

theorem sendbufWrite_withReceiver :
    (node.withReceiver side).sendbufWrite msg =
      ((node.sendbufWrite msg).1,
        (node.sendbufWrite msg).2.withReceiver side) :=
  rfl

theorem sendWithSave_withReceiver :
    (node.withReceiver side).sendWithSave msg =
      ((node.sendWithSave msg).1,
        (node.sendWithSave msg).2.withReceiver side) := by
  unfold sendWithSave
  simp only [sysSocketWrite_withReceiver, sendbufWrite_withReceiver,
    withReceiver_sysTimedOut]
  split_ifs <;> rfl

theorem flushBuffered_withReceiver :
    (node.withReceiver side).flushBuffered =
      node.flushBuffered.withReceiver side := by
  unfold flushBuffered
  simp only [sysSocketWrite_withReceiver, withReceiver_sendBuffer]
  split_ifs <;> rfl

theorem pushAndSend_withReceiver (isWriteAll : Bool) :
    (node.withReceiver side).pushAndSend msg isWriteAll =
      ((node.pushAndSend msg isWriteAll).1,
        (node.pushAndSend msg isWriteAll).2.withReceiver side) := by
  unfold pushAndSend
  simp only [flushBuffered_withReceiver, sendWithSave_withReceiver,
    sendbufWrite_withReceiver, withReceiver_sendBuffer]
  split_ifs <;> rfl

theorem sendBytes_withReceiver (isWriteAll : Bool) :
    (node.withReceiver side).sendBytes msg flag isWriteAll =
      ((node.sendBytes msg flag isWriteAll).1,
        (node.sendBytes msg flag isWriteAll).2.withReceiver side) := by
  unfold sendBytes
  simp only [sendWithSave_withReceiver, pushAndSend_withReceiver,
    withReceiver_sendBuffer]
  split_ifs <;> rfl

theorem send_withReceiver :
    (node.withReceiver side).send msg flag =
      ((node.send msg flag).1, (node.send msg flag).2.withReceiver side) := by
  unfold send
  simp only [sendBytes_withReceiver, withReceiver_isSession]
  split_ifs <;> rfl

theorem tcpConnectorSend_withReceiver :
    (node.withReceiver side).tcpConnectorSend msg flag =
      ((node.tcpConnectorSend msg flag).1,
        (node.tcpConnectorSend msg flag).2.withReceiver side) := by
  have sent := send_withReceiver { node with myerrno := .success } side msg flag
  unfold tcpConnectorSend
  rw [withReceiver_status]
  by_cases away : node.status ≠ .connected
  · rw [if_pos away, if_pos away]
    rfl
  · rw [if_neg away, if_neg away]
    exact sent

theorem trytoClearErr_withReceiver :
    (node.withReceiver side).trytoClearErr =
      (node.trytoClearErr.1, node.trytoClearErr.2.withReceiver side) := by
  unfold trytoClearErr
  rw [withReceiver_myerrno]
  cases node.myerrno <;> rfl

theorem connectorSend_withReceiver :
    (node.withReceiver side).connectorSend msg flag =
      ((node.connectorSend msg flag).1,
        (node.connectorSend msg flag).2.withReceiver side) := by
  have valid : (node.withReceiver side).connectorValid =
      node.connectorValid := rfl
  unfold connectorSend
  simp only [valid, trytoClearErr_withReceiver, tcpConnectorSend_withReceiver,
    send_withReceiver, withReceiver_checkedWrite]
  split_ifs <;> rfl

theorem connectorSend_receiver :
    (node.connectorSend msg flag).2.receiver = node.receiver :=
  congrArg (fun sent => sent.2.receiver)
    (connectorSend_withReceiver node node.receiver msg flag)

@[simp] theorem connectorSend_recvView :
    (node.connectorSend msg flag).2.recvView = node.recvView :=
  congrArg (fun side : Receiver => (side.recvBuffer, side.userDefinePacket))
    (connectorSend_receiver node msg flag)

end Sending

section Packets

variable {node : TcpNode} {packet rest queue : List Byte}

theorem recvStream_eq (holds : node.recvBuffer.Represents queue) :
    node.recvStream = queue ++
      slice node.recvBuffer.storage node.recvBuffer.endOff
        node.recvBuffer.storage.length := by
  rw [← holds.content_eq, content]
  exact (slice_append_slice _ holds.ordered
    (holds.storage_length ▸ holds.bounded)).symm

theorem sysmsgHander_receiver (node : TcpNode) :
    node.sysmsgHander.2.receiver =
      (node.rewriteStream ((resum node.recvStream).2.take 8)).receiver := by
  unfold sysmsgHander
  dsimp only
  split
  · rfl
  · split
    · split
      · rfl
      · exact connectorSend_receiver _ _ _
    · split <;> rfl

theorem sysmsgHander_rewrites (node : TcpNode) :
    node.sysmsgHander.2.recvView =
      (node.rewriteStream ((resum node.recvStream).2.take 8)).recvView :=
  congrArg (fun side : Receiver => (side.recvBuffer, side.userDefinePacket))
    (sysmsgHander_receiver node)

theorem sysmsgHander_recvView (node : TcpNode) :
    ∃ block, block.length ≤ 8 ∧
      node.sysmsgHander.2.recvView = (node.rewriteStream block).recvView :=
  ⟨_, length_take_le 8 _, sysmsgHander_rewrites node⟩

theorem sysmsgHander_result (node : TcpNode) :
    node.sysmsgHander.1 = 0 ∨ node.sysmsgHander.1 = -1 := by
  unfold sysmsgHander
  dsimp only
  split
  · exact .inr rfl
  · split
    · split
      · exact .inr rfl
      · exact .inl rfl
    · split
      · exact .inr rfl
      · exact .inl rfl

theorem resum_append_of_le (counts : getPackSize packet = packet.length)
    (large : 8 ≤ packet.length) (more : List Byte) :
    resum (packet ++ more) = ((resum packet).1, (resum packet).2 ++ more) := by
  have swapped := packetSwap_append packet (by omega) more
  have sameLen (memory block : List Byte) :
      packLen (overwrite memory 6 block) = packLen memory := by
    simp only [packLen, hostU16, byteAt_overwrite_of_lt (show 0 < 6 by omega),
      byteAt_overwrite_of_lt (show 0 + 1 < 6 by omega)]
  have length : packLen (packetSwap packet) = packet.length := by
    rw [packLen_packetSwap _ (by omega), counts]
  have lengthMore : packLen (packetSwap packet ++ more) = packet.length := by
    rw [← swapped, packLen_packetSwap _ (by rw [length_append]; omega),
      getPackSize, byteAt_append_left (by omega),
      byteAt_append_left (by omega)]
    exact counts
  have inside (block : List Byte) (two : block.length = 2)
      (front : List Byte) (same : front.length = packet.length) :
      overwrite (front ++ more) 6 block = overwrite front 6 block ++ more :=
    overwrite_append_left (by omega) more
  unfold resum
  simp only [sameLen, length, swapped, lengthMore]
  rw [inside (hostBytes 0) rfl _ (length_packetSwap packet),
    take_append_of_le_length (by simp),
    inside _ rfl _ (by simp)]

theorem resum_fields (counts : getPackSize packet = packet.length)
    (large : 8 ≤ packet.length) :
    hostU16 (resum packet).2 4 = hostU16 packet 4 ∧
      packLen (resum packet).2 = packet.length ∧
      stuffLen (resum packet).2 = stuffLen packet ∧
      (resum packet).2.length = packet.length := by
  have byte (index : Nat) (high : index < 6) :
      byteAt (resum packet).2 index = byteAt (packetSwap packet) index := by
    rw [resum, byteAt_overwrite_of_lt high, byteAt_overwrite_of_lt high]
  refine ⟨?_, ?_, ?_, ?_⟩
  · rw [hostU16, byte 4 (by omega), byte 5 (by omega),
      byteAt_packetSwap (by omega), byteAt_packetSwap (by omega)]
    rfl
  · rw [packLen, hostU16, byte 0 (by omega), byte 1 (by omega), ← counts,
      ← packLen_packetSwap _ (by omega)]
    rfl
  · rw [stuffLen, byte 3 (by omega), byteAt_packetSwap (by omega)]
    rfl
  · rw [resum, length_overwrite, length_overwrite, length_packetSwap]

/-- Whatever follows it, a well-formed keep-alive packet passes the tests that
the handler makes. -/
theorem resum_alive (alive : AlivePacket packet) (more : List Byte) :
    hostU16 (packet ++ more) 6 = (resum (packet ++ more)).1 ∧
      hostU16 (resum (packet ++ more)).2 4 = ersvAliveId ∧
      packLen (resum (packet ++ more)).2 = 8 ∧
      stuffLen (resum (packet ++ more)).2 = 5 := by
  have size : packet.length = 8 := alive.size
  have counts := alive.counts
  obtain ⟨msgid, length, stuffing, kept⟩ := resum_fields counts (by omega)
  have whole : packLen (overwrite (packetSwap packet) 6 (hostBytes 0)) =
      packet.length := by
    rw [packLen, hostU16, byteAt_overwrite_of_lt (by decide),
      byteAt_overwrite_of_lt (by decide), ← hostU16, ← packLen,
      packLen_packetSwap _ (by omega), counts]
  have sum : (resum packet).1 =
      checksum (overwrite (packetSwap packet) 6 (hostBytes 0)) := by
    unfold resum
    dsimp only
    rw [whole, take_of_length_le (by simp)]
  rw [resum_append_of_le counts (by omega)]
  refine ⟨?_, ?_, ?_, ?_⟩
  · rw [hostU16_append_left (by omega), sum]
    exact alive.summed
  · rw [hostU16_append_left (by omega), msgid]
    exact alive.msgid
  · rw [packLen, hostU16_append_left (by omega), ← packLen, length, size]
  · rw [stuffLen, byteAt_append_left (by omega), ← stuffLen, stuffing]
    exact alive.stuffing

/-- A keep-alive packet is answered, whatever comes of the answer. -/
theorem sysmsgHander_alive (holds : node.recvBuffer.Represents (packet ++ rest))
    (alive : AlivePacket packet) :
    node.sysmsgHander =
      (0, ((node.rewriteStream ((resum node.recvStream).2.take 8)).connectorSend
        makeAlivePack ⟨true, false⟩).2) := by
  have stream := recvStream_eq holds
  rw [append_assoc] at stream
  obtain ⟨sum, msgid, length, stuffing⟩ := resum_alive alive
    (rest ++ slice node.recvBuffer.storage node.recvBuffer.endOff
      node.recvBuffer.storage.length)
  rw [← stream] at sum msgid length stuffing
  unfold sysmsgHander
  rw [if_neg (not_not.mpr sum), if_pos msgid,
    if_neg (by rw [length, stuffing]; simp)]

theorem answered_alive (holds : node.recvBuffer.Represents (packet ++ rest))
    (alive : AlivePacket packet) (buf : LineBuf) :
    Answered node { node.sysmsgHander.2 with recvBuffer := buf } 1 := by
  intro room answering
  have rewritten : Answering (node.rewriteStream
      ((resum node.recvStream).2.take 8)) (room + 8) :=
    ⟨answering.valid, answering.written, answering.ordered, answering.room⟩
  have sent := rewritten.connectorSend
  rw [sysmsgHander_alive holds alive]
  exact ⟨sent.valid, sent.written, sent.ordered, sent.room⟩

theorem packetDecrypt_result (node : TcpNode) (msg : List Byte) :
    (node.packetDecrypt msg).1 = 0 ∨ (node.packetDecrypt msg).1 = -1 ∨
      0 < (node.packetDecrypt msg).1 := by
  unfold packetDecrypt
  dsimp only
  split
  · exact .inl rfl
  rename_i sized
  have positive : (0 : Int) < packLen msg := by
    omega
  split
  · exact .inr (.inr positive)
  split
  · exact .inr (.inl rfl)
  · split
    · split
      · exact .inl rfl
      · split
        · exact .inr (.inr (by omega))
        · exact .inl rfl
    · omega

theorem openPacket_result (node : TcpNode) (nonempty : packet ≠ []) :
    ((node.openPacket packet).1 = -1 ∧ isEncrypt packet = true ∨
        0 < (node.openPacket packet).1) ∧
      (node.openPacket packet).2.2.recvView = node.recvView ∧
      (isEncrypt packet = false →
        (node.openPacket packet).2.1 = packetSwap packet) := by
  unfold openPacket
  simp only [isEncrypt_packetSwap]
  cases crypted : isEncrypt packet with
  | false =>
    refine ⟨.inr ?_, rfl, fun _ => rfl⟩
    simpa [length_pos_iff] using nonempty
  | true =>
    rcases packetDecrypt_result node (packetSwap packet) with
      zero | failed | positive
    · rw [if_pos rfl, if_pos zero]
      exact ⟨.inl ⟨rfl, rfl⟩, rfl, fun plain => by cases plain⟩
    · rw [if_pos rfl, if_neg (by omega)]
      exact ⟨.inl ⟨failed, rfl⟩, rfl, fun plain => by cases plain⟩
    · rw [if_pos rfl, if_neg (by omega)]
      exact ⟨.inr positive, rfl, fun plain => by cases plain⟩

end Packets

theorem answered_openPacket {packet : List Byte}
    (plain : isEncrypt packet = false) (node : TcpNode) (buf : LineBuf) :
    Answered node (openPacket { node with recvBuffer := buf } packet).2.2 0 := by
  intro room answering
  unfold openPacket
  dsimp only
  rw [isEncrypt_packetSwap, plain]
  exact ⟨answering.valid, answering.written, answering.ordered, answering.room⟩

/-- Where draining leaves the data of a buffer: as long as the start stays in
the first quarter the end does not move; behind that the data has been moved
ahead; and a drained buffer is reset. -/
inductive Place (buf : LineBuf) (count : Nat) (after : LineBuf) : Prop
  | advanced (quarter : buf.startOff + count < buf.capacity / 4)
      (start : after.startOff = buf.startOff + count)
      (stop : after.endOff = buf.endOff)
  | moved (quarter : buf.capacity / 4 ≤ buf.startOff + count)
      (start : after.startOff < buf.capacity / 4)
      (stop : after.endOff < buf.endOff)
  | emptied (start : after.startOff = 0) (stop : after.endOff = 0)

/-- `count` bytes have been removed packet by packet, and `queue` is left. -/
structure Drained (buf : LineBuf) (count : Nat) (after : LineBuf)
    (queue : List Byte) : Prop where
  represents : after.Represents queue
  capacity : after.capacity = buf.capacity
  place : Place buf count after

section Drained

variable {buf after : LineBuf} {count : Nat} {queue : List Byte}

/-- Removing one more packet, some of whose first bytes may have been
rewritten. -/
theorem Drained.subData {front rest : List Byte}
    (drained : Drained buf count after (front ++ rest))
    (large : 32 ≤ buf.capacity) (nonempty : front ≠ []) (block : List Byte)
    (short : block.length ≤ front.length) :
    Drained buf (count + front.length)
      (LineBuf.subData
        { after with storage := overwrite after.storage after.startOff block }
        front.length) rest := by
  have holds := drained.represents
  have queued := holds.queue_length
  have extent := holds.datalen_eq
  have ordered := holds.ordered
  have capacity := drained.capacity
  have positive : 0 < front.length := length_pos_iff.mpr nonempty
  rw [length_append] at queued
  have rewritten : Represents
      { after with storage := overwrite after.storage after.startOff block }
      (slice (overwrite after.storage after.startOff block)
        after.startOff after.endOff) :=
    ⟨holds.ordered, holds.bounded, by simpa using holds.storage_length, rfl⟩
  refine ⟨?_, by simpa using capacity, ?_⟩
  · have removed := subData_represents rewritten front.length
    have kept : (slice (overwrite after.storage after.startOff block)
        after.startOff after.endOff).drop front.length = rest := by
      rw [← slice_add_left, slice_overwrite_of_ge _ _ (by omega),
        slice_add_left]
      have content := holds.content_eq
      rw [LineBuf.content] at content
      rw [content, drop_left]
    rwa [kept] at removed
  · unfold LineBuf.subData trytoMoveAhead
    dsimp only
    split
    · exact .emptied rfl rfl
    rename_i remains
    have remains : ¬ after.endOff ≤ after.startOff + front.length := remains
    split
    · rename_i quarter
      let next : LineBuf :=
        { after with
          storage := overwrite after.storage after.startOff block
          startOff := after.startOff + front.length }
      have length : next.datalen =
          after.endOff - (after.startOff + front.length) :=
        sizeSub_of_le
          (show after.startOff + front.length ≤ after.endOff by omega)
      have far : 8 ≤ after.startOff + front.length := by omega
      have some : next.datalen ≠ 0 := by
        rw [length]
        omega
      obtain ⟨start, stop⟩ := moveAhead_offsets some far
      rw [length] at stop
      show Place buf (count + front.length) next.moveAhead
      cases drained.place with
      | advanced before first last | moved before first last =>
        exact .moved (by omega) (by omega) (by omega)
      | emptied first last => omega
    · rename_i quarter
      cases drained.place with
      | advanced before first last =>
        refine .advanced (by omega) ?_ last
        show after.startOff + front.length = _
        omega
      | moved before first last =>
        refine .moved (by omega) ?_ last
        show after.startOff + front.length < _
        omega
      | emptied first last => omega

end Drained

variable {more : List Byte}

section Refetch

variable {node : TcpNode} {packet rest queue incoming : List Byte}

theorem getPackSize_of_append_eq (joined : queue ++ incoming = packet ++ more)
    (header : 2 ≤ queue.length) (sized : 2 ≤ packet.length) :
    getPackSize queue = getPackSize packet := by
  have bytes (index : Nat) (low : index < 2) :
      byteAt queue index = byteAt packet index := by
    rw [← byteAt_append_left (by omega) incoming, joined,
      byteAt_append_left (by omega)]
  rw [getPackSize, getPackSize, bytes 0 (by omega), bytes 1 (by omega)]

section

variable (holds : node.recvBuffer.Represents queue)
include holds

theorem getPackSize_recvStream (header : 2 ≤ queue.length) :
    getPackSize node.recvStream = getPackSize queue := by
  have stream : node.recvStream ++ [] = queue ++ _ :=
    (append_nil _).trans (recvStream_eq holds)
  refine getPackSize_of_append_eq stream ?_ header
  rw [recvStream_eq holds, length_append]
  omega

theorem ndsysMsg_recvStream (header : 4 ≤ queue.length) :
    ndsysMsg node.recvStream = ndsysMsg queue := by
  rw [ndsysMsg, ndsysMsg, recvStream_eq holds, byteAt_append_left (by omega)]

theorem refetch_incomplete (joined : queue ++ incoming = packet ++ more)
    (framed : Framed packet) (short : queue.length < packet.length)
    (rounds : Nat) : node.refetch (rounds + 1) = (0, [], node) := by
  have queued := holds.queue_length
  have small := framed.length_lt
  have large : 6 ≤ packet.length := framed.large
  unfold refetch
  dsimp only
  by_cases header : node.recvBuffer.datalen < packetHdrSize
  · rw [if_pos header]
  have header' : 4 ≤ queue.length := by
    rw [queued]
    exact Nat.le_of_not_lt header
  have size : getPackSize node.recvStream = packet.length := by
    rw [getPackSize_recvStream holds (by omega),
      getPackSize_of_append_eq joined (by omega) (by omega), framed.counts]
  have fine : ¬ (packetSize < packet.length ∨ packet.length < minPacketLen) :=
    fun wrong => wrong.elim (fun long => by omega)
      (fun tiny => Nat.not_le_of_lt tiny framed.large)
  rw [if_neg header, size, if_neg fine, if_pos (by omega)]

end

theorem read_packet (holds : node.recvBuffer.Represents (packet ++ rest))
    (framed : Framed packet) :
    node.recvBuffer.read packet.length .specified =
      (intOfSize packet.length, packet,
        node.recvBuffer.subData packet.length) := by
  have queued := holds.queue_length
  have small := framed.length_lt
  rw [length_append] at queued
  have bytes : slice node.recvBuffer.storage node.recvBuffer.startOff
      (node.recvBuffer.startOff + packet.length) = packet := by
    have extent := holds.datalen_eq
    have ordered := holds.ordered
    have content := holds.content_eq
    rw [slice_take _ (show node.recvBuffer.startOff + packet.length ≤
      node.recvBuffer.endOff by omega)]
    rw [LineBuf.content] at content
    rw [content, take_left]
  rw [LineBuf.read, if_neg (fun refused => by omega)]
  simp only [if_neg (show ¬ node.recvBuffer.datalen < packet.length by omega),
    bytes]

theorem refetch_packet (holds : node.recvBuffer.Represents (packet ++ rest))
    (framed : Framed packet) (standard : node.userDefinePacket = false)
    (rounds : Nat) :
    node.refetch (rounds + 1) =
      if ndsysMsg packet then
        if node.sysmsgHander.1 = -1 then (-1, [], node.sysmsgHander.2)
        else
          refetch
            { node.sysmsgHander.2 with
              recvBuffer :=
                node.sysmsgHander.2.recvBuffer.subData packet.length }
            rounds
      else
        openPacket
          { node with recvBuffer := node.recvBuffer.subData packet.length }
          packet := by
  have queued := holds.queue_length
  have small := framed.length_lt
  have large : 6 ≤ packet.length := framed.large
  rw [length_append] at queued
  have size : getPackSize node.recvStream = packet.length := by
    rw [getPackSize_recvStream holds (by simp; omega), ← framed.counts]
    exact getPackSize_of_append_eq (append_nil _) (by simp; omega)
      (by omega)
  have system : ndsysMsg node.recvStream = ndsysMsg packet := by
    rw [ndsysMsg_recvStream holds (by simp; omega), ndsysMsg, ndsysMsg,
      byteAt_append_left (by omega)]
  have header : ¬ node.recvBuffer.datalen < packetHdrSize :=
    Nat.not_lt.mpr (show 4 ≤ _ by omega)
  have fine : ¬ (packetSize < packet.length ∨ packet.length < minPacketLen) :=
    fun wrong => wrong.elim (fun long => by omega)
      (fun tiny => Nat.not_le_of_lt tiny framed.large)
  have taken := read_packet holds framed
  conv_lhs => unfold refetch
  simp only [if_neg header, size, if_neg fine,
    if_neg (show ¬ node.recvBuffer.datalen < packet.length by omega),
    standard, system, taken]
  simp

/-- The receive buffer, drained of `count` bytes since it was `buf`, and the
bytes still to come make up the packets `rest`. -/
structure Remains (buf : LineBuf) (count : Nat) (node : TcpNode)
    (queue incoming : List Byte) (rest : List (List Byte)) : Prop where
  standard : node.userDefinePacket = false
  drained : Drained buf count node.recvBuffer queue
  joined : queue ++ incoming = rest.flatten

def Incomplete (queue : List Byte) (rest : List (List Byte)) : Prop :=
  ∀ packet ∈ rest.head?, queue.length < packet.length

/-- What a fetch can end with: it gives up on a packet that is neither a plain
user packet nor a keep-alive packet; it has removed the system messages in
front of an incomplete packet; or it hands out the packet behind them. -/
inductive FetchEnd (buf : LineBuf) (count : Nat) (incoming : List Byte)
    (start : TcpNode) (packets : List (List Byte))
    (result : Int × List Byte × TcpNode) : Prop
  | failed (returned : result.1 = -1)
      (strange : ∃ packet ∈ packets, ¬ UserPacket packet ∧ ¬ AlivePacket packet)
  | exhausted (returned : result.1 = 0) (systems rest : List (List Byte))
      (split : packets = systems ++ rest)
      (system : ∀ packet ∈ systems, ndsysMsg packet = true)
      (queue : List Byte) (incomplete : Incomplete queue rest)
      (remains : Remains buf (count + systems.flatten.length) result.2.2 queue
        incoming rest)
      (answered : (∀ packet ∈ systems, AlivePacket packet) →
        Answered start result.2.2 systems.length)
  | handed (returned : 0 < result.1) (systems : List (List Byte))
      (packet : List Byte) (rest : List (List Byte))
      (split : packets = systems ++ packet :: rest)
      (system : ∀ packet ∈ systems, ndsysMsg packet = true)
      (user : ndsysMsg packet = false)
      (message : isEncrypt packet = false → result.2.1 = packetSwap packet)
      (queue : List Byte)
      (remains : Remains buf (count + (systems.flatten.length + packet.length))
        result.2.2 queue incoming rest)
      (answered : (∀ packet ∈ systems, AlivePacket packet) →
        isEncrypt packet = false → Answered start result.2.2 systems.length)

theorem FetchEnd.cons {buf : LineBuf} {count : Nat} {start next : TcpNode}
    {packets : List (List Byte)} {result : Int × List Byte × TcpNode}
    (system : ndsysMsg packet = true)
    (answers : AlivePacket packet → Answered start next 1)
    (fetched : FetchEnd buf (count + packet.length) incoming next packets
      result) :
    FetchEnd buf count incoming start (packet :: packets) result := by
  have both {systems : List (List Byte)}
      (all : ∀ packet ∈ systems, ndsysMsg packet = true) :
      ∀ other ∈ packet :: systems, ndsysMsg other = true := by
    intro other member
    rcases mem_cons.mp member with rfl | later
    · exact system
    · exact all other later
  have onward {systems : List (List Byte)}
      (alive : ∀ other ∈ packet :: systems, AlivePacket other)
      (answered : (∀ other ∈ systems, AlivePacket other) →
        Answered next result.2.2 systems.length) :
      Answered start result.2.2 (packet :: systems).length := by
    obtain ⟨first, others⟩ := forall_mem_cons.mp alive
    rw [length_cons, Nat.add_comm]
    exact (answers first).trans (answered others)
  cases fetched with
  | failed returned strange =>
    obtain ⟨other, member, neither⟩ := strange
    exact .failed returned ⟨other, mem_cons_of_mem _ member, neither⟩
  | exhausted returned systems rest split all queue incomplete remains
      answered =>
      refine .exhausted returned (packet :: systems) rest (by simp [split])
        (both all) queue incomplete ?_ (onward · answered)
      rwa [flatten_cons, length_append, ← Nat.add_assoc]
  | handed returned systems other rest split all user message queue remains
      answered =>
      refine .handed returned (packet :: systems) other rest (by simp [split])
        (both all) user message queue ?_
        (fun alive plain => onward alive (answered · plain))
      rwa [flatten_cons, length_append, Nat.add_assoc, ← Nat.add_assoc count]

theorem exists_rest_of_append_eq (joined : queue ++ incoming = packet ++ more)
    (arrived : packet.length ≤ queue.length) :
    ∃ rest, queue = packet ++ rest ∧ rest ++ incoming = more := by
  rcases append_eq_append_iff.mp joined with
    ⟨part, packetEq, incomingEq⟩ | ⟨rest, queueEq, moreEq⟩
  · have none : part = [] := by
      have length := congrArg length packetEq
      rw [length_append] at length
      exact length_eq_zero_iff.mp (by omega)
    subst none
    exact ⟨[], by simp [packetEq], by simp [incomingEq]⟩
  · exact ⟨rest, queueEq, moreEq.symm⟩

section OnePacket

variable {buf : LineBuf} {count : Nat} {packets : List (List Byte)}

theorem Remains.handled (large : 32 ≤ buf.capacity) (legal : Legal packet)
    (system : ndsysMsg packet = true)
    (remains : Remains buf count node (packet ++ rest) incoming
      (packet :: packets)) :
    Remains buf (count + packet.length)
      { node.sysmsgHander.2 with
        recvBuffer := node.sysmsgHander.2.recvBuffer.subData packet.length }
      rest incoming packets := by
  have sized := legal.system system
  have positive : 6 ≤ packet.length := legal.large
  have nonempty : packet ≠ [] := length_pos_iff.mp (by omega)
  have joined := remains.joined
  rw [flatten_cons, append_assoc] at joined
  obtain ⟨block, short, view⟩ := sysmsgHander_recvView node
  have rewritten : node.sysmsgHander.2.recvBuffer =
      (node.rewriteStream block).recvBuffer := congrArg Prod.fst view
  have standard : node.sysmsgHander.2.userDefinePacket =
      node.userDefinePacket := congrArg Prod.snd view
  refine ⟨standard.trans remains.standard, ?_, append_cancel_left joined⟩
  rw [rewritten]
  exact remains.drained.subData large nonempty block (by omega)

theorem Remains.opened (large : 32 ≤ buf.capacity) (legal : Legal packet)
    (remains : Remains buf count node (packet ++ rest) incoming
      (packet :: packets)) :
    Remains buf (count + packet.length)
      (openPacket
        { node with recvBuffer := node.recvBuffer.subData packet.length }
        packet).2.2 rest incoming packets := by
  have positive : 6 ≤ packet.length := legal.large
  have nonempty : packet ≠ [] := length_pos_iff.mp (by omega)
  have joined := remains.joined
  rw [flatten_cons, append_assoc] at joined
  obtain ⟨-, view, -⟩ := openPacket_result
    { node with recvBuffer := node.recvBuffer.subData packet.length } nonempty
  have removed := remains.drained.subData large nonempty []
    (by simp)
  rw [overwrite_nil] at removed
  refine ⟨(congrArg Prod.snd view).trans remains.standard, ?_,
    append_cancel_left joined⟩
  have buffer : (openPacket
      { node with recvBuffer := node.recvBuffer.subData packet.length }
      packet).2.2.recvBuffer = node.recvBuffer.subData packet.length :=
    congrArg Prod.fst view
  rw [buffer]
  exact removed

end OnePacket

theorem refetch_spec {buf : LineBuf} (large : 32 ≤ buf.capacity)
    {packets : List (List Byte)} (legal : ∀ packet ∈ packets, Legal packet)
    {count : Nat} (remains : Remains buf count node queue incoming packets)
    (rounds : Nat) (enough : queue.length < rounds) :
    FetchEnd buf count incoming node packets (node.refetch rounds) := by
  induction packets generalizing node queue count rounds with
  | nil =>
    have holds := remains.drained.represents
    have none : queue = [] := (append_eq_nil_iff.mp remains.joined).1
    have empty : node.recvBuffer.datalen < packetHdrSize := by
      rw [holds.queue_eq_nil_iff.mp none]
      decide
    obtain ⟨rounds, rfl⟩ := Nat.exists_eq_add_of_lt enough
    have result : node.refetch (queue.length + rounds + 1) = (0, [], node) := by
      unfold refetch
      rw [if_pos empty]
    rw [result]
    exact .exhausted rfl [] [] rfl (by simp) queue (by simp [Incomplete])
      remains fun _ => .refl node
  | cons packet packets induction =>
    have holds := remains.drained.represents
    have joined := remains.joined
    have this := legal packet (mem_cons_self ..)
    have positive : 6 ≤ packet.length := this.large
    have nonempty : packet ≠ [] := length_pos_iff.mp (by omega)
    obtain ⟨fewer, rfl⟩ : ∃ fewer, rounds = fewer + 1 :=
      ⟨rounds - 1, by omega⟩
    rw [flatten_cons] at joined
    rcases Nat.lt_or_ge queue.length packet.length with short | arrived
    · rw [refetch_incomplete holds joined this.toFramed short]
      exact .exhausted rfl [] (packet :: packets) rfl (by simp) queue
        (by simpa [Incomplete] using short) remains fun _ => .refl node
    obtain ⟨rest, rfl, -⟩ := exists_rest_of_append_eq joined arrived
    rw [refetch_packet holds this.toFramed remains.standard]
    cases system : ndsysMsg packet with
    | true =>
      rw [if_pos rfl]
      by_cases refused : node.sysmsgHander.1 = -1
      · rw [if_pos refused]
        refine .failed rfl ⟨packet, mem_cons_self .., ?_, ?_⟩
        · intro user
          rw [user.user] at system
          cases system
        · intro alive
          rw [sysmsgHander_alive holds alive] at refused
          exact absurd refused (by decide : ¬ (0 : Int) = -1)
      · rw [if_neg refused]
        refine FetchEnd.cons system
          (fun alive => answered_alive holds alive
            (node.sysmsgHander.2.recvBuffer.subData packet.length)) ?_
        apply induction
          (fun other member => legal other (mem_cons_of_mem _ member))
          (remains.handled large this system)
        rw [length_append] at enough
        omega
    | false =>
      rw [if_neg (by simp)]
      obtain ⟨returned, -, message⟩ := openPacket_result
        { node with recvBuffer := node.recvBuffer.subData packet.length }
        nonempty
      rcases returned with ⟨refused, crypted⟩ | positive
      · refine .failed refused ⟨packet, mem_cons_self .., ?_, ?_⟩
        · intro user
          rw [user.plain] at crypted
          cases crypted
        · intro alive
          rw [alive.system] at system
          cases system
      · refine .handed positive [] packet packets rfl (by simp) system
          message rest ?_ fun _ plain => answered_openPacket plain node _
        rw [flatten_nil, length_nil, Nat.zero_add]
        exact remains.opened large this

end Refetch

end NdNet.TcpNode

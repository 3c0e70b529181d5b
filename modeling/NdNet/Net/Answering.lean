import NdNet.Common.LineBufQueue
import NdNet.Net.TcpNode

/-!
# Answers that do not end the connection

A keep-alive packet is answered while packets are fetched, and an answer whose
write fails leaves a connection from which nothing is fetched any more.
`Answering` is the connection on which this does not happen: the socket may
take a part of what it is offered, block or time out, and what it has not taken
has room in the send buffer.
-/

namespace NdNet.TcpNode

open LineBuf

/-- A valid connection whose socket does not fail, with `room` bytes behind the
data of its send buffer. -/
structure Answering (node : TcpNode) (room : Nat) : Prop where
  valid : node.connectorValid = true
  written : WriteResult.error false ∉ node.writeResults
  ordered : node.sendBuffer.startOff ≤ node.sendBuffer.endOff
  room : node.sendBuffer.endOff + room ≤ node.sendBuffer.capacity

theorem subData_offsets (buf : LineBuf) (count : Nat) :
    (buf.subData count).startOff ≤ (buf.subData count).endOff ∧
      (buf.subData count).endOff ≤ buf.endOff := by
  unfold LineBuf.subData
  dsimp only
  split
  · exact ⟨Nat.le_refl 0, Nat.zero_le _⟩
  rename_i left
  rw [Nat.not_le] at left
  have rest : LineBuf.datalen { buf with startOff := buf.startOff + count } =
      buf.endOff - (buf.startOff + count) :=
    sizeSub_of_le (Nat.le_of_lt left)
  have still : buf.startOff + count ≤ buf.endOff := Nat.le_of_lt left
  unfold LineBuf.trytoMoveAhead LineBuf.moveAhead
  rw [rest]
  split
  · split
    · exact ⟨Nat.le_refl 0, Nat.zero_le _⟩
    · split
      · rw [setZeroTail_startOff, setZeroTail_endOff]
        exact ⟨Nat.zero_le _, Nat.sub_le _ _⟩
      · exact ⟨still, Nat.le_refl _⟩
  · exact ⟨still, Nat.le_refl _⟩

section Answering

variable {node after : TcpNode} {room : Nat}

theorem connectorValid_congr (valid : node.connectorValid = true)
    (fd : after.fd = node.fd) (status : after.status = node.status)
    (fine : after.checkError = false) : after.connectorValid = true := by
  simp only [connectorValid, Bool.and_eq_true] at valid ⊢
  rw [fd, status, fine]
  exact ⟨⟨valid.1.1, rfl⟩, valid.2⟩

theorem trytoClearErr_of_valid (valid : node.connectorValid = true) :
    node.trytoClearErr = (false, { node with myerrno := .success }) := by
  simp only [connectorValid, checkError, Bool.and_eq_true] at valid
  unfold trytoClearErr
  cases error : node.myerrno <;> simp_all

namespace Answering

theorem room_of_le {more : Nat} (answering : Answering node more)
    (less : room ≤ more) :
    node.sendBuffer.endOff + room ≤ node.sendBuffer.capacity :=
  Nat.le_trans (Nat.add_le_add_left less _) answering.room

theorem less {more : Nat} (answering : Answering node more)
    (less : room ≤ more) : Answering node room :=
  { answering with room := answering.room_of_le less }

section

variable (answering : Answering node room)
include answering

theorem fine : node.checkError = false := by
  have valid := answering.valid
  simp only [connectorValid, Bool.and_eq_true, Bool.not_eq_true'] at valid
  exact valid.1.2

theorem congr (fd : after.fd = node.fd) (status : after.status = node.status)
    (fine : after.checkError = false)
    (results : after.writeResults = node.writeResults.tail)
    (buffer : after.sendBuffer = node.sendBuffer) : Answering after room where
  valid := connectorValid_congr answering.valid fd status fine
  written := fun failing =>
    answering.written (List.mem_of_mem_tail (results ▸ failing))
  ordered := buffer ▸ answering.ordered
  room := buffer ▸ answering.room

theorem sysSocketWrite (data : List Byte) :
    0 ≤ (node.sysSocketWrite data).1 ∧
      Answering (node.sysSocketWrite data).2 room := by
  have written := answering.written
  unfold TcpNode.sysSocketWrite
  cases results : node.writeResults.head? with
  | none =>
    exact ⟨Int.le_refl 0, answering.congr rfl rfl rfl rfl rfl⟩
  | some result =>
    cases result with
    | error timedOut =>
      cases timedOut with
      | true => exact ⟨Int.le_refl 0, answering.congr rfl rfl rfl rfl rfl⟩
      | false => exact absurd (List.mem_of_mem_head? results) written
    | took count =>
      dsimp only
      split
      · exact ⟨Int.natCast_nonneg _,
          answering.congr rfl rfl answering.fine rfl rfl⟩
      · exact ⟨Int.le_refl 0, answering.congr rfl rfl rfl rfl rfl⟩

theorem sendbufSub (count : Nat) :
    Answering (node.sendbufSub count) room := by
  obtain ⟨ordered, less⟩ := subData_offsets node.sendBuffer count
  have space := answering.room
  refine ⟨answering.valid, answering.written, ordered, ?_⟩
  change (node.sendBuffer.subData count).endOff + room ≤
    (node.sendBuffer.subData count).capacity
  rw [subData_capacity]
  omega

end

theorem sendbufWrite {data : List Byte}
    (answering : Answering node (room + data.length)) :
    (node.sendbufWrite data).1 = intOfSize data.length ∧
      Answering (node.sendbufWrite data).2 room := by
  have space := answering.room
  have free : data.length ≤ node.sendBuffer.freespace := by
    rw [LineBuf.freespace, sizeSub_of_le (by omega)]
    omega
  have ordered := answering.ordered
  unfold TcpNode.sendbufWrite LineBuf.write
  rw [if_pos free]
  refine ⟨rfl, answering.valid, answering.written, ?_, ?_⟩
  · rw [append_startOff, append_endOff]
    omega
  · rw [append_endOff, append_capacity]
    omega

theorem flushBuffered (answering : Answering node room) :
    Answering node.flushBuffered room := by
  unfold TcpNode.flushBuffered
  split
  · dsimp only
    have written := (answering.sysSocketWrite node.sendBuffer.content).2
    split
    · exact written.sendbufSub _
    · exact written
  · exact answering

variable {msg : List Byte}

theorem sendWithSave (answering : Answering node (room + msg.length))
    (small : msg.length < 2 ^ 31) :
    0 ≤ (node.sendWithSave msg).1 ∧
      Answering (node.sendWithSave msg).2 room := by
  obtain ⟨positive, written⟩ := answering.sysSocketWrite msg
  have whole := intOfSize_of_lt small
  unfold TcpNode.sendWithSave
  dsimp only
  rw [if_neg (by omega)]
  split
  · exact ⟨by dsimp only; omega, written.less (Nat.le_add_right _ _)⟩
  have shorter : (msg.drop (node.sysSocketWrite msg).1.toNat).length ≤
      msg.length := by
    rw [List.length_drop]
    exact Nat.sub_le _ _
  have saved := (written.less (Nat.add_le_add_left shorter room)).sendbufWrite
  split
  · exact ⟨by dsimp only; omega, saved.2⟩
  · exact ⟨positive, saved.2⟩

theorem pushAndSend (answering : Answering node (room + msg.length))
    (small : msg.length < 2 ^ 31) :
    0 ≤ (node.pushAndSend msg true).1 ∧
      Answering (node.pushAndSend msg true).2 room := by
  have flushed := answering.flushBuffered
  have space := flushed.room
  have ordered := flushed.ordered
  unfold TcpNode.pushAndSend
  dsimp only
  split
  · exact flushed.sendWithSave small
  · have free : ¬ node.flushBuffered.sendBuffer.freeCapacity < msg.length := by
      rw [LineBuf.freeCapacity, LineBuf.datalen, sizeSub_of_le ordered,
        sizeSub_of_le (by omega)]
      omega
    rw [if_neg fun full => free full.2]
    obtain ⟨result, saved⟩ := flushed.sendbufWrite
    exact ⟨by rw [result, intOfSize_of_lt small]; omega, saved⟩

theorem send (answering : Answering node (room + (packetOf msg).length))
    (small : (packetOf msg).length < 2 ^ 31) (urgency : Bool) :
    Answering (node.send msg ⟨urgency, false⟩).2 room := by
  have sent (urgency : Bool) :
      0 ≤ (node.sendBytes (packetOf msg) ⟨urgency, false⟩ true).1 ∧
        Answering (node.sendBytes (packetOf msg) ⟨urgency, false⟩ true).2
          room := by
    unfold TcpNode.sendBytes
    split
    · exact answering.sendWithSave small
    · exact answering.pushAndSend small
  unfold TcpNode.send
  split
  · dsimp only
    have result := (sent false).1
    rw [if_neg (by omega)]
    exact (sent false).2
  · exact (sent urgency).2

theorem connectorSend (answering : Answering node (room + 8)) :
    Answering (node.connectorSend makeAlivePack ⟨true, false⟩).2 room := by
  have length : (packetOf (packetSwap
      (Store.overwrite makeAlivePack 2 [ndnetmsgVersion]))).length = 8 := by
    decide
  have cleared : Answering { node with myerrno := .success } (room + 8) :=
    { answering with
      valid := connectorValid_congr answering.valid rfl rfl rfl }
  have sent := (length.symm ▸ cleared : Answering _ (room + (packetOf
    (packetSwap (Store.overwrite makeAlivePack 2
      [ndnetmsgVersion]))).length)).send (by rw [length]; decide) true
  have connected : node.status = .connected := by
    have valid := answering.valid
    simp only [connectorValid, Bool.and_eq_true, decide_eq_true_eq] at valid
    exact valid.2
  unfold TcpNode.connectorSend tcpConnectorSend
  rw [answering.valid, trytoClearErr_of_valid answering.valid]
  simp only [Bool.not_true, Bool.false_eq_true, if_false]
  rw [if_neg (not_not.mpr connected)]
  split
  · exact sent
  · exact sent

end Answering

def Answered (start after : TcpNode) (answers : Nat) : Prop :=
  ∀ room, Answering start (room + 8 * answers) → Answering after room

theorem Answered.refl (node : TcpNode) : Answered node node 0 :=
  fun _ answering => answering

theorem Answered.trans {start middle after : TcpNode} {first second : Nat}
    (begun : Answered start middle first)
    (goesOn : Answered middle after second) :
    Answered start after (first + second) := by
  intro room answering
  apply goesOn
  apply begun
  rw [Nat.add_assoc, ← Nat.mul_add, Nat.add_comm second]
  exact answering

end Answering

end NdNet.TcpNode

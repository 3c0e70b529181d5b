import NdNet.Lib.Pieces
import NdNet.Udt.Window

/-!
# What one end of a connection knows

The two ends of a connection share two streams of bytes. `Ready` says, from the
side of one end, how far both streams have got: its counters stand for
positions in the streams, its buffers hold the bytes between these positions,
and the packets it has sent are pieces of its stream and honest
acknowledgements of the other one.
-/

namespace NdNet

open Pieces

/-- What one end has to know about the other. -/
structure Peer where
  /-- The number of the first byte the peer sends. -/
  base : Seq
  /-- The bytes the peer has accepted for sending. -/
  accepted : List Byte
  /-- The peer has sent a FIN. -/
  finished : Bool
  /-- How many of our bytes the peer has appended. -/
  appended : Nat
  /-- How many of the peer's bytes are known to have been appended. -/
  seen : Nat

/-- A data pocket is a piece of the stream, or so old that its first byte has
been appended.  A closing node may send bytes from behind its stream. -/
def UdtPocket.Carries (base : Seq) (accepted : List Byte) (finished : Bool)
    (appended : Nat) (pocket : UdtPocket) : Prop :=
  ∃ position, position ≤ accepted.length ∧
    pocket.sequence = base + BitVec.ofNat 32 position ∧
    (position < appended ∨
      Agrees accepted position pocket.data ∧
        (position + pocket.data.length ≤ accepted.length ∨
          finished = true ∧ pocket.data.length ≤ udtFragmentLen))

/-- A pocket the protocol sends on an established connection. -/
def UdtPocket.Sent (base : Seq) (accepted : List Byte) (finished : Bool)
    (appended : Nat) (pocket : UdtPocket) : Prop :=
  (pocket.udtType = .data ∨ pocket.udtType = .ack ∨
    pocket.udtType = .fin ∧ pocket.ack = false ∧ finished = true ∨
    pocket.udtType = .reset) ∧
  (pocket.udtType = .data → pocket.Carries base accepted finished appended)

def UdtPocket.Honest (peerBase : Seq) (appended : Nat) (pocket : UdtPocket) :
    Prop :=
  pocket.acknowledges →
    ∃ count ≤ appended, pocket.ackSeq = peerBase + BitVec.ofNat 32 count

section Pocket

variable {base : Seq} {accepted : List Byte} {finished : Bool} {appended : Nat}
  {pocket : UdtPocket}

theorem UdtPocket.Carries.later (holds : pocket.Carries base accepted finished
      appended) {later : Nat} (grown : appended ≤ later) :
    pocket.Carries base accepted finished later := by
  obtain ⟨position, inside, number, piece⟩ := holds
  exact ⟨position, inside, number, piece.imp_left fun old => by omega⟩

theorem UdtPocket.Carries.finish (holds : pocket.Carries base accepted finished
      appended) {later : Bool} (kept : finished = true → later = true) :
    pocket.Carries base accepted later appended := by
  obtain ⟨position, inside, number, old | ⟨agrees, reach⟩⟩ := holds
  · exact ⟨position, inside, number, .inl old⟩
  · exact ⟨position, inside, number,
      .inr ⟨agrees, reach.imp_right fun beyond => ⟨kept beyond.1, beyond.2⟩⟩⟩

theorem UdtPocket.Carries.extend (holds : pocket.Carries base accepted false
      appended) (data : List Byte) :
    pocket.Carries base (accepted ++ data) false appended := by
  obtain ⟨position, inside, number, piece⟩ := holds
  have longer : accepted.length ≤ (accepted ++ data).length := by simp
  refine ⟨position, by omega, number, ?_⟩
  rcases piece with old | ⟨agrees, reach | beyond⟩
  · exact .inl old
  · exact .inr ⟨agrees.extend reach data, .inl (by omega)⟩
  · cases beyond.1

theorem UdtPocket.Sent.later (holds : pocket.Sent base accepted finished
      appended) {later : Nat} (grown : appended ≤ later) :
    pocket.Sent base accepted finished later :=
  ⟨holds.1, fun kind => (holds.2 kind).later grown⟩

theorem UdtPocket.Sent.finish (holds : pocket.Sent base accepted finished
      appended) : pocket.Sent base accepted true appended := by
  refine ⟨?_, fun kind => (holds.2 kind).finish fun _ => rfl⟩
  rcases holds.1 with kind | kind | ⟨kind, plain, -⟩ | kind
  · exact .inl kind
  · exact .inr (.inl kind)
  · exact .inr (.inr (.inl ⟨kind, plain, rfl⟩))
  · exact .inr (.inr (.inr kind))

theorem UdtPocket.Sent.extend (holds : pocket.Sent base accepted false
      appended) (data : List Byte) :
    pocket.Sent base (accepted ++ data) false appended :=
  ⟨holds.1, fun kind => (holds.2 kind).extend data⟩

end Pocket

namespace UdtNode

open NetStat LineBuf

/-- The part of a node that the two streams show in. -/
structure StreamView where
  status : NetStat
  isRetranslate : Bool
  retransSeq : Seq
  sendSequence : Seq
  acknowledgedSeq : Seq
  sendBuffer : LineBuf
  receivedSequence : Seq
  recvBuffer : LineBuf
  preList : List PrePacket
  wire : List UdtPocket

def streamView (node : UdtNode) : StreamView :=
  { status := node.status
    isRetranslate := node.isRetranslate
    retransSeq := node.retransSeq
    sendSequence := node.sendSequence
    acknowledgedSeq := node.acknowledgedSeq
    sendBuffer := node.sendBuffer
    receivedSequence := node.receivedSequence
    recvBuffer := node.recvBuffer
    preList := node.preList
    wire := node.wire }

/-- The sending end: `acked`, `sent` and `released` are the positions up to
which bytes are acknowledged, sent, and gone from the send buffer.  They differ
from what the sequence numbers say only after the last acknowledgement of a
closing node, which empties the buffer and leaves `acknowledged_seq` alone. -/
structure Sending (base : Seq) (accepted : List Byte) (appended : Nat)
    (view : StreamView) (acked sent released : Nat) : Prop where
  live : view.status.has established
  small : accepted.length < 2 ^ 32
  finSmall : view.status.has finsend → accepted.length + udtFragmentLen < 2 ^ 32
  fixed : view.sendBuffer.autoInc = false
  capacity : view.sendBuffer.capacity = packetSize
  buffer : view.sendBuffer.Represents (accepted.drop released)
  ackedSeq : view.acknowledgedSeq = base + BitVec.ofNat 32 acked
  sendSeq : view.sendSequence = base + BitVec.ofNat 32 sent
  acked_le : acked ≤ sent
  sent_le : sent ≤ accepted.length
  released_le : released ≤ appended
  appendedSmall : appended < 2 ^ 32
  phase : released = acked ∨
    view.status.has finsend ∧ view.status.has sendclose ∧
      released = accepted.length ∧ sent = accepted.length
  resend : view.isRetranslate → view.status.has finsend ∨
    ∃ upTo, acked ≤ upTo ∧ upTo ≤ accepted.length ∧
      view.retransSeq = base + BitVec.ofNat 32 upTo
  wire : ∀ pocket ∈ view.wire,
    pocket.Sent base accepted (view.status.has finsend) appended

/-- All bytes that have been appended to the receive buffer: those handed out
to the application and those still there. -/
def StreamView.appended (view : StreamView) (taken : List Byte) : List Byte :=
  taken ++ view.recvBuffer.content

structure Receiving (peer : Peer) (taken : List Byte) (view : StreamView) :
    Prop where
  small : peer.accepted.length < 2 ^ 32
  finSmall : peer.finished = true →
    peer.accepted.length + udtFragmentLen < 2 ^ 32
  fixed : view.recvBuffer.autoInc = false
  capacity : view.recvBuffer.capacity = packetSize
  buffer : view.recvBuffer.Represents view.recvBuffer.content
  number : view.receivedSequence =
    peer.base + BitVec.ofNat 32 (view.appended taken).length
  agrees : Agrees peer.accepted 0 (view.appended taken)
  bounded : (view.appended taken).length ≤ peer.accepted.length ∨
    peer.finished = true ∧ (view.appended taken).length < 2 ^ 32
  kept : peer.seen ≤ (view.appended taken).length
  early : ∀ entry ∈ view.preList,
    entry.pack.Carries peer.base peer.accepted peer.finished
      (view.appended taken).length
  acks : ∀ pocket ∈ view.wire,
    pocket.Honest peer.base (view.appended taken).length

structure Ready (base : Seq) (peer : Peer) (accepted taken : List Byte)
    (view : StreamView) : Prop where
  sending : ∃ acked sent released,
    Sending base accepted peer.appended view acked sent released
  receiving : Receiving peer taken view

variable {pocket : UdtPocket}

section Ready

variable {base : Seq} {peer : Peer} {accepted taken : List Byte}
  {node after : UdtNode}

theorem Ready.congr (holds : Ready base peer accepted taken node.streamView)
    (same : after.streamView = node.streamView) :
    Ready base peer accepted taken after.streamView := by
  rw [same]
  exact holds

theorem writePocketToSocket_streamView (node : UdtNode) (pocket : UdtPocket) :
    ((node.writePocketToSocket pocket).1 = -1 ∧
      (node.writePocketToSocket pocket).2.streamView = node.streamView) ∨
    (node.writePocketToSocket pocket).1 ≠ -1 ∧
      ∃ localPort windowLen,
        (node.writePocketToSocket pocket).2.streamView =
          { node.streamView with
            wire := node.wire ++
              [{ pocket with localPort := localPort, windowLen := windowLen }] } := by
  unfold writePocketToSocket
  dsimp only
  split
  · exact .inr ⟨by simp only; omega, _, _, rfl⟩
  · exact .inl ⟨rfl, rfl⟩
  · exact .inl ⟨rfl, rfl⟩

theorem Sending.write {acked sent released : Nat}
    (holds : Sending base accepted peer.appended node.streamView acked sent
      released)
    (piece : pocket.Sent base accepted (node.status.has finsend)
      peer.appended) :
    Sending base accepted peer.appended
      (node.writePocketToSocket pocket).2.streamView acked sent released := by
  rcases writePocketToSocket_streamView node pocket with
    ⟨-, same⟩ | ⟨-, localPort, windowLen, grown⟩
  · rw [same]
    exact holds
  rw [grown]
  refine { holds with wire := ?_ }
  intro posted member
  rcases List.mem_append.mp member with old | new
  · exact holds.wire posted old
  · rw [List.mem_singleton.mp new]
    exact piece

theorem Receiving.write (holds : Receiving peer taken node.streamView)
    (honest : pocket.Honest peer.base
      (node.streamView.appended taken).length) :
    Receiving peer taken (node.writePocketToSocket pocket).2.streamView := by
  rcases writePocketToSocket_streamView node pocket with
    ⟨-, same⟩ | ⟨-, localPort, windowLen, grown⟩
  · rw [same]
    exact holds
  rw [grown]
  refine { holds with acks := ?_ }
  intro posted member
  rcases List.mem_append.mp member with old | new
  · exact holds.acks posted old
  · rw [List.mem_singleton.mp new]
    exact honest

theorem Ready.write (holds : Ready base peer accepted taken node.streamView)
    (piece : pocket.Sent base accepted (node.status.has finsend) peer.appended)
    (honest : pocket.Honest peer.base
      (node.streamView.appended taken).length) :
    Ready base peer accepted taken
      (node.writePocketToSocket pocket).2.streamView := by
  obtain ⟨acked, sent, released, sending⟩ := holds.sending
  exact ⟨⟨acked, sent, released, sending.write piece⟩,
    holds.receiving.write honest⟩

theorem Receiving.length_lt (holds : Receiving peer taken node.streamView) :
    (node.streamView.appended taken).length < 2 ^ 32 := by
  rcases holds.bounded with inside | beyond
  · exact Nat.lt_of_le_of_lt inside holds.small
  · exact beyond.2

theorem Receiving.honest (holds : Receiving peer taken node.streamView)
    (number : pocket.ackSeq = node.receivedSequence) :
    pocket.Honest peer.base (node.streamView.appended taken).length :=
  fun _ => ⟨_, Nat.le_refl _, number.trans holds.number⟩

section

variable (holds : Ready base peer accepted taken node.streamView)
include holds

theorem Ready.sendAck :
    Ready base peer accepted taken node.sendAck.2.streamView := by
  refine holds.write ⟨.inr (.inl rfl), ?_⟩ (holds.receiving.honest rfl)
  intro data
  cases data

theorem Ready.sendReset :
    Ready base peer accepted taken node.sendReset.2.streamView := by
  refine holds.write ⟨.inr (.inr (.inr rfl)), ?_⟩ ?_
  · intro data
    cases data
  · intro acks
    cases acks

theorem Ready.flushAck :
    Ready base peer accepted taken node.flushAck.streamView := by
  unfold UdtNode.flushAck
  split
  · exact holds.sendAck.congr rfl
  · exact holds

theorem Ready.updateStart :
    Ready base peer accepted taken node.updateStart.streamView := by
  unfold UdtNode.updateStart
  dsimp only
  split
  · refine ⟨?_, { holds.receiving with early := ?_ }⟩
    · obtain ⟨acked, sent, released, sending⟩ := holds.sending
      exact ⟨acked, sent, released, { sending with }⟩
    · intro entry member
      exact holds.receiving.early entry (List.mem_filter.mp member).1
  · exact holds.congr rfl

end

section SendBytes

variable {queue : List Byte} {released : Nat}

theorem length_sendBytes_le (node : UdtNode) (offset len : Nat) :
    (node.sendBytes offset len).length ≤ len := by
  have bound := Store.length_slice_le node.sendBuffer.storage
    (node.sendBuffer.startOff + offset)
    (node.sendBuffer.startOff + offset + len)
  unfold sendBytes
  omega

theorem length_sendBytes (buffer : node.sendBuffer.Represents queue)
    {offset len : Nat} (inside : offset + len ≤ node.sendBuffer.datalen) :
    (node.sendBytes offset len).length = len := by
  have length := buffer.datalen_eq
  have ordered := buffer.ordered
  have bounded := buffer.bounded
  have storage := buffer.storage_length
  rw [sendBytes, Store.length_slice (by omega)]
  omega

theorem sendBytes_agrees
    (buffer : node.sendBuffer.Represents (accepted.drop released))
    (offset len : Nat) :
    Agrees accepted (released + offset) (node.sendBytes offset len) := by
  intro index inside reached
  have short := length_sendBytes_le node offset len
  have length := buffer.queue_length
  rw [List.length_drop, buffer.datalen_eq] at length
  have content : (accepted.drop released)[offset + index]? =
      node.sendBuffer.storage[node.sendBuffer.startOff + (offset + index)]? := by
    rw [← buffer.content_eq, LineBuf.content, Store.getElem?_slice,
      if_pos (by omega)]
  rw [sendBytes, Store.getElem?_slice, if_pos (by omega), Nat.add_assoc,
    Nat.add_assoc, ← content, List.getElem?_drop]

end SendBytes

@[simp] theorem writePocketToSocket_needAck (node : UdtNode)
    (pocket : UdtPocket) :
    (node.writePocketToSocket pocket).2.needAck = node.needAck := by
  unfold writePocketToSocket
  dsimp only
  split <;> rfl

/-- `flush_send_window` has nothing to send. -/
def FlushIdle (node : UdtNode) : Prop :=
  node.status.has sendclose ∨ node.isRetranslate ∨
    ∀ offset len, node.sendWindowStart = some (offset, len) → len = 0

instance (node : UdtNode) : Decidable node.FlushIdle :=
  have : Decidable
      (∀ offset len, node.sendWindowStart = some (offset, len) → len = 0) :=
    decidable_of_iff (∀ window ∈ node.sendWindowStart, window.2 = 0)
      ⟨fun all offset len found => all (offset, len) found,
        fun all window found => all window.1 window.2 found⟩
  inferInstanceAs (Decidable (_ ∨ _ ∨ _))

theorem flushSendWindow_idle (idle : node.FlushIdle) :
    node.flushSendWindow = (0, node) := by
  unfold flushSendWindow
  split
  · rfl
  rename_i open_
  split
  · rfl
  · rename_i offset len start
    have none : len = 0 := by
      rcases idle with closed | resending | none
      · simp [closed] at open_
      · simp [resending] at open_
      · exact none offset len start
    rw [if_pos none]

/-- A flush that is not idle puts the unsent bytes at the window start on the
wire, or clears the pending acknowledgement and fails. -/
theorem flushSendWindow_busy (busy : ¬ node.FlushIdle) :
    ∃ offset len, node.sendWindowStart = some (offset, len) ∧
      node.status.has sendclose = false ∧ node.isRetranslate = false ∧
      (node.flushSendWindow = writePocketToSocket { node with needAck := false }
          (node.windowPocket offset len) ∧ node.flushSendWindow.1 = -1 ∨
        node.flushSendWindow.2.streamView =
          { (writePocketToSocket { node with needAck := false }
              (node.windowPocket offset len)).2.streamView with
            sendSequence := node.sendSequence + BitVec.ofNat 32 len } ∧
        0 < node.flushSendWindow.1) := by
  simp only [FlushIdle, not_or, not_forall, Bool.not_eq_true] at busy
  obtain ⟨open_, fresh, offset, len, start, some⟩ := busy
  refine ⟨offset, len, start, open_, fresh, ?_⟩
  unfold flushSendWindow
  rw [open_, fresh, start]
  simp only [Bool.or_self, Bool.false_eq_true, if_false, some]
  split
  · rename_i failed
    exact .inl ⟨rfl, failed⟩
  rename_i written
  refine .inr ⟨rfl, ?_⟩
  revert written
  unfold writePocketToSocket
  dsimp only
  split
  · intro _
    have : 0 < (node.windowPocket offset len).headerSize := by
      unfold UdtPocket.headerSize
      split <;> omega
    omega
  · intro failed
    exact absurd rfl failed
  · intro failed
    exact absurd rfl failed

theorem Sending.unacked {acked sent released : Nat}
    (holds : Sending base accepted peer.appended node.streamView acked sent
      released) :
    (node.sendSequence - node.acknowledgedSeq).toNat = sent - acked := by
  have small := holds.small
  have inside := holds.sent_le
  rw [show node.sendSequence = _ from holds.sendSeq,
    show node.acknowledgedSeq = _ from holds.ackedSeq]
  exact Serial.distance_counts holds.acked_le (by omega)

theorem Sending.windowPocket {acked sent released offset len : Nat}
    (holds : Sending base accepted peer.appended node.streamView acked sent
      released) (buffered : released + offset = sent)
    (inside : offset + len ≤ node.sendBuffer.datalen) :
    sent + len ≤ accepted.length ∧
      (node.windowPocket offset len).Sent base accepted
        (node.status.has finsend) peer.appended := by
  have data : (node.windowPocket offset len).data =
      node.sendBytes offset len := rfl
  have length : accepted.length - released = node.sendBuffer.datalen := by
    rw [← List.length_drop]
    exact holds.buffer.queue_length
  have sent_le := holds.sent_le
  have reached : sent + len ≤ accepted.length := by omega
  refine ⟨reached, .inl ?_, fun _ => ?_⟩
  · unfold UdtNode.windowPocket
    split <;> rfl
  · refine ⟨sent, sent_le, holds.sendSeq, .inr ⟨?_, .inl ?_⟩⟩
    · rw [data, ← buffered]
      exact sendBytes_agrees holds.buffer offset len
    · rw [data, length_sendBytes holds.buffer inside]
      exact reached

theorem Receiving.windowPocket (holds : Receiving peer taken node.streamView)
    (offset len : Nat) :
    (node.windowPocket offset len).Honest peer.base
      (node.streamView.appended taken).length := by
  unfold UdtNode.windowPocket
  cases node.needAck with
  | true => exact holds.honest rfl
  | false =>
    intro acks
    cases acks

theorem Ready.flushSendWindow
    (holds : Ready base peer accepted taken node.streamView) :
    Ready base peer accepted taken node.flushSendWindow.2.streamView := by
  by_cases idle : node.FlushIdle
  · rw [flushSendWindow_idle idle]
    exact holds
  obtain ⟨offset, len, start, open_, fresh, flushed⟩ :=
    flushSendWindow_busy idle
  obtain ⟨offsetEq, inside⟩ := sendWindowStart_inside start
  obtain ⟨⟨acked, sent, released, sending⟩, receiving⟩ := holds
  rw [sending.unacked] at offsetEq
  have released_eq : released = acked := by
    rcases sending.phase with same | ⟨-, closed, -⟩
    · exact same
    · rw [show node.streamView.status.has sendclose = false from open_] at closed
      cases closed
  have acked_le := sending.acked_le
  obtain ⟨reached, piece⟩ := sending.windowPocket (by omega) inside
  have cleared : Sending base accepted peer.appended
      ({ node with needAck := false } : UdtNode).streamView acked sent
        released := sending
  have written := cleared.write piece
  have honest : Receiving peer taken
      ({ node with needAck := false } : UdtNode).streamView := receiving
  have received := honest.write (receiving.windowPocket offset len)
  rcases flushed with ⟨same, -⟩ | ⟨grown, -⟩
  · rw [same]
    exact ⟨⟨acked, sent, released, written⟩, received⟩
  rw [grown]
  refine ⟨⟨acked, sent + len, released,
    { written with
      sendSeq := ?_
      acked_le := by omega
      sent_le := reached
      phase := .inl released_eq }⟩, { received with }⟩
  rw [← Serial.add_counts, ← sending.sendSeq]
  rfl

theorem Ready.flushRounds
    (holds : Ready base peer accepted taken node.streamView) (rounds : Nat) :
    Ready base peer accepted taken (flushRounds rounds node).streamView := by
  induction rounds generalizing node with
  | zero => exact holds
  | succ rounds induction =>
    unfold flushRounds
    dsimp only
    split
    · exact induction holds.flushSendWindow
    · exact holds.flushSendWindow

def WriteFails (node : UdtNode) : Prop :=
  node.writeResults.head?.getD .sent ≠ .sent

instance (node : UdtNode) : Decidable node.WriteFails :=
  inferInstanceAs (Decidable (_ ≠ _))

theorem writePocketToSocket_fails (fails : node.WriteFails) (pocket : UdtPocket)
    :
    (node.writePocketToSocket pocket).1 = -1 ∧
      (node.writePocketToSocket pocket).2.streamView = node.streamView := by
  unfold writePocketToSocket
  dsimp only
  split
  · rename_i sent
    exact absurd sent fails
  · exact ⟨rfl, rfl⟩
  · exact ⟨rfl, rfl⟩

/-- A first retransmission sends bytes that were sent before, and so does a
later one unless the node is closing. -/
theorem Sending.resendLen_le {acked sent released : Nat}
    (holds : Sending base accepted peer.appended node.streamView acked sent
      released)
    (regular : node.isRetranslate = false ∨ node.status.has finsend = false)
    (some : 0 < node.resendLen) :
    acked + node.resendLen.toNat ≤ accepted.length := by
  have small := holds.small
  have upTo : ∃ upTo, acked ≤ upTo ∧ upTo ≤ accepted.length ∧
      node.resendLen =
        (base + BitVec.ofNat 32 upTo - node.acknowledgedSeq).toInt := by
    unfold resendLen
    cases resending : node.isRetranslate with
    | false =>
      exact ⟨sent, holds.acked_le, holds.sent_le, by
        rw [← holds.sendSeq]
        rfl⟩
    | true =>
      rcases holds.resend resending with closing | ⟨upTo, lower, upper, number⟩
      · rw [resending] at regular
        rcases regular with wrong | wrong
        · cases wrong
        · rw [show node.streamView.status.has finsend = false from wrong]
            at closing
          cases closing
      · exact ⟨upTo, lower, upper, by
          rw [← number]
          rfl⟩
  obtain ⟨upTo, lower, upper, resendLen_eq⟩ := upTo
  rw [show node.acknowledgedSeq = _ from holds.ackedSeq] at resendLen_eq
  rw [resendLen_eq] at some ⊢
  rw [Serial.toNat_toInt (Int.le_of_lt some),
    Serial.distance_counts lower (by omega)]
  omega

theorem Sending.resendPocket {acked sent released len : Nat}
    (holds : Sending base accepted peer.appended node.streamView acked sent
      released) (calm : node.needAck = false) (some : 0 < node.resendLen)
    (short : len ≤ node.resendLen.toNat) (fragment : len ≤ udtFragmentLen) :
    (node.resendPocket len).Sent base accepted (node.status.has finsend)
      peer.appended := by
  have data : (node.resendPocket len).data = node.sendBytes 0 len := by
    simp [UdtNode.resendPocket, calm]
  have length := length_sendBytes_le node 0 len
  have acked_le := holds.acked_le.trans holds.sent_le
  refine ⟨.inl rfl, fun _ => ⟨acked, acked_le, holds.ackedSeq, ?_⟩⟩
  rw [data]
  rcases holds.phase with same | ⟨closing, -, all, -⟩
  · refine .inr ⟨?_, ?_⟩
    · have agrees := sendBytes_agrees holds.buffer 0 len
      rwa [Nat.add_zero, same] at agrees
    · cases closing : node.status.has finsend with
      | true => exact .inr ⟨rfl, by omega⟩
      | false =>
        have inside := holds.resendLen_le (.inr closing) some
        exact .inl (by omega)
  · have released_le := holds.released_le
    by_cases old : acked < peer.appended
    · exact .inl old
    · refine .inr ⟨?_, .inr ⟨closing, by omega⟩⟩
      intro index _ inside
      omega

/-- The node when `retranslate_data` writes its pocket. -/
def resendStart (node : UdtNode) : UdtNode :=
  { node with retransSeq := node.resentSeq 0, needAck := false }

theorem retranslateData_cases (node : UdtNode) :
    node.retranslateData.2.streamView = node.resendStart.streamView ∨
    0 < node.resendLen ∧ ∃ len,
      len ≤ node.resendLen.toNat ∧ len ≤ udtFragmentLen ∧
      ∃ upTo, (upTo = 0 ∨ upTo = len) ∧
        node.retranslateData.2.streamView =
          { (node.resendStart.writePocketToSocket
              (node.resendPocket len)).2.streamView with
            retransSeq := node.resentSeq upTo } := by
  unfold retranslateData
  dsimp only
  split
  · exact .inl rfl
  rename_i some
  refine .inr ⟨Int.not_le.mp some, _, Nat.min_le_left _ _,
    Nat.min_le_right _ _, ?_⟩
  split
  · rename_i failed
    refine ⟨0, .inl rfl, ?_⟩
    rcases writePocketToSocket_streamView node.resendStart _ with
      ⟨-, same⟩ | ⟨written, -⟩
    · rw [same]
      exact same
    · exact absurd failed written
  · exact ⟨_, .inr rfl, rfl⟩

theorem Sending.resentSeq {acked sent released len : Nat}
    (holds : Sending base accepted peer.appended node.streamView acked sent
      released)
    (short : len = 0 ∨ 0 < node.resendLen ∧ len ≤ node.resendLen.toNat) :
    node.status.has finsend ∨ ∃ upTo, acked ≤ upTo ∧ upTo ≤ accepted.length ∧
      node.resentSeq len = base + BitVec.ofNat 32 upTo := by
  have acked_le := holds.acked_le.trans holds.sent_le
  unfold UdtNode.resentSeq
  cases resending : node.isRetranslate with
  | true => exact holds.resend resending
  | false =>
    refine .inr ⟨acked + len, by omega, ?_, ?_⟩
    · rcases short with none | ⟨some, short⟩
      · omega
      · have inside := holds.resendLen_le (.inl resending) some
        omega
    · rw [← Serial.add_counts, ← holds.ackedSeq]
      rfl

/-- Writing the pocket of a retransmission keeps a node in order if no
acknowledgement is pending or the write fails. -/
theorem Ready.resendPocket {acked sent released len : Nat}
    (sending : Sending base accepted peer.appended node.streamView acked sent
      released)
    (receiving : Receiving peer taken node.streamView)
    (calm : node.needAck → node.WriteFails) (some : 0 < node.resendLen)
    (short : len ≤ node.resendLen.toNat) (fragment : len ≤ udtFragmentLen) :
    Sending base accepted peer.appended
        (node.resendStart.writePocketToSocket
          (node.resendPocket len)).2.streamView acked sent released ∧
      Receiving peer taken
        (node.resendStart.writePocketToSocket
          (node.resendPocket len)).2.streamView := by
  have marked : Sending base accepted peer.appended
      node.resendStart.streamView acked sent released :=
    { sending with resend := fun _ => sending.resentSeq (.inl rfl) }
  have waiting : Receiving peer taken node.resendStart.streamView :=
    { receiving with }
  cases pending : node.needAck with
  | true =>
    have fails : node.resendStart.WriteFails := calm pending
    rw [(writePocketToSocket_fails fails _).2]
    exact ⟨marked, waiting⟩
  | false =>
    refine ⟨marked.write (sending.resendPocket pending some short fragment),
      waiting.write ?_⟩
    intro acks
    cases acks

/-- `retranslate_data` keeps a node in order if no acknowledgement is pending
or nothing gets on the wire, and so does entering or leaving the state of
retransmission behind it. -/
theorem Ready.retranslateData
    (holds : Ready base peer accepted taken node.streamView)
    (calm : node.needAck → 0 < node.resendLen → node.WriteFails) (again : Bool)
    :
    Ready base peer accepted taken
      { node.retranslateData.2.streamView with isRetranslate := again } := by
  obtain ⟨⟨acked, sent, released, sending⟩, receiving⟩ := holds
  rcases retranslateData_cases node with
    same | ⟨some, len, short, fragment, upTo, reached, grown⟩
  · rw [same]
    exact ⟨⟨acked, sent, released,
      { sending with resend := fun _ => sending.resentSeq (.inl rfl) }⟩,
      { receiving with }⟩
  · rw [grown]
    obtain ⟨written, waiting⟩ := Ready.resendPocket sending receiving
      (fun pending => calm pending some) some short fragment
    have position := sending.resentSeq
      (reached.imp_right fun all => ⟨some, all ▸ short⟩)
    refine ⟨⟨acked, sent, released,
      { written with resend := fun _ => ?_ }⟩, { waiting with }⟩
    rcases writePocketToSocket_streamView node.resendStart
        (node.resendPocket len) with
      ⟨-, same⟩ | ⟨-, localPort, windowLen, posted⟩
    · rw [same]
      exact position
    · rw [posted]
      exact position

/-- At this time `udt_retranslate` puts a pocket on the wire. -/
def ResendDue (node : UdtNode) (time : NdTime) : Prop :=
  0 < (node.sendSequence - node.acknowledgedSeq).toInt ∧
    node.retransTimeout ≤ time - node.lastResendTm ∧
    ¬ (node.isRetranslate ∧ maxAttemptSend ≤ node.resendTimes.toNat) ∧
    0 < node.resendLen ∧ ¬ node.WriteFails

instance (node : UdtNode) (time : NdTime) : Decidable (node.ResendDue time) :=
  inferInstanceAs (Decidable (_ ∧ _ ∧ _ ∧ _ ∧ _))

theorem Ready.retranslate
    (holds : Ready base peer accepted taken node.streamView)
    (calm : node.needAck → ¬ node.ResendDue node.updateTm) :
    Ready base peer accepted taken node.retranslate.2.streamView := by
  unfold UdtNode.retranslate
  split
  · exact holds
  rename_i unsure
  split
  · exact holds
  rename_i late
  split
  · exact holds.congr rfl
  rename_i patient
  have resent := holds.retranslateData (fun pending some => by
    by_contra sends
    exact calm pending ⟨Int.not_le.mp unsure, BitVec.not_lt.mp late, patient,
      some, sends⟩)
  dsimp only
  split
  · split
    · exact resent _
    · exact resent true
  · exact resent _

theorem updateStart_needAck : node.updateStart.needAck = node.needAck := by
  unfold updateStart
  dsimp only
  split <;> rfl

theorem updateStart_flushIdle :
    node.updateStart.FlushIdle ↔ node.FlushIdle := by
  unfold updateStart
  dsimp only
  split <;> rfl

theorem updateStart_resendDue :
    node.updateStart.ResendDue node.updateStart.updateTm ↔
      node.ResendDue node.now := by
  unfold updateStart
  dsimp only
  split <;> rfl

/-- `update_socket` retransmits while an acknowledgement is pending. -/
def ResendsWithAck (node : UdtNode) : Prop :=
  node.needAck ∧ node.FlushIdle ∧ node.ResendDue node.now

instance (node : UdtNode) : Decidable node.ResendsWithAck :=
  inferInstanceAs (Decidable (_ ∧ _ ∧ _))

theorem Ready.updateSocket
    (holds : Ready base peer accepted taken node.streamView)
    (calm : ¬ node.ResendsWithAck) :
    Ready base peer accepted taken node.updateSocket.2.streamView := by
  have started := holds.updateStart
  have flushed := started.flushSendWindow
  have later : node.updateStart.flushSendWindow.2.needAck →
      0 < node.updateStart.flushSendWindow.1 ∨
        ¬ node.updateStart.flushSendWindow.2.ResendDue
          node.updateStart.flushSendWindow.2.updateTm := by
    intro pending
    by_cases idle : node.updateStart.FlushIdle
    · rw [flushSendWindow_idle idle] at pending ⊢
      refine .inr fun due => calm ⟨?_, ?_, ?_⟩
      · exact updateStart_needAck ▸ pending
      · exact updateStart_flushIdle.mp idle
      · exact updateStart_resendDue.mp due
    · obtain ⟨offset, len, -, -, -, sent⟩ := flushSendWindow_busy idle
      rcases sent with ⟨same, -⟩ | ⟨-, some⟩
      · rw [same, writePocketToSocket_needAck] at pending
        cases pending
      · exact .inl some
  unfold UdtNode.updateSocket
  dsimp only
  split
  · exact (flushed.flushRounds _).flushAck
  · rename_i none
    have resent := flushed.retranslate fun pending =>
      (later pending).resolve_left none
    split
    · exact resent
    · exact resent.flushAck

end Ready

end UdtNode

end NdNet

import NdNet.Udt.Arrival

/-!
# Two connected nodes

Either end sends, reads, is updated by its timer or gets one of the datagrams
the other end has sent so far.  As any of these may arrive at any time, more
than once or never, the runs cover every loss, duplication and reordering.
-/

namespace NdNet

open Pieces Runs NetStat LineBuf

structure UdtEnd where
  node : UdtNode
  accepted : List Byte
  taken : List Byte

def UdtEnd.appended (side : UdtEnd) : List Byte :=
  side.taken ++ side.node.recvBuffer.content

structure UdtNet where
  left : UdtEnd
  right : UdtEnd

inductive EndCall where
  | send (data : List Byte)
  | recv (size : Nat)
  | flushSendWindow
  | updateSocket
  | sendFin
  /-- A datagram of the peer arrives, given by its place among those sent. -/
  | arrive (index : Nat)
  | elapse (now : NdTime)
  deriving DecidableEq

inductive Side where
  | left
  | right
  deriving DecidableEq

/-- One end does something; `wire` holds what the peer has sent. -/
def endStep (wire : List UdtPocket) (side : UdtEnd) : EndCall → UdtEnd
  | .send data =>
    let sent := side.node.send data
    { side with
      node := sent.2
      accepted :=
        if sent.1 = data.length then side.accepted ++ data
        else side.accepted }
  | .recv size =>
    let read := side.node.recv size
    { side with node := read.2, taken := side.taken ++ read.1 }
  | .flushSendWindow => { side with node := side.node.flushSendWindow.2 }
  | .updateSocket => { side with node := side.node.updateSocket.2 }
  | .sendFin => { side with node := side.node.sendFin.2 }
  | .arrive index =>
    match wire[index]? with
    | some pocket =>
      { side with node := (side.node.packetHandler pocket).2 }
    | none => side
  | .elapse now => { side with node := { side.node with now := now } }

def netStep (net : UdtNet) : Side × EndCall → UdtNet
  | (.left, call) =>
    { net with left := endStep net.right.node.wire net.left call }
  | (.right, call) =>
    { net with right := endStep net.left.node.wire net.right call }

namespace UdtEnd

/-- What the other end has to know about this one; `seen` of its bytes are
known to have been appended there. -/
def peer (side : UdtEnd) (base : Seq) (seen : Nat) : Peer :=
  { base := base
    accepted := side.accepted
    finished := side.node.status.has finsend
    appended := side.appended.length
    seen := seen }

/-- The call does not meet a defect of the data path: bytes are accepted in
numbers that do not run out and find their place in the buffers, and nothing is
retransmitted while an acknowledgement is pending. -/
def Streams (wire : List UdtPocket) (side : UdtEnd) : EndCall → Prop
  | .send data =>
    side.node.status.has finsend ∨
      side.node.sendBuffer.freeCapacity < data.length ∨
      side.accepted.length + data.length < 2 ^ 32 ∧
        (data.length ≤ side.node.sendBuffer.freespace ∨
          side.node.sendBuffer.Compacts)
  | .updateSocket => ¬ side.node.ResendsWithAck
  | .arrive index =>
    ∀ pocket, wire[index]? = some pocket →
      ¬ side.node.status.has NetStat.reset → pocket.udtType = .data →
      side.node.Fits (pocket :: side.node.preList.map PrePacket.pack)
  | _ => True

/-- The call does not meet a defect of closing: no FIN overtakes data, and no
acknowledgement ends the sending of a node with unsent data. -/
def Closes (wire : List UdtPocket) (side : UdtEnd) : EndCall → Prop
  | .sendFin => side.accepted.length + udtFragmentLen < 2 ^ 32
  | .arrive index =>
    ∀ pocket, wire[index]? = some pocket →
      ¬ side.node.status.has NetStat.reset →
      (pocket.udtType = .fin → ¬ side.node.status.has recvclose →
        pocket.sequence = side.node.receivedSequence) ∧
      (pocket.acknowledges → ¬ side.node.Unfinished pocket.ackSeq)
  | _ => True

instance (wire : List UdtPocket) (side : UdtEnd) :
    ∀ call, Decidable (side.Streams wire call)
  | .send _ => inferInstanceAs (Decidable (_ ∨ _ ∨ _ ∧ (_ ∨ _)))
  | .recv _ => .isTrue trivial
  | .flushSendWindow => .isTrue trivial
  | .updateSocket => inferInstanceAs (Decidable (¬ _))
  | .sendFin => .isTrue trivial
  | .arrive index =>
    inferInstanceAs (Decidable (∀ pocket ∈ wire[index]?, _ → _ → _))
  | .elapse _ => .isTrue trivial

instance (wire : List UdtPocket) (side : UdtEnd) :
    ∀ call, Decidable (side.Closes wire call)
  | .send _ => .isTrue trivial
  | .recv _ => .isTrue trivial
  | .flushSendWindow => .isTrue trivial
  | .updateSocket => .isTrue trivial
  | .sendFin => inferInstanceAs (Decidable (_ < _))
  | .arrive index =>
    inferInstanceAs (Decidable (∀ pocket ∈ wire[index]?, _ → _ ∧ (_ → _)))
  | .elapse _ => .isTrue trivial

def InOrder (base peerBase : Seq) (side other : UdtEnd) : Prop :=
  UdtNode.Ready base (other.peer peerBase side.appended.length) side.accepted
    side.taken side.node.streamView

end UdtEnd

namespace UdtNode

section Calls

variable {base : Seq} {peer : Peer} {accepted taken : List Byte}
  {node : UdtNode}

theorem Ready.send (holds : Ready base peer accepted taken node.streamView)
    {data : List Byte}
    (room : node.status.has finsend ∨
      node.sendBuffer.freeCapacity < data.length ∨
      accepted.length + data.length < 2 ^ 32 ∧
        (data.length ≤ node.sendBuffer.freespace ∨ node.sendBuffer.Compacts)) :
    Ready base peer
      (if (node.send data).1 = data.length then accepted ++ data
        else accepted)
      taken (node.send data).2.streamView := by
  unfold UdtNode.send
  split
  · exact holds.congr rfl
  rename_i open_
  split
  · exact holds.congr rfl
  rename_i valid
  obtain ⟨⟨acked, sent, released, sending⟩, receiving⟩ := holds
  have unfinished : node.status.has finsend = false := by
    rw [Bool.or_eq_true, not_or] at open_
    simpa using open_.2
  have regular : released = acked := by
    rcases sending.phase with same | ⟨closing, -⟩
    · exact same
    · rw [show node.streamView.status.has finsend = false from unfinished]
        at closing
      cases closing
  have short : data.length < 2 ^ 31 := by
    have capacity : node.sendBuffer.capacity = packetSize := sending.capacity
    rw [packetSize] at capacity
    omega
  have result : (node.sendBuffer.write data .specified fun _ => none).1 =
      if node.sendBuffer.freeCapacity < data.length then -1
      else intOfSize (node.sendBuffer.acceptedBytes data .specified).length := by
    have value := write_result sending.buffer data .specified (fun _ => none)
      sending.fixed
    simp only [true_and] at value
    exact value
  have kept : (node.sendBuffer.write data .specified fun _ => none).2.autoInc =
    false := write_autoInc sending.fixed _ _ _
  have capacity :
      (node.sendBuffer.write data .specified fun _ => none).2.capacity =
        packetSize :=
    (write_capacity sending.fixed _ _ _).trans sending.capacity
  by_cases full : node.sendBuffer.freeCapacity < data.length
  · have written := write_represents sending.buffer data .specified
      (fun _ => none) sending.fixed (.inr (.inr ⟨rfl, full⟩))
    have none : node.sendBuffer.acceptedBytes data .specified = [] := by
      simp [acceptedBytes, Nat.not_le_of_lt full]
    rw [show node.streamView.sendBuffer = node.sendBuffer from rfl, none,
      List.append_nil] at written
    rw [result, if_pos full, if_neg (by omega)]
    exact ⟨⟨acked, sent, released,
      { sending with
        fixed := kept
        capacity := capacity
        buffer := written }⟩, { receiving with }⟩
  · obtain ⟨small, place⟩ : accepted.length + data.length < 2 ^ 32 ∧
        (data.length ≤ node.sendBuffer.freespace ∨
          node.sendBuffer.Compacts) := by
      rcases room with closing | refused | room
      · rw [unfinished] at closing
        cases closing
      · exact absurd refused full
      · exact room
    have written := write_represents sending.buffer data .specified
      (fun _ => none) sending.fixed (place.imp_right .inl)
    have all : node.sendBuffer.acceptedBytes data .specified = data :=
      if_pos (Nat.le_of_not_lt full)
    have sent_le := sending.sent_le
    have acked_le := sending.acked_le
    rw [show node.streamView.sendBuffer = node.sendBuffer from rfl, all,
      ← List.drop_append_of_le_length (by omega)] at written
    rw [result, if_neg full, all, intOfSize_of_lt short, if_pos rfl]
    refine ⟨⟨acked, sent, released,
      { sending with
        small := by simpa using small
        finSmall := fun closing => absurd closing (by simp [streamView, unfinished])
        fixed := kept
        capacity := capacity
        buffer := written
        sent_le := by simp; omega
        phase := .inl regular
        resend := fun again => ?_
        wire := ?_ }⟩, { receiving with }⟩
    · rcases sending.resend again with closing | ⟨upTo, lower, upper, number⟩
      · exact .inl closing
      · exact .inr ⟨upTo, lower, by simp; omega, number⟩
    · intro pocket member
      have before := sending.wire pocket member
      rw [show node.streamView.status.has finsend = false from unfinished]
        at before
      simp only [streamView, unfinished]
      exact before.extend data

theorem Ready.recv (holds : Ready base peer accepted taken node.streamView)
    (size : Nat) :
    Ready base peer accepted (taken ++ (node.recv size).1)
      (node.recv size).2.streamView := by
  obtain ⟨⟨acked, sent, released, sending⟩, receiving⟩ := holds
  unfold UdtNode.recv
  split
  · have small : node.recvBuffer.datalen < 2 ^ 31 := by
      have inside := receiving.buffer.datalen_le_capacity
      rw [receiving.capacity, packetSize] at inside
      exact Nat.lt_of_le_of_lt inside (by decide)
    obtain ⟨bytes, rest⟩ := read_represents receiving.buffer size .all small
    have same : (({ node with
          recvBuffer := (node.recvBuffer.read size .all).2.2 } :
            UdtNode).streamView.appended
          (taken ++ (node.recvBuffer.read size .all).2.1)) =
        node.streamView.appended taken := by
      show taken ++ (node.recvBuffer.read size .all).2.1 ++
        (node.recvBuffer.read size .all).2.2.content =
          taken ++ node.recvBuffer.content
      rw [show (node.recvBuffer.read size .all).2.1 = _ from bytes,
        show (node.recvBuffer.read size .all).2.2.content = _ from
          rest.content_eq, List.append_assoc, List.take_append_drop]
      rfl
    refine ⟨⟨acked, sent, released, { sending with }⟩, ?_⟩
    exact
      { small := receiving.small
        finSmall := receiving.finSmall
        fixed := (read_autoInc _ _ _).trans receiving.fixed
        capacity := (read_capacity _ _ _).trans receiving.capacity
        buffer := { rest with content_eq := rfl }
        number := by rw [same]; exact receiving.number
        agrees := by rw [same]; exact receiving.agrees
        bounded := by rw [same]; exact receiving.bounded
        kept := by rw [same]; exact receiving.kept
        early := by rw [same]; exact receiving.early
        acks := by rw [same]; exact receiving.acks }
  · rw [List.append_nil]
    exact ⟨⟨acked, sent, released, sending⟩, receiving⟩

theorem has_or_self (status : NetStat) :
    has (status ||| finsend) finsend = true := by
  rw [has_or]
  exact Bool.or_true _

theorem markFin_finsend (node : UdtNode) :
    node.markFin.status.has finsend = true := by
  unfold markFin
  split
  · assumption
  · exact has_or_self node.status

theorem Ready.markFin (holds : Ready base peer accepted taken node.streamView)
    (small : accepted.length + udtFragmentLen < 2 ^ 32) :
    Ready base peer accepted taken node.markFin.streamView := by
  obtain ⟨⟨acked, sent, released, sending⟩, receiving⟩ := holds
  unfold UdtNode.markFin
  split
  · rename_i closing
    exact ⟨⟨acked, sent, released,
      { sending with resend := fun _ => .inl closing }⟩, { receiving with }⟩
  · rename_i open_
    have regular : released = acked := by
      rcases sending.phase with same | ⟨closing, -⟩
      · exact same
      · exact absurd closing open_
    refine ⟨⟨acked, sent, released,
      { sending with
        live := ?_
        finSmall := fun _ => small
        phase := .inl regular
        resend := fun again => by cases again
        wire := ?_ }⟩, { receiving with }⟩
    · show has (node.status ||| finsend) established = true
      rw [has_or, show node.status.has established = true from sending.live,
        Bool.true_or]
    · intro pocket member
      show pocket.Sent base accepted (has (node.status ||| finsend) finsend) _
      rw [has_or_self]
      exact (sending.wire pocket member).finish

theorem Ready.sendFin (holds : Ready base peer accepted taken node.streamView)
    (small : accepted.length + udtFragmentLen < 2 ^ 32) :
    Ready base peer accepted taken node.sendFin.2.streamView := by
  have written : Ready base peer accepted taken
      (node.markFin.writePocketToSocket
        { UdtPocket.init with
          udtType := .fin
          sequence := node.sendSequence }).2.streamView := by
    refine (holds.markFin small).write
      ⟨.inr (.inr (.inl ⟨rfl, rfl, markFin_finsend node⟩)), ?_⟩ ?_
    · intro kind
      cases kind
    · intro acks
      cases acks
  unfold UdtNode.sendFin
  dsimp only
  split <;> exact written

theorem Ready.peerStep {view : StreamView}
    (holds : Ready base peer accepted taken view) {later : Peer}
    (base_eq : later.base = peer.base)
    (stream : later.accepted = peer.accepted ∨
      later.finished = false ∧ ∃ data, later.accepted = peer.accepted ++ data)
    (finish : peer.finished = true → later.finished = true)
    (small : later.accepted.length < 2 ^ 32)
    (finSmall : later.finished = true →
      later.accepted.length + udtFragmentLen < 2 ^ 32)
    (grown : peer.appended ≤ later.appended)
    (appendedSmall : later.appended < 2 ^ 32)
    (seen : later.seen ≤ (view.appended taken).length) :
    Ready base later accepted taken view := by
  obtain ⟨⟨acked, sent, released, sending⟩, receiving⟩ := holds
  have fresh : later.finished = false → peer.finished = false := by
    intro unfinished
    cases value : peer.finished with
    | false => rfl
    | true => exact absurd (finish value) (by simp [unfinished])
  have inside : later.finished = false →
      (view.appended taken).length ≤ peer.accepted.length := by
    intro unfinished
    rcases receiving.bounded with inside | ⟨finished, -⟩
    · exact inside
    · exact absurd finished (by simp [fresh unfinished])
  have carries : ∀ pocket : UdtPocket,
      pocket.Carries peer.base peer.accepted peer.finished
        (view.appended taken).length →
      pocket.Carries later.base later.accepted later.finished
        (view.appended taken).length := by
    intro pocket holds
    rw [base_eq]
    rcases stream with same | ⟨unfinished, data, longer⟩
    · rw [same]
      exact holds.finish finish
    · rw [fresh unfinished] at holds
      rw [longer, unfinished]
      exact holds.extend data
  refine ⟨⟨acked, sent, released,
    { sending with
      released_le := sending.released_le.trans grown
      appendedSmall := appendedSmall
      wire := fun pocket member => (sending.wire pocket member).later grown }⟩,
    { receiving with
      small := small
      finSmall := finSmall
      number := by rw [base_eq]; exact receiving.number
      agrees := ?_
      bounded := ?_
      kept := seen
      early := fun entry member => carries _ (receiving.early entry member)
      acks := by rw [base_eq]; exact receiving.acks }⟩
  · rcases stream with same | ⟨unfinished, data, longer⟩
    · rw [same]
      exact receiving.agrees
    · rw [longer]
      exact receiving.agrees.extend (by simpa using inside unfinished) data
  · rcases stream with same | ⟨unfinished, data, longer⟩
    · rw [same]
      exact receiving.bounded.imp_right fun beyond => ⟨finish beyond.1, beyond.2⟩
    · have reached := inside unfinished
      rw [longer, List.length_append]
      exact .inl (by omega)

section Finsend

theorem status_congr {after before : UdtNode}
    (same : after.sendView = before.sendView) : after.status = before.status :=
  congrArg SendView.status same

theorem flushSendWindow_status (node : UdtNode) :
    node.flushSendWindow.2.status = node.status := by
  rcases flushSendWindow_sendView node with same | ⟨offset, len, -, grown⟩
  · exact status_congr same
  · exact congrArg SendView.status grown

theorem flushRounds_status (rounds : Nat) (node : UdtNode) :
    (flushRounds rounds node).status = node.status := by
  induction rounds generalizing node with
  | zero => rfl
  | succ rounds induction =>
    unfold flushRounds
    dsimp only
    split
    · rw [induction, flushSendWindow_status]
    · exact flushSendWindow_status node

theorem updateSocket_status (node : UdtNode) :
    node.updateSocket.2.status = node.status := by
  have flushed : node.updateStart.flushSendWindow.2.status = node.status :=
    (flushSendWindow_status _).trans (status_congr (updateStart_sendView node))
  unfold updateSocket
  dsimp only
  split
  · rw [status_congr (flushAck_sendView _), flushAll, flushRounds_status,
      flushed]
  · have resent := status_congr
      (retranslate_sendView node.updateStart.flushSendWindow.2)
    split
    · exact resent.trans flushed
    · rw [status_congr (flushAck_sendView _), resent, flushed]

theorem handleAck_finsend {node : UdtNode} (live : node.status.has established)
    (ackSeq : Seq) :
    (node.handleAck ackSeq).status.has finsend = node.status.has finsend := by
  have started : node.status ≠ synrecv := by
    intro early
    rw [early] at live
    cases live
  have taken : (node.takeAcknowledged ackSeq).status = node.status := by
    unfold takeAcknowledged
    split
    · split <;> rfl
    · rfl
  unfold handleAck handleNewAck
  dsimp only
  split
  · rfl
  split
  · rename_i closing
    split
    · rw [closing]
      exact sendClosed_has _ _ closing
    · rfl
  split <;> rw [taken]

theorem handleData_finsend {node : UdtNode} (live : node.status.has established)
    (pocket : UdtPocket) :
    (node.handleData pocket).2.status.has finsend =
      node.status.has finsend := by
  have acked : (node.handleCarriedAck pocket).status.has finsend =
      node.status.has finsend := by
    unfold handleCarriedAck
    split
    · exact handleAck_finsend live _
    · rfl
  have income := status_congr
    (handleIncomeData_sendView (node.handleCarriedAck pocket) pocket)
  unfold handleData
  dsimp only
  split
  · rw [flushAll, flushRounds_status, income, acked]
  · rw [income, acked]

theorem handleFin_finsend {node : UdtNode} {pocket : UdtPocket}
    (plain : pocket.ack = false) :
    (node.handleFin pocket).2.status.has finsend = node.status.has finsend := by
  have one : has recvclose finsend = false := by decide
  have two : has NetStat.reset finsend = false := by decide
  unfold handleFin handleCarriedAck
  rw [plain]
  rw [status_congr (sendAck_sendView _)]
  simp only [Bool.false_eq_true, if_false]
  split
  · rfl
  · split <;> simp [has_or, one, two]

/-- Only `udt_send_fin` sets `NETSTAT_FINSEND` on an established connection. -/
theorem packetHandler_finsend {node : UdtNode}
    (live : node.status.has established) {base : Seq} {accepted : List Byte}
    {finished : Bool} {appended : Nat} {pocket : UdtPocket}
    (sent : pocket.Sent base accepted finished appended) :
    (node.packetHandler pocket).2.status.has finsend =
      node.status.has finsend := by
  have two : has NetStat.reset finsend = false := by decide
  have noted : (node.noteArrival pocket).status.has established := live
  have dispatched :
      ((node.noteArrival pocket).dispatch pocket).2.status.has finsend =
        node.status.has finsend := by
    unfold dispatch
    rcases sent.1 with kind | kind | ⟨kind, plain, -⟩ | kind
    · rw [kind]
      exact handleData_finsend noted pocket
    · rw [kind]
      exact handleAck_finsend noted _
    · rw [kind]
      exact handleFin_finsend plain
    · rw [kind]
      simp [has_or, two, noteArrival]
  unfold packetHandler
  split
  · rw [status_congr (sendReset_sendView node)]
  · dsimp only
    split <;> exact dispatched

end Finsend

/-- An end in order stays so whatever it does without meeting a defect. -/
theorem Ready.endStep {side other : UdtEnd} {peerBase : Seq}
    (holds : side.InOrder base peerBase other)
    (across : other.InOrder peerBase base side) {call : EndCall}
    (streams : side.Streams other.node.wire call)
    (closes : side.Closes other.node.wire call) :
    Ready base (other.peer peerBase side.appended.length)
      (endStep other.node.wire side call).accepted
      (endStep other.node.wire side call).taken
      (endStep other.node.wire side call).node.streamView := by
  cases call with
  | send data => exact Ready.send holds streams
  | recv size => exact Ready.recv holds size
  | flushSendWindow => exact Ready.flushSendWindow holds
  | updateSocket => exact Ready.updateSocket holds streams
  | sendFin => exact Ready.sendFin holds closes
  | elapse now => exact Ready.congr holds rfl
  | arrive index =>
    unfold NdNet.endStep
    dsimp only
    split
    · rename_i pocket arrived
      have member : pocket ∈ other.node.wire :=
        List.mem_of_getElem? arrived
      obtain ⟨acked, sent, released, sending⟩ := across.sending
      refine Ready.packetHandler holds (sending.wire pocket member)
        (across.receiving.acks pocket member) fun running =>
          { fits := streams pocket arrived running
            inOrder := (closes pocket arrived running).1
            finished := (closes pocket arrived running).2 }
    · exact holds

end Calls

end UdtNode

end NdNet

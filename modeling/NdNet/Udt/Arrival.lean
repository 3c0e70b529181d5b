import NdNet.Udt.Flow

/-!
# Arriving pockets

`_udt_packet_handler` keeps a node in order for every pocket of a peer that is
in order itself, unless the pocket meets one of three weak spots: data that is
misplaced in the receive buffer, a FIN that overtakes data, and the last
acknowledgement of a closing node that has unsent data.
-/

namespace NdNet

open Pieces

namespace UdtNode

open NetStat LineBuf

/-- A row of pockets that continue the sequence comes to one that is larger
than the room behind the data but not than the free capacity: `tail` is the
room, `slack` what is free in front of the data. -/
def Crowded (tail slack : Nat) (next : Seq) : List UdtPocket → Prop
  | [] => False
  | pocket :: later =>
    pocket.sequence = next ∧
      if pocket.data.length ≤ tail then
        Crowded (tail - pocket.data.length) slack
          (next + BitVec.ofNat 32 pocket.data.length) later
      else pocket.data.length ≤ tail + slack

instance Crowded.decide : ∀ (tail slack : Nat) (next : Seq)
    (pockets : List UdtPocket), Decidable (Crowded tail slack next pockets)
  | _, _, _, [] => .isFalse id
  | tail, slack, next, pocket :: later =>
    have : Decidable (Crowded (tail - pocket.data.length) slack
        (next + BitVec.ofNat 32 pocket.data.length) later) :=
      Crowded.decide _ _ _ later
    inferInstanceAs (Decidable (pocket.sequence = next ∧
      if pocket.data.length ≤ tail then _ else _))

/-- The pockets that are next in the sequence can be appended to the receive
buffer: its data can be moved ahead, or they find room behind it. -/
def Fits (node : UdtNode) (pockets : List UdtPocket) : Prop :=
  node.recvBuffer.Settled ∨
    ¬ Crowded node.recvBuffer.freespace node.recvBuffer.startOff
      node.receivedSequence pockets

instance (node : UdtNode) (pockets : List UdtPocket) :
    Decidable (node.Fits pockets) :=
  inferInstanceAs (Decidable (_ ∨ ¬ _))

section Receive

variable {base : Seq} {peer : Peer} {accepted taken : List Byte}
  {node : UdtNode}
variable {pocket : UdtPocket}

section

variable (holds : Receiving peer taken node.streamView)
include holds

theorem Receiving.appended_storeData {data : List Byte}
    (room : data.length ≤ node.recvBuffer.freeCapacity)
    (fits : data.length ≤ node.recvBuffer.freespace ∨
      node.recvBuffer.Compacts) :
    (node.recvBuffer.write data .all fun _ => none).2.Represents
        (node.recvBuffer.content ++ data) ∧
      (node.storeData data).2.streamView.appended taken =
        node.streamView.appended taken ++ data := by
  have all : node.recvBuffer.acceptedBytes data .all = data := if_pos room
  have written : (node.recvBuffer.write data .all fun _ => none).2.Represents
      (node.recvBuffer.content ++ node.recvBuffer.acceptedBytes data .all) :=
    write_represents holds.buffer data .all (fun _ => none) holds.fixed
      (fits.imp_right .inl)
  rw [all] at written
  refine ⟨written, ?_⟩
  show taken ++ (node.recvBuffer.write data .all fun _ => none).2.content = _
  rw [written.content_eq, ← List.append_assoc]
  rfl

theorem Receiving.storeData {data : List Byte}
    (agrees : Agrees peer.accepted (node.streamView.appended taken).length data)
    (bounded : (node.streamView.appended taken).length + data.length ≤
        peer.accepted.length ∨
      peer.finished = true ∧
        (node.streamView.appended taken).length + data.length < 2 ^ 32)
    (room : data.length ≤ node.recvBuffer.freeCapacity)
    (fits : data.length ≤ node.recvBuffer.freespace ∨
      node.recvBuffer.Compacts) :
    Receiving peer taken (node.storeData data).2.streamView := by
  obtain ⟨written, appended⟩ := holds.appended_storeData room fits
  have longer : ((node.storeData data).2.streamView.appended taken).length =
      (node.streamView.appended taken).length + data.length := by
    rw [appended, List.length_append]
  refine
    { small := holds.small
      finSmall := holds.finSmall
      fixed := write_autoInc holds.fixed _ _ _
      capacity := (write_capacity holds.fixed _ _ _).trans holds.capacity
      buffer := { written with content_eq := rfl }
      number := ?_
      agrees := ?_
      bounded := longer ▸ bounded
      kept := by
        have kept := holds.kept
        omega
      early := ?_
      acks := ?_ }
  · rw [longer, ← Serial.add_counts, ← holds.number]
    rfl
  · rw [appended]
    exact holds.agrees.append (by rwa [Nat.zero_add])
  · intro entry member
    exact (holds.early entry member).later (by omega)
  · intro pocket member acks
    obtain ⟨count, known, number⟩ := holds.acks pocket member acks
    exact ⟨count, by omega, number⟩

theorem Receiving.next
    (carries : pocket.Carries peer.base peer.accepted peer.finished
      (node.streamView.appended taken).length)
    (expected : pocket.sequence = node.receivedSequence) :
    Agrees peer.accepted (node.streamView.appended taken).length
        pocket.data ∧
      ((node.streamView.appended taken).length + pocket.data.length ≤
          peer.accepted.length ∨
        peer.finished = true ∧
          (node.streamView.appended taken).length + pocket.data.length <
            2 ^ 32) := by
  obtain ⟨position, inside, number, piece⟩ := carries
  have small := holds.small
  have numbers := (number.symm.trans expected).trans holds.number
  have same : position = (node.streamView.appended taken).length :=
    Serial.count_eq (by omega) holds.length_lt numbers
  rw [← same]
  rcases piece with old | ⟨agrees, reach | ⟨finished, short⟩⟩
  · omega
  · exact ⟨agrees, .inl reach⟩
  · have closing := holds.finSmall finished
    exact ⟨agrees, .inr ⟨finished, by omega⟩⟩

end

theorem Fits.head {later : List UdtPocket} (fits : node.Fits (pocket :: later))
    (holds : Receiving peer taken node.streamView)
    (expected : pocket.sequence = node.receivedSequence)
    (room : pocket.data.length ≤ node.recvBuffer.freeCapacity) :
    pocket.data.length ≤ node.recvBuffer.freespace ∨
      node.recvBuffer.Compacts := by
  rcases fits with settled | open_
  · exact .inr settled.compacts
  · by_cases tail : pocket.data.length ≤ node.recvBuffer.freespace
    · exact .inl tail
    · have free := holds.buffer.freespace_add_startOff
      refine absurd ⟨expected, ?_⟩ open_
      rw [if_neg tail]
      exact free ▸ room

theorem Fits.tail {later : List UdtPocket} (fits : node.Fits (pocket :: later))
    (holds : Receiving peer taken node.streamView)
    (expected : pocket.sequence = node.receivedSequence)
    (room : pocket.data.length ≤ node.recvBuffer.freeCapacity) :
    (node.storeData pocket.data).2.Fits later := by
  rcases fits with settled | open_
  · exact .inl (write_all_settled settled holds.fixed _ _)
  by_cases tail : pocket.data.length ≤ node.recvBuffer.freespace
  · obtain ⟨start, rest⟩ :=
      write_all_tail holds.buffer tail (fun _ => none)
    refine .inr fun crowded => open_ ⟨expected, ?_⟩
    rw [if_pos tail]
    rw [show (node.storeData pocket.data).2.recvBuffer.freespace = _ from rest,
      show (node.storeData pocket.data).2.recvBuffer.startOff = _ from start]
      at crowded
    exact crowded
  · have free := holds.buffer.freespace_add_startOff
    refine absurd ⟨expected, ?_⟩ open_
    rw [if_neg tail]
    exact free ▸ room

theorem Receiving.fetchPrelist (holds : Receiving peer taken node.streamView)
    {list : List PrePacket}
    (early : ∀ entry ∈ list,
      entry.pack.Carries peer.base peer.accepted peer.finished
        (node.streamView.appended taken).length)
    (fits : node.Fits (list.map PrePacket.pack)) :
    Receiving peer taken (node.fetchPrelist list).streamView := by
  induction list generalizing node with
  | nil =>
    refine { holds with early := ?_ }
    intro entry member
    cases member
  | cons entry later induction =>
    have kept : Receiving peer taken
        ({ node with preList := entry :: later } : UdtNode).streamView :=
      { holds with early := early }
    unfold fetchPrelist handlePrePacket
    by_cases expected : entry.pack.sequence = node.receivedSequence
    · by_cases full :
          node.recvBuffer.freeCapacity < entry.pack.data.length
      · simpa [expected, full] using kept
      have room := Nat.le_of_not_lt full
      obtain ⟨agrees, bounded⟩ :=
        holds.next (early entry List.mem_cons_self) expected
      have place := fits.head holds expected room
      have stored := holds.storeData agrees bounded room place
      have appended := (holds.appended_storeData room place).2
      simp only [expected, full, ne_eq, not_true, if_false, if_true]
      refine induction stored ?_ (fits.tail holds expected room)
      intro other member
      apply (early other (List.mem_cons_of_mem _ member)).later
      rw [appended, List.length_append]
      omega
    · simpa [expected] using kept

theorem Sending.fetchPrelist {acked sent released appended : Nat}
    (holds : Sending base accepted appended node.streamView acked sent
      released) (list : List PrePacket) :
    Sending base accepted appended (node.fetchPrelist list).streamView acked
      sent released := by
  induction list generalizing node with
  | nil => exact { holds with }
  | cons entry later induction =>
    have handled : Sending base accepted appended
        (node.handlePrePacket entry.pack).2.streamView acked sent
          released := by
      unfold handlePrePacket
      split
      · exact holds
      split
      · exact holds
      · exact { holds with }
    unfold fetchPrelist
    dsimp only
    split
    · exact induction handled
    · exact { holds with }

theorem mem_insertPre {packet entry : PrePacket} {list : List PrePacket}
    (member : entry ∈ insertPre packet list) :
    entry = packet ∨ entry ∈ list := by
  induction list with
  | nil => exact .inl (List.mem_singleton.mp member)
  | cons first later induction =>
    unfold insertPre at member
    grind

theorem Ready.handleIncomeData
    (holds : Ready base peer accepted taken node.streamView)
    (carries : pocket.Carries peer.base peer.accepted peer.finished
      (node.streamView.appended taken).length)
    (fits : node.Fits (pocket :: node.preList.map PrePacket.pack)) :
    Ready base peer accepted taken
      (node.handleIncomeData pocket).2.streamView := by
  obtain ⟨acked, sent, released, sending⟩ := holds.sending
  have receiving := holds.receiving
  unfold UdtNode.handleIncomeData
  dsimp only
  split
  · exact holds
  split
  · refine ⟨⟨acked, sent, released, { sending with }⟩,
      { receiving with early := ?_ }⟩
    intro entry member
    rcases mem_insertPre member with rfl | old
    · exact carries
    · exact receiving.early entry old
  split
  · exact holds.sendAck
  split
  · exact holds
  rename_i later early full
  have expected : pocket.sequence = node.receivedSequence := by
    have zero : (pocket.sequence - node.receivedSequence).toInt =
        (0 : Seq).toInt := by
      rw [show (0 : Seq).toInt = 0 from rfl]
      omega
    exact sub_eq_zero.mp (BitVec.toInt_inj.mp zero)
  have room := Nat.le_of_not_lt full
  obtain ⟨agrees, bounded⟩ := receiving.next carries expected
  have place := fits.head receiving expected room
  have stored := receiving.storeData agrees bounded room place
  have resting : Sending base accepted peer.appended
      (node.storeData pocket.data).2.streamView acked sent released :=
    { sending with }
  split
  · exact ⟨⟨acked, sent, released, resting⟩, stored⟩
  · exact ⟨⟨acked, sent, released, resting.fetchPrelist _⟩,
      stored.fetchPrelist stored.early (fits.tail receiving expected room)⟩

end Receive

section Acknowledge

variable {base : Seq} {peer : Peer} {accepted taken : List Byte}
  {node : UdtNode} {acked sent released count : Nat}

theorem sendClosed_has (status flag : NetStat) (marked : status.has flag) :
    (sendClosed status).has flag := by
  unfold sendClosed
  dsimp only
  split <;> simp [has_or, marked]

theorem sendClosed_sendclose (status : NetStat) :
    (sendClosed status).has sendclose := by
  have set : has sendclose sendclose = true := by decide
  unfold sendClosed
  dsimp only
  split <;> simp [has_or, set]

/-- The acknowledgement of the last byte sent empties the buffer of a closing
node; nothing may be left unsent then. -/
theorem Sending.close
    (holds : Sending base accepted peer.appended node.streamView acked sent
      released)
    (closing : node.status.has finsend) (known : count ≤ peer.appended)
    (last : node.sendSequence = base + BitVec.ofNat 32 count)
    (nothing : node.sendBuffer.datalen ≤
      (node.sendSequence - node.acknowledgedSeq).toNat) :
    Sending base accepted peer.appended
      { node.streamView with
        sendBuffer := node.sendBuffer.reset
        status := sendClosed node.status }
      acked sent accepted.length := by
  have small := holds.small
  have sent_le := holds.sent_le
  have acked_le := holds.acked_le
  have heard := holds.appendedSmall
  have all : sent = accepted.length := by
    rcases holds.phase with same | ⟨-, -, -, all⟩
    · have length : accepted.length - released = node.sendBuffer.datalen := by
        rw [← List.length_drop]
        exact holds.buffer.queue_length
      rw [holds.unacked] at nothing
      omega
    · exact all
  have numbers : base + BitVec.ofNat 32 sent = base + BitVec.ofNat 32 count :=
    holds.sendSeq.symm.trans last
  have same : sent = count :=
    Serial.count_eq (by omega) (by omega) numbers
  have kept : (sendClosed node.status).has finsend := sendClosed_has _ _ closing
  refine
    { holds with
      live := sendClosed_has _ _ holds.live
      finSmall := fun _ => holds.finSmall closing
      buffer := ?_
      released_le := by omega
      phase := .inr ⟨kept, sendClosed_sendclose _, rfl, all⟩
      resend := fun _ => .inl kept
      wire := ?_ }
  · rw [List.drop_length]
    exact reset_represents holds.buffer.storage_length
  · intro pocket member
    have before := holds.wire pocket member
    rw [show node.streamView.status.has finsend = true from closing] at before
    simp only [kept]
    exact before

theorem Sending.acknowledge
    (holds : Sending base accepted peer.appended node.streamView acked sent
      released) (regular : released = acked)
    (forward : acked ≤ count) (sent_ : count ≤ sent)
    (known : count ≤ peer.appended) (again : Bool) (retransSeq : Seq)
    (resend : again → node.status.has finsend ∨ ∃ upTo, count ≤ upTo ∧
      upTo ≤ accepted.length ∧ retransSeq = base + BitVec.ofNat 32 upTo) :
    Sending base accepted peer.appended
      { node.streamView with
        sendBuffer := node.sendBuffer.subData (count - acked)
        acknowledgedSeq := base + BitVec.ofNat 32 count
        isRetranslate := again
        retransSeq := retransSeq }
      count sent count := by
  have shorter := subData_represents holds.buffer (count - acked)
  rw [List.drop_drop] at shorter
  rw [show released + (count - acked) = count by omega] at shorter
  exact
    { holds with
      fixed := (subData_autoInc _ _).trans holds.fixed
      capacity := (subData_capacity _ _).trans holds.capacity
      buffer := shorter
      ackedSeq := rfl
      acked_le := sent_
      released_le := known
      phase := .inl rfl
      resend := resend }

theorem takeAcknowledged_streamView {ackSeq : Seq}
    (takes : node.TakesOff ackSeq) :
    (node.takeAcknowledged ackSeq).streamView =
      { node.streamView with
        sendBuffer := node.sendBuffer.subData
          (ackSeq - node.acknowledgedSeq).toNat
        acknowledgedSeq := ackSeq } := by
  unfold takeAcknowledged
  rw [if_pos takes, Serial.toNat_toInt (Int.le_of_lt takes.1)]
  split <;> rfl

/-- A number that takes bytes off is that of a position between those already
acknowledged and those sent. -/
theorem Sending.takesOff
    (holds : Sending base accepted peer.appended node.streamView acked sent
      released) (known : count ≤ peer.appended)
    (takes : node.TakesOff (base + BitVec.ofNat 32 count)) :
    acked ≤ count ∧ count ≤ sent ∧
      (base + BitVec.ofNat 32 count - node.acknowledgedSeq).toNat =
        count - acked := by
  have small := holds.small
  have sent_le := holds.sent_le
  have heard := holds.appendedSmall
  have acked_le := holds.acked_le
  have whole := Serial.distance_between (Int.le_of_lt takes.1) takes.2.2
  rw [holds.unacked] at whole
  have target := Serial.add_distance node.acknowledgedSeq
    (base + BitVec.ofNat 32 count)
  rw [show node.acknowledgedSeq = _ from holds.ackedSeq, Serial.add_counts]
    at target
  have same := Serial.count_eq (by
    rw [← show node.acknowledgedSeq = _ from holds.ackedSeq]
    omega) (by omega) target
  rw [← show node.acknowledgedSeq = _ from holds.ackedSeq] at same
  omega

/-- A retransmission that an acknowledgement does not end reaches behind the
acknowledged bytes. -/
theorem Sending.stillResending
    (holds : Sending base accepted peer.appended node.streamView acked sent
      released) (regular : released = acked)
    (open_ : ¬ node.status.has finsend) (sent_ : count ≤ sent)
    (resending : node.isRetranslate)
    (behind : ¬ 0 ≤ (base + BitVec.ofNat 32 count - node.retransSeq).toInt) :
    ∃ upTo, count ≤ upTo ∧ upTo ≤ accepted.length ∧
      node.retransSeq = base + BitVec.ofNat 32 upTo := by
  rcases holds.resend resending with closing | ⟨upTo, lower, upper, number⟩
  · exact absurd closing open_
  refine ⟨upTo, ?_, upper, number⟩
  by_contra passed
  apply behind
  have length : accepted.length - released = node.sendBuffer.datalen := by
    rw [← List.length_drop]
    exact holds.buffer.queue_length
  have buffered : node.sendBuffer.datalen ≤ packetSize :=
    holds.capacity ▸ holds.buffer.datalen_le_capacity
  have sent_le := holds.sent_le
  rw [packetSize] at buffered
  have distance : (base + BitVec.ofNat 32 count - node.retransSeq).toNat =
      count - upTo := by
    rw [show node.retransSeq = _ from number]
    exact Serial.distance_counts (by omega) (by omega)
  rw [BitVec.toInt_eq_toNat_of_lt (by omega)]
  omega

/-- An honest acknowledgement keeps a node in order, if a closing node has
nothing left to send when it comes. -/
theorem Ready.handleAck (holds : Ready base peer accepted taken node.streamView)
    (known : count ≤ peer.appended)
    (unsent : node.status.has finsend →
      node.acknowledgedSeq < base + BitVec.ofNat 32 count →
      node.sendSequence = base + BitVec.ofNat 32 count →
      node.sendBuffer.datalen ≤
        (node.sendSequence - node.acknowledgedSeq).toNat) :
    Ready base peer accepted taken
      (node.handleAck (base + BitVec.ofNat 32 count)).streamView := by
  obtain ⟨⟨acked, sent, released, sending⟩, receiving⟩ := holds
  have started : node.status ≠ synrecv := by
    intro early
    have live : node.status.has established := sending.live
    rw [early] at live
    cases live
  unfold UdtNode.handleAck
  split
  · exact ⟨⟨acked, sent, released, sending⟩, receiving⟩
  rename_i fresh
  unfold handleNewAck
  rw [if_neg started]
  split
  · rename_i closing
    split
    · rename_i last
      have closed := sending.close closing known last
        (unsent closing (BitVec.not_le.mp fresh) last)
      rw [← last]
      exact ⟨⟨acked, sent, accepted.length, closed⟩, { receiving with }⟩
    · exact ⟨⟨acked, sent, released, sending⟩, receiving⟩
  rename_i open_
  have regular : released = acked := by
    rcases sending.phase with same | ⟨closing, -⟩
    · exact same
    · exact absurd closing open_
  dsimp only
  by_cases takes : node.TakesOff (base + BitVec.ofNat 32 count)
  · obtain ⟨forward, sent_, distance⟩ := sending.takesOff known takes
    have view := takeAcknowledged_streamView takes
    rw [distance] at view
    have again : (node.takeAcknowledged
        (base + BitVec.ofNat 32 count)).isRetranslate = node.isRetranslate :=
      congrArg StreamView.isRetranslate view
    have place : (node.takeAcknowledged
        (base + BitVec.ofNat 32 count)).retransSeq = node.retransSeq :=
      congrArg StreamView.retransSeq view
    rw [again, place]
    split
    · have moved := sending.acknowledge regular forward sent_ known false
        (base + BitVec.ofNat 32 count) (fun wrong => by cases wrong)
      have ended : ({ node.takeAcknowledged (base + BitVec.ofNat 32 count) with
          isRetranslate := false
          retransSeq := base + BitVec.ofNat 32 count
          resendTimes := 0 } : UdtNode).streamView =
        { (node.takeAcknowledged
            (base + BitVec.ofNat 32 count)).streamView with
          isRetranslate := false
          retransSeq := base + BitVec.ofNat 32 count } := rfl
      rw [ended, view]
      exact ⟨⟨count, sent, count, moved⟩, { receiving with }⟩
    · rename_i goesOn
      have moved := sending.acknowledge regular forward sent_ known
        node.isRetranslate node.retransSeq
        (fun resending => .inr (sending.stillResending regular open_ sent_
          resending fun ends => goesOn ⟨resending, ends⟩))
      rw [view]
      exact ⟨⟨count, sent, count, moved⟩, { receiving with }⟩
  · rw [show node.takeAcknowledged (base + BitVec.ofNat 32 count) = node from
      if_neg takes]
    split
    · exact ⟨⟨acked, sent, released,
        { sending with resend := fun again => by cases again }⟩,
        { receiving with }⟩
    · exact ⟨⟨acked, sent, released, sending⟩, receiving⟩

end Acknowledge

section Handler

variable {base : Seq} {peer : Peer} {accepted taken : List Byte}
  {node : UdtNode} {pocket : UdtPocket}

/-- The acknowledgement would end the sending of a closing node that has unsent
data. -/
def Unfinished (node : UdtNode) (ackSeq : Seq) : Prop :=
  node.status.has finsend ∧ node.acknowledgedSeq < ackSeq ∧
    node.sendSequence = ackSeq ∧
    (node.sendSequence - node.acknowledgedSeq).toNat < node.sendBuffer.datalen

instance (node : UdtNode) (ackSeq : Seq) :
    Decidable (node.Unfinished ackSeq) :=
  inferInstanceAs (Decidable (_ ∧ _ ∧ _ ∧ _))

/-- The pocket meets none of the weak spots. -/
structure Handles (node : UdtNode) (pocket : UdtPocket) : Prop where
  fits : pocket.udtType = .data →
    node.Fits (pocket :: node.preList.map PrePacket.pack)
  inOrder : pocket.udtType = .fin → ¬ node.status.has recvclose →
    pocket.sequence = node.receivedSequence
  finished : pocket.acknowledges → ¬ node.Unfinished pocket.ackSeq

theorem Ready.mark {view : StreamView}
    (holds : Ready base peer accepted taken view) (flags : NetStat)
    (other : flags.has finsend = false) :
    Ready base peer accepted taken
      { view with status := view.status ||| flags } := by
  obtain ⟨⟨acked, sent, released, sending⟩, receiving⟩ := holds
  have same : has (view.status ||| flags) finsend = view.status.has finsend := by
    rw [has_or, other, Bool.or_false]
  refine ⟨⟨acked, sent, released,
    { sending with
      live := ?_
      finSmall := fun closing => sending.finSmall (same ▸ closing)
      phase := ?_
      resend := fun again => ?_
      wire := ?_ }⟩, { receiving with }⟩
  · rw [has_or, sending.live, Bool.true_or]
  · refine sending.phase.imp_right fun closed => ⟨?_, ?_, closed.2.2⟩
    · rw [same]
      exact closed.1
    · rw [has_or, closed.2.1, Bool.true_or]
  · simp only [same]
    exact sending.resend again
  · simp only [same]
    exact sending.wire

theorem Ready.handlePocketAck
    (holds : Ready base peer accepted taken node.streamView)
    (honest : pocket.Honest base peer.appended) (acks : pocket.acknowledges)
    (finished : ¬ node.Unfinished pocket.ackSeq) :
    Ready base peer accepted taken
      (node.handleAck pocket.ackSeq).streamView := by
  obtain ⟨count, known, number⟩ := honest acks
  rw [number] at finished ⊢
  refine holds.handleAck known fun closing fresh last => ?_
  by_contra more
  exact finished ⟨closing, fresh, last, Nat.lt_of_not_le more⟩

theorem handleAck_recv (node : UdtNode) (ackSeq : Seq) :
    (node.handleAck ackSeq).receivedSequence = node.receivedSequence ∧
      (node.handleAck ackSeq).recvBuffer = node.recvBuffer ∧
      (node.handleAck ackSeq).preList = node.preList := by
  have taken : (node.takeAcknowledged ackSeq).receivedSequence =
        node.receivedSequence ∧
      (node.takeAcknowledged ackSeq).recvBuffer = node.recvBuffer ∧
      (node.takeAcknowledged ackSeq).preList = node.preList := by
    unfold takeAcknowledged
    dsimp only
    split
    · split <;> exact ⟨rfl, rfl, rfl⟩
    · exact ⟨rfl, rfl, rfl⟩
  unfold handleAck handleNewAck
  dsimp only
  split
  · exact ⟨rfl, rfl, rfl⟩
  split
  · split
    · exact ⟨rfl, rfl, rfl⟩
    split <;> exact ⟨rfl, rfl, rfl⟩
  split
  · split <;> exact ⟨rfl, rfl, rfl⟩
  split <;> exact taken

variable (holds : Ready base peer accepted taken node.streamView)
include holds

theorem Ready.handleData
    (carries : pocket.Carries peer.base peer.accepted peer.finished
      (node.streamView.appended taken).length)
    (honest : pocket.Honest base peer.appended)
    (fits : node.Fits (pocket :: node.preList.map PrePacket.pack))
    (finished : pocket.acknowledges → ¬ node.Unfinished pocket.ackSeq) :
    Ready base peer accepted taken
      (node.handleData pocket).2.streamView := by
  have acked : Ready base peer accepted taken
      (node.handleCarriedAck pocket).streamView ∧
      (node.handleCarriedAck pocket).receivedSequence = node.receivedSequence ∧
      (node.handleCarriedAck pocket).recvBuffer = node.recvBuffer ∧
      (node.handleCarriedAck pocket).preList = node.preList := by
    unfold handleCarriedAck
    split
    · rename_i flag
      have acks : pocket.acknowledges = true := by
        simp [UdtPocket.acknowledges, flag]
      exact ⟨holds.handlePocketAck honest acks (finished acks),
        handleAck_recv node _⟩
    · exact ⟨holds, rfl, rfl, rfl⟩
  obtain ⟨acked, number, buffer, early⟩ := acked
  have income : Ready base peer accepted taken
      ((node.handleCarriedAck pocket).handleIncomeData pocket).2.streamView := by
    refine acked.handleIncomeData ?_ ?_
    · show pocket.Carries _ _ _
        (taken ++ (node.handleCarriedAck pocket).recvBuffer.content).length
      rw [buffer]
      exact carries
    · unfold Fits
      rw [number, buffer, early]
      exact fits
  unfold UdtNode.handleData
  dsimp only
  split
  · exact income.flushRounds _
  · exact income

theorem Ready.handleFin (plain : pocket.ack = false)
    (inOrder : ¬ node.status.has recvclose →
      pocket.sequence = node.receivedSequence) :
    Ready base peer accepted taken (node.handleFin pocket).2.streamView := by
  have told : ∀ marked : UdtNode,
      Ready base peer accepted taken marked.streamView →
      Ready base peer accepted taken
        ({ marked.sendAck.2 with myerrno := .closed } : UdtNode).streamView :=
    fun marked ready => ready.sendAck.congr rfl
  unfold UdtNode.handleFin handleCarriedAck
  rw [plain]
  dsimp only
  apply told
  simp only [Bool.false_eq_true, if_false]
  split
  · exact holds
  · rename_i before
    rw [inOrder before]
    have marked := holds.mark recvclose (by decide)
    split
    · exact marked.mark NetStat.reset (by decide)
    · exact marked

/-- Every pocket of a peer in order keeps a node in order, if it meets none of
the weak spots. -/
theorem Ready.packetHandler
    (sent : pocket.Sent peer.base peer.accepted peer.finished
      (node.streamView.appended taken).length)
    (honest : pocket.Honest base peer.appended)
    (handles : ¬ node.status.has NetStat.reset → node.Handles pocket) :
    Ready base peer accepted taken
      (node.packetHandler pocket).2.streamView := by
  unfold UdtNode.packetHandler
  split
  · exact holds.sendReset
  rename_i running
  have handles := handles running
  have noted : Ready base peer accepted taken
      (node.noteArrival pocket).streamView := holds.congr rfl
  have dispatched : Ready base peer accepted taken
      ((node.noteArrival pocket).dispatch pocket).2.streamView := by
    unfold dispatch
    rcases sent.1 with kind | kind | ⟨kind, plain, -⟩ | kind
    · rw [kind]
      exact noted.handleData (sent.2 kind) honest (handles.fits kind)
        handles.finished
    · have acks : pocket.acknowledges = true := by
        simp [UdtPocket.acknowledges, kind]
      rw [kind]
      exact noted.handlePocketAck honest acks (handles.finished acks)
    · rw [kind]
      exact noted.handleFin plain (handles.inOrder kind)
    · rw [kind]
      exact noted.mark NetStat.reset (by decide)
  dsimp only
  split <;> exact dispatched

end Handler

end UdtNode

end NdNet

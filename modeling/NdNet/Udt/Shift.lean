import NdNet.Udt.Window

/-!
# Shifted sequence numbers

A connection in which every sequence number is larger by a constant should do
the same things.  The data path does, and so does all of `_handle_ack` behind
its first test; the first test compares two numbers without regard to their
wrapping around, and decides alone when the shifted connection differs.
-/

namespace NdNet

namespace UdtPocket

/-- How far the number behind `sequence` moves, which only is one in a pocket
that acknowledges. -/
def ackShift (pocket : UdtPocket) (c : Seq) : Seq :=
  if pocket.acknowledges then c else 0

def shift (pocket : UdtPocket) (c : Seq) : UdtPocket :=
  { pocket with
    sequence := pocket.sequence + c
    ackSeq := pocket.ackSeq + pocket.ackShift c }

/-- A pocket the node has sent, shifted.  An ack pocket has no number of its
own. -/
def shiftSent (pocket : UdtPocket) (c : Seq) : UdtPocket :=
  { pocket with
    sequence := pocket.sequence + if pocket.udtType = .ack then 0 else c
    ackSeq := pocket.ackSeq + pocket.ackShift c }

theorem ackShift_neg (pocket : UdtPocket) (c : Seq) :
    pocket.ackShift (-c) = -pocket.ackShift c := by
  unfold ackShift
  split <;> simp

theorem shift_neg_shift (pocket : UdtPocket) (c : Seq) :
    (pocket.shift c).shift (-c) = pocket := by
  have acks : (pocket.shift c).ackShift (-c) = -pocket.ackShift c :=
    ackShift_neg pocket c
  rw [shift, acks]
  simp [shift]

theorem shiftSent_neg_shiftSent (pocket : UdtPocket) (c : Seq) :
    (pocket.shiftSent c).shiftSent (-c) = pocket := by
  have acks : (pocket.shiftSent c).ackShift (-c) = -pocket.ackShift c :=
    ackShift_neg pocket c
  rw [shiftSent, acks]
  cases pocket with
  | mk udtType ack localPort windowLen sequence ackSeq data =>
    simp only [shiftSent, mk.injEq, true_and, and_true]
    refine ⟨?_, add_neg_cancel_right _ _⟩
    by_cases kind : udtType = .ack
    · simp [kind]
    · simp [kind]

end UdtPocket

def PrePacket.shift (entry : PrePacket) (c : Seq) : PrePacket :=
  { entry with pack := entry.pack.shift c }

namespace UdtNode

open NetStat

/-- The node with all its sequence numbers shifted, those of the buffered
packets and of the packets it has sent among them. -/
def shift (node : UdtNode) (c : Seq) : UdtNode :=
  { node with
    sendSequence := node.sendSequence + c
    acknowledgedSeq := node.acknowledgedSeq + c
    receivedSequence := node.receivedSequence + c
    retransSeq := node.retransSeq + c
    preList := node.preList.map (·.shift c)
    wire := node.wire.map (·.shiftSent c) }

def handlePocketAck (node : UdtNode) (pocket : UdtPocket) : UdtNode :=
  if pocket.acknowledges then node.handleAck pocket.ackSeq else node

/-- The data of a data or an ack pocket; an ack pocket has none that is looked
at. -/
def handlePocketData (node : UdtNode) (pocket : UdtPocket) : Int × UdtNode :=
  if pocket.udtType = .ack then (0, node) else node.handleIncomeData pocket

/-- Shifted by `c`, the node does the same with the pocket. -/
structure ShiftsAlike (node : UdtNode) (pocket : UdtPocket) (c : Seq) :
    Prop where
  ack : (node.shift c).handlePocketAck (pocket.shift c) =
    (node.handlePocketAck pocket).shift c
  data : ((node.shift c).handlePocketAck (pocket.shift c)).handlePocketData
      (pocket.shift c) =
    (((node.handlePocketAck pocket).handlePocketData pocket).1,
      ((node.handlePocketAck pocket).handlePocketData pocket).2.shift c)

/-- Behind its first test `_handle_ack` would find nothing to do. -/
def AckIdle (node : UdtNode) (ackSeq : Seq) : Prop :=
  if node.status = synrecv then
    if (ackSeq - node.acknowledgedSeq).toInt < 0 then
      node.myerrno = .badpacket
    else node.sendSequence + 1 ≠ ackSeq
  else if node.status.has finsend then
    node.sendSequence = ackSeq →
      node.sendBuffer.reset = node.sendBuffer ∧
        sendClosed node.status = node.status
  else
    ¬ node.TakesOff ackSeq ∧
      ¬ (node.isRetranslate ∧ 0 ≤ (ackSeq - node.retransSeq).toInt)

/-- The first test of `_handle_ack` comes out the same after the shift, or
does not matter. -/
def AckShifts (node : UdtNode) (ackSeq c : Seq) : Prop :=
  (ackSeq ≤ node.acknowledgedSeq ↔ ackSeq + c ≤ node.acknowledgedSeq + c) ∨
    node.AckIdle ackSeq

section Shift

variable (node : UdtNode) (c : Seq)

theorem shift_neg_shift : (node.shift c).shift (-c) = node := by
  have packets : (node.preList.map (·.shift c)).map (·.shift (-c)) =
      node.preList := by
    rw [List.map_map]
    refine (List.map_congr_left fun entry _ => ?_).trans (List.map_id _)
    simp [PrePacket.shift, UdtPocket.shift_neg_shift]
  have sent : (node.wire.map (·.shiftSent c)).map (·.shiftSent (-c)) =
      node.wire := by
    rw [List.map_map]
    refine (List.map_congr_left fun pocket _ => ?_).trans (List.map_id _)
    simp [UdtPocket.shiftSent_neg_shiftSent]
  simp only [shift, packets, sent, add_neg_cancel_right]

theorem shift_injective {other : UdtNode}
    (same : node.shift c = other.shift c) : node = other := by
  rw [← shift_neg_shift node c, same, shift_neg_shift]

theorem writePocketToSocket_shift (pocket : UdtPocket) :
    (node.shift c).writePocketToSocket (pocket.shiftSent c) =
      ((node.writePocketToSocket pocket).1,
        (node.writePocketToSocket pocket).2.shift c) := by
  unfold writePocketToSocket
  dsimp only [shift]
  split
  · simp only [List.map_append]
    rfl
  · rfl
  · rfl

theorem sendAck_shift :
    (node.shift c).sendAck = (node.sendAck.1, node.sendAck.2.shift c) := by
  have shifted := writePocketToSocket_shift node c
    { UdtPocket.init.setAck node.receivedSequence with udtType := .ack }
  exact shifted

theorem insertPre_shift (packet : PrePacket) (list : List PrePacket) :
    insertPre (packet.shift c) (list.map (·.shift c)) =
      (insertPre packet list).map (·.shift c) := by
  induction list with
  | nil => rfl
  | cons entry later induction =>
    have times : (packet.shift c).recvTm - (entry.shift c).recvTm =
      packet.recvTm - entry.recvTm := rfl
    have numbers : (packet.shift c).pack.sequence -
        (entry.shift c).pack.sequence =
          packet.pack.sequence - entry.pack.sequence :=
      add_sub_add_right_eq_sub _ _ _
    simp only [List.map_cons, insertPre, times, numbers, induction]
    split
    · rfl
    split
    · split <;> rfl
    · rfl

theorem storeData_shift (data : List Byte) :
    (node.shift c).storeData data =
      ((node.storeData data).1, (node.storeData data).2.shift c) := by
  simp only [storeData, shift, add_right_comm]

theorem handlePrePacket_shift (pocket : UdtPocket) :
    (node.shift c).handlePrePacket (pocket.shift c) =
      ((node.handlePrePacket pocket).1,
        (node.handlePrePacket pocket).2.shift c) := by
  have numbers : (pocket.shift c).sequence = (node.shift c).receivedSequence ↔
      pocket.sequence = node.receivedSequence :=
    add_left_inj c
  have data : (pocket.shift c).data = pocket.data := rfl
  have room : (node.shift c).recvBuffer = node.recvBuffer := rfl
  unfold handlePrePacket
  simp only [ne_eq, numbers, data, room, storeData_shift]
  split
  · rfl
  split <;> rfl

theorem fetchPrelist_shift (list : List PrePacket) :
    (node.shift c).fetchPrelist (list.map (·.shift c)) =
      (node.fetchPrelist list).shift c := by
  induction list generalizing node with
  | nil => rfl
  | cons entry later induction =>
    have handled : (node.shift c).handlePrePacket (entry.shift c).pack =
        ((node.handlePrePacket entry.pack).1,
          (node.handlePrePacket entry.pack).2.shift c) :=
      handlePrePacket_shift node c entry.pack
    simp only [List.map_cons, fetchPrelist, handled]
    split
    · exact induction _
    · rfl

theorem handleIncomeData_shift (pocket : UdtPocket) :
    (node.shift c).handleIncomeData (pocket.shift c) =
      ((node.handleIncomeData pocket).1,
        (node.handleIncomeData pocket).2.shift c) := by
  have numbers : (pocket.shift c).sequence - (node.shift c).receivedSequence =
      pocket.sequence - node.receivedSequence :=
    add_sub_add_right_eq_sub _ _ _
  have data : (pocket.shift c).data = pocket.data := rfl
  have room : (node.shift c).recvBuffer = node.recvBuffer := rfl
  unfold handleIncomeData
  simp only [numbers, data, room]
  split
  · rfl
  split
  · refine congrArg (fun list => ((0 : Int), ({ node.shift c with
      preList := list } : UdtNode))) ?_
    exact insertPre_shift c ⟨node.now, pocket⟩ node.preList
  split
  · rw [sendAck_shift]
  split
  · rfl
  rw [storeData_shift]
  refine congrArg (Prod.mk (node.storeData pocket.data).1) ?_
  have empty : ((node.storeData pocket.data).2.shift c).preList.isEmpty =
      (node.storeData pocket.data).2.preList.isEmpty := by
    simp [shift]
  rw [empty]
  split
  · rfl
  · exact fetchPrelist_shift _ c _

theorem takeAcknowledged_shift (ackSeq : Seq) :
    (node.shift c).takeAcknowledged (ackSeq + c) =
      (node.takeAcknowledged ackSeq).shift c := by
  have notified : ackSeq + c - (node.shift c).acknowledgedSeq =
      ackSeq - node.acknowledgedSeq := add_sub_add_right_eq_sub _ _ _
  have unnotified : (node.shift c).sendSequence - (ackSeq + c) =
      node.sendSequence - ackSeq := add_sub_add_right_eq_sub _ _ _
  have takes : (node.shift c).TakesOff (ackSeq + c) ↔
      node.TakesOff ackSeq := by
    unfold TakesOff
    rw [notified, unnotified]
    rfl
  have resending : (node.shift c).isRetranslate = node.isRetranslate := rfl
  unfold takeAcknowledged
  simp only [takes, notified, resending]
  split
  · split <;> rfl
  · rfl

theorem handleNewAck_shift (ackSeq : Seq) :
    (node.shift c).handleNewAck (ackSeq + c) =
      (node.handleNewAck ackSeq).shift c := by
  have notified : ackSeq + c - (node.shift c).acknowledgedSeq =
      ackSeq - node.acknowledgedSeq := add_sub_add_right_eq_sub _ _ _
  have status : (node.shift c).status = node.status := rfl
  have last : (node.shift c).sendSequence = ackSeq + c ↔
      node.sendSequence = ackSeq := add_left_inj c
  have next : (node.shift c).sendSequence + 1 = ackSeq + c ↔
      node.sendSequence + 1 = ackSeq := by
    rw [show (node.shift c).sendSequence + 1 = node.sendSequence + 1 + c from
      add_right_comm _ _ _]
    exact add_left_inj c
  have resent : ackSeq + c - ((node.takeAcknowledged ackSeq).shift c).retransSeq =
      ackSeq - (node.takeAcknowledged ackSeq).retransSeq :=
    add_sub_add_right_eq_sub _ _ _
  have resending : ((node.takeAcknowledged ackSeq).shift c).isRetranslate =
      (node.takeAcknowledged ackSeq).isRetranslate := rfl
  unfold handleNewAck
  simp only [status, notified, last, next, takeAcknowledged_shift, resent,
    resending]
  split
  · split
    · rfl
    split
    · have swap : node.sendSequence + c + 1 = node.sendSequence + 1 + c :=
        add_right_comm _ _ _
      simp only [shift, swap]
      rfl
    · rfl
  split
  · split <;> rfl
  split <;> rfl

theorem takeAcknowledged_eq_self {ackSeq : Seq}
    (nothing : ¬ node.TakesOff ackSeq) :
    node.takeAcknowledged ackSeq = node :=
  if_neg nothing

theorem not_takesOff_of_acknowledgedSeq {ackSeq : Seq}
    (same : (node.takeAcknowledged ackSeq).acknowledgedSeq =
      node.acknowledgedSeq) : ¬ node.TakesOff ackSeq := by
  intro takes
  have moved : ackSeq = node.acknowledgedSeq := by
    unfold takeAcknowledged at same
    rw [if_pos takes] at same
    split at same <;> exact same
  have forward := takes.1
  rw [moved, sub_self] at forward
  exact absurd forward (by decide)

theorem handleNewAck_eq_self_iff (ackSeq : Seq) :
    node.handleNewAck ackSeq = node ↔ node.AckIdle ackSeq := by
  unfold handleNewAck AckIdle
  split
  · rename_i handshake
    split
    · constructor
      · intro same
        exact (congrArg myerrno same).symm
      · intro already
        rw [← already]
    split
    · rename_i next
      refine ⟨fun same => ?_, fun other => absurd next other⟩
      have status : (if node.acceptProc then established else accept) =
        node.status := congrArg status same
      rw [handshake] at status
      split at status <;> exact absurd status (by decide)
    · rename_i other
      exact ⟨fun _ => other, fun _ => rfl⟩
  split
  · split
    · rename_i last
      constructor
      · intro same _
        exact ⟨congrArg sendBuffer same, congrArg status same⟩
      · intro idle
        obtain ⟨buffer, status⟩ := idle last
        rw [buffer, status, ← last]
    · rename_i other
      exact ⟨fun _ last => absurd last other, fun _ => rfl⟩
  · dsimp only
    constructor
    · intro same
      have numbers : (node.takeAcknowledged ackSeq).acknowledgedSeq =
          node.acknowledgedSeq := by
        have kept := congrArg acknowledgedSeq same
        split at kept <;> exact kept
      have nothing := not_takesOff_of_acknowledgedSeq node numbers
      refine ⟨nothing, fun ends => ?_⟩
      rw [takeAcknowledged_eq_self node nothing, if_pos ends] at same
      have resending : false = node.isRetranslate :=
        congrArg isRetranslate same
      exact absurd (resending.trans ends.1) Bool.false_ne_true
    · rintro ⟨nothing, goesOn⟩
      rw [takeAcknowledged_eq_self node nothing, if_neg goesOn]

theorem handleAck_shift_iff (ackSeq : Seq) :
    (node.shift c).handleAck (ackSeq + c) = (node.handleAck ackSeq).shift c ↔
      node.AckShifts ackSeq c := by
  have shifted : (node.shift c).acknowledgedSeq = node.acknowledgedSeq + c :=
    rfl
  unfold handleAck AckShifts
  rw [shifted, handleNewAck_shift, ← handleNewAck_eq_self_iff]
  by_cases old : ackSeq ≤ node.acknowledgedSeq
  · by_cases shiftedOld : ackSeq + c ≤ node.acknowledgedSeq + c
    · simp [old, shiftedOld]
    · simp only [old, shiftedOld, if_true, if_false, iff_false, not_true,
        false_or]
      exact ⟨fun same => shift_injective _ c same, fun same => by rw [same]⟩
  · by_cases shiftedOld : ackSeq + c ≤ node.acknowledgedSeq + c
    · simp only [old, shiftedOld, if_true, if_false, iff_true, false_or]
      exact ⟨fun same => (shift_injective _ c same).symm,
        fun same => by rw [same]⟩
    · simp [old, shiftedOld]

end Shift

/-- A data or ack pocket is treated alike after the shift exactly if it carries
no acknowledgement, or one for which the first test of `_handle_ack` comes out
the same or does not matter. -/
theorem shiftsAlike_iff (node : UdtNode) (pocket : UdtPocket) (c : Seq) :
    node.ShiftsAlike pocket c ↔
      (pocket.acknowledges → node.AckShifts pocket.ackSeq c) := by
  have kind : (pocket.shift c).acknowledges = pocket.acknowledges := rfl
  have ack : (node.shift c).handlePocketAck (pocket.shift c) =
      (node.handlePocketAck pocket).shift c ↔
        (pocket.acknowledges → node.AckShifts pocket.ackSeq c) := by
    unfold handlePocketAck
    rw [kind]
    cases acks : pocket.acknowledges with
    | false => simp
    | true =>
      have number : (pocket.shift c).ackSeq = pocket.ackSeq + c := by
        simp [UdtPocket.shift, UdtPocket.ackShift, acks]
      rw [if_pos rfl, if_pos rfl, number, handleAck_shift_iff]
      simp
  refine ⟨fun alike => ack.mp alike.ack, fun shifts => ?_⟩
  have same := ack.mpr shifts
  have type : (pocket.shift c).udtType = pocket.udtType := rfl
  refine ⟨same, ?_⟩
  rw [same]
  unfold handlePocketData
  rw [type, handleIncomeData_shift]
  split <;> rfl

def twoInFlight : UdtNode :=
  { connectedUdt 0 7 (List.replicate packetSize 0) with
    sendSequence := 2
    sendBuffer :=
      { autoInc := false
        capacity := packetSize
        startOff := 0
        endOff := 2
        storage := [1, 2] ++ List.replicate (packetSize - 2) 0 } }

/-- The acknowledgement of both bytes takes them off; with numbers from
`0xffffffff` on it is taken for an old one. -/
theorem shiftsAlike_fails :
    ¬ ∀ (node : UdtNode) (pocket : UdtPocket) (c : Seq),
      node.ShiftsAlike pocket c := by
  intro always
  have alike := always twoInFlight
    { UdtPocket.init.setAck 2 with udtType := .ack } 0xffffffff
  have numbers := congrArg acknowledgedSeq alike.ack
  exact absurd numbers (by decide)

end UdtNode

end NdNet

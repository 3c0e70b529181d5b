import NdNet.Common.LineBufQueue
import NdNet.Lib.Runs
import NdNet.Lib.Serial
import NdNet.Udt.Node

/-!
# The send window of a UDT node

Which functions touch the quantities of the send window, and the window
invariant over every run of a node whose peer may send anything at all.
-/

namespace NdNet

open List

variable {data : List Byte}

namespace LineBuf

section Queue

variable {buf : LineBuf} {queue : List Byte}

theorem Represents.self (holds : buf.Represents queue) :
    buf.Represents buf.content :=
  holds.content_eq ▸ holds

/-- A write of given length that fits behind the data, or into a buffer that
compacts, is taken whole. -/
theorem write_specified_taken (holds : buf.Represents queue)
    (fixed : buf.autoInc = false) (small : data.length < 2 ^ 31)
    (taken : data.length ≤ buf.freeCapacity) :
    (buf.write data .specified fun _ => none).1 = data.length ∧
      (data.length ≤ buf.freespace ∨ buf.Compacts →
        (buf.write data .specified fun _ => none).2.Represents
          (queue ++ data)) := by
  have all : buf.acceptedBytes data .specified = data := if_pos taken
  constructor
  · rw [write_result holds data .specified _ fixed, if_neg (by omega), all,
      intOfSize_of_lt small]
  · intro room
    have written := write_represents holds data .specified (fun _ => none)
      fixed (room.imp_right .inl)
    rwa [all] at written

theorem write_specified_refused (fixed : buf.autoInc = false)
    (holds : buf.Represents queue) (full : buf.freeCapacity < data.length) :
    buf.write data .specified (fun _ => none) = (-1, buf) := by
  have tail := holds.freespace_le_freeCapacity
  unfold write
  rw [if_neg (by omega)]
  simp [trytoIncCapacity, fixed, full]

end Queue

end LineBuf

namespace NetStat

theorem has_or (status more flag : NetStat) :
    has (status ||| more) flag = (has status flag || has more flag) := by
  rw [Bool.eq_iff_iff]
  simp only [has, bne_iff_ne, Bool.or_eq_true, BitVec.and_or_distrib_right]
  change ¬ _ = 0#16 ↔ ¬ _ = 0#16 ∨ ¬ _ = 0#16
  rw [BitVec.or_eq_zero_iff, not_and_or]

@[simp] theorem has_closed (flag : NetStat) : has closed flag = false := by
  simp [has, closed]

end NetStat

namespace UdtNode

open NetStat LineBuf Runs Store

/-- The part of a node that describes its send window. -/
structure SendView where
  status : NetStat
  sendSequence : Seq
  acknowledgedSeq : Seq
  sendBuffer : LineBuf

def sendView (node : UdtNode) : SendView :=
  { status := node.status
    sendSequence := node.sendSequence
    acknowledgedSeq := node.acknowledgedSeq
    sendBuffer := node.sendBuffer }

/-- The part of a node that receiving, acknowledging and sending again leave
alone. -/
structure SettledView where
  status : NetStat
  localPort : UInt16
  isAccept : Bool
  windowLen : Nat
  sendSequence : Seq
  acknowledgedSeq : Seq
  sendBuffer : LineBuf

def settledView (node : UdtNode) : SettledView :=
  { status := node.status
    localPort := node.localPort
    isAccept := node.isAccept
    windowLen := node.windowLen
    sendSequence := node.sendSequence
    acknowledgedSeq := node.acknowledgedSeq
    sendBuffer := node.sendBuffer }

def SettledView.send (view : SettledView) : SendView :=
  { status := view.status
    sendSequence := view.sendSequence
    acknowledgedSeq := view.acknowledgedSeq
    sendBuffer := view.sendBuffer }

section SettledView

variable (node : UdtNode) (pocket : UdtPocket)

theorem writePocketToSocket_settledView :
    (node.writePocketToSocket pocket).2.settledView = node.settledView := by
  unfold writePocketToSocket
  dsimp only
  split <;> rfl

theorem fetchPrelist_settledView (list : List PrePacket) :
    (node.fetchPrelist list).settledView = node.settledView := by
  induction list generalizing node with
  | nil => rfl
  | cons entry later induction =>
    unfold fetchPrelist
    dsimp only
    split
    · rw [induction]
      unfold handlePrePacket
      split
      · rfl
      · split <;> rfl
    · rfl

theorem handleIncomeData_settledView :
    (node.handleIncomeData pocket).2.settledView = node.settledView := by
  unfold handleIncomeData
  dsimp only
  split
  · rfl
  split
  · rfl
  split
  · exact writePocketToSocket_settledView node _
  split
  · rfl
  split
  · rfl
  · exact fetchPrelist_settledView _ _

theorem updateStart_settledView :
    node.updateStart.settledView = node.settledView := by
  unfold updateStart
  dsimp only
  split <;> rfl

theorem flushAck_settledView :
    node.flushAck.settledView = node.settledView := by
  unfold flushAck
  split
  · exact writePocketToSocket_settledView node _
  · rfl

theorem retranslateData_settledView :
    ∃ windowLen, node.retranslateData.2.settledView =
      { node.settledView with windowLen := windowLen } := by
  unfold retranslateData
  dsimp only
  split
  · exact ⟨_, rfl⟩
  have written := writePocketToSocket_settledView
    { node with retransSeq := node.resentSeq 0, needAck := false }
    (node.resendPocket (min node.resendLen.toNat udtFragmentLen))
  split
  · exact ⟨_, written⟩
  · exact ⟨windowNotNegative node.windowLen,
      congrArg (fun view : SettledView =>
        { view with windowLen := windowNotNegative node.windowLen }) written⟩

theorem retranslate_settledView :
    ∃ windowLen, node.retranslate.2.settledView =
      { node.settledView with windowLen := windowLen } := by
  unfold retranslate
  dsimp only
  split
  · exact ⟨_, rfl⟩
  split
  · exact ⟨_, rfl⟩
  split
  · exact ⟨_, rfl⟩
  split
  · split <;> exact retranslateData_settledView node
  · exact retranslateData_settledView node

end SettledView

section SendView

variable (node : UdtNode) (pocket : UdtPocket)

@[simp] theorem writePocketToSocket_sendView :
    (node.writePocketToSocket pocket).2.sendView = node.sendView :=
  congrArg SettledView.send (writePocketToSocket_settledView node pocket)

@[simp] theorem sendAck_sendView : node.sendAck.2.sendView = node.sendView :=
  writePocketToSocket_sendView node _

@[simp] theorem sendReset_sendView :
    node.sendReset.2.sendView = node.sendView :=
  writePocketToSocket_sendView node _

@[simp] theorem handleIncomeData_sendView :
    (node.handleIncomeData pocket).2.sendView = node.sendView :=
  congrArg SettledView.send (handleIncomeData_settledView node pocket)

@[simp] theorem updateStart_sendView :
    node.updateStart.sendView = node.sendView :=
  congrArg SettledView.send (updateStart_settledView node)

@[simp] theorem retranslateData_sendView :
    node.retranslateData.2.sendView = node.sendView := by
  obtain ⟨_, same⟩ := retranslateData_settledView node
  exact congrArg SettledView.send same

@[simp] theorem retranslate_sendView :
    node.retranslate.2.sendView = node.sendView := by
  obtain ⟨_, same⟩ := retranslate_settledView node
  exact congrArg SettledView.send same

@[simp] theorem flushAck_sendView : node.flushAck.sendView = node.sendView :=
  congrArg SettledView.send (flushAck_settledView node)

/-- A flush sends the unsent bytes at the window start or changes nothing. -/
theorem flushSendWindow_sendView :
    node.flushSendWindow.2.sendView = node.sendView ∨
      ∃ offset len, node.sendWindowStart = some (offset, len) ∧
        node.flushSendWindow.2.sendView =
          { node.sendView with
            sendSequence := node.sendSequence + BitVec.ofNat 32 len } := by
  unfold flushSendWindow
  split
  · exact .inl rfl
  split
  · exact .inl rfl
  rename_i offset len start
  dsimp only
  split
  · exact .inl rfl
  split
  · exact .inl (writePocketToSocket_sendView { node with needAck := false } _)
  · refine .inr ⟨offset, len, start, ?_⟩
    have same := writePocketToSocket_sendView { node with needAck := false }
      (node.windowPocket offset len)
    simp only [sendView, SendView.mk.injEq] at same ⊢
    exact ⟨same.1, trivial, same.2.2⟩

/-- An acknowledgement of bytes that were sent takes them off the buffer; any
other changes nothing in the window. -/
theorem takeAcknowledged_sendView (ackSeq : Seq) :
    (node.takeAcknowledged ackSeq).sendView = node.sendView ∨
      0 < (ackSeq - node.acknowledgedSeq).toInt ∧
        0 ≤ (node.sendSequence - ackSeq).toInt ∧
        (node.takeAcknowledged ackSeq).sendView =
          { node.sendView with
            sendBuffer := node.sendBuffer.subData
              (ackSeq - node.acknowledgedSeq).toNat
            acknowledgedSeq := ackSeq } := by
  unfold takeAcknowledged
  split
  · rename_i valid
    obtain ⟨forward, -, sent⟩ := valid
    refine .inr ⟨forward, sent, ?_⟩
    rw [Serial.toNat_toInt (Int.le_of_lt forward)]
    split <;> rfl
  · exact .inl rfl

end SendView

/-- The window invariant; the bytes accepted so far are numbered from `base`
on, and those in the buffer are the last of them. -/
structure SendView.Windowed (view : SendView) (base : Seq)
    (accepted : List Byte) : Prop where
  buffer : view.sendBuffer.Represents view.sendBuffer.content
  fixed : view.sendBuffer.autoInc = false
  capacity : view.sendBuffer.capacity = packetSize
  window : (view.sendSequence - view.acknowledgedSeq).toNat ≤
    view.sendBuffer.datalen
  numbered : ∃ past, accepted = past ++ view.sendBuffer.content ∧
    view.acknowledgedSeq = base + BitVec.ofNat 32 past.length
  /-- No handshake is going on. -/
  live : view.status = closed ∨ established ≤ view.status
  /-- Only `udt_reset` sets `NETSTAT_FINSEND`, and it sets `NETSTAT_RESET`
  too. -/
  finished : view.status.has finsend → view.status.has reset

namespace SendView.Windowed

variable {view : SendView} {base : Seq} {accepted : List Byte}

variable (holds : view.Windowed base accepted)
include holds

theorem advance {len : Nat}
    (inside : (view.sendSequence - view.acknowledgedSeq).toNat + len ≤
      view.sendBuffer.datalen) :
    SendView.Windowed
      { view with sendSequence := view.sendSequence + BitVec.ofNat 32 len }
      base accepted := by
  have further : view.sendSequence + BitVec.ofNat 32 len -
      view.acknowledgedSeq =
        view.sendSequence - view.acknowledgedSeq + BitVec.ofNat 32 len :=
    add_sub_right_comm _ _ _
  have window : (view.sendSequence + BitVec.ofNat 32 len -
      view.acknowledgedSeq).toNat ≤ view.sendBuffer.datalen := by
    rw [further, BitVec.toNat_add, BitVec.toNat_ofNat]
    omega
  exact { holds with window := window }

theorem acknowledge {ackSeq : Seq}
    (forward : 0 < (ackSeq - view.acknowledgedSeq).toInt)
    (sent : 0 ≤ (view.sendSequence - ackSeq).toInt) :
    SendView.Windowed
      { view with
        sendBuffer := view.sendBuffer.subData
          (ackSeq - view.acknowledgedSeq).toNat
        acknowledgedSeq := ackSeq }
      base accepted := by
  have whole := Serial.distance_between (Int.le_of_lt forward) sent
  have window := holds.window
  have queued := holds.buffer.queue_length
  have there : (ackSeq - view.acknowledgedSeq).toNat ≤
      view.sendBuffer.content.length := by omega
  have rest := subData_represents holds.buffer
    (ackSeq - view.acknowledgedSeq).toNat
  have left := rest.self.queue_length
  obtain ⟨past, split, number⟩ := holds.numbered
  refine
    { holds with
      buffer := rest.self
      fixed := (subData_autoInc _ _).trans holds.fixed
      capacity := (subData_capacity _ _).trans holds.capacity
      window := ?_
      numbered := ⟨past ++ view.sendBuffer.content.take
        (ackSeq - view.acknowledgedSeq).toNat, ?_, ?_⟩ }
  · rw [rest.content_eq, length_drop] at left
    simp only
    omega
  · rw [split, append_assoc, rest.content_eq, take_append_drop]
  · rw [length_append, length_take, Nat.min_eq_left there,
      ← Serial.add_counts, ← number, Serial.add_distance]

/-- Going back to an earlier number that is not acknowledged keeps the
invariant. -/
theorem rewind {sequence : Seq}
    (after : 0 < (sequence - view.acknowledgedSeq).toInt)
    (before : 0 ≤ (view.sendSequence - sequence).toInt) :
    SendView.Windowed { view with sendSequence := sequence } base
      accepted := by
  have whole := Serial.distance_between (Int.le_of_lt after) before
  have window := holds.window
  have shorter : (sequence - view.acknowledgedSeq).toNat ≤
      view.sendBuffer.datalen := by omega
  exact { holds with window := shorter }

/-- Setting flags keeps the invariant, as long as `NETSTAT_FINSEND` comes with
`NETSTAT_RESET`. -/
theorem mark (flags : NetStat) (late : established ≤ flags)
    (finished : flags.has finsend → flags.has reset) :
    SendView.Windowed { view with status := view.status ||| flags } base
      accepted := by
  refine { holds with live := .inr ?_, finished := ?_ }
  · exact late.trans Nat.right_le_or
  · intro sending
    rw [has_or, Bool.or_eq_true] at sending ⊢
    exact sending.imp holds.finished finished

theorem close :
    SendView.Windowed { view with status := closed } base accepted :=
  { holds with
    live := .inl rfl
    finished := by simp }

end SendView.Windowed

def Windowed (node : UdtNode) (base : Seq) (accepted : List Byte) : Prop :=
  node.sendView.Windowed base accepted

variable {offset len : Nat}

section Windowed

variable {node after : UdtNode} {base : Seq} {accepted : List Byte}

theorem Windowed.congr (holds : node.Windowed base accepted)
    (same : after.sendView = node.sendView) : after.Windowed base accepted := by
  unfold Windowed
  rw [same]
  exact holds

theorem Windowed.status_ne (holds : node.Windowed base accepted)
    {status : NetStat} (some : status ≠ closed) (early : ¬ established ≤ status) :
    node.status ≠ status := by
  intro same
  rcases holds.live with none | late
  · exact some (same ▸ none)
  · exact early (same ▸ late)

theorem sendWindowStart_inside
    (start : node.sendWindowStart = some (offset, len)) :
    offset = (node.sendSequence - node.acknowledgedSeq).toNat ∧
      offset + len ≤ node.sendBuffer.datalen := by
  unfold sendWindowStart at start
  dsimp only at start
  split at start
  · cases start
  · rename_i more
    obtain ⟨rfl, rfl⟩ := start
    exact ⟨rfl, by omega⟩

section

variable (holds : node.Windowed base accepted)
include holds

theorem Windowed.flushSendWindow :
    node.flushSendWindow.2.Windowed base accepted := by
  rcases flushSendWindow_sendView node with same | ⟨offset, len, start, grown⟩
  · exact holds.congr same
  · obtain ⟨offsetEq, inside⟩ := sendWindowStart_inside start
    unfold Windowed
    rw [grown]
    exact holds.advance (offsetEq ▸ inside)

theorem Windowed.flushRounds (rounds : Nat) :
    (flushRounds rounds node).Windowed base accepted := by
  induction rounds generalizing node with
  | zero => exact holds
  | succ rounds induction =>
    unfold flushRounds
    dsimp only
    split
    · exact induction holds.flushSendWindow
    · exact holds.flushSendWindow

theorem Windowed.takeAcknowledged
    (ackSeq : Seq) : (node.takeAcknowledged ackSeq).Windowed base accepted := by
  rcases takeAcknowledged_sendView node ackSeq with
    same | ⟨forward, sent, taken⟩
  · exact holds.congr same
  · unfold Windowed
    rw [taken]
    exact holds.acknowledge forward sent

theorem Windowed.handleAck (running : node.status.has reset = false)
    (ackSeq : Seq) :
    (node.handleAck ackSeq).Windowed base accepted := by
  have unfinished : node.status.has finsend = false := by
    cases sending : node.status.has finsend with
    | false => rfl
    | true => exact absurd (holds.finished sending) (by simp [sendView, running])
  unfold UdtNode.handleAck handleNewAck
  dsimp only
  split
  · exact holds
  rw [if_neg (holds.status_ne (by decide) (by decide)), unfinished,
    if_neg Bool.false_ne_true]
  split
  · exact (holds.takeAcknowledged ackSeq).congr rfl
  · exact holds.takeAcknowledged ackSeq

theorem Windowed.handleCarriedAck (running : node.status.has reset = false)
    (pocket : UdtPocket) :
    (node.handleCarriedAck pocket).Windowed base accepted := by
  unfold UdtNode.handleCarriedAck
  split
  · exact holds.handleAck running _
  · exact holds

theorem Windowed.handleData (running : node.status.has reset = false)
    (pocket : UdtPocket) :
    (node.handleData pocket).2.Windowed base accepted := by
  have income :=
    (holds.handleCarriedAck running pocket).congr
      (handleIncomeData_sendView _ pocket)
  unfold UdtNode.handleData
  dsimp only
  split
  · exact income.flushRounds _
  · exact income

theorem Windowed.handleSyn (pocket : UdtPocket) :
    (node.handleSyn pocket).2.Windowed base accepted := by
  unfold UdtNode.handleSyn
  rw [if_neg (holds.status_ne (by decide) (by decide)),
    if_neg (holds.status_ne (by decide) (by decide))]
  split
  · split
    · exact holds.congr (sendAck_sendView node)
    · exact holds
  · exact holds.congr rfl

theorem Windowed.handleLost
    (pocket : UdtPocket) : (node.handleLost pocket).Windowed base accepted := by
  unfold UdtNode.handleLost
  dsimp only
  split
  · exact holds
  · rename_i lost
    rw [not_or, Int.not_le, Int.not_lt] at lost
    have rewound : ({ node with sendSequence := pocket.sequence } :
        UdtNode).Windowed base accepted := holds.rewind lost.1 lost.2
    exact rewound.congr (retranslateData_sendView _)

theorem Windowed.handleFin (running : node.status.has reset = false)
    (pocket : UdtPocket) :
    (node.handleFin pocket).2.Windowed base accepted := by
  have acked := holds.handleCarriedAck running pocket
  have told : ∀ marked : UdtNode, marked.Windowed base accepted →
      ({ marked.sendAck.2 with myerrno := .closed } : UdtNode).Windowed base
        accepted :=
    fun marked ready => ready.congr (sendAck_sendView marked)
  unfold UdtNode.handleFin
  dsimp only
  apply told
  split
  · exact acked
  · have marked := acked.mark recvclose (by decide) (by decide)
    split
    · exact marked.mark NetStat.reset (by decide) (by decide)
    · exact marked

theorem Windowed.dispatch (running : node.status.has reset = false)
    (pocket : UdtPocket) :
    (node.dispatch pocket).2.Windowed base accepted := by
  unfold UdtNode.dispatch
  split
  · exact holds.handleData running pocket
  · exact holds
  · exact holds.handleSyn pocket
  · exact holds.handleAck running _
  · exact (holds.handleAck running _).handleLost pocket
  · exact holds.handleFin running pocket
  · exact holds.mark NetStat.reset (by decide) (by decide)
  · exact holds
  · exact holds

theorem Windowed.packetHandler (pocket : UdtPocket) :
    (node.packetHandler pocket).2.Windowed base accepted := by
  unfold UdtNode.packetHandler
  split
  · exact holds.congr (sendReset_sendView node)
  · rename_i running
    have noted : (node.noteArrival pocket).Windowed base accepted :=
      holds.congr rfl
    have handled := noted.dispatch (Bool.not_eq_true _ ▸ running) pocket
    dsimp only
    split <;> exact handled

theorem Windowed.updateSocket :
    node.updateSocket.2.Windowed base accepted := by
  have flushed := (holds.congr (updateStart_sendView node)).flushSendWindow
  unfold UdtNode.updateSocket
  dsimp only
  split
  · exact (flushed.flushRounds _).congr (flushAck_sendView _)
  · have resent := flushed.congr (retranslate_sendView _)
    split
    · exact resent
    · exact resent.congr (flushAck_sendView _)

theorem Windowed.resetUdt (issendReset : Bool) :
    (node.resetUdt issendReset).Windowed base accepted := by
  have told : (if issendReset then node.sendReset.2 else node).Windowed
      base accepted := by
    split
    · exact holds.congr (sendReset_sendView node)
    · exact holds
  unfold UdtNode.resetUdt
  dsimp only
  generalize (if issendReset then node.sendReset.2 else node) = sender at told ⊢
  split
  · exact told.close
  · exact told.mark (finsend + NetStat.reset) (by decide) (by decide)

theorem Windowed.resetNode :
    node.resetNode.Windowed 0 [] := by
  have empty := reset_represents holds.buffer.storage_length
  exact
    { buffer := empty.self
      fixed := holds.fixed
      capacity := holds.capacity
      window := by simp [UdtNode.resetNode, sendView]
      numbered := ⟨[], empty.content_eq.symm, rfl⟩
      live := .inl rfl
      finished := by simp [UdtNode.resetNode, sendView] }

end

/-- Data to send is refused, or finds room behind the data of the buffer, or
the buffer compacts. -/
def Places (node : UdtNode) (data : List Byte) : Prop :=
  node.status < established ∨ node.status.has finsend ∨
    node.sendBuffer.freeCapacity < data.length ∨
    data.length ≤ node.sendBuffer.freespace ∨ node.sendBuffer.Compacts

instance (node : UdtNode) (data : List Byte) : Decidable (node.Places data) :=
  inferInstanceAs (Decidable (_ ∨ _ ∨ _ ∨ _ ∨ _))

theorem Windowed.send (holds : node.Windowed base accepted)
    (places : node.Places data) :
    (node.send data).2.Windowed base
      (if (node.send data).1 = data.length then accepted ++ data
        else accepted) := by
  have buffer : node.sendBuffer.Represents node.sendBuffer.content :=
    holds.buffer
  have fixed : node.sendBuffer.autoInc = false := holds.fixed
  unfold UdtNode.send
  split
  · exact holds.congr rfl
  rename_i taking
  split
  · exact holds.congr rfl
  rename_i valid
  have short : data.length < 2 ^ 31 := by
    have capacity : node.sendBuffer.capacity = packetSize := holds.capacity
    rw [packetSize] at capacity
    omega
  by_cases full : node.sendBuffer.freeCapacity < data.length
  · rw [write_specified_refused fixed buffer full, if_neg (by simp only; omega)]
    exact holds.congr rfl
  obtain ⟨result, stored⟩ :=
    write_specified_taken buffer fixed short (Nat.le_of_not_lt full)
  have room : data.length ≤ node.sendBuffer.freespace ∨
      node.sendBuffer.Compacts := by
    simp only [Bool.or_eq_true, decide_eq_true_eq, not_or] at taking
    rcases places with early | sending | refused | room
    · exact absurd early taking.1
    · exact absurd sending taking.2
    · exact absurd refused full
    · exact room
  have stored := stored room
  rw [result, if_pos rfl]
  obtain ⟨past, split, number⟩ := holds.numbered
  refine
    { buffer := stored.self
      fixed := write_autoInc fixed _ _ _
      capacity := (write_capacity fixed _ _ _).trans holds.capacity
      window := ?_
      numbered := ⟨past, ?_, number⟩
      live := holds.live
      finished := holds.finished }
  · have window : (node.sendSequence - node.acknowledgedSeq).toNat ≤
        node.sendBuffer.datalen := holds.window
    have before := buffer.queue_length
    have after := stored.queue_length
    rw [length_append] at after
    exact window.trans (by simp only [sendView]; omega)
  · rw [split, append_assoc]
    exact congrArg (past ++ ·) stored.content_eq.symm

theorem Windowed.send_overflows (holds : node.Windowed base accepted)
    (stuck : ¬ node.Places data) :
    (node.send data).2.sendBuffer.capacity <
      (node.send data).2.sendBuffer.endOff := by
  have buffer : node.sendBuffer.Represents node.sendBuffer.content :=
    holds.buffer
  simp only [Places, not_or] at stuck
  obtain ⟨live, sending, free, tight, apart⟩ := stuck
  have some : node.sendBuffer.datalen ≠ 0 := fun empty => apart (.inl empty)
  have room := buffer.freeCapacity_eq
  have taking : ¬ (node.status < established || node.status.has finsend) := by
    simp [live, sending]
  have valid : ¬ (data.length < 1 ∨ node.sendBuffer.capacity ≤ data.length) := by
    omega
  unfold UdtNode.send
  rw [if_neg taking, if_neg valid]
  exact write_overflows buffer _ holds.fixed (Nat.lt_of_not_le tight) apart
    (fun refused => free refused.2)

end Windowed

/-- What can happen to a node: its own calls, a packet of any kind from the
peer, and the passing of time. -/
inductive NodeCall where
  | send (data : List Byte)
  | recv (size : Nat)
  | flushSendWindow
  | retranslate
  | updateSocket
  | packetHandler (pocket : UdtPocket)
  | resetUdt (issendReset : Bool)
  | resetNode
  | elapse (now : NdTime)

/-- A node with the bytes it has accepted; the first of them has the number
`base`. -/
structure NumberedNode where
  node : UdtNode
  base : Seq
  accepted : List Byte

def nodeStep (state : NumberedNode) : NodeCall → NumberedNode
  | .send data =>
    let sent := state.node.send data
    { state with
      node := sent.2
      accepted :=
        if sent.1 = data.length then state.accepted ++ data
        else state.accepted }
  | .recv size => { state with node := (state.node.recv size).2 }
  | .flushSendWindow => { state with node := state.node.flushSendWindow.2 }
  | .retranslate => { state with node := state.node.retranslate.2 }
  | .updateSocket => { state with node := state.node.updateSocket.2 }
  | .packetHandler pocket =>
    { state with node := (state.node.packetHandler pocket).2 }
  | .resetUdt issendReset =>
    { state with node := state.node.resetUdt issendReset }
  | .resetNode =>
    { node := state.node.resetNode, base := 0, accepted := [] }
  | .elapse now => { state with node := { state.node with now := now } }

/-- The law of the send window: the bytes sent are among those buffered, the
buffer holds the last bytes accepted from the one numbered `acknowledged_seq`
on, and what is sent next lies inside it. -/
structure WindowLaw (state : NumberedNode) : Prop where
  sent_le : (state.node.sendSequence - state.node.acknowledgedSeq).toNat ≤
    state.node.sendBuffer.datalen
  buffer : state.node.sendBuffer.Represents state.node.sendBuffer.content
  numbered : ∃ past,
    state.accepted = past ++ state.node.sendBuffer.content ∧
      state.node.acknowledgedSeq = state.base + BitVec.ofNat 32 past.length
  inside : ∀ offset len, state.node.sendWindowStart = some (offset, len) →
    offset = (state.node.sendSequence - state.node.acknowledgedSeq).toNat ∧
      offset + len ≤ state.node.sendBuffer.datalen ∧
      state.node.sendBytes offset len =
        slice state.node.sendBuffer.content offset (offset + len)

def PlacesStep (state : NumberedNode) : NodeCall → Prop
  | .send data => state.node.Places data
  | _ => True

instance (state : NumberedNode) : ∀ call, Decidable (PlacesStep state call)
  | .send data => inferInstanceAs (Decidable (state.node.Places data))
  | .recv _ => .isTrue trivial
  | .flushSendWindow => .isTrue trivial
  | .retranslate => .isTrue trivial
  | .updateSocket => .isTrue trivial
  | .packetHandler _ => .isTrue trivial
  | .resetUdt _ => .isTrue trivial
  | .resetNode => .isTrue trivial
  | .elapse _ => .isTrue trivial

/-- A client right behind the handshake: `sequence` is its own number,
`peerSequence` that of its peer. -/
def connectedUdt (sequence peerSequence : Seq) (block : List Byte) : UdtNode :=
  { fd := 1
    status := established
    myerrno := .success
    isAccept := false
    acceptProc := false
    needAck := false
    isRetranslate := false
    userDataIn := false
    resendTimes := 0
    localPort := 1
    retransTimeout := retranslateTime * 2
    lastResendTm := 0
    lastActive := 0
    lastRecv := 0
    updateTm := 0
    sendSequence := sequence
    acknowledgedSeq := sequence
    receivedSequence := peerSequence
    retransSeq := 0
    windowLen := 0xffff
    rtt := ⟨retranslateTime, 0⟩
    preList := []
    recvBuffer := LineBuf.init block
    sendBuffer := LineBuf.init block
    dataEntry := none
    now := 0
    writeResults := []
    wire := [] }

structure Fresh (node : UdtNode) : Prop where
  status : node.status = established
  sent : node.sendSequence = node.acknowledgedSeq
  buffer : ∃ block : List Byte, block.length = packetSize ∧
    node.sendBuffer = LineBuf.init block

theorem Fresh.windowed {node : UdtNode} (fresh : node.Fresh) :
    node.Windowed node.acknowledgedSeq [] := by
  obtain ⟨block, sized, buffer⟩ := fresh.buffer
  have empty : node.sendView.sendBuffer = LineBuf.init block := buffer
  refine
    { buffer := empty ▸ (init_represents block).self
      fixed := empty ▸ rfl
      capacity := empty ▸ sized
      window := ?_
      numbered := ⟨[], ?_, (add_zero _).symm⟩
      live := .inr (fresh.status ▸ BitVec.le_refl _)
      finished := ?_ }
  · simp [sendView, fresh.sent]
  · rw [empty]
    exact (init_represents block).content_eq.symm
  · rw [show node.sendView.status = established from fresh.status]
    decide

theorem sendBytes_eq_slice (node : UdtNode)
    (inside : node.sendBuffer.startOff + offset + len ≤
      node.sendBuffer.endOff) :
    node.sendBytes offset len =
      slice node.sendBuffer.content offset (offset + len) := by
  rw [sendBytes, slice_take _ inside, slice_add_left]
  exact congrArg (fun count => (node.sendBuffer.content.drop offset).take count)
    (Nat.add_sub_cancel_left offset len).symm

def NumberedNode.Windowed (state : NumberedNode) : Prop :=
  state.node.Windowed state.base state.accepted

theorem NumberedNode.Windowed.law {state : NumberedNode}
    (holds : state.Windowed) : WindowLaw state where
  sent_le := holds.window
  buffer := holds.buffer
  numbered := holds.numbered
  inside := by
    intro offset len start
    obtain ⟨offsetEq, inside⟩ := sendWindowStart_inside start
    have buffer : state.node.sendBuffer.Represents
        state.node.sendBuffer.content := holds.buffer
    have extent := buffer.datalen_eq
    have ordered := buffer.ordered
    exact ⟨offsetEq, inside, sendBytes_eq_slice _ (by omega)⟩

theorem nodeStep_windowed (state : NumberedNode) (call : NodeCall)
    (holds : state.Windowed) (places : PlacesStep state call) :
    (nodeStep state call).Windowed := by
  have holds : state.node.Windowed state.base state.accepted := holds
  cases call with
  | send data => exact holds.send places
  | recv size =>
    refine holds.congr ?_
    simp only [nodeStep, recv]
    split <;> rfl
  | flushSendWindow => exact holds.flushSendWindow
  | retranslate => exact holds.congr (retranslate_sendView _)
  | updateSocket => exact holds.updateSocket
  | packetHandler pocket => exact holds.packetHandler pocket
  | resetUdt issendReset => exact holds.resetUdt issendReset
  | resetNode => exact holds.resetNode
  | elapse now => exact holds.congr rfl

theorem nodeStep_breaks (state : NumberedNode) (call : NodeCall)
    (holds : state.Windowed) (stuck : ¬ PlacesStep state call) :
    ¬ WindowLaw (nodeStep state call) := by
  cases call with
  | send data =>
    intro law
    have behind := Windowed.send_overflows holds stuck
    exact absurd law.buffer.bounded (Nat.not_le_of_lt behind)
  | _ => exact absurd trivial stuck

/-- The law of the send window holds throughout a run of an established node,
whatever packets it gets, exactly if every send places its data. -/
theorem nodeRun_window_iff {node : UdtNode} (fresh : node.Fresh)
    (calls : List NodeCall) :
    (∀ visited ∈ states nodeStep ⟨node, node.acknowledgedSeq, []⟩ calls,
        WindowLaw visited) ↔
      Meets nodeStep PlacesStep ⟨node, node.acknowledgedSeq, []⟩ calls :=
  law_iff_meets (fun _ => NumberedNode.Windowed.law)
    (fun state call holds _ => nodeStep_windowed state call holds)
    (fun state call holds _ => nodeStep_breaks state call holds)
    fresh.windowed (meets_of_forall (fun _ _ => trivial) _ calls)

theorem connectedUdt_fresh (sequence peerSequence : Seq) :
    (connectedUdt sequence peerSequence (List.replicate packetSize 0)).Fresh :=
  { status := rfl
    sent := rfl
    buffer := ⟨_, length_replicate, rfl⟩ }

/-- A node that is about to wrap around sends three bytes and gets an
acknowledgement for two of them. -/
theorem nodeRun_window_wraps :
    (connectedUdt 0xffffffff 7 (List.replicate packetSize 0)).Fresh ∧
      ∀ visited ∈ states nodeStep
        ⟨connectedUdt 0xffffffff 7 (List.replicate packetSize 0), 0xffffffff,
          []⟩
        [.send [1, 2, 3], .flushSendWindow,
          .packetHandler { UdtPocket.init.setAck 1 with udtType := .ack },
          .updateSocket, .resetUdt true],
        WindowLaw visited :=
  ⟨connectedUdt_fresh 0xffffffff 7,
    (nodeRun_window_iff (connectedUdt_fresh 0xffffffff 7)
      [.send [1, 2, 3], .flushSendWindow,
        .packetHandler { UdtPocket.init.setAck 1 with udtType := .ack },
        .updateSocket, .resetUdt true]).mpr
      ⟨.inr (.inr (.inr (.inr (.inr (.inl rfl))))), trivial, trivial, trivial,
        trivial, trivial⟩⟩

theorem flushSendWindow_sent (node : UdtNode)
    (opened : node.status.has sendclose = false)
    (calm : node.isRetranslate = false)
    (start : node.sendWindowStart = some (offset, len)) (some : len ≠ 0)
    (writes : node.writeResults = []) :
    node.flushSendWindow.2.isRetranslate = false ∧
      node.flushSendWindow.2.sendView =
        { node.sendView with
          sendSequence := node.sendSequence + BitVec.ofNat 32 len } := by
  have positive (first second : Nat) : ¬ ((first + second : Nat) : Int) = -1 := by
    omega
  unfold flushSendWindow
  rw [opened, calm, start]
  simp only [Bool.or_self, Bool.false_eq_true, if_false, some]
  simp only [writePocketToSocket, writes, head?_nil, Option.getD_none,
    positive, if_false]
  exact ⟨trivial, rfl⟩

theorem handleAck_takes (node : UdtNode) {ackSeq : Seq}
    (status : node.status = established) (calm : node.isRetranslate = false)
    (newer : ¬ ackSeq ≤ node.acknowledgedSeq) (takes : node.TakesOff ackSeq) :
    (node.handleAck ackSeq).sendView =
      { node.sendView with
        acknowledgedSeq := ackSeq
        sendBuffer := node.sendBuffer.subData
          (ackSeq - node.acknowledgedSeq).toInt.toNat } := by
  have unfinished : established.has finsend = false := by decide
  have early : established ≠ synrecv := by decide
  unfold handleAck handleNewAck takeAcknowledged
  rw [if_neg newer, status, if_neg early, unfinished, if_neg Bool.false_ne_true,
    if_pos takes]
  simp [calm, sendView, status]

theorem packetHandler_takes (node : UdtNode) {ackSeq : Seq}
    (status : node.status = established) (calm : node.isRetranslate = false)
    (newer : ¬ ackSeq ≤ node.acknowledgedSeq) (takes : node.TakesOff ackSeq) :
    (node.packetHandler
        { UdtPocket.init.setAck ackSeq with udtType := .ack }).2.sendView =
      { node.sendView with
        acknowledgedSeq := ackSeq
        sendBuffer := node.sendBuffer.subData
          (ackSeq - node.acknowledgedSeq).toInt.toNat } := by
  have running : established.has reset = false := by decide
  unfold packetHandler
  rw [status, running, if_neg Bool.false_ne_true]
  exact handleAck_takes (node.noteArrival
    { UdtPocket.init.setAck ackSeq with udtType := .ack }) status calm newer
      takes

theorem connectedUdt_send (block data : List Byte) (some : 0 < data.length)
    (fits : data.length < block.length) :
    ((connectedUdt 0 7 block).send data).2 =
      { connectedUdt 0 7 block with
        sendBuffer := (init block).append data } := by
  have valid : ¬ (data.length < 1 ∨
      (connectedUdt 0 7 block).sendBuffer.capacity ≤ data.length) := by
    show ¬ (data.length < 1 ∨ block.length ≤ data.length)
    omega
  have room : data.length ≤ (connectedUdt 0 7 block).sendBuffer.freespace := by
    exact Nat.le_of_lt fits
  have taking : ¬ (decide ((connectedUdt 0 7 block).status < established) ||
      (connectedUdt 0 7 block).status.has finsend) = true :=
    show ¬ (decide (established < established) ||
      established.has finsend) = true by decide
  unfold send
  rw [if_neg taking, if_neg valid, write, if_pos room]
  rfl

/-- Six bytes do not find their place behind 65535 of which the first five are
acknowledged. -/
theorem connectedUdt_stuck (block data : List Byte)
    (capacity : block.length = packetSize) (filled : data.length = 65535) :
    ¬ Places
      (({ connectedUdt 0 7 block with
          sendBuffer := (init block).append data } :
            UdtNode).flushSendWindow.2.packetHandler
        { UdtPocket.init.setAck 5 with udtType := .ack }).2
      (replicate 6 2) := by
  have size : packetSize = 65536 := rfl
  have buffer : ((init block).append data).Represents ([] ++ data) :=
    append_represents (init_represents block) (by
      rw [(init_represents block).freespace_eq]
      show data.length ≤ block.length - 0
      omega)
  have front : ((init block).append data).startOff = 0 :=
    append_startOff _ _
  have ending : ((init block).append data).endOff = 65535 := by
    rw [append_endOff, filled]
    exact Nat.zero_add _
  have room : ((init block).append data).capacity = 65536 := by
    rw [append_capacity]
    exact capacity.trans size
  have length : ((init block).append data).datalen = 65535 := by
    rw [buffer.datalen_eq, ending, front]
  generalize (init block).append data = buf at length ending front room
  have start : ({ connectedUdt 0 7 block with sendBuffer := buf } :
      UdtNode).sendWindowStart = some (0, 1400) := by
    simp [sendWindowStart, connectedUdt, length, udtFragmentLen]
  obtain ⟨calm, flushed⟩ := flushSendWindow_sent
    { connectedUdt 0 7 block with sendBuffer := buf }
    (show established.has sendclose = false by decide) rfl start (by decide) rfl
  generalize ({ connectedUdt 0 7 block with sendBuffer := buf } :
    UdtNode).flushSendWindow.2 = node at calm flushed
  have acked : node.acknowledgedSeq = 0 :=
    congrArg SendView.acknowledgedSeq flushed
  have sent : node.sendSequence = 1400 :=
    congrArg SendView.sendSequence flushed
  have held : node.sendBuffer = buf := congrArg SendView.sendBuffer flushed
  have taken := packetHandler_takes node
    (congrArg SendView.status flushed)
    calm (by rw [acked]; decide : ¬ (5 : Seq) ≤ node.acknowledgedSeq)
    (by rw [TakesOff, acked, sent, held, length]; decide)
  rw [acked, held, show (5 - 0 : Seq).toInt.toNat = 5 from rfl,
    subData_eq_of_small (by omega) (by rw [front]; decide) (by omega)] at taken
  generalize (node.packetHandler _).2 = after at taken
  have status : after.status = established :=
    (congrArg SendView.status taken).trans
      (congrArg SendView.status flushed)
  have kept : after.sendBuffer = { buf with startOff := buf.startOff + 5 } :=
    congrArg SendView.sendBuffer taken
  have started : after.sendBuffer.startOff = 5 := by rw [kept, front]
  have ended : after.sendBuffer.endOff = 65535 := by rw [kept, ending]
  have sized : after.sendBuffer.capacity = 65536 := by rw [kept, room]
  have left : after.sendBuffer.datalen = 65530 := by
    rw [datalen, started, ended]
    rfl
  simp only [Places, Compacts, freeCapacity, freespace, status, left, started,
    ended, sized]
  decide

theorem overflows_of_stuck (state : NumberedNode) (holds : state.Windowed)
    {data more : List Byte} {pocket : UdtPocket}
    (places : state.node.Places data)
    (stuck : ¬ Places
      ((state.node.send data).2.flushSendWindow.2.packetHandler pocket).2
      more) :
    ¬ ∀ visited ∈ states nodeStep state
        [.send data, .flushSendWindow, .packetHandler pocket, .send more],
        WindowLaw visited := by
  have first := nodeStep_windowed state (.send data) holds places
  have second := nodeStep_windowed _ .flushSendWindow first trivial
  have third := nodeStep_windowed _ (.packetHandler pocket) second trivial
  intro law
  exact nodeStep_breaks _ (.send more) third stuck
    (law _ (foldl_mem_states _ _ _))

/-- A buffer of 65536 bytes is filled but for one byte and the first five bytes
are acknowledged: six more bytes are accepted, and five of them are stored
behind the buffer. -/
theorem nodeRun_window_overflows :
    ¬ ∀ visited ∈ states nodeStep
        ⟨connectedUdt 0 7 (List.replicate packetSize 0), 0, []⟩
        [.send (List.replicate 65535 1), .flushSendWindow,
          .packetHandler { UdtPocket.init.setAck 5 with udtType := .ack },
          .send (replicate 6 2)],
        WindowLaw visited := by
  have fresh := connectedUdt_fresh 0 7
  have capacity : (replicate packetSize (0 : Byte)).length = packetSize :=
    length_replicate
  generalize replicate packetSize (0 : Byte) = block at fresh capacity ⊢
  have filled : (replicate 65535 (1 : Byte)).length = 65535 :=
    length_replicate
  generalize replicate 65535 (1 : Byte) = data at filled ⊢
  have sent := connectedUdt_send block data (by omega)
    (by rw [capacity, filled]; decide)
  have stuck := connectedUdt_stuck block data capacity filled
  rw [← sent] at stuck
  exact overflows_of_stuck
    ⟨connectedUdt 0 7 block, 0, []⟩ fresh.windowed
    (.inr (.inr (.inr (.inr (.inr (.inl rfl)))))) stuck

end UdtNode

end NdNet

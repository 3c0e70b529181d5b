import NdNet.Udt.Listener

/-!
# What becomes of the status of a session

Most operations of a node leave its status and its port alone.  `Steady` says
what the others may do to a session: the port stays, `NETSTAT_FINSEND` is never
taken back, and whether the session is established does not change, except by
the packet that ends the handshake.
-/

namespace NdNet.UdtNode

open NetStat

/-- The part of a node that says what the listener has to do with it. -/
structure LinkView where
  status : NetStat
  localPort : UInt16
  isAccept : Bool

def linkView (node : UdtNode) : LinkView :=
  { status := node.status
    localPort := node.localPort
    isAccept := node.isAccept }

def SettledView.link (view : SettledView) : LinkView :=
  { status := view.status
    localPort := view.localPort
    isAccept := view.isAccept }

section LinkView

variable (node : UdtNode) (pocket : UdtPocket)

@[simp] theorem writePocketToSocket_linkView :
    (node.writePocketToSocket pocket).2.linkView = node.linkView :=
  congrArg SettledView.link (writePocketToSocket_settledView node pocket)

@[simp] theorem sendAck_linkView : node.sendAck.2.linkView = node.linkView :=
  writePocketToSocket_linkView node _

@[simp] theorem sendReset_linkView :
    node.sendReset.2.linkView = node.linkView :=
  writePocketToSocket_linkView node _

@[simp] theorem handleIncomeData_linkView :
    (node.handleIncomeData pocket).2.linkView = node.linkView :=
  congrArg SettledView.link (handleIncomeData_settledView node pocket)

@[simp] theorem flushSendWindow_linkView :
    node.flushSendWindow.2.linkView = node.linkView := by
  unfold flushSendWindow
  split
  · rfl
  split
  · rfl
  dsimp only
  split
  · rfl
  split <;> exact writePocketToSocket_linkView { node with needAck := false } _

theorem flushRounds_linkView (rounds : Nat) :
    (flushRounds rounds node).linkView = node.linkView := by
  induction rounds generalizing node with
  | zero => rfl
  | succ rounds induction =>
    unfold flushRounds
    dsimp only
    split
    · rw [induction, flushSendWindow_linkView]
    · exact flushSendWindow_linkView node

@[simp] theorem flushAll_linkView : node.flushAll.linkView = node.linkView :=
  flushRounds_linkView node _

@[simp] theorem retranslateData_linkView :
    node.retranslateData.2.linkView = node.linkView := by
  obtain ⟨_, same⟩ := retranslateData_settledView node
  exact congrArg SettledView.link same

@[simp] theorem retranslate_linkView :
    node.retranslate.2.linkView = node.linkView := by
  obtain ⟨_, same⟩ := retranslate_settledView node
  exact congrArg SettledView.link same

@[simp] theorem flushAck_linkView : node.flushAck.linkView = node.linkView :=
  congrArg SettledView.link (flushAck_settledView node)

@[simp] theorem updateStart_linkView :
    node.updateStart.linkView = node.linkView :=
  congrArg SettledView.link (updateStart_settledView node)

@[simp] theorem updateSocket_linkView :
    node.updateSocket.2.linkView = node.linkView := by
  have flushed := (flushSendWindow_linkView node.updateStart).trans
    (updateStart_linkView node)
  unfold updateSocket
  dsimp only
  split
  · rw [flushAck_linkView, flushAll_linkView, flushed]
  split
  · rw [retranslate_linkView, flushed]
  · rw [flushAck_linkView, retranslate_linkView, flushed]

theorem takeAcknowledged_linkView (ackSeq : Seq) :
    (node.takeAcknowledged ackSeq).linkView = node.linkView := by
  unfold takeAcknowledged
  split
  · split <;> rfl
  · rfl

@[simp] theorem send_linkView (data : List Byte) :
    (node.send data).2.linkView = node.linkView := by
  unfold send
  split
  · rfl
  split <;> rfl

@[simp] theorem noteClose_linkView :
    node.noteClose.linkView = node.linkView := by
  unfold noteClose
  split <;> rfl

theorem clearUserData_linkView :
    node.clearUserData.linkView = node.linkView :=
  rfl

end LinkView

/-- What a step may do to a session; `calm` says that the step does not end the
handshake. -/
structure Steady (calm : Prop) (before after : UdtNode) : Prop where
  localPort : after.localPort = before.localPort
  isAccept : after.isAccept = before.isAccept
  synsend : after.status.has synsend = before.status.has synsend
  finsend : before.status.has finsend = true → after.status.has finsend = true
  established : calm →
    after.status.has established = before.status.has established

variable (pocket : UdtPocket)

section Steady

variable {calm : Prop} {node before middle after : UdtNode}

theorem Steady.trans (first : Steady calm before middle)
    (second : Steady calm middle after) : Steady calm before after where
  localPort := second.localPort.trans first.localPort
  isAccept := second.isAccept.trans first.isAccept
  synsend := second.synsend.trans first.synsend
  finsend := fun closing => second.finsend (first.finsend closing)
  established := fun quiet =>
    (second.established quiet).trans (first.established quiet)

theorem Steady.of_linkView (same : after.linkView = before.linkView) :
    Steady calm before after := by
  have status : after.status = before.status := congrArg LinkView.status same
  constructor
  case localPort => exact congrArg LinkView.localPort same
  case isAccept => exact congrArg LinkView.isAccept same
  case synsend => rw [status]
  case finsend => rw [status]; exact id
  case established => rw [status]; exact fun _ => rfl

theorem Steady.refl : Steady calm node node :=
  .of_linkView rfl

theorem Steady.mark (flags : NetStat)
    (port : after.localPort = before.localPort)
    (isAccept : after.isAccept = before.isAccept)
    (marked : after.status = before.status ||| flags)
    (early : flags.has NetStat.synsend = false)
    (live : flags.has NetStat.established = false) :
    Steady calm before after where
  localPort := port
  isAccept := isAccept
  synsend := by rw [marked, has_or, early, Bool.or_false]
  finsend := by
    intro closing
    rw [marked, has_or, closing, Bool.true_or]
  established := by
    intro _
    rw [marked, has_or, live, Bool.or_false]

theorem Steady.answer (port : after.localPort = before.localPort)
    (isAccept : after.isAccept = before.isAccept)
    (waits : before.status = listen) (answered : after.status = synrecv) :
    Steady calm before after where
  localPort := port
  isAccept := isAccept
  synsend := by rw [waits, answered]; rfl
  finsend := by
    intro closing
    rw [waits] at closing
    exact absurd closing (by decide)
  established := by
    intro _
    rw [waits, answered]
    rfl

theorem sendClosed_eq (status : NetStat) :
    sendClosed status = status ||| sendclose ∨
      sendClosed status = status ||| (sendclose ||| reset) := by
  unfold sendClosed
  dsimp only
  split
  · exact .inr (BitVec.or_assoc _ _ _)
  · exact .inl rfl

theorem handleAck_steady (ackSeq : Seq) :
    Steady (node.status ≠ synrecv) node (node.handleAck ackSeq) := by
  unfold handleAck handleNewAck
  split
  · exact .refl
  split
  · rename_i waits
    split
    · exact .of_linkView rfl
    split
    · constructor
      case localPort => rfl
      case isAccept => rfl
      case synsend =>
        rw [waits]
        dsimp only
        split <;> rfl
      case finsend =>
        rw [waits]
        exact fun never => absurd never (by decide)
      case established => exact fun calm => absurd waits calm
    · exact .refl
  split
  · split
    · rcases sendClosed_eq node.status with marked | marked
      · exact .mark _ rfl rfl marked (by decide) (by decide)
      · exact .mark _ rfl rfl marked (by decide) (by decide)
    · exact .refl
  · have taken : Steady (node.status ≠ synrecv) node
        (node.takeAcknowledged ackSeq) :=
      .of_linkView (takeAcknowledged_linkView node ackSeq)
    dsimp only
    split
    · exact taken.trans (.of_linkView rfl)
    · exact taken

theorem handleCarriedAck_steady :
    Steady (node.status ≠ synrecv) node (node.handleCarriedAck pocket) := by
  unfold handleCarriedAck
  split
  · exact handleAck_steady _
  · exact .refl

theorem handleData_steady :
    Steady (node.status ≠ synrecv) node (node.handleData pocket).2 := by
  refine (handleCarriedAck_steady pocket).trans ?_
  unfold handleData
  dsimp only
  split
  · exact .of_linkView ((flushAll_linkView _).trans
      (handleIncomeData_linkView _ pocket))
  · exact .of_linkView (handleIncomeData_linkView _ pocket)

theorem handleFin_steady :
    Steady (node.status ≠ synrecv) node (node.handleFin pocket).2 := by
  refine (handleCarriedAck_steady pocket).trans ?_
  unfold handleFin
  dsimp only
  split
  · exact .of_linkView (sendAck_linkView _)
  · refine Steady.trans ?_ (.of_linkView (sendAck_linkView _))
    split
    · exact .mark (recvclose ||| NetStat.reset) rfl rfl
        (BitVec.or_assoc _ _ _) (by decide) (by decide)
    · exact .mark recvclose rfl rfl rfl (by decide) (by decide)

theorem handleLost_steady :
    Steady calm node (node.handleLost pocket) := by
  unfold handleLost
  dsimp only
  split
  · exact .refl
  · exact .of_linkView (retranslateData_linkView _)

theorem handleSyn_steady (passive : node.status.has synsend = false)
    (pocket : UdtPocket) : Steady calm node (node.handleSyn pocket).2 := by
  unfold handleSyn
  split
  · rename_i waits
    exact .answer
      (congrArg LinkView.localPort (writePocketToSocket_linkView _ _))
      (congrArg LinkView.isAccept (writePocketToSocket_linkView _ _)) waits rfl
  split
  · rename_i connecting
    rw [connecting] at passive
    exact absurd passive (by decide)
  split
  · split
    · exact .of_linkView (sendAck_linkView node)
    · exact .refl
  · exact .of_linkView rfl

theorem handleSyn_refused (listening : node.status ≠ listen)
    (connecting : node.status ≠ NetStat.synsend)
    (handshake : ¬ node.status < accept) (pocket : UdtPocket) :
    node.handleSyn pocket = (-1, { node with myerrno := .badpacket }) := by
  unfold handleSyn
  rw [if_neg listening, if_neg connecting, if_neg handshake]

theorem dispatch_steady (passive : node.status.has synsend = false)
    (pocket : UdtPocket) :
    Steady (node.status ≠ synrecv) node (node.dispatch pocket).2 := by
  unfold dispatch
  cases pocket.udtType with
  | data => exact handleData_steady pocket
  | dgram => exact .refl
  | syn => exact handleSyn_steady passive pocket
  | ack => exact handleAck_steady _
  | lost => exact (handleAck_steady _).trans (handleLost_steady pocket)
  | fin => exact handleFin_steady pocket
  | reset => exact .mark NetStat.reset rfl rfl rfl (by decide) (by decide)
  | alive | unknown => exact .refl

theorem packetHandler_steady (passive : node.status.has synsend = false)
    (pocket : UdtPocket) :
    Steady (node.status ≠ synrecv) node (node.packetHandler pocket).2 := by
  have noted : Steady (node.status ≠ synrecv) node (node.noteArrival pocket) :=
    .of_linkView rfl
  have dispatched : Steady (node.status ≠ synrecv) (node.noteArrival pocket)
      ((node.noteArrival pocket).dispatch pocket).2 :=
    @dispatch_steady (node.noteArrival pocket) passive pocket
  unfold packetHandler
  split
  · exact .of_linkView (sendReset_linkView node)
  · dsimp only
    split <;> exact noted.trans dispatched

theorem markFin_steady : Steady calm node node.markFin := by
  unfold markFin
  split
  · exact .of_linkView rfl
  · exact .mark NetStat.finsend rfl rfl rfl (by decide) (by decide)

theorem sendFin_steady : Steady calm node node.sendFin.2 := by
  have written : Steady calm node (node.markFin.writePocketToSocket
      { UdtPocket.init with
        udtType := .fin
        sequence := node.sendSequence }).2 :=
    markFin_steady.trans (.of_linkView (writePocketToSocket_linkView _ _))
  unfold sendFin
  dsimp only
  split
  · exact written.trans (.of_linkView rfl)
  · exact written

theorem sendFin_finsend : node.sendFin.2.status.has finsend = true := by
  have written : ∀ pocket,
      (node.markFin.writePocketToSocket pocket).2.status.has finsend = true := by
    intro pocket
    have same := congrArg LinkView.status
      (writePocketToSocket_linkView node.markFin pocket)
    dsimp only [linkView] at same
    rw [same]
    exact markFin_finsend node
  unfold sendFin
  dsimp only
  split <;> exact written _

variable (accepted : node.isAccept = true)
include accepted

theorem resetUdt_status (issendReset : Bool) :
    (node.resetUdt issendReset).localPort = node.localPort ∧
      (node.resetUdt issendReset).isAccept = node.isAccept ∧
        (node.resetUdt issendReset).status =
          node.status ||| (NetStat.finsend + NetStat.reset) := by
  have told : (if issendReset then node.sendReset.2 else node).linkView =
      node.linkView := by
    split
    · exact sendReset_linkView node
    · rfl
  have port := congrArg LinkView.localPort told
  have still := congrArg LinkView.isAccept told
  have status := congrArg LinkView.status told
  dsimp only [linkView] at port still status
  have open_ : ¬ (!(if issendReset then node.sendReset.2 else node).isAccept &&
      (if issendReset then node.sendReset.2 else node).fd != 0) = true := by
    rw [still, accepted]
    exact Bool.false_ne_true
  unfold resetUdt
  rw [if_neg open_, ← status]
  exact ⟨port, still, rfl⟩

theorem resetUdt_steady
    (issendReset : Bool) : Steady calm node (node.resetUdt issendReset) := by
  obtain ⟨port, isAccept, status⟩ := resetUdt_status accepted issendReset
  exact .mark _ port isAccept status (by decide) (by decide)

theorem updateUdtSession_steady :
    Steady calm node node.updateUdtSession.2 := by
  have updated : Steady calm node node.updateSocket.2 :=
    .of_linkView (updateSocket_linkView node)
  unfold updateUdtSession
  split
  · dsimp only
    split
    · have still : node.updateSocket.2.isAccept = true :=
        updated.isAccept.trans accepted
      exact updated.trans (resetUdt_steady still false)
    · exact updated
  split
  · split
    · exact resetUdt_steady accepted false
    · exact .refl
  split
  · exact .refl
  split
  · split
    · split
      · exact sendFin_steady
      · exact .refl
    · exact .refl
  · exact .refl

theorem closeListendSocket_steady (force : Bool) :
    Steady calm node (node.closeListendSocket force) ∧
      (node.closeListendSocket force).status.has NetStat.finsend = true := by
  unfold closeListendSocket
  split
  · exact ⟨sendFin_steady, sendFin_finsend⟩
  · refine ⟨resetUdt_steady accepted true, ?_⟩
    rw [(resetUdt_status accepted true).2.2, has_or]
    exact Bool.or_true _

end Steady

end NdNet.UdtNode

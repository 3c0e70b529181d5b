import NdNet.Udt.Isolation
import NdNet.Udt.ListenerRuns

/-!
# Runs with a foreign datagram

The data handler clears the mark for received data before it looks at the
source of a packet.  No operation reads this mark as another one has left it, so
two runs that differ in it, in the time of the last step or in the results of
its writes go on alike.  A datagram from elsewhere that passes none of the two
doors left open therefore changes nothing, now and later.
-/

namespace NdNet

namespace UdtNode

open NetStat

def unmarked (answer : Int × UdtNode) : Int × UdtNode :=
  (answer.1, answer.2.clearUserData)

section ClearUserData

variable (node : UdtNode)

theorem unmarked_ite {condition : Prop} [Decidable condition]
    (first second : Int × UdtNode) :
    unmarked (if condition then first else second) =
      if condition then unmarked first else unmarked second :=
  apply_ite unmarked condition first second

theorem clearUserData_ite {condition : Prop} [Decidable condition]
    (first second : UdtNode) :
    (if condition then first else second).clearUserData =
      if condition then first.clearUserData else second.clearUserData :=
  apply_ite clearUserData condition first second

theorem writePocketToSocket_clearUserData (pocket : UdtPocket) :
    node.clearUserData.writePocketToSocket pocket =
      unmarked (node.writePocketToSocket pocket) := by
  have results : node.clearUserData.writeResults = node.writeResults := rfl
  unfold writePocketToSocket
  rw [results]
  cases node.writeResults.head?.getD .sent <;> rfl

theorem sendAck_clearUserData :
    node.clearUserData.sendAck = unmarked node.sendAck :=
  writePocketToSocket_clearUserData node _

theorem sendReset_clearUserData :
    node.clearUserData.sendReset = unmarked node.sendReset :=
  writePocketToSocket_clearUserData node _

theorem flushSendWindow_clearUserData :
    node.clearUserData.flushSendWindow = unmarked node.flushSendWindow := by
  have start : node.clearUserData.sendWindowStart = node.sendWindowStart := rfl
  unfold flushSendWindow
  rw [start, unmarked_ite]
  refine ite_congr rfl (fun _ => rfl) fun _ => ?_
  cases node.sendWindowStart with
  | none => rfl
  | some window =>
    have written := writePocketToSocket_clearUserData
      { node with needAck := false } (node.windowPocket window.1 window.2)
    rw [unmarked_ite]
    refine ite_congr rfl (fun _ => rfl) fun _ => ?_
    rw [unmarked_ite]
    refine ite_congr (congrArg (fun answer => answer.1 = -1) written)
      (fun _ => written) fun _ => ?_
    exact congrArg (fun answer : Int × UdtNode => (answer.1,
      { answer.2 with
        lastResendTm := answer.2.lastActive
        sendSequence := node.sendSequence + BitVec.ofNat 32 window.2
        windowLen := windowNotNegative (node.windowLen - window.2) }))
      written

theorem flushRounds_clearUserData (rounds : Nat) :
    flushRounds rounds node.clearUserData =
      (flushRounds rounds node).clearUserData := by
  induction rounds generalizing node with
  | zero => rfl
  | succ rounds induction =>
    unfold flushRounds
    rw [flushSendWindow_clearUserData, clearUserData_ite]
    exact ite_congr rfl (fun _ => induction _) fun _ => rfl

theorem retranslateData_clearUserData :
    node.clearUserData.retranslateData = unmarked node.retranslateData := by
  unfold retranslateData
  rw [unmarked_ite]
  refine ite_congr rfl (fun _ => rfl) fun _ => ?_
  have written := writePocketToSocket_clearUserData
    { node with retransSeq := node.resentSeq 0, needAck := false }
    (node.resendPocket (min node.resendLen.toNat udtFragmentLen))
  rw [unmarked_ite]
  refine ite_congr (congrArg (fun answer => answer.1 = -1) written)
    (fun _ => congrArg (fun answer : Int × UdtNode => (0, answer.2)) written)
    fun _ => ?_
  exact congrArg (fun answer : Int × UdtNode =>
    (((min node.resendLen.toNat udtFragmentLen : Nat) : Int),
      { answer.2 with
        lastResendTm := answer.2.lastActive
        windowLen := windowNotNegative node.windowLen
        retransSeq :=
          node.resentSeq (min node.resendLen.toNat udtFragmentLen) })) written

theorem retranslate_clearUserData :
    node.clearUserData.retranslate = unmarked node.retranslate := by
  unfold retranslate
  rw [retranslateData_clearUserData]
  simp only [unmarked_ite]
  refine ite_congr rfl (fun _ => rfl) fun _ => ?_
  refine ite_congr rfl (fun _ => rfl) fun _ => ?_
  refine ite_congr rfl (fun _ => rfl) fun _ => ?_
  refine ite_congr rfl (fun _ => ?_) fun _ => rfl
  exact ite_congr rfl (fun _ => rfl) fun _ => rfl

theorem flushAck_clearUserData :
    node.clearUserData.flushAck = node.flushAck.clearUserData := by
  unfold flushAck
  rw [sendAck_clearUserData, clearUserData_ite]
  exact ite_congr rfl (fun _ => rfl) fun _ => rfl

theorem updateStart_clearUserData :
    node.clearUserData.updateStart = node.updateStart.clearUserData := by
  unfold updateStart
  rw [clearUserData_ite]
  exact ite_congr rfl (fun _ => rfl) fun _ => rfl

theorem updateSocket_clearUserData :
    node.clearUserData.updateSocket = unmarked node.updateSocket := by
  unfold updateSocket
  rw [updateStart_clearUserData, flushSendWindow_clearUserData, unmarked_ite]
  refine ite_congr rfl (fun _ => ?_) fun _ => ?_
  · refine Prod.ext rfl ?_
    exact (congrArg flushAck (flushRounds_clearUserData _ _)).trans
      (flushAck_clearUserData _)
  · have resent := retranslate_clearUserData node.updateStart.flushSendWindow.2
    rw [unmarked_ite]
    refine ite_congr (congrArg (fun answer => answer.1 = -1) resent)
      (fun _ => congrArg (fun answer : Int × UdtNode => (-1, answer.2)) resent)
      fun _ => ?_
    refine Prod.ext rfl ?_
    exact (congrArg (fun answer => answer.2.flushAck) resent).trans
      (flushAck_clearUserData _)

theorem markFin_clearUserData :
    node.clearUserData.markFin = node.markFin.clearUserData := by
  have finsent : node.clearUserData.status = node.status := rfl
  unfold markFin
  rw [finsent]
  cases node.status.has finsend <;> rfl

theorem sendFin_clearUserData :
    node.clearUserData.sendFin = unmarked node.sendFin := by
  unfold sendFin
  rw [markFin_clearUserData, writePocketToSocket_clearUserData, unmarked_ite]
  exact ite_congr rfl (fun _ => rfl) fun _ => rfl

theorem resetUdt_clearUserData (issendReset : Bool) :
    node.clearUserData.resetUdt issendReset =
      (node.resetUdt issendReset).clearUserData := by
  have told : (if issendReset then node.clearUserData.sendReset.2
      else node.clearUserData) =
        (if issendReset then node.sendReset.2 else node).clearUserData := by
    rw [sendReset_clearUserData, clearUserData_ite]
    rfl
  unfold resetUdt
  rw [told]
  generalize (if issendReset then node.sendReset.2 else node) = informed
  rw [clearUserData_ite]
  exact ite_congr rfl (fun _ => rfl) fun _ => rfl

theorem updateUdtSession_clearUserData :
    node.clearUserData.updateUdtSession = unmarked node.updateUdtSession := by
  unfold updateUdtSession
  rw [updateSocket_clearUserData, sendFin_clearUserData, resetUdt_clearUserData]
  simp only [unmarked_ite]
  refine ite_congr rfl (fun _ => ?_) fun _ => ?_
  · exact ite_congr rfl
      (fun _ => Prod.ext rfl (resetUdt_clearUserData _ _)) fun _ => rfl
  refine ite_congr rfl (fun _ => ite_congr rfl (fun _ => rfl) fun _ => rfl)
    fun _ => ?_
  refine ite_congr rfl (fun _ => rfl) fun _ => ?_
  refine ite_congr rfl (fun _ => ?_) fun _ => rfl
  refine ite_congr rfl (fun _ => ?_) fun _ => rfl
  exact ite_congr rfl (fun _ => rfl) fun _ => rfl

theorem noteClose_clearUserData :
    node.clearUserData.noteClose = node.noteClose.clearUserData := by
  unfold noteClose
  rw [clearUserData_ite]
  exact ite_congr rfl (fun _ => rfl) fun _ => rfl

theorem closeListendSocket_clearUserData (force : Bool) :
    node.clearUserData.closeListendSocket force =
      (node.closeListendSocket force).clearUserData := by
  unfold closeListendSocket
  rw [sendFin_clearUserData, resetUdt_clearUserData, clearUserData_ite]
  exact ite_congr rfl (fun _ => rfl) fun _ => rfl

theorem closeNode_clearUserData (force : Bool) :
    node.clearUserData.closeNode force =
      (node.closeNode force).clearUserData := by
  unfold closeNode
  rw [noteClose_clearUserData, closeListendSocket_clearUserData]
  simp only [clearUserData_ite]
  refine ite_congr rfl (fun _ => rfl) fun _ => ?_
  exact ite_congr rfl (fun _ => rfl) fun _ => rfl

theorem updateNode_clearUserData :
    node.clearUserData.updateNode = node.updateNode.clearUserData := by
  unfold updateNode
  rw [updateUdtSession_clearUserData, clearUserData_ite]
  exact ite_congr rfl (fun _ => closeNode_clearUserData _ _) fun _ => rfl

theorem releaseNode_clearUserData :
    node.clearUserData.releaseNode = node.releaseNode.clearUserData := by
  unfold releaseNode
  rw [clearUserData_ite]
  exact ite_congr rfl (fun _ => rfl) fun _ => rfl

theorem send_clearUserData (data : List Byte) :
    node.clearUserData.send data = unmarked (node.send data) := by
  unfold send
  simp only [unmarked_ite]
  refine ite_congr rfl (fun _ => rfl) fun _ => ?_
  exact ite_congr rfl (fun _ => rfl) fun _ => rfl

theorem handleSyn_clearUserData (pocket : UdtPocket) :
    node.clearUserData.handleSyn pocket =
      unmarked (node.handleSyn pocket) := by
  have started := writePocketToSocket_clearUserData
    { node with
      acknowledgedSeq := node.sendSequence
      receivedSequence := pocket.sequence + 1 }
    { UdtPocket.init.setAck (pocket.sequence + 1) with
      udtType := .syn
      sequence := node.sendSequence }
  have connected := sendAck_clearUserData
    { node with
      localPort := pocket.localPort
      receivedSequence := pocket.sequence + 1
      acknowledgedSeq := pocket.ackSeq
      status := established
      sendSequence := node.sendSequence + 1 }
  unfold handleSyn
  rw [sendAck_clearUserData]
  simp only [unmarked_ite]
  refine ite_congr rfl (fun _ => ?_) fun _ => ?_
  · exact congrArg (fun answer : Int × UdtNode =>
      ((0 : Int), { answer.2 with status := synrecv })) started
  refine ite_congr rfl (fun _ => ?_) fun _ => ?_
  · refine ite_congr rfl (fun _ => rfl) fun _ => ?_
    exact congrArg (fun answer : Int × UdtNode => ((0 : Int), answer.2))
      connected
  refine ite_congr rfl (fun _ => ?_) fun _ => rfl
  exact ite_congr rfl (fun _ => rfl) fun _ => rfl

end ClearUserData

def settled (node : UdtNode) : UdtNode :=
  { node with
    userDataIn := false
    now := 0
    writeResults := [] }

end UdtNode

variable (view : SessionView)

namespace SessionView

open UdtNode

def settled (view : SessionView) : SessionView :=
  view.setNode view.session.node.settled

theorem settled_setNode (node : UdtNode) :
    (view.setNode node).settled = (view.setNode node.clearUserData).settled :=
  rfl

theorem repeatSyn_settled (addr : Nat) (moment : Moment) (info : UdtPacketInfo)
    :
    (view.settled.repeatSyn addr moment info).settled =
      (view.repeatSyn addr moment info).settled := by
  have answer := handleSyn_clearUserData
    (view.session.node.noteSyn moment addr) info.pocket
  have present : view.settled.session.node.noteSyn moment addr =
      (view.session.node.noteSyn moment addr).clearUserData := rfl
  unfold repeatSyn
  rw [present, answer]
  unfold unmarked
  dsimp only
  rw [resetUdt_clearUserData, releaseNode_clearUserData]
  rw [apply_ite settled, apply_ite settled, apply_ite settled,
    apply_ite settled]
  refine ite_congr rfl (fun _ => ?_) fun _ => rfl
  exact ite_congr rfl (fun _ => rfl) fun _ => rfl

theorem update_settled (addr : Nat) (moment : Moment) :
    (view.settled.update addr moment).settled =
      (view.update addr moment).settled := by
  have updated := congrArg (fun node => (view.setNode node).settled)
    (updateNode_clearUserData (view.session.node.atMoment moment addr))
  exact updated

theorem update_rounds_settled (addr : Nat) (moment : Moment) (rounds : Nat) :
    ((fun view => view.update addr moment)^[rounds] view.settled).settled =
      ((fun view => view.update addr moment)^[rounds] view).settled := by
  induction rounds with
  | zero => rfl
  | succ rounds induction =>
    rw [Function.iterate_succ_apply', Function.iterate_succ_apply',
      ← update_settled, induction, update_settled]

theorem step_settled (addr : Nat) (view : SessionView) (step : ListenerStep) :
    (view.settled.step addr step).settled = (view.step addr step).settled := by
  cases step with
  | pump moment info memory handled =>
    dsimp only [step]
    simp only [apply_ite settled]
    refine ite_congr rfl (fun _ => ?_) fun _ => ?_
    · refine ite_congr rfl (fun _ => rfl) fun _ => ?_
      exact ite_congr rfl
        (fun _ => repeatSyn_settled view addr moment info) fun _ => rfl
    · exact ite_congr rfl (fun _ => rfl) fun _ => rfl
  | forward moment info handled =>
    dsimp only [step]
    simp only [apply_ite settled]
    refine ite_congr rfl (fun _ => rfl) fun _ => ?_
    exact ite_congr rfl (fun _ => rfl) fun _ => rfl
  | update moment => exact update_rounds_settled view addr moment view.linked
  | send moment localPort data =>
    have sent := send_clearUserData
      (view.session.node.atMoment moment addr) data
    have present : view.settled.session.node.atMoment moment addr =
        (view.session.node.atMoment moment addr).clearUserData := rfl
    dsimp only [step]
    rw [present, sent]
    simp only [apply_ite settled]
    refine ite_congr rfl (fun _ => ?_) fun _ => rfl
    unfold unmarked
    rw [flushSendWindow_clearUserData, settled_setNode view (ite _ _ _),
      clearUserData_ite]
    rfl
  | close moment localPort force =>
    have closed := congrArg (fun node => (view.setNode node).settled)
      (closeNode_clearUserData (view.session.node.atMoment moment addr)
        force)
    dsimp only [step]
    simp only [apply_ite settled]
    refine ite_congr rfl (fun _ => ?_) fun _ => rfl
    exact closed

def Foreign (view : SessionView) : ListenerStep → Prop
  | .pump _ info _ _ => info.addr ≠ view.session.remoteAddr
  | .forward _ info _ => info.addr ≠ view.session.remoteAddr
  | _ => False

/-- Where a datagram names the session, the address is compared, with a result
that is not 0: it is no connect that the pump reads, and does not come from the
same IPv6 host. -/
def Compared (view : SessionView) : ListenerStep → Prop
  | .pump _ info _ _ =>
    view.named info.pocket.localPort = true →
      info.pocket.udtType ≠ .syn ∧ view.session.remoteAddr.cmp info.addr ≠ 0
  | .forward _ info _ =>
    view.named info.pocket.localPort = true →
      view.session.remoteAddr.cmp info.addr ≠ 0
  | _ => True

theorem handle_compared {view : SessionView} {info : UdtPacketInfo}
    (differs : view.session.remoteAddr.cmp info.addr ≠ 0) (addr : Nat)
    (moment : Moment) (handled : DataHandled) :
    (view.handle addr moment info handled).1 = 0 ∧
      (view.handle addr moment info handled).2.settled = view.settled := by
  unfold handle
  rw [if_neg differs]
  exact ⟨rfl, rfl⟩

theorem step_foreign {view : SessionView} {datagram : ListenerStep}
    (foreign : view.Foreign datagram) (compared : view.Compared datagram)
    (addr : Nat) : (view.step addr datagram).settled = view.settled := by
  cases datagram with
  | pump moment info memory handled =>
    dsimp only [step]
    by_cases named : view.named info.pocket.localPort = true
    · obtain ⟨noConnect, differs⟩ := compared named
      obtain ⟨result, kept⟩ := handle_compared differs addr moment handled
      rw [if_neg noConnect, if_pos named]
      unfold data
      rw [if_neg (by rw [result]; decide)]
      exact kept
    · simp only [if_neg named, ite_self]
  | forward moment info handled =>
    dsimp only [step]
    by_cases named : view.named info.pocket.localPort = true
    · obtain ⟨-, kept⟩ :=
        handle_compared (compared named) addr moment handled
      split
      · rfl
      · exact kept
    · simp only [if_neg named, ite_self]
  | update moment | send moment localPort data | close moment localPort force =>
    exact foreign.elim

end SessionView

variable (moment : Moment)

namespace UdtListener

open Runs

section Allocated

variable {listener : UdtListener} {addr : Nat}

theorem connectOut_allocated :
    (listener.connectOut addr).allocated = listener.allocated := by
  unfold connectOut
  dsimp only
  split <;> rfl

theorem closeSession_allocated (force : Bool) :
    (listener.closeSession addr force).allocated = listener.allocated := by
  unfold closeSession
  dsimp only
  split
  · rfl
  · exact connectOut_allocated

theorem releaseDeadNode_allocated :
    (listener.releaseDeadNode addr).allocated = listener.allocated := by
  unfold releaseDeadNode
  dsimp only
  split
  · rfl
  · exact connectOut_allocated

theorem arrive_allocated (before after : UdtNode) :
    (listener.arrive addr before after).allocated = listener.allocated := by
  unfold arrive
  split <;> rfl

theorem udtSessionDataHandle_allocated (info : UdtPacketInfo)
    (handled : DataHandled) :
    (listener.udtSessionDataHandle addr info handled).2.allocated =
      listener.allocated := by
  unfold udtSessionDataHandle
  dsimp only
  split
  · split
    · exact arrive_allocated _ _
    split <;> exact arrive_allocated _ _
  · rfl

theorem dataHandle_allocated (info : UdtPacketInfo) (handled : DataHandled) :
    (listener.dataHandle moment info handled).2.allocated =
      listener.allocated := by
  unfold dataHandle
  split
  · rfl
  · dsimp only
    split
    · exact (closeSession_allocated true).trans
        (udtSessionDataHandle_allocated info handled)
    · exact udtSessionDataHandle_allocated info handled

theorem updateClient_allocated :
    (listener.updateClient moment addr).allocated = listener.allocated := by
  unfold updateClient
  dsimp only
  split
  · exact releaseDeadNode_allocated
  split
  · exact closeSession_allocated true
  · rfl

theorem updateRounds_allocated (clients : List Nat) :
    (clients.foldl (updateClient moment) listener).allocated =
      listener.allocated := by
  induction clients generalizing listener with
  | nil => rfl
  | cons client clients induction =>
    rw [List.foldl_cons, induction, updateClient_allocated]

theorem pumpInsrvUdtData_allocated (info : UdtPacketInfo) (memory : Bool)
    (handled : DataHandled) :
    listener.allocated ≤
      (listener.pumpInsrvUdtData moment info memory handled).2.allocated := by
  unfold pumpInsrvUdtData
  split
  · split
    · split
      · unfold acceptSyn
        dsimp only
        split <;> exact Nat.le_succ _
      · exact Nat.le_refl _
    split
    · exact (dataHandle_allocated moment info handled).ge
    · unfold repeatSyn
      dsimp only
      split
      · rw [releaseDeadNode_allocated]
        rfl
      · exact Nat.le_refl _
  · exact (dataHandle_allocated moment info handled).ge

theorem step_allocated (step : ListenerStep) :
    listener.allocated ≤ (listener.step step).allocated := by
  cases step with
  | pump moment info memory handled =>
    exact pumpInsrvUdtData_allocated moment info memory handled
  | forward moment info handled =>
    dsimp only [step]
    unfold msgUdtPackateHandler
    split
    · exact Nat.le_refl _
    split
    · exact Nat.le_refl _
    · rw [udtSessionDataHandle_allocated]
      rfl
  | update moment => exact (updateRounds_allocated moment _).ge
  | send moment localPort data =>
    dsimp only [step]
    unfold sendSession
    split <;> exact Nat.le_refl _
  | close moment localPort force =>
    dsimp only [step]
    unfold closeSessionId
    split
    · exact Nat.le_refl _
    · rw [closeSession_allocated]
      rfl

end Allocated

theorem foldl_view {listener : UdtListener} {addr : Nat} (tidy : listener.Tidy)
    (old : addr < listener.allocated) (steps : List ListenerStep) :
    (steps.foldl step listener).view addr =
      steps.foldl (SessionView.step addr) (listener.view addr) := by
  have together := @foldl_related UdtListener ListenerStep SessionView
    step (SessionView.step addr)
    (fun listener view => listener.Tidy ∧ addr < listener.allocated ∧
      listener.view addr = view)
    (by
      rintro listener view step ⟨tidy, old, rfl⟩
      exact ⟨step_tidy tidy step, Nat.lt_of_lt_of_le old (step_allocated step),
        step_view tidy old step⟩)
    listener (listener.view addr) ⟨tidy, old, rfl⟩ steps
  exact together.2.2

theorem foldl_settled {view other : SessionView} (addr : Nat)
    (alike : view.settled = other.settled) (steps : List ListenerStep) :
    (steps.foldl (SessionView.step addr) view).settled =
      (steps.foldl (SessionView.step addr) other).settled :=
  @foldl_related SessionView ListenerStep SessionView (SessionView.step addr)
    (SessionView.step addr) (fun view other => view.settled = other.settled)
    (fun view other step alike => by
      rw [← SessionView.step_settled, alike, SessionView.step_settled])
    view other alike steps

theorem foldl_tidy {listener : UdtListener} (tidy : listener.Tidy)
    (steps : List ListenerStep) :
    (steps.foldl step listener).Tidy :=
  @invariant_of_preserved UdtListener ListenerStep step Tidy
    (fun _ step tidy => step_tidy tidy step) listener tidy steps _
    (foldl_mem_states _ _ _)

end UdtListener

namespace UdtClient

theorem step_remoteAddr (client : UdtClient) (step : ClientStep) :
    (client.step step).remoteAddr = client.remoteAddr := by
  cases step with
  | syn moment =>
    dsimp only [step]
    unfold sendSyn
    dsimp only
    split
    · split
      · split <;> rfl
      · rfl
    · rfl
  | timeout =>
    dsimp only [step]
    split <;> rfl
  | datagram moment info =>
    dsimp only [step]
    unfold datagram
    split
    · rfl
    split
    · split <;> rfl
    · rfl
  | update moment | send data | recv size | fin moment
  | reset moment issendReset =>
    dsimp only [step]
    split <;> rfl

theorem foldl_remoteAddr (client : UdtClient) (steps : List ClientStep) :
    (steps.foldl step client).remoteAddr = client.remoteAddr := by
  induction steps generalizing client with
  | nil => rfl
  | cons step steps induction =>
    rw [List.foldl_cons, induction, step_remoteAddr]

end UdtClient

namespace UdtListener

/-- A foreign datagram changes nothing in a client, and nothing in a session of
a listener that compares the address; the run without it ends alike. -/
theorem datagramRun_isolated
    {fd : Nat} {sequence : Seq} {remoteAddr : SockAddr}
    (steps later : List ClientStep) (moment : Moment) {info : UdtPacketInfo}
    (elsewhere : info.addr ≠ remoteAddr)
    {thid socket maxNum startId : Nat} (positive : 1 ≤ startId)
    (fits : startId + maxNum ≤ 65536) (before after : List ListenerStep)
    {datagram : ListenerStep} {addr : Nat}
    (allocated : addr < (before.foldl step
      (create thid socket maxNum startId)).allocated)
    (foreign : ((before.foldl step
      (create thid socket maxNum startId)).view addr).Foreign datagram)
    (compared : ((before.foldl step
      (create thid socket maxNum startId)).view addr).Compared datagram) :
    let client := UdtClient.connect fd sequence remoteAddr
    let reached := steps.foldl UdtClient.step client
    let listener := create thid socket maxNum startId
    let served := before.foldl step listener
    (reached.step (.datagram moment info) = reached ∧
      (steps ++ .datagram moment info :: later).foldl UdtClient.step client =
        (steps ++ later).foldl UdtClient.step client) ∧
    ((served.step datagram).view addr).settled = (served.view addr).settled ∧
      (((before ++ datagram :: after).foldl step
          listener).view addr).settled =
        (((before ++ after).foldl step listener).view
          addr).settled := by
  intro client reached listener served
  have unread : reached.step (.datagram moment info) = reached := by
    refine UdtClient.datagram_foreign ?_ moment
    rw [UdtClient.foldl_remoteAddr]
    exact elsewhere
  have tidy : served.Tidy := foldl_tidy (create_tidy positive fits) before
  have kept : ((served.step datagram).view addr).settled =
      (served.view addr).settled := by
    rw [step_view tidy allocated]
    exact SessionView.step_foreign foreign compared addr
  refine ⟨⟨unread, ?_⟩, kept, ?_⟩
  · rw [List.foldl_append, List.foldl_append, List.foldl_cons]
    exact congrArg (fun client => later.foldl UdtClient.step client) unread
  · rw [List.foldl_append, List.foldl_append, List.foldl_cons,
      foldl_view (step_tidy tidy datagram)
        (Nat.lt_of_lt_of_le allocated (step_allocated datagram)),
      foldl_view tidy allocated]
    exact foldl_settled addr kept after

open ListenerRun

def strangerInfo (udtType : UdtMsgType) : UdtPacketInfo :=
  { addr := .inet 4001 2
    pocket :=
      { UdtPocket.init with
        udtType := udtType
        localPort := 1
        sequence := 41
        data := [7] } }

def strangerPacket (udtType : UdtMsgType) : ListenerStep :=
  .pump (quietMoment 9) (strangerInfo udtType) true ⟨0, 0⟩

def peerHandshake : List ListenerStep :=
  [peerPacket .syn 0 0, peerPacket .ack 1 1]

def peerUpdate : List ListenerStep :=
  [.update (quietMoment 10)]

/-- Data of a stranger, for a session that is established and for a client
that waits for its answer. -/
theorem datagramRun_isolated_data :
    ((peerHandshake.foldl step (create 1 3 4 1)).view
        0).Foreign (strangerPacket .data) ∧
      (((peerHandshake ++ strangerPacket .data :: peerUpdate).foldl
          step (create 1 3 4 1)).view 0).settled =
        (((peerHandshake ++ peerUpdate).foldl step
          (create 1 3 4 1)).view 0).settled := by
  have foreign : ((peerHandshake.foldl step
      (create 1 3 4 1)).view 0).Foreign (strangerPacket .data) := by
    change (strangerInfo .data).addr ≠ _
    decide +kernel
  have compared : ((peerHandshake.foldl step
      (create 1 3 4 1)).view 0).Compared (strangerPacket .data) := by
    intro _
    exact ⟨by decide, by decide +kernel⟩
  have isolated := @datagramRun_isolated 3 0 (.inet 80 9)
    [.syn (quietMoment 1)] [] (quietMoment 2) (strangerInfo .syn) (by decide)
    1 3 4 1 (by decide) (by decide) peerHandshake peerUpdate
    (strangerPacket .data) 0 (by decide +kernel) foreign compared
  exact ⟨foreign, isolated.2.2⟩

/-- A connect of a stranger that names the session of a peer releases it. -/
theorem datagramRun_strangerSyn :
    ∃ (before : List ListenerStep) (datagram : ListenerStep) (addr : Nat),
      let served := before.foldl step (create 1 3 4 1)
      addr < served.allocated ∧ (served.view addr).Foreign datagram ∧
        ((served.step datagram).view addr).settled ≠
          (served.view addr).settled := by
  refine ⟨peerHandshake, strangerPacket .syn, 0, by decide +kernel, ?_, ?_⟩
  · change (strangerInfo .syn).addr ≠ _
    decide +kernel
  · intro alike
    have status := congrArg (fun view => view.session.node.status) alike
    revert status
    decide +kernel

end UdtListener

end NdNet

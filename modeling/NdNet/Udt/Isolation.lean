import NdNet.Udt.Client
import NdNet.Udt.Sessions

/-!
# Datagrams from elsewhere

What a listener does to one session depends on nothing but this session: the
view of a session moves like a machine of its own, whatever happens to the
others.  A datagram that comes from elsewhere is no step of this machine, unless
it is a connect that names the session, or comes from another port of the same
IPv6 host; nothing else of a run changes when it is taken out.

A client is protected by its socket, which is connected to the server.
-/

namespace NdNet

/-- One session as the listener sees it. -/
structure SessionView where
  session : UdtSession
  /-- The session is found under its port. -/
  held : Bool
  /-- How often it is linked. -/
  linked : Nat

namespace UdtNode

open NetStat

/-- What `nd_session_close` makes of the node of a session. -/
def closeNode (node : UdtNode) (force : Bool) : UdtNode :=
  let closed := node.noteClose.closeListendSocket force
  if closed.localPort = 0 then closed
  else if closed.status.has established then closed.clearEstablished
  else closed

def updateNode (node : UdtNode) : UdtNode :=
  if node.updateUdtSession.1 = -1 then node.updateUdtSession.2.closeNode true
  else node.updateUdtSession.2

/-- `release_dead_node` -/
def releaseNode (node : UdtNode) : UdtNode :=
  if node.status.has established then node.clearEstablished.deinit
  else node.deinit

end UdtNode

namespace SessionView

open NetStat UdtListener

def setNode (view : SessionView) (node : UdtNode) : SessionView :=
  { view with session := { view.session with node := node } }

def named (view : SessionView) (localPort : UInt16) : Bool :=
  view.held && view.session.node.localPort = localPort

/-- A packet for this session, after `conn_manager.lock`. -/
def handle (view : SessionView) (addr : Nat) (moment : Moment)
    (info : UdtPacketInfo) (handled : DataHandled) : Int × SessionView :=
  let node := (view.session.node.atMoment moment addr).clearUserData
  if view.session.remoteAddr.cmp info.addr = 0 then
    let answer := node.packetHandler info.pocket
    let arrived :=
      { view.setNode answer.2 with
        linked :=
          if accepts node answer.2 then view.linked + 1 else view.linked }
    if answer.1 = -1 then (-1, arrived)
    else if answer.2.userDataIn then
      (handled.result, arrived.setNode (answer.2.takeUserData handled.taken))
    else (answer.1, arrived)
  else (0, view.setNode node)

/-- `data_handle` for this session. -/
def data (view : SessionView) (addr : Nat) (moment : Moment)
    (info : UdtPacketInfo) (handled : DataHandled) : SessionView :=
  let answer := view.handle addr moment info handled
  if answer.1 = -1 then
    answer.2.setNode (answer.2.session.node.closeNode true)
  else answer.2

def repeatSyn (view : SessionView) (addr : Nat) (moment : Moment)
    (info : UdtPacketInfo) : SessionView :=
  let answer :=
    (view.session.node.noteSyn moment addr).handleSyn info.pocket
  if answer.1 = -1 then
    if (answer.2.resetUdt false).localPort = 0 then
      view.setNode (answer.2.resetUdt false)
    else
      { view.setNode (answer.2.resetUdt false).releaseNode with held := false }
  else view.setNode answer.2

def update (view : SessionView) (addr : Nat) (moment : Moment) : SessionView :=
  view.setNode (view.session.node.atMoment moment addr).updateNode

/-- The steps of a listener, as far as they concern the session at `addr`. -/
def step (addr : Nat) (view : SessionView) : ListenerStep → SessionView
  | .pump moment info _ handled =>
    if info.pocket.udtType = .syn then
      if info.pocket.localPort = 0 then view
      else if view.named info.pocket.localPort then
        view.repeatSyn addr moment info
      else view
    else if view.named info.pocket.localPort then
      view.data addr moment info handled
    else view
  | .forward moment info handled =>
    if udtBufferSize < info.size ∨ info.pocket.localPort = 0 then view
    else if view.named info.pocket.localPort then
      (view.handle addr moment info handled).2
    else view
  | .update moment =>
    (fun view => view.update addr moment)^[view.linked] view
  | .send moment localPort data =>
    if view.named localPort then
      let answer := (view.session.node.atMoment moment addr).send data
      view.setNode
        (if 0 ≤ answer.1 then answer.2.flushSendWindow.2 else answer.2)
    else view
  | .close moment localPort force =>
    if view.named localPort then
      view.setNode
        ((view.session.node.atMoment moment addr).closeNode force)
    else view

end SessionView

namespace UdtListener

open NetStat UdtNode Runs

def view (listener : UdtListener) (addr : Nat) : SessionView :=
  { session := listener.heap addr
    held :=
      listener.lock (listener.heap addr).node.localPort = some addr
    linked := listener.sessionsList.count addr }

section Projection

variable {listener : UdtListener} {addr other : Nat} {node : UdtNode}

theorem named_view (tidy : listener.Tidy) (localPort : UInt16) :
    (listener.view addr).named localPort = true ↔
      listener.lock localPort = some addr := by
  unfold SessionView.named view
  simp only [Bool.and_eq_true, decide_eq_true_eq]
  constructor
  · rintro ⟨held, rfl⟩
    exact held
  · intro found
    have member := (tidy.manager.lock_iff _ _ _).mp found
    have port : (listener.heap addr).node.localPort = localPort :=
      UInt16.toNat_inj.mp (tidy.live _ member).2.2
    exact ⟨port ▸ found, port⟩

theorem view_setNode_other (differs : addr ≠ other) :
    (listener.setNode other node).view addr = listener.view addr := by
  have same := @heap_setNode_other listener other node addr differs
  unfold view
  rw [same]
  rfl

theorem view_setNode_self
    (port : node.localPort = (listener.heap addr).node.localPort) :
    (listener.setNode addr node).view addr =
      (listener.view addr).setNode node := by
  have session : (listener.setNode addr node).heap addr =
      { listener.heap addr with node := node } := by
    simp [setNode]
  unfold view SessionView.setNode
  rw [session]
  simp only [port]
  rfl

theorem view_connectOut_other (differs : addr ≠ other) :
    (listener.connectOut other).view addr = listener.view addr := by
  unfold connectOut
  dsimp only
  split
  · rw [view_setNode_other differs]
    rfl
  · rfl

theorem view_connectOut_self :
    (listener.connectOut addr).view addr =
      (listener.view addr).setNode
        (if (listener.heap addr).node.status.has established then
          (listener.heap addr).node.clearEstablished
        else (listener.heap addr).node) := by
  unfold connectOut
  dsimp only
  split
  · refine (view_setNode_self ?_).trans ?_
    · rfl
    · rfl
  · rfl

theorem view_closeSession_other (differs : addr ≠ other) (force : Bool) :
    (listener.closeSession other force).view addr = listener.view addr := by
  unfold closeSession
  dsimp only
  split
  · exact view_setNode_other differs
  · rw [view_connectOut_other differs]
    exact view_setNode_other differs

theorem view_closeSession_self (tidy : listener.Tidy) (force : Bool) :
    (listener.closeSession addr force).view addr =
      (listener.view addr).setNode
        ((listener.heap addr).node.closeNode force) := by
  have noted : Steady True (listener.heap addr).node
      (listener.heap addr).node.noteClose :=
    .of_linkView (noteClose_linkView _)
  have closed := noted.trans (@closeListendSocket_steady True
    (listener.heap addr).node.noteClose (tidy.passive_steady noted).1 force).1
  unfold closeSession closeNode
  dsimp only
  rw [heap_setNode_self]
  split
  · exact view_setNode_self closed.localPort
  · rw [view_connectOut_self, heap_setNode_self,
      view_setNode_self closed.localPort]
    rfl

theorem view_acceptUdt_other (differs : addr ≠ other) :
    (listener.acceptUdt other).view addr = listener.view addr := by
  have links : (listener.sessionsList ++ [other]).count addr =
      listener.sessionsList.count addr := by
    rw [List.count_append, List.count_singleton,
      if_neg (by simpa using Ne.symm differs), Nat.add_zero]
  exact congrArg (SessionView.mk _ _) links

theorem view_acceptUdt_self :
    (listener.acceptUdt addr).view addr =
      { listener.view addr with linked := (listener.view addr).linked + 1 } := by
  have links : (listener.sessionsList ++ [addr]).count addr =
      listener.sessionsList.count addr + 1 := by
    rw [List.count_append, List.count_singleton_self]
  exact congrArg (SessionView.mk _ _) links

theorem view_arrive_other (differs : addr ≠ other) (before after : UdtNode) :
    (listener.arrive other before after).view addr = listener.view addr := by
  unfold arrive
  split
  · rw [view_acceptUdt_other differs]
    exact view_setNode_other differs
  · exact view_setNode_other differs

theorem view_arrive_self (before : UdtNode)
    (port : node.localPort = (listener.heap addr).node.localPort) :
    (listener.arrive addr before node).view addr =
      { (listener.view addr).setNode node with
        linked :=
          if accepts before node then (listener.view addr).linked + 1
          else (listener.view addr).linked } := by
  unfold arrive
  split
  · rw [view_acceptUdt_self, view_setNode_self port]
    rfl
  · rw [view_setNode_self port]
    rfl

theorem view_udtSessionDataHandle_other (differs : addr ≠ other)
    (info : UdtPacketInfo) (handled : DataHandled) :
    (listener.udtSessionDataHandle other info handled).2.view addr =
      listener.view addr := by
  unfold udtSessionDataHandle
  dsimp only
  split
  · split
    · exact view_arrive_other differs _ _
    split
    · rw [view_setNode_other differs]
      exact view_arrive_other differs _ _
    · exact view_arrive_other differs _ _
  · exact view_setNode_other differs

def atMoment (listener : UdtListener) (moment : Moment) (addr : Nat) :
    UdtListener :=
  listener.setNode addr ((listener.heap addr).node.atMoment moment addr)

theorem view_udtSessionDataHandle_self (tidy : listener.Tidy) (moment : Moment)
    (info : UdtPacketInfo) (handled : DataHandled) :
    ((listener.atMoment moment addr).udtSessionDataHandle addr info
        handled).1 =
        ((listener.view addr).handle addr moment info handled).1 ∧
      ((listener.atMoment moment addr).udtSessionDataHandle addr info
        handled).2.view addr =
          ((listener.view addr).handle addr moment info handled).2 := by
  have present : Steady (((listener.heap addr).node.atMoment moment
      addr).clearUserData.status ≠ synrecv) (listener.heap addr).node
      ((listener.heap addr).node.atMoment moment addr).clearUserData :=
    .of_linkView rfl
  have port := (present.trans (packetHandler_steady
    (tidy.passive_steady present).2 info.pocket)).localPort
  have there : (listener.atMoment moment addr).heap addr =
      { listener.heap addr with
        node := (listener.heap addr).node.atMoment moment addr } := by
    simp [atMoment, setNode]
  have viewed : (listener.atMoment moment addr).view addr =
      (listener.view addr).setNode
        ((listener.heap addr).node.atMoment moment addr) :=
    view_setNode_self rfl
  have session : (listener.view addr).session = listener.heap addr := rfl
  unfold udtSessionDataHandle SessionView.handle
  rw [there, session]
  dsimp only
  have arrived := @view_arrive_self (listener.atMoment moment addr) addr
    (((listener.heap addr).node.atMoment moment
      addr).clearUserData.packetHandler info.pocket).2
    ((listener.heap addr).node.atMoment moment addr).clearUserData
    (by rw [there]; exact port)
  rw [viewed] at arrived
  split
  · split
    · exact ⟨rfl, arrived⟩
    · split
      · refine ⟨rfl, (view_setNode_self ?_).trans ?_⟩
        · rw [arrive_node]
          rfl
        · rw [arrived]
          rfl
      · exact ⟨rfl, arrived⟩
  · refine ⟨rfl, (view_setNode_self ?_).trans ?_⟩
    · rw [there]
      rfl
    · rw [viewed]
      rfl

theorem view_connManager {conns : NodeMgr Nat}
    (before : listener.connManager.Keeps) (keeps : conns.Keeps)
    (freed : List Nat) (same : ∀ entry : LiveNode Nat, entry.addr = addr →
      (entry ∈ conns.live ↔ entry ∈ listener.connManager.live)) :
    view
      { listener with connManager := conns, freed := freed } addr =
        listener.view addr := by
  have held : (conns.root.lock listener.thid
      (listener.heap addr).node.localPort.toNat = some addr) ↔
        listener.lock (listener.heap addr).node.localPort = some addr :=
    (keeps.lock_iff _ _ _).trans
      ((same _ rfl).trans (before.lock_iff _ _ _).symm)
  exact congrArg (fun held => SessionView.mk _ held _)
    (decide_eq_decide.mpr held)

theorem Tidy.mem_deaccept (tidy : listener.Tidy) {entry other : LiveNode Nat}
    (known : entry ∈ listener.connManager.live) :
    other ∈ (listener.connManager.nodeStep (.deaccept entry.id)).live ↔
      other ∈ listener.connManager.live ∧ other.addr ≠ entry.addr := by
  constructor
  · intro member
    obtain ⟨member, differs⟩ := List.mem_filter.mp member
    exact ⟨member, tidy.addr_ne known member (of_decide_eq_true differs)⟩
  · rintro ⟨member, differs⟩
    refine List.mem_filter.mpr ⟨member, decide_eq_true ?_⟩
    intro equal
    have single := List.inj_on_of_nodup_map tidy.manager.distinct member known
      equal
    exact differs (congrArg LiveNode.addr single)

theorem view_releaseDeadNode_other (tidy : listener.Tidy) {entry : LiveNode Nat}
    (known : entry ∈ listener.connManager.live) (differs : addr ≠ entry.addr) :
    (listener.releaseDeadNode entry.addr).view addr = listener.view addr := by
  have number := (tidy.live entry known).2.2
  have conns := (@connectOut_frame listener entry.addr).1
  have keeps := NodeMgr.deaccept_keeps tidy.manager ⟨entry, known, rfl⟩
  unfold releaseDeadNode
  dsimp only
  split
  · rfl
  rw [view_setNode_other differs, number,
    ← @view_connectOut_other listener addr entry.addr differs]
  refine view_connManager (conns ▸ tidy.manager) (conns ▸ keeps) _ ?_
  intro other same
  rw [conns, tidy.mem_deaccept known, same]
  exact and_iff_left differs

theorem view_unheld {conns : NodeMgr Nat} (keeps : conns.Keeps)
    (freed : List Nat) (none : ∀ entry ∈ conns.live, entry.addr ≠ addr) :
    view
      { listener with connManager := conns, freed := freed } addr =
        { listener.view addr with held := false } := by
  have lost : ¬ conns.root.lock listener.thid
      (listener.heap addr).node.localPort.toNat = some addr :=
    fun found => none _ ((keeps.lock_iff _ _ _).mp found) rfl
  exact congrArg (fun held => SessionView.mk _ held _)
    (decide_eq_false lost)

section

variable (tidy : listener.Tidy)
include tidy

theorem view_releaseDeadNode_self {entry : LiveNode Nat}
    (known : entry ∈ listener.connManager.live) :
    (listener.releaseDeadNode entry.addr).view entry.addr =
      if (listener.heap entry.addr).node.localPort = 0 then
        listener.view entry.addr
      else
        { (listener.view entry.addr).setNode
            (listener.heap entry.addr).node.releaseNode with
          held := false } := by
  have number := (tidy.live entry known).2.2
  have conns := (@connectOut_frame listener entry.addr).1
  have keeps := NodeMgr.deaccept_keeps tidy.manager ⟨entry, known, rfl⟩
  have told := @view_connectOut_self listener entry.addr
  have node : ((listener.connectOut entry.addr).heap entry.addr).node.deinit =
      (listener.heap entry.addr).node.releaseNode := by
    have session := congrArg (fun view => view.session.node.deinit) told
    refine session.trans ?_
    unfold releaseNode SessionView.setNode
    split <;> rfl
  unfold releaseDeadNode
  dsimp only
  split
  · rfl
  refine (view_setNode_self ?_).trans ?_
  · rfl
  rw [number, node, view_unheld (conns ▸ keeps), told]
  · rfl
  · intro other member
    rw [conns] at member
    exact ((tidy.mem_deaccept known).mp member).2

variable (moment : Moment)

theorem view_acceptSyn (info : UdtPacketInfo)
    (differs : addr ≠ listener.allocated) :
    (listener.acceptSyn moment info).2.view addr = listener.view addr := by
  rcases tidy.acceptSyn_cases moment info with
    full | ⟨conns, session, nodeId, new, keeps, grown, -⟩
  · rw [full]
    rfl
  have kept := @view_connManager listener addr conns tidy.manager keeps
    listener.freed (by
      intro entry same
      rw [grown, List.mem_append, List.mem_singleton]
      constructor
      · rintro (there | rfl)
        · exact there
        · exact absurd same.symm differs
      · exact .inl)
  rw [new, ← kept]
  unfold view lock
  simp only [if_neg differs]

theorem view_repeatSyn_other (info : UdtPacketInfo)
    (known : ∃ entry ∈ listener.connManager.live, entry.addr = other)
    (differs : addr ≠ other) :
    (listener.repeatSyn moment info other).2.view addr =
      listener.view addr := by
  have answered := @Tidy.repeatSyn_steady listener other tidy moment
    info.pocket
  have reset := answered.trans
    (resetUdt_steady (tidy.passive_steady answered).1 false)
  have kept := tidy.setNode known reset
  obtain ⟨entry, member, rfl⟩ := known
  unfold repeatSyn
  dsimp only
  split
  · rw [view_releaseDeadNode_other kept member differs]
    exact view_setNode_other differs
  · exact view_setNode_other differs

theorem view_repeatSyn_self (info : UdtPacketInfo)
    (known : ∃ entry ∈ listener.connManager.live, entry.addr = addr) :
    (listener.repeatSyn moment info addr).2.view addr =
      (listener.view addr).repeatSyn addr moment info := by
  have answered := @Tidy.repeatSyn_steady listener addr tidy moment
    info.pocket
  have reset := answered.trans
    (resetUdt_steady (tidy.passive_steady answered).1 false)
  have kept := tidy.setNode known reset
  obtain ⟨entry, member, rfl⟩ := known
  have session : (listener.view entry.addr).session =
      listener.heap entry.addr := rfl
  unfold repeatSyn SessionView.repeatSyn
  dsimp only
  rw [session]
  split
  · rw [view_releaseDeadNode_self kept member, heap_setNode_self,
      view_setNode_self reset.localPort]
    rfl
  · exact view_setNode_self answered.localPort

theorem view_updateClient_other (linked : other ∈ listener.sessionsList)
    (differs : addr ≠ other) :
    (listener.updateClient moment other).view addr = listener.view addr := by
  unfold updateClient
  rw [if_neg (tidy.not_isReset linked moment)]
  split
  · rw [view_closeSession_other differs]
    exact view_setNode_other differs
  · exact view_setNode_other differs

theorem view_updateClient_self (linked : addr ∈ listener.sessionsList) :
    (listener.updateClient moment addr).view addr =
      (listener.view addr).update addr moment := by
  have present : Steady True (listener.heap addr).node
      ((listener.heap addr).node.atMoment moment addr) :=
    .of_linkView rfl
  have steady := present.trans
    (updateUdtSession_steady (tidy.passive_steady present).1)
  have updated := tidy.set_linked linked moment
  have session : (listener.view addr).session = listener.heap addr := rfl
  unfold updateClient SessionView.update updateNode
  rw [if_neg (tidy.not_isReset linked moment), session]
  split
  · rw [view_closeSession_self updated, heap_setNode_self,
      view_setNode_self steady.localPort]
    rfl
  · exact view_setNode_self steady.localPort

end

theorem view_updateRounds (moment : Moment) {clients : List Nat}
    (tidy : listener.Tidy)
    (linked : ∀ client ∈ clients, client ∈ listener.sessionsList) :
    (clients.foldl (updateClient moment) listener).view addr =
      (fun view => view.update addr moment)^[clients.count addr]
        (listener.view addr) := by
  induction clients generalizing listener with
  | nil => rfl
  | cons client clients induction =>
    obtain ⟨first, later⟩ := List.forall_mem_cons.mp linked
    obtain ⟨kept, list, -⟩ := tidy.updateClient first moment
    rw [List.foldl_cons, induction kept (by rw [list]; exact later)]
    by_cases same : client = addr
    · subst same
      rw [List.count_cons_self, Function.iterate_succ_apply,
        view_updateClient_self tidy moment first]
    · rw [List.count_cons_of_ne same,
        view_updateClient_other tidy moment first (Ne.symm same)]

variable (tidy : listener.Tidy)
include tidy

theorem named_eq_false {localPort : UInt16}
    (elsewhere : ∀ found, listener.lock localPort = some found → addr ≠ found) :
    ¬ (listener.view addr).named localPort = true := by
  intro named
  exact elsewhere addr ((named_view tidy localPort).mp named) rfl

theorem view_dataHandle (moment : Moment) (info : UdtPacketInfo)
    (handled : DataHandled) :
    (listener.dataHandle moment info handled).2.view addr =
      if (listener.view addr).named info.pocket.localPort then
        (listener.view addr).data addr moment info handled
      else listener.view addr := by
  unfold dataHandle
  cases found : listener.lock info.pocket.localPort with
  | none =>
    rw [if_neg (named_eq_false tidy (by simp [found]))]
  | some other =>
    by_cases same : addr = other
    · subst same
      rw [if_pos ((named_view tidy _).mpr found)]
      obtain ⟨result, viewed⟩ := @view_udtSessionDataHandle_self listener addr
        tidy moment info handled
      have served := (tidy.atMoment found moment).udtSessionDataHandle
        (tidy.lock_live found) info handled
      unfold atMoment at result viewed
      unfold SessionView.data
      dsimp only
      rw [← result, ← viewed]
      split
      · exact view_closeSession_self served true
      · rfl
    · rw [if_neg (named_eq_false tidy (by simp [found, same]))]
      have handled_other := @view_udtSessionDataHandle_other
        (listener.atMoment moment other) addr other same info handled
      have moved : (listener.atMoment moment other).view addr =
          listener.view addr := view_setNode_other same
      rw [moved] at handled_other
      dsimp only
      split
      · exact (view_closeSession_other same true).trans handled_other
      · exact handled_other

theorem view_pumpInsrvUdtData (old : addr < listener.allocated)
    (moment : Moment) (info : UdtPacketInfo) (memory : Bool)
    (handled : DataHandled) :
    (listener.pumpInsrvUdtData moment info memory handled).2.view addr =
      (listener.view addr).step addr (.pump moment info memory handled) := by
  have data := @view_dataHandle listener addr tidy moment info handled
  dsimp only [SessionView.step]
  unfold pumpInsrvUdtData
  split
  · split
    · split
      · exact view_acceptSyn tidy moment info (Nat.ne_of_lt old)
      · rfl
    cases found : listener.lock info.pocket.localPort with
    | none =>
      rw [if_neg (named_eq_false tidy (by simp [found]))] at data ⊢
      exact data
    | some other =>
      by_cases same : addr = other
      · subst same
        rw [if_pos ((named_view tidy _).mpr found)]
        exact view_repeatSyn_self tidy moment info (tidy.lock_live found)
      · rw [if_neg (named_eq_false tidy (by simp [found, same]))]
        exact view_repeatSyn_other tidy moment info (tidy.lock_live found)
          same
  · exact data

theorem view_msgUdtPackateHandler (moment : Moment) (info : UdtPacketInfo)
    (handled : DataHandled) :
    (listener.msgUdtPackateHandler moment info handled).view addr =
      (listener.view addr).step addr (.forward moment info handled) := by
  dsimp only [SessionView.step]
  unfold msgUdtPackateHandler
  split
  · rfl
  cases found : listener.lock info.pocket.localPort with
  | none => rw [if_neg (named_eq_false tidy (by simp [found]))]
  | some other =>
    by_cases same : addr = other
    · subst same
      rw [if_pos ((named_view tidy _).mpr found)]
      exact (view_udtSessionDataHandle_self tidy moment info handled).2
    · rw [if_neg (named_eq_false tidy (by simp [found, same]))]
      exact (view_udtSessionDataHandle_other same info handled).trans
        (view_setNode_other same)

theorem view_sendSession (moment : Moment) (localPort : UInt16)
    (data : List Byte) :
    (listener.sendSession moment localPort data).view addr =
      (listener.view addr).step addr (.send moment localPort data) := by
  dsimp only [SessionView.step]
  unfold sendSession
  cases found : listener.lock localPort with
  | none => rw [if_neg (named_eq_false tidy (by simp [found]))]
  | some other =>
    by_cases same : addr = other
    · subst same
      rw [if_pos ((named_view tidy _).mpr found)]
      exact view_setNode_self
        (congrArg LinkView.localPort (sendSession_linkView moment data))
    · rw [if_neg (named_eq_false tidy (by simp [found, same]))]
      exact view_setNode_other same

theorem view_closeSessionId (moment : Moment) (localPort : UInt16)
    (force : Bool) :
    (listener.closeSessionId moment localPort force).view addr =
      (listener.view addr).step addr (.close moment localPort force) := by
  dsimp only [SessionView.step]
  unfold closeSessionId
  cases found : listener.lock localPort with
  | none => rw [if_neg (named_eq_false tidy (by simp [found]))]
  | some other =>
    by_cases same : addr = other
    · subst same
      rw [if_pos ((named_view tidy _).mpr found)]
      have present : (listener.atMoment moment addr).view addr =
          (listener.view addr).setNode
            ((listener.heap addr).node.atMoment moment addr) :=
        view_setNode_self rfl
      unfold atMoment at present
      dsimp only
      rw [view_closeSession_self (tidy.atMoment found moment),
        heap_setNode_self, present]
      rfl
    · rw [if_neg (named_eq_false tidy (by simp [found, same]))]
      exact (view_closeSession_other same force).trans
        (view_setNode_other same)

theorem step_view (old : addr < listener.allocated) (step : ListenerStep) :
    (listener.step step).view addr =
      (listener.view addr).step addr step := by
  cases step with
  | pump moment info memory handled =>
    exact view_pumpInsrvUdtData tidy old moment info memory handled
  | forward moment info handled =>
    exact view_msgUdtPackateHandler tidy moment info handled
  | update moment => exact view_updateRounds moment tidy fun _ member => member
  | send moment localPort data =>
    exact view_sendSession tidy moment localPort data
  | close moment localPort force =>
    exact view_closeSessionId tidy moment localPort force

end Projection

end UdtListener

end NdNet

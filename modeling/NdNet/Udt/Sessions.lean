import NdNet.Udt.Status

/-!
# The sessions of a listener

`Tidy` holds in every state of every run: the ids of the manager and the ports
of the sessions agree, nothing that was released is found under an id, and the
status of a linked session is never `NETSTAT_RESET` alone.
-/

namespace NdNet.UdtListener

open NetStat UdtNode

def Opened (status : NetStat) : Prop :=
  status.has established = true ∨ status.has finsend = true

structure Tidy (listener : UdtListener) : Prop where
  manager : listener.connManager.Keeps
  live : ∀ node ∈ listener.connManager.live,
    node.addr < listener.allocated ∧ node.addr ∉ listener.freed ∧
      (listener.heap node.addr).node.localPort.toNat = node.id
  freed : ∀ addr ∈ listener.freed, addr < listener.allocated
  passive : ∀ addr, (listener.heap addr).node.isAccept = true ∧
    (listener.heap addr).node.status.has synsend = false
  /-- A session that was released while it was linked is closed, until the
  next update pass finds it. -/
  linked : ∀ addr ∈ listener.sessionsList, addr < listener.allocated ∧
    (Opened (listener.heap addr).node.status ∨
      addr ∈ listener.freed ∧ (listener.heap addr).node.status = closed)

section Opened

variable {status : NetStat}

theorem Opened.ne {other : NetStat} (opened : Opened status)
    (early : other.has established = false ∧ other.has finsend = false) :
    status ≠ other := by
  rintro rfl
  rcases opened with live | closing
  · exact Bool.false_ne_true (early.1.symm.trans live)
  · exact Bool.false_ne_true (early.2.symm.trans closing)

theorem Opened.not_lt (opened : Opened status) : ¬ status < accept := by
  intro early
  have small : status.toNat < 8 := early
  have none : ∀ value : Fin 8,
      has (BitVec.ofNat 16 value.val) established = false ∧
        has (BitVec.ofNat 16 value.val) finsend = false := by
    decide
  refine opened.ne (none ⟨status.toNat, small⟩) ?_
  simp

theorem Opened.steady {before after : UdtNode} (opened : Opened before.status)
    (steady : Steady True before after) : Opened after.status := by
  rcases opened with live | closing
  · exact .inl ((steady.established trivial).trans live)
  · exact .inr (steady.finsend closing)

end Opened

section Frames

variable {listener : UdtListener} {addr : Nat} {node : UdtNode}

@[simp] theorem heap_setNode_self :
    ((listener.setNode addr node).heap addr).node = node := by
  simp [setNode]

theorem heap_setNode_other {other : Nat} (differs : other ≠ addr) :
    (listener.setNode addr node).heap other = listener.heap other := by
  simp [setNode, differs]

@[simp] theorem setNode_connManager :
    (listener.setNode addr node).connManager = listener.connManager :=
  rfl

@[simp] theorem setNode_sessionsList :
    (listener.setNode addr node).sessionsList = listener.sessionsList :=
  rfl

theorem has_clearEstablished (flag : NetStat)
    (apart : ~~~established &&& flag = flag) :
    node.clearEstablished.status.has flag = node.status.has flag := by
  unfold clearEstablished has
  rw [BitVec.and_assoc, apart]

theorem clearEstablished_established :
    node.clearEstablished.status.has established = false := by
  have none : ~~~established &&& established = 0#16 := by decide
  unfold clearEstablished has
  rw [BitVec.and_assoc, none, BitVec.and_zero]
  rfl

theorem connectOut_frame :
    (listener.connectOut addr).connManager = listener.connManager ∧
      (listener.connectOut addr).sessionsList = listener.sessionsList ∧
        (listener.connectOut addr).freed = listener.freed := by
  unfold connectOut
  dsimp only
  split <;> exact ⟨rfl, rfl, rfl⟩

theorem closeSession_frame (force : Bool) :
    (listener.closeSession addr force).connManager = listener.connManager ∧
      (listener.closeSession addr force).sessionsList =
        listener.sessionsList := by
  unfold closeSession
  dsimp only
  split
  · exact ⟨rfl, rfl⟩
  · exact ⟨connectOut_frame.1, connectOut_frame.2.1⟩

theorem releaseDeadNode_frame (port : (listener.heap addr).node.localPort ≠ 0) :
    addr ∈ (listener.releaseDeadNode addr).freed ∧
      (listener.releaseDeadNode addr).sessionsList = listener.sessionsList := by
  obtain ⟨-, list, -⟩ := @connectOut_frame listener addr
  unfold releaseDeadNode
  rw [if_neg port]
  exact ⟨List.mem_append_right _ (List.mem_singleton_self _), list⟩

theorem arrive_node (before after : UdtNode) :
    ((listener.arrive addr before after).heap addr).node = after := by
  unfold arrive
  split <;> exact heap_setNode_self

theorem arrive_connManager (before after : UdtNode) :
    (listener.arrive addr before after).connManager =
      listener.connManager := by
  unfold arrive
  split <;> rfl

end Frames

section Tidy

variable {listener : UdtListener} {addr : Nat} {node : UdtNode}

section

variable (tidy : listener.Tidy)
include tidy

theorem Tidy.passive_steady {calm : Prop}
    (steady : Steady calm (listener.heap addr).node node) :
    node.isAccept = true ∧ node.status.has synsend = false :=
  ⟨steady.isAccept.trans (tidy.passive addr).1,
    steady.synsend.trans (tidy.passive addr).2⟩

theorem Tidy.live_setNode
    (port : node.localPort = (listener.heap addr).node.localPort) :
    ∀ entry ∈ listener.connManager.live,
      entry.addr < listener.allocated ∧ entry.addr ∉ listener.freed ∧
        ((listener.setNode addr node).heap entry.addr).node.localPort.toNat =
          entry.id := by
  intro entry member
  obtain ⟨old, kept, number⟩ := tidy.live entry member
  refine ⟨old, kept, ?_⟩
  by_cases same : entry.addr = addr
  · rw [same, heap_setNode_self, port, ← same]
    exact number
  · rw [heap_setNode_other same]
    exact number

theorem Tidy.passive_setNode
    (passive : node.isAccept = true ∧ node.status.has synsend = false)
    (other : Nat) :
    ((listener.setNode addr node).heap other).node.isAccept = true ∧
      ((listener.setNode addr node).heap other).node.status.has synsend =
        false := by
  by_cases same : other = addr
  · subst same
    rw [heap_setNode_self]
    exact passive
  · rw [heap_setNode_other same]
    exact tidy.passive other

theorem Tidy.set {calm : Prop}
    (steady : Steady calm (listener.heap addr).node node)
    (linked : addr ∈ listener.sessionsList → Opened node.status ∨
      addr ∈ listener.freed ∧ node.status = closed) :
    (listener.setNode addr node).Tidy where
  manager := tidy.manager
  live := tidy.live_setNode steady.localPort
  freed := tidy.freed
  passive := tidy.passive_setNode (tidy.passive_steady steady)
  linked := by
    intro other member
    obtain ⟨old, status⟩ := tidy.linked other member
    refine ⟨old, ?_⟩
    by_cases same : other = addr
    · subst same
      rw [heap_setNode_self]
      exact linked member
    · rw [heap_setNode_other same]
      exact status

section

variable (known : ∃ entry ∈ listener.connManager.live, entry.addr = addr)
include known

theorem Tidy.opened (linked : addr ∈ listener.sessionsList) :
    Opened (listener.heap addr).node.status := by
  obtain ⟨entry, member, rfl⟩ := known
  rcases (tidy.linked _ linked).2 with opened | ⟨gone, -⟩
  · exact opened
  · exact absurd gone (tidy.live entry member).2.1

theorem Tidy.setNode (steady : Steady True (listener.heap addr).node node) :
    (listener.setNode addr node).Tidy :=
  tidy.set steady fun linked => .inl ((tidy.opened known linked).steady steady)

theorem Tidy.accept {calm : Prop}
    (steady : Steady calm (listener.heap addr).node node)
    (live : node.status.has established = true) :
    ((listener.setNode addr node).acceptUdt addr).Tidy := by
  have before := tidy.set steady (fun _ => .inl (.inl live))
  constructor
  case manager => exact before.manager
  case live => exact before.live
  case freed => exact before.freed
  case passive => exact before.passive
  case linked =>
    intro other member
    rcases List.mem_append.mp member with old | new
    · exact before.linked other old
    · obtain ⟨entry, present, rfl⟩ := known
      rw [List.mem_singleton.mp new]
      refine ⟨(tidy.live entry present).1, .inl (.inl ?_)⟩
      change ((listener.setNode entry.addr node).heap
        entry.addr).node.status.has established = true
      rw [heap_setNode_self]
      exact live

end

theorem Tidy.connectOut
    (closing : (listener.heap addr).node.status.has finsend = true) :
    (listener.connectOut addr).Tidy := by
  unfold UdtListener.connectOut
  dsimp only
  split
  · have steady : Steady False (listener.heap addr).node
        (listener.heap addr).node.clearEstablished :=
      { localPort := rfl
        isAccept := rfl
        synsend := has_clearEstablished _ (by decide)
        finsend := fun before =>
          (has_clearEstablished _ (by decide)).trans before
        established := False.elim }
    have opened : Opened (listener.heap addr).node.clearEstablished.status :=
      .inr ((has_clearEstablished _ (by decide)).trans closing)
    have set := tidy.set steady (fun _ => .inl opened)
    exact ⟨set.manager, set.live, set.freed, set.passive, set.linked⟩
  · exact tidy

theorem Tidy.closeSession (force : Bool) :
    (listener.closeSession addr force).Tidy := by
  have noted : Steady True (listener.heap addr).node
      (listener.heap addr).node.noteClose :=
    .of_linkView (noteClose_linkView _)
  obtain ⟨closed, finished⟩ :=
    @closeListendSocket_steady True (listener.heap addr).node.noteClose
      (tidy.passive_steady noted).1 force
  have kept := tidy.set (noted.trans closed) (fun _ => .inl (.inr finished))
  unfold UdtListener.closeSession
  dsimp only
  split
  · exact kept
  · refine kept.connectOut ?_
    rw [heap_setNode_self]
    exact finished

theorem Tidy.addr_ne {entry other : LiveNode Nat}
    (known : entry ∈ listener.connManager.live)
    (member : other ∈ listener.connManager.live) (differs : other.id ≠ entry.id) :
    other.addr ≠ entry.addr := by
  intro same
  apply differs
  rw [← (tidy.live other member).2.2, same]
  exact (tidy.live entry known).2.2

/-- A released session keeps its place on the heap; it may still be linked. -/
theorem Tidy.release {entry : LiveNode Nat}
    (known : entry ∈ listener.connManager.live)
    (passive : node.isAccept = true ∧ node.status.has synsend = false)
    (gone : node.status = closed) :
    Tidy (UdtListener.setNode
      { listener with
        connManager := listener.connManager.nodeStep (.deaccept entry.id)
        freed := listener.freed ++ [entry.addr] } entry.addr node) := by
  constructor
  case manager =>
    exact NodeMgr.deaccept_keeps tidy.manager ⟨entry, known, rfl⟩
  case live =>
    intro other member
    obtain ⟨member, differs⟩ := List.mem_filter.mp member
    have elsewhere := tidy.addr_ne known member (of_decide_eq_true differs)
    obtain ⟨young, present, port⟩ := tidy.live other member
    refine ⟨young, ?_, ?_⟩
    · intro gone
      rcases List.mem_append.mp gone with before | now
      · exact present before
      · exact elsewhere (List.mem_singleton.mp now)
    · rw [heap_setNode_other elsewhere]
      exact port
  case freed =>
    intro other gone
    rcases List.mem_append.mp gone with before | now
    · exact tidy.freed other before
    · rw [List.mem_singleton.mp now]
      exact (tidy.live entry known).1
  case passive => exact tidy.passive_setNode passive
  case linked =>
    intro other member
    obtain ⟨old, status⟩ := tidy.linked other member
    refine ⟨old, ?_⟩
    by_cases same : other = entry.addr
    · subst same
      rw [heap_setNode_self]
      exact .inr ⟨List.mem_append_right _ (List.mem_singleton_self _), gone⟩
    · rw [heap_setNode_other same]
      rcases status with opened | ⟨before, still⟩
      · exact .inl opened
      · exact .inr ⟨List.mem_append_left _ before, still⟩

theorem Tidy.releaseDeadNode {entry : LiveNode Nat}
    (known : entry ∈ listener.connManager.live)
    (closing : (listener.heap entry.addr).node.status.has finsend = true) :
    (listener.releaseDeadNode entry.addr).Tidy := by
  have told := tidy.connectOut closing
  have number := (tidy.live entry known).2.2
  unfold UdtListener.releaseDeadNode
  dsimp only
  split
  · exact tidy
  · rw [number]
    refine told.release ?_ ?_ rfl
    · rw [connectOut_frame.1]
      exact known
    · exact ⟨(told.passive entry.addr).1, has_closed _⟩

theorem Tidy.lock_live {localPort : UInt16}
    (found : listener.lock localPort = some addr) :
    ∃ entry ∈ listener.connManager.live, entry.addr = addr := by
  have member := (tidy.manager.lock_iff _ _ _).mp found
  exact ⟨_, member, rfl⟩

theorem Tidy.allocate {conns : NodeMgr Nat} (keeps : conns.Keeps)
    {session : UdtSession}
    (passive : session.node.isAccept = true ∧
      session.node.status.has synsend = false)
    (grown : ∀ entry ∈ conns.live, entry ∈ listener.connManager.live ∨
      entry.addr = listener.allocated ∧
        session.node.localPort.toNat = entry.id) :
    Tidy { listener with
      allocated := listener.allocated + 1
      connManager := conns
      heap := fun other =>
        if other = listener.allocated then session
        else listener.heap other } := by
  constructor
  case manager => exact keeps
  case live =>
    intro entry member
    rcases grown entry member with old | ⟨new, port⟩
    · obtain ⟨young, kept, port⟩ := tidy.live entry old
      refine ⟨Nat.lt_succ_of_lt young, kept, ?_⟩
      simp only [if_neg (Nat.ne_of_lt young)]
      exact port
    · refine ⟨new ▸ Nat.lt_succ_self _, ?_, ?_⟩
      · intro gone
        rw [new] at gone
        exact Nat.lt_irrefl _ (tidy.freed _ gone)
      · simp only [if_pos new]
        exact port
  case freed =>
    intro other gone
    exact Nat.lt_succ_of_lt (tidy.freed other gone)
  case passive =>
    intro other
    dsimp only
    split
    · exact passive
    · exact tidy.passive other
  case linked =>
    intro other member
    obtain ⟨old, status⟩ := tidy.linked other member
    refine ⟨Nat.lt_succ_of_lt old, ?_⟩
    simp only [if_neg (Nat.ne_of_lt old)]
    exact status

/-- The answer to a connect: either no id is free and only memory is lost, or a
new session waits for the last packet of the handshake. -/
theorem Tidy.acceptSyn_cases (moment : Moment) (info : UdtPacketInfo) :
    (listener.acceptSyn moment info).2 =
        { listener with allocated := listener.allocated + 1 } ∨
      ∃ conns : NodeMgr Nat, ∃ session : UdtSession, ∃ nodeId : Nat,
        (listener.acceptSyn moment info).2 =
          { listener with
            allocated := listener.allocated + 1
            connManager := conns
            heap := fun other =>
              if other = listener.allocated then session
              else listener.heap other } ∧
        conns.Keeps ∧
        conns.live = listener.connManager.live ++
          [⟨nodeId, listener.allocated, listener.thid⟩] ∧
        session.node.localPort.toNat = nodeId ∧
        session.node.isAccept = true ∧
        session.node.status.has synsend = false ∧
        session.node.status.has established = false := by
  have keeps := NodeMgr.accept_keeps tidy.manager listener.thid
    listener.allocated
  unfold acceptSyn
  dsimp only
  rcases tidy.manager.accept_cases listener.thid listener.allocated with
    ⟨index, inside, free, answer⟩ | ⟨-, answer⟩
  · right
    have positive := tidy.manager.base_pos
    have fits := tidy.manager.ids_fit
    have number : (listener.connManager.root.accept listener.thid
        listener.allocated).1 = listener.connManager.root.baseId + index := by
      rw [answer]
    rw [number, if_neg (by omega)]
    have waits : listen.has synsend = false := by decide
    have early : listen.has established = false := by decide
    -- The node has a port and waits for the connect that it is now given.
    have answered := @handleSyn_steady True
      { (UdtNode.allocListen listener.fd).noteSyn moment
          listener.allocated with
        localPort :=
          UInt16.ofNat (listener.connManager.root.baseId + index) }
      waits info.pocket
    have port : (UInt16.ofNat
        (listener.connManager.root.baseId + index)).toNat =
          listener.connManager.root.baseId + index := by
      exact Nat.mod_eq_of_lt (by omega)
    have grown : (listener.connManager.nodeStep
        (.accept listener.thid listener.allocated)).live =
          listener.connManager.live ++
            [⟨listener.connManager.root.baseId + index, listener.allocated,
              listener.thid⟩] := by
      unfold NodeMgr.nodeStep
      dsimp only
      rw [number, if_neg (by omega)]
    exact ⟨_, _, _, rfl, keeps, grown,
      (congrArg UInt16.toNat answered.localPort).trans port,
      answered.isAccept, answered.synsend.trans waits,
      (answered.established trivial).trans early⟩
  · left
    have none : (listener.connManager.root.accept listener.thid
        listener.allocated).1 = 0 := by
      rw [answer]
    have same : listener.connManager.nodeStep
        (.accept listener.thid listener.allocated) = listener.connManager := by
      unfold NodeMgr.nodeStep
      dsimp only
      rw [answer, if_pos rfl]
    rw [none, if_pos rfl, same]

theorem Tidy.acceptSyn (moment : Moment)
    (info : UdtPacketInfo) : (listener.acceptSyn moment info).2.Tidy := by
  rcases tidy.acceptSyn_cases moment info with
    full | ⟨conns, session, nodeId, new, keeps, grown, port, accepted, passive,
      -⟩
  · rw [full]
    constructor
    case manager => exact tidy.manager
    case live =>
      intro entry member
      obtain ⟨young, rest⟩ := tidy.live entry member
      exact ⟨Nat.lt_succ_of_lt young, rest⟩
    case freed =>
      intro other gone
      exact Nat.lt_succ_of_lt (tidy.freed other gone)
    case passive => exact tidy.passive
    case linked =>
      intro other member
      obtain ⟨old, status⟩ := tidy.linked other member
      exact ⟨Nat.lt_succ_of_lt old, status⟩
  · rw [new]
    refine tidy.allocate keeps ⟨accepted, passive⟩ ?_
    intro entry member
    rw [grown, List.mem_append, List.mem_singleton] at member
    rcases member with old | rfl
    · exact .inl old
    · exact .inr ⟨rfl, port⟩

theorem Tidy.repeatSyn_steady (moment : Moment) (pocket : UdtPocket) :
    Steady True (listener.heap addr).node
      (((listener.heap addr).node.noteSyn moment addr).handleSyn pocket).2 := by
  have present : Steady True (listener.heap addr).node
      ((listener.heap addr).node.noteSyn moment addr) :=
    .of_linkView rfl
  exact present.trans
    (handleSyn_steady (tidy.passive_steady present).2 pocket)

theorem Tidy.repeatSyn (moment : Moment) (info : UdtPacketInfo)
    (known : ∃ entry ∈ listener.connManager.live, entry.addr = addr) :
    (listener.repeatSyn moment info addr).2.Tidy := by
  have answered := @Tidy.repeatSyn_steady listener addr tidy moment info.pocket
  obtain ⟨entry, member, rfl⟩ := known
  unfold repeatSyn
  dsimp only
  split
  · have accepted := (tidy.passive_steady answered).1
    have reset := answered.trans (resetUdt_steady accepted false)
    refine (tidy.setNode ⟨entry, member, rfl⟩ reset).releaseDeadNode member ?_
    rw [heap_setNode_self, (resetUdt_status accepted false).2.2, has_or]
    exact Bool.or_true _
  · exact tidy.setNode ⟨entry, member, rfl⟩ answered

section

variable (known : ∃ entry ∈ listener.connManager.live, entry.addr = addr)
include known

theorem Tidy.arrive (same : node.linkView = (listener.heap addr).node.linkView)
    (pocket : UdtPocket) :
    accepts node (node.packetHandler pocket).2 = true ∧
        addr ∉ listener.sessionsList ∧
        Steady False (listener.heap addr).node (node.packetHandler pocket).2 ∧
        (node.packetHandler pocket).2.status.has established = true ∨
      accepts node (node.packetHandler pocket).2 = false ∧
        Steady True (listener.heap addr).node
          (node.packetHandler pocket).2 := by
  have before : Steady (node.status ≠ synrecv) (listener.heap addr).node node :=
    .of_linkView same
  have status : node.status = (listener.heap addr).node.status :=
    congrArg LinkView.status same
  have handled := before.trans
    (packetHandler_steady (tidy.passive_steady before).2 pocket)
  cases ends : accepts node (node.packetHandler pocket).2 with
  | true =>
    obtain ⟨waits, established⟩ := Bool.and_eq_true_iff.mp ends
    have waits : node.status = synrecv := of_decide_eq_true waits
    refine .inl ⟨rfl, ?_, { handled with established := False.elim },
      established⟩
    intro linked
    exact (tidy.opened known linked).ne (by decide)
      (status.symm.trans waits)
  | false =>
    refine .inr ⟨rfl, { handled with established := fun _ => ?_ }⟩
    by_cases waits : node.status = synrecv
    · have early : (listener.heap addr).node.status.has established =
          false := by
        rw [← status, waits]
        decide
      rw [accepts, waits, decide_eq_true rfl, Bool.true_and] at ends
      exact ends.trans early.symm
    · exact handled.established waits

theorem Tidy.arrive_packet
    (same : node.linkView = (listener.heap addr).node.linkView)
    (pocket : UdtPocket) :
    (listener.arrive addr node (node.packetHandler pocket).2).Tidy := by
  unfold UdtListener.arrive
  rcases tidy.arrive known same pocket with
    ⟨ends, -, steady, live⟩ | ⟨ends, steady⟩
  · rw [ends]
    exact tidy.accept known steady live
  · rw [ends]
    exact tidy.setNode known steady

theorem Tidy.udtSessionDataHandle (info : UdtPacketInfo) (handled : DataHandled)
    :
    (listener.udtSessionDataHandle addr info handled).2.Tidy := by
  have arrived := tidy.arrive_packet known
    (clearUserData_linkView (listener.heap addr).node) info.pocket
  unfold UdtListener.udtSessionDataHandle
  dsimp only
  split
  · split
    · exact arrived
    split
    · refine arrived.setNode ?_ (.of_linkView ?_)
      · rw [arrive_connManager]
        exact known
      · rw [arrive_node]
        rfl
    · exact arrived
  · exact tidy.setNode known (.of_linkView rfl)

end

theorem Tidy.atMoment {localPort : UInt16}
    (found : listener.lock localPort = some addr) (moment : Moment) :
    (listener.setNode addr
      ((listener.heap addr).node.atMoment moment addr)).Tidy :=
  tidy.setNode (tidy.lock_live found) (.of_linkView rfl)

theorem Tidy.dataHandle (moment : Moment) (info : UdtPacketInfo)
    (handled : DataHandled) :
    (listener.dataHandle moment info handled).2.Tidy := by
  unfold UdtListener.dataHandle
  split
  · exact tidy
  · rename_i addr found
    have served := (tidy.atMoment found moment).udtSessionDataHandle
      (tidy.lock_live found) info handled
    dsimp only
    split
    · exact served.closeSession true
    · exact served

theorem Tidy.pumpInsrvUdtData (moment : Moment) (info : UdtPacketInfo)
    (memory : Bool) (handled : DataHandled) :
    (listener.pumpInsrvUdtData moment info memory handled).2.Tidy := by
  unfold UdtListener.pumpInsrvUdtData
  split
  · split
    · split
      · exact tidy.acceptSyn moment info
      · exact tidy
    split
    · exact tidy.dataHandle moment info handled
    · rename_i addr found
      exact tidy.repeatSyn moment info (tidy.lock_live found)
  · exact tidy.dataHandle moment info handled

/-- No linked session has the status `NETSTAT_RESET` alone, so an update pass
never releases. -/
theorem Tidy.not_isReset (linked : addr ∈ listener.sessionsList)
    (moment : Moment) :
    ¬ ((listener.heap addr).node.atMoment moment addr).isReset = true := by
  intro only
  have only : (listener.heap addr).node.status = NetStat.reset :=
    of_decide_eq_true only
  rcases (tidy.linked addr linked).2 with opened | ⟨-, gone⟩
  · exact opened.ne (by decide) only
  · exact absurd (gone.symm.trans only) (by decide)

end

theorem updateUdtSession_closed (accepted : node.isAccept = true)
    (gone : node.status = closed) :
    node.updateUdtSession.2.status = closed ∨
      Opened node.updateUdtSession.2.status := by
  have early : node.status < established := by
    rw [gone]
    decide
  have fresh : node.status ≠ established := by
    rw [gone]
    decide
  unfold updateUdtSession
  rw [if_neg fresh, if_pos early]
  split
  · refine .inr (.inr ?_)
    rw [(resetUdt_status accepted false).2.2, has_or]
    exact Bool.or_true _
  · exact .inl gone

theorem Tidy.set_linked (tidy : listener.Tidy)
    (linked : addr ∈ listener.sessionsList) (moment : Moment) :
    (listener.setNode addr
      ((listener.heap addr).node.atMoment moment
        addr).updateUdtSession.2).Tidy := by
  have present : Steady True (listener.heap addr).node
      ((listener.heap addr).node.atMoment moment addr) :=
    .of_linkView rfl
  have accepted := (tidy.passive_steady present).1
  have steady := present.trans (updateUdtSession_steady accepted)
  refine tidy.set steady ?_
  intro _
  rcases (tidy.linked addr linked).2 with opened | ⟨gone, status⟩
  · exact .inl (opened.steady steady)
  · rcases updateUdtSession_closed accepted status with still | opened
    · exact .inr ⟨gone, still⟩
    · exact .inl opened

theorem Tidy.updateClient (tidy : listener.Tidy)
    (linked : addr ∈ listener.sessionsList) (moment : Moment) :
    (listener.updateClient moment addr).Tidy ∧
      (listener.updateClient moment addr).sessionsList = listener.sessionsList ∧
        (listener.updateClient moment addr).connManager =
          listener.connManager := by
  have updated := tidy.set_linked linked moment
  unfold UdtListener.updateClient
  rw [if_neg (tidy.not_isReset linked moment)]
  split
  · obtain ⟨conns, list⟩ := @closeSession_frame
      (listener.setNode addr
        ((listener.heap addr).node.atMoment moment addr).updateUdtSession.2)
      addr true
    exact ⟨updated.closeSession true, list, conns⟩
  · exact ⟨updated, rfl, rfl⟩

theorem Tidy.updateRounds (moment : Moment) {clients : List Nat}
    (tidy : listener.Tidy)
    (linked : ∀ client ∈ clients, client ∈ listener.sessionsList) :
    (clients.foldl (UdtListener.updateClient moment) listener).Tidy ∧
      (clients.foldl (UdtListener.updateClient moment)
        listener).connManager = listener.connManager := by
  induction clients generalizing listener with
  | nil => exact ⟨tidy, rfl⟩
  | cons client clients induction =>
    obtain ⟨first, later⟩ := List.forall_mem_cons.mp linked
    obtain ⟨kept, list, conns⟩ := tidy.updateClient first moment
    obtain ⟨done, same⟩ := induction kept (by rw [list]; exact later)
    exact ⟨done, same.trans conns⟩

theorem Tidy.updateUdtSessions (tidy : listener.Tidy) (moment : Moment) :
    (listener.updateUdtSessions moment).Tidy ∧
      (listener.updateUdtSessions moment).connManager =
        listener.connManager :=
  tidy.updateRounds moment fun _ member => member

theorem Tidy.msgUdtPackateHandler (tidy : listener.Tidy) (moment : Moment)
    (info : UdtPacketInfo) (handled : DataHandled) :
    (listener.msgUdtPackateHandler moment info handled).Tidy := by
  unfold UdtListener.msgUdtPackateHandler
  split
  · exact tidy
  split
  · exact tidy
  · rename_i addr found
    exact (tidy.atMoment found moment).udtSessionDataHandle
      (tidy.lock_live found) info handled

theorem sendSession_linkView (moment : Moment) (data : List Byte) :
    (if 0 ≤ ((node.atMoment moment addr).send data).1 then
      ((node.atMoment moment addr).send data).2.flushSendWindow.2
    else ((node.atMoment moment addr).send data).2).linkView =
      node.linkView := by
  split
  · exact (flushSendWindow_linkView _).trans (send_linkView _ data)
  · exact send_linkView _ data

theorem Tidy.sendSession (tidy : listener.Tidy) (moment : Moment)
    (localPort : UInt16) (data : List Byte) :
    (listener.sendSession moment localPort data).Tidy := by
  unfold UdtListener.sendSession
  split
  · exact tidy
  · rename_i addr found
    exact tidy.setNode (tidy.lock_live found)
      (.of_linkView (sendSession_linkView moment data))

theorem Tidy.closeSessionId (tidy : listener.Tidy) (moment : Moment)
    (localPort : UInt16) (force : Bool) :
    (listener.closeSessionId moment localPort force).Tidy := by
  unfold UdtListener.closeSessionId
  split
  · exact tidy
  · rename_i addr found
    exact (tidy.atMoment found moment).closeSession force

theorem step_tidy (tidy : listener.Tidy) (step : ListenerStep) :
    (listener.step step).Tidy := by
  cases step with
  | pump moment info memory handled =>
    exact tidy.pumpInsrvUdtData moment info memory handled
  | forward moment info handled =>
    exact tidy.msgUdtPackateHandler moment info handled
  | update moment => exact (tidy.updateUdtSessions moment).1
  | send moment localPort data => exact tidy.sendSession moment localPort data
  | close moment localPort force =>
    exact tidy.closeSessionId moment localPort force

end Tidy

theorem create_tidy {thid fd maxNum startId : Nat} (positive : 1 ≤ startId)
    (fits : startId + maxNum ≤ 65536) :
    (create thid fd maxNum startId).Tidy where
  manager := NodeMgr.create_keeps positive fits
  live := by simp [create]
  freed := by simp [create]
  passive := fun _ => ⟨rfl, by
    change listen.has synsend = false
    decide⟩
  linked := by simp [create]

end NdNet.UdtListener
